import AmdGpuEp.Lib.Runs
import AmdGpuEp.MIGraphX.EpContext

/-!
# Loading embedded programs at the same time

`EpContextNodeReader` writes an embedded program to one file name in the
temporary directory, loads that file and removes it. The readers of several
sessions, or of several nodes, share the name. A reader opens a file and
truncates it, writes to what it has opened, loads what the name stands for, and
removes the name.

Results:
1. `windowed_step`: what readers that do not meet keep.
2. `loadsOwn_of_exclusive`: each reader loads its own program in every run in which
   no reader opens or removes the file while another one is between opening and
   loading.
3. `fails_of_not_exclusive`: every other step leads to a failure when the readers
   go on in some order.
4. `meeting_fails`: two readers that meet.
-/

namespace AmdGpuEp.MIGraphX

variable {P ι : Type*}

/-! ## The steps of a reader -/

/-- How far a reader is. `opened` has the file that it writes to, `loaded` and `finished` the
program, or `none` when the load has thrown. -/
inductive ReaderPhase (P : Type*)
  | start
  | opened (file : Nat)
  | written
  | loaded (program : Option P)
  | finished (program : Option P)
  deriving DecidableEq

/-- The temporary directory and the readers. `entry` is the file behind the name; `next` numbers the
files. -/
structure TempState (P ι : Type*) where
  entry : Option Nat
  contents : Nat → String
  next : Nat
  phase : ι → ReaderPhase P

/-- The text of a file after `text` is written at its start. -/
def overwrite (text content : String) : String :=
  String.ofList (text.toList ++ content.toList.drop text.length)

namespace TempState

variable [DecidableEq ι] (lib : Serializer P) (payload : ι → String)

def setPhase (s : TempState P ι) (i : ι) (phase : ReaderPhase P) : TempState P ι :=
  { s with phase := Function.update s.phase i phase }

/-- `std::ofstream ofs(temp_path, std::ios::trunc)` -/
def openFile (s : TempState P ι) (i : ι) : TempState P ι :=
  let file := s.entry.getD s.next
  { s with
    entry := some file
    contents := Function.update s.contents file ""
    next := if s.entry.isSome then s.next else s.next + 1
    phase := Function.update s.phase i (.opened file) }

/-- `ofs.write`, and the end of the scope. -/
def writeFile (s : TempState P ι) (i : ι) (file : Nat) : TempState P ι :=
  { s with
    contents := Function.update s.contents file (overwrite (payload i) (s.contents file))
    phase := Function.update s.phase i .written }

/-- `migraphx::load(temp_path)` -/
def loadFile (s : TempState P ι) : Option P :=
  s.entry.bind fun file => lib.load (s.contents file)

/-- `fs::remove(temp_path)`, after a load or in the handler of its exception. -/
def removeFile (s : TempState P ι) (i : ι) (program : Option P) : TempState P ι :=
  { s with entry := none, phase := Function.update s.phase i (.finished program) }

variable {lib payload} {s : TempState P ι} {i j : ι} {file : Nat} {program : Option P}
  {phase : ReaderPhase P}

theorem openFile_phase :
    (s.openFile i).phase = Function.update s.phase i (.opened (s.entry.getD s.next)) := rfl

theorem writeFile_phase :
    (s.writeFile payload i file).phase = Function.update s.phase i .written := rfl

theorem setPhase_phase : (s.setPhase i phase).phase = Function.update s.phase i phase := rfl

theorem removeFile_phase :
    (s.removeFile i program).phase = Function.update s.phase i (.finished program) := rfl

end TempState

/-- The readers in some order: a call names the reader that goes one step. A load is observed. -/
def tempMachine [DecidableEq ι] (lib : Serializer P) (payload : ι → String) :
    Machine (TempState P ι) ι (Option (Option P)) where
  step s i :=
    match s.phase i with
    | .start => some (s.openFile i, none)
    | .opened file => some (s.writeFile payload i file, none)
    | .written => some (s.setPhase i (.loaded (s.loadFile lib)), some (s.loadFile lib))
    | .loaded program => some (s.removeFile i program, none)
    | .finished _ => some (s, none)

/-- A load gives the program in the payload of the reader. -/
def LoadsOwn (lib : Serializer P) (payload : ι → String) (_ : TempState P ι) (i : ι)
    (_ : TempState P ι) (o : Option (Option P)) : Prop :=
  ∀ program, o = some program → program = lib.load (payload i)

namespace ReaderPhase

/-- The reader is between opening the file and loading it. -/
def inWindow : ReaderPhase P → Bool
  | opened _ => true
  | written => true
  | _ => false

/-- The next step opens or removes the file. -/
def changesEntry : ReaderPhase P → Bool
  | start => true
  | loaded _ => true
  | _ => false

end ReaderPhase

/-- A reader opens or removes the file when no other one is in between. -/
def Exclusive (s : TempState P ι) (i : ι) (_ : TempState P ι) (_ : Option (Option P)) : Prop :=
  (s.phase i).changesEntry = true → ∀ j, j ≠ i → (s.phase j).inWindow = false

instance [DecidableEq ι] [Fintype ι] (s : TempState P ι) (i : ι) (s' : TempState P ι)
    (o : Option (Option P)) : Decidable (Exclusive s i s' o) :=
  inferInstanceAs (Decidable (_ → ∀ j, j ≠ i → _))

instance [DecidableEq P] (lib : Serializer P) (payload : ι → String) (s : TempState P ι) (i : ι)
    (s' : TempState P ι) (o : Option (Option P)) : Decidable (LoadsOwn lib payload s i s' o) :=
  match o with
  | none => isTrue nofun
  | some program =>
    decidable_of_iff (program = lib.load (payload i))
      ⟨fun h _ hp => Option.some.inj hp ▸ h, fun h => h program rfl⟩

/-! ## Readers that do not meet -/

/-- At most one reader is in between, and the file is its own. -/
structure Windowed (payload : ι → String) (s : TempState P ι) : Prop where
  only : ∀ i j, (s.phase i).inWindow = true → (s.phase j).inWindow = true → i = j
  opened : ∀ i file, s.phase i = .opened file → s.entry = some file ∧ s.contents file = ""
  written : ∀ i, s.phase i = .written →
    ∃ file, s.entry = some file ∧ s.contents file = payload i

theorem overwrite_empty (text : String) : overwrite text "" = text := by
  simp [overwrite]

section

variable {lib : Serializer P} {payload : ι → String} {s s' : TempState P ι} {i j : ι}
  {o : Option (Option P)}

theorem windowed_of_start (h : ∀ i, s.phase i = .start) : Windowed payload s where
  only i _ hi := by rw [h i] at hi; cases hi
  opened i file hi := nomatch (h i).symm.trans hi
  written i hi := nomatch (h i).symm.trans hi

/-- Nobody is in between after a step that leaves the others as they were. -/
theorem windowed_of_none (h : ∀ j, (s.phase j).inWindow = false) : Windowed payload s where
  only i _ hi := nomatch (h i).symm.trans hi
  opened i file hi := by
    have hnone := h i
    rw [hi] at hnone
    cases hnone
  written i hi := by
    have hnone := h i
    rw [hi] at hnone
    cases hnone

/-- Only the reader of the step is in between afterwards. -/
theorem windowed_of_single [DecidableEq ι] (hother : ∀ j, j ≠ i → (s.phase j).inWindow = false)
    (hopened : ∀ file, s.phase i = .opened file → s.entry = some file ∧ s.contents file = "")
    (hwritten : s.phase i = .written →
      ∃ file, s.entry = some file ∧ s.contents file = payload i) : Windowed payload s where
  only j k hj hk := by
    have hself : ∀ j, (s.phase j).inWindow = true → j = i := fun j hj =>
      by_contra fun hne => nomatch (hother j hne).symm.trans hj
    rw [hself j hj, hself k hk]
  opened j file hj := by
    cases decEq j i with
    | isTrue heq => exact hopened file (heq ▸ hj)
    | isFalse hne =>
      have hnone := hother j hne
      rw [hj] at hnone
      cases hnone
  written j hj := by
    cases decEq j i with
    | isTrue heq =>
      subst heq
      exact hwritten hj
    | isFalse hne =>
      have hnone := hother j hne
      rw [hj] at hnone
      cases hnone

theorem Windowed.others (h : Windowed payload s) (hi : (s.phase i).inWindow = true) (hne : j ≠ i) :
    (s.phase j).inWindow = false :=
  Bool.eq_false_of_not_eq_true fun hj => hne (h.only j i hj hi)

theorem windowed_step [DecidableEq ι] (h : Windowed payload s)
    (hstep : (tempMachine lib payload).step s i = some (s', o))
    (hexcl : Exclusive s i s' o) : Windowed payload s' ∧ LoadsOwn lib payload s i s' o := by
  have hkeep : ∀ (phase : ReaderPhase P) (j : ι), j ≠ i →
      Function.update s.phase i phase j = s.phase j := fun phase j hne =>
    Function.update_of_ne hne ..
  simp only [tempMachine] at hstep
  cases hphase : s.phase i with
  | start =>
    rw [hphase] at hstep
    obtain ⟨rfl, rfl⟩ : s.openFile i = s' ∧ none = o := by simpa using hstep
    have hothers := hexcl (by rw [hphase]; rfl)
    refine ⟨windowed_of_single (i := i) ?_ ?_ ?_, nofun⟩
    · intro j hne
      rw [TempState.openFile_phase, hkeep _ j hne]
      exact hothers j hne
    · intro file hfile
      simp only [TempState.openFile, Function.update_self, ReaderPhase.opened.injEq] at hfile ⊢
      subst hfile
      exact ⟨rfl, Function.update_self ..⟩
    · intro hwritten
      simp [TempState.openFile] at hwritten
  | opened file =>
    rw [hphase] at hstep
    obtain ⟨rfl, rfl⟩ : s.writeFile payload i file = s' ∧ none = o := by simpa using hstep
    obtain ⟨hentry, hempty⟩ := h.opened i file hphase
    refine ⟨windowed_of_single (i := i) ?_ ?_ ?_, nofun⟩
    · intro j hne
      rw [TempState.writeFile_phase, hkeep _ j hne]
      exact h.others (by rw [hphase]; rfl) hne
    · intro file' hfile
      simp [TempState.writeFile] at hfile
    · intro _
      refine ⟨file, hentry, ?_⟩
      show Function.update s.contents file (overwrite (payload i) (s.contents file)) file = _
      rw [Function.update_self, hempty, overwrite_empty]
  | written =>
    rw [hphase] at hstep
    obtain ⟨rfl, rfl⟩ : s.setPhase i (.loaded (s.loadFile lib)) = s' ∧
        some (s.loadFile lib) = o := by simpa using hstep
    obtain ⟨file, hentry, hcontent⟩ := h.written i hphase
    refine ⟨windowed_of_none fun j => ?_, ?_⟩
    · cases decEq j i with
      | isTrue heq => simp [TempState.setPhase, heq, ReaderPhase.inWindow]
      | isFalse hne =>
        rw [TempState.setPhase_phase, hkeep _ j hne]
        exact h.others (by rw [hphase]; rfl) hne
    · intro program hprogram
      rw [← Option.some.inj hprogram, TempState.loadFile, hentry, Option.bind_some, hcontent]
  | loaded program =>
    rw [hphase] at hstep
    obtain ⟨rfl, rfl⟩ : s.removeFile i program = s' ∧ none = o := by simpa using hstep
    have hothers := hexcl (by rw [hphase]; rfl)
    refine ⟨windowed_of_none fun j => ?_, nofun⟩
    cases decEq j i with
    | isTrue heq => simp [TempState.removeFile, heq, ReaderPhase.inWindow]
    | isFalse hne =>
      rw [TempState.removeFile_phase, hkeep _ j hne]
      exact hothers j hne
  | finished program =>
    rw [hphase] at hstep
    obtain ⟨rfl, rfl⟩ : s = s' ∧ none = o := by simpa using hstep
    exact ⟨h, nofun⟩

end

/-- Readers that do not meet load their own programs, whatever is in the file at first. -/
theorem loadsOwn_of_exclusive [DecidableEq ι] (lib : Serializer P) (payload : ι → String)
    {s : TempState P ι} (hs : ∀ i, s.phase i = .start) {schedule : List ι}
    (h : (tempMachine lib payload).Every Exclusive s schedule) :
    (tempMachine lib payload).Every (LoadsOwn lib payload) s schedule :=
  Machine.Every.of_invariant (Windowed payload)
    (fun _ _ _ _ hw hstep hexcl => windowed_step hw hstep hexcl) (windowed_of_start hs) h

/-! ## Readers that meet -/

section

variable [DecidableEq ι] {lib : Serializer P} {payload : ι → String} {s s' : TempState P ι} {i j : ι}
  {o : Option (Option P)} {schedule : List ι}

/-- A failure later on is a failure of the run. -/
theorem not_every_cons (hstep : (tempMachine lib payload).step s i = some (s', o))
    (h : ¬ (tempMachine lib payload).Every (LoadsOwn lib payload) s' schedule) :
    ¬ (tempMachine lib payload).Every (LoadsOwn lib payload) s (i :: schedule) := by
  rw [Machine.Every.cons hstep]
  exact fun hall => h hall.2

/-- A reader that has not loaded yet fails when the file is gone: what it writes is no longer found
under the name. -/
theorem fails_of_gone (hentry : s.entry = none) (hj : (s.phase j).inWindow = true)
    (hprogram : lib.load (payload j) ≠ none) :
    ∃ schedule, ¬ (tempMachine lib payload).Every (LoadsOwn lib payload) s schedule := by
  have hload : ∀ t : TempState P ι, t.entry = none → t.phase j = .written →
      ¬ (tempMachine lib payload).Every (LoadsOwn lib payload) t [j] := by
    intro t hgone hwritten hall
    have hnone : t.loadFile lib = none := by rw [TempState.loadFile, hgone, Option.bind_none]
    have hstep : (tempMachine lib payload).step t j =
        some (t.setPhase j (.loaded none), some none) := by
      simp only [tempMachine, hwritten, hnone]
    have hown := ((Machine.Every.cons hstep).1 hall).1 none rfl
    exact hprogram hown.symm
  cases hphase : s.phase j with
  | opened file =>
    have hstep : (tempMachine lib payload).step s j =
        some (s.writeFile payload j file, none) := by simp only [tempMachine, hphase]
    refine ⟨[j, j], not_every_cons hstep (hload _ hentry ?_)⟩
    rw [TempState.writeFile_phase, Function.update_self]
  | written => exact ⟨[j], hload s hentry hphase⟩
  | start => rw [hphase] at hj; cases hj
  | loaded program => rw [hphase] at hj; cases hj
  | finished program => rw [hphase] at hj; cases hj

/-- A reader that removes the file in front of the load of another one. -/
theorem fails_of_loaded {program : Option P} (hphase : s.phase i = .loaded program) (hne : j ≠ i)
    (hj : (s.phase j).inWindow = true) (hprogram : lib.load (payload j) ≠ none) :
    ∃ schedule, ¬ (tempMachine lib payload).Every (LoadsOwn lib payload) s (i :: schedule) := by
  have hstep : (tempMachine lib payload).step s i = some (s.removeFile i program, none) := by
    simp only [tempMachine, hphase]
  have hkept : ((s.removeFile i program).phase j).inWindow = true := by
    rwa [TempState.removeFile_phase, Function.update_of_ne hne]
  obtain ⟨schedule, hfails⟩ := fails_of_gone rfl hkept hprogram
  exact ⟨schedule, not_every_cons hstep hfails⟩

theorem fails_of_written (hphase : s.phase i = .written) (hne : j ≠ i)
    (hj : (s.phase j).inWindow = true) (hprogram : lib.load (payload j) ≠ none) :
    ∃ schedule, ¬ (tempMachine lib payload).Every (LoadsOwn lib payload) s (i :: schedule) := by
  have hstep : (tempMachine lib payload).step s i =
      some (s.setPhase i (.loaded (s.loadFile lib)), some (s.loadFile lib)) := by
    simp only [tempMachine, hphase]
  have hkept : ((s.setPhase i (.loaded (s.loadFile lib))).phase j).inWindow = true := by
    rwa [TempState.setPhase_phase, Function.update_of_ne hne]
  obtain ⟨schedule, hfails⟩ := fails_of_loaded (Function.update_self ..) hne hkept hprogram
  exact ⟨i :: schedule, not_every_cons hstep hfails⟩

theorem fails_of_opened {file : Nat} (hphase : s.phase i = .opened file) (hne : j ≠ i)
    (hj : (s.phase j).inWindow = true) (hprogram : lib.load (payload j) ≠ none) :
    ∃ schedule, ¬ (tempMachine lib payload).Every (LoadsOwn lib payload) s (i :: schedule) := by
  have hstep : (tempMachine lib payload).step s i =
      some (s.writeFile payload i file, none) := by
    simp only [tempMachine, hphase]
  have hkept : ((s.writeFile payload i file).phase j).inWindow = true := by
    rwa [TempState.writeFile_phase, Function.update_of_ne hne]
  obtain ⟨schedule, hfails⟩ := fails_of_written (Function.update_self ..) hne hkept hprogram
  exact ⟨i :: schedule, not_every_cons hstep hfails⟩

/-- The condition is exact: after a step that breaks it, the readers can go on so that one of them
fails. -/
theorem fails_of_not_exclusive (hexcl : ¬ Exclusive s i s' o)
    (hprogram : ∀ j, lib.load (payload j) ≠ none) :
    ∃ schedule, ¬ (tempMachine lib payload).Every (LoadsOwn lib payload) s (i :: schedule) := by
  simp only [Exclusive, not_forall, Bool.not_eq_false] at hexcl
  obtain ⟨hchanges, j, hne, hj⟩ := hexcl
  cases hphase : s.phase i with
  | start =>
    have hstep : (tempMachine lib payload).step s i = some (s.openFile i, none) := by
      simp only [tempMachine, hphase]
    have hkept : ((s.openFile i).phase j).inWindow = true := by
      rwa [TempState.openFile_phase, Function.update_of_ne hne]
    obtain ⟨schedule, hfails⟩ := fails_of_opened (Function.update_self ..) hne hkept (hprogram j)
    exact ⟨i :: schedule, not_every_cons hstep hfails⟩
  | loaded program => exact fails_of_loaded hphase hne hj (hprogram j)
  | opened file => rw [hphase] at hchanges; cases hchanges
  | written => rw [hphase] at hchanges; cases hchanges
  | finished program => rw [hphase] at hchanges; cases hchanges

end

/-! ### Two readers -/

/-- No file at first, and nobody has started. -/
def noFile : TempState Bool (Fin 2) where
  entry := none
  contents := fun _ => ""
  next := 0
  phase := fun _ => .start

/-- The payloads of two readers: different programs. -/
def twoPayloads : Fin 2 → String := fun i => digitSerializer.save (i == 0)

theorem consecutive_loadOwn :
    (tempMachine digitSerializer twoPayloads).Every (LoadsOwn digitSerializer twoPayloads) noFile
      [0, 0, 0, 0, 1, 1, 1, 1] :=
  loadsOwn_of_exclusive digitSerializer twoPayloads (fun _ => rfl) (by decide +kernel)

/-- The second reader writes in front of the load of the first one, which loads the other program;
or it has loaded and removed the file, and the load of the first one throws. -/
theorem meeting_fails :
    ¬ (tempMachine digitSerializer twoPayloads).Every (LoadsOwn digitSerializer twoPayloads) noFile
        [0, 0, 1, 1, 0] ∧
      ¬ (tempMachine digitSerializer twoPayloads).Every (LoadsOwn digitSerializer twoPayloads)
        noFile [0, 0, 1, 1, 1, 1, 0] := by
  decide +kernel

end AmdGpuEp.MIGraphX
