import AmdGpuEp.Lib.Runs

/-!
# The data transfer of the DirectML factory

`dml_factory.cc` and `dml_data_transfer.cc`: the factory owns one `DMLDataTransfer`
and gives it to every session. `CreateEp` attaches the execution provider of the new
session to it, `ReleaseEp` takes away whatever is attached, and a copy that finds
nothing attached looks at the last session that was created.

Results:
1. `copies_live`: no copy runs on the provider of a session that is gone.
2. `copies_own_iff`: when all copies of a run are done by the provider of their own
   session.
3. `copies_own_of_alone`: sessions that are alone have their copies done.
4. `second_session_takes_copies`: a second session takes over the copies of the first.
-/

namespace AmdGpuEp.DirectML.DataTransfer

/-! ## The factory and its data transfer -/

/-- `DMLDataTransfer`. An execution provider goes by the number of its session. -/
structure DMLDataTransfer where
  executionProvider : Option Nat := none
  epRawRef : Bool := false
  deriving DecidableEq, Repr

/-- `ProviderFactory`, with the sessions that are live. -/
structure ProviderFactory where
  epRaw : Option Nat := none
  dataTransfer : DMLDataTransfer := {}
  sessions : List Nat := []
  nextSession : Nat := 0
  deriving DecidableEq, Repr

/-- What ORT asks for. `devices` is the number of devices of a new session, `ready` says whether
its D3D12 and DML objects can be made. A copy is one of a tensor of a session. -/
inductive Call
  | createEp (devices : Nat) (ready : Bool)
  | releaseEp (session : Option Nat)
  | copyTensors (session : Nat)
  deriving DecidableEq, Repr

inductive Outcome
  | done
  | failed
  | copied (session provider : Nat)
  | notAttached (session : Nat)
  deriving DecidableEq, Repr

namespace DMLDataTransfer

variable (t : DMLDataTransfer)

def attachExecutionProvider (ep : Option Nat) : DMLDataTransfer :=
  { t with executionProvider := ep }

def attachFactoryEpRef : DMLDataTransfer :=
  { t with epRawRef := true }

/-- `CopyTensorsImpl`: a transfer without a provider takes that of the factory's `m_ep_raw`. -/
def copyTensors (epRaw : Option Nat) (session : Nat) : DMLDataTransfer × Outcome :=
  let provider :=
    match t.executionProvider with
    | some provider => some provider
    | none => if t.epRawRef then epRaw else none
  match provider with
  | none => (t, .notAttached session)
  | some provider => (t.attachExecutionProvider (some provider), .copied session provider)

end DMLDataTransfer

namespace ProviderFactory

variable (f : ProviderFactory)

/-- `CreateEpImpl`. What it throws ends the process, as it is `noexcept`. -/
def createEp (devices : Nat) (ready : Bool) : Option (ProviderFactory × Outcome) :=
  if 1 < devices then some (f, .failed)
  else if ready then
    let session := f.nextSession
    some
      ({ epRaw := some session
         dataTransfer := (f.dataTransfer.attachExecutionProvider (some session)).attachFactoryEpRef
         sessions := session :: f.sessions
         nextSession := session + 1 }, .done)
  else none

/-- `ReleaseEpImpl`. -/
def releaseEp : Option Nat → ProviderFactory × Outcome
  | none => (f, .done)
  | some session =>
    ({ f with
        epRaw := none
        dataTransfer := f.dataTransfer.attachExecutionProvider none
        sessions := f.sessions.erase session }, .done)

def copyTensors (session : Nat) : ProviderFactory × Outcome :=
  let (transfer, outcome) := f.dataTransfer.copyTensors f.epRaw session
  ({ f with dataTransfer := transfer }, outcome)

/-- One call. ORT makes no call for a session that is gone. -/
def step : Call → Option (ProviderFactory × Outcome)
  | .createEp devices ready => f.createEp devices ready
  | .releaseEp session => if session.all (· ∈ f.sessions) then some (f.releaseEp session) else none
  | .copyTensors session => if session ∈ f.sessions then some (f.copyTensors session) else none

end ProviderFactory

def machine : Machine ProviderFactory Call Outcome where
  step := ProviderFactory.step

/-- A copy is done, by the provider of its own session. -/
def Outcome.Own : Outcome → Prop
  | .done | .failed => True
  | .copied session provider => provider = session
  | .notAttached _ => False

instance : DecidablePred Outcome.Own
  | .done | .failed => inferInstanceAs (Decidable True)
  | .copied session provider => inferInstanceAs (Decidable (provider = session))
  | .notAttached _ => inferInstanceAs (Decidable False)

/-! ## The calls so far

Histories list the newest call first. -/

/-- The call creates a session. -/
def Call.creates : Call → Bool
  | .createEp devices ready => devices ≤ 1 && ready
  | _ => false

/-- The session that the last creation or release has created, if it was a creation. -/
def lastCreated : List Call → Option Nat
  | [] => none
  | .releaseEp (some _) :: _ => none
  | c :: h => if c.creates then some (h.countP Call.creates) else lastCreated h

/-- A copy comes from the session that was created last, and no session was released since. -/
def Undisturbed (h : List Call) : Call → Prop
  | .copyTensors session => lastCreated h = some session
  | _ => True

/-! ## The invariant of the factory -/

namespace DataTransferLemmas

variable {f f' : ProviderFactory} {h : List Call} {c : Call} {o : Outcome}

/-- The provider that is attached is that of the session in `m_ep_raw`, which is live. -/
structure Inv (f : ProviderFactory) (h : List Call) : Prop where
  raw : f.epRaw = lastCreated h
  attached : f.dataTransfer.executionProvider = f.epRaw
  live : ∀ session ∈ f.epRaw, session ∈ f.sessions
  next : f.nextSession = h.countP Call.creates

theorem inv_init : Inv {} [] :=
  ⟨rfl, rfl, by simp, rfl⟩

/-- A call that neither creates nor releases a session leaves the record as it is. -/
theorem lastCreated_cons (hcreates : c.creates = false)
    (hrelease : ∀ session, c ≠ .releaseEp (some session)) :
    lastCreated (c :: h) = lastCreated h := by
  cases c with
  | createEp devices ready =>
    rw [lastCreated, hcreates]
    · rfl
    · simp
  | copyTensors session => rfl
  | releaseEp session =>
    cases session with
    | none => rfl
    | some session => exact absurd rfl (hrelease session)

theorem inv_cons (hinv : Inv f h) (hcreates : c.creates = false)
    (hrelease : ∀ session, c ≠ .releaseEp (some session)) : Inv f (c :: h) where
  raw := by rw [lastCreated_cons hcreates hrelease, hinv.raw]
  attached := hinv.attached
  live := hinv.live
  next := by rw [List.countP_cons_of_neg (by simp [hcreates]), hinv.next]

/-- With the invariant, a copy goes to the provider that is attached. -/
theorem copyTensors_eq (hinv : Inv f h) (session : Nat) :
    f.copyTensors session =
      (f, (f.epRaw.map (Outcome.copied session)).getD (.notAttached session)) := by
  obtain ⟨raw, ⟨attached, ref⟩, sessions, next⟩ := f
  obtain rfl : attached = raw := hinv.attached
  cases attached with
  | none => cases ref <;> rfl
  | some provider => rfl

/-- What every call keeps, and when a copy is done by its own provider. -/
theorem step_spec (hinv : Inv f h) (hstep : f.step c = some (f', o)) :
    Inv f' (c :: h) ∧ (o.Own ↔ Undisturbed h c) := by
  cases c with
  | createEp devices ready =>
    simp only [ProviderFactory.step, ProviderFactory.createEp] at hstep
    split at hstep
    · next hdevices =>
      cases hstep
      have hcreates : (Call.createEp devices ready).creates = false := by
        simp [Call.creates, Nat.not_le.2 hdevices]
      exact ⟨inv_cons hinv hcreates (by simp), Iff.rfl⟩
    · next hdevices =>
      split at hstep
      · next hready =>
        cases hstep
        have hcreates : (Call.createEp devices ready).creates = true := by
          simp [Call.creates, hready, Nat.not_lt.1 hdevices]
        refine ⟨⟨?_, rfl, ?_, ?_⟩, Iff.rfl⟩
        · rw [lastCreated, if_pos hcreates, hinv.next]
          simp
        · simp
        · rw [List.countP_cons_of_pos hcreates, hinv.next]
      · cases hstep
  | releaseEp session =>
    obtain ⟨-, hrelease⟩ := Option.ite_none_right_eq_some.1 hstep
    cases session with
    | none =>
      cases hrelease
      exact ⟨inv_cons hinv rfl (by simp), Iff.rfl⟩
    | some session =>
      cases hrelease
      refine ⟨⟨rfl, rfl, by simp, ?_⟩, Iff.rfl⟩
      exact hinv.next
  | copyTensors session =>
    obtain ⟨-, hcopy⟩ := Option.ite_none_right_eq_some.1 hstep
    rw [copyTensors_eq hinv] at hcopy
    cases hcopy
    refine ⟨inv_cons hinv rfl (by simp), ?_⟩
    rw [Undisturbed, ← hinv.raw]
    cases f.epRaw with
    | none => simp [Outcome.Own]
    | some provider => simp [Outcome.Own]

/-- The provider of a copy is that of a live session. -/
theorem step_live (hinv : Inv f h) (hstep : f.step c = some (f', o)) (session provider : Nat)
    (ho : o = .copied session provider) : provider ∈ f'.sessions := by
  subst ho
  cases c with
  | createEp devices ready =>
    simp only [ProviderFactory.step, ProviderFactory.createEp] at hstep
    split at hstep
    · cases hstep
    · split at hstep <;> cases hstep
  | releaseEp released =>
    obtain ⟨-, hrelease⟩ := Option.ite_none_right_eq_some.1 hstep
    cases released <;> cases hrelease
  | copyTensors copied =>
    obtain ⟨-, hcopy⟩ := Option.ite_none_right_eq_some.1 hstep
    rw [copyTensors_eq hinv] at hcopy
    cases hraw : f.epRaw with
    | none =>
      rw [hraw] at hcopy
      cases hcopy
    | some raw =>
      rw [hraw] at hcopy
      cases hcopy
      exact hinv.live provider hraw

/-- Where each session is created when no other is live, the live one was created last. -/
theorem alone_step (hinv : Inv f h) (halone : ∀ session ∈ f.sessions, f.epRaw = some session)
    (hnodup : f.sessions.Nodup) (hstep : f.step c = some (f', o))
    (hc : c.creates = true → f.sessions = []) :
    (∀ session ∈ f'.sessions, f'.epRaw = some session) ∧ f'.sessions.Nodup := by
  cases c with
  | createEp devices ready =>
    simp only [ProviderFactory.step, ProviderFactory.createEp] at hstep
    split at hstep
    · cases hstep
      exact ⟨halone, hnodup⟩
    · next hdevices =>
      split at hstep
      · next hready =>
        cases hstep
        have hnil := hc (by simp [Call.creates, hready, Nat.not_lt.1 hdevices])
        simp [hnil]
      · cases hstep
  | releaseEp session =>
    obtain ⟨hlive, hrelease⟩ := Option.ite_none_right_eq_some.1 hstep
    cases session with
    | none =>
      cases hrelease
      exact ⟨halone, hnodup⟩
    | some released =>
      cases hrelease
      refine ⟨fun other hother => ?_, hnodup.erase released⟩
      obtain ⟨hne, hmem⟩ := hnodup.mem_erase_iff.1 hother
      have hreleased : released ∈ f.sessions := by simpa using hlive
      have heq := (halone other hmem).symm.trans (halone released hreleased)
      exact absurd (Option.some.inj heq) hne
  | copyTensors session =>
    obtain ⟨-, hcopy⟩ := Option.ite_none_right_eq_some.1 hstep
    rw [copyTensors_eq hinv] at hcopy
    cases hcopy
    exact ⟨halone, hnodup⟩

end DataTransferLemmas

open DataTransferLemmas

/-! ## Runs -/

/-- The factory with the calls it has got, the newest first. -/
def recording : Machine (ProviderFactory × List Call) Call Outcome :=
  machine.withHistory fun h _ c _ _ => c :: h

/-- No copy runs on the provider of a session that is gone. -/
theorem copies_live (calls : List Call) :
    machine.Every
      (fun _ _ f o => ∀ session provider, o = .copied session provider → provider ∈ f.sessions) {}
      calls := by
  rw [← Machine.every_withHistory fun h _ c _ _ => c :: h]
  refine Machine.Every.of_kept (fun s => Inv s.1 s.2) ?_ inv_init calls
  rintro ⟨f, h⟩ c ⟨f', h'⟩ o hinv hstep
  obtain ⟨hcall, rfl⟩ := Machine.withHistory_step.1 hstep
  exact ⟨(step_spec hinv hcall).1, step_live hinv hcall⟩

/-- All copies of a run are done by the provider of their session exactly when each comes from the
session that was created last, with no release since. -/
theorem copies_own_iff (calls : List Call) :
    machine.Every (fun _ _ _ o => o.Own) {} calls ↔
      recording.Every (fun s c _ _ => Undisturbed s.2 c) ({}, []) calls := by
  rw [← Machine.every_withHistory fun h _ c _ _ => c :: h]
  refine Machine.Every.congr_of_kept (fun s => Inv s.1 s.2) ?_ inv_init calls
  rintro ⟨f, h⟩ c ⟨f', h'⟩ o hinv hstep
  obtain ⟨hcall, rfl⟩ := Machine.withHistory_step.1 hstep
  exact step_spec hinv hcall

/-- A second session takes over the copies of the first one, and its release leaves the first one
without a provider. -/
theorem second_session_takes_copies :
    ¬ machine.Every (fun _ _ _ o => o.Own) {}
        [.createEp 1 true, .createEp 1 true, .copyTensors 0] ∧
      ¬ machine.Every (fun _ _ _ o => o.Own) {}
        [.createEp 1 true, .createEp 1 true, .releaseEp (some 1), .copyTensors 0] := by
  decide

/-- Sessions that are created when no other is live have their copies done. -/
theorem copies_own_of_alone (calls : List Call)
    (halone : machine.Every (fun f c _ _ => c.creates = true → f.sessions = []) {} calls) :
    machine.Every (fun _ _ _ o => o.Own) {} calls := by
  rw [← Machine.every_withHistory fun h _ c _ _ => c :: h] at halone ⊢
  refine Machine.Every.of_invariant
    (fun s => Inv s.1 s.2 ∧ (∀ session ∈ s.1.sessions, s.1.epRaw = some session) ∧
      s.1.sessions.Nodup) ?_ ⟨inv_init, by simp, by simp⟩ halone
  rintro ⟨f, h⟩ c ⟨f', h'⟩ o ⟨hinv, hlast, hnodup⟩ hstep hc
  obtain ⟨hcall, rfl⟩ := Machine.withHistory_step.1 hstep
  obtain ⟨hinv', hown⟩ := step_spec hinv hcall
  refine ⟨⟨hinv', alone_step hinv hlast hnodup hcall hc⟩, hown.2 ?_⟩
  cases c with
  | copyTensors session =>
    obtain ⟨hlive, -⟩ := Option.ite_none_right_eq_some.1 hcall
    show lastCreated h = some session
    rw [← hinv.raw]
    exact hlast session hlive
  | _ => trivial

end AmdGpuEp.DirectML.DataTransfer
