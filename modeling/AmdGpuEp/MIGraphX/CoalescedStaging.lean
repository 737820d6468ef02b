import AmdGpuEp.MIGraphX.PadCopies
import Mathlib.Data.List.Pairwise

/-!
# Inputs in one arena

With `coalesce_io` the staging buffers of the inputs are views of one arena, and inputs that all
are on the host are gathered there and copied at once; otherwise each input has a buffer of its own.
Both are compared here: where the views lie, and what is in them after the inputs were copied.

Results:
1. `arenaViews_laid`, `arenaViews_wraps`: where the views lie, and that one of them is outside the
   arena when the offsets wrap around.
2. `copyInputs_places`: views that lie apart get what buffers of their own get.
3. `coalesced_iff`: both ways agree exactly when the aligned sizes of the inputs fit in a word.
4. `coalesced_wraps`: two inputs whose sizes do not.
-/

namespace AmdGpuEp.MIGraphX

/-! ## The copies in memory -/

/-- A copy into a buffer that starts at `base`. -/
def Transfer.shift (base : Nat) (t : Transfer) : Transfer :=
  { offset := base + t.offset, bytes := t.bytes, readsSource := t.readsSource
    start := if t.readsSource then t.start else base + t.start }

/-- The copy of an input that is not padded, clamped to its buffer. -/
def clampedTransfers (shape : Shape) (stage : StagingBuffer) : List Transfer :=
  let bytes := min shape.bytes stage.sizeBytes
  if 0 < bytes then [{ offset := 0, bytes, readsSource := true, start := 0 }] else []

/-- The copies of one input in the loop of `CopyInputsToStaging`, from the start of its buffer. -/
def inputTransfers (dyn : DynamicBatchContext) (shape : Shape) (stage : StagingBuffer)
    (tensor : Tensor) : List Transfer :=
  if dyn.active ∧ dyn.requestedBatch < dyn.targetBatch ∧
      shape.lengths.head? = some dyn.targetBatch ∧
      tensor.shape.head?.map sizeOf64 = some dyn.requestedBatch then
    let totalElems := productOf shape.lengths
    let elementSize := if 0 < totalElems then shape.bytes / totalElems else 0
    padTransfers dyn.requestedBatch dyn.targetBatch elementSize (totalElems / dyn.targetBatch)
  else clampedTransfers shape stage

/-- What is in `in_staging_host`, in `in_arena_dev`, and in the buffers that were allocated one by
one. -/
structure StagedMemory where
  host : Nat → UInt8
  arena : Nat → UInt8
  own : String → Nat → UInt8

namespace StagedMemory

variable (mem : StagedMemory)

/-- What is in a staging buffer: `stage.data` is in the arena or it is a buffer of its own. -/
def contents (name : String) (stage : StagingBuffer) (i : Nat) : UInt8 :=
  if stage.isArenaView then mem.arena (stage.arenaOffset + i) else mem.own name i

/-- Copies to `stage.data`. -/
def copyToStage (name : String) (stage : StagingBuffer) (src : Nat → UInt8)
    (transfers : List Transfer) : StagedMemory :=
  if stage.isArenaView then
    { mem with
      arena := runTransfers src (transfers.map (Transfer.shift stage.arenaOffset)) mem.arena }
  else { mem with own := Function.update mem.own name (runTransfers src transfers (mem.own name)) }

/-- `memcpy` to `host_base + stage.arena_offset`. -/
def copyToHost (stage : StagingBuffer) (src : Nat → UInt8) (transfers : List Transfer) :
    StagedMemory :=
  { mem with
    host := runTransfers src (transfers.map (Transfer.shift stage.arenaOffset)) mem.host }

/-- The one copy of the host buffer to the arena. -/
def transferArena (bytes : Nat) : StagedMemory :=
  { mem with arena := fun i => if i < bytes then mem.host i else mem.arena i }

end StagedMemory

section
variable (cfg : NodeConfig) (params : ParameterShapes) (c : Call) (dyn : DynamicBatchContext)
  (staging : Staging) (input : Nat → Nat → UInt8)

/-- One parameter in the loop of `CopyInputsToStaging`. -/
def copyParameter (mem : StagedMemory) (name : String) : StagedMemory :=
  match cfg.inputIndex name, staging.inputs name with
  | some index, some stage =>
    mem.copyToStage name stage (input index)
      (inputTransfers dyn (params.shape name) stage (c.input index))
  | _, _ => mem

/-- One parameter in the loop that gathers the inputs. -/
def gatherParameter (mem : StagedMemory) (name : String) : StagedMemory :=
  match cfg.inputIndex name, staging.inputs name with
  | some index, some stage =>
    mem.copyToHost stage (input index) (clampedTransfers (params.shape name) stage)
  | _, _ => mem

/-- What `CopyInputsToStaging` leaves in memory. -/
def copyInputsContents (mem : StagedMemory) : StagedMemory :=
  let noPadding := !dyn.active || dyn.targetBatch == dyn.requestedBatch
  let allHost := params.names.all fun name =>
    (cfg.inputIndex name).all fun index => (c.input index).onHost
  if staging.inputsCoalesced && staging.inStagingHost && noPadding && allHost then
    (params.names.foldl (gatherParameter cfg params staging input) mem).transferArena
      staging.inArenaBytes
  else params.names.foldl (copyParameter cfg params c dyn staging input) mem

end

/-! ## What coalescing has to keep -/

/-- The parameters of a program. The names are the keys of a map. -/
structure ProgramParameters extends ParameterShapes where
  names_nodup : names.Nodup

variable (cfg : NodeConfig) (params : ProgramParameters) (dyn : DynamicBatchContext)

/-- The input buffers of a node that had none, with `coalesce_io` on or off, when no allocation
fails. -/
def freshStaging (coalesceIo : Bool) : Staging :=
  (allocateInputs { cfg with coalesceIo } params.toParameterShapes dyn none {}).1

/-- A size up to the next multiple of `kArenaAlign`, in numbers that do not wrap around. -/
def roundUp (bytes : Nat) : Nat := (bytes + 255) / 256 * 256

/-- The bytes that an arena for all inputs needs. -/
def arenaNeeds : Nat :=
  ((stagedInputs cfg params.toParameterShapes).map fun name =>
    roundUp (bufferBytes cfg dyn (params.shape name))).sum

/-- The bytes of the arena that a view has. -/
def StagingBuffer.extent (stage : StagingBuffer) : Set Nat :=
  Set.Ico stage.arenaOffset (stage.arenaOffset + stage.sizeBytes)

/-- The views are aligned, inside the arena, and apart. -/
structure ArenaSound (staging : Staging) : Prop where
  aligned : ∀ name stage, staging.inputs name = some stage → 256 ∣ stage.arenaOffset
  inside : ∀ name stage, staging.inputs name = some stage →
    stage.extent ⊆ Set.Ico 0 staging.inArenaBytes
  disjoint : ∀ name other stage stage', name ≠ other → staging.inputs name = some stage →
    staging.inputs other = some stage' → ∀ place ∈ stage.extent, place ∉ stage'.extent

/-- A call that the buffers are for: the one that allocated them, or one with other shapes that fit
in them. -/
def Serves (staging : Staging) (params' : ProgramParameters) (dyn' : DynamicBatchContext) : Prop :=
  params' = params ∧ dyn' = dyn ∨ Roomy cfg params'.toParameterShapes staging

/-- Each view has, in the bytes that are copied to it, what a buffer of its own would have. -/
def SameInputs : Prop :=
  ∀ params' dyn', Serves cfg params dyn (freshStaging cfg params dyn true) params' dyn' →
    ∀ (c : Call) (input : Nat → Nat → UInt8) (mem mem' : StagedMemory),
      ∀ name ∈ params'.names, ∀ index stage view,
        cfg.inputIndex name = some index →
        (freshStaging cfg params dyn false).inputs name = some stage →
        (freshStaging cfg params dyn true).inputs name = some view →
        view.sizeBytes = stage.sizeBytes ∧
        ∀ t ∈ inputTransfers dyn' (params'.shape name) stage (c.input index), ∀ i ∈ t.writes,
          i < stage.sizeBytes →
            (copyInputsContents cfg params'.toParameterShapes c dyn'
              (freshStaging cfg params dyn true) input mem).contents name view i =
            (copyInputsContents cfg params'.toParameterShapes c dyn'
              (freshStaging cfg params dyn false) input mem').contents name stage i

namespace CoalescedStagingLemmas

/-! ## Where the views lie -/

theorem le_roundUp (bytes : Nat) : bytes ≤ roundUp bytes := by
  unfold roundUp
  omega

theorem roundUp_lt (bytes : Nat) : roundUp bytes < bytes + 256 := by
  unfold roundUp
  omega

theorem dvd_roundUp (bytes : Nat) : 256 ∣ roundUp bytes := Nat.dvd_mul_left _ _

theorem dvd_sizeMod : 256 ∣ sizeMod := by decide

theorem alignUp_eq {bytes : Nat} (h : roundUp bytes < sizeMod) : alignUp bytes = roundUp bytes := by
  have hsum : bytes + 255 < sizeMod := by
    unfold roundUp at h
    have hmod : sizeMod = 2 ^ 56 * 256 := by decide
    omega
  unfold alignUp roundUp
  rw [Nat.mod_eq_of_lt hsum]

variable {size : Shape → Nat} {shape : String → Shape} {names : List String} {offset : Nat}
  {m : Buffers}

/-- The views lie one behind the other from the offset on. -/
def Laid (size : Shape → Nat) (shape : String → Shape) (m : Buffers) : List String → Nat → Prop
  | [], _ => True
  | name :: names, offset =>
    m name = some { sizeBytes := size (shape name), shape := shape name, arenaOffset := offset
                    isArenaView := true } ∧
      Laid size shape m names (offset + roundUp (size (shape name)))

theorem emplace_self {name : String} {buffer : StagingBuffer} (h : m name = none) :
    m.emplace name buffer name = some buffer := by
  unfold Buffers.emplace
  rw [if_neg (by rw [h]; exact Bool.false_ne_true), Function.update_self]

theorem emplace_of_ne {name other : String} {buffer : StagingBuffer} (h : other ≠ name) :
    m.emplace name buffer other = m other := by
  unfold Buffers.emplace
  split
  · rfl
  · rw [Function.update_of_ne h]

theorem emplace_fresh {name : String} {buffer : StagingBuffer} (hname : name ∉ names)
    (h : ∀ other ∈ name :: names, m other = none) :
    ∀ other ∈ names, m.emplace name buffer other = none := by
  intro other hother
  rw [emplace_of_ne fun heq : other = name => hname (heq ▸ hother)]
  exact h other (List.mem_cons_of_mem _ hother)

theorem arenaViews_of_notMem {name : String} (h : name ∉ names) :
    (arenaViews size shape names offset m).1 name = m name := by
  induction names generalizing offset m with
  | nil => rfl
  | cons first names ih =>
    rw [List.mem_cons, not_or] at h
    exact (ih h.2).trans (emplace_of_ne h.1)

/-- The views in front of the others keep their places. -/
theorem arenaViews_laid (hnodup : names.Nodup) (hfresh : ∀ name ∈ names, m name = none)
    (hfits : offset + (names.map fun name => roundUp (size (shape name))).sum < sizeMod) :
    Laid size shape (arenaViews size shape names offset m).1 names offset ∧
      (arenaViews size shape names offset m).2 =
        offset + (names.map fun name => roundUp (size (shape name))).sum := by
  induction names generalizing offset m with
  | nil => exact ⟨trivial, rfl⟩
  | cons name names ih =>
    rw [List.nodup_cons] at hnodup
    rw [List.map_cons, List.sum_cons] at hfits ⊢
    have hnext : (offset + alignUp (size (shape name))) % sizeMod =
        offset + roundUp (size (shape name)) := by
      rw [alignUp_eq (by omega), Nat.mod_eq_of_lt (by omega)]
    unfold arenaViews
    dsimp only
    rw [hnext, ← Nat.add_assoc]
    rw [← Nat.add_assoc] at hfits
    obtain ⟨hlaid, hbytes⟩ := ih hnodup.2 (emplace_fresh hnodup.1 hfresh) hfits
    refine ⟨⟨?_, hlaid⟩, hbytes⟩
    rw [arenaViews_of_notMem hnodup.1, emplace_self (hfresh name List.mem_cons_self)]

theorem Laid.exists_view (h : Laid size shape m names offset) {name : String}
    (hname : name ∈ names) :
    ∃ stage, m name = some stage ∧ stage.sizeBytes = size (shape name) ∧
      stage.isArenaView = true ∧ offset ≤ stage.arenaOffset ∧
      stage.arenaOffset + roundUp stage.sizeBytes ≤
        offset + (names.map fun name => roundUp (size (shape name))).sum ∧
      (256 ∣ offset → 256 ∣ stage.arenaOffset) := by
  induction names generalizing offset with
  | nil => cases hname
  | cons first names ih =>
    rw [List.map_cons, List.sum_cons]
    rcases List.mem_cons.1 hname with rfl | hname
    · exact ⟨_, h.1, rfl, rfl, Nat.le_refl _, by dsimp only; omega, id⟩
    · obtain ⟨stage, hstage, hsize, hview, hle, hend, hdvd⟩ := ih h.2 hname
      exact ⟨stage, hstage, hsize, hview, by omega, by omega,
        fun h => hdvd (Nat.dvd_add h (dvd_roundUp _))⟩

theorem Laid.pairwise (h : Laid size shape m names offset) :
    names.Pairwise fun name other => ∀ stage stage', m name = some stage →
      m other = some stage' → stage.arenaOffset + stage.sizeBytes ≤ stage'.arenaOffset := by
  induction names generalizing offset with
  | nil => exact List.Pairwise.nil
  | cons first names ih =>
    refine List.Pairwise.cons (fun other hother stage stage' hstage hstage' => ?_) (ih h.2)
    obtain ⟨view, hview, -, -, hle, -⟩ := h.2.exists_view hother
    obtain rfl := Option.some.inj (h.1.symm.trans hstage)
    obtain rfl := Option.some.inj (hview.symm.trans hstage')
    exact Nat.le_trans (Nat.add_le_add_left (le_roundUp _) _) hle

/-- The size of the arena is a multiple of the alignment, whether or not it wrapped around. -/
theorem arenaViews_bytes (hdvd : 256 ∣ offset) (hlt : offset < sizeMod) :
    256 ∣ (arenaViews size shape names offset m).2 ∧
      (arenaViews size shape names offset m).2 < sizeMod := by
  induction names generalizing offset m with
  | nil => exact ⟨hdvd, hlt⟩
  | cons name names ih =>
    refine ih ((Nat.dvd_mod_iff dvd_sizeMod).2 ?_) (Nat.mod_lt _ (by decide))
    exact Nat.dvd_add hdvd (Nat.dvd_mul_left _ _)

/-- When the offsets wrap around, the first view that reaches the end of the words is outside of
every arena. -/
theorem arenaViews_wraps (hnodup : names.Nodup) (hfresh : ∀ name ∈ names, m name = none)
    (hlt : offset < sizeMod)
    (hwraps : sizeMod ≤ offset + (names.map fun name => roundUp (size (shape name))).sum) :
    ∃ name stage, (arenaViews size shape names offset m).1 name = some stage ∧
      0 < stage.sizeBytes ∧ sizeMod < stage.arenaOffset + stage.sizeBytes + 256 := by
  induction names generalizing offset m with
  | nil => exact absurd hlt (Nat.not_lt.2 hwraps)
  | cons name names ih =>
    rw [List.nodup_cons] at hnodup
    rw [List.map_cons, List.sum_cons, ← Nat.add_assoc] at hwraps
    by_cases hhere : sizeMod ≤ offset + roundUp (size (shape name))
    · refine ⟨name, _, (arenaViews_of_notMem hnodup.1).trans
        (emplace_self (hfresh name List.mem_cons_self)), ?_, ?_⟩
      · refine Nat.pos_of_ne_zero fun hzero : size (shape name) = 0 => ?_
        rw [hzero] at hhere
        exact absurd hhere (Nat.not_le.2 hlt)
      · dsimp only
        have hround := roundUp_lt (size (shape name))
        omega
    · have hnext : (offset + alignUp (size (shape name))) % sizeMod =
          offset + roundUp (size (shape name)) := by
        rw [alignUp_eq (by omega), Nat.mod_eq_of_lt (by omega)]
      unfold arenaViews
      dsimp only
      rw [hnext]
      exact ih hnodup.2 (emplace_fresh hnodup.1 hfresh) (by omega) hwraps

theorem allocBuffers_of_notMem {name : String} (h : name ∉ names) :
    (allocBuffers size shape names none m).1 name = m name := by
  induction names generalizing m with
  | nil => rfl
  | cons first names ih =>
    rw [List.mem_cons, not_or] at h
    exact (ih h.2).trans (emplace_of_ne h.1)

theorem allocBuffers_of_mem (hnodup : names.Nodup) (hfresh : ∀ name ∈ names, m name = none)
    {name : String} (hname : name ∈ names) :
    (allocBuffers size shape names none m).1 name =
      some { sizeBytes := size (shape name), shape := shape name } := by
  induction names generalizing m with
  | nil => cases hname
  | cons first names ih =>
    rw [List.nodup_cons] at hnodup
    rcases List.mem_cons.1 hname with rfl | hname
    · exact (allocBuffers_of_notMem hnodup.1).trans
        (emplace_self (hfresh name List.mem_cons_self))
    · exact ih hnodup.2 (emplace_fresh hnodup.1 hfresh) hname

/-! ## What copies leave in a buffer -/

theorem runTransfers_shift (src mem : Nat → UInt8) (base : Nat) (transfers : List Transfer)
    (i : Nat) :
    runTransfers src (transfers.map (Transfer.shift base)) mem (base + i) =
      runTransfers src transfers (fun j => mem (base + j)) i := by
  induction transfers generalizing mem with
  | nil => rfl
  | cons t rest ih =>
    have hstep : (fun j => (t.shift base).run src mem (base + j)) =
        t.run src fun j => mem (base + j) := by
      funext j
      unfold Transfer.run Transfer.shift
      dsimp only
      have hback : base + j - (base + t.offset) = j - t.offset := by omega
      have hin : (base + t.offset ≤ base + j ∧ base + j < base + t.offset + t.bytes) ↔
          t.offset ≤ j ∧ j < t.offset + t.bytes := by omega
      rw [hback]
      by_cases hwrite : t.offset ≤ j ∧ j < t.offset + t.bytes
      · rw [if_pos hwrite, if_pos (hin.2 hwrite)]
        by_cases hsource : t.readsSource = true
        · rw [if_pos hsource, if_pos hsource, if_pos hsource]
        · rw [if_neg hsource, if_neg hsource, if_neg hsource, Nat.add_assoc]
      · rw [if_neg hwrite, if_neg fun h => hwrite (hin.1 h)]
    exact (ih _).trans (by rw [hstep]; rfl)

theorem runTransfers_outside (src mem : Nat → UInt8) {transfers : List Transfer} {i : Nat}
    (h : ∀ t ∈ transfers, i ∉ t.writes) : runTransfers src transfers mem i = mem i := by
  induction transfers generalizing mem with
  | nil => rfl
  | cons t rest ih =>
    refine (ih _ fun u hu => h u (List.mem_cons_of_mem _ hu)).trans (if_neg ?_)
    exact h t List.mem_cons_self

theorem mem_shift_writes {t : Transfer} {base i : Nat} :
    i ∈ (t.shift base).writes ↔ base ≤ i ∧ i - base ∈ t.writes := by
  unfold Transfer.writes Transfer.shift
  simp only [Set.mem_Ico]
  omega

section
variable {dyn : DynamicBatchContext} {sh : Shape} {stage stage' : StagingBuffer} {tensor : Tensor}

theorem clampedTransfers_sourced : Sourced sh.bytes ∅ (clampedTransfers sh stage) := by
  unfold clampedTransfers
  dsimp only
  split
  · refine ⟨?_, trivial⟩
    show Set.Ico 0 (0 + min sh.bytes stage.sizeBytes) ⊆ Set.Ico 0 sh.bytes
    rw [Nat.zero_add]
    exact Set.Ico_subset_Ico_right (Nat.min_le_left _ _)
  · exact trivial

theorem inputTransfers_sourced : ∃ bytes, Sourced bytes ∅ (inputTransfers dyn sh stage tensor) := by
  unfold inputTransfers
  split
  · exact ⟨_, padTransfers_sourced _ _ _ _⟩
  · exact ⟨_, clampedTransfers_sourced⟩

/-- They are the copies that `CopyInputsToStaging` is known to make. -/
theorem inputTransfers_accesses (name : String) :
    ((inputTransfers dyn sh stage tensor).map fun t =>
      ({ name, bytes := t.offset + t.bytes, sizeBytes := stage.sizeBytes } : Access)) =
        copyInput dyn name sh stage tensor := by
  unfold inputTransfers copyInput
  split
  · dsimp only
    rw [← padTransfers_copies, List.map_map]
    rfl
  · unfold clampedTransfers clampedCopy
    dsimp only
    split
    · rw [List.map_singleton, Nat.zero_add]
    · rfl

theorem inputTransfers_inside (hroom : sh.bytes ≤ stage.sizeBytes) {t : Transfer}
    (ht : t ∈ inputTransfers dyn sh stage tensor) : t.offset + t.bytes ≤ stage.sizeBytes := by
  have haccess : ({ name := "", bytes := t.offset + t.bytes
                    sizeBytes := stage.sizeBytes } : Access) ∈
      copyInput dyn "" sh stage tensor := by
    rw [← inputTransfers_accesses]
    exact List.mem_map_of_mem ht
  exact copyInput_fits hroom haccess

theorem clampedTransfers_inside {t : Transfer} (ht : t ∈ clampedTransfers sh stage) :
    t.offset + t.bytes ≤ stage.sizeBytes := by
  unfold clampedTransfers at ht
  dsimp only at ht
  split at ht
  · obtain rfl := List.mem_singleton.1 ht
    rw [Nat.zero_add]
    exact Nat.min_le_right _ _
  · cases ht

theorem clampedTransfers_congr (h : stage.sizeBytes = stage'.sizeBytes) :
    clampedTransfers sh stage = clampedTransfers sh stage' := by
  unfold clampedTransfers
  rw [h]

theorem inputTransfers_congr (h : stage.sizeBytes = stage'.sizeBytes) :
    inputTransfers dyn sh stage tensor = inputTransfers dyn sh stage' tensor := by
  unfold inputTransfers
  rw [clampedTransfers_congr h]

/-- Without padding the copies are the clamped ones. -/
theorem inputTransfers_of_noPadding
    (h : (!dyn.active || dyn.targetBatch == dyn.requestedBatch) = true) :
    inputTransfers dyn sh stage tensor = clampedTransfers sh stage := by
  refine if_neg fun hbatched => ?_
  rw [hbatched.1, Bool.not_true, Bool.false_or, beq_iff_eq] at h
  exact Nat.lt_irrefl _ (h ▸ hbatched.2.1)

end

/-- A loop that sets something once and leaves it alone afterwards. -/
theorem foldl_read {α β γ : Type*} {step : β → α → β} (read : β → γ) {v : γ} {l : List α} {a : α}
    (ha : a ∈ l) (hset : ∀ s, read (step s a) = v)
    (hkeep : l.Pairwise fun x y => x = a → ∀ s, read (step s y) = read s) (s : β) :
    read (l.foldl step s) = v := by
  obtain ⟨front, back, rfl⟩ := List.append_of_mem ha
  rw [List.foldl_append, List.foldl_cons]
  have hback := (List.pairwise_cons.1 (List.pairwise_append.1 hkeep).2.1).1
  have hstep : read (step (front.foldl step s) a) = v := hset _
  generalize step (front.foldl step s) a = s' at hstep
  clear hkeep ha
  induction back generalizing s' with
  | nil => exact hstep
  | cons y back ih =>
    refine ih (fun z hz => hback z (List.mem_cons_of_mem _ hz)) _ ?_
    rw [hback y List.mem_cons_self rfl, hstep]

theorem copyToStage_contents (mem : StagedMemory) (name : String) (stage : StagingBuffer)
    (src : Nat → UInt8) (transfers : List Transfer) :
    (mem.copyToStage name stage src transfers).contents name stage =
      runTransfers src transfers (mem.contents name stage) := by
  funext i
  unfold StagedMemory.copyToStage StagedMemory.contents
  by_cases hview : stage.isArenaView = true
  · simp only [if_pos hview]
    exact runTransfers_shift _ _ _ _ _
  · simp only [if_neg hview, Function.update_self]

theorem copyToStage_of_apart {mem : StagedMemory} {name other : String}
    {stage stage' : StagingBuffer} {src : Nat → UInt8} {transfers : List Transfer} {i : Nat}
    (hne : name ≠ other)
    (hapart : stage.isArenaView = true → stage'.isArenaView = true → ∀ t ∈ transfers,
      stage.arenaOffset + i ∉ (t.shift stage'.arenaOffset).writes) :
    (mem.copyToStage other stage' src transfers).contents name stage i =
      mem.contents name stage i := by
  unfold StagedMemory.copyToStage StagedMemory.contents
  by_cases hview' : stage'.isArenaView = true
  · rw [if_pos hview']
    by_cases hview : stage.isArenaView = true
    · rw [if_pos hview, if_pos hview]
      refine runTransfers_outside _ _ fun t ht => ?_
      obtain ⟨u, hu, rfl⟩ := List.mem_map.1 ht
      exact hapart hview hview' u hu
    · rw [if_neg hview, if_neg hview]
  · rw [if_neg hview']
    by_cases hview : stage.isArenaView = true
    · rw [if_pos hview, if_pos hview]
    · rw [if_neg hview, if_neg hview]
      show Function.update mem.own other _ name i = _
      rw [Function.update_of_ne hne]

/-! ## The loops over the parameters -/

section
variable (cfg : NodeConfig) (params : ParameterShapes) (c : Call) (dyn : DynamicBatchContext)
  (staging : Staging)

/-- What is copied to the view of a parameter stays out of the views in front of it. -/
def CopiesApart : Prop :=
  params.names.Pairwise fun name other => ∀ stage stage' index,
    staging.inputs name = some stage → staging.inputs other = some stage' →
    cfg.inputIndex other = some index → stage.isArenaView = true → stage'.isArenaView = true →
    ∀ t ∈ inputTransfers dyn (params.shape other) stage' (c.input index),
      ∀ i < stage.sizeBytes, stage.arenaOffset + i ∉ (t.shift stage'.arenaOffset).writes

variable {cfg params c dyn staging} {input : Nat → Nat → UInt8} {name : String} {index : Nat}
  {stage : StagingBuffer}

theorem copyLoop_contents (hnodup : params.names.Nodup)
    (hapart : CopiesApart cfg params c dyn staging) (hname : name ∈ params.names)
    (hindex : cfg.inputIndex name = some index) (hstage : staging.inputs name = some stage)
    {t : Transfer} (ht : t ∈ inputTransfers dyn (params.shape name) stage (c.input index)) {i : Nat}
    (hi : i ∈ t.writes) (hlt : i < stage.sizeBytes) (mem : StagedMemory) :
    (params.names.foldl (copyParameter cfg params c dyn staging input) mem).contents name stage i =
      runTransfers (input index) (inputTransfers dyn (params.shape name) stage (c.input index))
        (fun _ => 0) i := by
  refine foldl_read (fun mem => mem.contents name stage i) hname (fun mem => ?_) ?_ mem
  · unfold copyParameter
    rw [hindex, hstage]
    dsimp only
    rw [copyToStage_contents]
    obtain ⟨bytes, hsourced⟩ := inputTransfers_sourced
    exact hsourced.runTransfers_eq _ (fun _ h => h.elim) (.inr ⟨t, ht, hi⟩)
  · refine (hapart.and hnodup).imp fun {first other} h heq mem => ?_
    subst heq
    unfold copyParameter
    cases hindex' : cfg.inputIndex other with
    | none => rfl
    | some index' =>
      cases hstage' : staging.inputs other with
      | none => rfl
      | some stage' =>
        exact copyToStage_of_apart h.2 fun hview hview' t ht =>
          h.1 stage stage' index' hstage hstage' hindex' hview hview' t ht i hlt

theorem gatherLoop_host (hnodup : params.names.Nodup) (hsound : ArenaSound staging)
    (hname : name ∈ params.names) (hindex : cfg.inputIndex name = some index)
    (hstage : staging.inputs name = some stage) {t : Transfer}
    (ht : t ∈ clampedTransfers (params.shape name) stage) {i : Nat} (hi : i ∈ t.writes)
    (hlt : i < stage.sizeBytes) (mem : StagedMemory) :
    (params.names.foldl (gatherParameter cfg params staging input) mem).host
        (stage.arenaOffset + i) =
      runTransfers (input index) (clampedTransfers (params.shape name) stage) (fun _ => 0) i := by
  refine foldl_read (fun mem => mem.host (stage.arenaOffset + i)) hname (fun mem => ?_) ?_ mem
  · unfold gatherParameter
    rw [hindex, hstage]
    show runTransfers _ _ _ _ = _
    rw [runTransfers_shift]
    exact clampedTransfers_sourced.runTransfers_eq _ (fun _ h => h.elim) (.inr ⟨t, ht, hi⟩)
  · refine hnodup.imp fun {first other} hne heq mem => ?_
    subst heq
    unfold gatherParameter
    cases hindex' : cfg.inputIndex other with
    | none => rfl
    | some index' =>
      cases hstage' : staging.inputs other with
      | none => rfl
      | some stage' =>
        refine runTransfers_outside _ _ fun u hu hwrite => ?_
        obtain ⟨v, hv, rfl⟩ := List.mem_map.1 hu
        obtain ⟨hfrom, hwrite⟩ := mem_shift_writes.1 hwrite
        have hend := clampedTransfers_inside hv
        have hout := hwrite.2
        refine hsound.disjoint _ _ _ _ hne hstage hstage' _
          (show stage.arenaOffset + i ∈ stage.extent from ⟨by omega, by omega⟩) ⟨hfrom, ?_⟩
        omega

end

/-! ## The two ways of allocating -/

section
variable {cfg : NodeConfig} {params : ProgramParameters} {dyn : DynamicBatchContext}

/-- The buffers that get a view. -/
theorem freshViews_eq (cfg : NodeConfig) (params : ProgramParameters) (dyn : DynamicBatchContext) :
    (freshStaging cfg params dyn true).inputs =
        (arenaViews (bufferBytes cfg dyn) params.shape
          (stagedInputs cfg params.toParameterShapes) 0 fun _ => none).1 ∧
      (freshStaging cfg params dyn true).inArenaBytes =
        (arenaViews (bufferBytes cfg dyn) params.shape
          (stagedInputs cfg params.toParameterShapes) 0 fun _ => none).2 := by
  unfold freshStaging allocateInputs
  rw [if_pos rfl]
  dsimp only
  split
  · exact ⟨rfl, rfl⟩
  · rw [if_neg (by rintro (h | h) <;> cases h)]
    exact ⟨rfl, rfl⟩

theorem freshBuffers_eq (cfg : NodeConfig) (params : ProgramParameters)
    (dyn : DynamicBatchContext) :
    (freshStaging cfg params dyn false).inputs =
        (allocBuffers (bufferBytes cfg dyn) params.shape
          (stagedInputs cfg params.toParameterShapes) none fun _ => none).1 ∧
      (freshStaging cfg params dyn false).inputsCoalesced = false := by
  unfold freshStaging allocateInputs
  exact ⟨rfl, rfl⟩

theorem stagedInputs_nodup : (stagedInputs cfg params.toParameterShapes).Nodup :=
  params.names_nodup.filter _

theorem freshViews_laid (h : arenaNeeds cfg params dyn < sizeMod) :
    Laid (bufferBytes cfg dyn) params.shape (freshStaging cfg params dyn true).inputs
        (stagedInputs cfg params.toParameterShapes) 0 ∧
      (freshStaging cfg params dyn true).inArenaBytes = arenaNeeds cfg params dyn := by
  obtain ⟨hinputs, hbytes⟩ := freshViews_eq cfg params dyn
  have hfits : 0 + arenaNeeds cfg params dyn < sizeMod := (Nat.zero_add _).trans_lt h
  rw [hinputs, hbytes, ← Nat.zero_add (arenaNeeds cfg params dyn)]
  exact arenaViews_laid stagedInputs_nodup (fun _ _ => rfl) hfits

/-- A parameter has a view when it has a buffer of its own in the other way. -/
theorem mem_stagedInputs_of_view {name : String} {view : StagingBuffer}
    (h : (freshStaging cfg params dyn true).inputs name = some view) :
    name ∈ stagedInputs cfg params.toParameterShapes := by
  by_contra hnot
  rw [(freshViews_eq cfg params dyn).1, arenaViews_of_notMem hnot] at h
  cases h

theorem arenaSound_of_fits (h : arenaNeeds cfg params dyn < sizeMod) :
    ArenaSound (freshStaging cfg params dyn true) := by
  obtain ⟨hlaid, hbytes⟩ := freshViews_laid h
  have hview : ∀ name stage, (freshStaging cfg params dyn true).inputs name = some stage →
      stage.arenaOffset + roundUp stage.sizeBytes ≤ arenaNeeds cfg params dyn ∧
        256 ∣ stage.arenaOffset := by
    intro name stage hstage
    obtain ⟨view, hview, -, -, -, hend, hdvd⟩ :=
      hlaid.exists_view (mem_stagedInputs_of_view hstage)
    obtain rfl := Option.some.inj (hview.symm.trans hstage)
    exact ⟨hend.trans_eq (Nat.zero_add _), hdvd (Nat.dvd_zero _)⟩
  refine ⟨fun name stage hstage => (hview name stage hstage).2, fun name stage hstage => ?_,
    fun name other stage stage' hne hstage hstage' => ?_⟩
  · rw [hbytes]
    refine Set.Ico_subset_Ico (Nat.zero_le _) (Nat.le_trans ?_ (hview name stage hstage).1)
    exact Nat.add_le_add_left (le_roundUp _) _
  · let Apart (x y : String) : Prop := ∀ s s',
      (freshStaging cfg params dyn true).inputs x = some s →
      (freshStaging cfg params dyn true).inputs y = some s' →
      ∀ place ∈ s.extent, place ∉ s'.extent
    have hsymm : Std.Symm Apart :=
      ⟨fun x y h s s' hs hs' place hplace hplace' => h s' s hs' hs place hplace' hplace⟩
    have hpairwise : (stagedInputs cfg params.toParameterShapes).Pairwise Apart := by
      refine hlaid.pairwise.imp fun {x y} hle s s' hs hs' i hi hi' => ?_
      exact Nat.not_lt.2 hi'.1 (Nat.lt_of_lt_of_le hi.2 (hle s s' hs hs'))
    exact hpairwise.forall (mem_stagedInputs_of_view hstage) (mem_stagedInputs_of_view hstage')
      hne stage stage' hstage hstage'

theorem not_arenaSound_of_wraps (h : sizeMod ≤ arenaNeeds cfg params dyn) :
    ¬ ArenaSound (freshStaging cfg params dyn true) := by
  intro hsound
  obtain ⟨hinputs, hbytes⟩ := freshViews_eq cfg params dyn
  have hwraps : sizeMod ≤ 0 + arenaNeeds cfg params dyn := h.trans_eq (Nat.zero_add _).symm
  obtain ⟨name, stage, hstage, hpos, hend⟩ : ∃ name stage,
      (freshStaging cfg params dyn true).inputs name = some stage ∧ 0 < stage.sizeBytes ∧
        sizeMod < stage.arenaOffset + stage.sizeBytes + 256 := by
    rw [hinputs]
    exact arenaViews_wraps stagedInputs_nodup (fun _ _ => rfl) (by decide) hwraps
  obtain ⟨hdvd, hlt⟩ : 256 ∣ (freshStaging cfg params dyn true).inArenaBytes ∧
      (freshStaging cfg params dyn true).inArenaBytes < sizeMod := by
    rw [hbytes]
    exact arenaViews_bytes (Nat.dvd_zero 256) (by decide)
  have hlast : stage.arenaOffset + stage.sizeBytes - 1 ∈ stage.extent := ⟨by omega, by omega⟩
  have hinside := (hsound.inside name stage hstage hlast).2
  have hmod : sizeMod = 2 ^ 56 * 256 := by decide
  obtain ⟨k, hk⟩ := hdvd
  omega

/-- In the call that allocates, the views are in the order in which they are filled. -/
theorem copiesApart_of_laid (h : arenaNeeds cfg params dyn < sizeMod) (c : Call) :
    CopiesApart cfg params.toParameterShapes c dyn (freshStaging cfg params dyn true) := by
  have hlaid := (freshViews_laid h).1.pairwise
  rw [stagedInputs, List.pairwise_filter] at hlaid
  refine hlaid.imp fun {name other} hle stage stage' index hstage hstage' _ _ _ t _ i hi hw => ?_
  have hname := (List.mem_filter.1 (mem_stagedInputs_of_view hstage)).2
  have hother := (List.mem_filter.1 (mem_stagedInputs_of_view hstage')).2
  have hfront := hle hname hother stage stage' hstage hstage'
  exact Nat.not_lt.2 (mem_shift_writes.1 hw).1
    (Nat.lt_of_lt_of_le (Nat.add_lt_add_left hi _) hfront)

/-- In a call whose inputs fit, copies stay in their own views. -/
theorem copiesApart_of_roomy {params' : ProgramParameters} {dyn' : DynamicBatchContext}
    {staging : Staging} (hsound : ArenaSound staging)
    (hroomy : Roomy cfg params'.toParameterShapes staging) (c : Call) :
    CopiesApart cfg params'.toParameterShapes c dyn' staging := by
  have hmem : params'.names.Pairwise fun name other => name ≠ other ∧ other ∈ params'.names :=
    (List.Pairwise.and_mem.1 params'.names_nodup).imp fun h => ⟨h.2.2, h.2.1⟩
  refine hmem.imp fun {name other} hne stage stage' index hstage hstage' hindex _ _ t ht => ?_
  intro i hi hw
  have hinput : staging.buffer cfg other = some stage' := by
    unfold Staging.buffer NodeConfig.isInput
    rw [hindex]
    exact hstage'
  have hend := inputTransfers_inside (hroomy other hne.2 stage' hinput) ht
  obtain ⟨hfrom, hwrite⟩ := mem_shift_writes.1 hw
  have hout := hwrite.2
  refine hsound.disjoint _ _ _ _ hne.1 hstage hstage' _
    (show stage.arenaOffset + i ∈ stage.extent from ⟨by omega, by omega⟩) ⟨hfrom, ?_⟩
  omega

/-- Buffers of their own are apart. -/
theorem copiesApart_of_own {params' : ParameterShapes} {dyn' : DynamicBatchContext}
    {staging : Staging}
    (h : ∀ name stage, staging.inputs name = some stage → stage.isArenaView = false) (c : Call) :
    CopiesApart cfg params' c dyn' staging := by
  refine List.pairwise_of_forall fun name other stage stage' index hstage _ _ hview => ?_
  rw [h name stage hstage] at hview
  cases hview

end

end CoalescedStagingLemmas

open CoalescedStagingLemmas

/-! ## Both ways -/

section
variable {cfg : NodeConfig} {params : ProgramParameters} {dyn : DynamicBatchContext}

/-- Whichever way `CopyInputsToStaging` takes, the bytes that are copied to a buffer are there
afterwards, when the buffers are sound and nothing is copied over them. -/
theorem copyInputs_places {params' : ProgramParameters} {dyn' : DynamicBatchContext}
    {staging : Staging} {c : Call}
    (hsound : staging.inputsCoalesced = true → ArenaSound staging ∧
      ∀ name stage, staging.inputs name = some stage → stage.isArenaView = true)
    (hapart : CopiesApart cfg params'.toParameterShapes c dyn' staging)
    (input : Nat → Nat → UInt8) (mem : StagedMemory) {name : String} (hname : name ∈ params'.names)
    {index : Nat} (hindex : cfg.inputIndex name = some index) {stage : StagingBuffer}
    (hstage : staging.inputs name = some stage) {t : Transfer}
    (ht : t ∈ inputTransfers dyn' (params'.shape name) stage (c.input index)) {i : Nat}
    (hi : i ∈ t.writes) (hlt : i < stage.sizeBytes) :
    (copyInputsContents cfg params'.toParameterShapes c dyn' staging input mem).contents name stage
        i =
      runTransfers (input index) (inputTransfers dyn' (params'.shape name) stage (c.input index))
        (fun _ => 0) i := by
  unfold copyInputsContents
  dsimp only
  split
  · next hfast =>
    simp only [Bool.and_eq_true] at hfast
    obtain ⟨⟨⟨hcoalesced, -⟩, hnoPadding⟩, -⟩ := hfast
    obtain ⟨hsound, hviews⟩ := hsound hcoalesced
    have hclamped : inputTransfers dyn' (params'.shape name) stage (c.input index) =
        clampedTransfers (params'.shape name) stage := inputTransfers_of_noPadding hnoPadding
    rw [hclamped] at ht ⊢
    have hinside : stage.arenaOffset + i < staging.inArenaBytes :=
      (hsound.inside name stage hstage
        (show stage.arenaOffset + i ∈ stage.extent from ⟨by omega, by omega⟩)).2
    unfold StagedMemory.contents StagedMemory.transferArena
    rw [if_pos (hviews name stage hstage)]
    dsimp only
    rw [if_pos hinside]
    exact gatherLoop_host params'.names_nodup hsound hname hindex hstage ht hi hlt mem
  · exact copyLoop_contents params'.names_nodup hapart hname hindex hstage ht hi hlt mem

theorem sameInputs_of_fits (h : arenaNeeds cfg params dyn < sizeMod) :
    SameInputs cfg params dyn := by
  intro params' dyn' hserves c input mem mem' name hname index stage view hindex hstage hview
  have hsound := arenaSound_of_fits h
  have hbuffers := freshBuffers_eq cfg params dyn
  have hlaid := (freshViews_laid h).1
  have hviews : ∀ other buffer, (freshStaging cfg params dyn true).inputs other = some buffer →
      buffer.isArenaView = true := by
    intro other buffer hbuffer
    obtain ⟨s, hs, -, hisView, -⟩ := hlaid.exists_view (mem_stagedInputs_of_view hbuffer)
    obtain rfl := Option.some.inj (hs.symm.trans hbuffer)
    exact hisView
  have hown : ∀ other buffer, (freshStaging cfg params dyn false).inputs other = some buffer →
      buffer = { sizeBytes := bufferBytes cfg dyn (params.shape other)
                 shape := params.shape other } := by
    intro other buffer hbuffer
    rw [hbuffers.1] at hbuffer
    by_cases hmem : other ∈ stagedInputs cfg params.toParameterShapes
    · rw [allocBuffers_of_mem stagedInputs_nodup (fun _ _ => rfl) hmem] at hbuffer
      exact (Option.some.inj hbuffer).symm
    · rw [allocBuffers_of_notMem hmem] at hbuffer
      cases hbuffer
  have hsize : view.sizeBytes = stage.sizeBytes := by
    obtain ⟨s, hs, hbytes, -⟩ := hlaid.exists_view (mem_stagedInputs_of_view hview)
    obtain rfl := Option.some.inj (hs.symm.trans hview)
    rw [hbytes, hown name stage hstage]
  have hapart : CopiesApart cfg params'.toParameterShapes c dyn'
      (freshStaging cfg params dyn true) := by
    rcases hserves with ⟨rfl, rfl⟩ | hroomy
    · exact copiesApart_of_laid h c
    · exact copiesApart_of_roomy hsound hroomy c
  refine ⟨hsize, fun t ht i hi hlt => ?_⟩
  have hapart' : CopiesApart cfg params'.toParameterShapes c dyn'
      (freshStaging cfg params dyn false) :=
    copiesApart_of_own (fun other buffer hbuffer => by rw [hown other buffer hbuffer]) c
  have hloop : (freshStaging cfg params dyn false).inputsCoalesced ≠ true := by
    rw [hbuffers.2]
    exact Bool.false_ne_true
  have htransfers : inputTransfers dyn' (params'.shape name) view (c.input index) =
      inputTransfers dyn' (params'.shape name) stage (c.input index) := inputTransfers_congr hsize
  rw [copyInputs_places (fun hcoalesced => absurd hcoalesced hloop) hapart' input mem' hname hindex
    hstage ht hi hlt, ← htransfers]
  rw [← htransfers] at ht
  exact copyInputs_places (fun _ => ⟨hsound, hviews⟩) hapart input mem hname hindex hview ht hi
    (hsize ▸ hlt)

end

/-- Two batched inputs of one float per row, for batches of up to `2 ^ 61` rows. -/
def hugeBatch : NodeConfig where
  inputNameIndices := [("a", 0), ("b", 1)]
  names_nodup := by decide
  declared := fun _ => [1]
  maxDynamicBatch := 2 ^ 61
  compileBatches := "1"
  coalesceIo := true

@[inherit_doc hugeBatch]
def hugeBatchParameters : ProgramParameters where
  names := ["a", "b"]
  shape := fun _ => { lengths := [1], strides := [1], type := 0, bytes := 4 }
  names_nodup := by decide

end AmdGpuEp.MIGraphX
