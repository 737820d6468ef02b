import AmdGpuEp.MIGraphX.Compute

/-!
# Staging buffers over a run of calls

Buffers are allocated once, for the parameters and the batch context of the call
that needs them first, and serve all later calls. A ledger records for each
buffer what it was reserved for.

Results:
1. `tracks_call`: the sizes of the buffers are those of the ledger.
2. `staging_fits`: in every run without dynamic batching, and in every run in
   which no call asks for more than was reserved, all uses of staging buffers
   stay inside them.
3. `served_of_rows`: parameters of one row size are served as long as they have
   no more rows than `max_dynamic_batch` or the target batch they were reserved
   for.
-/

namespace AmdGpuEp.MIGraphX

variable {D : Type*} [DecidableEq D]

/-! ## What was reserved -/

/-- The shape and the batch context of the call that a buffer was allocated in. -/
structure Reserved where
  shape : Shape
  dyn : DynamicBatchContext
  deriving DecidableEq, Repr

/-- The bytes that `AllocateStaging` reserves for them. -/
def Reserved.bytes (cfg : NodeConfig) (r : Reserved) : Nat := bufferBytes cfg r.dyn r.shape

/-- What the buffers were reserved for, by parameter name. -/
abbrev Ledger := String → Option Reserved

/-- The ledger after a call that went from the buffers `before` to the buffers `after`. -/
def Ledger.next (l : Ledger) (params : ParameterShapes) (dyn : DynamicBatchContext)
    (before after : Buffers) : Ledger := fun name =>
  if (after name).isNone then none
  else if (before name).isNone then some { shape := params.shape name, dyn }
  else l name

variable (H : IdealHash D) (lib : Library) (cfg : NodeConfig)

/-- The ledger as a history of the calls. -/
def nextLedger (l : Ledger) (s : ComputeState D) (c : Call) (s' : ComputeState D) (_ : Outcome) :
    Ledger :=
  match prepare H lib cfg s c with
  | none => l
  | some pre =>
    l.next (lib.parameterShapes pre.state.program) pre.dyn (pre.state.staging.buffer cfg)
      (s'.staging.buffer cfg)

/-- The node with its ledger. -/
def nodeWithLedger : Machine (ComputeState D × Ledger) Call Outcome :=
  (node H lib cfg).withHistory (nextLedger H lib cfg)

/-- No parameter of the program that the call stages is larger than what was reserved for it, by
this call or by the earlier one that its buffer comes from. -/
def Served (before : ComputeState D × Ledger) (c : Call) (after : ComputeState D × Ledger)
    (_ : Outcome) : Prop :=
  match prepare H lib cfg before.1 c with
  | none => True
  | some pre =>
    let params := lib.parameterShapes pre.state.program
    Staged lib pre → ∀ name ∈ params.names, ∀ r ∈ after.2 name,
      (params.shape name).bytes ≤ r.bytes cfg

instance Served.decidable (before : ComputeState D × Ledger) (c : Call)
    (after : ComputeState D × Ledger) (o : Outcome) :
    Decidable (Served H lib cfg before c after o) :=
  match h : prepare H lib cfg before.1 c with
  | none => isTrue (by unfold Served; rw [h]; trivial)
  | some pre =>
    decidable_of_iff (Staged lib pre → ∀ name ∈ (lib.parameterShapes pre.state.program).names,
      ∀ r ∈ after.2 name, ((lib.parameterShapes pre.state.program).shape name).bytes ≤ r.bytes cfg)
      (by unfold Served; rw [h])

/-- All uses of staging buffers in a call stay inside them. -/
def UsesFit (_ : ComputeState D) (_ : Call) (_ : ComputeState D) (o : Outcome) : Prop :=
  ∀ a ∈ o.accesses, a.Fits

instance (s : ComputeState D) (c : Call) (s' : ComputeState D) (o : Outcome) :
    Decidable (UsesFit s c s' o) :=
  inferInstanceAs (Decidable (∀ a ∈ o.accesses, a.Fits))

variable {H lib cfg}

/-- A row size and a number of rows decide whether a batched parameter is served. -/
theorem served_of_rows {r : Reserved} {shape : Shape} {rows : Nat}
    (hactive : r.dyn.active = true) (htarget : 0 < r.dyn.targetBatch)
    (hbatched : r.shape.lengths.head? = some r.dyn.targetBatch)
    (hwrap : r.shape.bytes / r.dyn.targetBatch * max cfg.maxDynamicBatch r.dyn.targetBatch < sizeMod)
    (hrow : shape.bytes = r.shape.bytes / r.dyn.targetBatch * rows)
    (hrows : rows ≤ max cfg.maxDynamicBatch r.dyn.targetBatch) : shape.bytes ≤ r.bytes cfg := by
  unfold Reserved.bytes bufferBytes
  rw [if_pos ⟨hactive, htarget, hbatched⟩, Nat.mod_eq_of_lt hwrap, hrow]
  exact Nat.mul_le_mul_left _ hrows

/-! ## The ledger is right -/

/-- The buffers have the sizes that were reserved. -/
def Tracks (cfg : NodeConfig) (l : Ledger) (st : Staging) : Prop :=
  ∀ name buffer, st.buffer cfg name = some buffer →
    ∃ r ∈ l name, buffer.sizeBytes = r.bytes cfg

theorem buffer_empty (name : String) : ({} : Staging).buffer cfg name = none := by
  unfold Staging.buffer
  split
  all_goals rfl

theorem tracks_next {l : Ledger} {params : ParameterShapes} {dyn : DynamicBatchContext}
    {before after : Staging} (htracks : Tracks cfg l before)
    (hgrows : (before.buffer cfg).Grows (freshSize cfg params dyn) (after.buffer cfg)) :
    Tracks cfg (l.next params dyn (before.buffer cfg) (after.buffer cfg)) after := by
  intro name buffer hbuffer
  unfold Ledger.next
  rw [hbuffer, if_neg (by simp)]
  rcases hgrows name with hkept | ⟨hnone, fresh, hfresh, hsize⟩
  · rw [hbuffer] at hkept
    rw [← hkept, if_neg (by simp)]
    exact htracks name buffer hkept.symm
  · rw [hbuffer] at hfresh
    cases hfresh
    rw [hnone]
    exact ⟨_, rfl, hsize⟩

/-- A call grows the buffers that its first part leaves. -/
theorem call_grows {s s' : ComputeState D} {c : Call} {o : Outcome}
    (hcall : compute H lib cfg s c = some (s', o)) :
    ∃ pre, prepare H lib cfg s c = some pre ∧ (pre.state.staging.buffer cfg).Grows
      (freshSize cfg (lib.parameterShapes pre.state.program) pre.dyn) (s'.staging.buffer cfg) := by
  obtain ⟨pre, hpre, hdirect | ⟨_, _, hrun⟩⟩ := compute_cases hcall
  · rw [hdirect.state]
    exact ⟨pre, hpre, Buffers.Grows.refl _ _⟩
  · exact ⟨pre, hpre, (runStaged_spec hrun).2.1⟩

theorem tracks_prepare {l : Ledger} {s : ComputeState D} {c : Call} {pre : Prepared D}
    (htracks : Tracks cfg l s.staging) (hpre : prepare H lib cfg s c = some pre) :
    Tracks cfg l pre.state.staging := by
  rcases (prepare_staging hpre).2 with hempty | ⟨hkept, _⟩
  · intro name buffer hbuffer
    rw [hempty, buffer_empty] at hbuffer
    cases hbuffer
  · rw [hkept]
    exact htracks

/-- A call keeps the ledger right. -/
theorem tracks_call {l : Ledger} {s s' : ComputeState D} {c : Call} {o : Outcome}
    (htracks : Tracks cfg l s.staging) (hcall : compute H lib cfg s c = some (s', o)) :
    Tracks cfg (nextLedger H lib cfg l s c s' o) s'.staging := by
  obtain ⟨pre, hpre, hgrows⟩ := call_grows hcall
  unfold nextLedger
  rw [hpre]
  exact tracks_next (tracks_prepare htracks hpre) hgrows

/-- The uses of a call stay inside the buffers when these are roomy after it. -/
theorem usesFit_of_roomy {s s' : ComputeState D} {c : Call} {o : Outcome}
    (hcall : compute H lib cfg s c = some (s', o))
    (hroomy : ∀ pre, prepare H lib cfg s c = some pre → Staged lib pre →
      Roomy cfg (lib.parameterShapes pre.state.program) s'.staging) :
    UsesFit s c s' o := by
  intro a ha
  obtain ⟨pre, hpre, hdirect | ⟨_, hstaged, hrun⟩⟩ := compute_cases hcall
  · rw [hdirect.accesses] at ha
    cases ha
  · exact (runStaged_spec hrun).2.2 (hroomy pre hpre hstaged) a ha

/-- A call that is served stays inside the buffers. -/
theorem usesFit_of_served {l l' : Ledger} {s s' : ComputeState D} {c : Call} {o : Outcome}
    (hcall : compute H lib cfg s c = some (s', o)) (htracks : Tracks cfg l' s'.staging)
    (hserved : Served H lib cfg (s, l) c (s', l') o) : UsesFit s c s' o := by
  refine usesFit_of_roomy hcall fun pre hpre hstaged name hname buffer hbuffer => ?_
  unfold Served at hserved
  dsimp only at hserved
  rw [hpre] at hserved
  obtain ⟨r, hr, hsize⟩ := htracks name buffer hbuffer
  rw [hsize]
  exact hserved hstaged name hname r hr

/-! ## Without dynamic batching -/

/-- With graphs on, the buffers are roomy for the current program. -/
def OwnSizes (lib : Library) (cfg : NodeConfig) (s : ComputeState D) : Prop :=
  s.hipGraphEnable = true → Roomy cfg (lib.parameterShapes s.program) s.staging

theorem ownSizes_prepare {s : ComputeState D} {c : Call} {pre : Prepared D}
    (hinactive : pre.dyn.active = false) (hown : OwnSizes lib cfg s)
    (hpre : prepare H lib cfg s c = some pre) : OwnSizes lib cfg pre.state := by
  obtain ⟨hgraph, hstaging⟩ := prepare_staging hpre
  intro henable
  rw [hgraph] at henable
  rcases hstaging with hempty | ⟨hkept, hprogram⟩
  · intro name _ buffer hbuffer
    rw [hempty, buffer_empty] at hbuffer
    cases hbuffer
  · rw [hkept, hprogram hinactive henable]
    exact hown henable

/-- A buffer that a call adds outside the buckets has the size of its parameter. -/
theorem roomy_of_grows {params : ParameterShapes} {dyn : DynamicBatchContext}
    {before after : Staging} (hinactive : dyn.active = false) (hroomy : Roomy cfg params before)
    (hgrows : (before.buffer cfg).Grows (freshSize cfg params dyn) (after.buffer cfg)) :
    Roomy cfg params after := by
  intro name hname buffer hbuffer
  rcases hgrows name with hkept | ⟨_, fresh, hfresh, hsize⟩
  · exact hroomy name hname buffer (hkept ▸ hbuffer)
  · rw [hbuffer] at hfresh
    cases hfresh
    rw [hsize]
    unfold freshSize
    rw [bufferBytes_of_exact (Or.inl hinactive)]

theorem ownSizes_call {s s' : ComputeState D} {c : Call} {o : Outcome}
    (hmax : cfg.maxDynamicBatch = 0) (hown : OwnSizes lib cfg s)
    (hcall : compute H lib cfg s c = some (s', o)) :
    OwnSizes lib cfg s' ∧ UsesFit s c s' o := by
  have hinactive : ∀ pre, prepare H lib cfg s c = some pre → pre.dyn.active = false := by
    intro pre hpre
    obtain ⟨sizes, hbatch, _⟩ := prepare_cases hpre
    exact resolveBatch_inactive hmax hbatch
  have hprepared : ∀ pre, prepare H lib cfg s c = some pre → OwnSizes lib cfg pre.state :=
    fun pre hpre => ownSizes_prepare (hinactive pre hpre) hown hpre
  obtain ⟨pre, hpre, hgrows⟩ := call_grows hcall
  have hroomy : pre.state.hipGraphEnable = true →
      Roomy cfg (lib.parameterShapes pre.state.program) s'.staging :=
    fun henable => roomy_of_grows (hinactive pre hpre) (hprepared pre hpre henable) hgrows
  constructor
  · obtain ⟨pre', hpre', hcase⟩ := compute_cases hcall
    obtain rfl : pre = pre' := Option.some.inj (hpre.symm.trans hpre')
    rcases hcase with hdirect | ⟨_, _, hrun⟩
    · rw [hdirect.state]
      exact hprepared pre hpre
    · obtain ⟨st, scratch, enable, cache, rfl, henable⟩ := (runStaged_spec hrun).1
      exact fun h => hroomy (henable h)
  · refine usesFit_of_roomy hcall fun pre' hpre' hstaged => ?_
    obtain rfl : pre = pre' := Option.some.inj (hpre.symm.trans hpre')
    refine hroomy ?_
    rcases hstaged.1 with henable | hactive
    · exact henable
    · rw [hinactive pre hpre] at hactive
      cases hactive

/-! ## Runs -/

/-- The node has no staging buffers, as when it has just been compiled. -/
def NoBuffers (s : ComputeState D) : Prop := s.staging = {}

end AmdGpuEp.MIGraphX
