import AmdGpuEp.DirectML.TensorCopies

/-!
# The copies that ORT asks for

`CopyTensorsPlugin` of `dml_execution_provider.cc` copies one tensor after the other, but puts
readbacks off, to make them in batches: those that it has put off are made before any other copy.
`CopyTensorsImpl` of `dml_data_transfer.cc` calls it for ORT, and does not look at its status.

Results:
1. `copyTensorsImpl_faithful_iff`: when the copies are made as they would be one at a time.
-/

namespace AmdGpuEp.DirectML.TensorCopies

variable {α : Type}

/-! ## The loop -/

/-- What follows a call that returned. -/
def Outcome.andThen (o : Outcome α) (next : CopyState α → Outcome α) : Outcome α :=
  match o with
  | .done s => next s
  | o => o

/-- The loop of `CopyTensorsPlugin`, with the readbacks that are put off. -/
def pluginLoop (mark : Nat → α → α) :
    List (Entry × Nat) → List (Transfer Place) → CopyState α → Outcome α
  | [], pending, s => readbackAll mark pending s
  | (e, i) :: es, pending, s =>
    match e.dst.computeByteSize with
    | none => .thrown s
    | some size =>
      if size = 0 then pluginLoop mark es pending s
      else if e.toCpu = false then
        Outcome.andThen (readbackAll mark pending s) fun s =>
          pluginLoop mark es [] (CopyState.copy mark (e.transfer i size) s)
      else if e.fromCpu = false then
        pluginLoop mark es (pending ++ [e.transfer i (size % 2 ^ 32)]) s
      else
        Outcome.andThen (readbackAll mark pending s) fun s =>
          if e.accessible then
            pluginLoop mark es [] (CopyState.copy mark (e.transfer i e.src.byteSize) s)
          else .failed s

def copyTensorsPlugin (mark : Nat → α → α) (es : List Entry) (s : CopyState α) : Outcome α :=
  pluginLoop mark es.zipIdx [] s

/-- `CopyTensorsImpl` with its execution provider. It does not look at the status, and as it is
`noexcept`, what is thrown ends the process. -/
def copyTensorsImpl (mark : Nat → α → α) (es : List Entry) (s : CopyState α) : Outcome α :=
  match copyTensorsPlugin mark es s with
  | .done s => .done s
  | .failed s => .done s
  | .thrown _ => .lost
  | .lost => .lost

/-! ## The property, and when it holds -/

/-- The size of the destination is not to be had, or one of the accessors of ORT fails. -/
def Entry.PluginFails (e : Entry) : Prop :=
  e.dst.computeByteSize = none ∨
    (e.toCpu = true ∧ e.fromCpu = true ∧ e.dst.computeByteSize ≠ some 0 ∧ e.accessible = false)

/-- The readbacks between two other copies, those that are pending among them, add up to less than
4 GiB. -/
def BatchesFit (z : Sizes) : Nat → List Entry → Prop
  | pending, [] => pending < 2 ^ 32
  | pending, e :: es =>
    if z.moves e = false then BatchesFit z pending es
    else if e.isReadback then BatchesFit z (pending + z.size e) es
    else pending < 2 ^ 32 ∧ BatchesFit z 0 es

/-- No entry fails, no destination has so many elements that their number wraps (between two tensors
on the CPU it must not wrap to zero), and the readbacks between two other copies add up to less
than 4 GiB. -/
structure PluginSafe (es : List Entry) : Prop where
  succeeds : ∀ e ∈ es, ¬ e.PluginFails
  small : ∀ e ∈ es, e.dst.dims.prod < 2 ^ 32 ∨
    (e.toCpu = true ∧ e.fromCpu = true ∧ e.dst.dims.prod % 2 ^ 32 ≠ 0)
  batches : BatchesFit trueSizes 0 es

/-! ## The sizes that are copied -/

namespace TensorCopiesLemmas

variable {es : List Entry} {mark : Nat → α → α}

/-- The sizes that `CopyTensorsPlugin` copies. -/
def pluginSizes : Sizes where
  moves := computedMoves
  size e :=
    if e.toCpu && e.fromCpu then e.src.byteSize
    else if e.isReadback then e.dst.computeByteSize.getD 0 % 2 ^ 32
    else e.dst.computeByteSize.getD 0

theorem pluginSizes_moves {e : Entry} {size : Nat} (h : e.dst.computeByteSize = some size) :
    pluginSizes.moves e = (size != 0) :=
  computedMoves_of_size h

theorem Agrees.batchesFit {z : Sizes} (h : Agrees z es) (pending : Nat) :
    BatchesFit z pending es ↔ BatchesFit trueSizes pending es := by
  induction es generalizing pending with
  | nil => exact Iff.rfl
  | cons e es ih =>
    have hes : Agrees z es := fun e' he' => h e' (List.mem_cons_of_mem _ he')
    obtain ⟨hmoves, hsize⟩ := h e List.mem_cons_self
    rw [BatchesFit, BatchesFit, ← hmoves]
    by_cases hm : z.moves e = false
    · rw [if_pos hm, if_pos hm]
      exact ih hes pending
    · rw [if_neg hm, if_neg hm, hsize (Bool.not_eq_false _ ▸ hm)]
      split
      · exact ih hes _
      · exact and_congr_right fun _ => ih hes 0

/-- The readbacks of a batch that fits are smaller than 4 GiB. -/
theorem byteSize_lt_of_fit {pending : Nat} (h : BatchesFit trueSizes pending es) {e : Entry}
    (he : e ∈ es) (hreadback : e.isReadback = true) : e.dst.byteSize < 2 ^ 32 := by
  have hpending : ∀ {n : Nat} {es : List Entry}, BatchesFit trueSizes n es → n < 2 ^ 32 := by
    intro n es h
    induction es generalizing n with
    | nil => exact h
    | cons e es ih =>
      rw [BatchesFit] at h
      split at h
      · exact ih h
      · split at h
        · exact Nat.lt_of_le_of_lt (Nat.le_add_right _ _) (ih h)
        · exact h.1
  induction es generalizing pending with
  | nil => exact absurd he List.not_mem_nil
  | cons e' es ih =>
    rw [BatchesFit] at h
    rcases List.mem_cons.1 he with rfl | he
    · split at h
      · next hmoves =>
        have hzero : e.dst.byteSize = 0 := by simpa [trueSizes] using hmoves
        rw [hzero]
        decide
      · exact Nat.lt_of_le_of_lt (Nat.le_add_left _ _) (hpending h)
    · split at h
      · exact ih h he
      · split at h
        · exact ih h he
        · exact ih h.2 he

/-- Sizes that the first loop gets right are not wrapped. -/
theorem small_of_agrees (hsucceeds : ∀ e ∈ es, ¬ e.PluginFails) (h : Agrees pluginSizes es) :
    ∀ e ∈ es, e.dst.dims.prod < 2 ^ 32 ∨
      (e.toCpu = true ∧ e.fromCpu = true ∧ e.dst.dims.prod % 2 ^ 32 ≠ 0) := by
  intro e he
  obtain ⟨hmoves, hbytes⟩ := h e he
  cases hsize : e.dst.computeByteSize with
  | none => exact absurd (Or.inl hsize) (hsucceeds e he)
  | some size =>
    rw [← computeByteSize_eq_iff hsize]
    have hle := size_le_byteSize hsize
    by_cases hzero : size = 0
    · left
      have htrue : trueSizes.moves e = false := by
        rw [← hmoves, pluginSizes_moves hsize, hzero]
        rfl
      rw [hzero]
      symm
      simpa [trueSizes] using htrue
    · have hbytes := hbytes ((pluginSizes_moves hsize).trans (bne_iff_ne.2 hzero))
      have hsizes : pluginSizes.size e = if e.toCpu && e.fromCpu then e.src.byteSize
          else if e.isReadback then size % 2 ^ 32 else size := by
        simp only [pluginSizes, hsize, Option.getD_some]
      rw [hsizes] at hbytes
      split at hbytes
      · next hcpu =>
        obtain ⟨hto, hfrom⟩ := Bool.and_eq_true_iff.1 hcpu
        exact Or.inr ⟨hto, hfrom, fun hmod =>
          hzero ((computeByteSize_eq_zero_iff hsize).2 hmod)⟩
      · split at hbytes
        · exact Or.inl (Nat.le_antisymm hle (hbytes ▸ Nat.mod_le _ _))
        · exact Or.inl hbytes

/-- Where no number of elements wraps, the first loop gets the sizes right. -/
theorem agrees_of_small (hsucceeds : ∀ e ∈ es, ¬ e.PluginFails)
    (hsmall : ∀ e ∈ es, e.dst.dims.prod < 2 ^ 32 ∨
      (e.toCpu = true ∧ e.fromCpu = true ∧ e.dst.dims.prod % 2 ^ 32 ≠ 0))
    (hfit : BatchesFit trueSizes 0 es) : Agrees pluginSizes es := by
  intro e he
  cases hsize : e.dst.computeByteSize with
  | none => exact absurd (Or.inl hsize) (hsucceeds e he)
  | some size =>
    have hsizes : pluginSizes.size e = if e.toCpu && e.fromCpu then e.src.byteSize
        else if e.isReadback then size % 2 ^ 32 else size := by
      simp only [pluginSizes, hsize, Option.getD_some]
    rw [pluginSizes_moves hsize, hsizes]
    rcases hsmall e he with hsmall | ⟨hto, hfrom, hmod⟩
    · rw [(computeByteSize_eq_iff hsize).2 hsmall]
      refine ⟨rfl, fun _ => ?_⟩
      split
      · exact e.same_size
      · split
        · next hreadback => exact Nat.mod_eq_of_lt (byteSize_lt_of_fit hfit he hreadback)
        · rfl
    · have hne : size ≠ 0 := fun hzero => hmod ((computeByteSize_eq_zero_iff hsize).1 hzero)
      have hbytes : e.dst.byteSize ≠ 0 := fun hzero => hne (size_eq_zero_of_byteSize hsize hzero)
      rw [hto, hfrom]
      exact ⟨(bne_iff_ne.2 hne).trans (bne_iff_ne.2 hbytes).symm, fun _ => e.same_size⟩

/-! ## The loop over the entries -/

/-- What the first loop does with an entry. -/
inductive PluginStep (mark : Nat → α → α) (e : Entry) (i : Nat) (es : List (Entry × Nat))
    (pending : List (Transfer Place)) (s : CopyState α) : Outcome α → Prop
  | throws : e.dst.computeByteSize = none → PluginStep mark e i es pending s (.thrown s)
  | skips : pluginSizes.moves e = false →
      PluginStep mark e i es pending s (pluginLoop mark es pending s)
  | putsOff : pluginSizes.moves e = true → e.isReadback = true →
      PluginStep mark e i es pending s
        (pluginLoop mark es (pending ++ [e.transfer i (pluginSizes.size e)]) s)
  | copies : pluginSizes.moves e = true → e.isReadback = false → ¬ e.PluginFails →
      PluginStep mark e i es pending s
        (Outcome.andThen (readbackAll mark pending s) fun s =>
          pluginLoop mark es [] (CopyState.copy mark (e.transfer i (pluginSizes.size e)) s))
  | fails : e.PluginFails → e.dst.computeByteSize ≠ none →
      PluginStep mark e i es pending s
        (Outcome.andThen (readbackAll mark pending s) Outcome.failed)

theorem pluginLoop_cons (mark : Nat → α → α) (e : Entry) (i : Nat) (es : List (Entry × Nat))
    (pending : List (Transfer Place)) (s : CopyState α) :
    PluginStep mark e i es pending s (pluginLoop mark ((e, i) :: es) pending s) := by
  rw [pluginLoop]
  cases hsize : e.dst.computeByteSize with
  | none => exact .throws hsize
  | some size =>
    dsimp only
    by_cases hzero : size = 0
    · rw [if_pos hzero]
      exact .skips (by rw [pluginSizes_moves hsize, hzero]; rfl)
    · have hmoves : pluginSizes.moves e = true :=
        (pluginSizes_moves hsize).trans (bne_iff_ne.2 hzero)
      rw [if_neg hzero]
      cases hto : e.toCpu with
      | false =>
        have hreadback : e.isReadback = false := by rw [Entry.isReadback, hto, Bool.false_and]
        have hsizes : pluginSizes.size e = size := by simp [pluginSizes, hto, hreadback, hsize]
        have hsucceeds : ¬ e.PluginFails := by simp [Entry.PluginFails, hsize, hto]
        have hcopies : PluginStep mark e i es pending s _ := .copies hmoves hreadback hsucceeds
        rw [hsizes] at hcopies
        rw [if_pos rfl]
        exact hcopies
      | true =>
        rw [if_neg (by decide)]
        cases hfrom : e.fromCpu with
        | false =>
          have hreadback : e.isReadback = true := by rw [Entry.isReadback, hto, hfrom]; rfl
          have hsizes : pluginSizes.size e = size % 2 ^ 32 := by
            simp [pluginSizes, hto, hfrom, hreadback, hsize]
          have hputsOff : PluginStep mark e i es pending s _ := .putsOff hmoves hreadback
          rw [hsizes] at hputsOff
          rw [if_pos rfl]
          exact hputsOff
        | true =>
          have hreadback : e.isReadback = false := by rw [Entry.isReadback, hto, hfrom]; rfl
          have hsizes : pluginSizes.size e = e.src.byteSize := by simp [pluginSizes, hto, hfrom]
          rw [if_neg (by decide)]
          cases haccess : e.accessible with
          | true =>
            have hsucceeds : ¬ e.PluginFails := by simp [Entry.PluginFails, hsize, haccess]
            have hcopies : PluginStep mark e i es pending s _ := .copies hmoves hreadback hsucceeds
            rw [hsizes] at hcopies
            exact hcopies
          | false =>
            refine .fails (Or.inr ⟨hto, hfrom, ?_, haccess⟩) ?_
            · rw [hsize]
              simpa using hzero
            · rw [hsize]
              exact Option.some_ne_none _

variable {items : List (Entry × Nat)} {pending : List (Transfer Place)} {s s' : CopyState α}

theorem sum_sizes_append (ts : List (Transfer Place)) (t : Transfer Place) :
    ((ts ++ [t]).map Transfer.size).sum = (ts.map Transfer.size).sum + t.size := by
  rw [List.map_append, List.sum_append, List.map_singleton, List.sum_singleton]

/-- The first loop, where no entry fails and its batches fit. -/
theorem pluginLoop_of_fits (mark : Nat → α → α) (pending : List (Transfer Place))
    (s : CopyState α) (hsucceeds : ∀ a ∈ items, ¬ a.1.PluginFails)
    (hpos : ∀ a ∈ items, pluginSizes.moves a.1 = true → 0 < pluginSizes.size a.1)
    (hpending : ∀ t ∈ pending, IsReadback t ∧ 0 < t.size)
    (hfit : BatchesFit pluginSizes (pending.map Transfer.size).sum (items.map Prod.fst)) :
    ∃ s', pluginLoop mark items pending s = .done s' ∧
      s'.toTracked = runAll mark (pending ++ moved pluginSizes items) s.toTracked ∧
      ∀ l ∈ s'.batches, l ∈ s.batches ∨ l.Fits := by
  induction items generalizing pending s with
  | nil =>
    rw [moved_nil, List.append_nil]
    exact readbackAll_of_fits mark s (fun t ht => (hpending t ht).1)
      (fun t ht => (hpending t ht).2) hfit
  | cons a items ih =>
    obtain ⟨e, i⟩ := a
    rw [List.forall_mem_cons] at hsucceeds hpos
    rw [List.map_cons, BatchesFit] at hfit
    have hstep := pluginLoop_cons mark e i items pending s
    generalize pluginLoop mark ((e, i) :: items) pending s = o at hstep
    cases hstep with
    | throws hnone => exact absurd (Or.inl hnone) hsucceeds.1
    | skips hmoves =>
      rw [if_pos hmoves] at hfit
      rw [moved_cons_of_not_moves hmoves]
      exact ih pending s hsucceeds.2 hpos.2 hpending hfit
    | putsOff hmoves hreadback =>
      rw [if_neg (by rw [hmoves]; decide), if_pos hreadback] at hfit
      rw [moved_cons_of_moves hmoves,
        List.append_cons pending _ (moved pluginSizes items)]
      refine ih _ s hsucceeds.2 hpos.2 ?_ ?_
      · intro t ht
        rcases List.mem_append.1 ht with ht | ht
        · exact hpending t ht
        · rw [List.mem_singleton.1 ht]
          exact ⟨isReadback_transfer hreadback _ _, hpos.1 hmoves⟩
      · rw [sum_sizes_append]
        exact hfit
    | copies hmoves hreadback _ =>
      rw [if_neg (by rw [hmoves]; decide),
        if_neg (by rw [hreadback]; decide)] at hfit
      obtain ⟨s₁, hdone, htracked, hbatches⟩ := readbackAll_of_fits mark s
        (fun t ht => (hpending t ht).1) (fun t ht => (hpending t ht).2) hfit.1
      rw [hdone]
      obtain ⟨s₂, hloop, htracked₂, hbatches₂⟩ := ih []
        (CopyState.copy mark (e.transfer i (pluginSizes.size e)) s₁) hsucceeds.2 hpos.2
        (fun t ht => absurd ht List.not_mem_nil) hfit.2
      refine ⟨s₂, hloop, ?_, fun l hl => (hbatches₂ l hl).elim (hbatches l) Or.inr⟩
      rw [htracked₂, List.nil_append, moved_cons_of_moves hmoves, runAll_append, runAll_cons,
        ← htracked]
      rfl
    | fails hfails _ => exact absurd hfails hsucceeds.1

/-- What is known where the first loop came to its end, and its batches fitted. -/
theorem pluginLoop_done (pending : List (Transfer Place)) (s : CopyState α)
    (hpending : ∀ t ∈ pending, IsReadback t)
    (h : pluginLoop mark items pending s = .done s') (hfits : ∀ l ∈ s'.batches, l.Fits) :
    (∀ l ∈ s.batches, l.Fits) ∧
      BatchesFit pluginSizes (pending.map Transfer.size).sum (items.map Prod.fst) ∧
      s'.toTracked = runAll mark (pending ++ moved pluginSizes items) s.toTracked := by
  induction items generalizing pending s with
  | nil =>
    rw [moved_nil, List.append_nil]
    exact readbackAll_done hpending h hfits
  | cons a items ih =>
    obtain ⟨e, i⟩ := a
    rw [List.map_cons, BatchesFit]
    have hstep := pluginLoop_cons mark e i items pending s
    rw [h] at hstep
    generalize ho : Outcome.done s' = o at hstep
    cases hstep with
    | throws hnone => cases ho
    | skips hmoves =>
      rw [if_pos hmoves, moved_cons_of_not_moves hmoves]
      exact ih pending s hpending ho.symm
    | putsOff hmoves hreadback =>
      rw [if_neg (by rw [hmoves]; decide), if_pos hreadback,
        moved_cons_of_moves hmoves, List.append_cons pending]
      have hrest := ih (pending ++ [e.transfer i (pluginSizes.size e)]) _ ?_ ho.symm
      · rwa [sum_sizes_append] at hrest
      · intro t ht
        rcases List.mem_append.1 ht with ht | ht
        · exact hpending t ht
        · rw [List.mem_singleton.1 ht]
          exact isReadback_transfer hreadback _ _
    | copies hmoves hreadback _ =>
      rw [if_neg (by rw [hmoves]; decide),
        if_neg (by rw [hreadback]; decide)]
      rcases readbackAll_cases mark pending s with hlost | ⟨s₁, hdone⟩
      · rw [hlost] at ho
        cases ho
      · rw [hdone] at ho
        obtain ⟨hfits₁, hfit, htracked⟩ := ih [] _
          (fun t ht => absurd ht List.not_mem_nil) ho.symm
        obtain ⟨hfits₀, hsum, htracked₁⟩ := readbackAll_done hpending hdone hfits₁
        refine ⟨hfits₀, ⟨hsum, hfit⟩, ?_⟩
        rw [htracked, List.nil_append, moved_cons_of_moves hmoves, runAll_append, runAll_cons,
          ← htracked₁]
        rfl
    | fails hfails _ =>
      rcases readbackAll_cases mark pending s with hlost | ⟨s₁, hdone⟩
      · rw [hlost] at ho
        cases ho
      · rw [hdone] at ho
        cases ho

/-- The first loop fails only where an entry does. -/
theorem pluginLoop_failed (hsucceeds : ∀ a ∈ items, ¬ a.1.PluginFails) :
    pluginLoop mark items pending s ≠ .failed s' := by
  induction items generalizing pending s with
  | nil =>
    rw [pluginLoop]
    rcases readbackAll_cases mark pending s with hlost | ⟨s₁, hdone⟩
    · rw [hlost]
      exact fun h => by cases h
    · rw [hdone]
      exact fun h => by cases h
  | cons a items ih =>
    obtain ⟨e, i⟩ := a
    rw [List.forall_mem_cons] at hsucceeds
    have hstep := pluginLoop_cons mark e i items pending s
    generalize pluginLoop mark ((e, i) :: items) pending s = o at hstep
    cases hstep with
    | throws hnone => exact fun h => by cases h
    | skips hmoves => exact ih hsucceeds.2
    | putsOff hmoves _ => exact ih hsucceeds.2
    | copies hmoves _ _ =>
      rcases readbackAll_cases mark pending s with hlost | ⟨s₁, hdone⟩
      · rw [hlost]
        exact fun h => by cases h
      · rw [hdone]
        exact ih hsucceeds.2
    | fails hfails _ => exact absurd hfails hsucceeds.1

end TensorCopiesLemmas

open TensorCopiesLemmas

/-- The copies that ORT asks for are made as they would be one at a time exactly when no entry
fails, no number of elements wraps, and no batch of readbacks does. -/
theorem copyTensorsImpl_faithful_iff (es : List Entry) :
    Faithful Entry.PluginFails copyTensorsImpl es ↔ PluginSafe es := by
  constructor
  · intro h
    have hsucceeds : ∀ e ∈ es, ¬ e.PluginFails := by
      intro e he hfails
      obtain ⟨s, hs⟩ := h.reported ⟨e, he, hfails⟩ Unit (fun _ => id) (fun _ => ()) none
        (fun _ => ())
      unfold copyTensorsImpl at hs
      split at hs <;> cases hs
    obtain ⟨s, hdone, htracked, hfits⟩ := h.copied hsucceeds Unit (fun _ => id) (fun _ => ()) none
      (fun _ => ())
    have hloop : pluginLoop (fun _ => id) es.zipIdx [] (start (fun _ => ()) none fun _ => ()) =
        .done s := by
      unfold copyTensorsImpl at hdone
      split at hdone
      · next s₁ hs₁ => exact hs₁.trans hdone
      · next s₁ hs₁ =>
        exact absurd hs₁ (pluginLoop_failed fun a ha => hsucceeds a.1 (mem_of_mem_zipIdx ha))
      · cases hdone
      · cases hdone
    obtain ⟨-, hbatches, hrun⟩ := pluginLoop_done [] _
      (fun t ht => absurd ht List.not_mem_nil) hloop hfits
    rw [map_fst_zipIdx] at hbatches
    have hagrees : Agrees pluginSizes es := by
      refine agrees_of_reads ?_ (List.Perm.refl _) (fun i => rfl)
        (congrArg Tracked.reads (hrun.symm.trans htracked))
      intro e he hmoves hzero
      cases hsize : e.dst.computeByteSize with
      | none => exact hsucceeds e he (Or.inl hsize)
      | some size =>
        rw [pluginSizes_moves hsize, size_eq_zero_of_byteSize hsize hzero] at hmoves
        cases hmoves
    exact ⟨hsucceeds, small_of_agrees hsucceeds hagrees, (hagrees.batchesFit 0).1 hbatches⟩
  · intro h
    have hagrees := agrees_of_small h.succeeds h.small h.batches
    refine ⟨fun ⟨e, he, hfails⟩ => absurd hfails (h.succeeds e he), ?_⟩
    intro _ α mark memory capacity heap
    have hpos : ∀ a ∈ es.zipIdx, pluginSizes.moves a.1 = true → 0 < pluginSizes.size a.1 := by
      intro a ha hmoves
      obtain ⟨htrue, hsize⟩ := hagrees a.1 (mem_of_mem_zipIdx ha)
      rw [hsize hmoves]
      rw [hmoves] at htrue
      exact Nat.pos_of_ne_zero (by simpa [trueSizes] using htrue.symm)
    have hbatches : BatchesFit pluginSizes 0 (es.zipIdx.map Prod.fst) := by
      rw [map_fst_zipIdx]
      exact (hagrees.batchesFit 0).2 h.batches
    obtain ⟨s, hloop, htracked, hfits⟩ := pluginLoop_of_fits mark []
      (start memory capacity heap)
      (fun a ha => h.succeeds a.1 (mem_of_mem_zipIdx ha)) hpos
      (fun t ht => absurd ht List.not_mem_nil) hbatches
    refine ⟨s, ?_, ?_, fun l hl => ?_⟩
    · unfold copyTensorsImpl copyTensorsPlugin
      rw [hloop]
    · rw [htracked, List.nil_append, hagrees.moved_eq fun a ha => mem_of_mem_zipIdx ha]
      rfl
    · exact (hfits l hl).resolve_left List.not_mem_nil

end AmdGpuEp.DirectML.TensorCopies
