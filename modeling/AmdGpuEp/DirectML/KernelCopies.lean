import AmdGpuEp.DirectML.OvertakenReadbacks
import AmdGpuEp.DirectML.PluginCopies
import Mathlib.Algebra.Order.BigOperators.Group.List
import Mathlib.Algebra.Order.Group.Nat

/-!
# The copies that a kernel asks for

`CopyTensors` of `dml_execution_provider.cc` makes all copies at once but the readbacks, which it
makes in one batch at its end.

Results:
1. `copyTensors_faithful_iff`: when the copies are made as they would be one at a time.
2. `copiesInOrder_iff`: the same for the copies of kernels and for those of ORT.
3. `overwritten_observed`: a readback that sees what a later copy writes.
-/

namespace AmdGpuEp.DirectML.TensorCopies

variable {α : Type}

/-! ## The loop -/

/-- `CopyTensor` -/
def copyTensor (mark : Nat → α → α) (e : Entry) (i : Nat) (s : CopyState α) :
    Option (CopyState α) :=
  match e.src.computeByteSize, e.dst.computeByteSize with
  | some sourceSize, some size =>
    if size ≠ sourceSize then none
    else if size = 0 then some s
    else if e.isReadback then readback mark (e.transfer i size) s
    else if e.toCpu = false then some (CopyState.copy mark (e.transfer i size) s)
    else none
  | _, _ => none

/-- The loop of `CopyTensors`, up to the readbacks that it puts off. -/
def recordLoop (mark : Nat → α → α) :
    List (Entry × Nat) → List (Transfer Place) → CopyState α →
      Except (CopyState α) (List (Transfer Place) × CopyState α)
  | [], pending, s => .ok (pending, s)
  | (e, i) :: es, pending, s =>
    if e.isReadback = false then
      match copyTensor mark e i s with
      | some s => recordLoop mark es pending s
      | none => .error s
    else
      match e.dst.computeByteSize, e.src.computeByteSize with
      | some size, some sourceSize =>
        if size ≠ sourceSize then .error s
        else if size = 0 then recordLoop mark es pending s
        else if size % 2 ^ 32 ≠ sourceSize then .error s
        else recordLoop mark es (pending ++ [e.transfer i (size % 2 ^ 32)]) s
      | _, _ => .error s

/-- `CopyTensors`. What is thrown becomes the result. Its counter has 32 bits: with more entries
than that it does not come to an end. -/
def copyTensors (mark : Nat → α → α) (es : List Entry) (s : CopyState α) : Outcome α :=
  match recordLoop mark (es.zipIdx.take (2 ^ 32)) [] s with
  | .error s => .failed s
  | .ok (pending, s) =>
    if es.length < 2 ^ 32 then
      match readbackAll mark pending s with
      | .thrown s => .failed s
      | o => o
    else .lost

/-! ## The property, and when it holds -/

/-- `CopyTensor` refuses the entry: a size is not to be had, they differ, or both tensors are on the
CPU. -/
def Entry.CopyFails (e : Entry) : Prop :=
  e.dst.computeByteSize = none ∨ e.src.computeByteSize ≠ e.dst.computeByteSize ∨
    (e.toCpu = true ∧ e.fromCpu = true ∧ e.dst.computeByteSize ≠ some 0)

instance : DecidablePred Entry.CopyFails := fun e =>
  inferInstanceAs (Decidable (e.dst.computeByteSize = none ∨
    e.src.computeByteSize ≠ e.dst.computeByteSize ∨
      (e.toCpu = true ∧ e.fromCpu = true ∧ e.dst.computeByteSize ≠ some 0)))

/-- The property of both. -/
structure CopiesInOrder (es : List Entry) : Prop where
  plugin : Faithful Entry.PluginFails copyTensorsImpl es
  inner : Faithful Entry.CopyFails copyTensors es

/-- No entry fails, no destination has so many elements that their number wraps, all readbacks add
up to less than 4 GiB, none is overtaken, and the entries can be counted in 32 bits. -/
structure CopySafe (es : List Entry) : Prop where
  succeeds : ∀ e ∈ es, ¬ e.CopyFails
  small : ∀ e ∈ es, e.dst.dims.prod < 2 ^ 32
  batch : ((es.filter Entry.isReadback).map fun e => e.dst.byteSize).sum < 2 ^ 32
  order : es.Pairwise NotOvertaken
  counted : es.length < 2 ^ 32

/-- The entry fails, or is a readback whose size is no number of 32 bits. -/
def Entry.Refused (e : Entry) : Prop :=
  e.CopyFails ∨ (e.isReadback = true ∧ ∀ size, e.dst.computeByteSize = some size → 2 ^ 32 ≤ size)

/-- An entry fails, and one that is refused is reached, or none does. -/
def CopyReported (es : List Entry) : Prop :=
  (∃ e ∈ es, e.CopyFails) ∧ ∃ e ∈ es.take (2 ^ 32), e.Refused

/-- What is needed of both. -/
structure CopiesSafe (es : List Entry) : Prop where
  plugin : PluginSafe es
  inner : CopyReported es ∨ CopySafe es

/-! ## The loop over the entries -/

namespace TensorCopiesLemmas

variable {es : List Entry} {mark : Nat → α → α} {items : List (Entry × Nat)}
  {pending : List (Transfer Place)} {s s' : CopyState α}

/-- The sizes that `CopyTensors` copies. -/
def copySizes : Sizes where
  moves := computedMoves
  size e := e.dst.computeByteSize.getD 0

theorem copySizes_moves {e : Entry} {size : Nat} (h : e.dst.computeByteSize = some size) :
    copySizes.moves e = (size != 0) :=
  computedMoves_of_size h

theorem copySizes_size {e : Entry} {size : Nat} (h : e.dst.computeByteSize = some size) :
    copySizes.size e = size := by
  change e.dst.computeByteSize.getD 0 = size
  rw [h, Option.getD_some]

theorem computeByteSize_of_succeeds {e : Entry} (h : ¬ e.CopyFails) :
    ∃ size, e.dst.computeByteSize = some size ∧ e.src.computeByteSize = some size := by
  unfold Entry.CopyFails at h
  push Not at h
  obtain ⟨size, hsize⟩ := Option.ne_none_iff_exists'.1 h.1
  exact ⟨size, hsize, h.2.1.trans hsize⟩

/-- An entry that moves something, and is no readback, goes to the GPU. -/
theorem toCpu_of_moves {e : Entry} (hsucceeds : ¬ e.CopyFails) (hreadback : e.isReadback = false)
    (hbytes : e.dst.byteSize ≠ 0) (hsmall : e.dst.dims.prod < 2 ^ 32) : e.toCpu = false := by
  by_contra hto
  have hto := Bool.not_eq_false _ ▸ hto
  rw [Entry.isReadback, hto, Bool.true_and, Bool.not_eq_false'] at hreadback
  obtain ⟨size, hdst, -⟩ := computeByteSize_of_succeeds hsucceeds
  refine hsucceeds (Or.inr (Or.inr ⟨hto, hreadback, ?_⟩))
  rw [hdst, (computeByteSize_eq_iff hdst).2 hsmall]
  simpa using hbytes

theorem toCpu_of_safe (hsucceeds : ∀ e ∈ es, ¬ e.CopyFails)
    (hsmall : ∀ e ∈ es, e.dst.dims.prod < 2 ^ 32) :
    ∀ e ∈ es, e.isReadback = false → e.dst.byteSize ≠ 0 → e.toCpu = false :=
  fun e he hreadback hbytes => toCpu_of_moves (hsucceeds e he) hreadback hbytes (hsmall e he)

/-- What the second loop does with an entry. -/
inductive RecordStep (mark : Nat → α → α) (e : Entry) (i : Nat) (es : List (Entry × Nat))
    (pending : List (Transfer Place)) (s : CopyState α) :
    Except (CopyState α) (List (Transfer Place) × CopyState α) → Prop
  | refuses : e.Refused → RecordStep mark e i es pending s (.error s)
  | skips : ¬ e.Refused → copySizes.moves e = false →
      RecordStep mark e i es pending s (recordLoop mark es pending s)
  | putsOff : ¬ e.Refused → copySizes.moves e = true → e.isReadback = true →
      RecordStep mark e i es pending s
        (recordLoop mark es (pending ++ [e.transfer i (copySizes.size e)]) s)
  | copies : ¬ e.Refused → copySizes.moves e = true → e.isReadback = false →
      RecordStep mark e i es pending s
        (recordLoop mark es pending (CopyState.copy mark (e.transfer i (copySizes.size e)) s))

theorem copyTensor_of_fails {e : Entry} (hreadback : e.isReadback = false) (h : e.CopyFails)
    (i : Nat) : copyTensor mark e i s = none := by
  unfold copyTensor
  cases hsrc : e.src.computeByteSize with
  | none => rfl
  | some sourceSize =>
    cases hdst : e.dst.computeByteSize with
    | none => rfl
    | some size =>
      dsimp only
      rw [Entry.CopyFails, hsrc, hdst] at h
      by_cases hne : size = sourceSize
      · obtain ⟨hto, hfrom, hzero⟩ := (h.resolve_left (Option.some_ne_none _)).resolve_left
          (not_not_intro (congrArg some hne.symm))
        rw [if_neg (not_not_intro hne), if_neg fun h => hzero (congrArg some h), hreadback, hto,
          if_neg (by decide), if_neg (by decide)]
      · rw [if_pos hne]

theorem copyTensor_of_succeeds {e : Entry} (hreadback : e.isReadback = false) (h : ¬ e.CopyFails)
    (i : Nat) :
    copyTensor mark e i s = some
      (if copySizes.moves e then CopyState.copy mark (e.transfer i (copySizes.size e)) s
      else s) := by
  obtain ⟨size, hdst, hsrc⟩ := computeByteSize_of_succeeds h
  have hmoves : copySizes.moves e = (size != 0) := copySizes_moves hdst
  have hsize : copySizes.size e = size := copySizes_size hdst
  unfold copyTensor
  rw [hsrc, hdst, hmoves, hsize]
  dsimp only
  rw [if_neg (not_not_intro rfl), hreadback, if_neg (c := false = true) (by decide)]
  by_cases hzero : size = 0
  · rw [if_pos hzero, hzero]
    rfl
  · have hto : e.toCpu = false := by
      by_contra hto
      have hto := Bool.not_eq_false _ ▸ hto
      rw [Entry.isReadback, hto, Bool.true_and, Bool.not_eq_false'] at hreadback
      refine h (Or.inr (Or.inr ⟨hto, hreadback, ?_⟩))
      rw [hdst]
      simpa using hzero
    rw [if_neg hzero, if_pos hto, if_pos (bne_iff_ne.2 hzero)]

theorem recordLoop_cons (mark : Nat → α → α) (e : Entry) (i : Nat) (es : List (Entry × Nat))
    (pending : List (Transfer Place)) (s : CopyState α) :
    RecordStep mark e i es pending s (recordLoop mark ((e, i) :: es) pending s) := by
  rw [recordLoop]
  cases hreadback : e.isReadback with
  | false =>
    rw [if_pos rfl]
    by_cases hfails : e.CopyFails
    · rw [copyTensor_of_fails hreadback hfails]
      exact .refuses (Or.inl hfails)
    · have hrefused : ¬ e.Refused := by
        rintro (h | ⟨h, -⟩)
        · exact hfails h
        · rw [hreadback] at h
          cases h
      rw [copyTensor_of_succeeds hreadback hfails]
      cases hmoves : copySizes.moves e with
      | false => exact .skips hrefused hmoves
      | true => exact .copies hrefused hmoves hreadback
  | true =>
    rw [if_neg (by decide)]
    have hcpu : ¬ (e.toCpu = true ∧ e.fromCpu = true ∧ e.dst.computeByteSize ≠ some 0) := by
      rintro ⟨-, hfrom, -⟩
      rw [Entry.isReadback, hfrom, Bool.not_true, Bool.and_false] at hreadback
      cases hreadback
    cases hdst : e.dst.computeByteSize with
    | none => exact .refuses (Or.inl (Or.inl hdst))
    | some size =>
      cases hsrc : e.src.computeByteSize with
      | none =>
        refine .refuses (Or.inl (Or.inr (Or.inl ?_)))
        rw [hsrc, hdst]
        exact Option.some_ne_none _ |>.symm
      | some sourceSize =>
        dsimp only
        by_cases hne : size = sourceSize
        · have hfails : ¬ e.CopyFails := by
            rw [Entry.CopyFails, hsrc, hdst, hne]
            rw [hdst, hne] at hcpu
            rintro (h | h | h)
            · cases h
            · exact h rfl
            · exact hcpu h
          have hmoves : copySizes.moves e = (size != 0) := copySizes_moves hdst
          have hsize : copySizes.size e = size := copySizes_size hdst
          rw [if_neg (not_not_intro hne)]
          by_cases hzero : size = 0
          · rw [if_pos hzero]
            refine .skips ?_ (by rw [hmoves, hzero]; rfl)
            rintro (h | ⟨-, h⟩)
            · exact hfails h
            · have hlarge := h size hdst
              rw [hzero] at hlarge
              exact absurd hlarge (by decide)
          · rw [if_neg hzero, ← hne]
            by_cases hlarge : 2 ^ 32 ≤ size
            · rw [if_pos (Nat.ne_of_lt (Nat.lt_of_lt_of_le (Nat.mod_lt _ (by decide)) hlarge))]
              refine .refuses (Or.inr ⟨hreadback, fun n hn => ?_⟩)
              rw [hdst] at hn
              exact Option.some.inj hn ▸ hlarge
            · have hmod : size % 2 ^ 32 = size := Nat.mod_eq_of_lt (Nat.not_le.1 hlarge)
              rw [hmod, if_neg (not_not_intro rfl), ← hsize]
              refine .putsOff ?_ (by rw [hmoves]; exact bne_iff_ne.2 hzero) hreadback
              rintro (h | ⟨-, h⟩)
              · exact hfails h
              · exact hlarge (h size hdst)
        · rw [if_pos hne]
          refine .refuses (Or.inl (Or.inr (Or.inl ?_)))
          rw [hsrc, hdst]
          exact fun h => hne (Option.some.inj h).symm

/-- The state behind copies that were made at once. -/
def copyAll (mark : Nat → α → α) (ts : List (Transfer Place)) (s : CopyState α) : CopyState α :=
  { s with toTracked := runAll mark ts s.toTracked }

/-- Where no entry is refused, the readbacks are put off, and the others are made. -/
theorem recordLoop_of_accepted (h : ∀ a ∈ items, ¬ a.1.Refused) :
    recordLoop mark items pending s =
      .ok (pending ++ moved copySizes (items.filter fun a => a.1.isReadback),
        copyAll mark (moved copySizes (items.filter fun a => !a.1.isReadback)) s) := by
  induction items generalizing pending s with
  | nil =>
    rw [List.filter_nil, List.filter_nil, moved_nil, List.append_nil]
    rfl
  | cons a items ih =>
    obtain ⟨e, i⟩ := a
    rw [List.forall_mem_cons] at h
    have hstep := recordLoop_cons mark e i items pending s
    generalize recordLoop mark ((e, i) :: items) pending s = o at hstep
    rw [List.filter_cons, List.filter_cons]
    cases hstep with
    | refuses hrefused => exact absurd hrefused h.1
    | skips _ hmoves =>
      rw [ih h.2]
      cases hreadback : e.isReadback
      · rw [if_neg (by decide), if_pos (by decide), moved_cons_of_not_moves hmoves]
      · rw [if_pos rfl, if_neg (by decide), moved_cons_of_not_moves hmoves]
    | putsOff _ hmoves hreadback =>
      rw [ih h.2, hreadback, if_pos rfl, if_neg (by decide), moved_cons_of_moves hmoves,
        ← List.append_cons]
    | copies _ hmoves hreadback =>
      rw [ih h.2, hreadback, if_neg (by decide), if_pos (by decide), moved_cons_of_moves hmoves]
      rfl

/-- Where one is refused, the loop ends there. -/
theorem recordLoop_of_refused (mark : Nat → α → α) (pending : List (Transfer Place))
    (s : CopyState α) (h : ∃ a ∈ items, a.1.Refused) :
    ∃ s', recordLoop mark items pending s = .error s' := by
  induction items generalizing pending s with
  | nil =>
    obtain ⟨a, ha, -⟩ := h
    exact absurd ha List.not_mem_nil
  | cons a items ih =>
    obtain ⟨e, i⟩ := a
    rw [List.exists_mem_cons_iff] at h
    have hstep := recordLoop_cons mark e i items pending s
    generalize recordLoop mark ((e, i) :: items) pending s = o at hstep
    cases hstep with
    | refuses _ => exact ⟨s, rfl⟩
    | skips haccepted _ => exact ih _ _ (h.resolve_left haccepted)
    | putsOff haccepted _ _ => exact ih _ _ (h.resolve_left haccepted)
    | copies haccepted _ _ => exact ih _ _ (h.resolve_left haccepted)

/-! ## The call -/

theorem copy_agrees_iff (hsucceeds : ∀ e ∈ es, ¬ e.CopyFails) :
    Agrees copySizes es ↔ ∀ e ∈ es, e.dst.dims.prod < 2 ^ 32 := by
  refine forall₂_congr fun e he => ?_
  obtain ⟨size, hdst, -⟩ := computeByteSize_of_succeeds (hsucceeds e he)
  have hmoves : copySizes.moves e = (size != 0) := copySizes_moves hdst
  have hsize : copySizes.size e = size := copySizes_size hdst
  rw [← computeByteSize_eq_iff hdst, hmoves, hsize]
  constructor
  · rintro ⟨hsame, hbytes⟩
    by_cases hzero : size = 0
    · rw [hzero] at hsame ⊢
      have htrue : trueSizes.moves e = false := hsame.symm
      symm
      simpa [trueSizes] using htrue
    · exact hbytes (bne_iff_ne.2 hzero)
  · rintro rfl
    exact ⟨rfl, fun _ => rfl⟩

theorem sum_moved (items : List (Entry × Nat)) :
    ((moved trueSizes items).map Transfer.size).sum =
      (items.map fun a => a.1.dst.byteSize).sum := by
  induction items with
  | nil => rfl
  | cons a items ih =>
    rw [List.map_cons, List.sum_cons]
    cases hmoves : trueSizes.moves a.1 with
    | false =>
      have hzero : a.1.dst.byteSize = 0 := by simpa [trueSizes] using hmoves
      rw [moved_cons_of_not_moves hmoves, ih, hzero, Nat.zero_add]
    | true =>
      rw [moved_cons_of_moves hmoves, List.map_cons, List.sum_cons, ih]
      rfl

theorem sum_readbacks (es : List Entry) :
    ((moved trueSizes (es.zipIdx.filter fun a => a.1.isReadback)).map Transfer.size).sum =
      ((es.filter Entry.isReadback).map fun e => e.dst.byteSize).sum := by
  rw [sum_moved]
  conv_rhs => rw [← map_fst_zipIdx es, List.filter_map, List.map_map]
  rfl

theorem take_zipIdx (hlength : es.length < 2 ^ 32) : es.zipIdx.take (2 ^ 32) = es.zipIdx :=
  List.take_of_length_le (by rw [List.length_zipIdx]; exact Nat.le_of_lt hlength)

theorem exists_refused_iff (es : List Entry) :
    (∃ a ∈ es.zipIdx.take (2 ^ 32), a.1.Refused) ↔ ∃ e ∈ es.take (2 ^ 32), e.Refused := by
  have htake : (es.zipIdx.take (2 ^ 32)).map Prod.fst = es.take (2 ^ 32) := by
    rw [List.map_take, map_fst_zipIdx]
  rw [← htake]
  constructor
  · rintro ⟨a, ha, hrefused⟩
    exact ⟨a.1, List.mem_map_of_mem ha, hrefused⟩
  · rintro ⟨e, he, hrefused⟩
    obtain ⟨a, ha, rfl⟩ := List.mem_map.1 he
    exact ⟨a, ha, hrefused⟩

theorem readbacks_of_moved {z : Sizes} {t : Transfer Place}
    (h : t ∈ moved z (es.zipIdx.filter fun a => a.1.isReadback)) : IsReadback t := by
  obtain ⟨a, ha, rfl⟩ := List.mem_map.1 h
  have hback := (List.mem_filter.1 (List.mem_filter.1 ha).1).2
  exact isReadback_transfer hback _ _

/-- The second call, where nothing is refused, and the entries can be counted. -/
theorem copyTensors_of_accepted (mark : Nat → α → α) (s : CopyState α)
    (hlength : es.length < 2 ^ 32) (haccepted : ∀ e ∈ es, ¬ e.Refused) :
    ∃ s' : CopyState α, s'.batches = s.batches ∧
      s'.toTracked = runAll mark
        (moved copySizes (es.zipIdx.filter fun a => !a.1.isReadback)) s.toTracked ∧
      copyTensors mark es s =
        readbackAll mark (moved copySizes (es.zipIdx.filter fun a => a.1.isReadback)) s' := by
  refine ⟨copyAll mark _ s, rfl, rfl, ?_⟩
  unfold copyTensors
  rw [take_zipIdx hlength,
    recordLoop_of_accepted fun a ha => haccepted a.1 (mem_of_mem_zipIdx ha), List.nil_append]
  dsimp only
  rw [if_pos hlength]
  rcases readbackAll_cases mark _ (copyAll mark _ s) with hlost | ⟨s', hdone⟩
  · rw [hlost]
  · rw [hdone]

/-- The second call fails where an entry that is refused is reached. -/
theorem copyTensors_failed_iff (mark : Nat → α → α) (s : CopyState α) :
    (∃ s', copyTensors mark es s = .failed s') ↔ ∃ e ∈ es.take (2 ^ 32), e.Refused := by
  rw [← exists_refused_iff]
  unfold copyTensors
  constructor
  · rintro ⟨s', h⟩
    by_contra haccepted
    push Not at haccepted
    rw [recordLoop_of_accepted haccepted] at h
    dsimp only at h
    split at h
    · rcases readbackAll_cases mark _ (copyAll mark _ s) with hlost | ⟨s₁, hdone⟩
      · rw [hlost] at h
        cases h
      · rw [hdone] at h
        cases h
    · cases h
  · intro hrefused
    obtain ⟨s', herror⟩ := recordLoop_of_refused mark [] s hrefused
    rw [herror]
    exact ⟨s', rfl⟩

/-- A call that is done had entries that can be counted. -/
theorem length_of_done (h : copyTensors mark es s = .done s') : es.length < 2 ^ 32 := by
  by_contra hlength
  unfold copyTensors at h
  split at h
  · cases h
  · rw [if_neg hlength] at h
    cases h

theorem accepted_of_safe (h : CopySafe es) : ∀ e ∈ es, ¬ e.Refused := by
  rintro e he (hfails | ⟨hreadback, hlarge⟩)
  · exact h.succeeds e he hfails
  · obtain ⟨size, hdst, -⟩ := computeByteSize_of_succeeds (h.succeeds e he)
    have hsize : size = e.dst.byteSize := (computeByteSize_eq_iff hdst).2 (h.small e he)
    have hmem : e.dst.byteSize ∈ (es.filter Entry.isReadback).map fun e => e.dst.byteSize :=
      List.mem_map_of_mem (f := fun e : Entry => e.dst.byteSize)
        (List.mem_filter.2 ⟨he, hreadback⟩)
    have hle := List.single_le_sum (fun n _ => Nat.zero_le n) _ hmem
    exact absurd (hsize ▸ hlarge size hdst) (Nat.not_le.2 (Nat.lt_of_le_of_lt hle h.batch))

theorem copySafe_of_faithful (h : Faithful Entry.CopyFails copyTensors es)
    (hfails : ∀ e ∈ es, ¬ e.CopyFails) : CopySafe es := by
  obtain ⟨s, hdone, htracked, hfits⟩ := h.copied hfails (Option Nat) stamp (fun _ => none) none
    (fun _ => none)
  have hlength := length_of_done hdone
  have haccepted : ∀ e ∈ es, ¬ e.Refused := by
    intro e he hrefused
    have htake : es.take (2 ^ 32) = es := List.take_of_length_le (Nat.le_of_lt hlength)
    obtain ⟨s', hfailed⟩ := copyTensors_failed_iff stamp
      (start (fun _ => none) none fun _ => none) |>.2 ⟨e, htake.symm ▸ he, hrefused⟩
    rw [hdone] at hfailed
    cases hfailed
  obtain ⟨s', -, hmade, hrun⟩ := copyTensors_of_accepted stamp
    (start (fun _ => none) none fun _ => none) hlength haccepted
  rw [hdone] at hrun
  obtain ⟨-, hsum, hput⟩ := readbackAll_done (fun t ht => readbacks_of_moved ht) hrun.symm hfits
  have hreads : (runAll stamp (moved copySizes (inOrderOfRun es)) unmarked).reads =
      (oneAtATime stamp es unmarked).reads := by
    rw [inOrderOfRun, moved_append, runAll_append]
    exact congrArg Tracked.reads
      ((congrArg _ hmade.symm).trans (hput.symm.trans htracked))
  have hagrees : Agrees copySizes es := by
    refine agrees_of_reads ?_ (inOrderOfRun_perm es) (fun i => rfl) hreads
    intro e he hmoves hzero
    obtain ⟨size, hdst, -⟩ := computeByteSize_of_succeeds (hfails e he)
    rw [copySizes_moves hdst, size_eq_zero_of_byteSize hdst hzero] at hmoves
    cases hmoves
  have hsmall := (copy_agrees_iff hfails).1 hagrees
  have hmem : ∀ a ∈ inOrderOfRun es, a.1 ∈ es := fun a ha =>
    mem_of_mem_zipIdx ((inOrderOfRun_perm es).mem_iff.1 ha)
  rw [hagrees.moved_eq hmem] at hreads
  rw [hagrees.moved_eq fun a ha => mem_of_mem_zipIdx (List.mem_filter.1 ha).1,
    sum_readbacks] at hsum
  have horder := notOvertaken_of_reads hreads (toCpu_of_safe hfails hsmall)
  exact ⟨hfails, hsmall, hsum, horder, hlength⟩

theorem copied_of_copySafe (h : CopySafe es) {α : Type} (mark : Nat → α → α)
    (memory : Place → α) (capacity : Option Capacity) (heap : Nat → α) :
    ∃ s, copyTensors mark es (start memory capacity heap) = .done s ∧
      s.toTracked = oneAtATime mark es (start memory capacity heap).toTracked ∧
        ∀ l ∈ s.batches, l.Fits := by
  have hagrees := (copy_agrees_iff h.succeeds).2 h.small
  obtain ⟨s', hbatches, hmade, hrun⟩ := copyTensors_of_accepted mark
    (start memory capacity heap) h.counted (accepted_of_safe h)
  have hpos : ∀ t ∈ moved trueSizes (es.zipIdx.filter fun a => a.1.isReadback),
      0 < t.size := by
    intro t ht
    obtain ⟨a, ha, rfl⟩ := List.mem_map.1 ht
    exact Nat.pos_of_ne_zero (bne_iff_ne.1 (List.mem_filter.1 ha).2)
  have heq : ∀ {later : Entry × Nat → Bool}, moved copySizes (es.zipIdx.filter later) =
      moved trueSizes (es.zipIdx.filter later) := fun {_} =>
    hagrees.moved_eq fun a ha => mem_of_mem_zipIdx (List.mem_filter.1 ha).1
  rw [heq] at hmade hrun
  obtain ⟨s, hdone, htracked, hfits⟩ := readbackAll_of_fits mark s'
    (fun t ht => readbacks_of_moved ht) hpos ((sum_readbacks es).symm ▸ h.batch)
  refine ⟨s, hrun.trans hdone, ?_, fun l hl => ?_⟩
  · rw [htracked, hmade, ← runAll_append, ← moved_append]
    exact runAll_inOrderOfRun (toCpu_of_safe h.succeeds h.small) h.order _
  · refine (hfits l hl).resolve_left fun hmem => ?_
    rw [hbatches] at hmem
    exact absurd hmem List.not_mem_nil

end TensorCopiesLemmas

open TensorCopiesLemmas

/-- The copies that a kernel asks for are made as they would be one at a time exactly when a failing
entry is reported, or when none fails, no number wraps, and no readback is overtaken. -/
theorem copyTensors_faithful_iff (es : List Entry) :
    Faithful Entry.CopyFails copyTensors es ↔ CopyReported es ∨ CopySafe es := by
  constructor
  · intro h
    by_cases hfails : ∃ e ∈ es, e.CopyFails
    · have hfailed := h.reported hfails Unit (fun _ => id) (fun _ => ()) none (fun _ => ())
      exact Or.inl ⟨hfails, (copyTensors_failed_iff _ _).1 hfailed⟩
    · push Not at hfails
      exact Or.inr (copySafe_of_faithful h hfails)
  · rintro (⟨hfails, hrefused⟩ | h)
    · refine ⟨fun _ α mark memory capacity heap => (copyTensors_failed_iff _ _).2 hrefused, ?_⟩
      intro hnone
      obtain ⟨e, he, hfail⟩ := hfails
      exact absurd hfail (hnone e he)
    · have hnone : ¬ ∃ e ∈ es, e.CopyFails := by
        rintro ⟨e, he, hfail⟩
        exact h.succeeds e he hfail
      exact ⟨fun hfails => absurd hfails hnone,
        fun _ α mark memory capacity heap => copied_of_copySafe h mark memory capacity heap⟩

/-- Both calls copy as one at a time, and report what fails, under the conditions for each. -/
theorem copiesInOrder_iff (es : List Entry) : CopiesInOrder es ↔ CopiesSafe es := by
  constructor
  · exact fun h =>
      ⟨(copyTensorsImpl_faithful_iff es).1 h.plugin, (copyTensors_faithful_iff es).1 h.inner⟩
  · exact fun h =>
      ⟨(copyTensorsImpl_faithful_iff es).2 h.plugin, (copyTensors_faithful_iff es).2 h.inner⟩

/-- Four bytes at an address, or in a resource. -/
def fourBytes (device : Device) (data : Nat) : Tensor where
  location := { device, data }
  dims := [4]
  type := .uint8

def fourByteCopy (src dst : Tensor) (h : src.byteSize = dst.byteSize) : Entry where
  src := src
  dst := dst
  accessible := true
  same_size := h

/-- A resource is read back, and then overwritten. -/
def overwritten : List Entry :=
  [fourByteCopy (fourBytes .gpu 0) (fourBytes .cpu 0) rfl,
    fourByteCopy (fourBytes .cpu 16) (fourBytes .gpu 0) rfl]

/-- A one in the resource, and zeros everywhere else. -/
def oneInResource : CopyState Nat :=
  start (fun p => if p = .gpu 0 0 then 1 else 0) (some initialCapacity) fun _ => 0

/-- The readback sees what is written behind it. -/
theorem overwritten_observed : ¬ CopiesInOrder overwritten := by
  intro h
  obtain ⟨s, hdone, htracked, -⟩ := h.inner.copied (by decide) Nat (fun _ => id)
    (fun p => if p = .gpu 0 0 then 1 else 0) (some initialCapacity) (fun _ => 0)
  have hrun : ∃ s', copyTensors (fun _ => id) overwritten oneInResource = .done s' ∧
      s'.memory (.cpu 0) = 0 := ⟨_, rfl, by decide +kernel⟩
  have harray : (oneAtATime (fun _ => id) overwritten oneInResource.toTracked).memory (.cpu 0) =
      1 := by
    decide +kernel
  obtain ⟨s', hdone', hzero⟩ := hrun
  obtain rfl : s = s' := Outcome.done.inj (hdone.symm.trans hdone')
  rw [htracked] at hzero
  exact absurd (harray.symm.trans hzero) (by decide)

end AmdGpuEp.DirectML.TensorCopies

