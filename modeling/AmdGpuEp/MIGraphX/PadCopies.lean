import AmdGpuEp.MIGraphX.PaddedRuns
import Mathlib.Data.Nat.Log
import Mathlib.Order.Interval.Set.Basic

/-!
# The copies that pad a batch

`PadInputTensor` in machine words, copy by copy: the loop ends after logarithmically many rounds,
each copy inside the destination reads what is there already and nothing that it writes, and the
destination has the rows of the source, the last one repeated.

Results:
1. `padWords_eq_some`: the loop ends, and no product wraps around in a buffer that exists.
2. `padTransfers_sourced`, `Sourced.runTransfers_eq`: what the copies read, and that it decides
   what they write.
3. `padInputTensor_pads`: what they leave.
-/

namespace AmdGpuEp.MIGraphX

/-- A call of `PadInputTensor`: the sizes are words, and the destination is a buffer of
`paddedBatch` rows. -/
structure PadRequest where
  originalBatch : Nat
  paddedBatch : Nat
  elementSizeBytes : Nat
  elementsPerBatch : Nat
  original_pos : 1 ≤ originalBatch
  original_le : originalBatch ≤ paddedBatch
  padded_lt : paddedBatch < sizeMod
  buffer_lt : paddedBatch * (elementSizeBytes * elementsPerBatch) < sizeMod

/-- The bytes of a row. -/
def PadRequest.row (q : PadRequest) : Nat := q.elementSizeBytes * q.elementsPerBatch

/-! ## The copies in machine words -/

/-- `while (filled < slots_to_fill)`; none when it has not ended. -/
def doublingWords (padStart bytesPerBatch slots : Nat) : Nat → Nat → Option (List Transfer)
  | 0, _ => none
  | fuel + 1, filled =>
    if filled < slots then
      let chunk := min filled (slots - filled)
      (doublingWords padStart bytesPerBatch slots fuel ((filled + chunk) % sizeMod)).map
        ({ offset := (padStart + filled * bytesPerBatch % sizeMod) % sizeMod
           bytes := chunk * bytesPerBatch % sizeMod
           readsSource := false, start := padStart } :: ·)
    else some []

/-- `PadInputTensor`: its copies, in order; none when its loop has not ended. -/
def padWords (originalBatch paddedBatch elementSizeBytes elementsPerBatch fuel : Nat) :
    Option (List Transfer) :=
  let bytesPerBatch := elementSizeBytes * elementsPerBatch % sizeMod
  let first : Transfer :=
    { offset := 0, bytes := originalBatch * bytesPerBatch % sizeMod
      readsSource := true, start := 0 }
  if 0 < originalBatch ∧ originalBatch < paddedBatch then
    let padStart := originalBatch * bytesPerBatch % sizeMod
    let slots := paddedBatch - originalBatch
    let last : Transfer :=
      { offset := padStart, bytes := bytesPerBatch
        readsSource := true, start := (originalBatch - 1) * bytesPerBatch % sizeMod }
    (doublingWords padStart bytesPerBatch slots fuel 1).map fun copies => first :: last :: copies
  else some [first]

/-! ## What a copy touches -/

/-- The bytes of its source, or of the destination, that a copy reads. -/
def Transfer.reads (t : Transfer) : Set Nat := Set.Ico t.start (t.start + t.bytes)

/-- The bytes of the destination that a copy writes. -/
def Transfer.writes (t : Transfer) : Set Nat := Set.Ico t.offset (t.offset + t.bytes)

/-- Each copy reads inside the source tensor, or it reads bytes of the destination that were written
before it and that it does not write itself. -/
def Sourced (sourceBytes : Nat) : Set Nat → List Transfer → Prop
  | _, [] => True
  | written, t :: rest =>
    (if t.readsSource then t.reads ⊆ Set.Ico 0 sourceBytes
      else t.reads ⊆ written ∧ Disjoint t.reads t.writes) ∧
      Sourced sourceBytes (written ∪ t.writes) rest

/-- What padding is for: the rows of the source, the last one repeated, and nothing outside. -/
structure Pads (q : PadRequest) (transfers : List Transfer) : Prop where
  rows : ∀ (src dst : Nat → UInt8), ∀ i < q.originalBatch, ∀ j < q.row,
    runTransfers src transfers dst (i * q.row + j) = src (i * q.row + j)
  lastRow : ∀ (src dst : Nat → UInt8), ∀ i, q.originalBatch ≤ i → i < q.paddedBatch → ∀ j < q.row,
    runTransfers src transfers dst (i * q.row + j) = src ((q.originalBatch - 1) * q.row + j)
  inside : ∀ t ∈ transfers, t.writes ⊆ Set.Ico 0 (q.paddedBatch * q.row)
  sourced : Sourced (q.originalBatch * q.row) ∅ transfers

namespace PadCopiesLemmas

variable {padStart row slots fuel filled : Nat}

/-! ## The loop ends -/

theorem doublingTransfers_done (h : slots ≤ filled) :
    doublingTransfers padStart row slots fuel filled = [] := by
  cases fuel with
  | zero => rfl
  | succ fuel =>
    unfold doublingTransfers
    rw [if_neg (Nat.not_lt.2 h)]

/-- Each round doubles what is filled, or it is the last one. -/
theorem doublingWords_eq_some {rounds : Nat} (hslots : slots < sizeMod)
    (hbuffer : padStart + slots * row < sizeMod) (hpos : 0 < filled)
    (hrounds : slots ≤ filled * 2 ^ rounds) (hfuel : slots ≤ filled + fuel) :
    doublingWords padStart row slots (rounds + 1) filled =
      some (doublingTransfers padStart row slots fuel filled) := by
  induction rounds generalizing filled fuel with
  | zero =>
    rw [pow_zero, Nat.mul_one] at hrounds
    rw [doublingWords, if_neg (Nat.not_lt.2 hrounds), doublingTransfers_done hrounds]
  | succ rounds ih =>
    rw [doublingWords]
    by_cases hlt : filled < slots
    · obtain ⟨fuel, rfl⟩ : ∃ n, fuel = n + 1 := ⟨fuel - 1, by omega⟩
      rw [if_pos hlt, doublingTransfers, if_pos hlt]
      dsimp only
      have hchunk : min filled (slots - filled) ≤ slots := by omega
      have hnext : filled + min filled (slots - filled) ≤ slots := by omega
      have hoffset : filled * row ≤ slots * row := Nat.mul_le_mul_right _ (Nat.le_of_lt hlt)
      have hbytes : min filled (slots - filled) * row ≤ slots * row :=
        Nat.mul_le_mul_right _ hchunk
      have hdouble : slots ≤ (filled + min filled (slots - filled)) * 2 ^ rounds := by
        rcases Nat.le_total filled (slots - filled) with hle | hle
        · rw [Nat.min_eq_left hle]
          calc slots ≤ filled * 2 ^ (rounds + 1) := hrounds
            _ = (filled + filled) * 2 ^ rounds := by ring
        · rw [Nat.min_eq_right hle, Nat.add_sub_cancel' (Nat.le_of_lt hlt)]
          exact Nat.le_mul_of_pos_right _ (Nat.two_pow_pos rounds)
      have hrest : doublingWords padStart row slots (rounds + 1)
          (filled + min filled (slots - filled)) = some (doublingTransfers padStart row slots fuel
          (filled + min filled (slots - filled))) := ih (by omega) hdouble (by omega)
      rw [Nat.mod_eq_of_lt (Nat.lt_of_le_of_lt hnext hslots), hrest,
        Nat.mod_eq_of_lt (by omega : filled * row < sizeMod),
        Nat.mod_eq_of_lt (by omega : padStart + filled * row < sizeMod),
        Nat.mod_eq_of_lt (by omega : min filled (slots - filled) * row < sizeMod), Option.map_some]
    · rw [if_neg hlt, doublingTransfers_done (Nat.le_of_not_lt hlt)]

/-! ## What the copies read -/

theorem doublingTransfers_sourced {bytes : Nat} {written : Set Nat}
    (h : Set.Ico padStart (padStart + filled * row) ⊆ written) :
    Sourced bytes written (doublingTransfers padStart row slots fuel filled) := by
  induction fuel generalizing filled written with
  | zero => exact trivial
  | succ fuel ih =>
    unfold doublingTransfers
    by_cases hlt : filled < slots
    · rw [if_pos hlt]
      have hchunk : min filled (slots - filled) * row ≤ filled * row :=
        Nat.mul_le_mul_right _ (Nat.min_le_left _ _)
      refine ⟨⟨?_, ?_⟩, ih ?_⟩
      · exact (Set.Ico_subset_Ico_right (Nat.add_le_add_left hchunk _)).trans h
      · refine Set.disjoint_left.2 fun i hread hwrite => ?_
        exact Nat.not_lt.2 hwrite.1 (Nat.lt_of_lt_of_le hread.2 (Nat.add_le_add_left hchunk _))
      · -- the row range that was there, and the one just written behind it
        intro i hi
        rcases Nat.lt_or_ge i (padStart + filled * row) with hold | hnew
        · exact .inl (h ⟨hi.1, hold⟩)
        · refine .inr ⟨hnew, ?_⟩
          have hend := hi.2
          rw [Nat.add_mul, ← Nat.add_assoc] at hend
          exact hend
    · rw [if_neg hlt]
      exact trivial

end PadCopiesLemmas

open PadCopiesLemmas

/-- In a buffer that exists nothing wraps around, and the loop ends after as many rounds as the
number of padded rows can be halved. -/
theorem padWords_eq_some (q : PadRequest) {fuel : Nat}
    (hfuel : Nat.clog 2 (q.paddedBatch - q.originalBatch) < fuel) :
    padWords q.originalBatch q.paddedBatch q.elementSizeBytes q.elementsPerBatch fuel =
      some (padTransfers q.originalBatch q.paddedBatch q.elementSizeBytes q.elementsPerBatch) := by
  have hpadded : q.paddedBatch * q.row < sizeMod := q.buffer_lt
  have hrows : q.originalBatch * q.row ≤ q.paddedBatch * q.row :=
    Nat.mul_le_mul_right _ q.original_le
  have hrow : q.row ≤ q.originalBatch * q.row := Nat.le_mul_of_pos_left _ q.original_pos
  have hlast : (q.originalBatch - 1) * q.row ≤ q.originalBatch * q.row :=
    Nat.mul_le_mul_right _ (Nat.sub_le _ _)
  have hsplit : q.originalBatch * q.row + (q.paddedBatch - q.originalBatch) * q.row =
      q.paddedBatch * q.row := by
    rw [← Nat.add_mul, Nat.add_sub_cancel' q.original_le]
  obtain ⟨rounds, rfl⟩ : ∃ n, fuel = n + 1 := ⟨fuel - 1, by omega⟩
  have hrounds : q.paddedBatch - q.originalBatch ≤ 1 * 2 ^ rounds := by
    rw [Nat.one_mul]
    exact (Nat.clog_le_iff_le_pow Nat.one_lt_two).1 (Nat.le_of_lt_succ hfuel)
  have hslots : q.paddedBatch - q.originalBatch < sizeMod :=
    Nat.lt_of_le_of_lt (Nat.sub_le _ _) q.padded_lt
  unfold padWords padTransfers
  dsimp only
  rw [show q.elementSizeBytes * q.elementsPerBatch = q.row from rfl,
    Nat.mod_eq_of_lt (by omega : q.row < sizeMod),
    Nat.mod_eq_of_lt (by omega : q.originalBatch * q.row < sizeMod),
    Nat.mod_eq_of_lt (by omega : (q.originalBatch - 1) * q.row < sizeMod)]
  split
  · rw [doublingWords_eq_some hslots (by omega) Nat.one_pos hrounds (Nat.le_add_left _ 1),
      Option.map_some]
  · rfl

theorem padTransfers_sourced (original padded size elements : Nat) :
    Sourced (original * (size * elements)) ∅ (padTransfers original padded size elements) := by
  unfold padTransfers
  dsimp only
  refine ⟨?_, ?_⟩
  · show Set.Ico 0 (0 + original * (size * elements)) ⊆ Set.Ico 0 (original * (size * elements))
    rw [Nat.zero_add]
  · split
    · next hpad =>
      have hlast : (original - 1) * (size * elements) + size * elements =
          original * (size * elements) := by
        rw [← Nat.succ_mul, Nat.succ_eq_add_one, Nat.sub_add_cancel hpad.1]
      refine ⟨?_, doublingTransfers_sourced ?_⟩
      · show Set.Ico ((original - 1) * (size * elements))
          ((original - 1) * (size * elements) + size * elements) ⊆ _
        rw [hlast]
        exact Set.Ico_subset_Ico_left (Nat.zero_le _)
      · rw [Nat.one_mul]
        exact Set.subset_union_right
    · exact trivial

/-- What such copies leave in the bytes they write does not depend on what was there. -/
theorem Sourced.runTransfers_eq {B : Type*} {sourceBytes : Nat} {written : Set Nat}
    {transfers : List Transfer} (h : Sourced sourceBytes written transfers) (src : Nat → B)
    {dst dst' : Nat → B} (hdst : ∀ i ∈ written, dst i = dst' i) {i : Nat}
    (hi : i ∈ written ∨ ∃ t ∈ transfers, i ∈ t.writes) :
    runTransfers src transfers dst i = runTransfers src transfers dst' i := by
  induction transfers generalizing written dst dst' with
  | nil =>
    rcases hi with hi | ⟨t, ht, -⟩
    · exact hdst i hi
    · cases ht
  | cons t rest ih =>
    refine ih h.2 (fun j hj => ?_) ?_
    · unfold Transfer.run
      by_cases hwrite : t.offset ≤ j ∧ j < t.offset + t.bytes
      · rw [if_pos hwrite, if_pos hwrite]
        by_cases hsource : t.readsSource = true
        · rw [if_pos hsource, if_pos hsource]
        · rw [if_neg hsource, if_neg hsource]
          have hread := h.1
          rw [if_neg hsource] at hread
          refine hdst _ (hread.1 ⟨Nat.le_add_right _ _, Nat.add_lt_add_left ?_ _⟩)
          omega
      · rw [if_neg hwrite, if_neg hwrite]
        exact hdst j (hj.resolve_right hwrite)
    · rcases hi with hi | ⟨u, hu, hwrite⟩
      · exact .inl (.inl hi)
      · rcases List.mem_cons.1 hu with rfl | hu
        · exact .inl (.inr hwrite)
        · exact .inr ⟨u, hu, hwrite⟩

/-- `PadInputTensor` ends, and what it copies pads the batch. -/
theorem padInputTensor_pads (q : PadRequest) :
    ∃ transfers, (∀ fuel, Nat.clog 2 (q.paddedBatch - q.originalBatch) < fuel →
      padWords q.originalBatch q.paddedBatch q.elementSizeBytes q.elementsPerBatch fuel =
        some transfers) ∧ Pads q transfers := by
  refine ⟨_, fun fuel => padWords_eq_some q, ?_, ?_, ?_, padTransfers_sourced _ _ _ _⟩
  · intro src dst i hi j hj
    refine (runPad_rows q.original_pos src dst).1 _ ?_
    calc i * q.row + j < i * q.row + q.row := Nat.add_lt_add_left hj _
      _ = (i + 1) * q.row := (Nat.succ_mul i q.row).symm
      _ ≤ q.originalBatch * q.row := Nat.mul_le_mul_right _ hi
  · intro src dst i hlow hhigh j hj
    have hback : i * q.row + j = q.originalBatch * q.row + ((i - q.originalBatch) * q.row + j) := by
      rw [← Nat.add_assoc, ← Nat.add_mul, Nat.add_sub_cancel' hlow]
    have hinside : (i - q.originalBatch) * q.row + j <
        (q.paddedBatch - q.originalBatch) * q.row := by
      calc (i - q.originalBatch) * q.row + j
          < (i - q.originalBatch) * q.row + q.row := Nat.add_lt_add_left hj _
        _ = (i - q.originalBatch + 1) * q.row := (Nat.succ_mul _ _).symm
        _ ≤ (q.paddedBatch - q.originalBatch) * q.row := Nat.mul_le_mul_right _ (by omega)
    rw [hback]
    refine ((runPad_rows q.original_pos src dst).2 _ hinside).trans ?_
    show src ((q.originalBatch - 1) * q.row + ((i - q.originalBatch) * q.row + j) % q.row) = _
    rw [Nat.mul_add_mod_of_lt hj]
  · intro t ht
    have hcopy : t.toDeviceCopy ∈ padInputTensor q.originalBatch q.paddedBatch q.elementSizeBytes
        q.elementsPerBatch := by
      rw [← padTransfers_copies]
      exact List.mem_map_of_mem ht
    exact Set.Ico_subset_Ico (Nat.zero_le _) (padInputTensor_end_le q.original_le hcopy)

/-- Three rows of 8 bytes padded to eight: 3 rows, 1, 1, 2, and the one that is left. -/
example : (padWords 3 8 4 2 4).map (·.map fun t => (t.offset, t.bytes)) =
    some [(0, 24), (24, 8), (32, 8), (40, 16), (56, 8)] := by decide

end AmdGpuEp.MIGraphX
