import Mathlib.Data.List.Sort
import Mathlib.Data.List.Dedup
import Mathlib.Tactic.Common
import Mathlib.Tactic.Ring

/-!
# Batch buckets

The batch sizes that programs are compiled for, the choice of a bucket for a
request, and the padding of a batched input, as in `mgx_dynamic_batch.cc`.
Sizes are `std::size_t`: a doubling wraps around at `2 ^ 64`.

Results:
1. `le_findNearestCompiledBatchSize`: a bucket that is found holds the request.
2. `padInputTensor_end_le`: padding writes no byte past the padded batch.
-/

namespace AmdGpuEp.MIGraphX

/-- The number of values of `std::size_t`. -/
def sizeMod : Nat := 2 ^ 64

/-! ## Batch sizes -/

/-- `std::from_chars` on a whole token: digits only, and a value that fits. -/
def parseBatch (token : List Char) : Option Nat :=
  if token ≠ [] ∧ token.all Char.isDigit then
    let value := token.foldl (fun n c => 10 * n + (c.toNat - '0'.toNat)) 0
    if value ≠ 0 ∧ value < sizeMod then some value else none
  else none

/-- `ParseCompileBatches` -/
def parseCompileBatches (spec : String) : List Nat :=
  ((spec.toList.splitOn ',').filterMap parseBatch).insertionSort (· ≤ ·) |>.dedup

/-- `while (target < max_batch_size) target *= 2`. Past `2 ^ 63` the target wraps to 0, and the
loop goes on forever. -/
def raiseTarget (maxBatchSize : Nat) : Nat → Nat → Option Nat
  | 0, _ => none
  | fuel + 1, target =>
    if target < maxBatchSize then raiseTarget maxBatchSize fuel (target * 2 % sizeMod)
    else some target

/-- `for (bs = 1; bs <= target; bs *= 2)`, which does not end either when `bs` wraps to 0. -/
def powersUpTo (target : Nat) : Nat → Nat → Option (List Nat)
  | 0, _ => none
  | fuel + 1, bs =>
    if bs ≤ target then (powersUpTo target fuel (bs * 2 % sizeMod)).map (bs :: ·)
    else some []

/-- `GeneratePowerOfTwoBatchSizes`; none when a loop does not end. A value that is doubled 64 times
is 0, so 65 rounds are enough. -/
def generatePowerOfTwoBatchSizes (maxBatchSize : Nat) : Option (List Nat) :=
  if maxBatchSize = 0 then some []
  else (raiseTarget maxBatchSize 65 1).bind fun target => powersUpTo target 65 1

/-- `GenerateCompiledBatchSizes` -/
def generateCompiledBatchSizes (maxBatchSize : Nat) (compileBatchesSpec : String) :
    Option (List Nat) :=
  match parseCompileBatches compileBatchesSpec with
  | [] => generatePowerOfTwoBatchSizes maxBatchSize
  | sizes => some sizes

/-- `FindNearestCompiledBatchSize`; 0 when no size is large enough. -/
def findNearestCompiledBatchSize (requestedBatch : Nat) : List Nat → Nat
  | [] => 0
  | bs :: sizes =>
    if requestedBatch ≤ bs then bs else findNearestCompiledBatchSize requestedBatch sizes

theorem le_findNearestCompiledBatchSize {requested : Nat} {sizes : List Nat}
    (h : 0 < findNearestCompiledBatchSize requested sizes) :
    requested ≤ findNearestCompiledBatchSize requested sizes := by
  induction sizes with
  | nil => exact absurd h (Nat.lt_irrefl 0)
  | cons bs sizes ih =>
    unfold findNearestCompiledBatchSize at h ⊢
    split at h
    · next hle =>
      rw [if_pos hle]
      exact hle
    · next hlt =>
      rw [if_neg hlt]
      exact ih h

example : generateCompiledBatchSizes 100 "" = some [1, 2, 4, 8, 16, 32, 64, 128] := by decide

/-! ## Padding -/

/-- One device copy into a buffer: the offset it writes to and how many bytes. -/
structure DeviceCopy where
  offset : Nat
  bytes : Nat
  deriving DecidableEq, Repr

/-- The loop that doubles the padding; `filled` rows of `slots` are there. -/
def doublePadding (padStart bytesPerBatch slots : Nat) : Nat → Nat → List DeviceCopy
  | 0, _ => []
  | fuel + 1, filled =>
    if filled < slots then
      let chunk := min filled (slots - filled)
      { offset := padStart + filled * bytesPerBatch, bytes := chunk * bytesPerBatch } ::
        doublePadding padStart bytesPerBatch slots fuel (filled + chunk)
    else []

/-- `PadInputTensor`: the copies it makes into `dst_data`. Each round of the loop fills a row at
least. -/
def padInputTensor (originalBatch paddedBatch elementSizeBytes elementsPerBatch : Nat) :
    List DeviceCopy :=
  let bytesPerBatch := elementSizeBytes * elementsPerBatch
  { offset := 0, bytes := originalBatch * bytesPerBatch } ::
    if 0 < originalBatch ∧ originalBatch < paddedBatch then
      let padStart := originalBatch * bytesPerBatch
      let slots := paddedBatch - originalBatch
      { offset := padStart, bytes := bytesPerBatch } ::
        doublePadding padStart bytesPerBatch slots slots 1
    else []

theorem doublePadding_end_le {padStart bytesPerBatch slots fuel filled : Nat} {copy : DeviceCopy}
    (h : copy ∈ doublePadding padStart bytesPerBatch slots fuel filled) :
    copy.offset + copy.bytes ≤ padStart + slots * bytesPerBatch := by
  induction fuel generalizing filled with
  | zero => cases h
  | succ fuel ih =>
    unfold doublePadding at h
    split at h
    · next hlt =>
      rcases List.mem_cons.1 h with rfl | h
      · have hchunk : filled + min filled (slots - filled) ≤ slots := by omega
        calc padStart + filled * bytesPerBatch + min filled (slots - filled) * bytesPerBatch
            = padStart + (filled + min filled (slots - filled)) * bytesPerBatch := by ring
          _ ≤ padStart + slots * bytesPerBatch :=
            Nat.add_le_add_left (Nat.mul_le_mul_right _ hchunk) _
      · exact ih h
    · cases h

/-- Padding up to a batch that is at least the original one stays inside it. -/
theorem padInputTensor_end_le {original padded size elements : Nat} (hle : original ≤ padded)
    {copy : DeviceCopy} (h : copy ∈ padInputTensor original padded size elements) :
    copy.offset + copy.bytes ≤ padded * (size * elements) := by
  unfold padInputTensor at h
  rcases List.mem_cons.1 h with rfl | h
  · rw [Nat.zero_add]
    exact Nat.mul_le_mul_right _ hle
  · split at h
    · next hlt =>
      have hsplit : original * (size * elements) + (padded - original) * (size * elements) =
          padded * (size * elements) := by
        rw [← Nat.add_mul, Nat.add_sub_cancel' hle]
      rw [← hsplit]
      rcases List.mem_cons.1 h with rfl | h
      · refine Nat.add_le_add_left (Nat.le_mul_of_pos_left _ ?_) _
        omega
      · exact doublePadding_end_le h
    · cases h

end AmdGpuEp.MIGraphX
