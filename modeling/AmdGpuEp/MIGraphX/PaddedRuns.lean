import AmdGpuEp.MIGraphX.CompiledShapes
import AmdGpuEp.MIGraphX.Outputs

/-!
# Padded runs

What is in the buffers of a call in a batch bucket: the rows of the inputs are
copied and the last one is repeated, the program runs on the target batch, and
the outputs are cut down to the requested rows.

Results:
1. `runPad_rows`: padding keeps the rows and repeats the last one.
2. `padded_run_delivers`: for a program that acts on each row alone, in the
   inputs and outputs that the provider takes for batched, a padded run delivers
   what the program for the unpadded shapes computes.
3. `coinciding_weight_padded`: an input that is not batched is padded when its
   first dimension is the requested batch, and the outputs change.
-/

namespace AmdGpuEp.MIGraphX

variable {B : Type*}

/-! ## The copies of PadInputTensor -/

/-- A copy of `PadInputTensor` with what it reads: the source tensor, or rows of the destination
that are there already. -/
structure Transfer extends DeviceCopy where
  readsSource : Bool
  start : Nat

/-- The loop that doubles the padding, with what is read. -/
def doublingTransfers (padStart bytesPerBatch slots : Nat) : Nat → Nat → List Transfer
  | 0, _ => []
  | fuel + 1, filled =>
    if filled < slots then
      let chunk := min filled (slots - filled)
      { offset := padStart + filled * bytesPerBatch, bytes := chunk * bytesPerBatch
        readsSource := false, start := padStart } ::
        doublingTransfers padStart bytesPerBatch slots fuel (filled + chunk)
    else []

/-- `PadInputTensor` with what its copies read. -/
def padTransfers (originalBatch paddedBatch elementSizeBytes elementsPerBatch : Nat) :
    List Transfer :=
  let bytesPerBatch := elementSizeBytes * elementsPerBatch
  { offset := 0, bytes := originalBatch * bytesPerBatch, readsSource := true, start := 0 } ::
    if 0 < originalBatch ∧ originalBatch < paddedBatch then
      let padStart := originalBatch * bytesPerBatch
      let slots := paddedBatch - originalBatch
      { offset := padStart, bytes := bytesPerBatch
        readsSource := true, start := (originalBatch - 1) * bytesPerBatch } ::
        doublingTransfers padStart bytesPerBatch slots slots 1
    else []

/-- What is in the destination after a copy. -/
def Transfer.run (src : Nat → B) (dst : Nat → B) (t : Transfer) : Nat → B := fun i =>
  if t.offset ≤ i ∧ i < t.offset + t.bytes then
    (if t.readsSource then src else dst) (t.start + (i - t.offset))
  else dst i

/-- What is in the destination after all copies. -/
def runTransfers (src : Nat → B) (transfers : List Transfer) (dst : Nat → B) : Nat → B :=
  transfers.foldl (Transfer.run src) dst

theorem doublingTransfers_copies (padStart bytesPerBatch slots fuel filled : Nat) :
    (doublingTransfers padStart bytesPerBatch slots fuel filled).map Transfer.toDeviceCopy =
      doublePadding padStart bytesPerBatch slots fuel filled := by
  induction fuel generalizing filled with
  | zero => rfl
  | succ fuel ih =>
    unfold doublingTransfers doublePadding
    split
    · rw [List.map_cons, ih]
    · rfl

/-- They are the copies of `padInputTensor`. -/
theorem padTransfers_copies (original padded size elements : Nat) :
    (padTransfers original padded size elements).map Transfer.toDeviceCopy =
      padInputTensor original padded size elements := by
  unfold padTransfers padInputTensor
  dsimp only
  split
  · rw [List.map_cons, List.map_cons, doublingTransfers_copies]
  · rfl

section
variable {src dst : Nat → B} {padStart bytesPerBatch slots : Nat}

/-- The doubling loop: when the first `filled` slots have the row, in the end all have it, and what
is in front of the padding stays. -/
theorem runDoubling_rows (row : Nat → B) {fuel filled : Nat} (hpos : 0 < filled)
    (hfuel : slots ≤ filled + fuel)
    (hrow : ∀ k < filled * bytesPerBatch, dst (padStart + k) = row (k % bytesPerBatch)) :
    (∀ k < slots * bytesPerBatch,
      runTransfers src (doublingTransfers padStart bytesPerBatch slots fuel filled) dst
        (padStart + k) = row (k % bytesPerBatch)) ∧
    ∀ i < padStart,
      runTransfers src (doublingTransfers padStart bytesPerBatch slots fuel filled) dst i =
        dst i := by
  induction fuel generalizing filled dst with
  | zero =>
    refine ⟨fun k hk => hrow k ?_, fun i _ => rfl⟩
    exact Nat.lt_of_lt_of_le hk (Nat.mul_le_mul_right _ hfuel)
  | succ fuel ih =>
    unfold doublingTransfers
    split
    · next hlt =>
      set chunk := min filled (slots - filled) with hchunk
      set t : Transfer := { offset := padStart + filled * bytesPerBatch
                            bytes := chunk * bytesPerBatch
                            readsSource := false, start := padStart } with ht
      show (∀ k < slots * bytesPerBatch,
        runTransfers src (doublingTransfers padStart bytesPerBatch slots fuel (filled + chunk))
          (t.run src dst) (padStart + k) = row (k % bytesPerBatch)) ∧
        ∀ i < padStart,
          runTransfers src (doublingTransfers padStart bytesPerBatch slots fuel (filled + chunk))
            (t.run src dst) i = dst i
      have hstep : ∀ k < (filled + chunk) * bytesPerBatch,
          t.run src dst (padStart + k) = row (k % bytesPerBatch) := by
        intro k hk
        rw [Nat.add_mul] at hk
        have hle : chunk * bytesPerBatch ≤ filled * bytesPerBatch :=
          Nat.mul_le_mul_right _ (Nat.min_le_left _ _)
        unfold Transfer.run
        by_cases hk' : k < filled * bytesPerBatch
        · rw [if_neg (by rw [ht]; dsimp only; omega)]
          exact hrow k hk'
        · rw [if_pos (by rw [ht]; dsimp only; omega)]
          have hback : padStart + k - (padStart + filled * bytesPerBatch) =
              k - filled * bytesPerBatch := by omega
          show dst (padStart + (padStart + k - (padStart + filled * bytesPerBatch))) = _
          rw [hback, hrow _ (by omega), Nat.mul_comm filled, Nat.sub_mul_mod]
          rw [Nat.mul_comm]
          omega
      obtain ⟨hall, hfront⟩ := ih (by omega) (by omega) hstep
      refine ⟨hall, fun i hi => (hfront i hi).trans ?_⟩
      refine if_neg fun hin => ?_
      have hfrom : padStart + filled * bytesPerBatch ≤ i := hin.1
      omega
    · next hge =>
      refine ⟨fun k hk => hrow k ?_, fun i _ => rfl⟩
      exact Nat.lt_of_lt_of_le hk (Nat.mul_le_mul_right _ (Nat.le_of_not_lt hge))

/-- `PadInputTensor` copies the rows of the source and repeats the last one. -/
theorem runPad_rows {original padded size elements : Nat} (hpos : 0 < original) (src dst : Nat → B) :
    (∀ i < original * (size * elements),
      runTransfers src (padTransfers original padded size elements) dst i = src i) ∧
    ∀ k < (padded - original) * (size * elements),
      runTransfers src (padTransfers original padded size elements) dst
          (original * (size * elements) + k) =
        src ((original - 1) * (size * elements) + k % (size * elements)) := by
  set row := size * elements with hrow
  set first : Transfer :=
    { offset := 0, bytes := original * row, readsSource := true, start := 0 } with hfirst
  have hcopied : ∀ i < original * row, first.run src dst i = src i := by
    intro i hi
    unfold Transfer.run
    rw [if_pos (by rw [hfirst]; dsimp only; omega)]
    show src (0 + (i - 0)) = src i
    rw [Nat.zero_add, Nat.sub_zero]
  unfold padTransfers
  dsimp only
  rw [← hrow, ← hfirst]
  by_cases hlt : original < padded
  · rw [if_pos ⟨hpos, hlt⟩]
    set last : Transfer :=
      { offset := original * row, bytes := row, readsSource := true
        start := (original - 1) * row } with hlast
    have hone : ∀ k < 1 * row, last.run src (first.run src dst) (original * row + k) =
        src ((original - 1) * row + k % row) := by
      intro k hk
      rw [Nat.one_mul] at hk
      unfold Transfer.run
      rw [if_pos (by rw [hlast]; dsimp only; omega), Nat.mod_eq_of_lt hk]
      show src ((original - 1) * row + (original * row + k - original * row)) = _
      rw [Nat.add_sub_cancel_left]
    have hslots : padded - original ≤ 1 + (padded - original) := Nat.le_add_left _ _
    obtain ⟨hpad, hfront⟩ := runDoubling_rows
      (fun k => src ((original - 1) * row + k)) Nat.one_pos hslots hone
    refine ⟨fun i hi => ?_, hpad⟩
    refine (hfront i hi).trans ((if_neg fun hin => ?_).trans (hcopied i hi))
    have hfrom : original * row ≤ i := hin.1
    omega
  · rw [if_neg fun h => hlt h.2]
    refine ⟨hcopied, fun k hk => ?_⟩
    rw [Nat.sub_eq_zero_of_le (Nat.le_of_not_lt hlt), Nat.zero_mul] at hk
    cases hk

end

/-! ## The contents of a call -/

/-- How the library runs a program: the contents of its output buffers, from those of its inputs. -/
structure Semantics (B : Type*) where
  exec : Program → (String → Nat → B) → String → Nat → B

/-- The contents of the input tensors of a call by index, and what the staging buffers hold before
it. -/
structure CallData (B : Type*) where
  input : Nat → Nat → B
  staged : String → Nat → B

/-- What `CopyInputsToStaging` leaves in a staging buffer: the padded rows of a batched input, or
the clamped bytes of any other. -/
def copiedInput (dyn : DynamicBatchContext) (shape : Shape) (stage : StagingBuffer)
    (tensor : Tensor) (src dst : Nat → B) : Nat → B :=
  if dyn.active ∧ dyn.requestedBatch < dyn.targetBatch ∧
      shape.lengths.head? = some dyn.targetBatch ∧
      tensor.shape.head?.map sizeOf64 = some dyn.requestedBatch then
    let totalElems := productOf shape.lengths
    let elementSize := if 0 < totalElems then shape.bytes / totalElems else 0
    runTransfers src
      (padTransfers dyn.requestedBatch dyn.targetBatch elementSize (totalElems / dyn.targetBatch))
      dst
  else fun i => if i < min shape.bytes stage.sizeBytes then src i else dst i

/-- The staging buffers of the inputs when the program runs. -/
def stagedInputData {D : Type*} (cfg : NodeConfig) (params : ParameterShapes)
    (dyn : DynamicBatchContext) (c : Call) (s : ComputeState D) (data : CallData B) :
    String → Nat → B := fun name =>
  match cfg.inputIndex name, s.staging.inputs name with
  | some index, some stage =>
    copiedInput dyn (params.shape name) stage (c.input index) (data.input index)
      (data.staged name)
  | _, _ => data.staged name

/-- The input tensors of the call by name. -/
def inputData (cfg : NodeConfig) (data : CallData B) : String → Nat → B := fun name =>
  data.input ((cfg.inputIndex name).getD 0)

/-- The shape of an output tensor of ORT: a batched output has the requested batch. -/
def ortShape (dyn : DynamicBatchContext) (shape : Shape) : List Nat :=
  match shape.lengths with
  | [] => []
  | front :: tail =>
    if dyn.active ∧ dyn.requestedBatch < dyn.targetBatch ∧ front = dyn.targetBatch then
      dyn.requestedBatch :: tail
    else front :: tail

/-- The shapes of the inputs as they are in the call. -/
def callShapes (cfg : NodeConfig) (c : Call) : Shapes := fun name =>
  (c.input ((cfg.inputIndex name).getD 0)).shape

/-- A staged call delivers, for each bound output, what the program `unpadded` computes from the
inputs of the call: the shape, the size and the contents. -/
def DeliversUnpadded {D : Type*} (lib : Library) (sem : Semantics B) (cfg : NodeConfig) (c : Call)
    (pre : Prepared D) (data : CallData B) (unpadded : Program) : Prop :=
  let params := lib.parameterShapes pre.state.program
  let s := stagedState cfg params c pre
  ∀ out ∈ boundOutputs cfg params s,
    let shape := (lib.parameterShapes unpadded).shape out.name
    ortShape pre.dyn out.shape = shape.lengths ∧ outputBytes pre.dyn out.shape = shape.bytes ∧
      ∀ k < shape.bytes,
        sem.exec pre.state.program (stagedInputData cfg params pre.dyn c s data) out.name k =
          sem.exec unpadded (inputData cfg data) out.name k

/-! ## Programs that act on each row alone -/

/-- A packed shape of `n` rows. -/
structure HasRows (shape : Shape) (n : Nat) (tail : List Nat) (width : Nat) : Prop where
  lengths : shape.lengths = n :: tail
  bytes : shape.bytes = n * (productOf tail * width)

/-- The first bytes are the same. -/
def SameBytes (bytes : Nat) (x y : Nat → B) : Prop := ∀ k < bytes, x k = y k

/-- Row `i` of one tensor is row `j` of another. -/
def SameRow (rowBytes i j : Nat) (x y : Nat → B) : Prop :=
  SameBytes rowBytes (fun k => x (i * rowBytes + k)) fun k => y (j * rowBytes + k)

/-- The parameter is an output. -/
def IsOutput (cfg : NodeConfig) (name : String) : Prop :=
  cfg.isInput name = false ∧ computeOutputIndex name ≠ -1

instance (cfg : NodeConfig) (name : String) : Decidable (IsOutput cfg name) :=
  inferInstanceAs (Decidable (_ ∧ _))

/-- Two programs, for `n` and for `m` rows, do the same to each row. -/
structure RowWise (lib : Library) (sem : Semantics B) (cfg : NodeConfig) (batched : String → Prop)
    (n m : Nat) (p q : Program) : Prop where
  rows : ∀ name ∈ (lib.parameterShapes p).names, batched name →
    ∃ tail width, HasRows ((lib.parameterShapes p).shape name) n tail width ∧
      HasRows ((lib.parameterShapes q).shape name) m tail width
  fixed : ∀ name ∈ (lib.parameterShapes p).names, IsOutput cfg name → ¬ batched name →
    (lib.parameterShapes p).shape name = (lib.parameterShapes q).shape name
  exec : ∀ x y,
    (∀ name ∈ (lib.parameterShapes p).names, cfg.isInput name = true → ¬ batched name →
      SameBytes ((lib.parameterShapes p).shape name).bytes (x name) (y name)) →
    ∀ out ∈ (lib.parameterShapes p).names, IsOutput cfg out →
      (¬ batched out →
        SameBytes ((lib.parameterShapes p).shape out).bytes (sem.exec p x out)
          (sem.exec q y out)) ∧
      (batched out → ∀ i < n, ∀ j < m,
        (∀ name ∈ (lib.parameterShapes p).names, cfg.isInput name = true → batched name →
          SameRow (((lib.parameterShapes p).shape name).bytes / n) i j (x name) (y name)) →
        SameRow (((lib.parameterShapes p).shape out).bytes / n) i j (sem.exec p x out)
          (sem.exec q y out))

/-- A model whose programs, compiled for any two batches, do the same to each row of the batched
inputs and outputs. -/
def RowIndependent (lib : Library) (sem : Semantics B) (cfg : NodeConfig)
    (batched : String → Prop) : Prop :=
  ∀ n m, 0 < n → 0 < m → ∀ dims dims' : String → List Nat,
    (∀ name ∈ cfg.inputNames,
      (batched name → ∃ tail, dims name = n :: tail ∧ dims' name = m :: tail) ∧
        (¬ batched name → dims name = dims' name)) →
    RowWise lib sem cfg batched n m (.compiled dims) (.compiled dims')

/-! ## The bucket of a call -/

theorem mem_powersUpTo_lt {target fuel bs : Nat} {sizes : List Nat} (hbs : bs < sizeMod)
    (h : powersUpTo target fuel bs = some sizes) {size : Nat} (hsize : size ∈ sizes) :
    size < sizeMod := by
  induction fuel generalizing bs sizes with
  | zero => cases h
  | succ fuel ih =>
    unfold powersUpTo at h
    split at h
    · obtain ⟨rest, hrest, rfl⟩ := Option.map_eq_some_iff.1 h
      cases hsize with
      | head => exact hbs
      | tail _ hsize => exact ih (Nat.mod_lt _ (by decide)) hrest hsize
    · cases h
      cases hsize

theorem mem_generateCompiledBatchSizes_lt {maxBatchSize : Nat} {spec : String}
    {sizes : List Nat} (h : generateCompiledBatchSizes maxBatchSize spec = some sizes) {size : Nat}
    (hsize : size ∈ sizes) : size < sizeMod := by
  unfold generateCompiledBatchSizes at h
  split at h
  · unfold generatePowerOfTwoBatchSizes at h
    split at h
    · cases h
      cases hsize
    · obtain ⟨target, _, hpowers⟩ := Option.bind_eq_some_iff.1 h
      exact mem_powersUpTo_lt (by decide) hpowers hsize
  · next hparsed =>
    cases h
    unfold parseCompileBatches at hsize
    rw [List.mem_dedup, List.mem_insertionSort] at hsize
    obtain ⟨token, _, htoken⟩ := List.mem_filterMap.1 hsize
    unfold parseBatch at htoken
    split at htoken
    · obtain ⟨hvalue, hsome⟩ := Option.ite_none_right_eq_some.1 htoken
      cases hsome
      exact hvalue.2
    · cases htoken

theorem mem_of_findNearest {requested : Nat} {sizes : List Nat}
    (h : 0 < findNearestCompiledBatchSize requested sizes) :
    findNearestCompiledBatchSize requested sizes ∈ sizes := by
  induction sizes with
  | nil => cases h
  | cons bs sizes ih =>
    unfold findNearestCompiledBatchSize at h ⊢
    split
    · exact List.mem_cons_self ..
    · next hlt =>
      rw [if_neg hlt] at h
      exact List.mem_cons_of_mem _ (ih h)

/-- An active bucket holds the requested rows. -/
theorem resolveBatch_active {cfg : NodeConfig} {c : Call} {compiled sizes : List Nat}
    {dyn : DynamicBatchContext} (h : resolveBatch cfg c compiled = some (sizes, dyn))
    (hactive : dyn.active = true) (hcompiled : ∀ size ∈ compiled, size < sizeMod) :
    0 < dyn.requestedBatch ∧ dyn.requestedBatch ≤ dyn.targetBatch ∧
      (dyn.requestedBatch < sizeMod → dyn.targetBatch < sizeMod) := by
  unfold resolveBatch at h
  split at h
  · cases h
    cases hactive
  · dsimp only at h
    obtain ⟨generated, hgenerated, h⟩ := Option.map_eq_some_iff.1 h
    have hlt : ∀ size ∈ generated, size < sizeMod := by
      intro size hsize
      split at hgenerated
      · exact mem_generateCompiledBatchSizes_lt hgenerated hsize
      · cases hgenerated
        exact hcompiled size hsize
    split at h
    · next hrequested =>
      cases h
      refine ⟨hrequested, ?_, ?_⟩
      · dsimp only
        split
        · next hbucket => exact le_findNearestCompiledBatchSize hbucket
        · exact Nat.le_refl _
      · dsimp only
        split
        · next hbucket => exact fun _ => hlt _ (mem_of_findNearest hbucket)
        · exact id
    · cases h
      cases hactive

theorem sizeOf64_ofNat {n : Nat} (h : n < sizeMod) : sizeOf64 (Int64.ofNat n) = n := by
  unfold sizeOf64
  show (BitVec.ofNat 64 n).toNat = n
  rw [BitVec.toNat_ofNat]
  exact Nat.mod_eq_of_lt h

theorem sizeOf64_lt (dim : Int64) : sizeOf64 dim < sizeMod := dim.toBitVec.isLt

/-! ## Rows and bytes -/

theorem productOf_cons (front : Nat) (tail : List Nat) :
    productOf (front :: tail) = front * productOf tail := by
  unfold productOf
  rw [← List.prod_eq_foldl, ← List.prod_eq_foldl, List.prod_cons]

section
variable {shape : Shape} {n width : Nat} {tail : List Nat}

theorem HasRows.rowBytes (h : HasRows shape n tail width) (hn : 0 < n) :
    shape.bytes / n = productOf tail * width := by
  rw [h.bytes, Nat.mul_div_cancel_left _ hn]

/-- The bytes of a row as the padding computes them. -/
theorem HasRows.paddedBytes (h : HasRows shape n tail width) (hn : 0 < n) :
    (if 0 < productOf shape.lengths then shape.bytes / productOf shape.lengths else 0) *
      (productOf shape.lengths / n) = shape.bytes / n := by
  rw [h.rowBytes hn, h.bytes, h.lengths, productOf_cons, Nat.mul_div_cancel_left _ hn]
  cases htail : productOf tail with
  | zero => simp
  | succ t =>
    have hpos : 0 < n * (t + 1) := Nat.mul_pos hn t.succ_pos
    rw [if_pos hpos, ← Nat.mul_assoc, Nat.mul_div_cancel_left _ hpos, Nat.mul_comm]

end

/-! ## Padded runs -/

section
variable {dyn : DynamicBatchContext} {shape : Shape} {tail : List Nat} {width : Nat}

/-- An input that is not batched is copied as it is. -/
theorem copiedInput_fixed {stage : StagingBuffer} {tensor : Tensor} (src dst : Nat → B)
    (hhead : tensor.shape.head?.map sizeOf64 ≠ some dyn.requestedBatch)
    (hroom : shape.bytes ≤ stage.sizeBytes) :
    SameBytes shape.bytes (copiedInput dyn shape stage tensor src dst) src := by
  intro k hk
  unfold copiedInput
  rw [if_neg fun h => hhead h.2.2.2, Nat.min_eq_left hroom]
  exact if_pos hk

/-- The requested rows of a batched input are there, padded or not. -/
theorem copiedInput_row {stage : StagingBuffer} {tensor : Tensor} (src dst : Nat → B)
    (hpos : 0 < dyn.requestedBatch) (hle : dyn.requestedBatch ≤ dyn.targetBatch)
    (hshape : HasRows shape dyn.targetBatch tail width)
    (hroom : shape.bytes ≤ stage.sizeBytes) {i : Nat} (hi : i < dyn.requestedBatch) :
    SameRow (shape.bytes / dyn.targetBatch) i i (copiedInput dyn shape stage tensor src dst)
      src := by
  intro k hk
  have htarget := Nat.lt_of_lt_of_le hpos hle
  have hin : i * (shape.bytes / dyn.targetBatch) + k <
      dyn.requestedBatch * (shape.bytes / dyn.targetBatch) :=
    calc i * (shape.bytes / dyn.targetBatch) + k
        < (i + 1) * (shape.bytes / dyn.targetBatch) := by
          rw [Nat.add_mul, Nat.one_mul]
          exact Nat.add_lt_add_left hk _
      _ ≤ dyn.requestedBatch * (shape.bytes / dyn.targetBatch) := Nat.mul_le_mul_right _ hi
  dsimp only
  unfold copiedInput
  split
  · refine (runPad_rows hpos src dst).1 _ ?_
    rw [hshape.paddedBytes htarget]
    exact hin
  · refine if_pos ?_
    rw [Nat.min_eq_left hroom]
    calc i * (shape.bytes / dyn.targetBatch) + k
        < dyn.requestedBatch * (shape.bytes / dyn.targetBatch) := hin
      _ ≤ dyn.targetBatch * (shape.bytes / dyn.targetBatch) := Nat.mul_le_mul_right _ hle
      _ ≤ shape.bytes := Nat.mul_div_le _ _

/-- A batched output is cut down to the rows of the unpadded shape. -/
theorem cut_batched {shape' : Shape} (hactive : dyn.active = true)
    (hpos : 0 < dyn.requestedBatch) (hle : dyn.requestedBatch ≤ dyn.targetBatch)
    (hshape : HasRows shape dyn.targetBatch tail width)
    (hshape' : HasRows shape' dyn.requestedBatch tail width) :
    ortShape dyn shape = shape'.lengths ∧ outputBytes dyn shape = shape'.bytes := by
  have htarget := Nat.lt_of_lt_of_le hpos hle
  unfold ortShape outputBytes
  rw [hshape.lengths, hshape'.lengths, hshape'.bytes]
  rcases Nat.lt_or_eq_of_le hle with hlt | heq
  · rw [if_pos ⟨hactive, hlt, rfl⟩, hshape.rowBytes htarget, Nat.mul_comm]
    exact ⟨if_pos ⟨hactive, hlt, rfl⟩, rfl⟩
  · rw [if_neg fun h => Nat.lt_irrefl _ (heq ▸ h.2.1), hshape.bytes, heq]
    exact ⟨if_neg fun h => Nat.lt_irrefl _ h.2.1, rfl⟩

/-- Any other output stays as it is. -/
theorem cut_fixed (hhead : shape.lengths.head? ≠ some dyn.targetBatch) :
    ortShape dyn shape = shape.lengths ∧ outputBytes dyn shape = shape.bytes := by
  constructor
  · unfold ortShape
    split
    · next hnil => exact hnil.symm
    · next front tail hcons =>
      rw [hcons] at hhead ⊢
      exact if_neg fun h => hhead (congrArg some h.2.2)
  · exact if_neg fun h => hhead h.2.2

end

/-- The dimensions that the programs for a bucket and for the unpadded shapes are compiled for. -/
theorem dims_of_bucket {cfg : NodeConfig} {c : Call} {dyn : DynamicBatchContext}
    {dims dims' : String → List Nat} {batched : String → Prop} (hactive : dyn.active = true)
    (htarget : dyn.requestedBatch < sizeMod → dyn.targetBatch < sizeMod)
    (hdims : CompiledFor cfg (effectiveShapes cfg c dyn) (.compiled dims))
    (hdims' : CompiledFor cfg (callShapes cfg c) (.compiled dims'))
    (hinputs : ∀ name ∈ cfg.inputNames, (batched name ↔
      (callShapes cfg c name).head?.map sizeOf64 = some dyn.requestedBatch))
    {name : String} (hname : name ∈ cfg.inputNames) :
    (batched name → ∃ tail, dims name = dyn.targetBatch :: tail ∧
        dims' name = dyn.requestedBatch :: tail) ∧
      (¬ batched name → dims name = dims' name) := by
  have hd : dims name = toLengths (effectiveShape dyn (callShapes cfg c name)) := hdims name hname
  have hd' : dims' name = toLengths (callShapes cfg c name) := hdims' name hname
  rw [hinputs name hname, hd, hd']
  cases callShapes cfg c name with
  | nil => exact ⟨nofun, fun _ => rfl⟩
  | cons dim tail =>
    unfold effectiveShape
    simp only [List.head?_cons, Option.map_some, Option.some.injEq]
    constructor
    · intro hdim
      have hlt : dyn.requestedBatch < sizeMod := hdim ▸ sizeOf64_lt dim
      rw [if_pos ⟨hactive, hdim⟩]
      refine ⟨toLengths tail, ?_, ?_⟩
      · exact congrArg (· :: toLengths tail) (sizeOf64_ofNat (htarget hlt))
      · exact congrArg (· :: toLengths tail) hdim
    · intro hdim
      rw [if_neg fun h => hdim h.2]

/-- The provider takes for batched what the model has batched: the inputs whose first dimension is
the requested batch, and the outputs whose first dimension is the target batch. -/
structure TakesBatched {D : Type*} (lib : Library) (cfg : NodeConfig) (c : Call) (pre : Prepared D)
    (batched : String → Prop) : Prop where
  inputs : ∀ name ∈ cfg.inputNames, (batched name ↔
    (callShapes cfg c name).head?.map sizeOf64 = some pre.dyn.requestedBatch)
  outputs : ∀ name ∈ (lib.parameterShapes pre.state.program).names, IsOutput cfg name →
    (batched name ↔ ((lib.parameterShapes pre.state.program).shape name).lengths.head? =
      some pre.dyn.targetBatch)

/-- The staging buffers of a call are there and large enough. -/
structure HasBuffers {D : Type*} (cfg : NodeConfig) (params : ParameterShapes)
    (s : ComputeState D) : Prop where
  inputs : ∀ name ∈ params.names, cfg.isInput name = true → (s.staging.inputs name).isSome = true
  roomy : Roomy cfg params s.staging

/-- In a batch bucket, a program that acts on each row alone delivers what the program for the
unpadded shapes computes, when the provider takes for batched what is batched. -/
theorem padded_run_delivers {D : Type*} [DecidableEq D] {H : IdealHash D} {lib : Library}
    {sem : Semantics B} {cfg : NodeConfig} {batched : String → Prop} {s : ComputeState D}
    {c : Call} {pre : Prepared D} {dims dims' : String → List Nat}
    (hmodel : RowIndependent lib sem cfg batched)
    (hsizes : ∀ size ∈ s.compiledBatchSizes, size < sizeMod)
    (hpre : prepare H lib cfg s c = some pre) (hactive : pre.dyn.active = true)
    (hprogram : pre.state.program = .compiled dims)
    (hdims : CompiledFor cfg pre.effective (.compiled dims))
    (hdims' : CompiledFor cfg (callShapes cfg c) (.compiled dims'))
    (htakes : TakesBatched lib cfg c pre batched)
    (hbuffers : HasBuffers cfg (lib.parameterShapes pre.state.program)
      (stagedState cfg (lib.parameterShapes pre.state.program) c pre))
    (data : CallData B) : DeliversUnpadded lib sem cfg c pre data (.compiled dims') := by
  obtain ⟨sizes, hbatch, heffective, _⟩ := prepare_cases hpre
  obtain ⟨hpos, hle, htarget⟩ := resolveBatch_active hbatch hactive hsizes
  have htargetPos := Nat.lt_of_lt_of_le hpos hle
  rw [heffective] at hdims
  have hrows := hmodel pre.dyn.targetBatch pre.dyn.requestedBatch htargetPos hpos dims dims'
    fun name hname => dims_of_bucket hactive htarget hdims hdims' htakes.inputs hname
  rw [← hprogram] at hrows
  unfold DeliversUnpadded
  dsimp only
  set params := lib.parameterShapes pre.state.program with hparams
  set staged := stagedState cfg params c pre with hstaged
  set x := stagedInputData cfg params pre.dyn c staged data with hx
  set y := inputData cfg data with hy
  -- what the buffer of an input holds comes from its tensor
  have hcopied : ∀ name ∈ params.names, cfg.isInput name = true →
      ∃ stage index, (params.shape name).bytes ≤ stage.sizeBytes ∧
        (c.input index).shape = callShapes cfg c name ∧ y name = data.input index ∧
        x name = copiedInput pre.dyn (params.shape name) stage (c.input index) (data.input index)
          (data.staged name) := by
    intro name hname hinput
    obtain ⟨stage, hstage⟩ := Option.isSome_iff_exists.1 (hbuffers.inputs name hname hinput)
    obtain ⟨index, hindex⟩ := Option.isSome_iff_exists.1 hinput
    have hroom := hbuffers.roomy name hname stage
    unfold Staging.buffer at hroom
    rw [if_pos hinput] at hroom
    refine ⟨stage, index, hroom hstage, ?_, ?_, ?_⟩
    · unfold callShapes
      rw [hindex, Option.getD_some]
    · rw [hy]
      unfold inputData
      rw [hindex, Option.getD_some]
    · rw [hx]
      unfold stagedInputData
      rw [hindex, hstage]
  have hfixed : ∀ name ∈ params.names, cfg.isInput name = true → ¬ batched name →
      SameBytes (params.shape name).bytes (x name) (y name) := by
    intro name hname hinput hnot
    obtain ⟨stage, index, hroom, hshape, hyname, hxname⟩ := hcopied name hname hinput
    rw [hxname, hyname]
    refine copiedInput_fixed _ _ ?_ hroom
    rw [hshape]
    exact fun hhead => hnot ((htakes.inputs name (isInput_iff.1 hinput)).2 hhead)
  have hbatched : ∀ i < pre.dyn.requestedBatch, ∀ name ∈ params.names, cfg.isInput name = true →
      batched name →
        SameRow ((params.shape name).bytes / pre.dyn.targetBatch) i i (x name) (y name) := by
    intro i hi name hname hinput hyes
    obtain ⟨stage, index, hroom, _, hyname, hxname⟩ := hcopied name hname hinput
    obtain ⟨tail, width, hshape, _⟩ := hrows.rows name hname hyes
    rw [hxname, hyname]
    exact copiedInput_row _ _ hpos hle hshape hroom hi
  intro out hout
  obtain ⟨hname, hinput, hbuffer, _, hshape⟩ := mem_boundOutputs.1 hout
  have houtput : IsOutput cfg out.name := ⟨hinput, computeOutputIndex_of_bound hinput hbuffer⟩
  obtain ⟨hexecFixed, hexecRows⟩ := hrows.exec x y hfixed out.name hname houtput
  rw [hshape]
  by_cases hyes : batched out.name
  · obtain ⟨tail, width, hpadded, hunpadded⟩ := hrows.rows out.name hname hyes
    obtain ⟨hlengths, hbytes⟩ := cut_batched hactive hpos hle hpadded hunpadded
    refine ⟨hlengths, hbytes, fun k hk => ?_⟩
    set row := (params.shape out.name).bytes / pre.dyn.targetBatch with hrow
    have hrowBytes := hpadded.rowBytes htargetPos
    rw [← hparams, ← hrow] at hrowBytes
    rw [hunpadded.bytes, ← hrowBytes] at hk
    have hrowPos : 0 < row := Nat.pos_of_mul_pos_left (Nat.lt_of_le_of_lt (Nat.zero_le k) hk)
    have hi : k / row < pre.dyn.requestedBatch := (Nat.div_lt_iff_lt_mul hrowPos).2 hk
    have hsame := hexecRows hyes (k / row) (Nat.lt_of_lt_of_le hi hle) (k / row) hi
      (hbatched (k / row) hi) (k % row) (Nat.mod_lt k hrowPos)
    dsimp only at hsame
    rw [Nat.div_add_mod'] at hsame
    exact hsame
  · have hhead := fun h => hyes ((htakes.outputs out.name hname houtput).2 h)
    obtain ⟨hlengths, hbytes⟩ := cut_fixed hhead
    rw [← hrows.fixed out.name hname houtput hyes]
    exact ⟨hlengths, hbytes, hexecFixed hyes⟩

/-! ## A program with a weight among its inputs -/

/-- A program with the inputs `x` and `w` of bytes, and an output of the shape of `x`. -/
def weightLibrary : Library where
  parameterShapes
    | .empty => { names := [], shape := fun _ => ⟨[], [], 0, 0⟩ }
    | .parsed dims | .unfinished dims | .compiled dims =>
      { names := ["x", "w", "#output_0"]
        shape := fun name =>
          let lengths := dims (if name = "w" then "w" else "x")
          ⟨lengths, [], 0, productOf lengths⟩ }

/-- It adds the sum of `w` to every element of `x`. -/
def weightSemantics : Semantics Nat where
  exec
    | .compiled dims, x, _, k => x "x" k + ((List.range (productOf (dims "w"))).map (x "w")).sum
    | _, _, _, _ => 0

/-- The node of that program, with buckets of up to four rows. -/
def weightConfig : NodeConfig where
  inputNameIndices := [("x", 0), ("w", 1)]
  names_nodup := by decide
  declared := fun _ => []
  maxDynamicBatch := 4

/-- A call with three rows and a weight of `m` elements. -/
def weightCall (m : Int64) : Call where
  input := fun index => { shape := if index = 0 then [3] else [m] }

theorem weight_rowIndependent :
    RowIndependent weightLibrary weightSemantics weightConfig (· ≠ "w") := by
  intro n m _ _ dims dims' hdims
  obtain ⟨tail, hx, hx'⟩ := (hdims "x" (by decide)).1 (by decide)
  have hw := (hdims "w" (by decide)).2 (by decide)
  have hshape : ∀ name, name ≠ "w" →
      HasRows ((weightLibrary.parameterShapes (.compiled dims)).shape name) n tail 1 ∧
        HasRows ((weightLibrary.parameterShapes (.compiled dims')).shape name) m tail 1 := by
    intro name hname
    simp only [weightLibrary, if_neg hname, hx, hx']
    exact ⟨⟨rfl, by simp [productOf_cons]⟩, ⟨rfl, by simp [productOf_cons]⟩⟩
  refine ⟨fun name _ hname => ⟨tail, 1, hshape name hname⟩, ?_, ?_⟩
  · intro name _ houtput hname
    obtain rfl := not_not.1 hname
    exact absurd houtput.1 (by decide)
  · intro x y hfixed out hout houtput
    have hsum : (List.range (productOf (dims "w"))).map (x "w") =
        (List.range (productOf (dims "w"))).map (y "w") :=
      List.map_congr_left fun k hk =>
        hfixed "w" (by simp [weightLibrary]) (by decide) (by decide) k (List.mem_range.1 hk)
    refine ⟨fun hname => ?_, fun hname i _ j _ hrows k hk => ?_⟩
    · obtain rfl := not_not.1 hname
      exact absurd houtput.1 (by decide)
    · have hsame := hrows "x" (by simp [weightLibrary]) (by decide) (by decide)
      simp only [weightLibrary, if_neg hname] at hk ⊢
      simp only [weightLibrary] at hsame
      show x "x" _ + _ = y "x" _ + _
      rw [hsum, hw]
      exact congrArg (· + _) (hsame k hk)

/-- The weight has two elements: the program runs on four rows and delivers three. -/
theorem weight_delivered :
    ∃ pre, prepare IdealHash.free weightLibrary weightConfig rowsState (weightCall 2) = some pre ∧
      DeliversUnpadded weightLibrary weightSemantics weightConfig (weightCall 2) pre
        { input := fun _ k => k, staged := fun _ _ => 0 }
        (.compiled fun name => if name = "x" then [3] else [2]) := by
  refine ⟨_, rfl, padded_run_delivers (H := IdealHash.free) (s := rowsState) (c := weightCall 2)
    weight_rowIndependent nofun rfl rfl rfl (by decide) (by decide) ⟨by decide, by decide⟩
    ⟨by decide, fun name hname => ?_⟩ _⟩
  have hnames : name ∈ ["x", "w", "#output_0"] := hname
  simp only [List.mem_cons, List.not_mem_nil, or_false] at hnames
  rcases hnames with rfl | rfl | rfl
  · rintro buffer ⟨⟩
    decide
  · rintro buffer ⟨⟩
    decide
  · rintro buffer ⟨⟩
    decide

/-- The weight has three elements, as many as there are rows: it is padded as well, and every row
of the output gets the sum of four elements. -/
theorem coinciding_weight_padded :
    RowIndependent weightLibrary weightSemantics weightConfig (· ≠ "w") ∧
    ∃ pre, prepare IdealHash.free weightLibrary weightConfig rowsState (weightCall 3) = some pre ∧
      ¬ DeliversUnpadded weightLibrary weightSemantics weightConfig (weightCall 3) pre
        { input := fun _ _ => 1, staged := fun _ _ => 0 } (.compiled fun _ => [3]) := by
  refine ⟨weight_rowIndependent, _, rfl, fun hdelivers => ?_⟩
  have hout := hdelivers ⟨0, "#output_0", ⟨[4], [], 0, 4⟩⟩ (by decide)
  exact absurd (hout.2.2 0 (by decide)) (by decide)

end AmdGpuEp.MIGraphX
