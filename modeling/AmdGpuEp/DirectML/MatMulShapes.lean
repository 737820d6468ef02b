import AmdGpuEp.DirectML.ConvTranslators
import AmdGpuEp.DirectML.Transpose

/-!
# Matrix products of recorded shapes

`TranslateMatMul`, `TranslateQLinearMatMul` and `TranslateMatMulInteger` of
`dml_op_translators.cc` bring their operands to one rank, stretch the batch dimensions
and take the sizes of the result from four fixed places. They look for vectors in the
recorded sizes, which are padded to four dimensions before.

Results:
1. `MatMulShapesLemmas.tensors_eq`, `MatMulShapesLemmas.tensors_denote_iff`: what is described, and when it
   is the product.
2. `matMul_iff`: which products are rejected or described as ONNX says.
3. `vector_misplaced`, `matrices_multiplied`: a vector before three matrices, and a matrix.
-/

namespace AmdGpuEp.DirectML

/-! ## The translators -/

/-- Rank 1: a row or a column. -/
def promoteVector (column : Bool) (dims : List Dim) : List Dim :=
  if dims.length ≠ 1 then dims else if column then dims ++ [⟨1, 0⟩] else ⟨1, 0⟩ :: dims

/-- A turn of the loop over the batch dimensions, for one operand. -/
def stretchDim (skipEqual : Bool) (d e : Dim) : Dim :=
  if skipEqual ∧ d.size = e.size then d
  else if d.size = 1 then ⟨max d.size e.size, 0⟩
  else d

def stretchBatch (skipEqual : Bool) (dims others : List Dim) : List Dim :=
  List.zipWith (stretchDim skipEqual) (dims.take (dims.length - 2))
    (others.take (dims.length - 2)) ++ dims.drop (dims.length - 2)

/-- The dimensions of both operands. -/
def matMulOperands (skipEqual : Bool) (aSizes bSizes : List Nat) :
    Option (List Dim × List Dim) :=
  let a := promoteVector false (packedDims aSizes)
  let b := promoteVector true (packedDims bSizes)
  if a.length < 2 ∨ b.length < 2 then none
  else
    let maxRank := max a.length b.length
    let a := alignRight ⟨1, 0⟩ maxRank a
    let b := alignRight ⟨1, 0⟩ maxRank b
    some (alignRight ⟨1, 0⟩ 4 (stretchBatch skipEqual a b),
      alignRight ⟨1, 0⟩ 4 (stretchBatch skipEqual b a))

/-- A tensor with these dimensions, which are four or more. -/
def dimsTensor (dims : List Dim) (sizes : List Nat) (dtype : DmlDataType) : DmlTensorInfo :=
  makeTensorInfoWithStrides (dims.map Dim.size) (dims.map Dim.stride) dtype
    (computeAlignedTotalBytes sizes dtype)

/-- Batch, rows and columns of the result. -/
def productSizes (a b : List Dim) : List Nat :=
  let size := fun (dims : List Dim) i => (dims.getD i ⟨0, 0⟩).size
  [size a 0, size a 1, size a 2, size b 3]

/-- The operator descriptions. A zero point may be absent. -/
inductive MatMulDesc
  | gemm (transA transB : Bool) (alpha beta : UInt32)
  | quantizedLinearMatrixMultiply (hasAZeroPoint hasBZeroPoint hasYZeroPoint : Bool)
  | matrixMultiplyInteger (hasAZeroPoint hasBZeroPoint : Bool)
  deriving DecidableEq, Repr

def translateMatMul : OpTranslator MatMulDesc := fun node shapes _ =>
  match lookupInput node shapes 0, lookupInput node shapes 1, getNodeOutputNames node with
  | some aInfo, some bInfo, output :: _ =>
    (matMulOperands true aInfo.sizes bInfo.sizes).bind fun (a, b) =>
      if (a.getD 3 ⟨0, 0⟩).size ≠ (b.getD 2 ⟨0, 0⟩).size then none
      else
        let dtype := aInfo.dataType
        let c := makeTensorInfo
          (((shapes output).map DmlTensorInfo.sizes).getD (productSizes a b)) dtype
        some
          { opDesc := .gemm false false 0x3F800000 0
            inputTensors := [dimsTensor a aInfo.sizes dtype, dimsTensor b bInfo.sizes dtype]
            outputTensors := [c] }
  | _, _, _ => none

def translateQLinearMatMul : OpTranslator MatMulDesc := fun node shapes _ =>
  if (getNodeInputNames node).length < 8 ∨ getNodeOutputNames node = [] then none
  else
    match lookupInput node shapes 0, lookupInput node shapes 1, lookupInput node shapes 3,
      lookupInput node shapes 4, lookupInput node shapes 6 with
    | some aInfo, some aScale, some bInfo, some bScale, some yScale =>
      (matMulOperands false aInfo.sizes bInfo.sizes).map fun (a, b) =>
        let whole := fun info : DmlTensorInfo => makeTensorInfo info.sizes info.dataType
        let zeroPoint := optionalShape node shapes
        -- `input_name_reorder`
        let slots :=
          [(0, some (dimsTensor a aInfo.sizes aInfo.dataType)), (1, some (whole aScale)),
            (2, (zeroPoint 2).map whole), (3, some (dimsTensor b bInfo.sizes bInfo.dataType)),
            (4, some (whole bScale)), (5, (zeroPoint 5).map whole), (6, some (whole yScale)),
            (7, (zeroPoint 7).map whole)]
        let y := makeTensorInfo
          (((outEdge node shapes).map DmlTensorInfo.sizes).getD (productSizes a b))
          (((zeroPoint 7).map DmlTensorInfo.dataType).getD .uint8)
        { opDesc := .quantizedLinearMatrixMultiply (zeroPoint 2).isSome (zeroPoint 5).isSome
            (zeroPoint 7).isSome
          inputTensors := slots.filterMap Prod.snd
          outputTensors := [y]
          inputNameReorder := packedSlots slots }
    | _, _, _, _, _ => none

def translateMatMulInteger : OpTranslator MatMulDesc := fun node shapes _ =>
  if (getNodeInputNames node).length < 2 ∨ getNodeOutputNames node = [] then none
  else
    match lookupInput node shapes 0, lookupInput node shapes 1 with
    | some aInfo, some bInfo =>
      (matMulOperands false aInfo.sizes bInfo.sizes).map fun (a, b) =>
        let whole := fun info : DmlTensorInfo => makeTensorInfo info.sizes info.dataType
        let zeroPoint := optionalShape node shapes
        let slots :=
          [(0, some (dimsTensor a aInfo.sizes aInfo.dataType)), (2, (zeroPoint 2).map whole),
            (1, some (dimsTensor b bInfo.sizes bInfo.dataType)), (3, (zeroPoint 3).map whole)]
        let y := makeTensorInfo
          (((outEdge node shapes).map DmlTensorInfo.sizes).getD (productSizes a b)) .int32
        { opDesc := .matrixMultiplyInteger (zeroPoint 2).isSome (zeroPoint 3).isSome
          inputTensors := slots.filterMap Prod.snd
          outputTensors := [y]
          inputNameReorder := packedSlots slots }
    | _, _ => none

/-! ## ONNX products -/

/-- A vector as a row. -/
def asRow (shape : List Nat) : List Nat :=
  if shape.length = 1 then 1 :: shape else shape

/-- A vector as a column. -/
def asColumn (shape : List Nat) : List Nat :=
  if shape.length = 1 then shape ++ [1] else shape

/-- Matrices of `m` by `k` and `k` by `n`, in batches with a common shape. -/
def IsProduct (a b batch : List Nat) (m k n : Nat) : Prop :=
  ∃ aBatch bBatch, asRow a = aBatch ++ [m, k] ∧ asColumn b = bBatch ++ [k, n] ∧
    IsBroadcast aBatch bBatch batch

/-- The dimension of a vector is not one of the result. -/
def productShape (a b batch : List Nat) (m n : Nat) : List Nat :=
  batch ++ ((if a.length = 1 then [] else [m]) ++ if b.length = 1 then [] else [n])

/-- The tensors of a product: two operands and the result. -/
structure MatMulTensors where
  a : DmlTensorInfo
  b : DmlTensorInfo
  c : DmlTensorInfo
  deriving DecidableEq, Repr

/-- The result has the ONNX shape. DirectML multiplies the matrices of the last two dimensions, and
for each element of the result it reads the row and the column that ONNX reads. -/
def MatMulTensors.Denotes (t : MatMulTensors) (a b batch : List Nat) (m k n : Nat) : Prop :=
  t.c.sizes = padToMinDims (productShape a b batch m n) 4 ∧
    ∃ front rows cols, t.a.sizes = front ++ [rows, k] ∧ t.b.sizes = front ++ [k, cols] ∧
      t.c.sizes = front ++ [rows, cols] ∧
      ∀ i row col, InBounds (i ++ [row, col]) (batch ++ [m, n]) →
        ∃ i' row' col', alignRight 0 4 (productShape a b i row col) = i' ++ [row', col'] ∧
          ∀ j < k,
            t.a.offset (i' ++ [row', j]) =
                rowMajor (asRow a) (restrictTo (asRow a) (i ++ [row, j])) ∧
              t.b.offset (i' ++ [j, col']) =
                rowMajor (asColumn b) (restrictTo (asColumn b) (i ++ [j, col]))

/-! ## What is asked of the translators -/

/-- The translators with this handling of shapes. -/
inductive MatMulOp
  | matMul
  | qLinearMatMul
  | matMulInteger
  deriving DecidableEq, Repr

namespace MatMulOp

/-- The inputs that hold the matrices. -/
def operands : MatMulOp → Nat × Nat
  | .qLinearMatMul => (0, 3)
  | _ => (0, 1)

/-- The inputs that must be there. -/
def required : MatMulOp → List Nat
  | .qLinearMatMul => [0, 1, 3, 4, 6]
  | _ => [0, 1]

/-- The tensors of a translation. -/
def tensors (op : MatMulOp) (node : Node) (shapes : ValueShapes)
    (initializers : String → Option Initializer) : Option MatMulTensors :=
  let packed := fun (order : List Nat) (t : TranslatedOp MatMulDesc) =>
    let tensor := fun i => ((order.zip t.inputTensors).lookup i).getD {}
    { a := tensor op.operands.1, b := tensor op.operands.2,
      c := t.outputTensors.headD {} : MatMulTensors }
  match op with
  | .matMul => (translateMatMul node shapes initializers).map (packed [0, 1])
  | .qLinearMatMul =>
    (translateQLinearMatMul node shapes initializers).map fun t => packed t.inputNameReorder t
  | .matMulInteger =>
    (translateMatMulInteger node shapes initializers).map fun t => packed t.inputNameReorder t

end MatMulOp

/-- What is recorded of the tensors of a node: matrices or vectors, and maybe the result. -/
structure MatMulNode (op : MatMulOp) (node : Node) (shapes : ValueShapes) (a b : List Nat) :
    Prop where
  required : ∀ i ∈ op.required, (lookupInput node shapes i).isSome
  count : op = .qLinearMatMul → 8 ≤ (getNodeInputNames node).length
  output : getNodeOutputNames node ≠ []
  ranks : a ≠ [] ∧ b ≠ []
  positive : ∀ d ∈ a ++ b, 0 < d
  first : ∀ info, lookupInput node shapes op.operands.1 = some info →
    info.sizes = padToMinDims a 4
  second : ∀ info, lookupInput node shapes op.operands.2 = some info →
    info.sizes = padToMinDims b 4
  edge : ∀ e, outEdge node shapes = some e → ∃ batch m k n, IsProduct a b batch m k n ∧
    e.sizes = padToMinDims (productShape a b batch m n) 4

/-- Shapes without a product are rejected, and what is accepted is the product. -/
def Multiplies (op : MatMulOp) (node : Node) (shapes : ValueShapes)
    (initializers : String → Option Initializer) (a b : List Nat) : Prop :=
  ((¬ ∃ batch m k n, IsProduct a b batch m k n) → op.tensors node shapes initializers = none) ∧
    ∀ batch m k n, IsProduct a b batch m k n →
      ∀ t, op.tensors node shapes initializers = some t → t.Denotes a b batch m k n

/-- A dimension of an operand in the common rank, of four at least; a batch dimension of size 1 has
the size of the other one. -/
def stretchedSize (own other : List Nat) (i : Nat) : Nat :=
  let rank := max 4 (max own.length other.length)
  let size := (alignRight 1 rank own).getD i 0
  if i + 2 < rank ∧ size = 1 then (alignRight 1 rank other).getD i 0 else size

/-- `K_a != K_b` of `TranslateMatMul`. -/
def DifferInner (a b : List Nat) : Prop :=
  stretchedSize a b 3 ≠ stretchedSize b a 2

/-- There is a product, no operand is a vector whose dimension would be missed in the result, the
shape of the result has four dimensions or is recorded, and no stride wraps. -/
def Multipliable (node : Node) (shapes : ValueShapes) (a b : List Nat) : Prop :=
  ∃ batch m k n, IsProduct a b batch m k n ∧ asRow b = asColumn b ∧
    padToMinDims (productShape a b batch m n) 4 = padToMinDims (batch ++ [m, n]) 4 ∧
    ((outEdge node shapes).isSome ∨ a.length ≤ 4 ∧ b.length ≤ 4) ∧ StridesFit a ∧ StridesFit b

namespace MatMulShapesLemmas

/-! ## Stretched dimensions -/

/-- A dimension that is kept, or one of size 1 that is stretched or stays. -/
def Kept (d e : Dim) : Prop :=
  e = d ∨ d.size = 1 ∧ (e.size = 1 ∨ e.stride = 0)

theorem kept_stretchDim (skip : Bool) {d e : Dim} (f : Dim) (h : Kept d e) :
    Kept d (stretchDim skip e f) := by
  unfold stretchDim
  split
  · exact h
  · split
    · next hone =>
      refine Or.inr ⟨?_, Or.inr rfl⟩
      rcases h with rfl | ⟨hd, -⟩
      · exact hone
      · exact hd
    · exact h

theorem size_stretchDim (skip : Bool) {d e : Dim} (he : 0 < e.size) :
    (stretchDim skip d e).size = if d.size = 1 then e.size else d.size := by
  unfold stretchDim
  split
  · next hequal =>
    split
    · next hone => rw [← hequal.2, hone]
    · rfl
  · split
    · next hone =>
      dsimp only
      omega
    · rfl

theorem kept_zipWith (skip : Bool) {x y z : List Dim} (h : List.Forall₂ Kept x y)
    (hlen : y.length = z.length) :
    List.Forall₂ Kept x (List.zipWith (stretchDim skip) y z) := by
  induction h generalizing z with
  | nil => exact .nil
  | cons hd _ ih =>
    cases z with
    | nil => cases hlen
    | cons f z => exact .cons (kept_stretchDim skip f hd) (ih (Nat.succ.inj hlen))

theorem kept_stretchBatch (skip : Bool) {x y z : List Dim} (h : List.Forall₂ Kept x y)
    (hlen : y.length = z.length) : List.Forall₂ Kept x (stretchBatch skip y z) := by
  conv_lhs => rw [← List.take_append_drop (y.length - 2) x]
  refine List.rel_append (kept_zipWith skip (List.forall₂_take _ h) ?_) (List.forall₂_drop _ h)
  simp [hlen]

/-- Kept dimensions go along the packed ones when no stride wraps. -/
theorem alongs_kept {sizes : List Nat} {w : List Dim}
    (h : List.Forall₂ Kept (packedDims sizes) w) :
    List.Forall₂ Along (packed sizes) w ↔ StridesFit sizes := by
  induction sizes generalizing w with
  | nil =>
    cases h
    exact iff_of_true .nil trivial
  | cons size sizes ih =>
    rw [BroadcastingLemmas.packedDims_cons] at h
    cases h with
    | @cons _ e _ w hd hrest =>
      rw [packed, List.forall₂_cons, ih hrest, StridesFit]
      refine and_congr_left fun _ => ?_
      rcases hd with rfl | ⟨hone, he⟩
      · by_cases hone : size = 1
        · exact iff_of_true (Or.inl hone) (absurd hone)
        · rw [Along, if_neg hone]
          simp only [hone, false_or, ne_eq, not_false_eq_true, forall_true_left]
          exact ⟨fun hmod => hmod ▸ Nat.mod_lt _ (by decide), Nat.mod_eq_of_lt⟩
      · dsimp only at hone
        refine iff_of_true ?_ (absurd hone)
        rcases he with he | he
        · exact Or.inl he
        · exact Or.inr (by rw [he, if_pos hone])

theorem kept_ones {m : Nat} {l : List Dim} (h : ∀ e ∈ l, e.size = 1) :
    List.Forall₂ Kept (List.replicate l.length ⟨1, m⟩) l := by
  induction l with
  | nil => exact .nil
  | cons e l ih =>
    exact .cons (Or.inr ⟨rfl, Or.inl (h e List.mem_cons_self)⟩)
      (ih fun e' he' => h e' (List.mem_cons_of_mem e he'))

/-- Padding keeps the dimensions. -/
theorem kept_aligned (sizes : List Nat) (n : Nat) :
    List.Forall₂ Kept (packedDims (alignRight 1 (max n (max 4 sizes.length)) sizes))
      (alignRight ⟨1, 0⟩ n (packedDims (padToMinDims sizes 4))) := by
  have hsplit : alignRight (⟨1, 0⟩ : Dim) n (packedDims (padToMinDims sizes 4)) =
      (List.replicate (n - max 4 sizes.length) ⟨1, 0⟩ ++
        List.replicate (4 - sizes.length) ⟨1, sizes.prod % 2 ^ 32⟩) ++ packedDims sizes := by
    rw [alignRight, BroadcastingLemmas.length_packedDims, BroadcastingLemmas.length_padToMinDims,
      padToMinDims, TransposeLemmas.packedDims_ones, List.append_assoc]
  have hlen : max n (max 4 sizes.length) - sizes.length =
      (List.replicate (n - max 4 sizes.length) (⟨1, 0⟩ : Dim) ++
        List.replicate (4 - sizes.length) (⟨1, sizes.prod % 2 ^ 32⟩ : Dim)).length := by
    simp only [List.length_append, List.length_replicate]
    omega
  have hsame : List.Forall₂ Kept (packedDims sizes) (packedDims sizes) :=
    List.forall₂_same.2 fun d _ => Or.inl rfl
  rw [hsplit, alignRight, TransposeLemmas.packedDims_ones, hlen]
  refine List.rel_append (kept_ones fun e he => ?_) hsame
  rcases List.mem_append.1 he with he | he
  · rw [List.eq_of_mem_replicate he]
  · rw [List.eq_of_mem_replicate he]

/-! ## Operands -/

/-- The common rank. -/
def commonRank (own other : List Nat) : Nat :=
  max 4 (max own.length other.length)

theorem commonRank_comm (own other : List Nat) : commonRank own other = commonRank other own := by
  rw [commonRank, commonRank, Nat.max_comm own.length]

/-- The dimensions of an operand of this shape in the common rank. -/
def alignedDims (own other : List Nat) : List Dim :=
  alignRight ⟨1, 0⟩ (commonRank own other) (packedDims (padToMinDims own 4))

/-- The dimensions of an operand of this shape. -/
def operandDims (skip : Bool) (own other : List Nat) : List Dim :=
  stretchBatch skip (alignedDims own other) (alignedDims other own)

theorem sizes_alignedDims (own other : List Nat) :
    (alignedDims own other).map Dim.size = alignRight 1 (commonRank own other) own := by
  rw [alignedDims, map_alignRight, TransposeLemmas.sizes_packedDims]
  exact BroadcastingLemmas.padToMinDims_padToMinDims own (by unfold commonRank; omega)

theorem length_alignedDims (own other : List Nat) :
    (alignedDims own other).length = commonRank own other := by
  rw [← List.length_map (f := Dim.size), sizes_alignedDims, length_alignRight, commonRank]
  omega

theorem length_operandDims (skip : Bool) (own other : List Nat) :
    (operandDims skip own other).length = commonRank own other := by
  have hown := length_alignedDims own other
  have hother := length_alignedDims other own
  rw [commonRank_comm] at hother
  have hfour : 4 ≤ commonRank own other := Nat.le_max_left _ _
  simp only [operandDims, stretchBatch, List.length_append, List.length_zipWith, List.length_take,
    List.length_drop, hown, hother]
  omega

theorem matMulOperands_eq (skip : Bool) (a b : List Nat) :
    matMulOperands skip (padToMinDims a 4) (padToMinDims b 4) =
      some (operandDims skip a b, operandDims skip b a) := by
  have hlen : ∀ l : List Nat, (packedDims (padToMinDims l 4)).length = max 4 l.length := fun l => by
    rw [BroadcastingLemmas.length_packedDims, BroadcastingLemmas.length_padToMinDims]
  have hpromote : ∀ (column : Bool) (l : List Nat),
      promoteVector column (packedDims (padToMinDims l 4)) = packedDims (padToMinDims l 4) := by
    intro column l
    rw [promoteVector, if_pos]
    rw [hlen]
    omega
  have hrank : max (max 4 a.length) (max 4 b.length) = commonRank a b := by
    unfold commonRank
    omega
  have hpadded : ∀ own other : List Nat, alignRight ⟨1, 0⟩ 4 (operandDims skip own other) =
      operandDims skip own other := by
    intro own other
    rw [alignRight, length_operandDims, commonRank, Nat.sub_eq_zero_of_le (Nat.le_max_left _ _),
      List.replicate_zero, List.nil_append]
  simp only [matMulOperands, hpromote, hlen, hrank]
  rw [if_neg (by omega)]
  have ha := hpadded a b
  have hb := hpadded b a
  simp only [operandDims, alignedDims, commonRank_comm b a] at ha hb ⊢
  rw [ha, hb]

/-- A batch dimension of size 1 is stretched. -/
def stretchSize (own other : Nat) : Nat :=
  if own = 1 then other else own

theorem sizes_zipWith (skip : Bool) {v w : List Dim} (hpos : ∀ e ∈ w, 0 < e.size) :
    (List.zipWith (stretchDim skip) v w).map Dim.size =
      List.zipWith stretchSize (v.map Dim.size) (w.map Dim.size) := by
  induction v generalizing w with
  | nil => rfl
  | cons d v ih =>
    cases w with
    | nil => rfl
    | cons e w =>
      rw [List.zipWith_cons_cons, List.map_cons, List.map_cons, List.map_cons,
        List.zipWith_cons_cons, ih fun e' he' => hpos e' (List.mem_cons_of_mem e he'),
        size_stretchDim skip (hpos e List.mem_cons_self)]
      rfl

theorem map_size_operandDims (skip : Bool) {own other : List Nat} (hpos : ∀ d ∈ other, 0 < d) :
    (operandDims skip own other).map Dim.size =
      List.zipWith stretchSize
          ((alignRight 1 (commonRank own other) own).take (commonRank own other - 2))
          ((alignRight 1 (commonRank own other) other).take (commonRank own other - 2)) ++
        (alignRight 1 (commonRank own other) own).drop (commonRank own other - 2) := by
  have haligned : ∀ e ∈ (alignedDims other own).take (commonRank own other - 2), 0 < e.size := by
    intro e he
    have hmem : e.size ∈ alignRight 1 (commonRank other own) other := by
      rw [← sizes_alignedDims]
      exact List.mem_map_of_mem (List.mem_of_mem_take he)
    exact BroadcastingLemmas.pos_padToMinDims hpos _ _ hmem
  rw [operandDims, stretchBatch, length_alignedDims, List.map_append, sizes_zipWith skip haligned,
    List.map_take, List.map_take, List.map_drop, sizes_alignedDims, sizes_alignedDims,
    commonRank_comm other own]

/-- The sizes, dimension by dimension. -/
theorem size_operandDims (skip : Bool) {own other : List Nat} (hpos : ∀ d ∈ other, 0 < d) {i : Nat}
    (hi : i < commonRank own other) :
    ((operandDims skip own other).getD i ⟨0, 0⟩).size = stretchedSize own other i := by
  have hsize : ((operandDims skip own other).getD i ⟨0, 0⟩).size =
      ((operandDims skip own other).map Dim.size).getD i 0 := by
    rw [List.getD_eq_getElem _ _ (by rwa [length_operandDims]),
      List.getD_eq_getElem _ _ (by rwa [List.length_map, length_operandDims]), List.getElem_map]
  have hlen : ∀ l : List Nat, l.length ≤ commonRank own other →
      (alignRight 1 (commonRank own other) l).length = commonRank own other := by
    intro l hl
    rw [length_alignRight]
    omega
  have hown := hlen own (by unfold commonRank; omega)
  have hother := hlen other (by unfold commonRank; omega)
  have hfour : 4 ≤ commonRank own other := Nat.le_max_left _ _
  rw [hsize, map_size_operandDims skip hpos, stretchedSize]
  change _ =
    if i + 2 < commonRank own other ∧ (alignRight 1 (commonRank own other) own).getD i 0 = 1
    then (alignRight 1 (commonRank own other) other).getD i 0
    else (alignRight 1 (commonRank own other) own).getD i 0
  generalize alignRight 1 (commonRank own other) own = s at hown ⊢
  generalize alignRight 1 (commonRank own other) other = t at hother ⊢
  generalize commonRank own other = r at hi hown hother hfour
  by_cases hbatch : i + 2 < r
  · rw [List.getD_append _ _ _ _ (by simp; omega), List.getD_eq_getElem _ _ (by simp; omega),
      List.getElem_zipWith, List.getElem_take, List.getElem_take,
      List.getD_eq_getElem _ _ (by omega), List.getD_eq_getElem _ _ (by omega), stretchSize]
    simp only [hbatch, true_and]
  · rw [List.getD_append_right _ _ _ _ (by simp; omega)]
    simp only [hbatch, false_and, if_false]
    have hback : r - 2 + (i - (List.zipWith stretchSize (s.take (r - 2)) (t.take (r - 2))).length) =
        i := by
      simp
      omega
    rw [List.getD_eq_getElem?_getD, List.getElem?_drop, hback, List.getD_eq_getElem?_getD]

theorem stretchSize_common {x y z : List Nat}
    (h : List.Forall₂ (fun p d => CommonSize p.1 p.2 d) (x.zip y) z) :
    List.zipWith stretchSize x y = z := by
  induction z generalizing x y with
  | nil =>
    have hzip : x.zip y = [] := List.forall₂_nil_right_iff.1 h
    rw [List.zip, List.zipWith_eq_nil_iff] at hzip
    exact List.zipWith_eq_nil_iff.2 hzip
  | cons d z ih =>
    cases x with
    | nil => cases h
    | cons a x =>
      cases y with
      | nil => cases h
      | cons b y =>
        cases h with
        | cons hd hrest =>
          have hsize : stretchSize a b = d := by
            change CommonSize a b d at hd
            unfold stretchSize
            rcases hd with ⟨rfl, rfl⟩ | ⟨rfl, rfl⟩ | ⟨rfl, rfl⟩
            · exact ite_self _
            · exact if_pos rfl
            · split
              · next hone => exact hone.symm
              · rfl
          rw [List.zipWith_cons_cons, ih hrest, hsize]

theorem stretchSize_aligned {a b c : List Nat} (h : IsBroadcast a b c) {n : Nat}
    (hn : max a.length b.length ≤ n) :
    List.zipWith stretchSize (alignRight 1 n a) (alignRight 1 n b) = alignRight 1 n c := by
  have hlen := BroadcastingLemmas.broadcast_lengths h
  have hsplit : ∀ l : List Nat, l.length ≤ max a.length b.length → alignRight 1 n l =
      List.replicate (n - max a.length b.length) 1 ++ alignRight 1 (max a.length b.length) l := by
    intro l hl
    have hk : n - l.length = n - max a.length b.length + (max a.length b.length - l.length) := by
      omega
    rw [alignRight, alignRight, ← List.append_assoc, ← List.replicate_add, hk]
  have hone : alignRight 1 (max a.length b.length) c = c := by
    rw [alignRight, hlen, Nat.sub_self, List.replicate_zero, List.nil_append]
  rw [hsplit a (le_max_left _ _), hsplit b (le_max_right _ _), hsplit c hlen.le, hone,
    List.zipWith_append (by simp), stretchSize_common h]
  congr 1
  rw [List.zipWith_replicate, Nat.min_self]
  rfl

/-- The sizes of an operand whose batch dimensions have a common shape with those of the other. -/
theorem sizes_operandDims (skip : Bool) {own other ownBatch otherBatch batch : List Nat}
    {x y u v : Nat} (hown : own = ownBatch ++ [x, y]) (hother : other = otherBatch ++ [u, v])
    (hpos : ∀ d ∈ other, 0 < d) (hbatch : IsBroadcast ownBatch otherBatch batch) :
    (operandDims skip own other).map Dim.size = padToMinDims batch 2 ++ [x, y] := by
  have hlen := BroadcastingLemmas.broadcast_lengths hbatch
  have hrank : commonRank own other = max 2 batch.length + 2 := by
    rw [commonRank, hown, hother, hlen, List.length_append, List.length_append]
    simp only [List.length_cons, List.length_nil]
    omega
  have haligned : ∀ (l : List Nat) (c d : Nat),
      alignRight 1 (max 2 batch.length + 2) (l ++ [c, d]) =
        alignRight 1 (max 2 batch.length) l ++ [c, d] := fun l c d => alignRight_append 1 _ l [c, d]
  have hfront : ∀ l : List Nat, l.length ≤ batch.length →
      (alignRight 1 (max 2 batch.length) l).length = max 2 batch.length := by
    intro l hl
    rw [length_alignRight]
    omega
  have hown' := hfront ownBatch (by omega)
  have hother' := hfront otherBatch (by omega)
  rw [map_size_operandDims skip hpos, hrank, Nat.add_sub_cancel, hown, hother, haligned, haligned,
    List.take_left' hown', List.take_left' hother', List.drop_left' hown',
    stretchSize_aligned hbatch (by omega)]
  congr 1
  rw [alignRight, padToMinDims]
  congr 2
  omega

/-! ## Reading the operands -/

theorem asRow_eq {shape : List Nat} (h : shape ≠ []) : asRow shape = padToMinDims shape 2 := by
  have hpos := List.length_pos_iff.2 h
  rw [asRow, padToMinDims]
  split
  · next hone => rw [hone]; rfl
  · next hlen => rw [Nat.sub_eq_zero_of_le (by omega)]; rfl

theorem operandDims_asRow (skip : Bool) {a b : List Nat} (ha : a ≠ []) (hb : b ≠ []) :
    operandDims skip (asRow a) (asRow b) = operandDims skip a b := by
  have hrank : ∀ x y : List Nat,
      commonRank (padToMinDims x 2) (padToMinDims y 2) = commonRank x y := by
    intro x y
    simp only [commonRank, BroadcastingLemmas.length_padToMinDims]
    omega
  have hpad : ∀ l : List Nat, padToMinDims (padToMinDims l 2) 4 = padToMinDims l 4 := fun l =>
    BroadcastingLemmas.padToMinDims_padToMinDims l (by omega)
  simp only [asRow_eq ha, asRow_eq hb, operandDims, alignedDims, hrank, hpad]

theorem stridesFit_asRow {shape : List Nat} (h : shape ≠ []) :
    StridesFit (asRow shape) ↔ StridesFit shape := by
  rw [asRow_eq h, padToMinDims, BroadcastingLemmas.stridesFit_ones]

theorem sizes_dimsTensor {w : List Dim} (hlen : 4 ≤ w.length) (sizes : List Nat)
    (dtype : DmlDataType) : (dimsTensor w sizes dtype).sizes = w.map Dim.size := by
  change padToMinDims (w.map Dim.size) 4 = _
  rw [padToMinDims, List.length_map, Nat.sub_eq_zero_of_le hlen]
  rfl

theorem view_dimsTensor {w : List Dim} (hlen : 4 ≤ w.length) (sizes : List Nat)
    (dtype : DmlDataType) : (dimsTensor w sizes dtype).view = w := by
  refine BroadcastingLemmas.view_of_dims (List.ne_nil_of_length_pos (by omega))
    (sizes_dimsTensor hlen sizes dtype) ?_
  change List.replicate ((padToMinDims (w.map Dim.size) 4).length - (w.map Dim.stride).length) 0 ++
    w.map Dim.stride = w.map Dim.stride
  rw [BroadcastingLemmas.length_padToMinDims, List.length_map, List.length_map,
    Nat.max_eq_right hlen, Nat.sub_self]
  rfl

theorem kept_operandDims (skip : Bool) (own other : List Nat) :
    List.Forall₂ Kept (packedDims (alignRight 1 (commonRank own other) own))
      (operandDims skip own other) := by
  have haligned := kept_aligned own (commonRank own other)
  rw [Nat.max_eq_left (by unfold commonRank; omega)] at haligned
  refine kept_stretchBatch skip haligned ?_
  rw [length_alignedDims, length_alignedDims, commonRank_comm]

/-- A kept dimension has its size, or stretches one of size 1. -/
theorem stretches_of_kept {sizes : List Nat} {w : List Dim}
    (h : List.Forall₂ Kept (packedDims sizes) w) :
    List.Forall₂ (fun d e => d = e ∨ d = 1) sizes (w.map Dim.size) := by
  have hsizes : List.Forall₂ (fun d e => d = e ∨ d = 1) ((packedDims sizes).map Dim.size)
      (w.map Dim.size) := by
    rw [List.forall₂_map_left_iff, List.forall₂_map_right_iff]
    refine h.imp fun d e hde => ?_
    rcases hde with rfl | ⟨hone, -⟩
    · exact Or.inl rfl
    · exact Or.inr hone
  rwa [TransposeLemmas.sizes_packedDims] at hsizes

/-- An operand is read as broadcasting selects when no stride wraps. -/
theorem reads_dimsTensor (skip : Bool) (own other sizes : List Nat) (dtype : DmlDataType)
    (hpos : ∀ d ∈ (operandDims skip own other).map Dim.size, 0 < d) :
    (dimsTensor (operandDims skip own other) sizes dtype).Reads own ↔ StridesFit own := by
  have hlen : (operandDims skip own other).length = commonRank own other :=
    length_operandDims skip own other
  have hfour : 4 ≤ (operandDims skip own other).length := by
    rw [hlen]
    exact Nat.le_max_left _ _
  have hkept := kept_operandDims skip own other
  rw [← hlen] at hkept
  have hsizes := sizes_dimsTensor hfour sizes dtype
  rw [BroadcastingLemmas.reads_iff (view_dimsTensor hfour sizes dtype) hsizes
    (fun d hd => hpos d.size (List.mem_map_of_mem hd)) (by rw [hlen, commonRank]; omega)
    (by rw [hsizes]; exact stretches_of_kept hkept), alongs_kept hkept, alignRight,
    BroadcastingLemmas.stridesFit_ones]

/-- What is read for the elements of the matrices. -/
theorem reads_pairs_iff {t : DmlTensorInfo} {own batch : List Nat} {x y : Nat}
    (hsizes : t.sizes = padToMinDims batch 2 ++ [x, y])
    (hfits : List.Forall₂ (fun d e => d = e ∨ d = 1) own
      ((batch ++ [x, y]).drop ((batch ++ [x, y]).length - own.length))) :
    t.Reads own ↔ ∀ i row j, InBounds (i ++ [row, j]) (batch ++ [x, y]) →
      t.offset (alignRight 0 2 i ++ [row, j]) = rowMajor own (restrictTo own (i ++ [row, j])) := by
  have hlen : own.length ≤ (batch ++ [x, y]).length := by
    have := hfits.length_eq
    rw [List.length_drop] at this
    omega
  have hshape : t.sizes = alignRight 1 4 (batch ++ [x, y]) := by
    rw [hsizes]
    exact (alignRight_append 1 2 batch [x, y]).symm
  have hidx : ∀ (i : List Nat) (row j : Nat),
      alignRight 0 2 i ++ [row, j] = alignRight 0 4 (i ++ [row, j]) := fun i row j =>
    (alignRight_append 0 2 i [row, j]).symm
  constructor
  · intro h i row j hin
    rw [hidx, (h _ (by rw [hshape]; exact inBounds_alignRight.2 ⟨_, hin, rfl⟩)).1,
      restrictTo_alignRight (hlen.trans hin.length_eq.ge)]
  · intro h idx hin
    rw [hshape] at hin
    obtain ⟨s, hs, rfl⟩ := inBounds_alignRight.1 hin
    have hslen := hs.length_eq
    obtain ⟨i, row, j, rfl⟩ := exists_append_pair (l := s) (by rw [hslen]; simp)
    have hoffset := h i row j hs
    rw [hidx] at hoffset
    rw [hoffset, restrictTo_alignRight (hlen.trans hslen.ge)]
    refine ⟨rfl, rowMajor_lt ?_⟩
    rw [restrictTo, hslen]
    exact inBounds_zipWith hfits (List.forall₂_drop _ hs)

/-- What is read for the elements of a product. -/
theorem reads_products_iff {t u : DmlTensorInfo} {own other batch : List Nat} {m k n : Nat}
    (ht : t.sizes = padToMinDims batch 2 ++ [m, k]) (hu : u.sizes = padToMinDims batch 2 ++ [k, n])
    (hown : List.Forall₂ (fun d e => d = e ∨ d = 1) own
      ((batch ++ [m, k]).drop ((batch ++ [m, k]).length - own.length)))
    (hother : List.Forall₂ (fun d e => d = e ∨ d = 1) other
      ((batch ++ [k, n]).drop ((batch ++ [k, n]).length - other.length)))
    (hm : 0 < m) (hn : 0 < n) :
    t.Reads own ∧ u.Reads other ↔
      ∀ i row col, InBounds (i ++ [row, col]) (batch ++ [m, n]) → ∀ j < k,
        t.offset (alignRight 0 2 i ++ [row, j]) =
            rowMajor own (restrictTo own (i ++ [row, j])) ∧
          u.offset (alignRight 0 2 i ++ [j, col]) =
            rowMajor other (restrictTo other (i ++ [j, col])) := by
  rw [reads_pairs_iff ht hown, reads_pairs_iff hu hother]
  simp only [inBounds_append_pair]
  constructor
  · rintro ⟨hleft, hright⟩ i row col ⟨hi, hrow, hcol⟩ j hj
    exact ⟨hleft i row j ⟨hi, hrow, hj⟩, hright i j col ⟨hi, hj, hcol⟩⟩
  · intro h
    refine ⟨?_, ?_⟩
    · rintro i row j ⟨hi, hrow, hj⟩
      exact (h i row 0 ⟨hi, hrow, hn⟩ j hj).1
    · rintro i j col ⟨hi, hj, hcol⟩
      exact (h i 0 col ⟨hi, hm, hcol⟩ j hj).2

/-! ## The dimensions of vectors -/

theorem shifted_zero {l i : List Nat} (h : 1 :: l = l ++ [1]) (hi : InBounds i l) :
    0 :: i = i ++ [0] := by
  induction hi with
  | nil => rfl
  | @cons x d i l hx _ ih =>
    rw [List.cons_append, List.cons.injEq] at h
    obtain ⟨rfl, hrest⟩ := h
    obtain rfl : x = 0 := by omega
    rw [List.cons_append, ← ih hrest]

/-- A dimension of size 1 can be left out where the padded shape stays the same. -/
theorem alignRight_dropped {l k i j : List Nat}
    (h : padToMinDims (l ++ k) 4 = padToMinDims (l ++ 1 :: k) 4) (hi : InBounds i l)
    (hj : j.length = k.length) : alignRight 0 4 (i ++ j) = alignRight 0 4 (i ++ 0 :: j) := by
  have hlen := congrArg List.length h
  rw [BroadcastingLemmas.length_padToMinDims, BroadcastingLemmas.length_padToMinDims,
    List.length_append, List.length_append, List.length_cons] at hlen
  have hsplit : ∀ (x : Nat) (u v : List Nat), u.length + v.length = l.length + k.length →
      alignRight x 4 (u ++ v) = List.replicate (3 - (l.length + k.length)) x ++ (x :: u ++ v) ∧
        alignRight x 4 (u ++ x :: v) =
          List.replicate (3 - (l.length + k.length)) x ++ (u ++ [x] ++ v) := by
    intro x u v huv
    have hone : 4 - (u ++ v).length = 3 - (l.length + k.length) + 1 := by
      rw [List.length_append]
      omega
    have hnext : 4 - (u ++ x :: v).length = 3 - (l.length + k.length) := by
      rw [List.length_append, List.length_cons]
      omega
    rw [alignRight, alignRight, hone, hnext, List.replicate_succ']
    simp
  have hilen : i.length = l.length := hi.length_eq
  obtain ⟨hfirst, hsecond⟩ := hsplit 1 l k rfl
  rw [padToMinDims, padToMinDims, ← alignRight, ← alignRight, hfirst, hsecond,
    List.append_cancel_left_eq, List.append_cancel_right_eq] at h
  obtain ⟨hleft, hright⟩ := hsplit 0 i j (by omega)
  rw [hleft, hright, shifted_zero h hi]

/-- The index of the result, where the padded shapes are the same. -/
theorem alignRight_product {a b batch i : List Nat} {m n row col : Nat}
    (ha : a.length = 1 → m = 1) (hb : b.length = 1 → n = 1)
    (hbatch : a.length = 1 → b.length = 1 → batch = [])
    (h : padToMinDims (productShape a b batch m n) 4 = padToMinDims (batch ++ [m, n]) 4)
    (hin : InBounds (i ++ [row, col]) (batch ++ [m, n])) :
    alignRight 0 4 (productShape a b i row col) = alignRight 0 2 i ++ [row, col] := by
  obtain ⟨hi, hrow, hcol⟩ := inBounds_append_pair.1 hin
  refine Eq.trans ?_ (alignRight_append 0 2 i [row, col])
  unfold productShape at h ⊢
  by_cases hva : a.length = 1
  · obtain rfl : row = 0 := by
      have := ha hva
      omega
    by_cases hvb : b.length = 1
    · obtain rfl : col = 0 := by
        have := hb hvb
        omega
      obtain rfl := hbatch hva hvb
      obtain rfl := List.forall₂_nil_right_iff.1 hi
      rw [if_pos hva, if_pos hvb]
      rfl
    · rw [if_pos hva, if_neg hvb, ha hva] at h
      rw [if_pos hva, if_neg hvb]
      exact alignRight_dropped h hi rfl
  · by_cases hvb : b.length = 1
    · obtain rfl : col = 0 := by
        have := hb hvb
        omega
      rw [if_neg hva, if_pos hvb, hb hvb, List.append_nil, List.append_cons] at h
      rw [if_neg hva, if_pos hvb, List.append_nil, List.append_cons]
      have hfront : InBounds (i ++ [row]) (batch ++ [m]) :=
        List.rel_append hi (.cons hrow .nil)
      simpa using alignRight_dropped (k := []) (j := []) (by simpa using h) hfront rfl
    · rw [if_neg hva, if_neg hvb]
      rfl

/-! ## Products -/

theorem isProduct_unique {a b batch batch' : List Nat} {m k n m' k' n' : Nat}
    (h : IsProduct a b batch m k n) (h' : IsProduct a b batch' m' k' n') :
    batch' = batch ∧ m' = m ∧ k' = k ∧ n' = n := by
  obtain ⟨aBatch, bBatch, ha, hb, hbatch⟩ := h
  obtain ⟨aBatch', bBatch', ha', hb', hbatch'⟩ := h'
  obtain ⟨rfl, rfl, rfl⟩ := pair_inj (ha'.symm.trans ha)
  obtain ⟨rfl, -, rfl⟩ := pair_inj (hb'.symm.trans hb)
  exact ⟨BroadcastingLemmas.broadcast_unique hbatch' hbatch, rfl, rfl, rfl⟩

/-- A vector has one row or column, and no batch dimension. -/
theorem vector_dims {a b batch : List Nat} {m k n : Nat} (h : IsProduct a b batch m k n) :
    (a.length = 1 → m = 1) ∧ (b.length = 1 → n = 1) ∧
      (a.length = 1 → b.length = 1 → batch = []) := by
  obtain ⟨aBatch, bBatch, ha, hb, hbatch⟩ := h
  have hfirst : a.length = 1 → aBatch = [] ∧ m = 1 := by
    intro hva
    obtain ⟨d, rfl⟩ := List.length_eq_one_iff.1 hva
    obtain ⟨hnil, hone, -⟩ := pair_inj (l := []) (show [] ++ [1, d] = _ from ha)
    exact ⟨hnil.symm, hone.symm⟩
  have hsecond : b.length = 1 → bBatch = [] ∧ n = 1 := by
    intro hvb
    obtain ⟨d, rfl⟩ := List.length_eq_one_iff.1 hvb
    obtain ⟨hnil, -, hone⟩ := pair_inj (l := []) (show [] ++ [d, 1] = _ from hb)
    exact ⟨hnil.symm, hone.symm⟩
  refine ⟨fun hva => (hfirst hva).2, fun hvb => (hsecond hvb).2, fun hva hvb => ?_⟩
  have hlen := BroadcastingLemmas.broadcast_lengths hbatch
  rw [(hfirst hva).1, (hsecond hvb).1] at hlen
  exact List.length_eq_zero_iff.1 hlen

/-- The second operand as it is described. -/
theorem asRow_pair {b bBatch : List Nat} {k n : Nat} (h : asColumn b = bBatch ++ [k, n]) :
    ∃ k' n', asRow b = bBatch ++ [k', n'] ∧ (k' = k → asRow b = asColumn b) := by
  by_cases hvb : b.length = 1
  · obtain ⟨d, rfl⟩ := List.length_eq_one_iff.1 hvb
    obtain ⟨rfl, rfl, rfl⟩ := pair_inj (l := []) (show [] ++ [d, 1] = _ from h)
    refine ⟨1, d, rfl, fun hone => ?_⟩
    rw [← hone]
    rfl
  · have hsame : asRow b = asColumn b := by rw [asRow, asColumn, if_neg hvb, if_neg hvb]
    exact ⟨k, n, hsame.trans h, fun _ => hsame⟩

theorem pos_asRow {l : List Nat} (h : ∀ d ∈ l, 0 < d) : ∀ d ∈ asRow l, 0 < d := by
  unfold asRow
  split
  · intro d hd
    rcases List.mem_cons.1 hd with rfl | hd
    · exact Nat.one_pos
    · exact h d hd
  · exact h

/-- Dimensions that a common shape stretches. -/
theorem stretches_pair {a b c : List Nat} (x y : Nat) (h : IsBroadcast a b c) :
    List.Forall₂ (fun d e => d = e ∨ d = 1) (a ++ [x, y])
      ((c ++ [x, y]).drop ((c ++ [x, y]).length - (a ++ [x, y]).length)) := by
  have hlen := BroadcastingLemmas.broadcast_lengths h
  have hfront := stretches_drop (broadcastShapes_eq_some_iff.2 h)
  have hdrop : (c ++ [x, y]).length - (a ++ [x, y]).length = c.length - a.length := by
    simp
  rw [hdrop, List.drop_append_of_le_length (by omega)]
  exact List.rel_append hfront (.cons (Or.inl rfl) (.cons (Or.inl rfl) .nil))

/-- The sizes of the result that are not recorded. -/
theorem productSizes_eq {A B : List Dim} {front : List Nat} {m k k' n : Nat}
    (hA : A.map Dim.size = front ++ [m, k]) (hB : B.map Dim.size = front ++ [k', n])
    (hfront : front.length = 2) : productSizes A B = front ++ [m, n] := by
  have hsize : ∀ {l : List Dim} {x y : Nat}, l.map Dim.size = front ++ [x, y] → ∀ i < 4,
      (l.getD i ⟨0, 0⟩).size = (front ++ [x, y]).getD i 0 := by
    intro l x y h i hi
    have hlen : l.length = 4 := by
      rw [← List.length_map (f := Dim.size), h, List.length_append, hfront]
      rfl
    rw [← h, List.getD_eq_getElem _ _ (by omega),
      List.getD_eq_getElem _ _ (by rw [List.length_map]; omega), List.getElem_map]
  obtain ⟨u, v, rfl⟩ := List.length_eq_two.1 hfront
  dsimp only [productSizes]
  rw [hsize hA 0 (by decide), hsize hA 1 (by decide), hsize hA 2 (by decide),
    hsize hB 3 (by decide)]
  rfl

/-- The tensors of a translation that is not rejected. -/
def describedTensors (skip : Bool) (edge : Option DmlTensorInfo) (a b : List Nat)
    (aTypes bTypes : List Nat × DmlDataType) (type : DmlDataType) : MatMulTensors :=
  { a := dimsTensor (operandDims skip a b) aTypes.1 aTypes.2
    b := dimsTensor (operandDims skip b a) bTypes.1 bTypes.2
    c := makeTensorInfo
      ((edge.map DmlTensorInfo.sizes).getD
        (productSizes (operandDims skip a b) (operandDims skip b a))) type }

theorem getD_sizes (skip : Bool) {own other : List Nat} (hpos : ∀ d ∈ other, 0 < d) {i : Nat}
    (hi : i < 4) : ((operandDims skip own other).getD i ⟨0, 0⟩).size = stretchedSize own other i :=
  size_operandDims skip hpos (hi.trans_le (Nat.le_max_left _ _))

/-- What a translator does: `TranslateMatMul` compares two dimensions. -/
theorem tensors_eq {op : MatMulOp} {node : Node} {shapes : ValueShapes}
    (initializers : String → Option Initializer) {a b : List Nat}
    (h : MatMulNode op node shapes a b) :
    (op = .matMul ∧ DifferInner a b ∧ op.tensors node shapes initializers = none) ∨
      ¬(op = .matMul ∧ DifferInner a b) ∧ ∃ skip aTypes bTypes type,
        op.tensors node shapes initializers =
          some (describedTensors skip (outEdge node shapes) a b aTypes bTypes type) := by
  obtain ⟨output, outputs, houtputs⟩ := List.exists_cons_of_ne_nil h.output
  have hedge : outEdge node shapes = shapes output := by rw [outEdge, houtputs]; rfl
  have hposa : ∀ d ∈ a, 0 < d := fun d hd => h.positive d (List.mem_append_left b hd)
  have hposb : ∀ d ∈ b, 0 < d := fun d hd => h.positive d (List.mem_append_right a hd)
  cases op with
  | matMul =>
    obtain ⟨aInfo, ha⟩ := Option.isSome_iff_exists.1 (h.required 0 (by decide))
    obtain ⟨bInfo, hb⟩ := Option.isSome_iff_exists.1 (h.required 1 (by decide))
    have hasizes : aInfo.sizes = padToMinDims a 4 := h.first aInfo ha
    have hbsizes : bInfo.sizes = padToMinDims b 4 := h.second bInfo hb
    have hdiffer : (((operandDims true a b).getD 3 ⟨0, 0⟩).size ≠
        ((operandDims true b a).getD 2 ⟨0, 0⟩).size) ↔ DifferInner a b := by
      rw [getD_sizes true hposb (by decide), getD_sizes true hposa (by decide), DifferInner]
    simp only [MatMulOp.tensors, translateMatMul, ha, hb, houtputs, hasizes, hbsizes,
      matMulOperands_eq, true_and, Option.bind_some]
    by_cases hinner : DifferInner a b
    · refine Or.inl ⟨hinner, ?_⟩
      rw [if_pos (hdiffer.2 hinner)]
      rfl
    · refine Or.inr ⟨hinner, true, (padToMinDims a 4, aInfo.dataType),
        (padToMinDims b 4, aInfo.dataType), aInfo.dataType, ?_⟩
      rw [if_neg (mt hdiffer.1 hinner), hedge]
      rfl
  | qLinearMatMul =>
    obtain ⟨aInfo, ha⟩ := Option.isSome_iff_exists.1 (h.required 0 (by decide))
    obtain ⟨aScale, haScale⟩ := Option.isSome_iff_exists.1 (h.required 1 (by decide))
    obtain ⟨bInfo, hb⟩ := Option.isSome_iff_exists.1 (h.required 3 (by decide))
    obtain ⟨bScale, hbScale⟩ := Option.isSome_iff_exists.1 (h.required 4 (by decide))
    obtain ⟨yScale, hyScale⟩ := Option.isSome_iff_exists.1 (h.required 6 (by decide))
    have hasizes : aInfo.sizes = padToMinDims a 4 := h.first aInfo ha
    have hbsizes : bInfo.sizes = padToMinDims b 4 := h.second bInfo hb
    have hcount := h.count rfl
    refine Or.inr ⟨by simp, false, (padToMinDims a 4, aInfo.dataType),
      (padToMinDims b 4, bInfo.dataType),
      ((optionalShape node shapes 7).map DmlTensorInfo.dataType).getD .uint8, ?_⟩
    rw [MatMulOp.tensors.eq_def, translateQLinearMatMul,
      if_neg (not_or.2 ⟨Nat.not_lt.2 hcount, h.output⟩), ha, haScale, hb, hbScale, hyScale]
    simp only [hasizes, hbsizes, matMulOperands_eq, Option.map_some, Option.some.injEq]
    cases optionalShape node shapes 2 <;> cases optionalShape node shapes 5 <;>
      cases optionalShape node shapes 7 <;> rfl
  | matMulInteger =>
    obtain ⟨aInfo, ha⟩ := Option.isSome_iff_exists.1 (h.required 0 (by decide))
    obtain ⟨bInfo, hb⟩ := Option.isSome_iff_exists.1 (h.required 1 (by decide))
    have hasizes : aInfo.sizes = padToMinDims a 4 := h.first aInfo ha
    have hbsizes : bInfo.sizes = padToMinDims b 4 := h.second bInfo hb
    have hcount : ¬(getNodeInputNames node).length < 2 := not_lt.2 (length_of_lookupInput hb)
    refine Or.inr ⟨by simp, false, (padToMinDims a 4, aInfo.dataType),
      (padToMinDims b 4, bInfo.dataType), .int32, ?_⟩
    rw [MatMulOp.tensors.eq_def, translateMatMulInteger,
      if_neg (not_or.2 ⟨hcount, h.output⟩), ha, hb]
    simp only [hasizes, hbsizes, matMulOperands_eq, Option.map_some, Option.some.injEq]
    cases optionalShape node shapes 2 <;> cases optionalShape node shapes 3 <;> rfl

/-- The sizes of the result: those of the product, in those of the matrices. -/
theorem result_iff {op : MatMulOp} {node : Node} {shapes : ValueShapes} {a b batch : List Nat}
    {A B : List Dim} {m k n : Nat} (type : DmlDataType) (h : MatMulNode op node shapes a b)
    (hprod : IsProduct a b batch m k n) (hrow : asRow b = asColumn b)
    (hA : A.map Dim.size = padToMinDims batch 2 ++ [m, k])
    (hB : B.map Dim.size = padToMinDims batch 2 ++ [k, n]) {c : DmlTensorInfo}
    (hc : c = makeTensorInfo
      (((outEdge node shapes).map DmlTensorInfo.sizes).getD (productSizes A B)) type) :
    c.sizes = padToMinDims (productShape a b batch m n) 4 ∧
        c.sizes = padToMinDims batch 2 ++ [m, n] ↔
      padToMinDims (productShape a b batch m n) 4 = padToMinDims (batch ++ [m, n]) 4 ∧
        ((outEdge node shapes).isSome ∨ a.length ≤ 4 ∧ b.length ≤ 4) := by
  have hfull : padToMinDims (batch ++ [m, n]) 4 = padToMinDims batch 2 ++ [m, n] :=
    alignRight_append 1 2 batch [m, n]
  have hprod' := hprod
  obtain ⟨aBatch, bBatch, ha, hb, hbatch⟩ := hprod'
  have hlen := BroadcastingLemmas.broadcast_lengths hbatch
  have hla : (asRow a).length = aBatch.length + 2 := by rw [ha]; simp
  have hlb : (asRow b).length = bBatch.length + 2 := by rw [hrow, hb]; simp
  have hranks : a.length ≤ 4 ∧ b.length ≤ 4 ↔ batch.length ≤ 2 := by
    have hrank : ∀ l : List Nat, l.length ≤ 4 ↔ (asRow l).length ≤ 4 := by
      intro l
      unfold asRow
      split
      · next hone => simp [hone]
      · rfl
    rw [hrank a, hrank b]
    omega
  rw [hfull]
  cases hedge : outEdge node shapes with
  | some e =>
    obtain ⟨batch', m', k', n', hprod', he⟩ := h.edge e hedge
    obtain ⟨rfl, rfl, rfl, rfl⟩ := isProduct_unique hprod hprod'
    have hsizes : c.sizes = padToMinDims (productShape a b batch' m' n') 4 := by
      rw [hc, hedge, Option.map_some, Option.getD_some, he]
      exact BroadcastingLemmas.padToMinDims_padToMinDims _ (by omega)
    rw [hsizes]
    simp
  | none =>
    have hsizes : c.sizes = padToMinDims (productSizes A B) 4 := by
      rw [hc, hedge]
      rfl
    have hfour : c.sizes.length = 4 := by
      rw [hsizes, BroadcastingLemmas.length_padToMinDims]
      rfl
    simp only [Option.isSome_none, Bool.false_eq_true, false_or]
    rw [hranks]
    constructor
    · rintro ⟨hshape, hmatrix⟩
      refine ⟨hshape.symm.trans hmatrix, ?_⟩
      rw [hmatrix, List.length_append, BroadcastingLemmas.length_padToMinDims] at hfour
      simp only [List.length_cons, List.length_nil] at hfour
      omega
    · rintro ⟨hsame, htwo⟩
      have hfront : (padToMinDims batch 2).length = 2 := by
        rw [BroadcastingLemmas.length_padToMinDims, Nat.max_eq_left htwo]
      have hmatrix : c.sizes = padToMinDims batch 2 ++ [m, n] := by
        rw [hsizes, productSizes_eq hA hB hfront, padToMinDims, List.length_append, hfront]
        rfl
      exact ⟨hmatrix.trans hsame.symm, hmatrix⟩

/-- When the description is that of the product. -/
theorem tensors_denote_iff {op : MatMulOp} {node : Node} {shapes : ValueShapes} {a b batch : List Nat}
    {m k n : Nat} (h : MatMulNode op node shapes a b) (hprod : IsProduct a b batch m k n)
    (skip : Bool) (aTypes bTypes : List Nat × DmlDataType) (type : DmlDataType) :
    (describedTensors skip (outEdge node shapes) a b aTypes bTypes type).Denotes a b batch m k n ↔
      asRow b = asColumn b ∧
        padToMinDims (productShape a b batch m n) 4 = padToMinDims (batch ++ [m, n]) 4 ∧
        ((outEdge node shapes).isSome ∨ a.length ≤ 4 ∧ b.length ≤ 4) ∧
        StridesFit a ∧ StridesFit b := by
  obtain ⟨hrows, hcols, hnil⟩ := vector_dims hprod
  have hprod' := hprod
  obtain ⟨aBatch, bBatch, ha, hb, hbatch⟩ := hprod'
  obtain ⟨k', n', hbRow, hinner⟩ := asRow_pair hb
  have hposa : ∀ d ∈ asRow a, 0 < d :=
    pos_asRow fun d hd => h.positive d (List.mem_append_left b hd)
  have hposb : ∀ d ∈ asRow b, 0 < d :=
    pos_asRow fun d hd => h.positive d (List.mem_append_right a hd)
  have hposBatch : ∀ d ∈ batch, 0 < d :=
    BroadcastingLemmas.pos_of_broadcast (broadcastShapes_eq_some_iff.2 hbatch)
      (fun d hd => hposa d (by rw [ha]; exact List.mem_append_left _ hd))
      (fun d hd => hposb d (by rw [hbRow]; exact List.mem_append_left _ hd))
  have hsizesA : (operandDims skip a b).map Dim.size = padToMinDims batch 2 ++ [m, k] := by
    rw [← operandDims_asRow skip h.ranks.1 h.ranks.2]
    exact sizes_operandDims skip ha hbRow hposb hbatch
  have hsizesB : (operandDims skip b a).map Dim.size = padToMinDims batch 2 ++ [k', n'] := by
    rw [← operandDims_asRow skip h.ranks.2 h.ranks.1]
    exact sizes_operandDims skip hbRow ha hposa (BroadcastingLemmas.isBroadcast_comm hbatch)
  have hfour : ∀ own other : List Nat, 4 ≤ (operandDims skip own other).length := by
    intro own other
    rw [length_operandDims]
    exact Nat.le_max_left _ _
  generalize ht : describedTensors skip (outEdge node shapes) a b aTypes bTypes type = t
  have hA : t.a.sizes = padToMinDims batch 2 ++ [m, k] := by
    rw [← ht, ← hsizesA]
    exact sizes_dimsTensor (hfour a b) _ _
  have hB : t.b.sizes = padToMinDims batch 2 ++ [k', n'] := by
    rw [← ht, ← hsizesB]
    exact sizes_dimsTensor (hfour b a) _ _
  -- both operands are described, and the second one is a matrix of `k` rows
  have hdescribed : asRow b = asColumn b → (t.Denotes a b batch m k n ↔
      padToMinDims (productShape a b batch m n) 4 = padToMinDims (batch ++ [m, n]) 4 ∧
        ((outEdge node shapes).isSome ∨ a.length ≤ 4 ∧ b.length ≤ 4) ∧
        StridesFit a ∧ StridesFit b) := by
    intro hrow
    obtain ⟨-, rfl, rfl⟩ := pair_inj (hbRow.symm.trans (hrow.trans hb))
    have hresult := result_iff type h hprod hrow hsizesA hsizesB (c := t.c) (by rw [← ht]; rfl)
    have hm : 0 < m := hposa m (by rw [ha]; simp)
    have hk : 0 < k' := hposa k' (by rw [ha]; simp)
    have hn : 0 < n' := hposb n' (by rw [hbRow]; simp)
    have hposMatrix : ∀ x y, 0 < x → 0 < y → ∀ d ∈ padToMinDims batch 2 ++ [x, y], 0 < d := by
      intro x y hx hy d hd
      rcases List.mem_append.1 hd with hd | hd
      · exact BroadcastingLemmas.pos_padToMinDims hposBatch 2 d hd
      · simp only [List.mem_cons, List.not_mem_nil, or_false] at hd
        rcases hd with rfl | rfl
        · exact hx
        · exact hy
    have hreads := reads_products_iff hA hB
      (show List.Forall₂ _ (asRow a) _ by rw [ha]; exact stretches_pair m k' hbatch)
      (show List.Forall₂ _ (asColumn b) _ by
        rw [hb]; exact stretches_pair k' n' (BroadcastingLemmas.isBroadcast_comm hbatch)) hm hn
    have hfits : t.a.Reads (asRow a) ∧ t.b.Reads (asColumn b) ↔ StridesFit a ∧ StridesFit b := by
      have hreadA := reads_dimsTensor skip (asRow a) (asRow b) aTypes.1 aTypes.2
      have hreadB := reads_dimsTensor skip (asRow b) (asRow a) bTypes.1 bTypes.2
      rw [operandDims_asRow skip h.ranks.1 h.ranks.2, hsizesA, stridesFit_asRow h.ranks.1]
        at hreadA
      rw [operandDims_asRow skip h.ranks.2 h.ranks.1, hsizesB, stridesFit_asRow h.ranks.2]
        at hreadB
      rw [← hrow, ← ht]
      exact and_congr (hreadA (hposMatrix m k' hm hk)) (hreadB (hposMatrix k' n' hk hn))
    constructor
    · rintro ⟨hshape, front, rows, cols, hA', hB', hC', hread⟩
      obtain ⟨rfl, rfl, -⟩ := pair_inj (hA'.symm.trans hA)
      obtain ⟨-, -, rfl⟩ := pair_inj (hB'.symm.trans hB)
      obtain ⟨hsame, hranks⟩ := hresult.1 ⟨hshape, hC'⟩
      refine ⟨hsame, hranks, hfits.1 (hreads.2 fun i row col hin j hj => ?_)⟩
      obtain ⟨i', row', col', hidx, hoffsets⟩ := hread i row col hin
      rw [alignRight_product hrows hcols hnil hsame hin] at hidx
      obtain ⟨rfl, rfl, rfl⟩ := pair_inj hidx
      exact hoffsets j hj
    · rintro ⟨hsame, hranks, hstrides⟩
      obtain ⟨hshape, hC⟩ := hresult.2 ⟨hsame, hranks⟩
      exact ⟨hshape, _, m, n', hA, hB, hC, fun i row col hin =>
        ⟨_, row, col, alignRight_product hrows hcols hnil hsame hin,
          hreads.1 (hfits.2 hstrides) i row col hin⟩⟩
  constructor
  · intro hdenotes
    have hrow : asRow b = asColumn b := by
      obtain ⟨-, front, rows, cols, -, hB', -⟩ := hdenotes
      exact hinner (pair_inj (hB.symm.trans hB')).2.1
    exact ⟨hrow, (hdescribed hrow).1 hdenotes⟩
  · rintro ⟨hrow, hrest⟩
    exact (hdescribed hrow).2 hrest

end MatMulShapesLemmas

/-- Without a dimension of 1 in their place, the translators miss vectors; they do not compare
batches, and only `TranslateMatMul` compares the inner dimensions. -/
theorem matMul_iff {op : MatMulOp} {node : Node} {shapes : ValueShapes}
    {initializers : String → Option Initializer} {a b : List Nat}
    (h : MatMulNode op node shapes a b) :
    Multiplies op node shapes initializers a b ↔
      (op = .matMul ∧ DifferInner a b) ∨ Multipliable node shapes a b := by
  rcases MatMulShapesLemmas.tensors_eq initializers h with
    ⟨hop, hinner, hnone⟩ | ⟨haccept, skip, aTypes, bTypes, type, hsome⟩
  · refine iff_of_true ⟨fun _ => hnone, fun batch m k n _ t ht => ?_⟩ (Or.inl ⟨hop, hinner⟩)
    rw [hnone] at ht
    cases ht
  · rw [or_iff_right haccept]
    constructor
    · rintro ⟨hreject, hdenotes⟩
      have hproduct : ∃ batch m k n, IsProduct a b batch m k n := by
        by_contra hno
        rw [hreject hno] at hsome
        cases hsome
      obtain ⟨batch, m, k, n, hprod⟩ := hproduct
      exact ⟨batch, m, k, n, hprod, (MatMulShapesLemmas.tensors_denote_iff h hprod skip aTypes bTypes
        type).1 (hdenotes batch m k n hprod _ hsome)⟩
    · rintro ⟨batch, m, k, n, hprod, hfits⟩
      refine ⟨fun hno => absurd ⟨batch, m, k, n, hprod⟩ hno, fun batch' m' k' n' hprod' t ht => ?_⟩
      obtain ⟨rfl, rfl, rfl, rfl⟩ := MatMulShapesLemmas.isProduct_unique hprod hprod'
      obtain rfl := Option.some.inj (hsome.symm.trans ht)
      exact (MatMulShapesLemmas.tensors_denote_iff h hprod skip aTypes bTypes type).2 hfits

/-! ## A vector and three matrices -/

/-- `c` is the product of `a` and `b`. -/
def productNode : Node :=
  { id := 0, opType := "MatMul", inputs := [some "a", some "b"], outputs := [some "c"] }

/-- ORT knows the shapes. -/
def knownShapes (a b c : List Nat) : ValueShapes := fun name =>
  let info := fun shape : List Nat =>
    some { makeTensorInfo shape .float32 with originalRank := shape.length }
  if name = "a" then info a else if name = "b" then info b else if name = "c" then info c else none

theorem isProduct_of_eq {a b aBatch bBatch batch : List Nat} {m k n : Nat}
    (ha : asRow a = aBatch ++ [m, k]) (hb : asColumn b = bBatch ++ [k, n])
    (hbatch : AmdGpuEp.broadcastShapes aBatch bBatch = some batch) :
    IsProduct a b batch m k n :=
  ⟨aBatch, bBatch, ha, hb, broadcastShapes_eq_some_iff.1 hbatch⟩

theorem productNode_known {a b batch : List Nat} {m k n : Nat} (hprod : IsProduct a b batch m k n)
    (hranks : a ≠ [] ∧ b ≠ []) (hpos : ∀ d ∈ a ++ b, 0 < d) :
    MatMulNode .matMul productNode (knownShapes a b (productShape a b batch m n)) a b where
  required := by
    intro i hi
    simp only [MatMulOp.required, List.mem_cons, List.not_mem_nil, or_false] at hi
    rcases hi with rfl | rfl
    · rfl
    · rfl
  count := fun h => by cases h
  output := by decide
  ranks := hranks
  positive := hpos
  first := by
    rintro info ⟨⟩
    rfl
  second := by
    rintro info ⟨⟩
    rfl
  edge := by
    rintro e ⟨⟩
    exact ⟨batch, m, k, n, hprod, rfl⟩

/-- The result has three rows of four, and the operands are three products of a row of two and a
matrix. -/
theorem vector_misplaced :
    MatMulNode .matMul productNode (knownShapes [2] [3, 2, 4] [3, 4]) [2] [3, 2, 4] ∧
      ¬ Multiplies .matMul productNode (knownShapes [2] [3, 2, 4] [3, 4]) (fun _ => none) [2]
        [3, 2, 4] := by
  have hprod : IsProduct [2] [3, 2, 4] [3] 1 2 4 :=
    isProduct_of_eq (show _ = [] ++ _ from rfl) (show _ = [3] ++ _ from rfl) rfl
  refine ⟨productNode_known hprod (by decide) (by decide), ?_⟩
  rintro ⟨-, hdenotes⟩
  obtain ⟨-, front, rows, cols, hA, -, hC, -⟩ := hdenotes [3] 1 2 4 hprod _ rfl
  obtain ⟨hfront, -⟩ :=
    pair_inj (l := [1, 3]) (show [1, 3] ++ [1, 2] = _ from hA)
  obtain ⟨hfront', -⟩ :=
    pair_inj (l := [1, 1]) (show [1, 1] ++ [3, 4] = _ from hC)
  exact absurd (hfront.trans hfront'.symm) (by decide)

/-- Three products of matrices are described. -/
theorem matrices_multiplied :
    Multiplies .matMul productNode (knownShapes [2, 5] [3, 5, 4] [3, 2, 4]) (fun _ => none) [2, 5]
      [3, 5, 4] := by
  have hprod : IsProduct [2, 5] [3, 5, 4] [3] 2 5 4 :=
    isProduct_of_eq (show _ = [] ++ _ from rfl) (show _ = [3] ++ _ from rfl) rfl
  exact (matMul_iff (productNode_known hprod (by decide) (by decide))).2
    (Or.inr ⟨[3], 2, 5, 4, hprod, rfl, rfl, Or.inl rfl, by decide, by decide⟩)

end AmdGpuEp.DirectML
