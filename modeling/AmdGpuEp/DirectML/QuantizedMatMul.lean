import AmdGpuEp.DirectML.Broadcasting
import Mathlib.Algebra.BigOperators.Group.Finset.Basic
import Mathlib.Data.Real.Basic

/-!
# Products with quantized weights

`TranslateMatMulNBits` dequantizes the weights and multiplies with their transpose.
Weights of 4 bits lie two in a byte, and a row of an odd number of zero points ends
with half a byte that is not used. Without zero points the weights are scaled as they
are, while the operator has zero points in the middle of the range then.

Results:
1. `translateNBits_eq`: what a node is translated to.
2. `matMulNBits_iff`: the result is the product exactly when there are zero points.
3. `default_missing`: a row of weights without zero points.
-/

namespace AmdGpuEp.DirectML

/-! ## The operators -/

/-- The descriptions, without their tensors. -/
inductive NBitsDesc
  | dequantize (hasZeroPoint : Bool)
  | gemm (transA transB : Bool) (alpha beta : ℚ)
  deriving DecidableEq

def translateNBits : OpTranslator NBitsDesc :=
  translateMatMulNBits .dequantize (.gemm false true 1 0)

/-- Element `i` behind the byte `start`, in bytes that are filled from their low bits on. -/
def packedElement (bits : Nat) (bytes : Nat → UInt8) (start i : Nat) : Nat :=
  (bytes (start + i * bits / 8)).toNat / 2 ^ (i * bits % 8) % 2 ^ bits

/-- The bits of an element. -/
def DmlDataType.bits : DmlDataType → Nat
  | .uint4 => 4
  | dtype => 8 * dtype.size

/-- The buffers of the inputs. -/
structure NBitsData where
  a : Nat → ℝ
  b : Nat → UInt8
  scales : Nat → ℝ
  zeroPoints : Nat → UInt8

/-- The element at a place of an input of the node. -/
def NBitsData.read (d : NBitsData) (input : Nat) (dtype : DmlDataType) (place : Nat) : ℝ :=
  match input with
  | 0 => d.a place
  | 1 => packedElement dtype.bits d.b 0 place
  | 2 => d.scales place
  | _ => packedElement dtype.bits d.zeroPoints 0 place

/-- The block of an element, when the sizes are cut in so many blocks. -/
def blockIndex (sizes blocks idx : List Nat) : List Nat :=
  List.zipWith (· / ·) idx (List.zipWith (· / ·) sizes blocks)

/-- The indices of a matrix, or of its transpose. -/
def matrixIndex (trans : Bool) (row col : Nat) : List Nat :=
  if trans then [col, row] else [row, col]

namespace TranslatedOp

variable (t : TranslatedOp NBitsDesc) (d : NBitsData)

/-- The tensor of an input slot. The one of `A` comes after those of the primary operator. -/
def slot (i : Nat) : DmlTensorInfo :=
  t.inputTensors.getD i {}

/-- The element of a slot at an index; `input_name_reorder` names the input. -/
def readSlot (i : Nat) (idx : List Nat) : ℝ :=
  d.read (t.inputNameReorder.getD i 0) (t.slot i).dataType ((t.slot i).offset idx)

/-- `deq_out_tensor`: packed, in the sizes of the weights. -/
def dequantizedTensor : DmlTensorInfo :=
  makeTensorInfo (t.slot 0).sizes (t.slot t.primaryInputCount).dataType

/-- `DML_OPERATOR_DEQUANTIZE`: the quantization tensors have an element for a block. -/
def dequantized (hasZeroPoint : Bool) (idx : List Nat) : ℝ :=
  let quantizer := fun i =>
    t.readSlot d i (blockIndex (t.slot 0).sizes (t.slot i).sizes idx)
  (t.readSlot d 0 idx - if hasZeroPoint then quantizer 2 else 0) * quantizer 1

/-- `DML_OPERATOR_GEMM`, over the last two dimensions of tensors with the same dimensions before. -/
def Multiplies (transA transB : Bool) (alpha : ℚ) (a b c : List Nat → ℝ) : Prop :=
  ∃ front m n k, (t.slot t.primaryInputCount).sizes = front ++ matrixIndex transA m k ∧
    t.dequantizedTensor.sizes = front ++ matrixIndex transB k n ∧
    (t.outputTensors.headD {}).sizes = front ++ [m, n] ∧
    ∀ i row col, InBounds (i ++ [row, col]) (front ++ [m, n]) →
      c (i ++ [row, col]) = alpha * ∑ j ∈ Finset.range k,
        a (i ++ matrixIndex transA row j) * b (i ++ matrixIndex transB j col)

/-- The translated node leaves `weights` between its two operators and `y` in the output buffer. -/
def RunsTo (weights y : Nat → ℝ) : Prop :=
  ∃ hasZeroPoint transA transB alpha beta,
    t.opDesc = .dequantize hasZeroPoint ∧
    t.subNodes =
      [{ opDesc := .gemm transA transB alpha beta, inputFrom := [(-2, 0), (-1, 0)],
         graphInputs := [(0, 0)] }] ∧
    t.inputNameReorder.getD t.primaryInputCount 1 = 0 ∧
    (∀ idx, InBounds idx t.dequantizedTensor.sizes →
      weights (t.dequantizedTensor.offset idx) = t.dequantized d hasZeroPoint idx) ∧
    t.Multiplies transA transB alpha (t.readSlot d t.primaryInputCount)
      (fun idx => weights (t.dequantizedTensor.offset idx))
      (fun idx => y ((t.outputTensors.headD {}).offset idx))

end TranslatedOp

/-! ## What is asked of them -/

/-- A node, and what is recorded of its tensors. A block is a number of bytes. -/
structure NBitsNode where
  node : Node
  shapes : ValueShapes
  initializers : String → Option Initializer
  batch : List Nat
  rows : Nat
  n : Nat
  k : Nat
  bits : Nat
  blockSize : Nat
  a : DmlTensorInfo
  b : DmlTensorInfo
  scales : DmlTensorInfo
  inputA : (getNodeInputNames node)[0]?.bind shapes = some a
  inputB : (getNodeInputNames node)[1]?.bind shapes = some b
  inputScales : (getNodeInputNames node)[2]?.bind shapes = some scales
  output : getNodeOutputNames node ≠ []
  attributeN : getAttributeInt node "N" 0 = n
  attributeK : getAttributeInt node "K" 0 = k
  attributeBits : getAttributeInt node "bits" 0 = bits
  attributeBlockSize : getAttributeInt node "block_size" 0 = blockSize
  width : bits = 4 ∨ bits = 8
  positive : (∀ d ∈ batch, 0 < d) ∧ 0 < rows ∧ 0 < n ∧ 0 < k ∧ 0 < blockSize
  fits : n < 2 ^ 32 ∧ k < 2 ^ 32
  divides : blockSize ∣ k
  wholeBytes : 8 ∣ blockSize * bits
  sizesA : a.sizes = padToMinDims (batch ++ [rows, k]) 4
  sizesB : b.sizes.prod = n * (k / blockSize) * (blockSize * bits / 8)
  sizesScales : scales.sizes.prod = n * (k / blockSize)
  sizesZeroPoints : ∀ name info, (getNodeInputNames node)[3]? = some name →
    shapes name = some info → info.sizes.prod = n * ((k / blockSize * bits + 7) / 8)
  noMore : ∀ i, i = 4 ∨ i = 5 →
    ((getNodeInputNames node)[i]?.filter (· != "")).bind shapes = none
  edge : ∀ e, (getNodeOutputNames node).head?.bind shapes = some e →
    e.sizes = padToMinDims (batch ++ [rows, n]) 4

namespace NBitsNode

variable (r : NBitsNode)

/-- The zero points of the node. -/
def zeroPoints : Option DmlTensorInfo :=
  ((getNodeInputNames r.node)[3]?.filter (· != "")).bind r.shapes

/-- The blocks of a row of the weights. -/
def blocks : Nat :=
  r.k / r.blockSize

/-- A quantized weight. -/
def quantized (d : NBitsData) (row col : Nat) : Nat :=
  packedElement r.bits d.b ((row * r.blocks + col / r.blockSize) * (r.blockSize * r.bits / 8))
    (col % r.blockSize)

/-- The zero point of a block, which is in the middle of the range when there is none. -/
def zeroPoint (d : NBitsData) (row block : Nat) : Nat :=
  if r.zeroPoints.isSome then
    packedElement r.bits d.zeroPoints (row * ((r.blocks * r.bits + 7) / 8)) block
  else 2 ^ (r.bits - 1)

def weight (d : NBitsData) (row col : Nat) : ℝ :=
  ((r.quantized d row col : ℝ) - r.zeroPoint d row (col / r.blockSize)) *
    d.scales (row * r.blocks + col / r.blockSize)

/-- `A` times the transpose of the weights. -/
def IsProduct (d : NBitsData) (y : Nat → ℝ) : Prop :=
  ∀ i row col, InBounds (i ++ [row, col]) (r.batch ++ [r.rows, r.n]) →
    y (rowMajor (r.batch ++ [r.rows, r.n]) (i ++ [row, col])) =
      ∑ j ∈ Finset.range r.k,
        d.a (rowMajor (r.batch ++ [r.rows, r.k]) (i ++ [row, j])) * r.weight d col j

/-- The elements of a description, in bytes, are those of a tensor of bytes. -/
def InBytes (t info : DmlTensorInfo) : Prop :=
  ∀ idx, InBounds idx t.sizes → t.offset idx * t.dataType.bits / 8 < info.sizes.prod

/-- The node is translated; the operators compute the product, and all elements of the weights, the
scales and the zero points are elements of these tensors. -/
structure Correct : Prop where
  translated : ∃ t, translateNBits r.node r.shapes r.initializers = some t ∧
    (∀ d, (∃ weights y, t.RunsTo d weights y) ∧
      ∀ weights y, t.RunsTo d weights y → r.IsProduct d y) ∧
    InBytes (t.slot 0) r.b ∧
    (∀ idx, InBounds idx (t.slot 1).sizes → (t.slot 1).offset idx < r.scales.sizes.prod) ∧
    ∀ info, r.zeroPoints = some info → InBytes (t.slot 2) info

end NBitsNode

namespace QuantizedMatMulLemmas

/-! ## Packed elements -/

/-- An element is counted from any byte before it. -/
theorem packedElement_shift {bits start i j : Nat} (h : start * 8 + i * bits = j * bits)
    (bytes : Nat → UInt8) : packedElement bits bytes start i = packedElement bits bytes 0 j := by
  have hbyte : j * bits / 8 = start + i * bits / 8 := by omega
  have hbit : j * bits % 8 = i * bits % 8 := by omega
  rw [packedElement, packedElement, hbyte, hbit, Nat.zero_add]

/-! ## Strides -/

theorem packedStrides_matrix (m x y : Nat) : ∃ strides : List Nat, strides.length = m ∧
    computePackedStrides (List.replicate m 1 ++ [x, y]) = strides ++ [y % 2 ^ 32, 1] := by
  induction m with
  | zero => exact ⟨[], rfl, by simp [computePackedStrides]⟩
  | succ m ih =>
    obtain ⟨strides, hlen, hstrides⟩ := ih
    rw [List.replicate_succ, List.cons_append, computePackedStrides, hstrides]
    exact ⟨_ :: strides, congrArg (· + 1) hlen, rfl⟩

/-- The dimensions before a matrix are of size 1 or of stride zero. -/
structure Still (front : List Nat) (dims : List Dim) : Prop where
  sizes : dims.map Dim.size = front
  still : ∀ d ∈ dims, d.size = 1 ∨ d.stride = 0

theorem broadcastStrides_matrix {front : List Nat} (hpos : ∀ d ∈ front, 0 < d)
    (x y rows cols : Nat) : ∃ dims, Still front dims ∧
      broadcastStrides (matrixShape (front.length + 2) x y) (front ++ [rows, cols]) =
        dims.map Dim.stride ++ [y % 2 ^ 32, 1] := by
  obtain ⟨strides, hlen, hstrides⟩ := packedStrides_matrix front.length x y
  have hshape : matrixShape (front.length + 2) x y = List.replicate front.length 1 ++ [x, y] := rfl
  have hshapeLen : (List.replicate front.length 1 ++ [x, y]).length = front.length + 2 := by simp
  unfold broadcastStrides
  rw [hshape, hstrides, List.zipIdx_append, List.map_append, hshapeLen]
  generalize hkept : List.map _ strides.zipIdx = kept
  have hkeptLen : kept.length = front.length := by
    rw [← hkept, List.length_map, List.length_zipIdx, hlen]
  refine ⟨(front.zip kept).map fun p => ⟨p.1, p.2⟩, ⟨?_, ?_⟩, ?_⟩
  · rw [List.map_map]
    exact List.map_fst_zip hkeptLen.ge
  · intro d hd
    obtain ⟨j, hj, rfl⟩ := List.getElem_of_mem hd
    rw [List.length_map, List.length_zip, hkeptLen, Nat.min_self] at hj
    have hsize : 0 < front[j] := hpos _ (List.getElem_mem hj)
    have hone : (List.replicate front.length 1 ++ [x, y])[j]? = some 1 := by
      rw [List.getElem?_append_left (by simpa using hj), List.getElem?_replicate, if_pos hj]
    have hfront : (front ++ [rows, cols]).getD j 0 = front[j] := by
      rw [List.getD_eq_getElem?_getD, List.getElem?_append_left hj, List.getElem?_eq_getElem hj]
      rfl
    subst hkept
    simp only [List.getElem_map, List.getElem_zip, List.getElem_zipIdx, Nat.zero_add, hone, hfront]
    by_cases hlarge : 1 < front[j]
    · exact Or.inr (if_pos ⟨by omega, trivial, hlarge⟩)
    · exact Or.inl (by omega)
  · rw [List.map_map]
    refine congrArg₂ _ (List.map_snd_zip hkeptLen.le).symm ?_
    simp [hlen]

/-! ## Tensors of matrices -/

section

variable {front : List Nat} {dims : List Dim} {x y s : Nat} {dtype : DmlDataType} {bytes : Nat}

/-- A tensor of matrices with rows that are `s` elements apart. -/
def rowsTensor (dims : List Dim) (x y s : Nat) (dtype : DmlDataType) (bytes : Nat) :
    DmlTensorInfo :=
  makeTensorInfoWithStrides (dims.map Dim.size ++ [x, y]) (dims.map Dim.stride ++ [s, 1]) dtype
    bytes

theorem padToMinDims_four (h : 2 ≤ front.length) :
    padToMinDims (front ++ [x, y]) 4 = front ++ [x, y] := by
  have hpad : 4 - (front ++ [x, y]).length = 0 := by
    rw [List.length_append, List.length_cons, List.length_singleton]
    omega
  rw [padToMinDims, hpad]
  rfl

theorem sizes_rowsTensor (h : 2 ≤ front.length) (hstill : Still front dims) :
    (rowsTensor dims x y s dtype bytes).sizes = front ++ [x, y] := by
  rw [← hstill.sizes] at h ⊢
  exact padToMinDims_four h

/-- All matrices of such a tensor are one. -/
theorem offset_rowsTensor (h : 2 ≤ front.length) (hstill : Still front dims) {i : List Nat}
    (hi : InBounds i front) (p q : Nat) :
    (rowsTensor dims x y s dtype bytes).offset (i ++ [p, q]) = s * p + q := by
  have hsizes : (rowsTensor dims x y s dtype bytes).sizes =
      (dims ++ [Dim.mk x s, Dim.mk y 1]).map Dim.size := by
    rw [sizes_rowsTensor h hstill, List.map_append, hstill.sizes]
    rfl
  have hstrides : (rowsTensor dims x y s dtype bytes).strides =
      (dims ++ [Dim.mk x s, Dim.mk y 1]).map Dim.stride := by
    have hlen := congrArg List.length hsizes
    show List.replicate ((rowsTensor dims x y s dtype bytes).sizes.length - _) 0 ++ _ = _
    rw [hlen, List.map_append]
    simp
  have hview := BroadcastingLemmas.view_of_dims (by simp) hsizes hstrides
  have hlen : dims.length = i.length := by
    rw [hi.length_eq, ← hstill.sizes, List.length_map]
  rw [DmlTensorInfo.offset, hview, address_append hlen,
    address_eq_zero hstill.still (hstill.sizes.symm ▸ hi)]
  show 0 + (s * p + (1 * q + 0)) = s * p + q
  omega

end

/-! ## The translation -/

section

variable (r : NBitsNode)

/-- The dimensions before the matrices. -/
def front : List Nat :=
  padToMinDims r.batch 2

def quantizedType : DmlDataType :=
  if r.bits = 4 then .uint4 else .uint8

/-- The elements of a row of zero points. -/
def zeroPointStride : Nat :=
  if r.bits = 4 ∧ r.blocks % 2 ≠ 0 then r.blocks + 1 else r.blocks

theorem two_le_front : 2 ≤ (front r).length := by
  rw [front, BroadcastingLemmas.length_padToMinDims]
  exact le_max_left _ _

theorem front_pos : ∀ d ∈ front r, 0 < d := by
  intro d hd
  rcases List.mem_append.1 hd with hone | hbatch
  · rw [List.eq_of_mem_replicate hone]
    exact Nat.one_pos
  · exact r.positive.1 d hbatch

theorem padToMinDims_batch (x y : Nat) :
    padToMinDims (r.batch ++ [x, y]) 4 = front r ++ [x, y] :=
  alignRight_append 1 2 r.batch [x, y]

theorem blocks_mul : r.blocks * r.blockSize = r.k :=
  Nat.div_mul_cancel r.divides

theorem blocks_pos : 0 < r.blocks :=
  Nat.div_pos (Nat.le_of_dvd r.positive.2.2.2.1 r.divides) r.positive.2.2.2.2

theorem blocks_lt : r.blocks < 2 ^ 32 :=
  lt_of_le_of_lt (Nat.div_le_self _ _) r.fits.2

/-- The scales have one element for every block. -/
theorem scales_count :
    r.scales.sizes.foldl (fun count s => count * s % 2 ^ 64) 1 / r.n % 2 ^ 32 = r.blocks := by
  have hsmall : r.n * r.blocks < 2 ^ 64 := by
    have hlt := Nat.mul_lt_mul'' r.fits.1 (blocks_lt r)
    omega
  have hprod : r.scales.sizes.prod = r.n * r.blocks := r.sizesScales
  have hcount : r.scales.sizes.foldl (fun count s => count * s % 2 ^ 64) 1 = r.n * r.blocks :=
    (foldl_mul_of_lt (by decide) (hprod ▸ hsmall)).trans hprod
  rw [hcount, Nat.mul_div_cancel_left _ r.positive.2.2.1, Nat.mod_eq_of_lt (blocks_lt r)]

/-- The translation with these tensors. -/
def described (weights scales a y : DmlTensorInfo) (zeroPoints : Option DmlTensorInfo) :
    TranslatedOp NBitsDesc where
  opDesc := .dequantize zeroPoints.isSome
  inputTensors := [weights, scales] ++ zeroPoints.toList ++ [a]
  outputTensors := [y]
  subNodes :=
    [{ opDesc := .gemm false true 1 0, inputFrom := [(-2, 0), (-1, 0)], graphInputs := [(0, 0)] }]
  inputNameReorder := [1, 2] ++ (if zeroPoints.isSome then [3] else []) ++ [0]
  primaryInputCount := if zeroPoints.isSome then 3 else 2

/-- The tensors of a node. -/
structure Tensors (weights scales a y : DmlTensorInfo) (zeroPoints : Option DmlTensorInfo) :
    Prop where
  weights : ∃ dims bytes, Still (front r) dims ∧
    weights = rowsTensor dims r.n r.k r.k (quantizedType r) bytes
  scales : ∃ dims bytes, Still (front r) dims ∧
    scales = rowsTensor dims r.n r.blocks r.blocks r.a.dataType bytes
  zeroTensor : ∀ z, zeroPoints = some z → ∃ dims bytes, Still (front r) dims ∧
    z = rowsTensor dims r.n r.blocks (zeroPointStride r) (quantizedType r) bytes
  given : zeroPoints.isSome = r.zeroPoints.isSome
  a : a = makeTensorInfo (front r ++ [r.rows, r.k]) r.a.dataType
  y : y = makeTensorInfo (front r ++ [r.rows, r.n]) r.a.dataType

end

end QuantizedMatMulLemmas

open QuantizedMatMulLemmas

/-- What a node is translated to. -/
theorem translateNBits_eq (r : NBitsNode) : ∃ weights scales a y zeroPoints,
    Tensors r weights scales a y zeroPoints ∧
      translateNBits r.node r.shapes r.initializers =
        some (described weights scales a y zeroPoints) := by
  have hrank : (front r ++ [r.rows, r.k]).length = (front r).length + 2 := by simp
  have hsizesA : r.a.sizes = front r ++ [r.rows, r.k] :=
    r.sizesA.trans (padToMinDims_batch r r.rows r.k)
  have hbatch : ((front r ++ [r.rows, r.k]).take (front r).length).map (max 1) = front r := by
    rw [List.take_left]
    refine (List.map_congr_left fun d hd => ?_).trans (List.map_id _)
    exact max_eq_right (front_pos r d hd)
  obtain ⟨dims, hdims, hstrides⟩ :=
    broadcastStrides_matrix (front_pos r) r.n r.k r.rows r.k
  obtain ⟨dims', hdims', hstrides'⟩ :=
    broadcastStrides_matrix (front_pos r) r.n r.blocks r.rows r.k
  have hn : (getAttributeInt r.node "N" 0 % 2 ^ 32).toNat = r.n := by
    have := r.fits.1
    rw [r.attributeN]
    omega
  have hk : (getAttributeInt r.node "K" 0 % 2 ^ 32).toNat = r.k := by
    have := r.fits.2
    rw [r.attributeK]
    omega
  have hlength : ¬((getNodeInputNames r.node).length < 3 ∨
      (getNodeOutputNames r.node).isEmpty = true) := by
    rintro (hshort | hempty)
    · have hscales := r.inputScales
      rw [List.getElem?_eq_none (by omega)] at hscales
      cases hscales
    · exact r.output (List.isEmpty_iff.1 hempty)
  have hmore : ¬((((getNodeInputNames r.node)[4]?.filter (· != "")).bind r.shapes).isSome = true ∨
      (((getNodeInputNames r.node)[5]?.filter (· != "")).bind r.shapes).isSome = true) := by
    rw [r.noMore 4 (Or.inl rfl), r.noMore 5 (Or.inr rfl)]
    simp
  have hwidth : ¬(getAttributeInt r.node "bits" 0 ≠ 4 ∧ getAttributeInt r.node "bits" 0 ≠ 8) := by
    rw [r.attributeBits]
    have := r.width
    omega
  have hblock : ¬(getAttributeInt r.node "block_size" 0 ≤ 0 ∨
      (r.k : Int) % getAttributeInt r.node "block_size" 0 ≠ 0) := by
    rw [r.attributeBlockSize]
    have hmod : (r.k : Int) % (r.blockSize : Int) = 0 :=
      Int.emod_eq_zero_of_dvd (Int.natCast_dvd_natCast.2 r.divides)
    have := r.positive.2.2.2.2
    omega
  have htwo : ¬(front r ++ [r.rows, r.k]).length < 2 := by omega
  have hfour : getAttributeInt r.node "bits" 0 = 4 ↔ r.bits = 4 := by
    rw [r.attributeBits]
    omega
  have hquantized : (if getAttributeInt r.node "bits" 0 = 4 then DmlDataType.uint4 else .uint8) =
      quantizedType r := if_congr hfour rfl rfl
  have hzero : (if getAttributeInt r.node "bits" 0 = 4 ∧ r.blocks % 2 ≠ 0 then
      (dims'.map Dim.stride ++ [r.blocks, 1]).set (front r).length (r.blocks + 1)
      else dims'.map Dim.stride ++ [r.blocks, 1]) =
        dims'.map Dim.stride ++ [zeroPointStride r, 1] := by
    unfold zeroPointStride
    simp only [hfour]
    split
    · have hlen : (dims'.map Dim.stride).length = (front r).length := by
        rw [← hdims'.sizes, List.length_map, List.length_map]
      rw [List.set_append_right _ _ hlen.le, hlen, Nat.sub_self]
      rfl
    · rfl
  have hout : (front r ++ [r.rows, r.k]).dropLast ++ [r.n] = front r ++ [r.rows, r.n] := by
    rw [List.dropLast_append_of_ne_nil (by simp), List.append_assoc]
    rfl
  unfold translateNBits translateMatMulNBits
  dsimp only
  rw [hn, hk, if_neg hlength, if_neg hmore, r.inputA, r.inputB, r.inputScales]
  dsimp only
  rw [if_neg hwidth, hsizesA, if_neg htwo, scales_count r, hrank, Nat.add_sub_cancel, hbatch,
    hstrides, hstrides']
  rw [if_neg hblock, hquantized, Nat.mod_eq_of_lt r.fits.2, Nat.mod_eq_of_lt (blocks_lt r), hzero]
  refine ⟨_, _, _, _, _, ?_, rfl⟩
  exact
    { weights := ⟨dims, _, hdims, by rw [rowsTensor, hdims.sizes]⟩
      scales := ⟨dims', _, hdims', by rw [rowsTensor, hdims'.sizes]⟩
      zeroTensor := by
        intro z hz
        obtain ⟨info, -, rfl⟩ := Option.map_eq_some_iff.1 hz
        exact ⟨dims', _, hdims', by rw [rowsTensor, hdims'.sizes]⟩
      given := Option.isSome_map
      a := rfl
      y := by
        split
        · next e he =>
          rw [makeTensorInfo, makeTensorInfo, r.edge e he, padToMinDims_batch r,
            padToMinDims_four (two_le_front r)]
        · rw [hout] }

namespace QuantizedMatMulLemmas

/-! ## Blocks -/

theorem zipWith_same_div {i front : List Nat} (hi : InBounds i front) :
    List.zipWith (· / ·) i (List.zipWith (· / ·) front front) = i := by
  induction hi with
  | nil => rfl
  | @cons k size i front hk _ ih =>
    rw [List.zipWith_cons_cons, List.zipWith_cons_cons, ih, Nat.div_self (by omega), Nat.div_one]

/-- The last dimension is cut in blocks. -/
theorem blockIndex_matrix {i front : List Nat} (hi : InBounds i front) {n k m : Nat} (hn : 0 < n)
    (row col : Nat) :
    blockIndex (front ++ [n, k]) (front ++ [n, m]) (i ++ [row, col]) =
      i ++ [row, col / (k / m)] := by
  have hlen : i.length = (List.zipWith (· / ·) front front : List Nat).length := by
    rw [List.length_zipWith, Nat.min_self, hi.length_eq]
  rw [blockIndex, List.zipWith_append rfl, List.zipWith_append hlen, zipWith_same_div hi]
  show i ++ [row / (n / n), col / (k / m)] = _
  rw [Nat.div_self hn, Nat.div_one]

section

variable (r : NBitsNode)

theorem bits_quantizedType : (quantizedType r).bits = r.bits := by
  unfold quantizedType
  rcases r.width with hbits | hbits
  · rw [hbits]
    rfl
  · rw [hbits]
    rfl

theorem k_div_blocks : r.k / r.blocks = r.blockSize :=
  Nat.div_eq_of_eq_mul_right (blocks_pos r) (blocks_mul r).symm

/-- A row of zero points is a number of bytes. -/
theorem zeroPointStride_bytes :
    (r.blocks * r.bits + 7) / 8 * 8 = zeroPointStride r * r.bits := by
  unfold zeroPointStride
  rcases r.width with hbits | hbits
  · rw [hbits]
    split <;> omega
  · rw [hbits, if_neg (by omega)]
    omega

theorem quantized_eq (d : NBitsData) (row col : Nat) :
    r.quantized d row col = packedElement r.bits d.b 0 (r.k * row + col) := by
  refine packedElement_shift ?_ d.b
  obtain ⟨w, hw⟩ := r.wholeBytes
  have hcol := Nat.div_add_mod col r.blockSize
  rw [hw, Nat.mul_div_cancel_left _ (by decide)]
  calc (row * r.blocks + col / r.blockSize) * w * 8 + col % r.blockSize * r.bits
      = (row * r.blocks + col / r.blockSize) * (8 * w) + col % r.blockSize * r.bits := by ring
    _ = (row * (r.blocks * r.blockSize) +
          (r.blockSize * (col / r.blockSize) + col % r.blockSize)) * r.bits := by
        rw [← hw]
        ring
    _ = (r.k * row + col) * r.bits := by
        rw [blocks_mul, hcol, Nat.mul_comm row]

theorem zeroPoint_eq (d : NBitsData) (row block : Nat) :
    packedElement r.bits d.zeroPoints (row * ((r.blocks * r.bits + 7) / 8)) block =
      packedElement r.bits d.zeroPoints 0 (zeroPointStride r * row + block) := by
  refine packedElement_shift ?_ d.zeroPoints
  calc row * ((r.blocks * r.bits + 7) / 8) * 8 + block * r.bits
      = row * ((r.blocks * r.bits + 7) / 8 * 8) + block * r.bits := by ring
    _ = (zeroPointStride r * row + block) * r.bits := by
        rw [zeroPointStride_bytes]
        ring

variable {r} {weights scales a y : DmlTensorInfo} {zeroPoints : Option DmlTensorInfo}

/-- The element of a packed tensor, with the dimensions that it is padded with or without. -/
theorem offset_matrices (r : NBitsNode) {i : List Nat} (hi : i.length = r.batch.length)
    (x y p q : Nat) (dtype : DmlDataType) :
    (makeTensorInfo (front r ++ [x, y]) dtype).offset (alignRight 0 2 i ++ [p, q]) =
      rowMajor (r.batch ++ [x, y]) (i ++ [p, q]) := by
  have hlen : (i ++ [p, q]).length = (r.batch ++ [x, y]).length := by simp [hi]
  rw [DmlTensorInfo.offset, BroadcastingLemmas.view_makeTensorInfo, address_packed,
    padToMinDims_four (two_le_front r), ← padToMinDims_batch r, ← rowMajor_alignRight hlen]
  exact congrArg _ (alignRight_append 0 2 i [p, q]).symm

/-- The dequantized weights; those without a zero point are scaled as they are. -/
def scaled (r : NBitsNode) (d : NBitsData) (row col : Nat) : ℝ :=
  ((r.quantized d row col : ℝ) -
      if r.zeroPoints.isSome then (r.zeroPoint d row (col / r.blockSize) : ℝ) else 0) *
    d.scales (row * r.blocks + col / r.blockSize)

theorem readSlot_weights (h : Tensors r weights scales a y zeroPoints) (d : NBitsData)
    {i : List Nat} (hi : InBounds i (front r)) (row col : Nat) :
    (described weights scales a y zeroPoints).readSlot d 0 (i ++ [row, col]) =
      (r.quantized d row col : ℝ) := by
  obtain ⟨dims, bytes, hdims, hweights⟩ := h.weights
  show d.read 1 weights.dataType (weights.offset _) = _
  rw [hweights, offset_rowsTensor (two_le_front r) hdims hi, quantized_eq]
  exact congrArg (fun bits => ((packedElement bits d.b 0 (r.k * row + col) : Nat) : ℝ))
    (bits_quantizedType r)

/-- A quantization tensor is read at the block of an element. -/
theorem blockIndex_slot {z : DmlTensorInfo} (h : Tensors r weights scales a y zeroPoints)
    {i : List Nat} (hi : InBounds i (front r)) {dims : List Dim} {s bytes : Nat}
    {dtype : DmlDataType} (hdims : Still (front r) dims)
    (hz : z = rowsTensor dims r.n r.blocks s dtype bytes) (row col : Nat) :
    blockIndex weights.sizes z.sizes (i ++ [row, col]) = i ++ [row, col / r.blockSize] := by
  obtain ⟨dims', bytes', hdims', hweights⟩ := h.weights
  rw [hweights, hz, sizes_rowsTensor (two_le_front r) hdims',
    sizes_rowsTensor (two_le_front r) hdims, blockIndex_matrix hi r.positive.2.2.1, k_div_blocks]

theorem readSlot_scales (h : Tensors r weights scales a y zeroPoints) (d : NBitsData)
    {i : List Nat} (hi : InBounds i (front r)) (row col : Nat) :
    (described weights scales a y zeroPoints).readSlot d 1
        (blockIndex weights.sizes scales.sizes (i ++ [row, col])) =
      d.scales (row * r.blocks + col / r.blockSize) := by
  obtain ⟨dims, bytes, hdims, hscales⟩ := h.scales
  rw [blockIndex_slot h hi hdims hscales]
  show d.scales (scales.offset _) = _
  rw [hscales, offset_rowsTensor (two_le_front r) hdims hi, Nat.mul_comm row]

theorem readSlot_zeroPoints {z : DmlTensorInfo} (h : Tensors r weights scales a y (some z))
    (d : NBitsData) {i : List Nat} (hi : InBounds i (front r)) (row col : Nat) :
    (described weights scales a y (some z)).readSlot d 2
        (blockIndex weights.sizes z.sizes (i ++ [row, col])) =
      (r.zeroPoint d row (col / r.blockSize) : ℝ) := by
  obtain ⟨dims, bytes, hdims, hz⟩ := h.zeroTensor z rfl
  rw [blockIndex_slot h hi hdims hz]
  show d.read 3 z.dataType (z.offset _) = _
  have hgiven : r.zeroPoints.isSome = true := h.given.symm
  rw [NBitsNode.zeroPoint, if_pos hgiven, zeroPoint_eq, hz,
    offset_rowsTensor (two_le_front r) hdims hi]
  exact congrArg (fun bits => ((packedElement bits d.zeroPoints 0
    (zeroPointStride r * row + col / r.blockSize) : Nat) : ℝ)) (bits_quantizedType r)

/-- The dequantized matrix. -/
theorem dequantized_eq (h : Tensors r weights scales a y zeroPoints) (d : NBitsData)
    {i : List Nat} (hi : InBounds i (front r)) (row col : Nat) :
    (described weights scales a y zeroPoints).dequantized d zeroPoints.isSome (i ++ [row, col]) =
      scaled r d row col := by
  unfold TranslatedOp.dequantized scaled
  dsimp only
  rw [readSlot_weights h d hi, ← h.given]
  congr 1
  · cases zeroPoints with
    | none => rfl
    | some z =>
      have hsome : (some z).isSome = true := rfl
      rw [if_pos hsome, if_pos hsome]
      exact congrArg _ (readSlot_zeroPoints h d hi row col)
  · exact readSlot_scales h d hi row col

theorem readSlot_a (h : Tensors r weights scales a y zeroPoints) (d : NBitsData) {i : List Nat}
    {row col : Nat} (hi : i.length = r.batch.length) :
    (described weights scales a y zeroPoints).readSlot d
        (described weights scales a y zeroPoints).primaryInputCount
        (alignRight 0 2 i ++ [row, col]) =
      d.a (rowMajor (r.batch ++ [r.rows, r.k]) (i ++ [row, col])) := by
  have hslot : (described weights scales a y zeroPoints).readSlot d
      (described weights scales a y zeroPoints).primaryInputCount
      (alignRight 0 2 i ++ [row, col]) = d.a (a.offset (alignRight 0 2 i ++ [row, col])) := by
    cases zeroPoints <;> rfl
  rw [hslot, h.a, offset_matrices r hi]

/-! ## Runs -/

/-- A run gives the products with the dequantized weights, in their places. -/
theorem runsTo_iff (h : Tensors r weights scales a y zeroPoints) (d : NBitsData) (w out : Nat → ℝ) :
    (described weights scales a y zeroPoints).RunsTo d w out ↔
      (∀ idx, InBounds idx (front r ++ [r.n, r.k]) →
        w (rowMajor (front r ++ [r.n, r.k]) idx) =
          (described weights scales a y zeroPoints).dequantized d zeroPoints.isSome idx) ∧
      ∀ i row col, InBounds (i ++ [row, col]) (front r ++ [r.rows, r.n]) →
        out (rowMajor (front r ++ [r.rows, r.n]) (i ++ [row, col])) =
          ∑ j ∈ Finset.range r.k,
            (described weights scales a y zeroPoints).readSlot d
                (described weights scales a y zeroPoints).primaryInputCount (i ++ [row, j]) *
              w (rowMajor (front r ++ [r.n, r.k]) (i ++ [col, j])) := by
  have htwo := two_le_front r
  have hslot : (described weights scales a y zeroPoints).slot
      (described weights scales a y zeroPoints).primaryInputCount = a := by
    cases zeroPoints <;> rfl
  have hreorder : (described weights scales a y zeroPoints).inputNameReorder.getD
      (described weights scales a y zeroPoints).primaryInputCount 1 = 0 := by
    cases zeroPoints <;> rfl
  have hdequantized : (described weights scales a y zeroPoints).dequantizedTensor =
      makeTensorInfo (front r ++ [r.n, r.k]) a.dataType := by
    obtain ⟨dims, bytes, hdims, hweights⟩ := h.weights
    unfold TranslatedOp.dequantizedTensor
    rw [hslot]
    show makeTensorInfo weights.sizes a.dataType = _
    rw [hweights, sizes_rowsTensor htwo hdims]
  have hsizes : ∀ (x z : Nat) (dtype : DmlDataType),
      (makeTensorInfo (front r ++ [x, z]) dtype).sizes = front r ++ [x, z] :=
    fun x z dtype => padToMinDims_four htwo
  have hoffset : ∀ (x z : Nat) (dtype : DmlDataType) (idx : List Nat),
      (makeTensorInfo (front r ++ [x, z]) dtype).offset idx = rowMajor (front r ++ [x, z]) idx := by
    intro x z dtype idx
    rw [DmlTensorInfo.offset, BroadcastingLemmas.view_makeTensorInfo, padToMinDims_four htwo,
      address_packed]
  have hy : (described weights scales a y zeroPoints).outputTensors.headD {} =
      makeTensorInfo (front r ++ [r.rows, r.n]) r.a.dataType := h.y
  unfold TranslatedOp.RunsTo TranslatedOp.Multiplies
  rw [hslot, hreorder, hdequantized, hy, h.a]
  simp only [hsizes, hoffset]
  constructor
  · rintro ⟨hasZeroPoint, transA, transB, alpha, beta, hdesc, hnodes, -, hw, front', m, n, k, ha,
      hb, hc, hmul⟩
    obtain rfl : zeroPoints.isSome = hasZeroPoint := NBitsDesc.dequantize.inj hdesc
    have hgemm : NBitsDesc.gemm false true 1 0 = .gemm transA transB alpha beta := by
      injection hnodes with hnode
      injection hnode
    obtain ⟨rfl, rfl, rfl, rfl⟩ := NBitsDesc.gemm.inj hgemm
    obtain ⟨rfl, rfl, rfl⟩ := pair_inj (show front r ++ [r.rows, r.k] = front' ++ [m, k] from ha)
    obtain ⟨-, rfl, -⟩ := pair_inj (show front r ++ [r.n, r.k] = front r ++ [n, r.k] from hb)
    refine ⟨hw, fun i row col hin => ?_⟩
    rw [hmul i row col hin, Rat.cast_one, one_mul]
    rfl
  · rintro ⟨hw, hout⟩
    refine ⟨zeroPoints.isSome, false, true, 1, 0, rfl, rfl, trivial, hw, front r, r.rows, r.n, r.k,
      rfl, rfl, rfl, fun i row col hin => ?_⟩
    rw [hout i row col hin, Rat.cast_one, one_mul]
    rfl

/-- There are runs, and in each of them the output is the product with the dequantized weights. -/
theorem exists_run (h : Tensors r weights scales a y zeroPoints) (d : NBitsData) :
    ∃ w out, (described weights scales a y zeroPoints).RunsTo d w out := by
  obtain ⟨w, hw⟩ := exists_buffer (front r ++ [r.n, r.k])
    ((described weights scales a y zeroPoints).dequantized d zeroPoints.isSome)
  obtain ⟨out, hout⟩ := exists_buffer (front r ++ [r.rows, r.n]) fun idx =>
    ∑ j ∈ Finset.range r.k,
      (described weights scales a y zeroPoints).readSlot d
          (described weights scales a y zeroPoints).primaryInputCount
          (idx.take (front r).length ++ [idx.getD (front r).length 0, j]) *
        w (rowMajor (front r ++ [r.n, r.k])
          (idx.take (front r).length ++ [idx.getD ((front r).length + 1) 0, j]))
  refine ⟨w, out, (runsTo_iff h d w out).2 ⟨hw, fun i row col hin => ?_⟩⟩
  have hlen : i.length = (front r).length := (inBounds_append_pair.1 hin).1.length_eq
  rw [hout _ hin, ← hlen]
  simp

theorem runsTo_scaled (h : Tensors r weights scales a y zeroPoints) {d : NBitsData}
    {w out : Nat → ℝ} (hrun : (described weights scales a y zeroPoints).RunsTo d w out)
    {i : List Nat} {row col : Nat}
    (hin : InBounds (i ++ [row, col]) (r.batch ++ [r.rows, r.n])) :
    out (rowMajor (r.batch ++ [r.rows, r.n]) (i ++ [row, col])) =
      ∑ j ∈ Finset.range r.k,
        d.a (rowMajor (r.batch ++ [r.rows, r.k]) (i ++ [row, j])) * scaled r d col j := by
  obtain ⟨hw, hout⟩ := (runsTo_iff h d w out).1 hrun
  obtain ⟨hi, hrow, hcol⟩ := inBounds_append_pair.1 hin
  have hfront : InBounds (alignRight 0 2 i) (front r) := inBounds_alignRight.2 ⟨i, hi, rfl⟩
  have hlen := hi.length_eq
  have hplace : ∀ x z p q, rowMajor (front r ++ [x, z]) (alignRight 0 2 i ++ [p, q]) =
      rowMajor (r.batch ++ [x, z]) (i ++ [p, q]) := by
    intro x z p q
    rw [← offset_matrices r hlen x z p q .float32, DmlTensorInfo.offset,
      BroadcastingLemmas.view_makeTensorInfo, padToMinDims_four (two_le_front r), address_packed]
  rw [← hplace, hout _ row col (inBounds_append_pair.2 ⟨hfront, hrow, hcol⟩)]
  refine Finset.sum_congr rfl fun j hj => ?_
  have hj := Finset.mem_range.1 hj
  rw [readSlot_a h d hlen, hw _ (inBounds_append_pair.2 ⟨hfront, hcol, hj⟩),
    dequantized_eq h d hfront]

/-! ## Places -/

theorem place_lt {n k s : Nat} {row col : Nat} (hrow : row < n) (hcol : col < k) (hs : k ≤ s) :
    s * row + col < n * s := by
  calc s * row + col < s * row + s := by omega
    _ = (row + 1) * s := by ring
    _ ≤ n * s := Nat.mul_le_mul_right s hrow

/-- The elements of rows that are a number of bytes apart are in these bytes. -/
theorem inBytes_rowsTensor {info z : DmlTensorInfo} {dims : List Dim} {x s bytes : Nat}
    (rowBytes : Nat) (hdims : Still (front r) dims) (hz : z = rowsTensor dims r.n x s (quantizedType r) bytes)
    (hx : x ≤ s) (hrow : s * r.bits = rowBytes * 8) (hinfo : info.sizes.prod = r.n * rowBytes) :
    NBitsNode.InBytes z info := by
  intro idx hidx
  rw [hz, sizes_rowsTensor (two_le_front r) hdims] at hidx
  obtain ⟨i, row, col, rfl⟩ := exists_append_pair (l := idx) (by
    rw [hidx.length_eq, List.length_append]
    simp)
  obtain ⟨hi, hlt, hcol⟩ := inBounds_append_pair.1 hidx
  have hbits : z.dataType.bits = r.bits := by
    rw [hz]
    exact bits_quantizedType r
  rw [hbits, hz, offset_rowsTensor (two_le_front r) hdims hi, hinfo]
  refine Nat.div_lt_of_lt_mul ?_
  have hpos : 0 < r.bits := by
    have := r.width
    omega
  calc (s * row + col) * r.bits < r.n * s * r.bits :=
        Nat.mul_lt_mul_of_pos_right (place_lt hlt hcol hx) hpos
    _ = 8 * (r.n * rowBytes) := by
        rw [Nat.mul_assoc, hrow]
        ring

theorem inBytes_weights (h : Tensors r weights scales a y zeroPoints) :
    NBitsNode.InBytes weights r.b := by
  obtain ⟨dims, bytes, hdims, hweights⟩ := h.weights
  obtain ⟨w, hw⟩ := r.wholeBytes
  refine inBytes_rowsTensor (r.blocks * w) hdims hweights le_rfl ?_ ?_
  · rw [← blocks_mul, Nat.mul_assoc, hw]
    ring
  · rw [r.sizesB, hw, Nat.mul_div_cancel_left _ (by decide), Nat.mul_assoc]
    rfl

theorem inBytes_zeroPoints {z info : DmlTensorInfo} (h : Tensors r weights scales a y (some z))
    (hinfo : r.zeroPoints = some info) : NBitsNode.InBytes z info := by
  obtain ⟨dims, bytes, hdims, hz⟩ := h.zeroTensor z rfl
  obtain ⟨name, hname, hshape⟩ := Option.bind_eq_some_iff.1 hinfo
  refine inBytes_rowsTensor _ hdims hz ?_ (zeroPointStride_bytes r).symm
    (r.sizesZeroPoints name info (Option.filter_eq_some_iff.1 hname).1 hshape)
  unfold zeroPointStride
  split <;> omega

theorem within_scales (h : Tensors r weights scales a y zeroPoints) {idx : List Nat}
    (hidx : InBounds idx scales.sizes) : scales.offset idx < r.scales.sizes.prod := by
  obtain ⟨dims, bytes, hdims, hscales⟩ := h.scales
  rw [hscales, sizes_rowsTensor (two_le_front r) hdims] at hidx
  obtain ⟨i, row, col, rfl⟩ := exists_append_pair (l := idx) (by
    rw [hidx.length_eq, List.length_append]
    simp)
  obtain ⟨hi, hlt, hcol⟩ := inBounds_append_pair.1 hidx
  rw [hscales, offset_rowsTensor (two_le_front r) hdims hi, r.sizesScales]
  exact place_lt hlt hcol le_rfl

/-! ## Zero points -/

theorem scaled_eq_weight (h : r.zeroPoints.isSome = true) (d : NBitsData) (row col : Nat) :
    scaled r d row col = r.weight d row col := by
  rw [scaled, if_pos h]
  rfl

/-- Weights that are all scaled by 1 come out too large when they have no zero points. -/
theorem not_correct_of_none (h : ¬ r.zeroPoints.isSome = true) : ¬ r.Correct := by
  rintro ⟨t, ht, hproduct, -⟩
  obtain ⟨weights, scales, a, y, zeroPoints, htensors, heq⟩ := translateNBits_eq r
  obtain rfl := Option.some.inj (heq.symm.trans ht)
  let d : NBitsData :=
    { a := fun _ => 1, b := fun _ => 0, scales := fun _ => 1, zeroPoints := fun _ => 0 }
  obtain ⟨⟨w, out, hrun⟩, hall⟩ := hproduct d
  have hzeros : InBounds (List.replicate r.batch.length 0 ++ [0, 0]) (r.batch ++ [r.rows, r.n]) :=
    inBounds_append_pair.2
      ⟨inBounds_replicate_zero r.positive.1, r.positive.2.1, r.positive.2.2.1⟩
  have hsum := (runsTo_scaled htensors hrun hzeros).symm.trans (hall w out hrun _ _ _ hzeros)
  have hdiff : ∀ j, (1 : ℝ) * scaled r d 0 j = 1 * r.weight d 0 j + 2 ^ (r.bits - 1) := by
    intro j
    rw [scaled, if_neg h, NBitsNode.weight, NBitsNode.zeroPoint, if_neg h]
    push_cast
    ring
  have hpow : (0 : ℝ) < r.k * 2 ^ (r.bits - 1) :=
    mul_pos (Nat.cast_pos.2 r.positive.2.2.2.1) (pow_pos two_pos _)
  simp only [d, hdiff, Finset.sum_add_distrib, Finset.sum_const, Finset.card_range,
    nsmul_eq_mul] at hsum
  exact (lt_add_of_pos_right _ hpow).ne' hsum

end

end QuantizedMatMulLemmas

/-! ## The exact condition -/

/-- One row of 32 weights of 4 bits in two blocks, without zero points. -/
def oneRow : NBitsNode where
  node :=
    { id := 0, opType := "MatMulNBits", domain := "com.microsoft",
      inputs := [some "a", some "b", some "scales"], outputs := [some "y"],
      attributes := [("K", .int 32), ("N", .int 1), ("bits", .int 4), ("block_size", .int 16)] }
  shapes := fun name =>
    if name = "a" then some { dataType := .float16, sizes := [1, 1, 1, 32] }
    else if name = "b" then some { dataType := .uint8, sizes := [1, 1, 2, 8] }
    else if name = "scales" then some { dataType := .float16, sizes := [1, 1, 1, 2] }
    else none
  initializers := fun _ => none
  batch := []
  rows := 1
  n := 1
  k := 32
  bits := 4
  blockSize := 16
  a := { dataType := .float16, sizes := [1, 1, 1, 32] }
  b := { dataType := .uint8, sizes := [1, 1, 2, 8] }
  scales := { dataType := .float16, sizes := [1, 1, 1, 2] }
  inputA := rfl
  inputB := rfl
  inputScales := rfl
  output := by decide
  attributeN := rfl
  attributeK := rfl
  attributeBits := rfl
  attributeBlockSize := rfl
  width := Or.inl rfl
  positive := by decide
  fits := by decide
  divides := by decide
  wholeBytes := by decide
  sizesA := rfl
  sizesB := rfl
  sizesScales := rfl
  sizesZeroPoints := by
    intro name info hname
    cases hname
  noMore := by
    rintro i (rfl | rfl)
    · rfl
    · rfl
  edge := by
    intro e he
    cases he

end AmdGpuEp.DirectML
