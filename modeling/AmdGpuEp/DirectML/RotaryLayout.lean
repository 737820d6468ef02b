import AmdGpuEp.DirectML.RotaryTranslator

/-!
# The tensors of a `RotaryEmbedding`

A node rotates the first elements of every head, two at a time. The local variables
of its translator are what the shapes say unless the hidden size of an input of four
dimensions wraps. With them the tensors of the chain are laid out as follows: a copy
of the rotated part has the heads of a token one after the other, and the tensors of
five dimensions address it in pairs; the others repeat the rows of the caches, the
signs and the positions.

Results:
1. `rotaryStorage_eq`: the local variables.
2. `partialStrided_offset`: the tensors in the layout of the input, whose strides must
   not wrap.
3. `data5d_offset`, `cosBroadcast_offset`, `signBroadcast_offset`: the tensors of the
   products.
-/

namespace AmdGpuEp.DirectML

/-! ## Nodes -/

/-- A node, and what is recorded of its tensors. The number of heads and the size of the rotated
part may be left to the translator when whole heads are rotated. -/
structure RotaryNode where
  node : Node
  shapes : ValueShapes
  initializers : String → Option Initializer
  batch : Nat
  seq : Nat
  heads : Nat
  headSize : Nat
  rotary : Nat
  rows : Nat
  fourD : Bool
  offset : Bool
  interleaved : Bool
  x : DmlTensorInfo
  pos : DmlTensorInfo
  cos : DmlTensorInfo
  sin : DmlTensorInfo
  inputX : lookupInput node shapes 0 = some x
  inputPos : lookupInput node shapes 1 = some pos
  inputCos : lookupInput node shapes 2 = some cos
  inputSin : lookupInput node shapes 3 = some sin
  output : getNodeOutputNames node ≠ []
  positive : 0 < batch ∧ 0 < seq ∧ 0 < heads ∧ 0 < rotary ∧ 0 < rows
  even : 2 ∣ rotary
  notAbove : rotary ≤ headSize
  fits : batch < 2 ^ 32 ∧ seq < 2 ^ 32 ∧ heads < 2 ^ 32 ∧ headSize < 2 ^ 32
  fitsHidden : fourD = false → heads * headSize < 2 ^ 32
  longEnough : offset = true → seq ≤ rows
  attributeHeads : getAttributeInt node "num_heads" 0 = heads ∨
    getAttributeInt node "num_heads" 0 = 0 ∧ rotary = headSize
  attributeRotary : getAttributeInt node "rotary_embedding_dim" 0 = rotary ∨
    getAttributeInt node "rotary_embedding_dim" 0 = 0 ∧ rotary = headSize
  attributeInterleaved : getAttributeInt node "interleaved" 0 = if interleaved then 1 else 0
  sizesX : x.sizes = padToMinDims
    (if fourD then [batch, heads, seq, headSize] else [batch, seq, heads * headSize]) 4
  rankX : x.originalRank = if fourD then 4 else 3
  sizesPos : pos.sizes = padToMinDims (if offset then [1] else [batch, seq]) 4
  rankPos : pos.originalRank = if offset then 1 else 2
  sizesCos : cos.sizes = padToMinDims [rows, rotary / 2] 4
  sizesSin : sin.sizes = padToMinDims [rows, rotary / 2] 4

/-- The buffers of the inputs. -/
structure RotaryData where
  x : Nat → ℝ
  positions : Nat → Nat
  cos : Nat → ℝ
  sin : Nat → ℝ

/-- The buffers in the order of the inputs. -/
def RotaryData.read (d : RotaryData) : Nat → Nat → ℝ
  | 0 => d.x
  | 1 => fun p => d.positions p
  | 2 => d.cos
  | _ => d.sin

namespace RotaryNode

variable (r : RotaryNode) (d : RotaryData)

/-- The pairs of a head. -/
def half : Nat :=
  r.rotary / 2

/-- The place of an element in the input and in the output. -/
def place (b t h e : Nat) : Nat :=
  if r.fourD then rowMajor [r.batch, r.heads, r.seq, r.headSize] [b, h, t, e]
  else rowMajor [r.batch, r.seq, r.heads * r.headSize] [b, t, h * r.headSize + e]

/-- The first or the second element of a pair. -/
def element (k q : Nat) : Nat :=
  if r.interleaved then 2 * k + q else q * r.half + k

/-- The position of a token. -/
def position (b t : Nat) : Nat :=
  if r.offset then d.positions 0 + t else d.positions (b * r.seq + t)

/-- The local variables of the translator, with the sizes that it may have computed. -/
def storage (numHeads headSize rotaryEmbeddingDim : Nat) : RotaryStorage where
  inInfo := r.x
  posInfo := r.pos
  cosInfo := r.cos
  sinInfo := r.sin
  inputIs4D := r.fourD
  positionIdsIsOffset := r.offset
  interleaved := r.interleaved
  batchSize := r.batch
  sequenceLength := r.seq
  numHeads := numHeads
  headSize := headSize
  rotaryEmbeddingDim := rotaryEmbeddingDim

end RotaryNode

namespace RotaryLemmas

/-! ## The local variables -/

section

variable (r : RotaryNode)

theorem two_mul_half : r.rotary = 2 * r.half :=
  (Nat.mul_div_cancel' r.even).symm

theorem half_pos : 0 < r.half := by
  have heven := two_mul_half r
  have hrotary := r.positive.2.2.2.1
  omega

theorem toUInt32_natCast {n : Nat} (h : n < 2 ^ 32) : toUInt32 n = n := by
  unfold toUInt32
  omega

theorem rank_x : r.x.rank = if r.fourD then 4 else 3 := by
  rw [DmlTensorInfo.rank, r.rankX]
  cases r.fourD <;> rfl

theorem rank_pos : r.pos.rank = if r.offset then 1 else 2 := by
  rw [DmlTensorInfo.rank, r.rankPos]
  cases r.offset <;> rfl

theorem cosLastDim : r.cos.sizes.getLastD 0 = r.half := by
  rw [r.sizesCos]
  rfl

/-- `hiddenSize`, which is computed when there are four dimensions. -/
def hiddenSize : Nat :=
  r.heads * r.headSize % 2 ^ 32

theorem hiddenSize_eq : (if r.fourD then r.x.dim 1 * r.x.dim 3 % 2 ^ 32 else r.x.sizes.getLastD 0) =
    hiddenSize r := by
  unfold DmlTensorInfo.dim hiddenSize
  rw [rank_x, r.sizesX]
  cases hfour : r.fourD
  · exact (Nat.mod_eq_of_lt (r.fitsHidden hfour)).symm
  · rfl

theorem sizes_x : r.x.dim 0 = r.batch ∧
    (if r.fourD then r.x.dim 2 else if r.x.rank = 3 then r.x.dim 1 else 1) = r.seq := by
  unfold DmlTensorInfo.dim
  rw [rank_x, r.sizesX]
  cases r.fourD <;> exact ⟨rfl, rfl⟩

/-- The local variables, from the two attributes. -/
theorem rotaryStorage_of_attributes {n m size : Nat}
    (hn : toUInt32 (getAttributeInt r.node "num_heads" 0) = n)
    (hm : toUInt32 (getAttributeInt r.node "rotary_embedding_dim" 0) = m)
    (hsize : (if n = 0 then r.half * 2 % 2 ^ 32 else hiddenSize r / n) = size) :
    rotaryStorage r.node r.x r.pos r.cos r.sin =
      r.storage (if n = 0 then hiddenSize r / size else n) size (if m = 0 then size else m) := by
  have hfour : (r.x.rank == 4) = r.fourD := by
    rw [rank_x]
    cases r.fourD <;> rfl
  have hoffset : (r.pos.rank == 1) = r.offset := by
    rw [rank_pos]
    cases r.offset <;> rfl
  have hinterleaved : (getAttributeInt r.node "interleaved" 0 != 0) = r.interleaved := by
    rw [r.attributeInterleaved]
    cases r.interleaved <;> rfl
  simp only [rotaryStorage, hfour, hoffset, hinterleaved, hiddenSize_eq, cosLastDim,
    (sizes_x r).1, (sizes_x r).2, hn, hm, hsize]
  rfl

/-- The attribute, or the size of the heads, is the size of the rotated part. -/
theorem rotary_attribute : ∃ m, toUInt32 (getAttributeInt r.node "rotary_embedding_dim" 0) = m ∧
    (if m = 0 then r.headSize else m) = r.rotary := by
  have hrotary := r.positive.2.2.2.1
  have hnotAbove := r.notAbove
  have hfits := r.fits.2.2.2
  rcases r.attributeRotary with hattr | ⟨hattr, hwhole⟩
  · rw [hattr]
    exact ⟨_, toUInt32_natCast (by omega), if_neg (by omega)⟩
  · rw [hattr]
    exact ⟨0, rfl, hwhole.symm⟩

/-- What the translator reads from the node. In four dimensions the hidden size may wrap. -/
theorem rotaryStorage_eq : ∃ heads headSize rotary,
    rotaryStorage r.node r.x r.pos r.cos r.sin = r.storage heads headSize rotary ∧
    (r.heads * r.headSize < 2 ^ 32 →
      heads = r.heads ∧ headSize = r.headSize ∧ rotary = r.rotary) ∧
    (2 ^ 32 ≤ r.heads * r.headSize → heads * headSize < r.heads * r.headSize) := by
  obtain ⟨-, -, hheads, hrotary, -⟩ := r.positive
  obtain ⟨-, -, hfitsHeads, hfitsSize⟩ := r.fits
  have hnotAbove := r.notAbove
  obtain ⟨m, hm, hrot⟩ := rotary_attribute r
  rcases r.attributeHeads with hattr | ⟨hattr, hwhole⟩
  · have hn : toUInt32 (getAttributeInt r.node "num_heads" 0) = r.heads := by
      rw [hattr]
      exact toUInt32_natCast hfitsHeads
    refine ⟨_, _, _, rotaryStorage_of_attributes r hn hm (if_neg hheads.ne'),
      fun hfits => ?_, fun hwraps => ?_⟩
    · have hsize : hiddenSize r / r.heads = r.headSize := by
        rw [hiddenSize, Nat.mod_eq_of_lt hfits, Nat.mul_div_cancel_left _ hheads]
      rw [if_neg hheads.ne', hsize]
      exact ⟨rfl, rfl, hrot⟩
    · rw [if_neg hheads.ne']
      calc r.heads * (hiddenSize r / r.heads)
        _ ≤ hiddenSize r := Nat.mul_div_le _ _
        _ < 2 ^ 32 := Nat.mod_lt _ (by decide)
        _ ≤ r.heads * r.headSize := hwraps
  · have hsize : r.half * 2 % 2 ^ 32 = r.headSize := by
      rw [Nat.mul_comm, ← two_mul_half, hwhole]
      exact Nat.mod_eq_of_lt hfitsSize
    have hn : toUInt32 (getAttributeInt r.node "num_heads" 0) = 0 := by
      rw [hattr]
      rfl
    refine ⟨_, _, _, rotaryStorage_of_attributes r hn hm ((if_pos rfl).trans hsize),
      fun hfits => ?_, fun hwraps => ?_⟩
    · rw [if_pos rfl, hiddenSize, Nat.mod_eq_of_lt hfits, Nat.mul_div_cancel _ (by omega)]
      exact ⟨rfl, rfl, hrot⟩
    · rw [if_pos rfl]
      calc hiddenSize r / r.headSize * r.headSize
        _ ≤ hiddenSize r := Nat.div_mul_le_self _ _
        _ < 2 ^ 32 := Nat.mod_lt _ (by decide)
        _ ≤ r.heads * r.headSize := hwraps

end

/-! ## Packed and repeated tensors -/

theorem packed_offset (x y z w : Nat) (dtype : DmlDataType) (idx : List Nat) :
    (makeTensorInfo [x, y, z, w] dtype).offset idx = rowMajor [x, y, z, w] idx := by
  rw [DmlTensorInfo.offset, BroadcastingLemmas.view_makeTensorInfo, address_packed]
  rfl

theorem inBounds_four {b t h e B T H E : Nat} :
    InBounds [b, t, h, e] [B, T, H, E] ↔ b < B ∧ t < T ∧ h < H ∧ e < E := by
  simp [InBounds]

theorem exists_four {idx : List Nat} {B T H E : Nat} (hidx : InBounds idx [B, T, H, E]) :
    ∃ b t h e, idx = [b, t, h, e] ∧ b < B ∧ t < T ∧ h < H ∧ e < E := by
  rcases hidx with _ | ⟨hb, _ | ⟨ht, _ | ⟨hh, _ | ⟨he, ⟨⟩⟩⟩⟩⟩
  exact ⟨_, _, _, _, rfl, hb, ht, hh, he⟩

/-- Repeated strides address what the strides of `actual` do, at the index that is repeated. -/
theorem address_expandDim {actual target idx : List Nat}
    (hfits : List.Forall₂ (fun d e => d = e ∨ d = 1) actual target) (hidx : InBounds idx target) :
    address (List.zipWith (expandDim false) (packedDims actual) target) idx =
      address (packedDims actual) (restrict actual idx) := by
  induction hfits generalizing idx with
  | nil => rfl
  | @cons size out actual target hsize hrest ih =>
    cases hidx with
    | @cons i _ idx _ hi hidx =>
      have hstep : (expandDim false ⟨size, actual.prod % 2 ^ 32⟩ out).stride * i =
          actual.prod % 2 ^ 32 * if size = 1 then 0 else i := by
        rw [BroadcastingLemmas.expandDim_eq false hsize (by omega)]
        by_cases hone : size = 1
        · by_cases hlarge : 1 < out
          · simp [hone, hlarge]
          · obtain rfl : i = 0 := by omega
            simp
        · simp [hone]
      rw [BroadcastingLemmas.packedDims_cons, List.zipWith_cons_cons, restrict_cons, address,
        address, hstep, ih hidx]

theorem pos_of_inBounds {idx sizes : List Nat} (h : InBounds idx sizes) : ∀ e ∈ sizes, 0 < e := by
  induction h with
  | nil => simp
  | cons hlt _ ih => exact List.forall_mem_cons.2 ⟨Nat.zero_lt_of_lt hlt, ih⟩

/-- A tensor of the sizes `target` whose strides repeat one of the sizes `actual`. -/
theorem repeated_offset {actual target idx : List Nat} {dtype : DmlDataType} {bytes : Nat}
    (hfits : List.Forall₂ (fun d e => d = e ∨ d = 1) actual target) (hlen : 4 ≤ target.length)
    (hidx : InBounds idx target) :
    (makeTensorInfoWithStrides target (repeatStrides actual target) dtype bytes).offset idx =
      address (packedDims actual) (restrict actual idx) := by
  have hlenActual := hfits.length_eq
  have hpad : padToMinDims target 4 = target := by
    rw [padToMinDims, Nat.sub_eq_zero_of_le hlen]
    rfl
  have hview : (makeTensorInfoWithStrides target (repeatStrides actual target) dtype bytes).view =
      List.zipWith (expandDim false) (packedDims actual) target := by
    refine BroadcastingLemmas.view_of_dims ?_ ?_ ?_
    · intro hnil
      have hlength := congrArg List.length hnil
      rw [List.length_zipWith, BroadcastingLemmas.length_packedDims, List.length_nil] at hlength
      omega
    · rw [BroadcastingLemmas.sizes_expandDim false hfits (pos_of_inBounds hidx)]
      exact hpad
    · have hstrides : (repeatStrides actual target).length = target.length := by
        rw [repeatStrides, List.length_zipWith, BroadcastingLemmas.length_packedDims, hlenActual,
          Nat.min_self]
      show List.replicate ((padToMinDims target 4).length - _) 0 ++ _ = _
      rw [hpad, hstrides, Nat.sub_self, List.replicate_zero, List.nil_append, List.map_zipWith]
      rfl
  rw [DmlTensorInfo.offset, hview, address_expandDim hfits hidx]

theorem restrict_of_lt {i n : Nat} (h : i < n) : (if n = 1 then 0 else i) = i := by
  split
  · omega
  · rfl

theorem address_nil : address (packedDims []) (restrict [] []) = 0 :=
  rfl

/-! ## The layout of the input -/

section

variable (r : RotaryNode)

/-- The local variables of the translator, when nothing wraps. -/
abbrev exactStorage : RotaryStorage :=
  r.storage r.heads r.headSize r.rotary

/-- The sizes of the input, with heads of another size. -/
def ioSizes (size : Nat) : List Nat :=
  if r.fourD then [r.batch, r.heads, r.seq, size] else [r.batch, r.seq, r.heads, size]

def ioIndex (b t h e : Nat) : List Nat :=
  if r.fourD then [b, h, t, e] else [b, t, h, e]

theorem place_eq (b t h e : Nat) :
    r.place b t h e = rowMajor (ioSizes r r.headSize) (ioIndex r b t h e) := by
  unfold RotaryNode.place ioSizes ioIndex
  cases r.fourD
  · simp only [Bool.false_eq_true, ↓reduceIte, rowMajor, List.prod_cons, List.prod_nil]
    ring
  · rfl

theorem inBounds_ioIndex {b t h e size : Nat} :
    InBounds (ioIndex r b t h e) (ioSizes r size) ↔
      b < r.batch ∧ t < r.seq ∧ h < r.heads ∧ e < size := by
  unfold ioIndex ioSizes
  cases r.fourD
  · exact inBounds_four
  · refine inBounds_four.trans ?_
    tauto

/-- The strides of the tensors in the layout of the input do not wrap. -/
def LayoutFits (r : RotaryNode) : Prop :=
  r.fourD = true → (1 < r.batch → r.rotary * r.heads * r.seq < 2 ^ 32) ∧
    (1 < r.heads → r.seq * r.rotary < 2 ^ 32)

end

section

variable {r : RotaryNode} {b t h e : Nat}

theorem ioIndex_set (e' : Nat) : (ioIndex r b t h e).set 3 e' = ioIndex r b t h e' := by
  unfold ioIndex
  split <;> rfl

theorem ioIndex_getD : (ioIndex r b t h e).getD 3 0 = e := by
  unfold ioIndex
  split <;> rfl

theorem ioSizes_getD (size : Nat) : (ioSizes r size).getD 3 0 = size := by
  unfold ioSizes
  split <;> rfl

theorem sizes_io (size : Nat) (dtype : DmlDataType) :
    (makeTensorInfo (ioSizes r size) dtype).sizes = ioSizes r size := by
  unfold ioSizes
  split <;> rfl

theorem io_offset (size : Nat) (dtype : DmlDataType) (b t h e : Nat) :
    (makeTensorInfo (ioSizes r size) dtype).offset (ioIndex r b t h e) =
      rowMajor (ioSizes r size) (ioIndex r b t h e) := by
  rw [DmlTensorInfo.offset, BroadcastingLemmas.view_makeTensorInfo, address_packed]
  unfold ioSizes
  split <;> rfl

theorem partialStrided_sizes : (exactStorage r).partialStrided.sizes =
    [r.batch, r.seq, r.heads, r.rotary] := by
  unfold RotaryStorage.partialStrided
  split <;> rfl

theorem partialStrided_offset (hfits : LayoutFits r)
    (hidx : b < r.batch ∧ t < r.seq ∧ h < r.heads ∧ e < r.rotary) :
    (exactStorage r).partialStrided.offset [b, t, h, e] =
      rowMajor (ioSizes r r.rotary) (ioIndex r b t h e) := by
  have hfour : (exactStorage r).inputIs4D = r.fourD := rfl
  unfold RotaryStorage.partialStrided ioSizes ioIndex
  rw [hfour]
  cases hcase : r.fourD
  · rfl
  · obtain ⟨hbatch, hheads⟩ := hfits hcase
    have hb : r.rotary * r.heads * r.seq % 2 ^ 32 * b = r.rotary * r.heads * r.seq * b := by
      rcases Nat.lt_or_ge 1 r.batch with hlt | hle
      · rw [Nat.mod_eq_of_lt (hbatch hlt)]
      · obtain rfl : b = 0 := by omega
        rfl
    have hh : r.seq * r.rotary % 2 ^ 32 * h = r.seq * r.rotary * h := by
      rcases Nat.lt_or_ge 1 r.heads with hlt | hle
      · rw [Nat.mod_eq_of_lt (hheads hlt)]
      · obtain rfl : h = 0 := by omega
        rfl
    show r.rotary * r.heads * r.seq % 2 ^ 32 * b + (r.rotary * t +
      (r.seq * r.rotary % 2 ^ 32 * h + (1 * e + 0))) = _
    rw [hb, hh]
    simp only [↓reduceIte, rowMajor, List.prod_cons, List.prod_nil]
    ring

theorem splitIn1_eq : (exactStorage r).splitIn1 =
    makeTensorInfo (ioSizes r r.rotary) r.x.dataType := by
  unfold RotaryStorage.splitIn1 RotaryStorage.inputOutputShape ioSizes
  have hfour : (exactStorage r).inputIs4D = r.fourD := rfl
  rw [hfour]
  cases r.fourD <;> rfl

theorem splitIn2_eq : (exactStorage r).splitIn2 =
    makeTensorInfo (ioSizes r (r.headSize - r.rotary)) r.x.dataType := by
  unfold RotaryStorage.splitIn2 RotaryStorage.inputOutputShape ioSizes
  have hfour : (exactStorage r).inputIs4D = r.fourD := rfl
  have hrest : toUInt32 ((r.headSize : Int) - (r.rotary : Int)) = r.headSize - r.rotary := by
    have hnotAbove := r.notAbove
    have hfits := r.fits.2.2.2
    unfold toUInt32
    omega
  show makeTensorInfo (List.set _ 3 (toUInt32 ((r.headSize : Int) - (r.rotary : Int)))) _ = _
  rw [hfour, hrest]
  cases r.fourD <;> rfl

theorem fullInOut_eq : (exactStorage r).fullInOut =
    makeTensorInfo (ioSizes r r.headSize) r.x.dataType := by
  unfold RotaryStorage.fullInOut RotaryStorage.inputOutputShape ioSizes
  have hfour : (exactStorage r).inputIs4D = r.fourD := rfl
  rw [hfour]
  cases r.fourD <;> rfl

theorem fullInOut_offset :
    (exactStorage r).fullInOut.offset (ioIndex r b t h e) = r.place b t h e := by
  rw [fullInOut_eq, io_offset, place_eq]

theorem partialRotary_eq : (exactStorage r).partialRotary = (r.headSize != r.rotary) :=
  rfl

end

/-! ## Pairs -/

section

variable {r : RotaryNode} {b t h k q : Nat}

/-- The place of an element of the rotated part in the copy of the input. -/
def copyPlace (r : RotaryNode) (b t h e : Nat) : Nat :=
  rowMajor [r.batch, r.seq, r.heads, r.rotary] [b, t, h, e]

/-- An index of the 5D tensors. -/
def pairIndex (r : RotaryNode) (b t h k q : Nat) : List Nat :=
  [b, t, h] ++ (exactStorage r).pairDims k q

theorem inBounds_pairIndex {B T H K Q : Nat} :
    InBounds (pairIndex r b t h k q) ([B, T, H] ++ (exactStorage r).pairDims K Q) ↔
      b < B ∧ t < T ∧ h < H ∧ k < K ∧ q < Q := by
  unfold pairIndex RotaryStorage.pairDims
  cases (exactStorage r).interleaved
  · simp [InBounds, and_comm]
  · simp [InBounds]

theorem pairIndex_set (q' : Nat) :
    (pairIndex r b t h k q).set (exactStorage r).splitAxis q' = pairIndex r b t h k q' := by
  unfold pairIndex RotaryStorage.pairDims RotaryStorage.splitAxis
  split <;> rfl

theorem pairSizes_getD (x y z K Q : Nat) :
    ([x, y, z] ++ (exactStorage r).pairDims K Q).getD (exactStorage r).splitAxis 0 = Q := by
  unfold RotaryStorage.pairDims RotaryStorage.splitAxis
  split <;> rfl

theorem sizes_pairs (x y z K Q : Nat) (dtype : DmlDataType) :
    (makeTensorInfo ([x, y, z] ++ (exactStorage r).pairDims K Q) dtype).sizes =
      [x, y, z] ++ (exactStorage r).pairDims K Q := by
  unfold RotaryStorage.pairDims
  split <;> rfl

theorem splitHalfOut_sizes : (exactStorage r).splitHalfOut.sizes =
    [r.batch, r.seq, r.heads] ++ (exactStorage r).pairDims r.half 1 :=
  sizes_pairs _ _ _ _ _ _

theorem data5d_sizes : (exactStorage r).data5d.sizes =
    [r.batch, r.seq, r.heads] ++ (exactStorage r).pairDims r.half 2 :=
  sizes_pairs _ _ _ _ _ _

theorem two_cases {p : Nat → Prop} (h0 : p 0) (h1 : p 1) {q : Nat} (hq : q < 2) : p q := by
  obtain rfl | rfl : q = 0 ∨ q = 1 := by omega
  · exact h0
  · exact h1

theorem element_lt (hk : k < r.half) (hq : q < 2) : r.element k q < r.rotary := by
  have heven := two_mul_half r
  have hle : q * r.half ≤ 1 * r.half := Nat.mul_le_mul_right _ (by omega)
  unfold RotaryNode.element
  split <;> omega

theorem exists_element (he : e < r.rotary) : ∃ k q, k < r.half ∧ q < 2 ∧ r.element k q = e := by
  have heven := two_mul_half r
  have hhalf := half_pos r
  cases hinter : r.interleaved
  · refine ⟨e % r.half, e / r.half, Nat.mod_lt _ hhalf, ?_, ?_⟩
    · exact Nat.div_lt_of_lt_mul (by omega)
    · rw [RotaryNode.element, hinter]
      exact Nat.div_add_mod' e r.half
  · refine ⟨e / 2, e % 2, by omega, Nat.mod_lt _ (by decide), ?_⟩
    rw [RotaryNode.element, hinter]
    exact Nat.div_add_mod e 2

theorem data5d_offset : (exactStorage r).data5d.offset (pairIndex r b t h k q) =
    copyPlace r b t h (r.element k q) := by
  have hhalf : (exactStorage r).halfRotaryDim = r.half := rfl
  have heven := two_mul_half r
  unfold pairIndex copyPlace RotaryNode.element DmlTensorInfo.offset RotaryStorage.data5d
    RotaryStorage.data5dShape RotaryStorage.pairDims
  rw [BroadcastingLemmas.view_makeTensorInfo, address_packed, hhalf, heven]
  cases hinter : r.interleaved
  · rw [show (exactStorage r).interleaved = false from hinter]
    simp [padToMinDims, rowMajor, RotaryNode.storage]
    ring
  · rw [show (exactStorage r).interleaved = true from hinter]
    simp [padToMinDims, rowMajor, RotaryNode.storage]
    ring

end

/-! ## Rows, signs and positions -/

section

variable {r : RotaryNode} {b t h k q : Nat}

theorem pairs_fit {actual target : List Nat} {K Q K' Q' : Nat}
    (h : List.Forall₂ (fun d e => d = e ∨ d = 1) actual target) (hK : K = K' ∨ K = 1)
    (hQ : Q = Q' ∨ Q = 1) :
    List.Forall₂ (fun d e => d = e ∨ d = 1) (actual ++ (exactStorage r).pairDims K Q)
      (target ++ (exactStorage r).pairDims K' Q') := by
  refine List.rel_append h ?_
  unfold RotaryStorage.pairDims
  split
  · exact .cons hK (.cons hQ .nil)
  · exact .cons hQ (.cons hK .nil)

theorem four_le_pairDims (x y z K Q : Nat) :
    4 ≤ ([x, y, z] ++ (exactStorage r).pairDims K Q).length := by
  unfold RotaryStorage.pairDims
  split <;> simp

theorem half_lt : r.half < 2 ^ 32 := by
  have heven := two_mul_half r
  have hnotAbove := r.notAbove
  have hfits := r.fits.2.2.2
  omega

theorem cosBroadcast_fits : List.Forall₂ (fun d e => d = e ∨ d = 1)
    ([r.batch, r.seq, 1] ++ (exactStorage r).pairDims r.half 1) (exactStorage r).data5dShape :=
  pairs_fit (.cons (Or.inl rfl) (.cons (Or.inl rfl) (.cons (Or.inr rfl) .nil))) (Or.inl rfl)
    (Or.inr rfl)

theorem data5dShape_pos : ∀ e ∈ (exactStorage r).data5dShape, 0 < e := by
  obtain ⟨hbatch, hseq, hheads, -⟩ := r.positive
  have hhalf := half_pos r
  unfold RotaryStorage.data5dShape RotaryStorage.pairDims
  have heq : (exactStorage r).halfRotaryDim = r.half := rfl
  rw [heq]
  split <;> simp [RotaryNode.storage, hbatch, hseq, hheads, hhalf]

theorem cosBroadcast_eq : (exactStorage r).cosBroadcast =
    makeTensorInfoWithStrides (exactStorage r).data5dShape
      (repeatStrides ([r.batch, r.seq, 1] ++ (exactStorage r).pairDims r.half 1)
        (exactStorage r).data5dShape) r.x.dataType
      (computeAlignedTotalBytes (exactStorage r).gatheredShape r.x.dataType) := by
  unfold RotaryStorage.cosBroadcast
  have hsizes := BroadcastingLemmas.sizes_expandDim false (cosBroadcast_fits (r := r))
    data5dShape_pos
  rw [List.map_zipWith] at hsizes
  exact congrArg (fun sizes => makeTensorInfoWithStrides sizes _ _ _) hsizes

theorem cosBroadcast_offset
    (hidx : b < r.batch ∧ t < r.seq ∧ h < r.heads ∧ k < r.half ∧ q < 2) :
    (exactStorage r).cosBroadcast.offset (pairIndex r b t h k q) =
      r.seq * r.half % 2 ^ 32 * b + r.half * t + k := by
  rw [cosBroadcast_eq, repeated_offset cosBroadcast_fits (four_le_pairDims _ _ _ _ _)
    (inBounds_pairIndex.2 hidx)]
  have hhalf : r.half % 2 ^ 32 = r.half := Nat.mod_eq_of_lt half_lt
  unfold pairIndex RotaryStorage.pairDims
  split
  · simp only [List.cons_append, List.nil_append, BroadcastingLemmas.packedDims_cons,
      restrict_cons, address, List.prod_cons, List.prod_nil, restrict_of_lt hidx.1,
      restrict_of_lt hidx.2.1, restrict_of_lt hidx.2.2.2.1, Nat.mul_one, Nat.one_mul, hhalf]
    simp [address_nil]
    ring
  · simp only [List.cons_append, List.nil_append, BroadcastingLemmas.packedDims_cons,
      restrict_cons, address, List.prod_cons, List.prod_nil, restrict_of_lt hidx.1,
      restrict_of_lt hidx.2.1, restrict_of_lt hidx.2.2.2.1, Nat.mul_one, Nat.one_mul, hhalf]
    simp [address_nil]
    ring

theorem signBroadcast_offset
    (hidx : b < r.batch ∧ t < r.seq ∧ h < r.heads ∧ k < r.half ∧ q < 2) :
    (exactStorage r).signBroadcast.offset (pairIndex r b t h k q) = q := by
  have hfits : List.Forall₂ (fun d e => d = e ∨ d = 1)
      ([1, 1, 1] ++ (exactStorage r).pairDims 1 2) (exactStorage r).data5dShape :=
    pairs_fit (.cons (Or.inr rfl) (.cons (Or.inr rfl) (.cons (Or.inr rfl) .nil))) (Or.inr rfl)
      (Or.inl rfl)
  rw [RotaryStorage.signBroadcast, repeated_offset hfits (four_le_pairDims _ _ _ _ _)
    (inBounds_pairIndex.2 hidx)]
  unfold pairIndex RotaryStorage.pairDims
  split <;>
    simp [BroadcastingLemmas.packedDims_cons, address, address_nil]

theorem posRange_offset (hidx : b < r.batch ∧ t < r.seq) :
    (exactStorage r).posRangeBroadcast.offset [0, 0, b, t] = t := by
  have hfits : List.Forall₂ (fun d e => d = e ∨ d = 1) [1, 1, 1, r.seq] [1, 1, r.batch, r.seq] :=
    .cons (Or.inl rfl) (.cons (Or.inl rfl) (.cons (Or.inr rfl) (.cons (Or.inl rfl) .nil)))
  have hrepeated : (exactStorage r).posRangeBroadcast.offset [0, 0, b, t] =
      address (packedDims [1, 1, 1, r.seq]) (restrict [1, 1, 1, r.seq] [0, 0, b, t]) :=
    repeated_offset hfits le_rfl (inBounds_four.2 ⟨Nat.one_pos, Nat.one_pos, hidx.1, hidx.2⟩)
  refine hrepeated.trans ?_
  simp [BroadcastingLemmas.packedDims_cons, address, address_nil, restrict_of_lt hidx.2]

theorem posBroadcast_offset (hoffset : r.offset = true) (hidx : b < r.batch ∧ t < r.seq) :
    (exactStorage r).posBroadcast.offset [0, 0, b, t] = 0 := by
  have hfits : List.Forall₂ (fun d e => d = e ∨ d = 1) [1, 1, 1, 1] [1, 1, r.batch, r.seq] :=
    .cons (Or.inl rfl) (.cons (Or.inl rfl) (.cons (Or.inr rfl) (.cons (Or.inr rfl) .nil)))
  have hsizes : padToMinDims r.pos.sizes 4 = [1, 1, 1, 1] := by
    rw [r.sizesPos, hoffset]
    rfl
  have hactual : (exactStorage r).posBroadcast = makeTensorInfoWithStrides [1, 1, r.batch, r.seq]
      (repeatStrides (padToMinDims r.pos.sizes 4) [1, 1, r.batch, r.seq]) (exactStorage r).posDtype
      (r.pos.bytes (exactStorage r).posDtype) := rfl
  rw [hactual, hsizes, repeated_offset hfits le_rfl
    (inBounds_four.2 ⟨Nat.one_pos, Nat.one_pos, hidx.1, hidx.2⟩)]
  simp [BroadcastingLemmas.packedDims_cons, address, address_nil]

theorem token_place : rowMajor [1, 1, r.batch, r.seq] [0, 0, b, t] = r.seq * b + t := by
  simp [rowMajor]

end

end RotaryLemmas

end AmdGpuEp.DirectML
