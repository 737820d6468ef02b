import AmdGpuEp.DirectML.OperatorChains
import AmdGpuEp.DirectML.PackedTranslators

/-!
# The translation of `RotaryEmbedding`

`TranslateRotaryEmbedding` has no operator of its own to translate to. It builds a
chain of nine sub-nodes over one buffer, which they describe with four or with five
dimensions; there are two more when the positions are given by one offset, and two
more when only a part of each head is rotated.

Results:
1. `subNodes_wiring`: the sub-nodes are wired as the packing of the node says.
2. `subNodes_wired`: they read those in front of them.
3. `getElem?_behind`: the sub-nodes behind the positions, in every chain.
4. `packed_outputs`: only one of them writes a tensor with strides.
-/

namespace AmdGpuEp.DirectML

/-! ## The tensors -/

/-- The local variables that the descriptions are made from. -/
structure RotaryStorage where
  inInfo : DmlTensorInfo
  posInfo : DmlTensorInfo
  cosInfo : DmlTensorInfo
  sinInfo : DmlTensorInfo
  inputIs4D : Bool
  positionIdsIsOffset : Bool
  interleaved : Bool
  batchSize : Nat
  sequenceLength : Nat
  numHeads : Nat
  headSize : Nat
  rotaryEmbeddingDim : Nat
  deriving DecidableEq

/-- The strides of `actual`, which are 0 where it is repeated to the sizes of `target`. -/
def repeatStrides (actual target : List Nat) : List Nat :=
  List.zipWith (fun d out => (expandDim false d out).stride) (packedDims actual) target

/-- `total_bytes`, or what the sizes need when it is not known. -/
def DmlTensorInfo.bytes (info : DmlTensorInfo) (dtype : DmlDataType) : Nat :=
  if info.totalBytes = 0 then computeAlignedTotalBytes info.sizes dtype else info.totalBytes

namespace RotaryStorage

variable (s : RotaryStorage)

def halfRotaryDim : Nat :=
  s.rotaryEmbeddingDim / 2

def partialRotary : Bool :=
  s.headSize != s.rotaryEmbeddingDim

def dataDtype : DmlDataType :=
  s.inInfo.dataType

def inputOutputShape : List Nat :=
  if s.inputIs4D then [s.batchSize, s.numHeads, s.sequenceLength, s.headSize]
  else [s.batchSize, s.sequenceLength, s.numHeads, s.headSize]

def partialShape : List Nat :=
  [s.batchSize, s.sequenceLength, s.numHeads, s.rotaryEmbeddingDim]

/-- `partial_in_strided` and `partial_out_strided`. -/
def partialStrided : DmlTensorInfo :=
  if s.inputIs4D then
    makeTensorInfoWithStrides s.partialShape
      [s.rotaryEmbeddingDim * s.numHeads * s.sequenceLength % 2 ^ 32, s.rotaryEmbeddingDim,
        s.sequenceLength * s.rotaryEmbeddingDim % 2 ^ 32, 1]
      s.dataDtype (s.inInfo.bytes s.dataDtype)
  else makeTensorInfo s.partialShape s.dataDtype

def partialInPacked : DmlTensorInfo :=
  makeTensorInfo s.partialShape s.dataDtype

/-- The last two dimensions of the 5D shapes: the halves of a head, or its pairs. -/
def pairDims (half pair : Nat) : List Nat :=
  if s.interleaved then [half, pair] else [pair, half]

def splitAxis : Nat :=
  if s.interleaved then 4 else 3

def data5dShape : List Nat :=
  [s.batchSize, s.sequenceLength, s.numHeads] ++ s.pairDims s.halfRotaryDim 2

def data5d : DmlTensorInfo :=
  makeTensorInfo s.data5dShape s.dataDtype

def splitHalfOut : DmlTensorInfo :=
  makeTensorInfo
    ([s.batchSize, s.sequenceLength, s.numHeads] ++ s.pairDims s.halfRotaryDim 1) s.dataDtype

def gatheredShape : List Nat :=
  [1, s.batchSize, s.sequenceLength, s.halfRotaryDim]

def gatheredCosSin : DmlTensorInfo :=
  makeTensorInfo s.gatheredShape s.dataDtype

/-- `cos_broadcast` and `sin_broadcast`. -/
def cosBroadcast : DmlTensorInfo :=
  let actual := [s.batchSize, s.sequenceLength, 1] ++ s.pairDims s.halfRotaryDim 1
  makeTensorInfoWithStrides
    (List.zipWith (fun d out => (expandDim false d out).size) (packedDims actual) s.data5dShape)
    (repeatStrides actual s.data5dShape) s.dataDtype
    (computeAlignedTotalBytes s.gatheredShape s.dataDtype)

def sign : DmlTensorInfo :=
  makeTensorInfo [2] s.dataDtype

def signBroadcast : DmlTensorInfo :=
  makeTensorInfoWithStrides s.data5dShape
    (repeatStrides ([1, 1, 1] ++ s.pairDims 1 2) s.data5dShape) s.dataDtype
    (computeAlignedTotalBytes [2] s.dataDtype)

def posDtype : DmlDataType :=
  s.posInfo.dataType

def posOffset : DmlTensorInfo :=
  makeTensorInfo [1, 1, s.batchSize, s.sequenceLength] s.posDtype

def posBroadcast : DmlTensorInfo :=
  makeTensorInfoWithStrides [1, 1, s.batchSize, s.sequenceLength]
    (repeatStrides (padToMinDims s.posInfo.sizes 4) [1, 1, s.batchSize, s.sequenceLength])
    s.posDtype (s.posInfo.bytes s.posDtype)

def posRangeBroadcast : DmlTensorInfo :=
  makeTensorInfoWithStrides [1, 1, s.batchSize, s.sequenceLength]
    (repeatStrides [1, 1, 1, s.sequenceLength] [1, 1, s.batchSize, s.sequenceLength])
    s.posDtype (computeAlignedTotalBytes [1, 1, 1, s.sequenceLength] s.posDtype)

def fullInOut : DmlTensorInfo :=
  makeTensorInfo s.inputOutputShape s.dataDtype

def splitIn1 : DmlTensorInfo :=
  makeTensorInfo (s.inputOutputShape.set 3 s.rotaryEmbeddingDim) s.dataDtype

/-- The rest of the heads, whose size is computed in 32 bits. -/
def splitIn2 : DmlTensorInfo :=
  makeTensorInfo
    (s.inputOutputShape.set 3 (toUInt32 (s.headSize - s.rotaryEmbeddingDim : Int))) s.dataDtype

/-! ## The sub-nodes

Their places in the list come first. -/

def copyInputIdx : Nat :=
  if s.partialRotary then 1 else 0

def splitHalfIdx : Nat :=
  s.copyInputIdx + 1

def posRangeIdx : Nat :=
  s.copyInputIdx + 2

def posAddOffsetIdx : Nat :=
  s.copyInputIdx + 3

def gatherCosIdx : Nat :=
  if s.positionIdsIsOffset then s.copyInputIdx + 4 else s.copyInputIdx + 2

/-- The sub-node that gathers the rows of a cache. -/
def gatherCache (cacheInfo : DmlTensorInfo) (cacheIdx : Nat) : SubNode DmlOperatorDesc where
  opDesc :=
    { op := .gather 2 2
      inputs :=
        [makeTensorInfo cacheInfo.sizes s.dataDtype,
          if s.positionIdsIsOffset then s.posOffset
          else makeTensorInfo s.posInfo.sizes s.posInfo.dataType]
      outputs := [s.gatheredCosSin] }
  inputFrom := if s.positionIdsIsOffset then [(-2, 0), (s.posAddOffsetIdx, 0)] else []
  graphInputs := if s.positionIdsIsOffset then [(cacheIdx, 0)] else [(cacheIdx, 0), (1, 1)]

def splitInput : SubNode DmlOperatorDesc where
  opDesc := { op := .split 3, inputs := [s.fullInOut], outputs := [s.splitIn1, s.splitIn2] }
  graphInputs := [(0, 0)]

def copyInput : SubNode DmlOperatorDesc where
  opDesc :=
    { op := .identity (some (1, 0)), inputs := [s.partialStrided], outputs := [s.partialInPacked] }
  inputFrom := if s.partialRotary then [(0, 0)] else []
  graphInputs := if s.partialRotary then [] else [(0, 0)]

def splitHalf : SubNode DmlOperatorDesc where
  opDesc :=
    { op := .split s.splitAxis, inputs := [s.data5d], outputs := [s.splitHalfOut, s.splitHalfOut] }
  inputFrom := [(s.copyInputIdx, 0)]

def posRange : SubNode DmlOperatorDesc where
  opDesc :=
    { op := .fillValueSequence .int64 0 1, inputs := []
      outputs := [makeTensorInfo [1, 1, 1, s.sequenceLength] s.posDtype] }

def posAddOffset : SubNode DmlOperatorDesc where
  opDesc :=
    { op := .add, inputs := [s.posRangeBroadcast, s.posBroadcast], outputs := [s.posOffset] }
  inputFrom := [(s.posRangeIdx, 0)]
  graphInputs := [(1, 1)]

def signRange : SubNode DmlOperatorDesc where
  opDesc :=
    { op := .fillValueSequence (if s.dataDtype = .float16 then .float16 else .float32) (-1) 2
      inputs := [], outputs := [s.sign] }

/-- The halves in the other order. -/
def joinSwap : SubNode DmlOperatorDesc where
  opDesc :=
    { op := .join s.splitAxis, inputs := [s.splitHalfOut, s.splitHalfOut], outputs := [s.data5d] }
  inputFrom := [(s.splitHalfIdx, 1), (s.splitHalfIdx, 0)]

/-- `MulCos`, `MulSin` and `MulSign`: `joined_data` and `mul_result` are described as `data_5d`. -/
def mul (second : DmlTensorInfo) (first other : Nat) : SubNode DmlOperatorDesc where
  opDesc := { op := .multiply, inputs := [s.data5d, second], outputs := [s.data5d] }
  inputFrom := [(first, 0), (other, 0)]

def add : SubNode DmlOperatorDesc where
  opDesc :=
    { op := .add, inputs := [s.partialInPacked, s.partialInPacked], outputs := [s.partialStrided] }
  inputFrom := [((s.gatherCosIdx + 4 : Nat), 0), ((s.gatherCosIdx + 6 : Nat), 0)]

def joinOutput : SubNode DmlOperatorDesc where
  opDesc := { op := .join 3, inputs := [s.splitIn1, s.splitIn2], outputs := [s.fullInOut] }
  inputFrom := [((s.gatherCosIdx + 7 : Nat), 0), (0, 1)]

def subNodes : List (SubNode DmlOperatorDesc) :=
  (if s.partialRotary then [s.splitInput] else []) ++ [s.copyInput, s.splitHalf] ++
    (if s.positionIdsIsOffset then [s.posRange, s.posAddOffset] else []) ++
    [s.gatherCache s.cosInfo 2, s.gatherCache s.sinInfo 3, s.signRange, s.joinSwap,
      s.mul s.cosBroadcast s.copyInputIdx s.gatherCosIdx,
      s.mul s.cosBroadcast (s.gatherCosIdx + 3) (s.gatherCosIdx + 1),
      s.mul s.signBroadcast (s.gatherCosIdx + 5) (s.gatherCosIdx + 2), s.add] ++
    if s.partialRotary then [s.joinOutput] else []

end RotaryStorage

/-! ## The translator -/

/-- What the translator reads from its node. A division by a head size of 0 is not modelled. -/
def rotaryStorage (node : Node) (inInfo posInfo cosInfo sinInfo : DmlTensorInfo) :
    RotaryStorage :=
  let numHeads := toUInt32 (getAttributeInt node "num_heads" 0)
  let rotaryEmbeddingDim := toUInt32 (getAttributeInt node "rotary_embedding_dim" 0)
  let inputIs4D := inInfo.rank == 4
  let hiddenSize :=
    if inputIs4D then inInfo.dim 1 * inInfo.dim 3 % 2 ^ 32 else inInfo.sizes.getLastD 0
  let headSize :=
    if numHeads = 0 then cosInfo.sizes.getLastD 0 * 2 % 2 ^ 32 else hiddenSize / numHeads
  { inInfo, posInfo, cosInfo, sinInfo, inputIs4D, headSize
    positionIdsIsOffset := posInfo.rank == 1
    interleaved := getAttributeInt node "interleaved" 0 != 0
    batchSize := inInfo.dim 0
    sequenceLength :=
      if inputIs4D then inInfo.dim 2 else if inInfo.rank = 3 then inInfo.dim 1 else 1
    numHeads := if numHeads = 0 then hiddenSize / headSize else numHeads
    rotaryEmbeddingDim := if rotaryEmbeddingDim = 0 then headSize else rotaryEmbeddingDim }

/-- `TranslateRotaryEmbedding`. -/
def translateRotaryEmbedding : OpTranslator DmlOperatorDesc := fun node shapes _ =>
  match lookupInput node shapes 0, lookupInput node shapes 1, lookupInput node shapes 2,
    lookupInput node shapes 3 with
  | some inInfo, some posInfo, some cosInfo, some sinInfo =>
    if (getNodeOutputNames node).isEmpty then none
    else
      let s := rotaryStorage node inInfo posInfo cosInfo sinInfo
      let outTensor := makeTensorInfo ((outEdge node shapes).getD inInfo).sizes s.dataDtype
      some
        { opDesc :=
            { op := .identity none, inputs := [s.partialStrided], outputs := [outTensor] }
          inputTensors :=
            [s.partialStrided, makeTensorInfo posInfo.sizes posInfo.dataType,
              makeTensorInfo cosInfo.sizes s.dataDtype, makeTensorInfo sinInfo.sizes s.dataDtype]
          outputTensors := [outTensor]
          subNodes := s.subNodes
          primaryInputCount := 1 }
  | _, _, _, _ => none

/-! ## The wiring -/

namespace RotaryStorage

variable (s : RotaryStorage)

theorem subNodes_wiring : s.subNodes.map (fun sn => (sn.inputFrom, sn.graphInputs)) =
    (rotaryEmbeddingNodes s.partialRotary s.positionIdsIsOffset).map
      fun sn => (sn.inputFrom, sn.graphInputs) := by
  unfold subNodes rotaryEmbeddingNodes
  cases hpartly : s.partialRotary <;> cases hoffset : s.positionIdsIsOffset <;>
    simp [splitInput, copyInput, splitHalf, posRange, posAddOffset, gatherCache, signRange,
      joinSwap, mul, add, joinOutput, copyInputIdx, splitHalfIdx, posRangeIdx, posAddOffsetIdx,
      gatherCosIdx, hpartly, hoffset, denseNode, innerNode]

theorem sources_before (isPartial isOffset : Bool) :
    (((rotaryEmbeddingNodes isPartial isOffset).map SubNode.inputFrom).zipIdx.all fun entry =>
      entry.1.all fun source => source.1 < entry.2) = true := by
  cases isPartial <;> cases isOffset <;> decide

theorem subNodes_wired : Wired s.subNodes := by
  intro j sn hsn source hsource
  have hsources : s.subNodes.map SubNode.inputFrom =
      (rotaryEmbeddingNodes s.partialRotary s.positionIdsIsOffset).map SubNode.inputFrom := by
    simpa [List.map_map, Function.comp_def] using congrArg (List.map Prod.fst) s.subNodes_wiring
  have hget : (s.subNodes.map SubNode.inputFrom)[j]? = some sn.inputFrom := by
    rw [List.getElem?_map, hsn]
    rfl
  have hmem : (sn.inputFrom, j) ∈ (s.subNodes.map SubNode.inputFrom).zipIdx :=
    List.mk_mem_zipIdx_iff_getElem?.2 hget
  have hbefore := sources_before s.partialRotary s.positionIdsIsOffset
  rw [← hsources, List.all_eq_true] at hbefore
  simpa using List.all_eq_true.1 (hbefore _ hmem) source hsource

/-! ## The places of the sub-nodes -/

theorem getElem?_splitInput (h : s.partialRotary = true) : s.subNodes[0]? = some s.splitInput := by
  simp [subNodes, h]

theorem getElem?_copyInput : s.subNodes[s.copyInputIdx]? = some s.copyInput := by
  unfold subNodes copyInputIdx
  cases s.partialRotary <;> rfl

theorem getElem?_splitHalf : s.subNodes[s.splitHalfIdx]? = some s.splitHalf := by
  unfold subNodes splitHalfIdx copyInputIdx
  cases s.partialRotary <;> rfl

theorem getElem?_posRange (h : s.positionIdsIsOffset = true) :
    s.subNodes[s.posRangeIdx]? = some s.posRange := by
  unfold subNodes posRangeIdx copyInputIdx
  rw [h]
  cases s.partialRotary <;> rfl

theorem getElem?_posAddOffset (h : s.positionIdsIsOffset = true) :
    s.subNodes[s.posAddOffsetIdx]? = some s.posAddOffset := by
  unfold subNodes posAddOffsetIdx copyInputIdx
  rw [h]
  cases s.partialRotary <;> rfl

/-- The sub-nodes behind the positions. -/
def rotation : List (SubNode DmlOperatorDesc) :=
  [s.gatherCache s.cosInfo 2, s.gatherCache s.sinInfo 3, s.signRange, s.joinSwap,
    s.mul s.cosBroadcast s.copyInputIdx s.gatherCosIdx,
    s.mul s.cosBroadcast (s.gatherCosIdx + 3) (s.gatherCosIdx + 1),
    s.mul s.signBroadcast (s.gatherCosIdx + 5) (s.gatherCosIdx + 2), s.add]

/-- The sub-nodes up to the positions. -/
def preparation : List (SubNode DmlOperatorDesc) :=
  (if s.partialRotary then [s.splitInput] else []) ++ [s.copyInput, s.splitHalf] ++
    if s.positionIdsIsOffset then [s.posRange, s.posAddOffset] else []

theorem subNodes_eq : s.subNodes =
    s.preparation ++ (s.rotation ++ if s.partialRotary then [s.joinOutput] else []) := by
  rw [← List.append_assoc]
  rfl

theorem length_preparation : s.preparation.length = s.gatherCosIdx := by
  unfold preparation gatherCosIdx copyInputIdx
  cases s.partialRotary <;> cases s.positionIdsIsOffset <;> rfl

theorem getElem?_behind (i : Nat) : s.subNodes[s.gatherCosIdx + i]? =
    (s.rotation ++ if s.partialRotary then [s.joinOutput] else [])[i]? := by
  rw [subNodes_eq, ← length_preparation, List.getElem?_append_right (Nat.le_add_right _ i),
    Nat.add_sub_cancel_left]

/-- The chain up to the addition, and behind it. -/
theorem subNodes_add : s.subNodes = (s.preparation ++ s.rotation.take 7) ++ s.add ::
    if s.partialRotary then [s.joinOutput] else [] := by
  rw [subNodes_eq, List.append_assoc]
  rfl

theorem length_beforeAdd : (s.preparation ++ s.rotation.take 7).length = s.gatherCosIdx + 7 := by
  rw [List.length_append, length_preparation]
  rfl

theorem length_subNodes : s.subNodes.length - 1 =
    if s.partialRotary then s.gatherCosIdx + 8 else s.gatherCosIdx + 7 := by
  unfold subNodes gatherCosIdx copyInputIdx
  cases s.partialRotary <;> cases s.positionIdsIsOffset <;> rfl

/-- Only the addition writes a tensor with strides. -/
theorem packed_outputs {s : RotaryStorage} {sn : SubNode DmlOperatorDesc} (h : sn ∈ s.subNodes) :
    sn = s.add ∨ ∀ out ∈ sn.opDesc.outputs, out.strides = [] := by
  by_cases hadd : sn = s.add
  · exact Or.inl hadd
  · right
    have hone : ∀ sizes dtype, ∀ out ∈ [makeTensorInfo sizes dtype], out.strides = [] := by
      intro sizes dtype out hout
      rw [List.mem_singleton.1 hout]
      rfl
    have htwo : ∀ sizes sizes' dtype,
        ∀ out ∈ [makeTensorInfo sizes dtype, makeTensorInfo sizes' dtype], out.strides = [] := by
      intro sizes sizes' dtype out hout
      rcases List.mem_pair.1 hout with rfl | rfl <;> rfl
    rw [subNodes_eq] at h
    rcases List.mem_append.1 h with hfront | hbehind
    · unfold preparation at hfront
      rcases List.mem_append.1 hfront with hfront | hpos
      · rcases List.mem_append.1 hfront with hsplit | hcopy
        · split at hsplit
          · rw [List.mem_singleton.1 hsplit]
            exact htwo _ _ _
          · cases hsplit
        · rcases List.mem_pair.1 hcopy with rfl | rfl
          · exact hone _ _
          · exact htwo _ _ _
      · split at hpos
        · rcases List.mem_pair.1 hpos with rfl | rfl
          · exact hone _ _
          · exact hone _ _
        · cases hpos
    · rcases List.mem_append.1 hbehind with hrotation | hjoin
      · simp only [rotation, List.mem_cons, List.not_mem_nil, or_false] at hrotation
        rcases hrotation with rfl | rfl | rfl | rfl | rfl | rfl | rfl | rfl
        all_goals first | exact hone _ _ | exact absurd rfl hadd
      · split at hjoin
        · rw [List.mem_singleton.1 hjoin]
          exact hone _ _
        · cases hjoin

end RotaryStorage

end AmdGpuEp.DirectML
