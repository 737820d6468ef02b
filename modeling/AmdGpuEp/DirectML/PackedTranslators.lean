import AmdGpuEp.DirectML.InputPacking

/-!
# The inputs of all operator translators

`BuildOpTranslatorRegistry` of `dml_op_translators.cc` routes the registered
operators to translators. Each translator is given here as far as the inputs of
its node go: which of them it looks up, in which order it packs them, which field
of which operator description it points at which of them, and how it wires its
sub-nodes. What else a translator checks, and the sizes and types of its tensors,
are parameters.
-/

namespace AmdGpuEp.DirectML

/-! ## What a translator reads -/

section

variable (node : Node) (shapes : ValueShapes)

/-- `LookupShape` of an input. -/
def lookupInput (i : Nat) : Option DmlTensorInfo :=
  (getNodeInputNames node)[i]?.bind shapes

/-- `valid`, the test for an optional input. -/
def validInput (i : Nat) : Bool :=
  (getNodeInputNames node)[i]?.any fun name => name != "" && (shapes name).isSome

/-- The slot of an optional input. -/
def optionalInput (i : Nat) : Option Nat :=
  if validInput node shapes i then some i else none

/-- There are so many inputs, and these are looked up. -/
def looksUp (least : Nat) (inputs : List Nat) : Bool :=
  decide (least ≤ node.inputs.length) && inputs.all fun i => (lookupInput node shapes i).isSome

end

theorem length_of_lookupInput {node : Node} {shapes : ValueShapes} {i : Nat} {info : DmlTensorInfo}
    (h : lookupInput node shapes i = some info) : i < (getNodeInputNames node).length := by
  by_contra hge
  rw [lookupInput, List.getElem?_eq_none (not_lt.1 hge)] at h
  cases h

/-- A dimension of the unpadded shape. -/
def DmlTensorInfo.dim (info : DmlTensorInfo) (i : Nat) : Nat :=
  info.sizes.getD (info.sizes.length - info.rank + i) 0

/-! ## Ways to pack -/

namespace Packing

/-- The first inputs in order. The schema may have null fields behind them. -/
def inOrder (packed nulls : Nat) : Packing where
  primary :=
    { tensors := (List.range packed).map .input
      fields := (List.range packed).map some ++ List.replicate nulls none }

/-- The fields of a schema, when the tensors of those that are not null are packed one after the
other. -/
def numberFields : Nat → List (Option Nat) → List (Option Nat)
  | _, [] => []
  | k, none :: slots => none :: numberFields k slots
  | k, some _ :: slots => some k :: numberFields (k + 1) slots

/-- The inputs of the schema slots, without those that are absent, and more inputs behind them for
the sub-nodes. -/
def schema (slots : List (Option Nat)) (more : List Nat) : Packing where
  primary :=
    { tensors := (slots.reduceOption ++ more).map .input
      fields := numberFields 0 slots }
  inputNameReorder := slots.reduceOption ++ more

end Packing

/-- A sub-node whose fields are its tensors in order. -/
def denseNode (tensors : List Operand) (inputFrom : List (Int × Int))
    (graphInputs : List (Nat × Nat)) : SubNode FieldDesc where
  opDesc := { tensors, fields := (List.range tensors.length).map some }
  inputFrom := inputFrom
  graphInputs := graphInputs

/-- A sub-node that reads other operators of its translation only. -/
def innerNode (sources : List (Int × Int)) : SubNode FieldDesc :=
  denseNode (sources.map fun _ => .inner) sources []

/-! ## Translators that pack their first inputs -/

/-- The translators with one operator that gets the first inputs of the node, each in its own
field. -/
inductive DenseTranslator
  | binaryElementwise | unaryActivation | matMul | softmax | transpose | unaryWithAttrs | cast
  | isInf | affine | pow | pRelu | sum | where' | mod | bitShift | expand | reduce | argMaxMin
  | hardmax | logSoftmax | averagePool | maxPool | slice | split | gather | gatherElements
  | gatherND | pad | depthToSpace | spaceToDepth | scatterElements | scatterND | tile
  | constantOfShape | range | resize | clip | gelu | lrn | dynamicQuantizeLinear | qLinearAdd
  | trilu | lpNormalization | eyeLike | reverseSequence | crop | maxRoiPool | maxUnpool | lpPool
  | col2Im | qLinearAveragePool
  deriving DecidableEq, Repr

namespace DenseTranslator

/-- The number of inputs that the translator asks for. -/
def least : DenseTranslator → Nat
  | .constantOfShape => 0
  | .binaryElementwise | .matMul | .pow | .pRelu | .sum | .mod | .bitShift | .gather
  | .gatherElements | .gatherND | .tile | .reverseSequence | .maxRoiPool | .maxUnpool => 2
  | .where' | .scatterElements | .scatterND | .range | .col2Im => 3
  | .qLinearAveragePool => 5
  | .qLinearAdd => 8
  | _ => 1

/-- The number of inputs that it packs. The others are read from initializers, or not at all. -/
def packed : DenseTranslator → Nat
  | .constantOfShape | .range | .eyeLike => 0
  | .tile | .col2Im => 1
  | translator => translator.least

/-- The null fields of the schema: the `CTensor` of a `MatMul`. -/
def nulls : DenseTranslator → Nat
  | .matMul => 1
  | _ => 0

def pack (translator : DenseTranslator) (node : Node) (shapes : ValueShapes) : Option Packing :=
  if looksUp node shapes translator.least (List.range translator.packed) then
    some (.inOrder translator.packed translator.nulls)
  else none

end DenseTranslator

/-- The translators with two operands and an optional one behind them. -/
inductive OptionalTranslator
  | conv | layerNorm (simplified : Bool) | gemm | quantizeLinear | dequantizeLinear
  deriving DecidableEq, Repr

namespace OptionalTranslator

/-- Whether the third input is packed. -/
def takesThird (translator : OptionalTranslator) (node : Node) (shapes : ValueShapes) : Bool :=
  translator != .layerNorm true && validInput node shapes 2

/-- Whether the field of an absent third input is null; the quantization tensors are an array. -/
def nullable : OptionalTranslator → Bool
  | .quantizeLinear | .dequantizeLinear => false
  | _ => true

def pack (translator : OptionalTranslator) (node : Node) (shapes : ValueShapes) : Option Packing :=
  if looksUp node shapes 2 [0, 1] then
    some <|
      if translator.takesThird node shapes then .inOrder 3 0
      else .inOrder 2 (if translator.nullable then 1 else 0)
  else none

end OptionalTranslator

/-! ## Quantized operators -/

/-- The translators that pack the operands of a schema with optional fields between them. -/
inductive QuantizedTranslator
  | qLinearMatMul | matMulInteger | matMulIntegerToFloat | qLinearConv | convInteger
  deriving DecidableEq, Repr

namespace QuantizedTranslator

def least : QuantizedTranslator → Nat
  | .qLinearMatMul | .qLinearConv => 8
  | .matMulInteger | .convInteger => 2
  | .matMulIntegerToFloat => 4

/-- The ONNX input of each schema slot, and whether it is optional. -/
def operands : QuantizedTranslator → List (Nat × Bool)
  | .qLinearMatMul =>
    [(0, false), (1, false), (2, true), (3, false), (4, false), (5, true), (6, false), (7, true)]
  | .matMulInteger | .convInteger => [(0, false), (2, true), (1, false), (3, true)]
  | .matMulIntegerToFloat =>
    [(0, false), (2, false), (4, true), (1, false), (3, false), (5, true), (6, true)]
  | .qLinearConv =>
    [(0, false), (1, false), (2, true), (3, false), (4, false), (5, true), (8, true), (6, false),
      (7, false)]

def slots (translator : QuantizedTranslator) (node : Node) (shapes : ValueShapes) :
    List (Option Nat) :=
  translator.operands.map fun operand =>
    if operand.2 then optionalInput node shapes operand.1 else some operand.1

def pack (translator : QuantizedTranslator) (node : Node) (shapes : ValueShapes) :
    Option Packing :=
  let required := (translator.operands.filter fun operand => !operand.2).map Prod.fst
  if looksUp node shapes translator.least required then
    some (.schema (translator.slots node shapes) [])
  else none

end QuantizedTranslator

/-! ## Translators with lists of their own -/

section

variable (node : Node) (shapes : ValueShapes)

/-- `TranslateReshape` and `TranslateShapeOnly`: the node is elided. -/
def packShapeOnly (least : Nat) : Option Packing :=
  if looksUp node shapes least [0] then
    some { primary := { tensors := [.input 0], fields := [] }, passthrough := true }
  else none

def packConcat : Option Packing :=
  if looksUp node shapes 1 (List.range node.inputs.length) then
    some (.inOrder node.inputs.length 0)
  else none

/-- The tensors stand in the order of the schema: input, mean, variance, scale, bias. -/
def packBatchNorm : Option Packing :=
  if looksUp node shapes 5 (List.range 5) then
    some
      { primary :=
          { tensors := [.input 0, .input 3, .input 4, .input 1, .input 2]
            fields := [some 0, some 1, some 2, some 3, some 4] } }
  else none

def packOneHot : Option Packing :=
  if looksUp node shapes 3 [0, 2] then some (.schema [some 0, some 2] []) else none

/-- With `activation` set, the result is multiplied by its sigmoid. -/
def packGroupNorm : Option Packing :=
  if looksUp node shapes 3 [0, 1, 2] then
    some
      { Packing.inOrder 3 0 with
        subNodes :=
          if getAttributeInt node "activation" 0 = 1 then
            [innerNode [(-1, 0)], innerNode [(-1, 0), (0, 0)]]
          else [] }
  else none

/-- `alpha` is not 1. -/
def isScaled : Bool :=
  match node.attributes.find? fun entry => entry.1 == "alpha" with
  | some (_, .float bits) => bits != 0x3F800000
  | _ => false

/-- The input is multiplied by the sigmoid of its scaled value. -/
def packQuickGelu : Option Packing :=
  if looksUp node shapes 1 [0] then
    some
      { Packing.inOrder 1 0 with
        subNodes :=
          if isScaled node then
            [innerNode [(-1, 0)], innerNode [(0, 0)], innerNode [(-1, 0), (1, 0)]]
          else [innerNode [(-1, 0)], innerNode [(-1, 0), (0, 0)]] }
  else none

/-- Add, split, `Gelu` of the second half, multiply. -/
def packBiasSplitGelu : Option Packing :=
  if looksUp node shapes 2 [0, 1] then
    some
      { Packing.inOrder 2 0 with
        subNodes := [innerNode [(-1, 0)], innerNode [(0, 1)], innerNode [(0, 0), (1, 0)]] }
  else none

/-- The sub-nodes of `TranslateSkipLayerNorm`: the addition of the bias, and the normalization. -/
def skipLayerNormNodes (hasBeta hasBias : Bool) : List (SubNode FieldDesc) :=
  (if hasBias then [denseNode [.inner, .input 4] [(-1, 0)] [(4, 1)]] else []) ++
    [{ opDesc :=
        { tensors := [.inner, .input 2] ++ if hasBeta then [.input 3] else []
          fields := [some 0, some 1, if hasBeta then some 2 else none] }
       inputFrom := [(if hasBias then 0 else -1, 0)]
       graphInputs := [(2, 1)] ++ if hasBeta then [(3, 2)] else [] }]

/-- The primary operator adds input and skip. -/
def packSkipLayerNorm : Option Packing :=
  let hasBeta := validInput node shapes 3
  let hasBias := validInput node shapes 4
  if looksUp node shapes 3 [0, 1, 2] then
    some
      { primary :=
          { tensors := ([0, 1, 2] ++ (if hasBeta then [3] else []) ++
              if hasBias then [4] else []).map .input
            fields := [some 0, some 1] }
        primaryInputCount := 2
        subNodes := skipLayerNormNodes hasBeta hasBias }
  else none

/-- The primary operator dequantizes `B`, the sub-node multiplies `A` with it. -/
def packMatMulNBits : Option Packing :=
  let hasZp := validInput node shapes 3
  if looksUp node shapes 3 [0, 1, 2] then
    some
      { Packing.schema ([some 1, some 2] ++ if hasZp then [some 3] else []) [0] with
        primaryInputCount := if hasZp then 3 else 2
        subNodes :=
          [{ opDesc := { tensors := [.input 0, .inner], fields := [some 0, some 1, none] }
             inputFrom := [(-2, 0), (-1, 0)], graphInputs := [(0, 0)] }] }
  else none

/-- The sub-node of `TranslateDynamicQuantizeMatMul`. The bias is packed behind the zero point of
`B`. -/
def dynamicQuantizeMatMulNode (hasBZp hasBias : Bool) : SubNode FieldDesc where
  opDesc :=
    { tensors := [.inner, .inner, .inner, .input 1, .input 2] ++
        (if hasBZp then [.input 3] else []) ++ if hasBias then [.input 4] else []
      fields := [some 0, some 1, some 2, some 3, some 4, if hasBZp then some 5 else none,
        if hasBias then some (if hasBZp then 6 else 5) else none] }
  inputFrom := [(-1, 0), (-1, 1), (-1, 2), (-2, 0), (-2, 0)] ++
    (if hasBZp then [(-2, 0)] else []) ++ if hasBias then [(-2, 0)] else []
  graphInputs := [(1, 3), (2, 4)] ++ (if hasBZp then [(3, 5)] else []) ++
    if hasBias then [(4, if hasBZp then 6 else 5)] else []

/-- The primary operator quantizes `A`. -/
def packDynamicQuantizeMatMul : Option Packing :=
  let hasBZp := validInput node shapes 3
  let hasBias := validInput node shapes 4
  if looksUp node shapes 3 [0, 1, 2] then
    some
      { Packing.schema [some 0]
          ([1, 2] ++ (if hasBZp then [3] else []) ++ if hasBias then [4] else []) with
        primaryInputCount := 1
        subNodes := [dynamicQuantizeMatMulNode hasBZp hasBias] }
  else none

/-- A past key or value counts when it is not empty. -/
def hasPastState (i : Nat) : Bool :=
  validInput node shapes i && (lookupInput node shapes i).any fun info =>
    info.sizes.getD (info.sizes.length - 4 + 2) 0 != 0

/-- The schema slots of `TranslateMultiHeadAttention`. Key and value of rank 4 are past state. -/
def multiHeadAttentionSlots : List (Option Nat) :=
  let rankIs := fun i rank => (lookupInput node shapes i).any fun info => info.rank == rank
  let stackedQkv := rankIs 0 5
  let stackedKv := validInput node shapes 1 && rankIs 1 5
  let keyValueIsPast := !stackedKv && validInput node shapes 1 && rankIs 1 4
  let slotIf := fun (given : Bool) (i : Nat) => if given then some i else none
  [slotIf (!stackedQkv) 0,
    slotIf (!stackedKv && !keyValueIsPast && validInput node shapes 1) 1,
    slotIf (validInput node shapes 2 && !keyValueIsPast) 2, none, slotIf stackedKv 1,
    slotIf stackedQkv 0, optionalInput node shapes 3, optionalInput node shapes 4,
    optionalInput node shapes 5,
    if keyValueIsPast then some 1 else slotIf (hasPastState node shapes 6) 6,
    if keyValueIsPast then some 2 else slotIf (hasPastState node shapes 7) 7]

/-- The schema slots that are not null, in order. -/
def givenSlots (slots : List (Option Nat)) : List Nat :=
  slots.zipIdx.filterMap fun entry => entry.1.map fun _ => entry.2

def packMultiHeadAttention : Option Packing :=
  let slots := multiHeadAttentionSlots node shapes
  if looksUp node shapes 1 [0] &&
      slots.all fun slot => slot.all fun i => (lookupInput node shapes i).isSome then
    some { Packing.schema slots [] with dmlInputSlotIndices := givenSlots slots }
  else none

/-! ## Translators of attention and embedding -/

/-- The sub-nodes of `TranslateRotaryEmbedding`. A partial rotation splits the input before, and
joins the rest behind; positions that are one offset are expanded to a sequence. -/
def rotaryEmbeddingNodes (isPartial isOffset : Bool) : List (SubNode FieldDesc) :=
  let copyInput : Int := if isPartial then 1 else 0
  let splitHalf := copyInput + 1
  let posAddOffset := splitHalf + 2
  let gatherCos := if isOffset then posAddOffset + 1 else splitHalf + 1
  let gatherNode := fun (cache : Nat) =>
    if isOffset then
      denseNode [.input cache, .inner] [(-2, 0), (posAddOffset, 0)] [(cache, 0)]
    else denseNode [.input cache, .input 1] [] [(cache, 0), (1, 1)]
  (if isPartial then
    [denseNode [.input 0] [] [(0, 0)], innerNode [(0, 0)]]
  else [denseNode [.input 0] [] [(0, 0)]]) ++
  [innerNode [(copyInput, 0)]] ++
  (if isOffset then
    [innerNode [], denseNode [.inner, .input 1] [(splitHalf + 1, 0)] [(1, 1)]]
  else []) ++
  [gatherNode 2, gatherNode 3, innerNode [], innerNode [(splitHalf, 1), (splitHalf, 0)],
    innerNode [(copyInput, 0), (gatherCos, 0)], innerNode [(gatherCos + 3, 0), (gatherCos + 1, 0)],
    innerNode [(gatherCos + 5, 0), (gatherCos + 2, 0)],
    innerNode [(gatherCos + 4, 0), (gatherCos + 6, 0)]] ++
  if isPartial then [innerNode [(gatherCos + 7, 0), (0, 1)]] else []

/-- The rotary dimension is not the head size, in 32 bits. -/
def isPartialRotary : Bool :=
  let read := fun name => (getAttributeInt node name 0 % 2 ^ 32).toNat
  let last := fun (info : Option DmlTensorInfo) => (info.bind fun i => i.sizes.getLast?).getD 0
  let hiddenSize :=
    match lookupInput node shapes 0 with
    | some info => if info.rank = 4 then info.dim 1 * info.dim 3 % 2 ^ 32 else last (some info)
    | none => 0
  let headSize :=
    if read "num_heads" = 0 then last (lookupInput node shapes 2) * 2 % 2 ^ 32
    else hiddenSize / read "num_heads"
  read "rotary_embedding_dim" != 0 && headSize != read "rotary_embedding_dim"

/-- The primary operator reshapes the input. -/
def packRotaryEmbedding : Option Packing :=
  let isOffset := (lookupInput node shapes 1).any fun info => info.rank == 1
  if looksUp node shapes 4 [0, 1, 2, 3] then
    some
      { primary := { tensors := [0, 1, 2, 3].map .input, fields := [some 0] }
        primaryInputCount := 1
        subNodes := rotaryEmbeddingNodes (isPartialRotary node shapes) isOffset }
  else none

/-- The sub-node of `TranslateGroupQueryAttention`. -/
def groupQueryAttentionNode (fromPrimary : Bool) : SubNode FieldDesc where
  opDesc :=
    { tensors := [.input 0, .input 1, .input 2] ++ List.replicate 8 .unset ++
        [if fromPrimary then .inner else .input 5]
      fields := [some 0, some 1, some 2] ++ List.replicate 8 none ++ [some 11] }
  inputFrom := List.replicate 11 (-2, 0) ++ [if fromPrimary then (-1, 0) else (-2, 0)]
  graphInputs := [(0, 0), (1, 1), (2, 2)] ++ if fromPrimary then [] else [(5, 11)]

/-- The primary operator fills a constant and has no inputs. -/
def packGroupQueryAttention : Option Packing :=
  let hasSeqLens := (lookupInput node shapes 0).any (fun info => info.dim 1 == 1) &&
    validInput node shapes 5
  if looksUp node shapes 3 [0, 1, 2] then
    some
      { primary :=
          { tensors := ([0, 1, 2] ++ if hasSeqLens then [5] else []).map .input, fields := [] }
        inputNameReorder := [0, 1, 2] ++ if hasSeqLens then [5] else []
        subNodes := [groupQueryAttentionNode !hasSeqLens] }
  else none

/-- A mask of rank 4 whose sequences are longer than the input's is sliced. -/
def hasMaxSequenceMask (mask : Nat) : Bool :=
  validInput node shapes mask &&
    match lookupInput node shapes 0, lookupInput node shapes mask with
    | some input, some info =>
      !([1, 2, 3].contains info.rank) && info.dim 2 != input.dim 1
    | _, _ => false

/-- The 11 inputs of a `DML_MULTIHEAD_ATTENTION` sub-node. Each slot has a description, so the test
for a null `Desc` behind `RebuildSubNodePointers` never sees one. -/
structure AttentionInputs where
  tensors : Nat → Operand
  sources : Nat → Int × Int
  fields : List Nat
  graphInputs : List (Nat × Nat)

def AttentionInputs.subNode (a : AttentionInputs) : SubNode FieldDesc where
  opDesc :=
    { tensors := (List.range 11).map a.tensors
      fields := (List.range 11).map fun slot => if slot ∈ a.fields then some slot else none }
  inputFrom := (List.range 11).map a.sources
  graphInputs := a.graphInputs

/-- The last sub-node of `TranslateAttention`. When the value has its own hidden size, value and
stacked query and key are sliced apart. -/
def attentionNode (sliced hasMask isMaxSequence hasAttBias : Bool) : SubNode FieldDesc :=
  AttentionInputs.subNode
    { tensors := fun slot =>
        if slot ∈ (if sliced then [2, 3] else [5]) then .inner
        else if slot = 7 ∧ hasMask then (if isMaxSequence then .inner else .input 3)
        else if slot = 8 ∧ hasAttBias then .input 5
        else .unset
      sources := fun slot =>
        if sliced ∧ slot = 2 then (1, 0)
        else if sliced ∧ slot = 3 then (2, 0)
        else if sliced = false ∧ slot = 5 then (0, 0)
        else if slot = 7 ∧ hasMask ∧ isMaxSequence then (if sliced then 3 else 1, 0)
        else (-2, 0)
      fields := (if sliced then [2, 3] else [5]) ++ [7, 8]
      graphInputs := (if hasMask && !isMaxSequence then [(3, 7)] else []) ++
        if hasAttBias then [(5, 8)] else [] }

/-- The sub-nodes of `TranslateAttention`. -/
def attentionNodes (sliced hasMask isMaxSequence hasAttBias : Bool) : List (SubNode FieldDesc) :=
  (if sliced then [innerNode [(-1, 0)], innerNode [(-1, 0)], innerNode [(0, 0)]]
    else [innerNode [(-1, 0)]]) ++
  (if isMaxSequence then [denseNode [.input 3] [(-2, 0)] [(3, 0)]] else []) ++
  [attentionNode sliced hasMask isMaxSequence hasAttBias]

/-- The primary operator projects the input. -/
def packAttention : Option Packing :=
  let hasMask := validInput node shapes 3
  let hasAttBias := validInput node shapes 5
  let sizes := getAttributeInts node "qkv_hidden_sizes"
  let sliced := sizes.length == 3 && sizes.getD 0 0 % 2 ^ 32 != sizes.getD 2 0 % 2 ^ 32
  let slots := [some 0, some 1, optionalInput node shapes 2]
  if looksUp node shapes 2 [0, 1] then
    some
      { Packing.schema slots ((if hasMask then [3] else []) ++ if hasAttBias then [5] else []) with
        primaryInputCount := slots.reduceOption.length
        subNodes := attentionNodes sliced hasMask (hasMaxSequenceMask node shapes 3) hasAttBias }
  else none

/-- Where `TranslateQAttention` takes its mask from. -/
inductive QAttentionMask
  | absent
  | causal
  | sliced
  | direct
  deriving DecidableEq, Repr

/-- A mask of an unknown type does not count. -/
def qAttentionMask : QAttentionMask :=
  let unidirectional := getAttributeInt node "unidirectional" 0 != 0
  let unknown := (lookupInput node shapes 5).any fun info => info.dataType == .unknown
  if unidirectional && !validInput node shapes 5 then .causal
  else if !validInput node shapes 5 || unknown then .absent
  else if hasMaxSequenceMask node shapes 5 then .sliced
  else .direct

/-- The attention of `TranslateQAttention`. The sub-node of its mask stands behind the transposition
and the slices of the past. -/
def qAttentionNode (mask : QAttentionMask) (hasPast : Bool) : SubNode FieldDesc :=
  AttentionInputs.subNode
    { tensors := fun slot =>
        if slot = 5 then .inner
        else if slot = 7 then
          match mask with
          | .absent => .unset
          | .causal | .sliced => .inner
          | .direct => .input 5
        else if slot ∈ [9, 10] ∧ hasPast then .inner
        else .unset
      sources := fun slot =>
        if slot = 5 then (0, 0)
        else if slot = 7 ∧ (mask = .causal ∨ mask = .sliced) then (if hasPast then 3 else 1, 0)
        else if slot = 9 ∧ hasPast then (1, 0)
        else if slot = 10 ∧ hasPast then (2, 0)
        else (-2, 0)
      fields := [5, 7] ++ if hasPast then [9, 10] else []
      graphInputs := if mask = .direct then [(5, 7)] else [] }

/-- The sub-nodes of `TranslateQAttention`. A mask that is sliced is sliced even when its type is
unknown. -/
def qAttentionNodes (mask : QAttentionMask) (isMaxSequence hasPast : Bool) :
    List (SubNode FieldDesc) :=
  [innerNode [(-1, 0)]] ++
  (if hasPast then
    [denseNode [.input 8] [(-2, 0)] [(8, 0)], denseNode [.input 8] [(-2, 0)] [(8, 0)]]
  else []) ++
  (if mask = .causal then [innerNode []] else []) ++
  (if isMaxSequence then [denseNode [.input 5] [(-2, 0)] [(5, 0)]] else []) ++
  [qAttentionNode mask hasPast] ++
  if hasPast then
    let attention : Int := 3 + (if mask = .causal then 1 else 0) + if isMaxSequence then 1 else 0
    [innerNode [(attention, 1), (attention, 2)]]
  else []

/-- The schema slots of the multiplication: input, scale and zero point of both sides, and bias. -/
def qAttentionSlots : List (Option Nat) :=
  [some 0, some 3, optionalInput node shapes 6, some 1, some 4, optionalInput node shapes 7,
    optionalInput node shapes 2]

/-- The primary operator projects the quantized input. -/
def packQAttention : Option Packing :=
  let hasPast := validInput node shapes 8
  let slots := qAttentionSlots node shapes
  if looksUp node shapes 5 [0, 1, 3, 4] then
    some
      { Packing.schema slots
          ((if validInput node shapes 5 then [5] else []) ++ if hasPast then [8] else []) with
        primaryInputCount := slots.reduceOption.length
        subNodes := qAttentionNodes (qAttentionMask node shapes)
          (hasMaxSequenceMask node shapes 5) hasPast }
  else none

/-- The sub-nodes of `TranslateEmbedLayerNormalization`: positions, the gathered embeddings and
their sum, the normalization, and the chain of the mask index. -/
def embedLayerNormalizationNodes (hasSegment hasMask hasPositionIds hasMaskIndex : Bool) :
    List (SubNode FieldDesc) :=
  let posGather : Int := if hasPositionIds then 0 else 1
  let wpAdd := if hasSegment then posGather + 2 else posGather + 1
  let embeddingSum := if hasSegment then wpAdd + 1 else wpAdd
  let ones := embeddingSum + 2
  (if hasPositionIds then [] else [innerNode []]) ++
  [denseNode [.input 3, if hasPositionIds then .input 8 else .inner]
    [(-2, 0), if hasPositionIds then (-2, 0) else (0, 0)]
    ([(3, 0)] ++ if hasPositionIds then [(8, 1)] else [])] ++
  (if hasSegment then
    [denseNode [.input 4, .input 1] [(-2, 0), (-2, 0)] [(4, 0), (1, 1)]] else []) ++
  [innerNode [(-1, 0), (posGather, 0)]] ++
  (if hasSegment then [innerNode [(wpAdd, 0), (posGather + 1, 0)]] else []) ++
  [denseNode [.inner, .input 5, .input 6] [(embeddingSum, 0), (-2, 0), (-2, 0)]
    [(5, 1), (6, 2)]] ++
  if hasMask then
    [innerNode [], denseNode [.input 7, .inner] [(-2, 0), (ones, 0)] [(7, 0)],
      innerNode [(ones + 1, 0)]]
  else if hasMaskIndex then [innerNode []] else []

/-- The primary operator gathers the word embeddings. -/
def packEmbedLayerNormalization : Option Packing :=
  let hasSegment := validInput node shapes 4 && validInput node shapes 1
  let hasMask := validInput node shapes 7
  let hasPositionIds := validInput node shapes 8
  let hasMaskIndex := (getNodeOutputNames node)[1]?.any fun name =>
    name != "" && (shapes name).isSome
  if looksUp node shapes 7 [0, 2, 3, 5, 6] then
    some
      { Packing.schema [some 2, some 0]
          ([3] ++ (if hasSegment then [4, 1] else []) ++ [5, 6] ++
            (if hasMask then [7] else []) ++ if hasPositionIds then [8] else []) with
        primaryInputCount := 2
        subNodes :=
          embedLayerNormalizationNodes hasSegment hasMask hasPositionIds hasMaskIndex }
  else none

/-- The sub-nodes of `TranslateQLinearConcat` for `count` tensors: the other tensors are
dequantized, joined with the first one, and quantized. -/
def qLinearConcatNodes (count : Nat) : List (SubNode FieldDesc) :=
  (List.range (count - 1)).map (fun t =>
    denseNode [.input (3 * t + 5), .input (3 * t + 6), .input (3 * t + 7)]
      [(-2, 0), (-2, 0), (-2, 0)] [(3 * t + 5, 0), (3 * t + 6, 1), (3 * t + 7, 2)]) ++
  [innerNode ((-1, 0) :: (List.range (count - 1)).map fun t : Nat => ((t : Int), 0)),
    denseNode [.inner, .input 0, .input 1] [((count - 1 : Nat), 0), (-2, 0), (-2, 0)]
      [(0, 1), (1, 2)]]

/-- The primary operator dequantizes the first tensor. The inputs are scale and zero point of the
output, then tensor, scale and zero point of each operand. -/
def packQLinearConcat : Option Packing :=
  let inputs := node.inputs.length
  if looksUp node shapes 5 [] && (inputs - 2) % 3 == 0 &&
      (List.range inputs).all (validInput node shapes) then
    some
      { Packing.schema [some 2, some 3, some 4] ((List.range (inputs - 5)).map (· + 5) ++ [0, 1]) with
        primaryInputCount := 3
        subNodes := qLinearConcatNodes ((inputs - 2) / 3) }
  else none

end

/-! ## The registry -/

/-- The translators of `dml_op_translators.cc`. -/
inductive Translator
  | dense (translator : DenseTranslator)
  | optional (translator : OptionalTranslator)
  | quantized (translator : QuantizedTranslator)
  | reshape | shapeOnly | concat | batchNorm | oneHot | groupNorm | quickGelu | biasSplitGelu
  | skipLayerNorm (simplified : Bool) | matMulNBits | dynamicQuantizeMatMul
  | multiHeadAttention | rotaryEmbedding | groupQueryAttention | attention | qAttention
  | embedLayerNormalization | qLinearConcat
  deriving DecidableEq, Repr

/-- The packing of a translator that gets through. -/
def Translator.pack (translator : Translator) (node : Node)
    (shapes : ValueShapes) : Option Packing :=
  match translator with
  | .dense translator => translator.pack node shapes
  | .optional translator => translator.pack node shapes
  | .quantized translator => translator.pack node shapes
  | .reshape => packShapeOnly node shapes 2
  | .shapeOnly => packShapeOnly node shapes 1
  | .concat => packConcat node shapes
  | .batchNorm => packBatchNorm node shapes
  | .oneHot => packOneHot node shapes
  | .groupNorm => packGroupNorm node shapes
  | .quickGelu => packQuickGelu node shapes
  | .biasSplitGelu => packBiasSplitGelu node shapes
  | .skipLayerNorm _ => packSkipLayerNorm node shapes
  | .matMulNBits => packMatMulNBits node shapes
  | .dynamicQuantizeMatMul => packDynamicQuantizeMatMul node shapes
  | .multiHeadAttention => packMultiHeadAttention node shapes
  | .rotaryEmbedding => packRotaryEmbedding node shapes
  | .groupQueryAttention => packGroupQueryAttention node shapes
  | .attention => packAttention node shapes
  | .qAttention => packQAttention node shapes
  | .embedLayerNormalization => packEmbedLayerNormalization node shapes
  | .qLinearConcat => packQLinearConcat node shapes

/-- `BuildOpTranslatorRegistry`. -/
def buildOpTranslatorRegistry : List (String × Translator) :=
  (["Add", "Mul", "Sub", "Div", "And", "Or", "Xor", "BitwiseAnd", "BitwiseOr", "BitwiseXor",
    "Equal", "Greater", "GreaterOrEqual", "Less", "LessOrEqual", "Max", "Min", "Mean",
    "DmlFusedAdd", "DmlFusedSum", "BiasAdd"].map (·, .dense .binaryElementwise)) ++
  (["Relu", "Sigmoid", "Tanh", "Abs", "Ceil", "Cos", "Cosh", "Erf", "Exp", "Floor", "Log", "Neg",
    "Not", "Reciprocal", "Round", "Sign", "Sin", "Sinh", "Sqrt", "Tan", "Acos", "Acosh", "Asin",
    "Asinh", "Atan", "Atanh", "BitwiseNot", "IsNaN", "Softsign", "Dropout",
    "QLinearSigmoid"].map (·, .dense .unaryActivation)) ++
  (["LeakyRelu", "Elu", "Selu", "Celu", "HardSigmoid", "Softplus", "ThresholdedRelu", "Shrink",
    "ParametricSoftplus", "ScaledTanh"].map (·, .dense .unaryWithAttrs)) ++
  (["MatMul", "FusedMatMul", "FusedMatMulActivation", "DmlFusedMatMul"].map (·, .dense .matMul)) ++
  (["ReduceMean", "ReduceSum", "ReduceMax", "ReduceMin", "ReduceProd", "ReduceL1", "ReduceL2",
    "ReduceLogSum", "ReduceLogSumExp", "ReduceSumSquare"].map (·, .dense .reduce)) ++
  ([("Softmax", .dense .softmax), ("Reshape", .reshape), ("Flatten", .shapeOnly),
    ("Squeeze", .shapeOnly), ("Unsqueeze", .shapeOnly), ("Transpose", .dense .transpose),
    ("Cast", .dense .cast), ("IsInf", .dense .isInf), ("Affine", .dense .affine),
    ("ImageScaler", .dense .affine), ("Pow", .dense .pow), ("PRelu", .dense .pRelu),
    ("Sum", .dense .sum), ("Where", .dense .where'), ("Mod", .dense .mod),
    ("BitShift", .dense .bitShift), ("ArgMax", .dense .argMaxMin), ("ArgMin", .dense .argMaxMin),
    ("Hardmax", .dense .hardmax), ("LogSoftmax", .dense .logSoftmax), ("Conv", .optional .conv),
    ("NhwcConv", .optional .conv), ("ConvTranspose", .optional .conv),
    ("ConvTransposeWithDynamicPads", .optional .conv), ("DmlFusedConv", .optional .conv),
    ("DmlFusedConvTranspose", .optional .conv), ("AveragePool", .dense .averagePool),
    ("GlobalAveragePool", .dense .averagePool), ("MaxPool", .dense .maxPool),
    ("GlobalMaxPool", .dense .maxPool), ("Slice", .dense .slice), ("Concat", .concat),
    ("Split", .dense .split), ("Gather", .dense .gather),
    ("GatherElements", .dense .gatherElements), ("GatherND", .dense .gatherND),
    ("Pad", .dense .pad), ("DepthToSpace", .dense .depthToSpace),
    ("SpaceToDepth", .dense .spaceToDepth), ("ScatterElements", .dense .scatterElements),
    ("Scatter", .dense .scatterElements), ("ScatterND", .dense .scatterND),
    ("Tile", .dense .tile), ("ConstantOfShape", .dense .constantOfShape),
    ("Range", .dense .range), ("Expand", .dense .expand),
    ("LayerNormalization", .optional (.layerNorm false)),
    ("SimplifiedLayerNormalization", .optional (.layerNorm true)),
    ("InstanceNormalization", .optional (.layerNorm false)),
    ("MeanVarianceNormalization", .optional (.layerNorm false)), ("GroupNorm", .groupNorm),
    ("BatchNormalization", .batchNorm), ("LRN", .dense .lrn),
    ("DmlFusedInstanceNormalization", .optional (.layerNorm false)),
    ("DmlFusedBatchNormalization", .batchNorm),
    ("DmlFusedMeanVarianceNormalization", .optional (.layerNorm false)),
    ("Gemm", .optional .gemm), ("DmlFusedGemm", .optional .gemm), ("Resize", .dense .resize),
    ("Upsample", .dense .resize), ("Clip", .dense .clip),
    ("QuantizeLinear", .optional .quantizeLinear),
    ("DequantizeLinear", .optional .dequantizeLinear), ("Gelu", .dense .gelu),
    ("BiasGelu", .dense .gelu), ("FastGelu", .dense .gelu), ("QuickGelu", .quickGelu),
    ("BiasSplitGelu", .biasSplitGelu), ("SkipLayerNormalization", .skipLayerNorm false),
    ("SkipSimplifiedLayerNormalization", .skipLayerNorm true),
    ("DynamicQuantizeLinear", .dense .dynamicQuantizeLinear),
    ("QLinearMatMul", .quantized .qLinearMatMul), ("MatMulInteger", .quantized .matMulInteger),
    ("MatMulIntegerToFloat", .quantized .matMulIntegerToFloat),
    ("QLinearAdd", .dense .qLinearAdd), ("OneHot", .oneHot), ("Trilu", .dense .trilu),
    ("LpNormalization", .dense .lpNormalization), ("EyeLike", .dense .eyeLike),
    ("ReverseSequence", .dense .reverseSequence), ("Crop", .dense .crop),
    ("MaxRoiPool", .dense .maxRoiPool), ("MaxUnpool", .dense .maxUnpool),
    ("MultiHeadAttention", .multiHeadAttention), ("RotaryEmbedding", .rotaryEmbedding),
    ("MatMulNBits", .matMulNBits), ("GroupQueryAttention", .groupQueryAttention),
    ("Attention", .attention), ("QAttention", .qAttention),
    ("EmbedLayerNormalization", .embedLayerNormalization), ("LpPool", .dense .lpPool),
    ("GlobalLpPool", .dense .lpPool), ("QLinearConv", .quantized .qLinearConv),
    ("ConvInteger", .quantized .convInteger),
    ("QLinearAveragePool", .dense .qLinearAveragePool),
    ("QLinearGlobalAveragePool", .dense .qLinearAveragePool), ("Col2Im", .dense .col2Im),
    ("DynamicQuantizeMatMul", .dynamicQuantizeMatMul), ("QLinearConcat", .qLinearConcat)] :
    List (String × Translator))

/-- What a translator does beside routing its inputs: whether its other checks pass, and the tensors
that it describes. -/
structure TranslatorRest where
  checks : Node → ValueShapes → (String → Option Initializer) → Bool
  tensor : Node → ValueShapes → Nat → DmlTensorInfo
  outputTensors : Node → ValueShapes → (String → Option Initializer) → List DmlTensorInfo
  outputSource : Node → ValueShapes → List (Int × Int)

def Translator.translate (rest : TranslatorRest) (translator : Translator) :
    OpTranslator FieldDesc := fun node shapes initializers =>
  if rest.checks node shapes initializers then
    (translator.pack node shapes).map fun p =>
      p.translated (rest.tensor node shapes) (rest.outputTensors node shapes initializers)
        (rest.outputSource node shapes)
  else none

/-- The registry as the walk over a group uses it. -/
def routedRegistry (rest : TranslatorRest) : OpTranslatorRegistry FieldDesc := fun op =>
  (buildOpTranslatorRegistry.lookup op).map (Translator.translate rest)

end AmdGpuEp.DirectML
