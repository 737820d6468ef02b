import AmdGpuEp.DirectML.Broadcasting
import AmdGpuEp.DirectML.PackedTranslators

/-!
# The translators of convolutions

`ReadConvKernelArgs`, `TranslateConvImpl`, `TranslateQLinearConv` and
`TranslateConvInteger` of `dml_op_translators.cc`. The arithmetic is that of 32 bits.
A transposed convolution may read in front of its `output_shape`; what lies there is
the parameter `beyond`.
-/

namespace AmdGpuEp.DirectML

/-! ## Descriptions -/

inductive ConvDirection
  | forward
  | backward
  deriving DecidableEq, Repr

/-- The activation of a `DmlFusedConv`. Floats are known by their bits. -/
inductive ConvActivation
  | relu
  | leakyRelu (alpha : UInt32)
  | sigmoid
  | tanh
  | elu (alpha : UInt32)
  | hardSigmoid (alpha beta : UInt32)
  | linear (alpha beta : UInt32)
  deriving DecidableEq, Repr

/-- What the descriptions of all convolutions have in common. -/
structure ConvWindow where
  dimensionCount : Nat
  strides : List Nat
  dilations : List Nat
  startPadding : List Nat
  endPadding : List Nat
  groupCount : Nat
  deriving DecidableEq, Repr

inductive ConvDesc
  | convolution (direction : ConvDirection) (window : ConvWindow) (outputPadding : List Nat)
      (activation : Option ConvActivation)
  | quantizedLinearConvolution (window : ConvWindow)
  | convolutionInteger (window : ConvWindow)
  deriving DecidableEq, Repr

def ConvDesc.window : ConvDesc → ConvWindow
  | .convolution _ window _ _ => window
  | .quantizedLinearConvolution window => window
  | .convolutionInteger window => window

/-! ## Kernel arguments -/

structure ConvKernelArgs where
  spatialDimCount : Nat
  kernelShape : List Nat
  strides : List Nat
  dilations : List Nat
  startPadding : List Nat
  endPadding : List Nat
  outputPadding : List Nat
  autoPad : Bool
  autoPadSameUpper : Bool
  deriving DecidableEq, Repr

/-- An attribute with a value for every spatial dimension; those that it lacks come first. -/
def kernelList (node : Node) (name : String) (fill spatial : Nat) : List Nat :=
  alignRight fill spatial ((getAttributeInts node name).map toUInt32)

def readConvKernelArgs (node : Node) (inputSizes : List Nat) : ConvKernelArgs :=
  let spatial := max 2 (inputSizes.length - 2)
  let autoPad := getAttributeString node "auto_pad" "NOTSET"
  let pads := getAttributeInts node "pads"
  let explicit := autoPad ∉ ["SAME_UPPER", "SAME_LOWER", "VALID"] ∧ 2 * spatial ≤ pads.length
  let zeros := List.replicate spatial 0
  { spatialDimCount := spatial
    kernelShape := kernelList node "kernel_shape" 1 spatial
    strides := kernelList node "strides" 1 spatial
    dilations := kernelList node "dilations" 1 spatial
    startPadding := if explicit then (pads.take spatial).map toUInt32 else zeros
    endPadding := if explicit then ((pads.drop spatial).take spatial).map toUInt32 else zeros
    outputPadding := kernelList node "output_padding" 0 spatial
    autoPad := autoPad = "SAME_UPPER" ∨ autoPad = "SAME_LOWER"
    autoPadSameUpper := autoPad = "SAME_UPPER" }

/-- Padding before and behind a dimension, for `SAME_UPPER` or `SAME_LOWER`. -/
def samePadding (upper : Bool) (input kernel stride dilation : Nat) : Nat × Nat :=
  let outputLength := toUInt32 (input + stride - 1) / stride
  let kernelLength := toUInt32 (1 + (kernel - 1) * dilation)
  let needed := toUInt32 (stride * (outputLength - 1) + kernelLength)
  let padding := if needed ≤ input then 0 else needed - input
  let start := if upper then padding / 2 else toUInt32 (padding + 1) / 2
  (start, padding - start)

/-- The size of a dimension of the output. -/
def forwardSize (input start finish kernel stride dilation : Nat) : Nat :=
  let kernelLength := toUInt32 ((kernel - 1) * dilation + 1)
  toUInt32 (toUInt32 (input + start + finish - kernelLength) / stride + 1)

/-- The same for a transposed convolution. -/
def backwardSize (input start finish kernel stride dilation outputPadding : Nat) : Nat :=
  toUInt32 ((input - 1) * stride - start - finish + ((kernel - 1) * dilation + 1) + outputPadding)

/-- Padding before and behind a dimension of a transposed convolution, from the size of its
output. -/
def backwardPadding (lower : Bool) (input output window stride : Nat) : Nat × Nat :=
  let difference := toInt32 ((input - 1) * stride + window) - toInt32 output
  let paddings := (max 0 (toInt32 difference)).toNat
  let start := if lower then toUInt32 (paddings + 1) / 2 else paddings / 2
  (start, paddings - start)

namespace ConvKernelArgs

variable (k : ConvKernelArgs)

/-- The spatial dimensions of a tensor. -/
def spatial {α : Type} (f : Nat → α) : List α :=
  (List.range k.spatialDimCount).map f

def withPadding (pads : List (Nat × Nat)) : ConvKernelArgs :=
  { k with startPadding := pads.map Prod.fst, endPadding := pads.map Prod.snd }

def resolveAutoPad (xSizes : List Nat) : ConvKernelArgs :=
  if k.autoPad then
    k.withPadding <| k.spatial fun d =>
      samePadding k.autoPadSameUpper (xSizes.getD (2 + d) 0) (k.kernelShape.getD d 0)
        (k.strides.getD d 0) (k.dilations.getD d 0)
  else k

def forwardSizes (xSizes : List Nat) (channels : Nat) : List Nat :=
  [xSizes.getD 0 0, channels] ++ k.spatial fun d =>
    forwardSize (xSizes.getD (2 + d) 0) (k.startPadding.getD d 0) (k.endPadding.getD d 0)
      (k.kernelShape.getD d 0) (k.strides.getD d 0) (k.dilations.getD d 0)

/-- From the end of `output_shape`, when that is given. -/
def backwardSizes (beyond : Nat → Nat) (outputShape : List Int) (xSizes : List Nat)
    (channels : Nat) : List Nat :=
  [xSizes.getD 0 0, channels] ++ k.spatial fun d =>
    if outputShape = [] then
      backwardSize (xSizes.getD (2 + d) 0) (k.startPadding.getD d 0) (k.endPadding.getD d 0)
        (k.kernelShape.getD d 0) (k.strides.getD d 0) (k.dilations.getD d 0)
        (k.outputPadding.getD d 0)
    else if d < outputShape.length then
      let i := (2 ^ 64 + outputShape.length + d - k.spatialDimCount) % 2 ^ 64
      (outputShape.map toUInt32).getD i (beyond i)
    else xSizes.getD (2 + d) 0

def withBackwardPadding (xSizes outSizes : List Nat) : ConvKernelArgs :=
  k.withPadding <| k.spatial fun d =>
    backwardPadding (k.autoPad && !k.autoPadSameUpper) (xSizes.getD (2 + d) 0)
      (outSizes.getD (2 + d) 0) (k.kernelShape.getD d 0) (k.strides.getD d 0)

def window (group : Int) : ConvWindow where
  dimensionCount := k.spatialDimCount
  strides := k.strides
  dilations := k.dilations
  startPadding := k.startPadding
  endPadding := k.endPadding
  groupCount := toUInt32 group

end ConvKernelArgs

/-! ## Convolutions -/

def makeTensorInfoAtAxis (sizes : List Nat) (dtype : DmlDataType) (placement targetDimCount : Nat) :
    DmlTensorInfo :=
  makeTensorInfo ((List.range targetDimCount).map fun i =>
    if placement ≤ i then sizes.getD (i - placement) 1 else 1) dtype

def convActivation (node : Node) : Option ConvActivation :=
  let alpha := getAttributeFloatOr node "activation_alpha"
  let beta := getAttributeFloatOr node "activation_beta"
  match getAttributeString node "activation" "" with
  | "Relu" => some .relu
  | "LeakyRelu" => some (.leakyRelu (alpha 0x3C23D70A))
  | "Sigmoid" => some .sigmoid
  | "Tanh" => some .tanh
  | "Elu" => some (.elu (alpha 0x3F800000))
  | "HardSigmoid" => some (.hardSigmoid (alpha 0x3E4CCCCD) (beta 0x3F000000))
  | "Linear" => some (.linear (alpha 0x3F800000) (beta 0))
  | _ => none

/-- How the recorded sizes of a convolution are read. -/
inductive ConvLayout
  | asRecorded
  | channelsLast
  | oneSpatial
  deriving DecidableEq, Repr

namespace ConvLayout

/-- `nhwc` and `is_1d`, when the tensors have four dimensions. -/
def ofInput (nhwc : Bool) (x : DmlTensorInfo) : ConvLayout :=
  if x.sizes.length ≠ 4 then .asRecorded
  else if nhwc then .channelsLast
  else if x.rank = 3 then .oneSpatial
  else .asRecorded

/-- The sizes in the order of DirectML. -/
def sizes : ConvLayout → List Nat → List Nat
  | .asRecorded, sizes => sizes
  | .channelsLast, sizes => [sizes.getD 0 0, sizes.getD 3 0, sizes.getD 1 0, sizes.getD 2 0]
  | .oneSpatial, sizes => [sizes.getD 1 0, sizes.getD 2 0, 1, sizes.getD 3 0]

/-- The tensor in these sizes: channels that come last are read by strides. -/
def tensor (layout : ConvLayout) (sizes : List Nat) (dtype : DmlDataType) : DmlTensorInfo :=
  match layout, sizes with
  | .channelsLast, n :: c :: h :: w :: _ =>
    makeTensorInfoWithStrides sizes [h * w * c % 2 ^ 32, 1, w * c % 2 ^ 32, c] dtype
      (n * c * h * w * dtype.size % 2 ^ 64)
  | _, _ => makeTensorInfo sizes dtype

end ConvLayout

def translateConvImpl (beyond : Nat → Nat) (direction : ConvDirection) (nhwc : Bool) :
    OpTranslator ConvDesc := fun node shapes _ =>
  match lookupInput node shapes 0, lookupInput node shapes 1, getNodeOutputNames node with
  | some xInfo, some wInfo, output :: _ =>
    let group := getAttributeInt node "group" 1
    let layout := ConvLayout.ofInput nhwc xInfo
    let x := layout.sizes xInfo.sizes
    let w := layout.sizes wInfo.sizes
    let dtype := xInfo.dataType
    let read := readConvKernelArgs node x
    let channels :=
      if direction = .forward then w.getD 0 0 else toUInt32 (w.getD 1 0 * group)
    let resolved := if direction = .forward then read.resolveAutoPad x else read
    let outSizes :=
      match shapes output with
      | some out =>
        if out.sizes.length ≠ 4 then out.sizes
        else if nhwc then ConvLayout.channelsLast.sizes out.sizes
        else layout.sizes out.sizes
      | none =>
        if direction = .forward then resolved.forwardSizes x channels
        else resolved.backwardSizes beyond (getAttributeInts node "output_shape") x channels
    let k := if direction = .forward then resolved else resolved.withBackwardPadding x outSizes
    let bias :=
      if validInput node shapes 2 then [makeTensorInfoAtAxis [channels] dtype 1 (max 4 x.length)]
      else []
    some
      { opDesc := .convolution direction (k.window group) (List.replicate k.spatialDimCount 0)
          (convActivation node)
        inputTensors := [layout.tensor x dtype, layout.tensor w dtype] ++ bias
        outputTensors := [layout.tensor outSizes dtype] }
  | _, _, _ => none

/-! ## Quantized convolutions -/

/-- A vector of channels comes first in the sizes; another tensor keeps its own. -/
def channelTensor (dimCount : Nat) (info : DmlTensorInfo) : DmlTensorInfo :=
  if info.rank = 1 then
    makeTensorInfoAtAxis [info.sizes.getLast?.getD 0] info.dataType 0 dimCount
  else makeTensorInfo info.sizes info.dataType

/-- The arguments and the output sizes of a quantized convolution. -/
def quantizedConv (node : Node) (shapes : ValueShapes) (x w : DmlTensorInfo) :
    ConvWindow × List Nat :=
  let k := (readConvKernelArgs node x.sizes).resolveAutoPad x.sizes
  (k.window (getAttributeInt node "group" 1),
    ((outEdge node shapes).map DmlTensorInfo.sizes).getD
      (k.forwardSizes x.sizes (w.sizes.getD 0 0)))

section

variable (node : Node) (shapes : ValueShapes)

/-- The shape of an optional input, when it is present. -/
def optionalShape (i : Nat) : Option DmlTensorInfo :=
  if validInput node shapes i then lookupInput node shapes i else none

/-- The slots of the inputs that are packed. -/
def packedSlots (slots : List (Nat × Option DmlTensorInfo)) : List Nat :=
  (slots.filter fun slot => slot.2.isSome).map Prod.fst

end

def translateQLinearConv : OpTranslator ConvDesc := fun node shapes _ =>
  if (getNodeInputNames node).length < 8 ∨ getNodeOutputNames node = [] then none
  else
    match lookupInput node shapes 0, lookupInput node shapes 1, lookupInput node shapes 3,
      lookupInput node shapes 4, lookupInput node shapes 6, lookupInput node shapes 7 with
    | some x, some xScale, some w, some wScale, some yScale, some yZeroPoint =>
      let whole := fun info : DmlTensorInfo => makeTensorInfo info.sizes info.dataType
      let channels := channelTensor x.sizes.length
      -- `input_name_reorder`
      let slots :=
        [(0, some (whole x)), (1, some (whole xScale)),
          (2, (optionalShape node shapes 2).map whole), (3, some (whole w)),
          (4, some (channels wScale)),
          (5, (optionalShape node shapes 5).map channels),
          (8, (optionalShape node shapes 8).map channels), (6, some (whole yScale)),
          (7, some (whole yZeroPoint))]
      let conv := quantizedConv node shapes x w
      some
        { opDesc := .quantizedLinearConvolution conv.1
          inputTensors := slots.filterMap Prod.snd
          outputTensors := [makeTensorInfo conv.2 yZeroPoint.dataType]
          inputNameReorder := packedSlots slots }
    | _, _, _, _, _, _ => none

def translateConvInteger : OpTranslator ConvDesc := fun node shapes _ =>
  if (getNodeInputNames node).length < 2 ∨ getNodeOutputNames node = [] then none
  else
    match lookupInput node shapes 0, lookupInput node shapes 1 with
    | some x, some w =>
      let whole := fun info : DmlTensorInfo => makeTensorInfo info.sizes info.dataType
      let slots :=
        [(0, some (whole x)), (2, (optionalShape node shapes 2).map whole), (1, some (whole w)),
          (3, (optionalShape node shapes 3).map (channelTensor x.sizes.length))]
      let conv := quantizedConv node shapes x w
      some
        { opDesc := .convolutionInteger conv.1
          inputTensors := slots.filterMap Prod.snd
          outputTensors := [makeTensorInfo conv.2 .int32]
          inputNameReorder := packedSlots slots }
    | _, _ => none

end AmdGpuEp.DirectML
