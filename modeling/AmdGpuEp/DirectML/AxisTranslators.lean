import AmdGpuEp.DirectML.ConvTranslators
import AmdGpuEp.DirectML.Pad

/-!
# Translators that carry an axis

The translators of `dml_op_translators.cc` whose descriptions name axes, beside
`TranslateSoftmax`, `TranslateGather` and `TranslateReduce`. They count an axis from the rank
before padding and move it behind the padding; most do not check it.

DirectML keeps all dimensions of a reduction, whatever `keepdims` says.
-/

namespace AmdGpuEp.DirectML

/-! ## Descriptions -/

/-- The operator descriptions with axes. A `DML_JOIN_OPERATOR_DESC` stands with its tensors. -/
inductive AxisDesc
  | softmax (axis : Nat)
  | logSoftmax (axis : Nat)
  | hardmax (axis : Nat)
  | lpNormalization (axis : Nat) (epsilon : UInt32) (p : Nat)
  | argMax (axis : Nat) (axisDirection : AxisDirection)
  | argMin (axis : Nat) (axisDirection : AxisDirection)
  | join (axis : Nat) (inputs : List DmlTensorInfo) (output : DmlTensorInfo)
  | dequantizeLinear (output : DmlTensorInfo)
  | quantizeLinear
  | split (axis : Nat)
  | gather (axis indexDimensions : Nat)
  | gatherElements (axis : Nat)
  | scatter (axis : Nat)
  | oneHot (axis : Nat)
  deriving DecidableEq, Repr

/-! ## The translators -/

/-- `dml_axis`, when the axis is not checked. -/
def uncheckedAxis (info : DmlTensorInfo) (axis : Int) : Nat :=
  toUInt32 (windowAxis info axis)

/-- The sizes are those of the input, and the axis is the last one by default. -/
def translateAlongAxis (desc : Nat → AxisDesc) : OpTranslator AxisDesc := fun node shapes _ =>
  withShapes node shapes fun inInfo _ =>
    let info := makeTensorInfo inInfo.sizes inInfo.dataType
    some
      { opDesc := desc (uncheckedAxis inInfo (getAttributeInt node "axis" (-1)))
        inputTensors := [info]
        outputTensors := [info] }

def translateLogSoftmax : OpTranslator AxisDesc :=
  translateAlongAxis .logSoftmax

def translateHardmax : OpTranslator AxisDesc :=
  translateAlongAxis .hardmax

def translateLpNormalization : OpTranslator AxisDesc := fun node =>
  translateAlongAxis
    (fun axis => .lpNormalization axis 0x3727C5AC (toUInt32 (getAttributeInt node "p" 2))) node

/-- An axis behind the sizes is not written here. -/
def translateArgMaxMin (desc : Nat → AxisDirection → AxisDesc) : OpTranslator AxisDesc :=
  fun node shapes _ =>
    withShapes node shapes fun inInfo outEdge =>
      let axis := windowAxis inInfo (getAttributeInt node "axis" 0)
      let outSizes := (outEdge.map DmlTensorInfo.sizes).getD
        (if getAttributeInt node "keepdims" 1 ≠ 0 then inInfo.sizes.set axis.toNat 1
        else
          match inInfo.sizes.eraseIdx axis.toNat with
          | [] => [1]
          | kept => kept)
      some
        { opDesc := desc (toUInt32 axis)
            (if getAttributeInt node "select_last_index" 0 ≠ 0 then .decreasing else .increasing)
          inputTensors := [makeTensorInfo inInfo.sizes inInfo.dataType]
          outputTensors := [makeTensorInfo outSizes .int64] }

/-- `concat_dim`, in 32 bits. -/
def joinedSize (infos : List DmlTensorInfo) (axis : Nat) : Nat :=
  infos.foldl (fun total info => (total + info.sizes.getD axis 0) % 2 ^ 32) 0

def translateConcat : OpTranslator AxisDesc := fun node shapes _ =>
  withShapes node shapes fun firstInfo outEdge =>
    ((getNodeInputNames node).mapM shapes).map fun infos =>
      let tensors := infos.map fun info => makeTensorInfo info.sizes info.dataType
      let sizes := (tensors.headD {}).sizes
      let axis := uncheckedAxis { firstInfo with sizes := sizes } (getAttributeInt node "axis" 0)
      let outSizes := (outEdge.map fun edge => padToMinDims edge.sizes 4).getD
        (sizes.set axis (joinedSize tensors axis))
      let out := makeTensorInfo outSizes (tensors.headD {}).dataType
      { opDesc := .join axis tensors out
        inputTensors := tensors
        outputTensors := [out] }

/-- The sub-nodes are the further dequantizations, the join and the quantization. -/
def translateQLinearConcat : OpTranslator AxisDesc := fun node shapes _ =>
  let names := getNodeInputNames node
  let count := (names.length - 2) / 3
  if names.length < 5 ∨ getNodeOutputNames node = [] ∨ (names.length - 2) % 3 ≠ 0 ∨ "" ∈ names then
    none
  else
    match outEdge node shapes, names.mapM shapes with
    | some edge, some infos =>
      let axis := getAttributeInt node "axis" 0
      let axis := toUInt32 (if axis < 0 then axis + edge.sizes.length else axis)
      let tensor := fun i => makeTensorInfo (infos.getD i {}).sizes (infos.getD i {}).dataType
      let dequantized := (List.range count).map fun t =>
        makeTensorInfo (infos.getD (2 + t * 3) {}).sizes .float32
      let joined := makeTensorInfo edge.sizes .float32
      let order := (List.range names.length).drop 2 ++ [0, 1]
      let dequantize := fun t : Nat =>
        { opDesc := .dequantizeLinear (dequantized.getD t {})
          inputFrom := [(-2, 0), (-2, 0), (-2, 0)]
          graphInputs := [(2 + t * 3, 0), (3 + t * 3, 1), (4 + t * 3, 2)] : SubNode AxisDesc }
      some
        { opDesc := .dequantizeLinear (dequantized.getD 0 {})
          inputTensors := order.map tensor
          outputTensors := [makeTensorInfo edge.sizes (infos.getD 1 {}).dataType]
          inputNameReorder := order
          primaryInputCount := 3
          subNodes := (List.range (count - 1)).map (fun t => dequantize (t + 1)) ++
            [{ opDesc := .join axis dequantized joined
               inputFrom := (List.range count).map fun (t : Nat) => ((t : Int) - 1, 0) },
              { opDesc := .quantizeLinear
                inputFrom := [((count : Int) - 1, 0), (-2, 0), (-2, 0)]
                graphInputs := [(0, 1), (1, 2)] }] }
    | _, _ => none

/-- `split_sizes_vec`. -/
def splitSizes (node : Node) (total : Nat) : List Nat :=
  match getAttributeInts node "split" with
  | [] =>
    let count := (getNodeOutputNames node).length
    List.replicate count (total / count)
  | given => given.map toUInt32

def translateSplit : OpTranslator AxisDesc := fun node shapes _ =>
  withShapes node shapes fun inInfo _ =>
    let axis := windowAxis inInfo (getAttributeInt node "axis" 0)
    let sizes := splitSizes node (inInfo.sizes.getD axis.toNat 0)
    let outTensors := (getNodeOutputNames node).mapIdx fun o name =>
      makeTensorInfo (((shapes name).map DmlTensorInfo.sizes).getD
        (inInfo.sizes.set axis.toNat (sizes.getD o 0))) inInfo.dataType
    some
      { opDesc := .split (toUInt32 axis)
        inputTensors := [makeTensorInfo inInfo.sizes inInfo.dataType]
        outputTensors := outTensors }

def translateGatherElements : OpTranslator AxisDesc := fun node shapes _ =>
  match lookupInput node shapes 0, lookupInput node shapes 1, getNodeOutputNames node with
  | some data, some indices, _ :: _ =>
    let outSizes := ((outEdge node shapes).map DmlTensorInfo.sizes).getD indices.sizes
    some
      { opDesc := .gatherElements (uncheckedAxis data (getAttributeInt node "axis" 0))
        inputTensors :=
          [makeTensorInfo data.sizes data.dataType, makeTensorInfo indices.sizes indices.dataType]
        outputTensors := [makeTensorInfo outSizes data.dataType] }
  | _, _, _ => none

def translateScatterElements : OpTranslator AxisDesc := fun node shapes _ =>
  match lookupInput node shapes 0, lookupInput node shapes 1, lookupInput node shapes 2,
    getNodeOutputNames node with
  | some data, some indices, some updates, _ :: _ =>
    some
      { opDesc := .scatter (uncheckedAxis data (getAttributeInt node "axis" 0))
        inputTensors :=
          [makeTensorInfo data.sizes data.dataType, makeTensorInfo indices.sizes indices.dataType,
            makeTensorInfo updates.sizes data.dataType]
        outputTensors := [makeTensorInfo data.sizes data.dataType] }
  | _, _, _, _ => none

def translateOneHot : OpTranslator AxisDesc := fun node shapes _ =>
  match lookupInput node shapes 0, lookupInput node shapes 2, outEdge node shapes with
  | some indices, some values, some out =>
    let axis := getAttributeInt node "axis" (-1)
    let axis := if axis < 0 then axis + (indices.rank + 1) else axis
    some
      { opDesc := .oneHot (toUInt32 (axis + (out.sizes.length - out.rank)))
        inputTensors :=
          [makeTensorInfo indices.sizes indices.dataType, makeTensorInfo values.sizes values.dataType]
        outputTensors := [makeTensorInfo out.sizes out.dataType]
        inputNameReorder := [0, 2] }
  | _, _, _ => none

end AmdGpuEp.DirectML
