import AmdGpuEp.DirectML.FusionUtils

/-!
# Operator translators of the DirectML provider

`dml_op_translators.h` and the part of `dml_op_translators.cc` that every
translator shares: tensor descriptions, the `TranslatedOp` a translator returns,
and the registry. A translator is a parameter of the passes that use it; the
shape-only operators, the unary activations and `MatMulNBits` are given here. An
operator description is of a type `D`.

Results:
1. `translateReshape_local`, `translateUnaryActivation_local`: these translators
   look up the shapes of the names of their node only.
2. `translateUnaryActivation_kept`, `translateMatMulNBits_kept`: these translators
   do not elide their node.
-/

namespace AmdGpuEp.DirectML

/-! ## Tensor descriptions -/

inductive DmlDataType
  | unknown
  | float32 | float16 | float64
  | uint4 | uint8 | uint16 | uint32 | uint64
  | int8 | int16 | int32 | int64
  deriving DecidableEq, Repr

/-- `DmlDataTypeSize`. -/
def DmlDataType.size : DmlDataType → Nat
  | .float32 | .uint32 | .int32 => 4
  | .float16 | .uint16 | .int16 => 2
  | .uint8 | .int8 => 1
  | .float64 | .uint64 | .int64 => 8
  | .uint4 | .unknown => 0

/-- `DmlTensorInfo`. The original rank is 0 when it is unknown. -/
structure DmlTensorInfo where
  dataType : DmlDataType := .unknown
  sizes : List Nat := []
  strides : List Nat := []
  totalBytes : Nat := 0
  originalRank : Nat := 0
  deriving DecidableEq, Repr

/-- `original_rank ? original_rank : padded_rank`. -/
def DmlTensorInfo.rank (info : DmlTensorInfo) : Nat :=
  if info.originalRank = 0 then info.sizes.length else info.originalRank

def padToMinDims (sizes : List Nat) (minDims : Nat) : List Nat :=
  List.replicate (minDims - sizes.length) 1 ++ sizes

/-- `ComputeAlignedTotalBytes`: at least 4 bytes, rounded up to 4, in 64 bits. -/
def computeAlignedTotalBytes (sizes : List Nat) (dtype : DmlDataType) : Nat :=
  if dtype.size = 0 then 0
  else
    let bytes := max (sizes.foldl (fun count s => count * s % 2 ^ 64) 1 * dtype.size % 2 ^ 64) 4
    (bytes + 3) % 2 ^ 64 / 4 * 4

def makeTensorInfo (sizes : List Nat) (dtype : DmlDataType) : DmlTensorInfo :=
  let padded := padToMinDims sizes 4
  { dataType := dtype, sizes := padded, totalBytes := computeAlignedTotalBytes padded dtype }

/-- `ComputePackedStrides`, in 32 bits. -/
def computePackedStrides : List Nat → List Nat
  | [] => []
  | _ :: sizes =>
    sizes.foldr (fun s stride => stride * s % 2 ^ 32) 1 :: computePackedStrides sizes

def makeTensorInfoWithStrides (sizes strides : List Nat) (dtype : DmlDataType)
    (totalBytes : Nat) : DmlTensorInfo :=
  let padded := padToMinDims sizes 4
  { dataType := dtype
    sizes := padded
    strides := List.replicate (padded.length - strides.length) 0 ++ strides
    totalBytes := (max totalBytes 4 + 3) % 2 ^ 64 / 4 * 4 }

/-- `value_shapes`. -/
abbrev ValueShapes := String → Option DmlTensorInfo

/-- An initializer: its bytes are missing when they cannot be read. -/
structure Initializer where
  dataType : DmlDataType
  dims : List Nat
  bytes : Option (List UInt8)
  deriving DecidableEq, Repr

/-! ## Translated operators -/

/-- A further operator of a translation. An input comes from an output of another sub-node or, for
-1, of the primary node, or it is wired by `graphInputs`: pairs of an ONNX input and an input
slot. -/
structure SubNode (D : Type) where
  opDesc : D
  inputFrom : List (Int × Int) := []
  graphInputs : List (Nat × Nat) := []
  deriving DecidableEq, Repr

structure TranslatedOp (D : Type) where
  opDesc : D
  inputTensors : List DmlTensorInfo
  outputTensors : List DmlTensorInfo
  passthrough : Bool := false
  subNodes : List (SubNode D) := []
  inputNameReorder : List Nat := []
  dmlInputSlotIndices : List Nat := []
  primaryInputCount : Nat := 0
  outputSource : List (Int × Int) := []
  deriving DecidableEq, Repr

abbrev OpTranslator (D : Type) :=
  Node → ValueShapes → (String → Option Initializer) → Option (TranslatedOp D)

abbrev OpTranslatorRegistry (D : Type) := String → Option (OpTranslator D)

/-- The translator looks up the shapes of the names of its node only. -/
def OpTranslator.Local {D : Type} (translator : OpTranslator D) : Prop :=
  ∀ node shapes shapes' initializers,
    (∀ name, name ∈ getNodeInputNames node ∨ name ∈ getNodeOutputNames node →
      shapes name = shapes' name) →
    translator node shapes initializers = translator node shapes' initializers

def OpTranslatorRegistry.Local {D : Type} (registry : OpTranslatorRegistry D) : Prop :=
  ∀ op, ∀ translator ∈ registry op, OpTranslator.Local translator

/-! ## Translators -/

section

variable {D : Type}

/-- `TranslateShapeOnly`: `Flatten`, `Squeeze` and `Unsqueeze` are elided. -/
def translateShapeOnly (desc : D) : OpTranslator D := fun node shapes _ =>
  match (getNodeInputNames node).head?.bind shapes, (getNodeOutputNames node).head?.bind shapes with
  | some inInfo, some outInfo =>
    let outTensor := makeTensorInfo outInfo.sizes inInfo.dataType
    some
      { opDesc := desc, inputTensors := [outTensor], outputTensors := [outTensor],
        passthrough := true }
  | _, _ => none

/-- `TranslateReshape`: the same, for a node that has a shape input too. -/
def translateReshape (desc : D) : OpTranslator D := fun node shapes initializers =>
  if (getNodeInputNames node).length < 2 then none
  else translateShapeOnly desc node shapes initializers

/-- `TranslateUnaryActivation`. -/
def translateUnaryActivation (desc : D) : OpTranslator D := fun node shapes _ =>
  if (getNodeOutputNames node).isEmpty then none
  else
    ((getNodeInputNames node).head?.bind shapes).map fun inInfo =>
      let info := makeTensorInfo inInfo.sizes inInfo.dataType
      { opDesc := desc, inputTensors := [info], outputTensors := [info] }

/-- The last two dimensions are given, the others are 1. -/
def matrixShape (rank rows cols : Nat) : List Nat :=
  List.replicate (rank - 2) 1 ++ [rows, cols]

/-- The strides of a matrix that is broadcast over the batch dimensions of `aSizes`. -/
def broadcastStrides (shape aSizes : List Nat) : List Nat :=
  (computePackedStrides shape).zipIdx.map fun entry =>
    if entry.2 + 2 < shape.length ∧ shape[entry.2]? = some 1 ∧ 1 < aSizes.getD entry.2 0 then 0
    else entry.1

/-- `TranslateMatMulNBits`: `B` is dequantized, and a sub-node multiplies `A` with it. `dequantize`
is told whether there is a zero point. -/
def translateMatMulNBits (dequantize : Bool → D) (gemm : D) : OpTranslator D :=
  fun node shapes _ =>
    let inputs := getNodeInputNames node
    let given := fun i => (inputs[i]?.filter (· != "")).bind shapes
    let n := (getAttributeInt node "N" 0 % 2 ^ 32).toNat
    let k := (getAttributeInt node "K" 0 % 2 ^ 32).toNat
    let bits := getAttributeInt node "bits" 0
    let blockSize := getAttributeInt node "block_size" 0
    if inputs.length < 3 ∨ (getNodeOutputNames node).isEmpty then none
    else if (given 4).isSome ∨ (given 5).isSome then none
    else
      match inputs[0]?.bind shapes, inputs[1]?.bind shapes, inputs[2]?.bind shapes with
      | some a, some b, some scale =>
        if bits ≠ 4 ∧ bits ≠ 8 then none
        else if blockSize ≤ 0 ∨ k.cast % blockSize ≠ 0 then none
        else if a.sizes.length < 2 then none
        else
          let quantized : DmlDataType := if bits = 4 then .uint4 else .uint8
          let rank := a.sizes.length
          let batch := (a.sizes.take (rank - 2)).map (max 1)
          let bytes := fun info : DmlTensorInfo =>
            if info.totalBytes = 0 then computeAlignedTotalBytes info.sizes info.dataType
            else info.totalBytes
          let bTensor := makeTensorInfoWithStrides (batch ++ [n, k])
            (broadcastStrides (matrixShape rank n k) a.sizes) quantized (bytes b)
          let cols := scale.sizes.foldl (fun count s => count * s % 2 ^ 64) 1 / n % 2 ^ 32
          let scaleStrides := broadcastStrides (matrixShape rank n cols) a.sizes
          let scaleTensor := makeTensorInfoWithStrides (batch ++ [n, cols]) scaleStrides a.dataType
            (computeAlignedTotalBytes scale.sizes scale.dataType)
          -- UINT4 rows of odd length are padded
          let zeroStrides :=
            if bits = 4 ∧ cols % 2 ≠ 0 then scaleStrides.set (rank - 2) (cols + 1)
            else scaleStrides
          let zeroPoint := (given 3).map fun info =>
            makeTensorInfoWithStrides (batch ++ [n, cols]) zeroStrides quantized (bytes info)
          let outSizes :=
            match (getNodeOutputNames node).head?.bind shapes with
            | some out => out.sizes
            | none => a.sizes.dropLast ++ [n]
          some
            { opDesc := dequantize zeroPoint.isSome
              inputTensors := [bTensor, scaleTensor] ++ zeroPoint.toList ++
                [makeTensorInfo a.sizes a.dataType]
              outputTensors := [makeTensorInfo outSizes a.dataType]
              subNodes :=
                [{ opDesc := gemm, inputFrom := [(-2, 0), (-1, 0)], graphInputs := [(0, 0)] }]
              inputNameReorder := [1, 2] ++ (if zeroPoint.isSome then [3] else []) ++ [0]
              primaryInputCount := if zeroPoint.isSome then 3 else 2 }
      | _, _, _ => none

theorem head?_bind_congr {names : List String} {shapes shapes' : ValueShapes}
    (h : ∀ name ∈ names, shapes name = shapes' name) :
    names.head?.bind shapes = names.head?.bind shapes' := by
  cases names with
  | nil => rfl
  | cons name names => exact h name List.mem_cons_self

theorem translateShapeOnly_local (desc : D) : OpTranslator.Local (translateShapeOnly desc) := by
  intro node shapes shapes' initializers h
  unfold translateShapeOnly
  rw [head?_bind_congr fun name hname => h name (Or.inl hname),
    head?_bind_congr fun name hname => h name (Or.inr hname)]

theorem translateReshape_local (desc : D) : OpTranslator.Local (translateReshape desc) := by
  intro node shapes shapes' initializers h
  unfold translateReshape
  rw [translateShapeOnly_local desc node shapes shapes' initializers h]

theorem translateUnaryActivation_local (desc : D) :
    OpTranslator.Local (translateUnaryActivation desc) := by
  intro node shapes shapes' initializers h
  unfold translateUnaryActivation
  rw [head?_bind_congr fun name hname => h name (Or.inl hname)]

theorem translateUnaryActivation_kept {desc : D} {node : Node} {shapes : ValueShapes}
    {initializers : String → Option Initializer} {translated : TranslatedOp D}
    (h : translateUnaryActivation desc node shapes initializers = some translated) :
    translated.passthrough = false := by
  unfold translateUnaryActivation at h
  split at h
  · cases h
  · obtain ⟨info, -, rfl⟩ := Option.map_eq_some_iff.1 h
    rfl

theorem translateMatMulNBits_kept {dequantize : Bool → D} {gemm : D} {node : Node}
    {shapes : ValueShapes} {initializers : String → Option Initializer}
    {translated : TranslatedOp D}
    (h : translateMatMulNBits dequantize gemm node shapes initializers = some translated) :
    translated.passthrough = false := by
  unfold translateMatMulNBits at h
  extract_lets at h
  iterate 2
    split at h
    · cases h
  split at h
  · iterate 3
      split at h
      · cases h
    extract_lets at h
    cases h
    rfl
  · cases h

end

end AmdGpuEp.DirectML
