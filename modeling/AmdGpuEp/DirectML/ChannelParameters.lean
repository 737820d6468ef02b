import AmdGpuEp.DirectML.ConvTranslators
import AmdGpuEp.DirectML.Pad

/-!
# Where parameters are placed

A normalization or a quantization has parameters beside its data: vectors with a value
for every channel, or tensors that are repeated along the data. The translators parameterTensor
them in the dimensions of the data, most of them by `MakeTensorInfoAtAxis`, and DirectML
repeats the dimensions of size 1.

Results:
1. `combines_vector_iff`, `combines_repeated`: when DirectML takes the right element.
2. `channelParameters_iff`: for which operators, shapes and axes it does.
3. `batchNorm_misplaced`: a batch of sequences.
-/

namespace AmdGpuEp.DirectML

/-! ## The translators -/

inductive NormDesc
  | meanVarianceNormalization1 (axes : List Nat) (epsilon : UInt32)
  | batchNormalization (epsilon : UInt32)
  | quantize (hasZeroPoint : Bool)
  | dequantize (hasZeroPoint : Bool)
  deriving DecidableEq, Repr

/-- The axes that are normalized over. -/
def NormDesc.axes : NormDesc → List Nat
  | .meanVarianceNormalization1 axes _ => axes
  | _ => []

/-- `InstanceNormalization` is told by its default axis. -/
def translateLayerNorm (simplified : Bool) (defaultAxis : Int) : OpTranslator NormDesc :=
  fun node shapes _ =>
    match lookupInput node shapes 0, lookupInput node shapes 1, getNodeOutputNames node with
    | some inInfo, some scaleInfo, _ :: _ =>
      let rank := inInfo.sizes.length
      let axis := getAttributeInt node "axis" defaultAxis
      let axis := (if axis < 0 then axis + inInfo.rank else axis) + (rank - inInfo.rank)
      let dimCount := max rank 4
      let data := makeTensorInfo (padToMinDims inInfo.sizes dimCount) inInfo.dataType
      let parameter := fun info : DmlTensorInfo =>
        if defaultAxis = 2 then
          makeTensorInfoAtAxis [info.sizes.getLast?.getD 0] info.dataType (rank - inInfo.rank + 1)
            dimCount
        else makeTensorInfo (padToMinDims info.sizes dimCount) info.dataType
      let bias := if simplified then none else optionalShape node shapes 2
      some
        { opDesc := .meanVarianceNormalization1
            (if axis < 0 then [] else (List.range rank).drop axis.toNat)
            (getAttributeFloatOr node "epsilon" 0x3727C5AC)
          inputTensors := [data, parameter scaleInfo] ++ (bias.map parameter).toList
          outputTensors := [data] }
    | _, _, _ => none

def translateBatchNorm : OpTranslator NormDesc := fun node shapes _ =>
  match lookupInput node shapes 0, lookupInput node shapes 1, lookupInput node shapes 2,
    lookupInput node shapes 3, lookupInput node shapes 4, getNodeOutputNames node with
  | some x, some scale, some b, some mean, some var, _ :: _ =>
    let data := makeTensorInfo x.sizes x.dataType
    let parameter := fun info : DmlTensorInfo =>
      makeTensorInfoAtAxis [x.sizes.getD 1 0] info.dataType 1 data.sizes.length
    some
      { opDesc := .batchNormalization (getAttributeFloatOr node "epsilon" 0x3727C5AC)
        inputTensors := [data, parameter mean, parameter var, parameter scale, parameter b]
        outputTensors := [data] }
  | _, _, _, _, _, _ => none

/-- What `TranslateQuantizeLinear` and `TranslateDequantizeLinear` share. `desc` is told whether
there is a zero point, `outType` the types of scale and zero point. -/
def translateQuantization (desc : Bool → NormDesc)
    (outType : DmlDataType → Option DmlDataType → DmlDataType) : OpTranslator NormDesc :=
  fun node shapes _ =>
    match lookupInput node shapes 0, lookupInput node shapes 1, getNodeOutputNames node with
    | some x, some scale, _ :: _ =>
      let zeroPoint := optionalShape node shapes 2
      let whole := fun info : DmlTensorInfo => makeTensorInfo info.sizes info.dataType
      some
        { opDesc := desc zeroPoint.isSome
          inputTensors := [whole x, whole scale] ++ (zeroPoint.map whole).toList
          outputTensors := [makeTensorInfo x.sizes
            (outType scale.dataType (zeroPoint.map DmlTensorInfo.dataType))] }
    | _, _, _ => none

def translateQuantizeLinear : OpTranslator NormDesc :=
  translateQuantization .quantize fun _ zeroPoint => zeroPoint.getD .uint8

def translateDequantizeLinear : OpTranslator NormDesc :=
  translateQuantization .dequantize fun scale _ => scale

/-! ## Operators with parameters -/

inductive ParameterOp
  | layerNorm (simplified : Bool)
  | instanceNorm
  | batchNorm
  | quantizeLinear
  | dequantizeLinear
  | qLinearConv
  | convInteger
  deriving DecidableEq, Repr

/-- The tensors that the inputs of a node are packed as, and the axes that are normalized over. -/
structure ParameterView where
  tensors : List (Nat × DmlTensorInfo)
  axes : List Nat
  deriving DecidableEq, Repr

/-- The ONNX shape behind the padding. -/
def DmlTensorInfo.shape (info : DmlTensorInfo) : List Nat :=
  info.sizes.drop (info.sizes.length - info.rank)

namespace ParameterOp

/-- The translation, with the inputs in the order of the packed tensors. -/
def view (op : ParameterOp) (node : Node) (shapes : ValueShapes)
    (initializers : String → Option Initializer) : Option ParameterView :=
  let norm := fun (translator : OpTranslator NormDesc) (order : List Nat) =>
    (translator node shapes initializers).map fun t =>
      { tensors := order.zip t.inputTensors, axes := t.opDesc.axes : ParameterView }
  let conv := fun translator : OpTranslator ConvDesc =>
    (translator node shapes initializers).map fun t =>
      { tensors := t.inputNameReorder.zip t.inputTensors, axes := [] : ParameterView }
  match op with
  | .layerNorm simplified => norm (translateLayerNorm simplified (-1)) [0, 1, 2]
  | .instanceNorm => norm (translateLayerNorm false 2) [0, 1, 2]
  | .batchNorm => norm translateBatchNorm [0, 3, 4, 1, 2]
  | .quantizeLinear => norm translateQuantizeLinear [0, 1, 2]
  | .dequantizeLinear => norm translateDequantizeLinear [0, 1, 2]
  | .qLinearConv => conv translateQLinearConv
  | .convInteger => conv translateConvInteger

/-- The inputs that must be there. -/
def required : ParameterOp → List Nat
  | .layerNorm _ | .instanceNorm | .quantizeLinear | .dequantizeLinear | .convInteger => [0, 1]
  | .batchNorm => [0, 1, 2, 3, 4]
  | .qLinearConv => [0, 1, 3, 4, 6, 7]

/-- The inputs that are parameters: scale, bias, mean, variance and zero point; of a convolution
those of its filter, and the bias. -/
def parameters : ParameterOp → List Nat
  | .layerNorm true => [1]
  | .layerNorm false | .instanceNorm | .quantizeLinear | .dequantizeLinear => [1, 2]
  | .batchNorm => [1, 2, 3, 4]
  | .qLinearConv => [4, 5, 8]
  | .convInteger => [3]

def isConv : ParameterOp → Bool
  | .qLinearConv | .convInteger => true
  | _ => false

/-- The dimension of a node: the first that is normalized, or that of the channels. -/
def HasAxis (op : ParameterOp) (node : Node) (rank axis : Nat) : Prop :=
  match op with
  | .layerNorm _ =>
    ValidAxis rank (getAttributeInt node "axis" (-1)) ∧
      axis = placeOfAxis rank (getAttributeInt node "axis" (-1))
  | .instanceNorm => getAttributeInt node "axis" 2 = 2 ∧ axis = 1
  | .quantizeLinear | .dequantizeLinear =>
    ValidAxis rank (getAttributeInt node "axis" 1) ∧
      axis = placeOfAxis rank (getAttributeInt node "axis" 1)
  | .batchNorm | .qLinearConv | .convInteger => axis = 1

/-- A shape that a parameter may have: that of a vector of channels, or one that is repeated along
the data. A quantization may have one parameter for all channels, too. -/
def HasShape (op : ParameterOp) (shape : List Nat) (axis : Nat) (s : List Nat) : Prop :=
  match op with
  | .layerNorm _ => s.length ≤ shape.length ∧
      List.Forall₂ (fun d e => d = e ∨ d = 1) s (shape.drop (shape.length - s.length))
  | .instanceNorm | .batchNorm => s = [shape.getD axis 0]
  | _ => s.length = 1 → s = [shape.getD axis 0]

/-- A parameter of this shape has a value for every channel, or it is repeated. -/
def PerChannel (op : ParameterOp) (s : List Nat) : Prop :=
  match op with
  | .layerNorm _ => True
  | _ => s.length = 1

/-- The dimensions of the data that ONNX normalizes over. -/
def normalized (op : ParameterOp) (rank axis : Nat) : List Nat :=
  match op with
  | .layerNorm _ => (List.range rank).drop axis
  | .instanceNorm => (List.range rank).drop 2
  | _ => []

/-- The element of a parameter that ONNX combines with an element of the data. -/
def element (op : ParameterOp) (axis : Nat) (s idx : List Nat) : Nat :=
  match op with
  | .layerNorm _ => rowMajor s (restrictTo s idx)
  | _ => idx.getD axis 0

end ParameterOp

/-- DirectML repeats the parameter along the data in these sizes, and takes this element of it. -/
def Combines (sizes : List Nat) (element : List Nat → Nat) (p : DmlTensorInfo) : Prop :=
  List.Forall₂ (fun d e => d = e ∨ d = 1) p.sizes sizes ∧
    ∀ idx, InBounds idx sizes → p.offset (restrict p.sizes idx) = element idx

/-- What a node says and what is recorded of its tensors. `shape` is that of the data, and of the
result of a convolution. -/
structure ParameterNode (op : ParameterOp) (node : Node) (shapes : ValueShapes) (shape : List Nat)
    (axis : Nat) : Prop where
  rank : 2 ≤ shape.length
  positive : ∀ d ∈ shape, 0 < d
  output : getNodeOutputNames node ≠ []
  required : ∀ i ∈ op.required, (optionalShape node shapes i).isSome
  data : ∀ info, optionalShape node shapes 0 = some info →
    info.rank = shape.length ∧ if op.isConv then info.sizes.length = max 4 shape.length
      else info.sizes = padToMinDims shape 4
  along : axis < shape.length ∧ op.HasAxis node shape.length axis
  parameter : ∀ i ∈ op.parameters, ∀ info, optionalShape node shapes i = some info →
    ∃ s, info.sizes = padToMinDims s 4 ∧ info.rank = s.length ∧ op.HasShape shape axis s

/-- The node is translated; DirectML normalizes over the ONNX axes, behind the padding, and combines
every element with the element of each parameter that ONNX combines it with. -/
def PlacesParameters (op : ParameterOp) (node : Node) (shapes : ValueShapes)
    (initializers : String → Option Initializer) (shape : List Nat) (axis : Nat) : Prop :=
  ∃ v, op.view node shapes initializers = some v ∧
    v.axes = (op.normalized shape.length axis).map (· + (4 - shape.length)) ∧
    ∀ i ∈ op.parameters, ∀ info, optionalShape node shapes i = some info →
      op.PerChannel info.shape → ∃ p, (i, p) ∈ v.tensors ∧
        Combines (padToMinDims shape 4)
          (fun idx => op.element axis info.shape (idx.drop (4 - shape.length))) p

/-- The operators, shapes and axes for which it is so. -/
def ParameterOp.Exact (op : ParameterOp) (shape : List Nat) (axis : Nat) : Prop :=
  match op with
  | .layerNorm _ | .instanceNorm => True
  | .batchNorm => 4 ≤ shape.length ∨ shape.getD 1 0 = 1 ∧ (shape.length = 3 → shape.getD 0 0 = 1)
  | .quantizeLinear | .dequantizeLinear =>
    shape.length ≤ 4 ∧ (axis + 1 = shape.length ∨ shape.getD axis 0 = 1)
  | .qLinearConv | .convInteger => shape.getD 1 0 = 1

namespace ChannelParametersLemmas

/-! ## A vector along one dimension -/

/-- The sizes of a vector of length `c` behind `k` dimensions and in front of `m` others. -/
def vectorSizes (k c m : Nat) : List Nat :=
  List.replicate k 1 ++ c :: List.replicate m 1

theorem length_vectorSizes (k c m : Nat) : (vectorSizes k c m).length = k + 1 + m := by
  simp [vectorSizes]
  omega

theorem getD_vectorSizes {k c m i : Nat} (hi : i < k + 1 + m) :
    (vectorSizes k c m).getD i 0 = if i = k then c else 1 := by
  rw [vectorSizes]
  rcases Nat.lt_trichotomy i k with hlt | rfl | hgt
  · rw [List.getD_append _ _ _ _ (by simpa using hlt), if_neg hlt.ne]
    simp [hlt]
  · simp
  · obtain ⟨j, rfl⟩ : ∃ j, i = k + (j + 1) := ⟨i - k - 1, by omega⟩
    have hj : j < m := by omega
    simp [List.getD_eq_getElem?_getD, hj]

theorem rowMajor_vector (k c m : Nat) (idx : List Nat) :
    rowMajor (vectorSizes k c m) (restrict (vectorSizes k c m) idx) =
      if c = 1 then 0 else idx.getD k 0 := by
  have hget : idx.getD k 0 = (idx.drop k).getD 0 0 := by simp
  rw [vectorSizes, rowMajor_restrict_ones, hget]
  cases idx.drop k with
  | nil => simp [restrict, rowMajor]
  | cons i rest =>
    have hrest := rowMajor_restrict_ones m [] rest
    rw [List.append_nil] at hrest
    rw [restrict_cons, rowMajor, hrest, List.prod_replicate, one_pow, Nat.one_mul]
    simp [rowMajor]

/-- The index that is 1 in one dimension. -/
def unitIndex (n j : Nat) : List Nat :=
  (List.range n).map fun i => if i = j then 1 else 0

theorem getD_unitIndex {n j i : Nat} (hi : i < n) :
    (unitIndex n j).getD i 0 = if i = j then 1 else 0 := by
  simp [unitIndex, hi]

theorem inBounds_unitIndex {sizes : List Nat} {j : Nat} (hpos : ∀ d ∈ sizes, 0 < d)
    (hj : 1 < sizes.getD j 0) : InBounds (unitIndex sizes.length j) sizes := by
  refine List.forall₂_iff_get.2 ⟨by simp [unitIndex], fun i hi hi' => ?_⟩
  have hsize := hpos _ (List.getElem_mem hi')
  simp only [unitIndex, List.get_eq_getElem, List.getElem_map, List.getElem_range]
  split
  · next heq =>
    subst heq
    rwa [List.getD_eq_getElem _ _ hi'] at hj
  · exact hsize

section

variable {p : DmlTensorInfo} {sizes : List Nat} {k c m a : Nat}

theorem stretches_vector_iff :
    List.Forall₂ (fun d e => d = e ∨ d = 1) (vectorSizes k c m) sizes ↔
      k + 1 + m = sizes.length ∧ (c = sizes.getD k 0 ∨ c = 1) := by
  constructor
  · intro h
    have hlen := h.length_eq
    rw [length_vectorSizes] at hlen
    refine ⟨hlen, ?_⟩
    have hk : k < (vectorSizes k c m).length := by
      rw [length_vectorSizes]
      omega
    have hdim := h.get hk (by omega)
    simp only [List.get_eq_getElem] at hdim
    rwa [← List.getD_eq_getElem _ 0, ← List.getD_eq_getElem _ 0, getD_vectorSizes (by omega),
      if_pos rfl] at hdim
  · rintro ⟨hlen, hc⟩
    refine List.forall₂_iff_get.2 ⟨(length_vectorSizes k c m).trans hlen, fun i hi hi' => ?_⟩
    simp only [List.get_eq_getElem]
    rw [← List.getD_eq_getElem _ 0, ← List.getD_eq_getElem _ 0, getD_vectorSizes (by omega)]
    split
    · next heq =>
      subst heq
      exact hc
    · exact Or.inr rfl

/-- A vector is combined along the dimension where it stands. -/
theorem combines_vector_iff (hpos : ∀ d ∈ sizes, 0 < d) (ha : a < sizes.length)
    (hsizes : p.sizes = vectorSizes k c m) (hstrides : p.strides = []) :
    Combines sizes (fun idx => idx.getD a 0) p ↔
      k + 1 + m = sizes.length ∧
        (k = a ∧ c = sizes.getD a 0 ∨ c = 1 ∧ sizes.getD a 0 = 1) := by
  have hoffset : ∀ idx, p.offset (restrict p.sizes idx) = if c = 1 then 0 else idx.getD k 0 := by
    intro idx
    rw [DmlTensorInfo.offset, DmlTensorInfo.view, if_pos hstrides, address_packed, hsizes,
      rowMajor_vector]
  have hunit : ∀ j, 1 < sizes.getD j 0 → InBounds (unitIndex sizes.length j) sizes :=
    fun j => inBounds_unitIndex hpos
  have hsize : ∀ {j}, j < sizes.length → 0 < sizes.getD j 0 := by
    intro j hj
    rw [List.getD_eq_getElem _ _ hj]
    exact hpos _ (List.getElem_mem hj)
  unfold Combines
  simp only [hoffset]
  rw [hsizes, stretches_vector_iff]
  constructor
  · rintro ⟨⟨hlen, hc⟩, hall⟩
    refine ⟨hlen, ?_⟩
    by_cases hone : c = 1
    · refine Or.inr ⟨hone, ?_⟩
      by_contra hne
      have hlong : 1 < sizes.getD a 0 := by have := hsize ha; omega
      have hat := hall _ (hunit a hlong)
      rw [if_pos hone, getD_unitIndex ha, if_pos rfl] at hat
      cases hat
    · have hk : c = sizes.getD k 0 := hc.resolve_right hone
      have hk' : k < sizes.length := by omega
      have hlong : 1 < sizes.getD k 0 := by have := hsize hk'; omega
      have hat := hall _ (hunit k hlong)
      rw [if_neg hone, getD_unitIndex hk', if_pos rfl, getD_unitIndex ha] at hat
      split at hat
      · next heq =>
        subst heq
        exact Or.inl ⟨rfl, hk⟩
      · cases hat
  · rintro ⟨hlen, ⟨rfl, rfl⟩ | ⟨rfl, hone⟩⟩
    · refine ⟨⟨hlen, Or.inl rfl⟩, fun idx hidx => ?_⟩
      split
      · next hone =>
        have hlt := hidx.getD_lt ha
        omega
      · rfl
    · refine ⟨⟨hlen, Or.inr rfl⟩, fun idx hidx => ?_⟩
      have hlt := hidx.getD_lt ha
      rw [if_pos rfl]
      omega

end

/-- A parameter that is repeated along the last dimensions is combined as ONNX repeats it. -/
theorem combines_repeated {p : DmlTensorInfo} {shape s : List Nat} {n : Nat}
    (hn : (padToMinDims shape 4).length = n) (hlen : s.length ≤ shape.length)
    (hfits : List.Forall₂ (fun d e => d = e ∨ d = 1) s (shape.drop (shape.length - s.length)))
    (hsizes : p.sizes = padToMinDims s n) (hstrides : p.strides = []) :
    Combines (padToMinDims shape 4)
      (fun idx => rowMajor s (restrictTo s (idx.drop (4 - shape.length)))) p := by
  have hpad := BroadcastingLemmas.length_padToMinDims shape 4
  have hsplit : padToMinDims shape 4 =
      (padToMinDims shape 4).take (n - s.length) ++ shape.drop (shape.length - s.length) := by
    conv_lhs => rw [← List.take_append_drop (n - s.length) (padToMinDims shape 4)]
    have hdrop : n - s.length = (List.replicate (4 - shape.length) 1).length +
        (shape.length - s.length) := by
      rw [List.length_replicate]
      omega
    conv_lhs => arg 2; rw [hdrop, padToMinDims, List.drop_append]
    simp
  refine ⟨?_, fun idx hidx => ?_⟩
  · rw [hsizes, hsplit, padToMinDims]
    have hones : List.Forall₂ (fun d e => d = e ∨ d = 1) (List.replicate (n - s.length) 1)
        ((padToMinDims shape 4).take (n - s.length)) := by
      refine List.forall₂_iff_get.2 ⟨?_, fun i _ _ => Or.inr (by simp)⟩
      rw [List.length_replicate, List.length_take, hn]
      omega
    exact List.rel_append hones hfits
  · have hidx' := hidx.length_eq
    have hone : p.sizes = alignRight 1 idx.length s := by
      rw [hsizes, hidx', hn]
      rfl
    rw [DmlTensorInfo.offset, DmlTensorInfo.view, if_pos hstrides, hone, rowMajor_restrictTo]
    have hback : 4 - shape.length + (idx.length - (4 - shape.length) - s.length) =
        idx.length - s.length := by omega
    simp only [restrictTo, List.drop_drop, List.length_drop, hback]

/-! ## What the nodes are translated to -/

section

variable {op : ParameterOp} {node : Node} {shapes : ValueShapes}
  {initializers : String → Option Initializer} {shape : List Nat} {axis i : Nat}
  {x info : DmlTensorInfo}

theorem lookupInput_of_optionalShape (h : optionalShape node shapes i = some info) :
    lookupInput node shapes i = some info := by
  unfold optionalShape at h
  split at h
  · exact h
  · cases h

theorem mem_packed {slots : List (Nat × Option DmlTensorInfo)} {p : DmlTensorInfo} :
    (i, p) ∈ (packedSlots slots).zip (slots.filterMap Prod.snd) ↔ (i, some p) ∈ slots := by
  induction slots with
  | nil => simp [packedSlots]
  | cons slot slots ih =>
    obtain ⟨j, _ | q⟩ := slot
    · have hskip : packedSlots ((j, none) :: slots) = packedSlots slots := by simp [packedSlots]
      rw [hskip, List.filterMap_cons_none rfl, ih]
      simp
    · have hkeep : packedSlots ((j, some q) :: slots) = j :: packedSlots slots := by
        simp [packedSlots]
      have hvalue : ((j, some q) :: slots).filterMap Prod.snd = q :: slots.filterMap Prod.snd :=
        List.filterMap_cons_some rfl
      rw [hkeep, hvalue, List.zip_cons_cons, List.mem_cons, ih]
      simp

/-- How a parameter is described. `x` is the data. -/
def parameterTensor (op : ParameterOp) (x info : DmlTensorInfo) : DmlTensorInfo :=
  match op with
  | .layerNorm _ => makeTensorInfo (padToMinDims info.sizes (max x.sizes.length 4)) info.dataType
  | .instanceNorm =>
    makeTensorInfoAtAxis [info.sizes.getLast?.getD 0] info.dataType
      (x.sizes.length - x.rank + 1) (max x.sizes.length 4)
  | .batchNorm =>
    makeTensorInfoAtAxis [x.sizes.getD 1 0] info.dataType 1
      (makeTensorInfo x.sizes x.dataType).sizes.length
  | .quantizeLinear | .dequantizeLinear => makeTensorInfo info.sizes info.dataType
  | .qLinearConv | .convInteger => channelTensor x.sizes.length info

theorem mem_inOrder {p a b : DmlTensorInfo} {third : Option DmlTensorInfo} :
    (i, p) ∈ [0, 1, 2].zip ([a, b] ++ third.toList) ↔
      i = 0 ∧ p = a ∨ i = 1 ∧ p = b ∨ i = 2 ∧ third = some p := by
  cases third <;> simp [eq_comm]

variable (initializers) in
theorem translateLayerNorm_eq (simplified : Bool) (defaultAxis : Int) {scale : DmlTensorInfo}
    (hx : lookupInput node shapes 0 = some x) (hscale : lookupInput node shapes 1 = some scale)
    (houtput : getNodeOutputNames node ≠ []) :
    ∃ t, translateLayerNorm simplified defaultAxis node shapes initializers = some t ∧
      t.opDesc.axes =
        (let given := getAttributeInt node "axis" defaultAxis
         let axis := (if given < 0 then given + x.rank else given) + (x.sizes.length - x.rank)
         if axis < 0 then [] else (List.range x.sizes.length).drop axis.toNat) ∧
      ∃ data, t.inputTensors = [data, if defaultAxis = 2 then parameterTensor .instanceNorm x scale
          else parameterTensor (.layerNorm simplified) x scale] ++
        ((if simplified then none else optionalShape node shapes 2).map fun info =>
          if defaultAxis = 2 then parameterTensor .instanceNorm x info
          else parameterTensor (.layerNorm simplified) x info).toList := by
  obtain ⟨y, outs, hout⟩ := List.exists_cons_of_ne_nil houtput
  simp only [translateLayerNorm, hx, hscale, hout]
  exact ⟨_, rfl, rfl, _, rfl⟩

theorem mem_third {f : DmlTensorInfo → DmlTensorInfo} {data scale p : DmlTensorInfo}
    {third : Option DmlTensorInfo} (hscale : optionalShape node shapes 1 = some scale)
    (hi : i = 1 ∨ i = 2 ∧ third = optionalShape node shapes 2)
    (hinfo : optionalShape node shapes i = some info) :
    (i, p) ∈ [0, 1, 2].zip ([data, f scale] ++ (third.map f).toList) ↔ p = f info := by
  rw [mem_inOrder]
  rcases hi with rfl | ⟨rfl, rfl⟩
  · obtain rfl := Option.some.inj (hscale.symm.trans hinfo)
    simp
  · simp [hinfo, eq_comm]

/-- The axes from one on, behind the padding. -/
theorem axes_eq {n pad axis : Nat} {axis' : Int} (h : axis' = axis + pad) :
    (if axis' < 0 then [] else (List.range (n + pad)).drop axis'.toNat) =
      ((List.range n).drop axis).map (· + pad) := by
  rw [h, if_neg (by omega)]
  refine List.ext_getElem ?_ fun k _ _ => ?_
  · simp
    omega
  · simp
    omega

variable (initializers) in
theorem translateQuantization_eq (desc : Bool → NormDesc)
    (outType : DmlDataType → Option DmlDataType → DmlDataType) {scale : DmlTensorInfo}
    (hx : lookupInput node shapes 0 = some x) (hscale : lookupInput node shapes 1 = some scale)
    (houtput : getNodeOutputNames node ≠ []) :
    ∃ t data, translateQuantization desc outType node shapes initializers = some t ∧
      t.opDesc = desc (optionalShape node shapes 2).isSome ∧
        t.inputTensors = [data, makeTensorInfo scale.sizes scale.dataType] ++
          ((optionalShape node shapes 2).map fun info =>
            makeTensorInfo info.sizes info.dataType).toList := by
  obtain ⟨y, outs, hout⟩ := List.exists_cons_of_ne_nil houtput
  simp only [translateQuantization, hx, hscale, hout]
  exact ⟨_, _, rfl, rfl, rfl⟩

theorem lookup_required (h : ParameterNode op node shapes shape axis) (hi : i ∈ op.required) :
    ∃ info, optionalShape node shapes i = some info ∧ lookupInput node shapes i = some info := by
  obtain ⟨info, hinfo⟩ := Option.isSome_iff_exists.1 (h.required i hi)
  exact ⟨info, hinfo, lookupInput_of_optionalShape hinfo⟩

theorem length_data (h : ParameterNode op node shapes shape axis)
    (hx : optionalShape node shapes 0 = some x) (hnorm : op.isConv = false) :
    x.sizes.length = shape.length + (4 - shape.length) := by
  have hpadded : max 4 shape.length = shape.length + (4 - shape.length) := by omega
  obtain ⟨-, hdata⟩ := h.data x hx
  rw [if_neg (by simp [hnorm])] at hdata
  rw [hdata, BroadcastingLemmas.length_padToMinDims, hpadded]

/-- The node is translated, and every parameter is packed once. -/
def Viewed (op : ParameterOp) (node : Node) (shapes : ValueShapes)
    (initializers : String → Option Initializer) (shape : List Nat) (axis : Nat)
    (x : DmlTensorInfo) : Prop :=
  ∃ v, op.view node shapes initializers = some v ∧
    v.axes = (op.normalized shape.length axis).map (· + (4 - shape.length)) ∧
    ∀ i ∈ op.parameters, ∀ info, optionalShape node shapes i = some info →
      ∀ p, (i, p) ∈ v.tensors ↔ p = parameterTensor op x info

theorem viewed_layerNorm {simplified : Bool}
    (h : ParameterNode (.layerNorm simplified) node shapes shape axis)
    (hx : optionalShape node shapes 0 = some x) :
    Viewed (.layerNorm simplified) node shapes initializers shape axis x := by
  obtain ⟨scale, hscale, hscale'⟩ := lookup_required h (i := 1) (by simp [ParameterOp.required])
  obtain ⟨t, ht, haxes, data, htensors⟩ := translateLayerNorm_eq initializers simplified (-1)
    (lookupInput_of_optionalShape hx) hscale' h.output
  refine ⟨_, by simp only [ParameterOp.view, ht, Option.map_some]; rfl, ?_, ?_⟩
  · rw [haxes, length_data h hx rfl, (h.data x hx).1]
    refine axes_eq ?_
    obtain ⟨⟨hlow, hhigh⟩, haxis⟩ := h.along.2
    rw [haxis, placeOfAxis]
    split <;> omega
  · intro i hi info hinfo p
    rw [htensors]
    refine mem_third (f := parameterTensor (.layerNorm simplified) x) hscale ?_ hinfo
    cases simplified with
    | false => simpa [ParameterOp.parameters] using hi
    | true => exact Or.inl (by simpa [ParameterOp.parameters] using hi)

theorem viewed_instanceNorm (h : ParameterNode .instanceNorm node shapes shape axis)
    (hx : optionalShape node shapes 0 = some x) :
    Viewed .instanceNorm node shapes initializers shape axis x := by
  obtain ⟨scale, hscale, hscale'⟩ := lookup_required h (i := 1) (by simp [ParameterOp.required])
  obtain ⟨t, ht, haxes, data, htensors⟩ := translateLayerNorm_eq initializers false 2
    (lookupInput_of_optionalShape hx) hscale' h.output
  refine ⟨_, by simp only [ParameterOp.view, ht, Option.map_some]; rfl, ?_, ?_⟩
  · have hnode := h.along.2
    rw [haxes, length_data h hx rfl, (h.data x hx).1, hnode.1]
    refine axes_eq ?_
    rw [if_neg (by decide)]
    omega
  · intro i hi info hinfo p
    rw [htensors]
    refine mem_third (f := parameterTensor .instanceNorm x) hscale ?_ hinfo
    simpa [ParameterOp.parameters] using hi

theorem viewed_batchNorm (h : ParameterNode .batchNorm node shapes shape axis)
    (hx : optionalShape node shapes 0 = some x) :
    Viewed .batchNorm node shapes initializers shape axis x := by
  have hx' := lookupInput_of_optionalShape hx
  obtain ⟨scale, hscale, hscale'⟩ := lookup_required h (i := 1) (by simp [ParameterOp.required])
  obtain ⟨b, hb, hb'⟩ := lookup_required h (i := 2) (by simp [ParameterOp.required])
  obtain ⟨mean, hmean, hmean'⟩ := lookup_required h (i := 3) (by simp [ParameterOp.required])
  obtain ⟨var, hvar, hvar'⟩ := lookup_required h (i := 4) (by simp [ParameterOp.required])
  obtain ⟨y, outs, hout⟩ := List.exists_cons_of_ne_nil h.output
  refine ⟨_, by simp only [ParameterOp.view, translateBatchNorm, hx', hscale', hb', hmean', hvar',
    hout, Option.map_some]; rfl, rfl, ?_⟩
  intro i hi info hinfo p
  simp only [ParameterOp.parameters, List.mem_cons, List.not_mem_nil, or_false] at hi
  rcases hi with rfl | rfl | rfl | rfl
  · obtain rfl := Option.some.inj (hscale.symm.trans hinfo)
    simp [parameterTensor]
  · obtain rfl := Option.some.inj (hb.symm.trans hinfo)
    simp [parameterTensor]
  · obtain rfl := Option.some.inj (hmean.symm.trans hinfo)
    simp [parameterTensor]
  · obtain rfl := Option.some.inj (hvar.symm.trans hinfo)
    simp [parameterTensor]

theorem viewed_quantizeLinear (h : ParameterNode .quantizeLinear node shapes shape axis)
    (hx : optionalShape node shapes 0 = some x) :
    Viewed .quantizeLinear node shapes initializers shape axis x := by
  obtain ⟨scale, hscale, hscale'⟩ := lookup_required h (i := 1) (by simp [ParameterOp.required])
  obtain ⟨t, data, ht, hdesc, htensors⟩ := translateQuantization_eq initializers .quantize
    (fun _ zeroPoint => zeroPoint.getD .uint8) (lookupInput_of_optionalShape hx) hscale' h.output
  refine ⟨_, by simp only [ParameterOp.view, translateQuantizeLinear, ht, Option.map_some]; rfl,
    by rw [hdesc]; rfl, ?_⟩
  intro i hi info hinfo p
  rw [htensors]
  refine mem_third (f := parameterTensor .quantizeLinear x) hscale ?_ hinfo
  simpa [ParameterOp.parameters] using hi

theorem viewed_dequantizeLinear (h : ParameterNode .dequantizeLinear node shapes shape axis)
    (hx : optionalShape node shapes 0 = some x) :
    Viewed .dequantizeLinear node shapes initializers shape axis x := by
  obtain ⟨scale, hscale, hscale'⟩ := lookup_required h (i := 1) (by simp [ParameterOp.required])
  obtain ⟨t, data, ht, hdesc, htensors⟩ := translateQuantization_eq initializers .dequantize
    (fun scale _ => scale) (lookupInput_of_optionalShape hx) hscale' h.output
  refine ⟨_, by simp only [ParameterOp.view, translateDequantizeLinear, ht, Option.map_some]; rfl,
    by rw [hdesc]; rfl, ?_⟩
  intro i hi info hinfo p
  rw [htensors]
  refine mem_third (f := parameterTensor .dequantizeLinear x) hscale ?_ hinfo
  simpa [ParameterOp.parameters] using hi

theorem viewed_qLinearConv (h : ParameterNode .qLinearConv node shapes shape axis)
    (hx : optionalShape node shapes 0 = some x) :
    Viewed .qLinearConv node shapes initializers shape axis x := by
  have hx' := lookupInput_of_optionalShape hx
  obtain ⟨xScale, -, hxScale⟩ := lookup_required h (i := 1) (by simp [ParameterOp.required])
  obtain ⟨w, -, hw⟩ := lookup_required h (i := 3) (by simp [ParameterOp.required])
  obtain ⟨wScale, hwScale, hwScale'⟩ := lookup_required h (i := 4) (by simp [ParameterOp.required])
  obtain ⟨yScale, -, hyScale⟩ := lookup_required h (i := 6) (by simp [ParameterOp.required])
  obtain ⟨yZeroPoint, -, hyZeroPoint⟩ := lookup_required h (i := 7) (by simp [ParameterOp.required])
  have hcount : ¬ ((getNodeInputNames node).length < 8 ∨ getNodeOutputNames node = []) :=
    not_or.2 ⟨not_lt.2 (length_of_lookupInput hyZeroPoint), h.output⟩
  refine ⟨_, by simp only [ParameterOp.view, translateQLinearConv, if_neg hcount, hx', hxScale,
    hw, hwScale', hyScale, hyZeroPoint, Option.map_some]; rfl, rfl, ?_⟩
  intro i hi info hinfo p
  simp only [ParameterOp.parameters, List.mem_cons, List.not_mem_nil, or_false] at hi
  rw [mem_packed]
  rcases hi with rfl | rfl | rfl
  · obtain rfl := Option.some.inj (hwScale.symm.trans hinfo)
    simp [parameterTensor]
  · simp [parameterTensor, hinfo]
  · simp [parameterTensor, hinfo]

theorem viewed_convInteger (h : ParameterNode .convInteger node shapes shape axis)
    (hx : optionalShape node shapes 0 = some x) :
    Viewed .convInteger node shapes initializers shape axis x := by
  have hx' := lookupInput_of_optionalShape hx
  obtain ⟨w, -, hw⟩ := lookup_required h (i := 1) (by simp [ParameterOp.required])
  have hcount : ¬ ((getNodeInputNames node).length < 2 ∨ getNodeOutputNames node = []) :=
    not_or.2 ⟨not_lt.2 (length_of_lookupInput hw), h.output⟩
  refine ⟨_, by simp only [ParameterOp.view, translateConvInteger, if_neg hcount, hx', hw,
    Option.map_some]; rfl, rfl, ?_⟩
  intro i hi info hinfo p
  simp only [ParameterOp.parameters, List.mem_cons, List.not_mem_nil, or_false] at hi
  rw [mem_packed]
  subst hi
  simp [parameterTensor, hinfo]

variable (initializers) in
theorem view_eq (h : ParameterNode op node shapes shape axis)
    (hx : optionalShape node shapes 0 = some x) :
    Viewed op node shapes initializers shape axis x := by
  cases op with
  | layerNorm simplified => exact viewed_layerNorm h hx
  | instanceNorm => exact viewed_instanceNorm h hx
  | batchNorm => exact viewed_batchNorm h hx
  | quantizeLinear => exact viewed_quantizeLinear h hx
  | dequantizeLinear => exact viewed_dequantizeLinear h hx
  | qLinearConv => exact viewed_qLinearConv h hx
  | convInteger => exact viewed_convInteger h hx

/-! ## Where DirectML takes the elements from -/

theorem shape_eq {s : List Nat} (hsizes : info.sizes = padToMinDims s 4)
    (hrank : info.rank = s.length) : info.shape = s := by
  rw [DmlTensorInfo.shape, hsizes, hrank, BroadcastingLemmas.length_padToMinDims, padToMinDims]
  have hdrop : max 4 s.length - s.length = 4 - s.length := by omega
  rw [hdrop, List.drop_left' (by simp)]

theorem padToMinDims_of_le {l : List Nat} {n : Nat} (h : n ≤ l.length) : padToMinDims l n = l := by
  rw [padToMinDims, Nat.sub_eq_zero_of_le h, List.replicate_zero, List.nil_append]

theorem sizes_atAxis {c k n : Nat} (dtype : DmlDataType) (hk : k < n) (hn : 4 ≤ n) :
    (makeTensorInfoAtAxis [c] dtype k n).sizes = vectorSizes k c (n - k - 1) := by
  have hlen : (vectorSizes k c (n - k - 1)).length = n := by
    rw [length_vectorSizes]
    omega
  have hplaced : ((List.range n).map fun i => if k ≤ i then [c].getD (i - k) 1 else 1) =
      vectorSizes k c (n - k - 1) := by
    refine List.ext_getElem (by simp [hlen]) fun i hi hi' => ?_
    have hi : i < n := by simpa using hi
    rw [← List.getD_eq_getElem _ 0 hi', getD_vectorSizes (by omega)]
    simp only [List.getElem_map, List.getElem_range]
    rcases Nat.lt_trichotomy i k with hlt | rfl | hgt
    · rw [if_neg (by omega), if_neg (by omega)]
    · simp
    · obtain ⟨j, rfl⟩ : ∃ j, i = k + (j + 1) := ⟨i - k - 1, by omega⟩
      simp
  rw [makeTensorInfoAtAxis, makeTensorInfo, hplaced]
  exact padToMinDims_of_le (hlen.symm ▸ hn)

theorem getLast_vector (c : Nat) : (padToMinDims [c] 4).getLast?.getD 0 = c :=
  rfl

/-- The element of a parameter is the ONNX one for these shapes and axes. -/
theorem combines_parameterTensor_iff {s : List Nat} (h : ParameterNode op node shapes shape axis)
    (hx : optionalShape node shapes 0 = some x) (hsizes : info.sizes = padToMinDims s 4)
    (hrank : info.rank = s.length) (hshape : op.HasShape shape axis s) (hper : op.PerChannel s) :
    Combines (padToMinDims shape 4)
        (fun idx => op.element axis s (idx.drop (4 - shape.length))) (parameterTensor op x info) ↔
      op.Exact shape axis := by
  obtain ⟨hxrank, hdata⟩ := h.data x hx
  have hlen : (padToMinDims shape 4).length = max 4 shape.length :=
    BroadcastingLemmas.length_padToMinDims shape 4
  have hpos := BroadcastingLemmas.pos_padToMinDims h.positive 4
  have htwo := h.rank
  have hdim : ∀ k, (padToMinDims shape 4).getD (4 - shape.length + k) 0 = shape.getD k 0 := by
    intro k
    simp [padToMinDims, List.getD_eq_getElem?_getD, List.getElem?_append_right]
  have halong := h.along.1
  have hplace : 4 - shape.length + axis < (padToMinDims shape 4).length := by omega
  have hvector := fun (k c m : Nat) (p : DmlTensorInfo) hp hstrides =>
    combines_vector_iff (p := p) (k := k) (c := c) (m := m) hpos hplace hp hstrides
  simp only [hdim, hlen] at hvector
  have hchannel : (fun idx : List Nat => (idx.drop (4 - shape.length)).getD axis 0) =
      fun idx => idx.getD (4 - shape.length + axis) 0 := by
    funext idx
    simp [List.getD_eq_getElem?_getD]
  have hwhole : ∀ dtype, (makeTensorInfo (padToMinDims [shape.getD axis 0] 4) dtype).sizes =
      vectorSizes 3 (shape.getD axis 0) 0 := fun _ => rfl
  -- a vector of a quantization stands at the end
  have hquantize : s = [shape.getD axis 0] →
      (Combines (padToMinDims shape 4)
          (fun idx => (idx.drop (4 - shape.length)).getD axis 0)
          (makeTensorInfo info.sizes info.dataType) ↔
        shape.length ≤ 4 ∧ (axis + 1 = shape.length ∨ shape.getD axis 0 = 1)) := by
    rintro rfl
    rw [hsizes, hchannel, hvector 3 _ 0 _ (hwhole _) rfl]
    omega
  -- one of a convolution at the begin
  have hconv : s = [shape.getD axis 0] → axis = 1 → x.sizes.length = max 4 shape.length →
      (Combines (padToMinDims shape 4)
          (fun idx => (idx.drop (4 - shape.length)).getD axis 0)
          (channelTensor x.sizes.length info) ↔ shape.getD 1 0 = 1) := by
    rintro rfl rfl hxlen
    rw [channelTensor, if_pos (show info.rank = 1 from hrank), hsizes, getLast_vector, hchannel,
      hvector 0 _ _ _ (sizes_atAxis _ (by omega) (by omega)) rfl]
    omega
  cases op with
  | layerNorm simplified =>
    refine iff_of_true ?_ trivial
    refine combines_repeated hlen hshape.1 hshape.2 ?_ rfl
    have hxsizes : x.sizes = padToMinDims shape 4 := hdata
    have hslen := hshape.1
    have hfour : max (max 4 shape.length) 4 = max 4 shape.length := by omega
    have hinner : padToMinDims (padToMinDims s 4) (max 4 shape.length) =
        padToMinDims s (max 4 shape.length) :=
      BroadcastingLemmas.padToMinDims_padToMinDims _ (by omega)
    rw [parameterTensor, makeTensorInfo, hxsizes, hlen, hsizes, hfour, hinner]
    exact padToMinDims_of_le (by rw [BroadcastingLemmas.length_padToMinDims]; omega)
  | instanceNorm =>
    have hxsizes : x.sizes = padToMinDims shape 4 := hdata
    have haxis : axis = 1 := h.along.2.2
    subst haxis
    obtain rfl : s = [shape.getD 1 0] := hshape
    refine iff_of_true ?_ trivial
    simp only [ParameterOp.element, hchannel, parameterTensor, hsizes, getLast_vector, hxsizes, hlen,
      hxrank]
    refine (hvector _ _ _ _ (sizes_atAxis _ (by omega) (by omega)) rfl).2 ⟨by omega, Or.inl ?_⟩
    exact ⟨by omega, rfl⟩
  | batchNorm =>
    have hxsizes : x.sizes = padToMinDims shape 4 := hdata
    have haxis : axis = 1 := h.along.2
    subst haxis
    simp only [ParameterOp.element, hchannel, parameterTensor, makeTensorInfo, hxsizes,
      BroadcastingLemmas.padToMinDims_padToMinDims _ (Nat.le_max_left _ _), hlen]
    rw [hvector _ _ _ _ (sizes_atAxis _ (by omega) (by omega)) rfl, ParameterOp.Exact]
    rcases Nat.lt_or_ge shape.length 4 with hlt | hge
    · obtain htwo | hthree : shape.length = 2 ∨ shape.length = 3 := by omega
      · have hsecond : (padToMinDims shape 4).getD 1 0 = 1 := by
          simp [padToMinDims, htwo, List.getD_eq_getElem?_getD]
        rw [hsecond]
        omega
      · have hsecond := hdim 0
        rw [hthree] at hsecond
        rw [show 4 - 3 + 0 = 1 from rfl] at hsecond
        rw [hsecond]
        omega
    · have hsecond := hdim 1
      rw [Nat.sub_eq_zero_of_le hge, Nat.zero_add] at hsecond
      rw [hsecond]
      omega
  | quantizeLinear => exact hquantize (hshape hper)
  | dequantizeLinear => exact hquantize (hshape hper)
  | qLinearConv => exact hconv (hshape hper) h.along.2 hdata
  | convInteger => exact hconv (hshape hper) h.along.2 hdata

/-- The tensor of a parameter is the one that is asked for in these cases. -/
theorem combines_iff (h : ParameterNode op node shapes shape axis)
    (hx : optionalShape node shapes 0 = some x) (hi : i ∈ op.parameters)
    (hinfo : optionalShape node shapes i = some info) (hper : op.PerChannel info.shape) :
    Combines (padToMinDims shape 4)
        (fun idx => op.element axis info.shape (idx.drop (4 - shape.length)))
        (parameterTensor op x info) ↔ op.Exact shape axis := by
  obtain ⟨s, hsizes, hrank, hshape⟩ := h.parameter i hi info hinfo
  rw [shape_eq hsizes hrank] at hper ⊢
  exact combines_parameterTensor_iff h hx hsizes hrank hshape hper

/-- One parameter is enough to tell. -/
theorem exact_of_places (h : ParameterNode op node shapes shape axis) (hi : i ∈ op.parameters)
    (hinfo : optionalShape node shapes i = some info) (hper : op.PerChannel info.shape)
    (hplaces : PlacesParameters op node shapes initializers shape axis) : op.Exact shape axis := by
  have hzero : 0 ∈ op.required := by cases op <;> simp [ParameterOp.required]
  obtain ⟨x, hx⟩ := Option.isSome_iff_exists.1 (h.required 0 hzero)
  obtain ⟨v, hv, -, htensors⟩ := view_eq initializers h hx
  obtain ⟨v', hv', -, hplaced⟩ := hplaces
  obtain rfl := Option.some.inj (hv.symm.trans hv')
  obtain ⟨p, hp, hcombines⟩ := hplaced i hi info hinfo hper
  obtain rfl := (htensors i hi info hinfo p).1 hp
  exact (combines_iff h hx hi hinfo hper).1 hcombines

end

end ChannelParametersLemmas

open ChannelParametersLemmas

/-- Layer and instance normalizations place their parameters for all shapes. A batch normalization
counts the channels from the padding, a quantization puts them last, and a convolution first. -/
theorem channelParameters_iff {op : ParameterOp} {node : Node} {shapes : ValueShapes}
    {initializers : String → Option Initializer} {shape : List Nat} {axis : Nat}
    (h : ParameterNode op node shapes shape axis) :
    PlacesParameters op node shapes initializers shape axis ↔
      op.Exact shape axis ∨
        ∀ i ∈ op.parameters, ∀ info, optionalShape node shapes i = some info →
          ¬ op.PerChannel info.shape := by
  constructor
  · intro hplaces
    by_contra hnot
    rw [not_or] at hnot
    exact hnot.2 fun i hi info hinfo hper => hnot.1 (exact_of_places h hi hinfo hper hplaces)
  · intro hcondition
    have hzero : 0 ∈ op.required := by cases op <;> simp [ParameterOp.required]
    obtain ⟨x, hx⟩ := Option.isSome_iff_exists.1 (h.required 0 hzero)
    obtain ⟨v, hv, haxes, htensors⟩ := view_eq initializers h hx
    refine ⟨v, hv, haxes, fun i hi info hinfo hper => ?_⟩
    refine ⟨parameterTensor op x info, (htensors i hi info hinfo _).2 rfl, ?_⟩
    refine (combines_iff h hx hi hinfo hper).2 (hcondition.resolve_right fun hnone => ?_)
    exact hnone i hi info hinfo hper

/-! ## Batches of sequences -/

/-- Two sequences of four positions, with three channels. -/
def sequenceShapes : ValueShapes := fun name =>
  if name = "x" then some { makeTensorInfo [2, 3, 4] .float32 with originalRank := 3 }
  else some { makeTensorInfo [3] .float32 with originalRank := 1 }

/-- Its batch normalization. -/
def sequenceBatchNorm : Node :=
  { id := 0, opType := "BatchNormalization", outputs := [some "y"],
    inputs := [some "x", some "scale", some "bias", some "mean", some "var"] }

/-- Its instance normalization. -/
def sequenceInstanceNorm : Node :=
  { id := 0, opType := "InstanceNormalization", outputs := [some "y"],
    inputs := [some "x", some "scale", some "bias"] }

theorem sequence_parameter {op : ParameterOp} {node : Node}
    (hop : ∀ i ∈ op.parameters, (getNodeInputNames node)[i]? ≠ some "x") {i : Nat}
    (hi : i ∈ op.parameters) {info : DmlTensorInfo}
    (hinfo : optionalShape node sequenceShapes i = some info) :
    info = { makeTensorInfo [3] .float32 with originalRank := 1 } := by
  obtain ⟨name, hname, hshape⟩ := Option.bind_eq_some_iff.1 (lookupInput_of_optionalShape hinfo)
  have hne : name ≠ "x" := by
    rintro rfl
    exact hop i hi hname
  rw [sequenceShapes, if_neg hne] at hshape
  exact (Option.some.inj hshape).symm

/-- The scale, and all other parameters, stand along the two sequences. -/
theorem batchNorm_misplaced :
    ParameterNode .batchNorm sequenceBatchNorm sequenceShapes [2, 3, 4] 1 ∧
      (∃ v, ParameterOp.batchNorm.view sequenceBatchNorm sequenceShapes (fun _ => none) = some v ∧
        v.tensors.map (fun t => (t.1, t.2.sizes)) = [(0, [1, 2, 3, 4]), (3, [1, 2, 1, 1]),
          (4, [1, 2, 1, 1]), (1, [1, 2, 1, 1]), (2, [1, 2, 1, 1])]) ∧
        ¬ PlacesParameters .batchNorm sequenceBatchNorm sequenceShapes (fun _ => none) [2, 3, 4]
          1 := by
  have hnode : ParameterNode .batchNorm sequenceBatchNorm sequenceShapes [2, 3, 4] 1 := by
    refine ⟨by decide, by decide, by decide, by decide, ?_, ⟨by decide, rfl⟩, ?_⟩
    · rintro info ⟨⟩
      decide
    · intro i hi info hinfo
      obtain rfl := sequence_parameter (by decide) hi hinfo
      exact ⟨[3], rfl, rfl, rfl⟩
  refine ⟨hnode, ⟨_, rfl, by decide⟩, fun hplaces => ?_⟩
  have hexact := exact_of_places (i := 1) hnode (by decide) rfl rfl hplaces
  exact absurd hexact (by simp [ParameterOp.Exact])

/-- Those of an instance normalization stand along the channels. -/
theorem instanceNorm_placed :
    PlacesParameters .instanceNorm sequenceInstanceNorm sequenceShapes (fun _ => none) [2, 3, 4]
      1 := by
  have hnode : ParameterNode .instanceNorm sequenceInstanceNorm sequenceShapes [2, 3, 4] 1 := by
    refine ⟨by decide, by decide, by decide, by decide, ?_, ⟨by decide, by decide, rfl⟩, ?_⟩
    · rintro info ⟨⟩
      decide
    · intro i hi info hinfo
      obtain rfl := sequence_parameter (by decide) hi hinfo
      exact ⟨[3], rfl, rfl, rfl⟩
  exact (channelParameters_iff hnode).2 (Or.inl trivial)

end AmdGpuEp.DirectML
