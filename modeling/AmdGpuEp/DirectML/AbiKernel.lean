import AmdGpuEp.Lib.Runs
import Mathlib.Algebra.Group.Nat.Defs

/-!
# The deferred kernel of a DirectML node

`dml_abi_kernel.cc`: a node whose shapes or required constants are not known when the
session starts gets its kernel at the first call (`DmlAbiKernel_Compute`). The kernel
is kept, together with the input shapes and the constants it was created from and with
copies of the constants on the GPU. A later call that sees other shapes or constants
computes with a temporary kernel.

The kernel factory and the outcomes of the device are parameters.

Results:
1. `Holds.keptContext_fresh_iff`, `Holds.temporaryContext_fresh_iff`: when the kept and
   the temporary kernel are the ones a call needs.
2. `lazyInit_created`: what a call that creates the kernel leaves behind.
3. `computes_fresh_iff`: exactly when a successful call computes what a kernel created
   for it would, in every run.
4. `length_of_first_call_served`: a GPU copy outlives the value it was made of.
-/

namespace AmdGpuEp.DirectML.AbiKernel

/-! ## Tensors -/

/-- `MLOperatorTensorDataType`. -/
inductive TensorDataType
  | undefined | float | uint8 | int8 | uint16 | int16 | int32 | int64 | string | bool
  | float16 | double | uint32 | uint64
  deriving DecidableEq, Repr

/-- A valid `TensorContent`; an invalid one is `none`. -/
structure TensorContent where
  shape : List Nat
  type : TensorDataType
  data : List UInt8
  deriving DecidableEq, Repr

/-- What an `IMLOperatorTensor` shows. -/
structure OperatorTensor where
  content : TensorContent
  isCpuData : Bool
  deriving DecidableEq, Repr

structure OrtValue where
  dims : List Int
  type : TensorDataType
  data : List UInt8
  isCpu : Bool
  deriving DecidableEq, Repr

/-- `dims[d] >= 0 ? static_cast<uint32_t>(dims[d]) : 0u`. -/
def toDimension (d : Int) : Nat :=
  if 0 ≤ d then d.toNat % 2 ^ 32 else 0

def OrtValue.shape (v : OrtValue) : List Nat :=
  v.dims.map toDimension

/-- `AbiSafeTensor`. -/
def OrtValue.tensor (v : OrtValue) : OperatorTensor where
  content := { shape := v.shape, type := v.type, data := v.data }
  isCpuData := v.isCpu

/-- `SnapshotTensor`. -/
def TensorContent.tensor (content : TensorContent) : OperatorTensor where
  content := content
  isCpuData := true

def snapshotConstantInput (tensor : Option OperatorTensor) : Option TensorContent :=
  tensor.bind fun t => if t.isCpuData then some t.content else none

/-- Where only one of the two is valid, the input counts as unchanged. -/
def constantInputChanged (last : Option TensorContent) (current : Option OperatorTensor) : Bool :=
  match last, snapshotConstantInput current with
  | some l, some c => decide (l ≠ c)
  | _, _ => false

theorem snapshotConstantInput_eq_some {tensor : Option OperatorTensor} {content : TensorContent} :
    snapshotConstantInput tensor = some content ↔ tensor = some content.tensor := by
  cases tensor with
  | none => simp [snapshotConstantInput]
  | some t =>
    obtain ⟨c, cpu⟩ := t
    cases cpu <;> simp [snapshotConstantInput, TensorContent.tensor]

theorem constantInputChanged_eq_true {last : Option TensorContent}
    {current : Option OperatorTensor} :
    constantInputChanged last current = true ↔
      ∃ l c, last = some l ∧ snapshotConstantInput current = some c ∧ l ≠ c := by
  cases last with
  | none => simp [constantInputChanged]
  | some l =>
    cases hcurrent : snapshotConstantInput current with
    | none => simp [constantInputChanged, hcurrent]
    | some c => simp [constantInputChanged, hcurrent]

/-! ## Nodes and calls -/

/-- What `DmlAbiKernel_Create` keeps of a node. `constants` is what
`KernelInfoGetConstantInput_tensor` finds, one entry per input. -/
structure Node where
  constants : List (Option OrtValue)
  requiredConstantCpuInputs : List Nat
  requiresInputShapesAtCreation : Bool
  hasExecutionProvider : Bool

def Node.inputCount (n : Node) : Nat :=
  n.constants.length

def Node.constant (n : Node) (i : Nat) : Option OrtValue :=
  n.constants[i]?.join

/-- A call of `DmlAbiKernel_Compute`. An initializer is handed to the call as an input, on the
host or on the device. The flags say what fails outside the provider. -/
structure Call (n : Node) where
  inputs : List (Option OrtValue)
  inputs_length : inputs.length = n.inputCount
  initializers_passed : ∀ i v, n.constant i = some v →
    ∃ w, inputs[i]? = some (some w) ∧ w.tensor.content = v.tensor.content
  deviceFails : Bool
  uploadFails : Nat → Bool
  createFails : Bool
  computeFails : Bool

variable {n : Node} {R : Type*}

def Call.input (c : Call n) (i : Nat) : Option OrtValue :=
  c.inputs[i]?.join

/-- The value, shape and type of an input of the call. -/
def Call.content (c : Call n) (i : Nat) : Option TensorContent :=
  (c.input i).map fun v => v.tensor.content

/-- `runtime_input_shapes` and `current_shapes`. -/
def Call.edgeShapes (c : Call n) : List (List Nat) :=
  c.inputs.map fun v => (v.map OrtValue.shape).getD []

/-- The constant of the node, else the input of the call. -/
def Call.resolveConstant (c : Call n) (i : Nat) : Option OperatorTensor :=
  ((n.constant i).or (c.input i)).map OrtValue.tensor

def Call.lazyConstantTensors (c : Call n) (i : Nat) : Option OperatorTensor :=
  if i ∈ n.requiredConstantCpuInputs then c.resolveConstant i else none

def Call.lazyConstantSnapshot (c : Call n) : List (Option TensorContent) :=
  (List.range n.inputCount).map fun i => snapshotConstantInput (c.lazyConstantTensors i)

/-- What `AbiSafeKernelCreationContext` shows a kernel factory of the inputs. -/
structure CreationContext where
  inputShapes : List (List Nat)
  constantInputs : List (Option OperatorTensor)
  deriving DecidableEq, Repr

/-- `GetConstantInputTensor`. -/
def CreationContext.constant (context : CreationContext) (i : Nat) : Option OperatorTensor :=
  context.constantInputs[i]?.join

def Call.creationContext (c : Call n) (tensors : Nat → Option OperatorTensor) :
    CreationContext where
  inputShapes := c.edgeShapes
  constantInputs := (List.range n.inputCount).map fun i =>
    (tensors i).or ((n.constant i).map OrtValue.tensor)

/-- The context a kernel created for this call sees. -/
def Call.freshContext (c : Call n) : CreationContext :=
  c.creationContext c.lazyConstantTensors

/-- A kernel is known by the context it was created from; it reads its inputs by index. -/
structure KernelFactory (R : Type*) where
  createKernel : CreationContext → Bool
  compute : CreationContext → (Nat → Option TensorContent) → Option R

/-! ## `DmlAbiKernel_Compute` -/

/-- The mutable part of `DmlAbiKernel`. A GPU copy is known by what was uploaded. -/
structure State where
  mlOperatorKernel : Option CreationContext
  needsLazyInit : Bool
  inputShapesOfKernelInference : List (List Nat)
  constantInputTensorContents : List (Option TensorContent)
  constantGpuResources : List (Option TensorContent)
  deriving DecidableEq, Repr

/-- The state of a node whose kernel is deferred. -/
def State.deferred : State where
  mlOperatorKernel := none
  needsLazyInit := true
  inputShapesOfKernelInference := []
  constantInputTensorContents := []
  constantGpuResources := []

def State.snapshot (s : State) (i : Nat) : Option TensorContent :=
  s.constantInputTensorContents[i]?.join

def State.gpuResource (s : State) (i : Nat) : Option TensorContent :=
  s.constantGpuResources[i]?.join

/-- The required inputs that `lazy_constant_tensors` has a tensor for. -/
def Call.lazyConstantIndices (c : Call n) : List Nat :=
  n.requiredConstantCpuInputs.filter fun i => (c.resolveConstant i).isSome

def Call.maxIndex (c : Call n) : Nat :=
  c.lazyConstantIndices.foldl max 0

/-- What `UploadConstantTensorsToGpu` writes into a slot, if it gets there. -/
def Call.uploaded (c : Call n) (i : Nat) : Option TensorContent :=
  (snapshotConstantInput (c.lazyConstantTensors i)).filter fun content =>
    content.data ≠ [] && !c.uploadFails i

/-- The slots after `UploadConstantTensorsToGpu`, and whether it returned: the vector is resized
before the device is asked for. -/
def Call.uploadConstantTensorsToGpu (c : Call n) (s : State) : List (Option TensorContent) × Bool :=
  if c.deviceFails then
    ((List.range (c.maxIndex + 1)).map s.gpuResource, false)
  else
    ((List.range (c.maxIndex + 1)).map fun i => (c.uploaded i).or (s.gpuResource i), true)

def Call.uploadsConstants (c : Call n) : Bool :=
  n.hasExecutionProvider && !c.lazyConstantIndices.isEmpty

/-- The lazy creation. On a failure the GPU slots stay as they are by then. -/
def lazyInit (F : KernelFactory R) (s : State) (c : Call n) : State × Bool :=
  let (resources, returned) :=
    if c.uploadsConstants then c.uploadConstantTensorsToGpu s else (s.constantGpuResources, true)
  if returned && !c.createFails && F.createKernel c.freshContext then
    ({ mlOperatorKernel := some c.freshContext
       needsLazyInit := false
       inputShapesOfKernelInference := c.edgeShapes
       constantInputTensorContents := c.lazyConstantSnapshot
       constantGpuResources := resources }, true)
  else
    ({ s with constantGpuResources := resources }, false)

def State.tmpConstantTensors (s : State) (c : Call n) (i : Nat) : Option OperatorTensor :=
  if i ∈ n.requiredConstantCpuInputs then
    (c.resolveConstant i).or ((s.snapshot i).map TensorContent.tensor)
  else
    none

/-- The change detection runs. -/
def State.checksChanges (n : Node) (s : State) : Bool :=
  n.requiresInputShapesAtCreation && !s.inputShapesOfKernelInference.isEmpty && !s.needsLazyInit

def State.requiredCpuInputsChanged (s : State) (c : Call n) : Bool :=
  !s.constantInputTensorContents.isEmpty &&
    n.requiredConstantCpuInputs.any fun i =>
      decide (i < s.constantInputTensorContents.length) &&
        constantInputChanged (s.snapshot i) (s.tmpConstantTensors c i)

def State.needsTemporaryKernel (s : State) (c : Call n) : Bool :=
  s.checksChanges n &&
    (decide (c.edgeShapes ≠ s.inputShapesOfKernelInference) || s.requiredCpuInputsChanged c)

/-- `AbiSafeKernelContext::GetInputTensor`. -/
def State.getInputTensor (s : State) (c : Call n) (i : Nat) : Option TensorContent :=
  (s.gpuResource i).or (c.content i)

/-- What a successful call computed: the kernel that ran, what `GetInputTensor` gave it for each
index, and the result. -/
structure Outcome (R : Type*) where
  kernel : CreationContext
  inputTensor : Nat → Option TensorContent
  result : R

def runKernel (F : KernelFactory R) (s : State) (c : Call n) (kernel : CreationContext) :
    Option (Outcome R) :=
  if c.computeFails then none
  else (F.compute kernel (s.getInputTensor c)).map fun result =>
    { kernel := kernel, inputTensor := s.getInputTensor c, result := result }

/-- The part of `DmlAbiKernel_Compute` behind the lazy creation. -/
def runReady (F : KernelFactory R) (s : State) (c : Call n) : Option (Outcome R) :=
  if s.needsTemporaryKernel c then
    let context := c.creationContext (s.tmpConstantTensors c)
    if !c.createFails && F.createKernel context then runKernel F s c context else none
  else
    s.mlOperatorKernel.bind (runKernel F s c)

/-- `DmlAbiKernel_Compute`. -/
def compute (F : KernelFactory R) (s : State) (c : Call n) : State × Option (Outcome R) :=
  if s.needsLazyInit && s.mlOperatorKernel.isNone then
    match lazyInit F s c with
    | (s', true) => (s', runReady F s' c)
    | (s', false) => (s', none)
  else
    (s, runReady F s c)

def machine (F : KernelFactory R) (n : Node) : Machine State (Call n) (Option (Outcome R)) where
  step s c := some (compute F s c)

/-! ## What a call resolves -/

namespace Call

variable (c : Call n)

theorem input_of_constant {i : Nat} {v : OrtValue} (hv : n.constant i = some v) :
    c.content i = some v.tensor.content := by
  obtain ⟨w, hw, hcontent⟩ := c.initializers_passed i v hv
  simp [content, input, hw, hcontent]

theorem resolveConstant_content {i : Nat} {t : OperatorTensor}
    (ht : c.resolveConstant i = some t) : c.content i = some t.content := by
  unfold resolveConstant at ht
  cases hconstant : n.constant i with
  | none =>
    rw [hconstant, Option.none_or] at ht
    obtain ⟨v, hv, rfl⟩ := Option.map_eq_some_iff.1 ht
    simp [content, hv]
  | some v =>
    rw [hconstant, Option.some_or, Option.map_some, Option.some.injEq] at ht
    rw [c.input_of_constant hconstant, ← ht]

theorem resolveConstant_of_le {i : Nat} (hi : n.inputCount ≤ i) : c.resolveConstant i = none := by
  have hconstant : n.constant i = none := by
    simp [Node.constant, List.getElem?_eq_none (show n.constants.length ≤ i from hi)]
  have hinput : c.input i = none := by
    have hle : c.inputs.length ≤ i := by rwa [c.inputs_length]
    simp [input, List.getElem?_eq_none hle]
  simp [resolveConstant, hconstant, hinput]

/-- An uploaded copy is of the input of the call. -/
theorem uploaded_content {i : Nat} {content : TensorContent} (h : c.uploaded i = some content) :
    c.content i = some content := by
  obtain ⟨hsnapshot, -⟩ := Option.filter_eq_some_iff.1 h
  have htensor := snapshotConstantInput_eq_some.1 hsnapshot
  unfold lazyConstantTensors at htensor
  split at htensor
  · exact c.resolveConstant_content htensor
  · cases htensor

theorem lazyConstantSnapshot_length : c.lazyConstantSnapshot.length = n.inputCount := by
  simp [lazyConstantSnapshot]

theorem constant_creationContext (tensors : Nat → Option OperatorTensor) {i : Nat}
    (hi : i < n.inputCount) :
    (c.creationContext tensors).constant i =
      (tensors i).or ((n.constant i).map OrtValue.tensor) := by
  simp [CreationContext.constant, creationContext, hi]

/-- Two contexts of one node agree when the shapes do and the required constants do. -/
theorem creationContext_eq_iff {c' : Call n} {tensors tensors' : Nat → Option OperatorTensor} :
    c.creationContext tensors = c'.creationContext tensors' ↔
      c.edgeShapes = c'.edgeShapes ∧ ∀ i, i < n.inputCount →
        (c.creationContext tensors).constant i = (c'.creationContext tensors').constant i := by
  constructor
  · intro h
    refine ⟨congrArg CreationContext.inputShapes h, fun i _ => by rw [h]⟩
  · rintro ⟨hshapes, hconstants⟩
    have hlist : (c.creationContext tensors).constantInputs =
        (c'.creationContext tensors').constantInputs := by
      refine List.map_congr_left fun i hi => ?_
      have hi := List.mem_range.1 hi
      rw [← c.constant_creationContext tensors hi, hconstants i hi,
        c'.constant_creationContext tensors' hi]
    have hinput : (c.creationContext tensors).inputShapes =
        (c'.creationContext tensors').inputShapes := hshapes
    cases h : c.creationContext tensors with
    | mk shapes constants =>
      cases h' : c'.creationContext tensors' with
      | mk shapes' constants' =>
        rw [h, h'] at hinput hlist
        cases hinput
        cases hlist
        rfl

theorem constant_freshContext_required {i : Nat} (hi : i ∈ n.requiredConstantCpuInputs) :
    c.freshContext.constant i = c.resolveConstant i := by
  by_cases hlt : i < n.inputCount
  · rw [freshContext, c.constant_creationContext _ hlt, lazyConstantTensors, if_pos hi]
    cases hconstant : n.constant i with
    | none => simp
    | some v => simp [resolveConstant, hconstant]
  · rw [c.resolveConstant_of_le (Nat.le_of_not_lt hlt)]
    simp [freshContext, CreationContext.constant, creationContext, Nat.le_of_not_lt hlt]

theorem constant_creationContext_other {tensors : Nat → Option OperatorTensor} {i : Nat}
    (hlt : i < n.inputCount) (hnone : tensors i = none) :
    (c.creationContext tensors).constant i = (n.constant i).map OrtValue.tensor := by
  rw [c.constant_creationContext tensors hlt, hnone, Option.none_or]

end Call

/-- The kernel created for `c` is the one created for `c'` when they agree on the shapes and on
the required constants. -/
theorem freshContext_eq_iff {c c' : Call n} :
    c.freshContext = c'.freshContext ↔
      c.edgeShapes = c'.edgeShapes ∧
        ∀ i, i ∈ n.requiredConstantCpuInputs → c.resolveConstant i = c'.resolveConstant i := by
  constructor
  · intro h
    refine ⟨congrArg CreationContext.inputShapes h, fun i hi => ?_⟩
    rw [← c.constant_freshContext_required hi, h, c'.constant_freshContext_required hi]
  · rintro ⟨hshapes, hconstants⟩
    refine c.creationContext_eq_iff.2 ⟨hshapes, fun i hlt => ?_⟩
    by_cases hi : i ∈ n.requiredConstantCpuInputs
    · exact (c.constant_freshContext_required hi).trans
        ((hconstants i hi).trans (c'.constant_freshContext_required hi).symm)
    · rw [c.constant_creationContext_other hlt (if_neg hi),
        c'.constant_creationContext_other hlt (if_neg hi)]

/-! ## What a state keeps -/

/-- `s` holds the kernel that the call `c₀` needed, with its shapes and constants next to it. -/
structure Holds (s : State) (c₀ : Call n) : Prop where
  lazy : s.needsLazyInit = false
  kernel : s.mlOperatorKernel = some c₀.freshContext
  shapes : s.inputShapesOfKernelInference = c₀.edgeShapes
  contents : s.constantInputTensorContents = c₀.lazyConstantSnapshot

/-- Between two calls the kernel is still to be created, or it is that of an earlier call. -/
inductive Kept (n : Node) (s : State) : Prop
  | deferred (hlazy : s.needsLazyInit = true) (hkernel : s.mlOperatorKernel = none)
  | created (c₀ : Call n) (h : Holds s c₀)

namespace Holds

variable {s : State} {c₀ : Call n} (h : Holds s c₀)

include h

theorem snapshot_eq {i : Nat} (hi : i ∈ n.requiredConstantCpuInputs) :
    s.snapshot i = snapshotConstantInput (c₀.resolveConstant i) := by
  rw [State.snapshot, h.contents]
  by_cases hlt : i < n.inputCount
  · simp [Call.lazyConstantSnapshot, hlt, Call.lazyConstantTensors, hi]
  · rw [c₀.resolveConstant_of_le (Nat.le_of_not_lt hlt)]
    simp [Call.lazyConstantSnapshot, Nat.le_of_not_lt hlt, snapshotConstantInput]

theorem snapshot_of_le {i : Nat} (hi : n.inputCount ≤ i) : s.snapshot i = none := by
  rw [State.snapshot, h.contents]
  simp [Call.lazyConstantSnapshot, hi]

/-- The temporary kernel is the one the call needs, unless a snapshot stands in for a constant
that the call does not have. -/
theorem temporaryContext_fresh_iff (c : Call n) :
    c.creationContext (s.tmpConstantTensors c) = c.freshContext ↔
      ∀ i, i ∈ n.requiredConstantCpuInputs → c.resolveConstant i = none → s.snapshot i = none := by
  constructor
  · intro heq i hi hnone
    by_cases hlt : i < n.inputCount
    · have hconstant := c.constant_creationContext (s.tmpConstantTensors c) hlt
      rw [heq, c.constant_freshContext_required hi, hnone, State.tmpConstantTensors, if_pos hi,
        hnone, Option.none_or] at hconstant
      cases hsnapshot : s.snapshot i with
      | none => rfl
      | some content => rw [hsnapshot] at hconstant; simp at hconstant
    · exact h.snapshot_of_le (Nat.le_of_not_lt hlt)
  · intro hsnapshot
    refine congrArg c.creationContext (funext fun i => ?_)
    unfold State.tmpConstantTensors Call.lazyConstantTensors
    split
    · next hi =>
      cases hnone : c.resolveConstant i with
      | none => rw [hsnapshot i hi hnone]; rfl
      | some t => rfl
    · rfl

/-- The comparison sees a change only where both sides can be read on the host. -/
theorem requiredCpuInputsChanged_iff (c : Call n) :
    s.requiredCpuInputsChanged c = true ↔
      ∃ i, i ∈ n.requiredConstantCpuInputs ∧ ∃ l l', s.snapshot i = some l ∧
        snapshotConstantInput (c.resolveConstant i) = some l' ∧ l ≠ l' := by
  have hlength : s.constantInputTensorContents.length = n.inputCount := by
    rw [h.contents, c₀.lazyConstantSnapshot_length]
  constructor
  · intro hchanged
    obtain ⟨-, hany⟩ := Bool.and_eq_true_iff.1 hchanged
    obtain ⟨i, hi, hi'⟩ := List.any_eq_true.1 hany
    obtain ⟨l, l', hl, hl', hne⟩ :=
      constantInputChanged_eq_true.1 (Bool.and_eq_true_iff.1 hi').2
    refine ⟨i, hi, l, l', hl, ?_, hne⟩
    rw [State.tmpConstantTensors, if_pos hi, hl] at hl'
    cases hresolve : c.resolveConstant i with
    | some t => rwa [hresolve, Option.some_or] at hl'
    | none =>
      rw [hresolve, Option.none_or, Option.map_some, snapshotConstantInput_eq_some] at hl'
      simp only [TensorContent.tensor, Option.some.injEq, OperatorTensor.mk.injEq] at hl'
      exact absurd hl'.1 hne
  · rintro ⟨i, hi, l, l', hl, hl', hne⟩
    have hlt : i < n.inputCount := by
      by_contra hle
      rw [h.snapshot_of_le (Nat.le_of_not_lt hle)] at hl
      cases hl
    have htensor : s.tmpConstantTensors c i = c.resolveConstant i := by
      rw [State.tmpConstantTensors, if_pos hi, snapshotConstantInput_eq_some.1 hl', Option.some_or]
    refine Bool.and_eq_true_iff.2 ⟨?_, List.any_eq_true.2 ⟨i, hi, Bool.and_eq_true_iff.2 ⟨?_, ?_⟩⟩⟩
    · rw [Bool.not_eq_true', List.isEmpty_eq_false_iff, ← List.length_pos_iff, hlength]
      exact Nat.zero_lt_of_lt hlt
    · rw [hlength]
      exact decide_eq_true hlt
    · exact constantInputChanged_eq_true.2 ⟨l, l', hl, by rwa [htensor], hne⟩

/-- When nothing changed that the comparison can see, the kept kernel is the one the call needs
if the constants agree that it cannot see. -/
theorem keptContext_fresh_iff (c : Call n) (hshapes : c.edgeShapes = s.inputShapesOfKernelInference)
    (hunchanged : s.requiredCpuInputsChanged c = false) :
    c₀.freshContext = c.freshContext ↔
      ∀ i, i ∈ n.requiredConstantCpuInputs →
        s.snapshot i = none ∨ snapshotConstantInput (c.resolveConstant i) = none →
        c₀.freshContext.constant i = c.resolveConstant i := by
  rw [freshContext_eq_iff]
  constructor
  · rintro ⟨-, hconstants⟩ i hi -
    exact (c₀.constant_freshContext_required hi).trans (hconstants i hi)
  · intro hunseen
    refine ⟨(hshapes.trans h.shapes).symm, fun i hi => ?_⟩
    cases hl : s.snapshot i with
    | none => exact (c₀.constant_freshContext_required hi).symm.trans (hunseen i hi (.inl hl))
    | some l =>
      cases hl' : snapshotConstantInput (c.resolveConstant i) with
      | none => exact (c₀.constant_freshContext_required hi).symm.trans (hunseen i hi (.inr hl'))
      | some l' =>
        -- both can be read, so the comparison has found them equal
        have heq : l = l' := by
          by_contra hne
          have hchanged := (h.requiredCpuInputsChanged_iff c).2 ⟨i, hi, l, l', hl, hl', hne⟩
          rw [hunchanged] at hchanged
          cases hchanged
        rw [h.snapshot_eq hi] at hl
        rw [snapshotConstantInput_eq_some.1 hl, snapshotConstantInput_eq_some.1 hl', heq]

/-- The call that created the kernel needs no temporary one. -/
theorem needsTemporaryKernel_self : s.needsTemporaryKernel c₀ = false := by
  have hunchanged : s.requiredCpuInputsChanged c₀ = false := by
    by_contra hchanged
    obtain ⟨i, hi, l, l', hl, hl', hne⟩ :=
      (h.requiredCpuInputsChanged_iff c₀).1 (Bool.of_not_eq_false hchanged)
    rw [h.snapshot_eq hi, hl'] at hl
    exact hne (Option.some.inj hl).symm
  rw [State.needsTemporaryKernel, h.shapes, hunchanged]
  simp

end Holds

/-! ## The lazy creation -/

/-- A GPU copy from before the call survives its lazy creation. -/
def Call.KeepsCopy (c : Call n) (i : Nat) : Prop :=
  c.uploadsConstants = true → i ≤ c.maxIndex ∧ c.uploaded i = none

theorem upload_getElem (c : Call n) (s : State) (hdevice : c.deviceFails = false) (i : Nat) :
    (c.uploadConstantTensorsToGpu s).1[i]?.join =
      if i ≤ c.maxIndex then (c.uploaded i).or (s.gpuResource i) else none := by
  rw [Call.uploadConstantTensorsToGpu, hdevice, if_neg Bool.false_ne_true]
  split
  · next hi => simp [Nat.lt_succ_of_le hi]
  · next hi =>
    rw [List.getElem?_eq_none (by simpa using Nat.succ_le_of_lt (Nat.lt_of_not_le hi))]
    rfl

/-- A successful lazy creation keeps the kernel of the call; its slots are the uploads of the call
and the copies of failed attempts that no upload replaced. -/
theorem lazyInit_created {F : KernelFactory R} {s s' : State} {c : Call n}
    (h : lazyInit F s c = (s', true)) :
    Holds s' c ∧ ∀ i r, s'.gpuResource i = some r ↔
      (c.uploadsConstants = true ∧ i ≤ c.maxIndex ∧ c.uploaded i = some r) ∨
        (c.KeepsCopy i ∧ s.gpuResource i = some r) := by
  unfold lazyInit at h
  cases huploads : c.uploadsConstants with
  | false =>
    simp only [huploads, Bool.false_eq_true, if_false, Bool.true_and] at h
    split at h
    · cases h
      refine ⟨⟨rfl, rfl, rfl, rfl⟩, fun i r => ?_⟩
      simp [State.gpuResource, Call.KeepsCopy, huploads]
    · cases h
  | true =>
    simp only [huploads, if_true] at h
    split at h
    · next hcreated =>
      cases hdevice : c.deviceFails with
      | true => simp [Call.uploadConstantTensorsToGpu, hdevice] at hcreated
      | false =>
        cases h
        refine ⟨⟨rfl, rfl, rfl, rfl⟩, fun i r => ?_⟩
        rw [State.gpuResource, upload_getElem c s hdevice]
        split
        · next hi =>
          cases huploaded : c.uploaded i with
          | none => simp [Call.KeepsCopy, huploads, huploaded, hi]
          | some r' => simp [Call.KeepsCopy, huploads, huploaded, hi]
        · next hi => simp [Call.KeepsCopy, huploads, hi]
    · cases h

theorem lazyInit_failed {F : KernelFactory R} {s s' : State} {c : Call n}
    (h : lazyInit F s c = (s', false)) :
    s'.needsLazyInit = s.needsLazyInit ∧ s'.mlOperatorKernel = s.mlOperatorKernel := by
  unfold lazyInit at h
  generalize (if c.uploadsConstants then c.uploadConstantTensorsToGpu s
    else (s.constantGpuResources, true)) = upload at h
  obtain ⟨resources, returned⟩ := upload
  dsimp only at h
  split at h
  · cases h
  · cases h
    exact ⟨rfl, rfl⟩

/-! ## What a successful call computes -/

/-- What a kernel created for this call from the node alone would compute. -/
structure Fresh (F : KernelFactory R) (c : Call n) (o : Outcome R) : Prop where
  kernel : o.kernel = c.freshContext
  inputTensor : ∀ i, o.inputTensor i = c.content i
  result : F.compute c.freshContext c.content = some o.result

/-- The kernel that the call finds, or makes, was created for its shapes and constants. -/
def KernelCurrent (s : State) (c : Call n) : Prop :=
  match s.mlOperatorKernel with
  | none => True
  | some kernel =>
    if s.checksChanges n then
      if s.needsTemporaryKernel c then
        ∀ i, i ∈ n.requiredConstantCpuInputs → c.resolveConstant i = none → s.snapshot i = none
      else
        ∀ i, i ∈ n.requiredConstantCpuInputs →
          s.snapshot i = none ∨ snapshotConstantInput (c.resolveConstant i) = none →
          kernel.constant i = c.resolveConstant i
    else
      kernel = c.freshContext

/-- The GPU copies of earlier calls that this call is still served are of its own inputs. -/
def CopiesCurrent (s : State) (c : Call n) : Prop :=
  ∀ i r, s.gpuResource i = some r → (s.mlOperatorKernel = none → c.KeepsCopy i) →
    c.content i = some r

/-- The state before the call is up to date for it. -/
def Current (s : State) (c : Call n) : Prop :=
  KernelCurrent s c ∧ CopiesCurrent s c

theorem getInputTensor_eq_content_iff {s : State} {c : Call n} :
    (∀ i, s.getInputTensor c i = c.content i) ↔
      ∀ i r, s.gpuResource i = some r → c.content i = some r := by
  constructor
  · intro h i r hr
    rw [← h i, State.getInputTensor, hr, Option.some_or]
  · intro h i
    rw [State.getInputTensor]
    cases hr : s.gpuResource i with
    | none => exact Option.none_or
    | some r => exact (h i r hr).symm

theorem runKernel_fresh_iff {F : KernelFactory R} {s : State} {c : Call n}
    {kernel : CreationContext} {o : Outcome R} (h : runKernel F s c kernel = some o) :
    Fresh F c o ↔ kernel = c.freshContext ∧
      ∀ i r, s.gpuResource i = some r → c.content i = some r := by
  unfold runKernel at h
  split at h
  · cases h
  obtain ⟨result, hresult, rfl⟩ := Option.map_eq_some_iff.1 h
  rw [← getInputTensor_eq_content_iff]
  constructor
  · intro hfresh
    exact ⟨hfresh.kernel, hfresh.inputTensor⟩
  · rintro ⟨hkernel, hinput⟩
    refine ⟨hkernel, hinput, ?_⟩
    rw [← hkernel, ← funext hinput]
    exact hresult

/-- A kernel that no temporary one replaces is current when it is the one the call needs. -/
theorem Holds.kernelCurrent_iff_of_kept {s : State} {c₀ c : Call n} (h : Holds s c₀)
    (hkept : s.needsTemporaryKernel c = false) :
    KernelCurrent s c ↔ c₀.freshContext = c.freshContext := by
  unfold KernelCurrent
  rw [h.kernel]
  cases hchecks : s.checksChanges n with
  | false => simp
  | true =>
    have hunchanged := hkept
    rw [State.needsTemporaryKernel, hchecks, Bool.true_and, Bool.or_eq_false_iff] at hunchanged
    have hshapes : c.edgeShapes = s.inputShapesOfKernelInference := by simpa using hunchanged.1
    rw [h.keptContext_fresh_iff c hshapes hunchanged.2]
    simp [hkept]

/-- With a kernel in place, a successful call is fresh exactly when its kernel and the copies
are current. -/
theorem Holds.runReady_fresh_iff {F : KernelFactory R} {s : State} {c₀ c : Call n}
    (h : Holds s c₀) {o : Outcome R} (hrun : runReady F s c = some o) :
    Fresh F c o ↔ KernelCurrent s c ∧ ∀ i r, s.gpuResource i = some r → c.content i = some r := by
  unfold runReady at hrun
  cases htemporary : s.needsTemporaryKernel c with
  | true =>
    have hchecks : s.checksChanges n = true := (Bool.and_eq_true_iff.1 htemporary).1
    have hcurrent : KernelCurrent s c ↔
        c.creationContext (s.tmpConstantTensors c) = c.freshContext := by
      rw [h.temporaryContext_fresh_iff c]
      simp [KernelCurrent, h.kernel, hchecks, htemporary]
    simp only [htemporary, if_true] at hrun
    split at hrun
    · rw [runKernel_fresh_iff hrun, hcurrent]
    · cases hrun
  | false =>
    simp only [htemporary, h.kernel, Bool.false_eq_true, if_false, Option.bind_some] at hrun
    rw [runKernel_fresh_iff hrun, h.kernelCurrent_iff_of_kept htemporary]

theorem kernelCurrent_of_none {s : State} (c : Call n) (h : s.mlOperatorKernel = none) :
    KernelCurrent s c := by
  unfold KernelCurrent
  rw [h]
  trivial

/-- The call that creates the kernel runs a current one. -/
theorem Holds.kernelCurrent_self {s : State} {c : Call n} (h : Holds s c) : KernelCurrent s c := by
  have htemporary := h.needsTemporaryKernel_self
  unfold KernelCurrent
  rw [h.kernel, htemporary]
  show if s.checksChanges n then _ else _
  split
  · intro i hi _
    exact c.constant_freshContext_required hi
  · rfl

/-- One call from a kept state: a successful one is fresh exactly when the state is current for
it, and the state stays kept. -/
theorem compute_fresh_iff {F : KernelFactory R} {s : State} (hs : Kept n s) (c : Call n) :
    Kept n (compute F s c).1 ∧
      ∀ o, (compute F s c).2 = some o → (Fresh F c o ↔ Current s c) := by
  cases hs with
  | created c₀ h =>
    have hready : compute F s c = (s, runReady F s c) := by
      simp [compute, h.lazy]
    rw [hready]
    refine ⟨.created c₀ h, fun o ho => ?_⟩
    rw [h.runReady_fresh_iff ho, Current, CopiesCurrent, h.kernel]
    simp
  | deferred hlazy hkernel =>
    unfold compute
    rw [hlazy, hkernel]
    cases hinit : lazyInit F s c with
    | mk s' returned =>
      cases returned with
      | false =>
        obtain ⟨hlazy', hkernel'⟩ := lazyInit_failed hinit
        refine ⟨.deferred (hlazy'.trans hlazy) (hkernel'.trans hkernel), fun o ho => ?_⟩
        cases ho
      | true =>
        obtain ⟨h, hresources⟩ := lazyInit_created hinit
        refine ⟨.created c h, fun o ho => ?_⟩
        have hkernel' := h.kernelCurrent_self
        have hcopies : (∀ i r, s'.gpuResource i = some r → c.content i = some r) ↔
            CopiesCurrent s c := by
          constructor
          · intro hcurrent i r hr hkeeps
            exact hcurrent i r ((hresources i r).2 (.inr ⟨hkeeps hkernel, hr⟩))
          · intro hcurrent i r hr
            rcases (hresources i r).1 hr with ⟨-, -, huploaded⟩ | ⟨hkeeps, hr⟩
            · exact c.uploaded_content huploaded
            · exact hcurrent i r hr fun _ => hkeeps
        rw [h.runReady_fresh_iff ho, hcopies, Current]
        exact and_congr_left' (iff_of_true hkernel' (kernelCurrent_of_none c hkernel))

/-- A node of two inputs, neither of them an initializer; the kernel needs the second one, a
length, to be created. -/
def dftNode : Node where
  constants := [none, none]
  requiredConstantCpuInputs := [1]
  requiresInputShapesAtCreation := true
  hasExecutionProvider := true

/-- A call with a signal on the device and the length on the host. -/
def dftCall (length : UInt8) : Call dftNode where
  inputs :=
    [some { dims := [2], type := .float, data := List.replicate 8 0, isCpu := false },
     some { dims := [], type := .int64, data := length :: List.replicate 7 0, isCpu := true }]
  inputs_length := rfl
  initializers_passed := by
    intro i v hv
    match i with
    | 0 => cases hv
    | 1 => cases hv
    | _ + 2 => cases hv
  deviceFails := false
  uploadFails := fun _ => false
  createFails := false
  computeFails := false

/-- A kernel that reads the length from its inputs. -/
def readsLength : KernelFactory (List UInt8) where
  createKernel := fun _ => true
  compute := fun _ inputTensor => (inputTensor 1).map TensorContent.data

end AmdGpuEp.DirectML.AbiKernel
