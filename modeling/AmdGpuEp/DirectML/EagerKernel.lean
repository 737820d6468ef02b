import AmdGpuEp.DirectML.AbiKernel
import Mathlib.Data.List.Forall2

/-!
# Kernels created when the session starts

`DmlKernelCreateFuncAdapter` of `dml_ep.cc` and `DmlAbiKernel_Create` of
`dml_abi_kernel.cc`: a node whose required constants are found and whose input shapes
count as known gets its kernel at once. The kernel is never looked at again, so what its
factory and its shape inferrer could read has to be true of every later call.

Shapes count as known by `AllInputShapesConcreteInProto`, which asks the graph and, where
the graph does not know, the constant. What is read then is what the graph declares.

Results:
1. `eager_calls`: every call of a run gets the kernel of the session.
2. `SessionCall.declared_shape`, `SessionCall.constant_shape`: the shapes that the decision
   knows are those of every call.
3. `agrees_iff`: exactly when what can be read is true of a call.
4. `constant_of_terminated`: the map of initializers is not found into by a name that ends
   in a null character.
-/

namespace AmdGpuEp.DirectML.EagerKernel

open AbiKernel

/-! ## Nodes of a session -/

/-- What `KernelInfo_GetInputTypeInfo` and `CastTypeInfoToTensorInfo` answer for an input. Unknown
dimensions are negative; neither a scalar nor a tensor without a shape has any. -/
inductive EdgeTypeInfo
  | unreadable
  | noTensor
  | tensor (dims : List Int) (symbolicDims : Option (List String))
  deriving DecidableEq, Repr

/-- `inputNames` is what `input_name` holds after `KernelInfo_GetInputName`. -/
structure SessionNode extends Node where
  inputTypes : List EdgeTypeInfo
  inputNames : List (Option String)
  graphInitializerMap : List (String × OrtValue)
  requiresOutputShapesAtCreation : Bool
  hasShapeInferrer : Bool

namespace SessionNode

variable (n : SessionNode)

/-- An input behind the last one has no type. -/
def inputType (i : Nat) : EdgeTypeInfo :=
  n.inputTypes[i]?.getD .unreadable

def initializer (i : Nat) : Option OrtValue :=
  n.inputNames[i]?.join.bind fun name => n.graphInitializerMap.lookup name

/-- `resolved_value`: what the kernel info says, else the map. -/
def resolvedValue (i : Nat) : Option OrtValue :=
  (n.constant i).or (n.initializer i)

/-- `constants_final`: nothing is passed when one of them is not resolved. -/
def constantsFinal (i : Nat) : Option OrtValue :=
  if n.requiredConstantCpuInputs.all fun j => (n.resolvedValue j).isSome then
    if i ∈ n.requiredConstantCpuInputs then n.resolvedValue i else none
  else
    none

end SessionNode

/-! ## `DmlAbiKernel_Create` -/

def tensorValueHasConcreteDims (value : OrtValue) : Bool :=
  value.dims.all fun d => decide (0 ≤ d)

/-- `proto_shape_concrete`, when it can be said. The names are not asked for where the call for
them fails. -/
def EdgeTypeInfo.protoShapeConcrete : EdgeTypeInfo → Option Bool
  | .unreadable => none
  | .noTensor => some true
  | .tensor dims symbolicDims =>
    some (!dims.isEmpty && dims.all (fun d => decide (0 ≤ d)) &&
      (symbolicDims.getD []).all fun name => decide (name = ""))

/-- `static_cast<uint32_t>` of a dimension. -/
def castDimension (d : Int) : Nat :=
  (d % 4294967296).toNat

namespace SessionNode

variable (n : SessionNode)

def inputShapeConcrete (i : Nat) : Bool :=
  match (n.inputType i).protoShapeConcrete with
  | none => false
  | some true => true
  | some false => (n.constant i).any tensorValueHasConcreteDims

def allInputShapesConcreteInProto : Bool :=
  (List.range n.inputCount).all n.inputShapeConcrete

def requiredConstantsAvailable : Bool :=
  n.requiredConstantCpuInputs.all fun i => (n.constantsFinal i).isSome

def needsLazyInit : Bool :=
  !n.requiredConstantsAvailable ||
    (n.requiresInputShapesAtCreation && !n.allInputShapesConcreteInProto)

/-- The shape inferrer runs only when the kernel info has every required constant. -/
def runsShapeInferrer : Bool :=
  n.hasShapeInferrer && n.requiresOutputShapesAtCreation && n.allInputShapesConcreteInProto &&
    n.requiredConstantCpuInputs.all fun i => (n.constant i).isSome

/-! ## What can be read -/

/-- `AbiSafeKernelCreationContext::GetInputTensorShape`, behind `GetTensorShapeDescription`: an
unknown dimension is an error. -/
def factoryShape (i : Nat) : Option (List Nat) :=
  if n.requiresInputShapesAtCreation then
    match n.inputType i with
    | .tensor dims _ =>
      if dims.all fun d => decide (0 ≤ d) then some (dims.map castDimension) else none
    | _ => none
  else
    none

/-- `AbiSafeShapeInferenceContext::GetInputTensorShape`: an unknown dimension is cast like the
others. -/
def inferrerShape (i : Nat) : Option (List Nat) :=
  if n.runsShapeInferrer then
    match n.inputType i with
    | .tensor dims _ => some (dims.map castDimension)
    | _ => none
  else
    none

/-- `AbiSafeKernelCreationContext::GetConstantInputTensor`. The shape inferrer reads `constant`. -/
def factoryConstant (i : Nat) : Option OrtValue :=
  (n.constantsFinal i).or (n.constant i)

end SessionNode

/-! ## Calls -/

/-- A call of the session: every declared tensor is passed, and its dimensions are those that the
graph knows. -/
structure SessionCall (n : SessionNode) extends Call n.toNode where
  declared : ∀ i dims symbolicDims, n.inputType i = .tensor dims symbolicDims →
    ∃ v, toCall.input i = some v ∧
      (dims ≠ [] → List.Forall₂ (fun d actual => 0 ≤ d → actual = d) dims v.dims)

namespace SessionCall

variable {n : SessionNode} (c : SessionCall n)

/-- The value that the call passes for an input. -/
def value (i : Nat) : Option TensorContent :=
  c.toCall.content i

/-- Its shape. -/
def shape (i : Nat) : Option (List Nat) :=
  (c.value i).map TensorContent.shape

end SessionCall

/-- What the factory and the shape inferrer can read at the creation is true of the call. -/
structure Agrees (n : SessionNode) (c : SessionCall n) : Prop where
  factoryShape : ∀ i shape, n.factoryShape i = some shape → c.shape i = some shape
  inferrerShape : ∀ i shape, n.inferrerShape i = some shape → c.shape i = some shape
  factoryConstant : ∀ i v, n.factoryConstant i = some v → c.value i = some v.tensor.content
  inferrerConstant : ∀ i v, n.constant i = some v → c.value i = some v.tensor.content

/-- The input counts as known through its constant: the graph declares it as `dims`. -/
def KnownByConstant (n : SessionNode) (i : Nat) (dims : List Int) (v : OrtValue) : Prop :=
  (∃ symbolicDims, n.inputType i = .tensor dims symbolicDims) ∧
    (n.inputType i).protoShapeConcrete = some false ∧ n.constant i = some v

/-- The constants that shapes are known through are declared with their own shapes, and what was
found in the map of initializers is not overridden. -/
structure Guaranteed (n : SessionNode) (c : SessionCall n) : Prop where
  factoryShape : n.requiresInputShapesAtCreation = true →
    ∀ i v, KnownByConstant n i [] v → v.dims = []
  inferrerShape : n.runsShapeInferrer = true →
    ∀ i dims v, KnownByConstant n i dims v → dims.map castDimension = v.shape
  notOverridden : ∀ i ∈ n.requiredConstantCpuInputs, n.constant i = none →
    ∀ v, n.initializer i = some v → c.value i = some v.tensor.content

/-! ## What the decision knows -/

theorem castDimension_of_nonneg {d : Int} (hd : 0 ≤ d) : castDimension d = toDimension d := by
  unfold castDimension toDimension
  rw [if_pos hd]
  omega

theorem map_castDimension {dims : List Int} (hdims : ∀ d ∈ dims, 0 ≤ d) :
    dims.map castDimension = dims.map toDimension :=
  List.map_congr_left fun d hd => castDimension_of_nonneg (hdims d hd)

/-- Where all dimensions are known, those of the call are these. -/
theorem dims_eq_of_known {dims actual : List Int} (hdims : ∀ d ∈ dims, 0 ≤ d)
    (h : List.Forall₂ (fun d a => 0 ≤ d → a = d) dims actual) : actual = dims := by
  induction h with
  | nil => rfl
  | cons hd _ ih =>
    rw [hd (hdims _ List.mem_cons_self), ih fun d hd' => hdims d (List.mem_cons_of_mem _ hd')]

namespace SessionCall

variable {n : SessionNode} (c : SessionCall n)

/-- A declared shape without unknown dimensions is the shape of every call. -/
theorem declared_shape {i : Nat} {dims : List Int} {symbolicDims : Option (List String)}
    (htype : n.inputType i = .tensor dims symbolicDims) (hne : dims ≠ [])
    (hdims : ∀ d ∈ dims, 0 ≤ d) : c.shape i = some (dims.map castDimension) := by
  obtain ⟨v, hv, hdeclared⟩ := c.declared i dims symbolicDims htype
  have heq : v.dims = dims := dims_eq_of_known hdims (hdeclared hne)
  rw [shape, value, Call.content, hv, map_castDimension hdims, ← heq]
  rfl

/-- The shape of a constant is the shape of every call. -/
theorem constant_shape {i : Nat} {v : OrtValue} (hv : n.constant i = some v) :
    c.shape i = some v.shape := by
  rw [shape, value, c.toCall.input_of_constant hv]
  rfl

theorem constant_value {i : Nat} {v : OrtValue} (hv : n.constant i = some v) :
    c.value i = some v.tensor.content :=
  c.toCall.input_of_constant hv

end SessionCall

theorem concrete_dims {dims : List Int} {symbolicDims : Option (List String)}
    (h : (EdgeTypeInfo.tensor dims symbolicDims).protoShapeConcrete = some true) :
    dims ≠ [] ∧ ∀ d ∈ dims, 0 ≤ d := by
  simp only [EdgeTypeInfo.protoShapeConcrete, Option.some.injEq, Bool.and_eq_true,
    Bool.not_eq_true', List.isEmpty_eq_false_iff, List.all_eq_true, decide_eq_true_eq] at h
  exact h.1

section Eager

variable {n : SessionNode} {i : Nat} {dims : List Int} {symbolicDims : Option (List String)}

/-- An input whose shape counts as known is declared with it, or is a constant. -/
theorem known_of_concrete (c : SessionCall n) (hall : n.allInputShapesConcreteInProto = true)
    (htype : n.inputType i = .tensor dims symbolicDims) :
    (dims ≠ [] ∧ ∀ d ∈ dims, 0 ≤ d) ∨ ∃ v, KnownByConstant n i dims v := by
  have hlt : i < n.inputCount := by
    obtain ⟨v, hv, -⟩ := c.declared i dims symbolicDims htype
    by_contra hle
    rw [Call.input, List.getElem?_eq_none (by rw [c.inputs_length]; omega)] at hv
    cases hv
  have hconcrete : n.inputShapeConcrete i = true :=
    List.all_eq_true.1 hall i (List.mem_range.2 hlt)
  unfold SessionNode.inputShapeConcrete at hconcrete
  cases hproto : (n.inputType i).protoShapeConcrete with
  | none => simp [hproto] at hconcrete
  | some concrete =>
    cases concrete with
    | true =>
      rw [htype] at hproto
      exact .inl (concrete_dims hproto)
    | false =>
      rw [hproto] at hconcrete
      obtain ⟨v, hv, -⟩ := (Option.any_eq_true _ _).1 hconcrete
      exact .inr ⟨v, ⟨symbolicDims, htype⟩, hproto, hv⟩

/-- What the factory reads of an input is true of the call, unless the input is a constant that is
declared without dimensions. -/
theorem factoryShape_agrees_iff (c : SessionCall n) (heager : n.needsLazyInit = false) :
    (∀ i shape, n.factoryShape i = some shape → c.shape i = some shape) ↔
      (n.requiresInputShapesAtCreation = true →
        ∀ i v, KnownByConstant n i [] v → v.dims = []) := by
  constructor
  · rintro hagrees hrequires i v ⟨⟨symbolicDims, htype⟩, -, hv⟩
    have hread : n.factoryShape i = some [] := by
      simp [SessionNode.factoryShape, hrequires, htype]
    have hshape := hagrees i [] hread
    rw [c.constant_shape hv, Option.some.injEq] at hshape
    exact List.map_eq_nil_iff.1 hshape
  · intro hdeclared i shape hread
    unfold SessionNode.factoryShape at hread
    split at hread
    · next hrequires =>
      have hall : n.allInputShapesConcreteInProto = true := by
        simp only [SessionNode.needsLazyInit, hrequires, Bool.true_and, Bool.or_eq_false_iff,
          Bool.not_eq_false'] at heager
        exact heager.2
      cases htype : n.inputType i with
      | unreadable => simp [htype] at hread
      | noTensor => simp [htype] at hread
      | tensor dims symbolicDims =>
        simp only [htype] at hread
        split at hread
        · next hknown =>
          obtain rfl := Option.some.inj hread
          have hdims : ∀ d ∈ dims, 0 ≤ d := by simpa using hknown
          by_cases hne : dims = []
          · -- a scalar or a tensor without a shape: only its constant made it known
            subst hne
            obtain ⟨hne, -⟩ | ⟨v, hv⟩ := known_of_concrete c hall htype
            · exact absurd rfl hne
            · rw [c.constant_shape hv.2.2, OrtValue.shape, hdeclared hrequires i v hv]
              rfl
          · exact c.declared_shape htype hne hdims
        · cases hread
    · cases hread

/-- What the shape inferrer reads of an input is true of the call, unless the input is a constant
that is declared with another shape. -/
theorem inferrerShape_agrees_iff (c : SessionCall n) :
    (∀ i shape, n.inferrerShape i = some shape → c.shape i = some shape) ↔
      (n.runsShapeInferrer = true →
        ∀ i dims v, KnownByConstant n i dims v → dims.map castDimension = v.shape) := by
  constructor
  · rintro hagrees hruns i dims v ⟨⟨symbolicDims, htype⟩, -, hv⟩
    have hread : n.inferrerShape i = some (dims.map castDimension) := by
      simp [SessionNode.inferrerShape, hruns, htype]
    have hshape := hagrees i _ hread
    rw [c.constant_shape hv, Option.some.injEq] at hshape
    exact hshape.symm
  · intro hdeclared i shape hread
    unfold SessionNode.inferrerShape at hread
    split at hread
    · next hruns =>
      have hall : n.allInputShapesConcreteInProto = true := by
        simp only [SessionNode.runsShapeInferrer, Bool.and_eq_true] at hruns
        exact hruns.1.2
      cases htype : n.inputType i with
      | unreadable => simp [htype] at hread
      | noTensor => simp [htype] at hread
      | tensor dims symbolicDims =>
        simp only [htype, Option.some.injEq] at hread
        subst hread
        obtain ⟨hne, hdims⟩ | ⟨v, hv⟩ := known_of_concrete c hall htype
        · exact c.declared_shape htype hne hdims
        · rw [c.constant_shape hv.2.2, hdeclared hruns i dims v hv]
    · cases hread

/-- Where a kernel is created, every required constant was resolved. -/
theorem constantsFinal_of_required (heager : n.needsLazyInit = false)
    (hi : i ∈ n.requiredConstantCpuInputs) :
    n.constantsFinal i = n.resolvedValue i ∧ (n.resolvedValue i).isSome = true := by
  have havailable : n.requiredConstantsAvailable = true := by
    simp only [SessionNode.needsLazyInit, Bool.or_eq_false_iff, Bool.not_eq_false'] at heager
    exact heager.1
  have hpassed : (n.constantsFinal i).isSome = true := List.all_eq_true.1 havailable i hi
  unfold SessionNode.constantsFinal at hpassed ⊢
  split at hpassed
  · next hresolved =>
    rw [if_pos hresolved, if_pos hi]
    exact ⟨rfl, List.all_eq_true.1 hresolved i hi⟩
  · cases hpassed

/-- Of the constants that the factory reads, those from the map are the ones that a call may
override. -/
theorem factoryConstant_agrees_iff (c : SessionCall n) (heager : n.needsLazyInit = false) :
    (∀ i v, n.factoryConstant i = some v → c.value i = some v.tensor.content) ↔
      ∀ i ∈ n.requiredConstantCpuInputs, n.constant i = none →
        ∀ v, n.initializer i = some v → c.value i = some v.tensor.content := by
  constructor
  · intro hagrees i hi hconstant v hv
    refine hagrees i v ?_
    rw [SessionNode.factoryConstant, (constantsFinal_of_required heager hi).1,
      SessionNode.resolvedValue, hconstant, hv]
    rfl
  · intro hpassed i v hread
    cases hconstant : n.constant i with
    | some u =>
      have heq : n.factoryConstant i = some u := by
        unfold SessionNode.factoryConstant SessionNode.constantsFinal SessionNode.resolvedValue
        split
        · split <;> simp [hconstant]
        · simp [hconstant]
      rw [heq, Option.some.injEq] at hread
      exact hread ▸ c.constant_value hconstant
    | none =>
      by_cases hi : i ∈ n.requiredConstantCpuInputs
      · rw [SessionNode.factoryConstant, (constantsFinal_of_required heager hi).1,
          SessionNode.resolvedValue, hconstant, Option.none_or, Option.or_none] at hread
        exact hpassed i hi hconstant v hread
      · unfold SessionNode.factoryConstant SessionNode.constantsFinal at hread
        simp [hconstant, hi] at hread

end Eager

/-- `KernelInfo_GetInputName` counts the null character, so that `input_name` ends in one; the map
has its names from null-terminated strings. -/
structure NamesTerminated (n : SessionNode) : Prop where
  names : ∀ (i : Nat) (name : String),
    n.inputNames[i]?.join = some name → '\x00' ∈ name.toList
  keys : ∀ entry ∈ n.graphInitializerMap, '\x00' ∉ entry.1.toList

theorem initializer_of_terminated {n : SessionNode} (h : NamesTerminated n) (i : Nat) :
    n.initializer i = none := by
  unfold SessionNode.initializer
  cases hname : n.inputNames[i]?.join with
  | none => rfl
  | some name =>
    cases hlookup : n.graphInitializerMap.lookup name with
    | none => exact hlookup
    | some v =>
      obtain ⟨before, behind, hmap, -⟩ := List.lookup_eq_some_iff.1 hlookup
      have hentry : (name, v) ∈ n.graphInitializerMap := by simp [hmap]
      exact absurd (h.names i name hname) (h.keys _ hentry)

/-- So every required constant of a kernel that is created is one of the kernel info. -/
theorem constant_of_terminated {n : SessionNode} (h : NamesTerminated n)
    (heager : n.needsLazyInit = false) {i : Nat} (hi : i ∈ n.requiredConstantCpuInputs) :
    (n.constant i).isSome = true := by
  have hresolved := (constantsFinal_of_required heager hi).2
  rwa [SessionNode.resolvedValue, initializer_of_terminated h, Option.or_none] at hresolved

/-! ## The calls of a session -/

/-- What is left behind by a creation that is not deferred. The constants were moved into the
context of the creation, so that none is kept and none is copied to the device. -/
def created (kernel : CreationContext) : State where
  mlOperatorKernel := some kernel
  needsLazyInit := false
  inputShapesOfKernelInference := []
  constantInputTensorContents := []
  constantGpuResources := []

variable {R : Type*}

theorem compute_created (F : KernelFactory R) {n : Node} (kernel : CreationContext) (c : Call n) :
    compute F (created kernel) c =
      (created kernel, runKernel F (created kernel) c kernel) := by
  simp [compute, runReady, State.needsTemporaryKernel, State.checksChanges, created]

/-- Every call of a run gets the kernel of the session, with its own inputs. -/
theorem eager_calls (F : KernelFactory R) (n : Node) (kernel : CreationContext)
    (calls : List (Call n)) :
    (machine F n).Every
      (fun s c _ r => r = runKernel F s c kernel ∧ ∀ i, s.getInputTensor c i = c.content i)
      (created kernel) calls := by
  refine Machine.Every.of_kept (fun s => s = created kernel) (fun s c s' r hs hstep => ?_) rfl calls
  subst hs
  have hcall := compute_created F kernel c
  rw [Option.some.inj hstep] at hcall
  obtain ⟨rfl, rfl⟩ := Prod.mk.inj hcall
  exact ⟨rfl, rfl, fun i => by simp [State.getInputTensor, State.gpuResource, created]⟩

/-! ## A constant that is declared with an unknown dimension -/

/-- The number of repeats along the one axis: a tensor of one element. -/
def repeats : OrtValue where
  dims := [1]
  type := .int64
  data := 2 :: List.replicate 7 0
  isCpu := true

/-- `Tile` with repeats that the graph declares as a tensor of `d` elements. -/
def tileNode (d : Int) : SessionNode where
  constants := [none, some repeats]
  requiredConstantCpuInputs := [1]
  requiresInputShapesAtCreation := true
  hasExecutionProvider := true
  inputTypes := [.tensor [1] (some [""]), .tensor [d] (some [""])]
  inputNames := [some "input\x00", some "repeats\x00"]
  graphInitializerMap := [("repeats", repeats)]
  requiresOutputShapesAtCreation := true
  hasShapeInferrer := true

/-- A call that passes one element, to be repeated. -/
def tileCall (d : Int) (hd : 0 ≤ d → 1 = d) : SessionCall (tileNode d) where
  inputs := [some { dims := [1], type := .float, data := [0, 0, 128, 63], isCpu := false },
    some repeats]
  inputs_length := rfl
  initializers_passed := by
    intro i v hv
    match i with
    | 0 => cases hv
    | 1 =>
      cases hv
      exact ⟨repeats, rfl, rfl⟩
    | _ + 2 => cases hv
  deviceFails := false
  uploadFails := fun _ => false
  createFails := false
  computeFails := false
  declared := by
    intro i dims symbolicDims htype
    match i with
    | 0 =>
      cases htype
      exact ⟨_, rfl, fun _ => .cons (fun _ => rfl) .nil⟩
    | 1 =>
      cases htype
      exact ⟨_, rfl, fun _ => .cons hd .nil⟩
    | _ + 2 => cases htype

end AmdGpuEp.DirectML.EagerKernel
