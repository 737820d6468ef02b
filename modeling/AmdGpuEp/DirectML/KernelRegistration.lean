import AmdGpuEp.Ort.Graph
import AmdGpuEp.Shared.OpAttrToProto
import Mathlib.Data.List.Find

/-!
# The kernels of the DirectML provider and the registry that ORT is given

`PluginAbiCustomRegistry::RegisterOperatorKernel`, the vendored `KernelRegistry` and
`ConvertKernelRegistryToOrtKernelRegistry`. Operators are registered in a registry of
the provider, whose kernels are then copied one by one into a registry of ORT. What a
kernel is created from is found again in a second table, under a key of domain, name
and first version.

Results:
1. `createDmlKernelRegistry_joined`: what stands in the second table under a key.
2. `convert_eq_some_iff`: the registry of ORT, and when it is refused.
3. `converts_iff`: the nodes for which both registries find the same kernel, with what
   it was registered with.
4. `sequences_widened`: a type constraint that is lost.
-/

namespace AmdGpuEp.DirectML.KernelRegistration

open OpAttrToProto (ElementType)

/-! ## Kernel definitions -/

/-- `MLDataType`. -/
inductive MLDataType
  | tensor (e : ElementType)
  | sequenceTensor (e : ElementType)
  | primitive (e : ElementType)
  | other (name : String)
  deriving DecidableEq, Repr

inductive OrtMemType
  | cpuInput
  | cpuOutput
  | default
  deriving DecidableEq, Repr

/-- `KernelDef`. Without a last version (`INT_MAX`) `endVersion` is `none`. -/
structure KernelDef where
  opName : String
  domain : String
  startVersion : Nat
  endVersion : Option Nat
  provider : String
  typeConstraints : List (String × List MLDataType) := []
  inputMemTypes : List (Nat × OrtMemType) := []
  outputMemTypes : List (Nat × OrtMemType) := []
  aliasMap : List (Nat × Nat) := []
  mayInplace : List (Nat × Nat) := []
  deriving DecidableEq, Repr

/-- `std::map::insert`: a key that is there keeps its value. -/
def insertNew {α β : Type} [DecidableEq α] (l : List (α × β)) (key : α) (value : β) :
    List (α × β) :=
  if l.any fun e => e.1 = key then l else l ++ [(key, value)]

/-- `insert_or_assign`. -/
def insertOrAssign {α β : Type} [DecidableEq α] (l : List (α × β)) (key : α) (value : β) :
    List (α × β) :=
  l.filter (fun e => e.1 ≠ key) ++ [(key, value)]

/-- The value under a key. -/
def find {α β : Type} [DecidableEq α] (l : List (α × β)) (key : α) : Option β :=
  (l.find? fun e => e.1 = key).map Prod.snd

/-- `GetMapKey`. -/
def getMapKey (opName domain provider : String) : String :=
  opName ++ " " ++ (if domain = "" then "ai.onnx" else domain) ++ " " ++ provider

namespace KernelDef

def mapKey (d : KernelDef) : String :=
  getMapKey d.opName d.domain d.provider

/-- Without a last version only the first one is taken. -/
def conservativeEnd (d : KernelDef) : Nat :=
  d.endVersion.getD d.startVersion

/-- The type constraints keep the two apart: one that both have allows no type in common. -/
def typesApart (d other : KernelDef) : Bool :=
  d.typeConstraints.any fun c =>
    (find other.typeConstraints c.1).any fun types => !c.2.any (· ∈ types)

/-- `IsConflict`. The last loop looks an output up by a memory type, and reads behind the end of the
map when it finds none. -/
def isConflict (behindEnd : OrtMemType) (d other : KernelDef) : Bool :=
  let memTypeKey : OrtMemType → Option Nat
    | .cpuInput => none
    | .cpuOutput => none
    | .default => some 0
  if d.opName ≠ other.opName ∨ d.provider ≠ other.provider then false
  else if ¬(d.startVersion ≤ other.conservativeEnd ∧ other.startVersion ≤ d.conservativeEnd) then
    false
  else if d.typesApart other then false
  else if d.mayInplace = [] ∧ other.mayInplace ≠ [] then false
  else if d.mayInplace.any (· ∉ other.mayInplace) then false
  else if d.aliasMap.any (· ∉ other.aliasMap) then false
  else if d.aliasMap = [] ∧ other.aliasMap ≠ [] then false
  else if d.inputMemTypes.any fun e => find other.inputMemTypes e.1 = some e.2 then false
  else if d.inputMemTypes = [] ∧ other.inputMemTypes ≠ [] then false
  else if d.outputMemTypes.any fun e =>
    (find other.outputMemTypes e.1).isSome &&
      ((memTypeKey e.2).bind (find other.outputMemTypes)).getD behindEnd = e.2 then false
  else !(d.outputMemTypes = [] ∧ other.outputMemTypes ≠ [])

end KernelDef

/-! ## Registries -/

/-- What a registry keeps for a kernel. -/
structure KernelEntry (α : Type) where
  kernelDef : KernelDef
  created : α
  deriving DecidableEq, Repr

/-- A node as a registry sees it: with the types of its arguments, by the names of the type
constraints. A name stands for the first of its arguments that exists. -/
structure NodeView where
  opType : String
  domain : String
  sinceVersion : Nat
  provider : String
  argType : String → Option MLDataType

def NodeView.mapKey (n : NodeView) : String :=
  getMapKey n.opType n.domain n.provider

/-- `VerifyVersion`. -/
def verifyVersion (sinceVer : Nat) (d : KernelDef) : Bool :=
  decide (d.startVersion = sinceVer) ||
    d.endVersion.any fun last => d.startVersion ≤ sinceVer ∧ sinceVer ≤ last

/-- `MatchKernelDefTypes`. -/
def matchTypes (n : NodeView) (constraints : List (String × List MLDataType)) : Bool :=
  constraints.all fun c => (n.argType c.1).all (· ∈ c.2)

/-- `VerifyKernelDef`, for the kernels under the key of the node. -/
def verifyKernelDef (n : NodeView) (d : KernelDef) : Bool :=
  d.mapKey == n.mapKey && verifyVersion n.sinceVersion d && matchTypes n d.typeConstraints

section

variable {α : Type}

/-- `KernelRegistry::TryFindKernel`. The kernels of a key stand in the order of their registration. -/
def tryFindKernel (kernels : List (KernelEntry α)) (n : NodeView) : Option (KernelEntry α) :=
  kernels.find? fun e => verifyKernelDef n e.kernelDef

/-- `KernelRegistry::Register`. -/
def register (behindEnd : OrtMemType) (kernels : List (KernelEntry α)) (e : KernelEntry α) :
    Option (List (KernelEntry α)) :=
  if kernels.any fun k => k.kernelDef.mapKey == e.kernelDef.mapKey &&
      k.kernelDef.isConflict behindEnd e.kernelDef then none
  else some (kernels ++ [e])

end

/-! ## `RegisterOperatorKernel` -/

inductive ExecutionType
  | undefined
  | cpu
  | d3d12
  deriving DecidableEq, Repr

inductive EdgeType
  | undefined
  | tensor
  | sequenceTensor
  | primitive
  deriving DecidableEq, Repr

/-- `MLOperatorKernelDescription`, with the arguments beside it. COM objects are numbers. -/
structure Registration where
  name : String
  domain : String
  minimumOperatorSetVersion : Nat
  executionType : ExecutionType := .d3d12
  allowDynamicInputShapes : Bool := false
  otherOptions : Bool := false
  executionOptions : Nat := 0
  typeConstraints : List (String × List (EdgeType × ElementType)) := []
  defaultAttributes : List (String × AttrValue) := []
  kernelFactory : Nat
  shapeInferrer : Option Nat := none
  isInternalOperator : Bool := true
  supportsGraph : Bool := false
  requiredInputCountForGraph : Option Nat := none
  requiredConstantCpuInputs : List Nat := []
  aliases : List (Nat × Nat) := []

/-- `InternalRegistrationInfo`, without the query for support and the node factory of graphs. -/
structure InternalRegistrationInfo where
  requiredConstantCpuInputs : List Nat
  kernelFactory : Nat
  shapeInferrer : Option Nat
  defaultAttributes : List (String × AttrValue)
  requiresInputShapesAtCreation : Bool
  requiresOutputShapesAtCreation : Bool
  isInternalOperator : Bool
  deriving DecidableEq, Repr

/-- The types that `ToMLDataType` knows. -/
def mlTypes : List ElementType :=
  [.string, .float, .uint4, .int4, .uint8, .int8, .uint16, .int16, .int32, .int64, .bool, .double,
    .uint32, .uint64, .float16]

/-- `ToMLDataType`. -/
def toMLDataType (e : EdgeType × ElementType) : Option MLDataType :=
  if e.2 ∉ mlTypes then none
  else
    match e.1 with
    | .undefined => none
    | .tensor => some (.tensor e.2)
    | .sequenceTensor => some (.sequenceTensor e.2)
    | .primitive => some (.primitive e.2)

/-- `GetDefaultAttributes`. -/
def getDefaultAttributes (attrs : List (String × AttrValue)) : Option (List (String × AttrValue)) :=
  attrs.foldlM (fun ret attr =>
    match attr.2 with
    | .tensor .. => none
    | .graph _ => none
    | value => some (insertOrAssign ret attr.1 value)) []

/-- The type constraints of the description. -/
def buildTypeConstraints (constraints : List (String × List (EdgeType × ElementType))) :
    Option (List (String × List MLDataType)) :=
  constraints.foldlM (fun built c => do
    let types ← c.2.mapM toMLDataType
    return insertOrAssign built c.1 types) []

/-- The memory types that do not come from the required constants. -/
def placement (name : String) : List (Nat × OrtMemType) × List (Nat × OrtMemType) :=
  if name = "MemcpyToHost" then ([], [(0, .cpuOutput)])
  else if name = "MemcpyFromHost" then ([(0, .cpuInput)], [])
  else if name = "Shape" then ([], [(0, .cpuInput)])
  else if name = "Size" then ([], [(0, .cpuInput)])
  else ([], [])

/-- The kernel definition that is built. -/
def buildKernelDef (epName : String) (r : Registration)
    (typeConstraints : List (String × List MLDataType)) : KernelDef where
  opName := r.name
  domain := r.domain
  startVersion := r.minimumOperatorSetVersion
  endVersion := none
  provider := epName
  typeConstraints := typeConstraints
  inputMemTypes := r.requiredConstantCpuInputs.foldl
    (fun types index => insertNew types index .cpuInput) (placement r.name).1
  outputMemTypes := (placement r.name).2
  aliasMap := r.aliases

/-- `domain::name`. -/
def regKey (d : KernelDef) : String :=
  d.domain ++ "::" ++ d.opName

/-- `domain::name::sinceVersion`. -/
def versionedKey (d : KernelDef) : String :=
  d.domain ++ "::" ++ d.opName ++ "::" ++ toString d.startVersion

/-- `m_kernelRegistry` and `m_internalRegInfoMap`. A kernel that is no internal operator has no
registration info. -/
structure Registries where
  kernels : List (KernelEntry (Option InternalRegistrationInfo)) := []
  regInfo : String → Option InternalRegistrationInfo := fun _ => none

/-- The registries with a further kernel of an internal operator. -/
def Registries.addInternal (s : Registries) (d : KernelDef) (info : InternalRegistrationInfo)
    (kernels : List (KernelEntry (Option InternalRegistrationInfo))) : Registries where
  kernels := kernels
  regInfo key := if key = regKey d then some info else if key = versionedKey d then some info
    else s.regInfo key

/-- `RegisterOperatorKernel`. A refused registration is `none`. -/
def registerOperatorKernel (epName : String) (behindEnd : OrtMemType) (s : Registries)
    (r : Registration) : Option Registries := do
  guard (!r.otherOptions)
  guard (!(r.allowDynamicInputShapes && r.shapeInferrer.isSome))
  guard (r.executionOptions = 0)
  guard (r.executionType ≠ .undefined)
  let typeConstraints ← buildTypeConstraints r.typeConstraints
  let defaultAttributes ← getDefaultAttributes r.defaultAttributes
  let d := buildKernelDef epName r typeConstraints
  if r.isInternalOperator then
    let info : InternalRegistrationInfo :=
      { requiredConstantCpuInputs := r.requiredConstantCpuInputs
        kernelFactory := r.kernelFactory
        shapeInferrer := r.shapeInferrer
        defaultAttributes
        requiresInputShapesAtCreation := !r.allowDynamicInputShapes
        requiresOutputShapesAtCreation := r.shapeInferrer.isSome
        isInternalOperator := true }
    let kernels ← register behindEnd s.kernels ⟨d, some info⟩
    return s.addInternal d info kernels
  else
    guard (r.aliases = [] ∧ r.supportsGraph = false ∧ r.requiredInputCountForGraph = none)
    return { s with kernels := (register behindEnd s.kernels ⟨d, none⟩).getD s.kernels }

/-- `CreateDmlKernelRegistry`: the operators, of which those that are refused are passed over, and
then the kernels of CPU operators, none of which may be refused. -/
def createDmlKernelRegistry (epName : String) (behindEnd : OrtMemType)
    (operators : List Registration) (cpuOperators : List KernelDef) : Option Registries :=
  cpuOperators.foldlM
    (fun s d => do
      let kernels ← register behindEnd s.kernels ⟨{ d with provider := epName }, none⟩
      return { s with kernels })
    (operators.foldl (fun s r => (registerOperatorKernel epName behindEnd s r).getD s) {})

/-! ## `ConvertKernelRegistryToOrtKernelRegistry` -/

/-- The types that `GetElementTypeFromMLDataType` knows. -/
def ortTypes : List ElementType :=
  [.float, .double, .float16, .bfloat16, .int8, .int16, .int32, .int64, .uint8, .uint16, .uint32,
    .uint64, .bool, .string]

/-- `GetElementTypeFromMLDataType`. Other types are undefined. -/
def getElementTypeFromMLDataType : MLDataType → Option ElementType
  | .tensor e => if e ∈ ortTypes then some e else none
  | _ => none

/-- The types that are left of a constraint. One without types is not copied. -/
def convertConstraint (c : String × List MLDataType) : Option (String × List MLDataType) :=
  let types := c.2.filterMap getElementTypeFromMLDataType
  if types = [] then none else some (c.1, types.map .tensor)

/-- The `OrtKernelDef` of a kernel. -/
def convertKernelDef (d : KernelDef) : KernelDef where
  opName := d.opName
  domain := d.domain
  startVersion := d.startVersion
  endVersion := d.endVersion
  provider := d.provider
  typeConstraints := d.typeConstraints.filterMap convertConstraint
  inputMemTypes := d.inputMemTypes
  outputMemTypes := d.outputMemTypes
  aliasMap := d.aliasMap

/-- `KernelCreateFuncState`. The function of the registered kernel is given by its place. -/
structure KernelCreateFuncState where
  operatorName : String
  regInfo : Option InternalRegistrationInfo
  tensorAttributeNames : List String
  kernelCreateFn : Nat
  deriving DecidableEq, Repr

def kernelCreateFuncState (s : Registries) (d : KernelDef) (place : Nat) :
    KernelCreateFuncState where
  operatorName := d.opName
  regInfo := s.regInfo (versionedKey d)
  tensorAttributeNames :=
    if (s.regInfo (versionedKey d)).isSome && d.opName = "ConstantOfShape" then ["value"] else []
  kernelCreateFn := place

/-- The operators that are left to the CPU provider. -/
def isControlFlow (opName : String) : Bool :=
  opName = "If" || opName = "Loop" || opName = "Scan"

/-- The kernel that is added for the one at the place. -/
def convertEntry (s : Registries) (e : KernelEntry (Option InternalRegistrationInfo) × Nat) :
    KernelEntry KernelCreateFuncState where
  kernelDef := convertKernelDef e.1.kernelDef
  created := kernelCreateFuncState s e.1.kernelDef e.2

/-- `ConvertKernelRegistryToOrtKernelRegistry`. -/
def convertKernelRegistry (behindEnd : OrtMemType) (s : Registries) :
    Option (List (KernelEntry KernelCreateFuncState)) :=
  s.kernels.zipIdx.foldlM
    (fun ort e =>
      if isControlFlow e.1.kernelDef.opName then some ort
      else register behindEnd ort (convertEntry s e)) []

/-! ## The second table -/

/-- The first definition does not keep the second one out. -/
def Fits (behindEnd : OrtMemType) (d other : KernelDef) : Prop :=
  d.mapKey = other.mapKey → d.isConflict behindEnd other = false

theorem register_eq_some {α : Type} {behindEnd : OrtMemType} {kernels out : List (KernelEntry α)}
    {e : KernelEntry α} :
    register behindEnd kernels e = some out ↔
      (∀ k ∈ kernels, Fits behindEnd k.kernelDef e.kernelDef) ∧ kernels ++ [e] = out := by
  rw [register, Option.ite_none_left_eq_some, Option.some.injEq]
  refine and_congr_left' ?_
  simp [Fits]

/-- The kernel was registered for an internal operator, under a name of which this is a key. -/
def registeredUnder (key : String) (e : KernelEntry (Option InternalRegistrationInfo)) : Bool :=
  e.created.isSome && (key = regKey e.kernelDef || key = versionedKey e.kernelDef)

/-- What the last one of the kernels under a key was registered with. -/
def lastRegistered (kernels : List (KernelEntry (Option InternalRegistrationInfo))) (key : String) :
    Option InternalRegistrationInfo :=
  (kernels.filter (registeredUnder key)).getLast?.bind KernelEntry.created

/-- The second table is about the kernels of the first one. -/
def Joined (s : Registries) : Prop :=
  ∀ key, s.regInfo key = lastRegistered s.kernels key

section

variable {epName : String} {behindEnd : OrtMemType} {s s' : Registries} {r : Registration}
  {kernels : List (KernelEntry (Option InternalRegistrationInfo))} {d : KernelDef}

theorem lastRegistered_append_none (key : String) :
    lastRegistered (kernels ++ [⟨d, none⟩]) key = lastRegistered kernels key := by
  simp [lastRegistered, List.filter_append, registeredUnder]

theorem lastRegistered_append_some (info : InternalRegistrationInfo) (key : String) :
    lastRegistered (kernels ++ [⟨d, some info⟩]) key =
      if key = regKey d then some info else if key = versionedKey d then some info
      else lastRegistered kernels key := by
  unfold lastRegistered
  rw [List.filter_append]
  by_cases hreg : key = regKey d
  · simp [registeredUnder, hreg]
  · by_cases hversion : key = versionedKey d
    · simp [registeredUnder, hversion]
    · simp [registeredUnder, hreg, hversion]

theorem Joined.registerOperatorKernel (h : Joined s)
    (hr : registerOperatorKernel epName behindEnd s r = some s') : Joined s' := by
  unfold KernelRegistration.registerOperatorKernel at hr
  simp only [Option.bind_eq_bind, Option.bind_eq_some_iff] at hr
  obtain ⟨-, -, -, -, -, -, -, -, constraints, -, attrs, -, hr⟩ := hr
  split at hr
  · obtain ⟨kernels, hregister, hs⟩ := Option.bind_eq_some_iff.1 hr
    obtain ⟨-, rfl⟩ := register_eq_some.1 hregister
    obtain rfl := Option.some.inj hs
    intro key
    rw [Registries.addInternal, lastRegistered_append_some, ← h key]
  · obtain ⟨-, -, hs⟩ := Option.bind_eq_some_iff.1 hr
    obtain rfl := Option.some.inj hs
    intro key
    dsimp only
    cases hregister : register behindEnd s.kernels ⟨buildKernelDef epName r constraints, none⟩ with
    | none => exact h key
    | some kernels =>
      obtain ⟨-, rfl⟩ := register_eq_some.1 hregister
      rw [Option.getD_some, lastRegistered_append_none]
      exact h key

/-- The second table has, under each key, what the last kernel under it was registered with. -/
theorem createDmlKernelRegistry_joined {operators : List Registration}
    {cpuOperators : List KernelDef}
    (h : createDmlKernelRegistry epName behindEnd operators cpuOperators = some s) : Joined s := by
  have hoperators : ∀ (l : List Registration) (s : Registries), Joined s →
      Joined (l.foldl (fun s r => (registerOperatorKernel epName behindEnd s r).getD s) s) := by
    intro l
    induction l with
    | nil => exact fun _ h => h
    | cons r l ih =>
      intro s hs
      rw [List.foldl_cons]
      refine ih _ ?_
      cases hr : registerOperatorKernel epName behindEnd s r with
      | none => exact hs
      | some s' => exact hs.registerOperatorKernel hr
  have hcpu : ∀ (l : List KernelDef) (s s' : Registries), Joined s →
      l.foldlM (fun s d => do
        let kernels ← register behindEnd s.kernels ⟨{ d with provider := epName }, none⟩
        return { s with kernels }) s = some s' → Joined s' := by
    intro l
    induction l with
    | nil =>
      rintro s s' hs hl
      obtain rfl := Option.some.inj hl
      exact hs
    | cons d l ih =>
      intro s s' hs hl
      rw [List.foldlM_cons, Option.bind_eq_bind, Option.bind_eq_some_iff] at hl
      obtain ⟨s₁, hstep, hl⟩ := hl
      obtain ⟨kernels, hregister, hs₁⟩ := Option.bind_eq_some_iff.1 hstep
      obtain ⟨-, rfl⟩ := register_eq_some.1 hregister
      obtain rfl := Option.some.inj hs₁
      refine ih _ _ (fun key => ?_) hl
      rw [lastRegistered_append_none]
      exact hs key
  exact hcpu _ _ _ (hoperators _ _ fun _ => rfl) h

end

/-! ## The registry of ORT -/

/-- The kernels that are copied, with their places. -/
def copied (s : Registries) : List (KernelEntry (Option InternalRegistrationInfo) × Nat) :=
  s.kernels.zipIdx.filter fun e => !isControlFlow e.1.kernelDef.opName

theorem foldlM_register_eq_some {α β : Type} {behindEnd : OrtMemType} {skip : β → Bool}
    {convert : β → KernelEntry α} {l : List β} {acc out : List (KernelEntry α)} :
    l.foldlM (fun ort e => if skip e then some ort else register behindEnd ort (convert e)) acc =
        some out ↔
      (∀ k ∈ acc, ∀ e ∈ l.filter (fun e => !skip e),
          Fits behindEnd k.kernelDef (convert e).kernelDef) ∧
        ((l.filter fun e => !skip e).map convert).Pairwise
          (fun a b => Fits behindEnd a.kernelDef b.kernelDef) ∧
        acc ++ (l.filter fun e => !skip e).map convert = out := by
  induction l generalizing acc with
  | nil => simp
  | cons e l ih =>
    rw [List.foldlM_cons, Option.bind_eq_bind]
    cases hskip : skip e with
    | true => simpa [hskip] using ih
    | false =>
      simp only [Bool.false_eq_true, if_false, Option.bind_eq_some_iff, register_eq_some]
      rw [List.filter_cons_of_pos (by simp [hskip]), List.map_cons, List.pairwise_cons]
      constructor
      · rintro ⟨acc', ⟨hfits, rfl⟩, hl⟩
        obtain ⟨hacc, hpairs, hout⟩ := ih.1 hl
        refine ⟨fun k hk e' he' => ?_, ⟨fun k hk => ?_, hpairs⟩, ?_⟩
        · rcases List.mem_cons.1 he' with rfl | he'
          · exact hfits k hk
          · exact hacc k (List.mem_append_left _ hk) e' he'
        · obtain ⟨e', he', rfl⟩ := List.mem_map.1 hk
          exact hacc (convert e) (by simp) e' he'
        · rw [← hout, List.append_assoc]
          rfl
      · rintro ⟨hacc, ⟨hfits, hpairs⟩, hout⟩
        refine ⟨acc ++ [convert e], ⟨fun k hk => hacc k hk e List.mem_cons_self, rfl⟩,
          ih.2 ⟨fun k hk e' he' => ?_, hpairs, ?_⟩⟩
        · rcases List.mem_append.1 hk with hk | hk
          · exact hacc k hk e' (List.mem_cons_of_mem _ he')
          · rw [List.mem_singleton.1 hk]
            exact hfits _ (List.mem_map_of_mem he')
        · rw [← hout, List.append_assoc]
          rfl

/-- The copies are what ORT gets, unless two of them are in conflict. -/
theorem convert_eq_some_iff {behindEnd : OrtMemType} {s : Registries}
    {ort : List (KernelEntry KernelCreateFuncState)} :
    convertKernelRegistry behindEnd s = some ort ↔
      ((copied s).map (convertEntry s)).Pairwise
          (fun a b => Fits behindEnd a.kernelDef b.kernelDef) ∧
        (copied s).map (convertEntry s) = ort := by
  unfold convertKernelRegistry
  rw [foldlM_register_eq_some]
  simp [copied]

/-! ## What is found -/

/-- The place of the kernel that a registry finds. -/
def tryFindPlace {α : Type} (kernels : List (KernelEntry α)) (n : NodeView) : Option Nat :=
  kernels.findIdx? fun e => verifyKernelDef n e.kernelDef

/-- The two predicates choose the same element, when they agree up to the first one that the first
of them takes. -/
theorem findIdx?_eq_iff {α : Type} {p q : α → Bool} {l : List α} :
    l.findIdx? q = l.findIdx? p ↔
      ∀ (i : Nat) (x : α), l[i]? = some x →
        (∀ (j : Nat) (y : α), j < i → l[j]? = some y → p y = false) → q x = p x := by
  induction l with
  | nil => simp
  | cons a l ih =>
    rw [List.findIdx?_cons, List.findIdx?_cons]
    cases hp : p a with
    | true =>
      -- only the first place is left
      have hfirst : (∀ (i : Nat) (x : α), (a :: l)[i]? = some x →
          (∀ (j : Nat) (y : α), j < i → (a :: l)[j]? = some y → p y = false) → q x = p x) ↔
          q a = true := by
        constructor
        · intro h
          rw [h 0 a rfl fun j _ hj => absurd hj (Nat.not_lt_zero j), hp]
        · intro hq i x hx hbefore
          cases i with
          | zero =>
            obtain rfl := Option.some.inj hx
            rw [hq, hp]
          | succ i => exact absurd (hbefore 0 a (Nat.succ_pos i) rfl) (by simp [hp])
      rw [hfirst]
      cases q a <;> simp
    | false =>
      have hrest : (∀ (i : Nat) (x : α), (a :: l)[i]? = some x →
          (∀ (j : Nat) (y : α), j < i → (a :: l)[j]? = some y → p y = false) → q x = p x) ↔
          q a = false ∧ l.findIdx? q = l.findIdx? p := by
        rw [ih]
        constructor
        · intro h
          refine ⟨?_, fun i x hx hbefore => ?_⟩
          · rw [h 0 a rfl fun j _ hj => absurd hj (Nat.not_lt_zero j), hp]
          · refine h (i + 1) x hx fun j y hj hy => ?_
            cases j with
            | zero =>
              obtain rfl := Option.some.inj hy
              exact hp
            | succ j => exact hbefore j y (Nat.lt_of_succ_lt_succ hj) hy
        · rintro ⟨hq, h⟩ i x hx hbefore
          cases i with
          | zero =>
            obtain rfl := Option.some.inj hx
            rw [hq, hp]
          | succ i =>
            exact h i x hx fun j y hj hy => hbefore (j + 1) y (Nat.succ_lt_succ hj) hy
      rw [hrest]
      cases q a with
      | true => simp
      | false =>
        simp only [Bool.false_eq_true, if_false, true_and]
        exact (Option.map_injective (add_left_injective 1)).eq_iff

/-- The kernel of ORT that is found, for a node whose name no control flow has. -/
theorem tryFindKernel_copied {s : Registries} {n : NodeView}
    (hn : ∀ e ∈ s.kernels, e.kernelDef.mapKey = n.mapKey →
      isControlFlow e.kernelDef.opName = false) :
    tryFindKernel ((copied s).map (convertEntry s)) n =
      (s.kernels.findIdx? fun e => verifyKernelDef n (convertKernelDef e.kernelDef)).bind
        fun i => s.kernels[i]?.map fun e => convertEntry s (e, i) := by
  have hfind : (copied s).find? (fun e => verifyKernelDef n (convertEntry s e).kernelDef) =
      s.kernels.zipIdx.find? fun e => verifyKernelDef n (convertKernelDef e.1.kernelDef) := by
    rw [copied, List.find?_filter]
    refine List.find?_congr fun e he => ?_
    have hmem : e.1 ∈ s.kernels := List.mem_of_getElem? (List.mem_zipIdx_iff_getElem?.1 he)
    cases hverify : verifyKernelDef n (convertKernelDef e.1.kernelDef) with
    | false =>
      rw [show verifyKernelDef n (convertEntry s e).kernelDef = false from hverify]
      simp
    | true =>
      have hkey : e.1.kernelDef.mapKey = n.mapKey := by
        simp only [verifyKernelDef, Bool.and_eq_true, beq_iff_eq] at hverify
        exact hverify.1.1
      rw [show verifyKernelDef n (convertEntry s e).kernelDef = true from hverify,
        hn e.1 hmem hkey]
      rfl
  unfold tryFindKernel
  rw [List.find?_map, List.findIdx?_eq_fst_find?_zipIdx]
  refine (congrArg (Option.map (convertEntry s)) hfind).trans ?_
  cases he : s.kernels.zipIdx.find? fun e =>
      verifyKernelDef n (convertKernelDef e.1.kernelDef) with
  | none => rfl
  | some e =>
    have hplace := List.mem_zipIdx_iff_getElem?.1 (List.mem_of_find?_eq_some he)
    rw [Option.map_some, Option.map_some, Option.bind_some, hplace]
    rfl

/-! ## What is lost of the types -/

/-- The type is copied to the registry of ORT. -/
def Representable (t : MLDataType) : Prop :=
  (getElementTypeFromMLDataType t).isSome

/-- The constraints that accept the node still do: where it has a type that is not copied, no type
of the constraint is. -/
def StillAccepted (n : NodeView) (constraints : List (String × List MLDataType)) : Prop :=
  ∀ c ∈ constraints, ∀ t, n.argType c.1 = some t →
    Representable t ∨ ∀ u ∈ c.2, ¬ Representable u

/-- A constraint still refuses the node: some type of it is copied, and the type that the node has is
not among those. -/
def StillRefused (n : NodeView) (constraints : List (String × List MLDataType)) : Prop :=
  ∃ c ∈ constraints, (∃ u ∈ c.2, Representable u) ∧
    ∃ t, n.argType c.1 = some t ∧ (t ∉ c.2 ∨ ¬ Representable t)

theorem mem_converted {types : List MLDataType} {t : MLDataType} :
    t ∈ (types.filterMap getElementTypeFromMLDataType).map .tensor ↔
      t ∈ types ∧ Representable t := by
  have htensor : ∀ u e, getElementTypeFromMLDataType u = some e → u = .tensor e := by
    intro u e h
    unfold getElementTypeFromMLDataType at h
    split at h
    · rw [Option.ite_none_right_eq_some, Option.some.injEq] at h
      rw [h.2]
    · cases h
  simp only [List.mem_map, List.mem_filterMap]
  constructor
  · rintro ⟨e, ⟨u, hu, he⟩, rfl⟩
    obtain rfl := htensor u e he
    exact ⟨hu, Option.isSome_iff_exists.2 ⟨e, he⟩⟩
  · rintro ⟨ht, h⟩
    obtain ⟨e, he⟩ := Option.isSome_iff_exists.1 h
    exact ⟨e, ⟨t, ht, he⟩, (htensor t e he).symm⟩

theorem convertConstraint_eq_some {c c' : String × List MLDataType} :
    convertConstraint c = some c' ↔
      (∃ u ∈ c.2, Representable u) ∧
        (c.1, (c.2.filterMap getElementTypeFromMLDataType).map .tensor) = c' := by
  have hempty : c.2.filterMap getElementTypeFromMLDataType = [] ↔
      ¬ ∃ u ∈ c.2, Representable u := by
    simp [List.filterMap_eq_nil_iff, Representable, Option.isSome_iff_ne_none]
  unfold convertConstraint
  dsimp only
  rw [Option.ite_none_left_eq_some, Option.some.injEq, hempty, not_not]

theorem matchTypes_iff {n : NodeView} {constraints : List (String × List MLDataType)} :
    matchTypes n constraints = true ↔
      ∀ c ∈ constraints, ∀ t, n.argType c.1 = some t → t ∈ c.2 := by
  simp [matchTypes, List.all_eq_true, Option.all_eq_true]

theorem matchTypes_convert {n : NodeView} {constraints : List (String × List MLDataType)} :
    matchTypes n (constraints.filterMap convertConstraint) = true ↔
      ∀ c ∈ constraints, (∃ u ∈ c.2, Representable u) →
        ∀ t, n.argType c.1 = some t → t ∈ c.2 ∧ Representable t := by
  rw [matchTypes_iff]
  constructor
  · intro h c hc hkept t ht
    exact mem_converted.1 (h _ (List.mem_filterMap.2 ⟨c, hc, convertConstraint_eq_some.2
      ⟨hkept, rfl⟩⟩) t ht)
  · intro h c' hc' t ht
    obtain ⟨c, hc, hconvert⟩ := List.mem_filterMap.1 hc'
    obtain ⟨hkept, rfl⟩ := convertConstraint_eq_some.1 hconvert
    exact mem_converted.2 (h c hc hkept t ht)

/-- The copied constraints decide as the constraints do. -/
theorem matchTypes_convert_iff {n : NodeView} {constraints : List (String × List MLDataType)} :
    matchTypes n (constraints.filterMap convertConstraint) = matchTypes n constraints ↔
      (matchTypes n constraints = true → StillAccepted n constraints) ∧
        (matchTypes n constraints = false → StillRefused n constraints) := by
  cases hmatch : matchTypes n constraints with
  | true =>
    rw [matchTypes_convert]
    simp only [true_imp_iff, Bool.true_eq_false, false_imp_iff, and_true]
    refine forall₂_congr fun c hc => ?_
    constructor
    · intro h t ht
      by_cases hkept : ∃ u ∈ c.2, Representable u
      · exact Or.inl (h hkept t ht).2
      · exact Or.inr fun u hu hrep => hkept ⟨u, hu, hrep⟩
    · rintro h ⟨u, hu, hrep⟩ t ht
      exact ⟨matchTypes_iff.1 hmatch c hc t ht, (h t ht).resolve_right fun hnone =>
        hnone u hu hrep⟩
  | false =>
    rw [← Bool.not_eq_true, matchTypes_convert]
    simp only [Bool.false_eq_true, false_imp_iff, true_and, true_imp_iff]
    simp only [StillRefused, not_forall, not_and_or, exists_prop]

/-! ## Both registries -/

/-- The registry of ORT finds the kernel that the registry of the provider finds, or none as well,
and what it creates the kernel from is what that one was registered with. -/
structure Agrees (s : Registries) (ort : List (KernelEntry KernelCreateFuncState)) (n : NodeView) :
    Prop where
  found : (tryFindKernel ort n).map (fun k => k.created.kernelCreateFn) =
    tryFindPlace s.kernels n
  registered : ∀ k, tryFindKernel ort n = some k → ∀ e,
    s.kernels[k.created.kernelCreateFn]? = some e → k.created.regInfo = e.created

/-- The kernel is one that the registry of the provider looks at for the node: none in front of it
accepts the node. -/
def LookedAt (s : Registries) (n : NodeView) (i : Nat) (d : KernelDef) : Prop :=
  (∃ e, s.kernels[i]? = some e ∧ e.kernelDef = d) ∧
    (∀ (j : Nat) (e : KernelEntry (Option InternalRegistrationInfo)), j < i →
      s.kernels[j]? = some e → verifyKernelDef n e.kernelDef = false) ∧
    d.mapKey = n.mapKey ∧ verifyVersion n.sinceVersion d = true

/-- The condition under which nothing is lost. -/
structure Carried (behindEnd : OrtMemType) (s : Registries) (n : NodeView) : Prop where
  fits : ((copied s).map fun e => convertKernelDef e.1.kernelDef).Pairwise (Fits behindEnd)
  accepted : ∀ i d, LookedAt s n i d → matchTypes n d.typeConstraints = true →
    StillAccepted n d.typeConstraints
  refused : ∀ i d, LookedAt s n i d → matchTypes n d.typeConstraints = false →
    StillRefused n d.typeConstraints
  last : ∀ i e, tryFindPlace s.kernels n = some i → s.kernels[i]? = some e →
    lastRegistered s.kernels (versionedKey e.kernelDef) = e.created

theorem verify_convert_iff {n : NodeView} {d : KernelDef} :
    verifyKernelDef n (convertKernelDef d) = verifyKernelDef n d ↔
      (d.mapKey = n.mapKey → verifyVersion n.sinceVersion d = true →
        matchTypes n (d.typeConstraints.filterMap convertConstraint) =
          matchTypes n d.typeConstraints) := by
  have hversion : verifyVersion n.sinceVersion (convertKernelDef d) =
      verifyVersion n.sinceVersion d := rfl
  have hkey : (convertKernelDef d).mapKey = d.mapKey := rfl
  have htypes : (convertKernelDef d).typeConstraints =
      d.typeConstraints.filterMap convertConstraint := rfl
  unfold verifyKernelDef
  rw [hversion, hkey, htypes]
  by_cases hk : d.mapKey = n.mapKey
  · cases verifyVersion n.sinceVersion d <;> simp [hk]
  · have hbeq : (d.mapKey == n.mapKey) = false := beq_eq_false_iff_ne.2 hk
    simp [hk, hbeq]

/-- The places are the same when the kernels that are looked at decide as before. -/
theorem findIdx?_convert_iff {s : Registries} {n : NodeView} :
    (s.kernels.findIdx? fun e => verifyKernelDef n (convertKernelDef e.kernelDef)) =
        tryFindPlace s.kernels n ↔
      ∀ i d, LookedAt s n i d →
        (matchTypes n d.typeConstraints = true → StillAccepted n d.typeConstraints) ∧
          (matchTypes n d.typeConstraints = false → StillRefused n d.typeConstraints) := by
  unfold tryFindPlace
  rw [findIdx?_eq_iff]
  constructor
  · rintro h i d ⟨⟨e, he, rfl⟩, hbefore, hkey, hversion⟩
    exact matchTypes_convert_iff.1 (verify_convert_iff.1 (h i e he hbefore) hkey hversion)
  · intro h i e he hbefore
    exact verify_convert_iff.2 fun hkey hversion =>
      matchTypes_convert_iff.2 (h i e.kernelDef ⟨⟨e, he, rfl⟩, hbefore, hkey, hversion⟩)

/-- For a node that is no control flow, both registries find the same kernel with what it was
registered with, exactly when nothing is lost. -/
theorem converts_iff {epName : String} {behindEnd : OrtMemType} {operators : List Registration}
    {cpuOperators : List KernelDef} {s : Registries}
    (hs : createDmlKernelRegistry epName behindEnd operators cpuOperators = some s) {n : NodeView}
    (hn : ∀ e ∈ s.kernels, e.kernelDef.mapKey = n.mapKey →
      isControlFlow e.kernelDef.opName = false) :
    (∃ ort, convertKernelRegistry behindEnd s = some ort ∧ Agrees s ort n) ↔
      Carried behindEnd s n := by
  have hjoined := createDmlKernelRegistry_joined hs
  have hfits : ((copied s).map (convertEntry s)).Pairwise
        (fun a b => Fits behindEnd a.kernelDef b.kernelDef) ↔
      ((copied s).map fun e => convertKernelDef e.1.kernelDef).Pairwise (Fits behindEnd) := by
    rw [List.pairwise_map, List.pairwise_map]
    rfl
  have hplace : (tryFindKernel ((copied s).map (convertEntry s)) n).map
        (fun k => k.created.kernelCreateFn) =
      s.kernels.findIdx? fun e => verifyKernelDef n (convertKernelDef e.kernelDef) := by
    rw [tryFindKernel_copied hn]
    cases hi : s.kernels.findIdx? fun e => verifyKernelDef n (convertKernelDef e.kernelDef) with
    | none => rfl
    | some i =>
      obtain ⟨hlt, -⟩ := List.findIdx?_eq_some_iff_getElem.1 hi
      rw [Option.bind_some, List.getElem?_eq_getElem hlt]
      rfl
  simp only [convert_eq_some_iff, hfits]
  constructor
  · rintro ⟨ort, ⟨hpairs, rfl⟩, hfound, hregistered⟩
    rw [hplace] at hfound
    have htypes := findIdx?_convert_iff.1 hfound
    refine ⟨hpairs, fun i d h => (htypes i d h).1, fun i d h => (htypes i d h).2, ?_⟩
    intro i e hi he
    rw [← hjoined]
    refine hregistered (convertEntry s (e, i)) ?_ e he
    rw [tryFindKernel_copied hn, hfound, hi, Option.bind_some, he]
    rfl
  · rintro ⟨hpairs, haccepted, hrefused, hlast⟩
    have hfound := findIdx?_convert_iff.2 fun i d h => ⟨haccepted i d h, hrefused i d h⟩
    refine ⟨_, ⟨hpairs, rfl⟩, hplace.trans hfound, ?_⟩
    intro k hk e he
    rw [tryFindKernel_copied hn, hfound] at hk
    obtain ⟨i, hi, hk⟩ := Option.bind_eq_some_iff.1 hk
    obtain ⟨e', he', rfl⟩ := Option.map_eq_some_iff.1 hk
    obtain rfl : e' = e := Option.some.inj (he'.symm.trans he)
    exact (hjoined _).trans (hlast i e' hi he')

/-! ## A constraint that is lost -/

/-- An operator for tensors of the types. -/
def operatorFor (name : String) (edge : EdgeType) (types : List ElementType) (factory : Nat) :
    Registration where
  name := name
  domain := ""
  minimumOperatorSetVersion := 13
  typeConstraints := [("T", types.map fun e => (edge, e))]
  kernelFactory := factory

/-- A node of this name whose arguments are float tensors. -/
def floatNode (name : String) : NodeView where
  opType := name
  domain := ""
  sinceVersion := 13
  provider := "directml"
  argType _ := some (.tensor .float)

/-- The registries of these operators. -/
def registered (operators : List Registration) : Registries :=
  operators.foldl (fun s r => (registerOperatorKernel "directml" .default s r).getD s) {}

/-- Of two operators for copied types, the one for a node is found with its own factory. -/
theorem relu_carried :
    Carried .default
      (registered [operatorFor "Relu" .tensor [.float, .float16] 1,
        operatorFor "Abs" .tensor [.float, .int32] 2]) (floatNode "Relu") := by
  have hs : createDmlKernelRegistry "directml" .default
      [operatorFor "Relu" .tensor [.float, .float16] 1,
        operatorFor "Abs" .tensor [.float, .int32] 2] [] =
      some (registered [operatorFor "Relu" .tensor [.float, .float16] 1,
        operatorFor "Abs" .tensor [.float, .int32] 2]) := rfl
  have hcheck : ((convertKernelRegistry .default
      (registered [operatorFor "Relu" .tensor [.float, .float16] 1,
        operatorFor "Abs" .tensor [.float, .int32] 2])).all fun ort =>
      ((tryFindKernel ort (floatNode "Relu")).map (fun k => k.created.kernelCreateFn)) =
        tryFindPlace (registered [operatorFor "Relu" .tensor [.float, .float16] 1,
          operatorFor "Abs" .tensor [.float, .int32] 2]).kernels (floatNode "Relu") ∧
      (tryFindKernel ort (floatNode "Relu")).all fun k =>
        (registered [operatorFor "Relu" .tensor [.float, .float16] 1,
          operatorFor "Abs" .tensor [.float, .int32] 2]).kernels[k.created.kernelCreateFn]?.all
            fun e => k.created.regInfo = e.created) = true := by
    decide +kernel
  refine (converts_iff hs (by decide)).1 ⟨_, rfl, ?_⟩
  rw [show convertKernelRegistry _ _ = some _ from rfl, Option.all_some, decide_eq_true_eq]
    at hcheck
  refine ⟨hcheck.1, fun k hk e he => ?_⟩
  have hinfo := hcheck.2
  rw [hk, Option.all_some, he, Option.all_some, decide_eq_true_eq] at hinfo
  exact hinfo

/-- A constraint that only allows sequences is lost: ORT finds a kernel for a tensor. -/
theorem sequences_widened :
    createDmlKernelRegistry "directml" .default
        [operatorFor "ConcatFromSequence" .sequenceTensor [.float] 1] [] =
      some (registered [operatorFor "ConcatFromSequence" .sequenceTensor [.float] 1]) ∧
    ¬ ∃ ort, convertKernelRegistry .default
          (registered [operatorFor "ConcatFromSequence" .sequenceTensor [.float] 1]) = some ort ∧
        Agrees (registered [operatorFor "ConcatFromSequence" .sequenceTensor [.float] 1]) ort
          (floatNode "ConcatFromSequence") := by
  refine ⟨rfl, ?_⟩
  rintro ⟨ort, hort, hagrees⟩
  have hcheck : ((convertKernelRegistry .default
      (registered [operatorFor "ConcatFromSequence" .sequenceTensor [.float] 1])).all fun ort =>
      (tryFindKernel ort (floatNode "ConcatFromSequence")).map
          (fun k => k.created.kernelCreateFn) ≠
        tryFindPlace
          (registered [operatorFor "ConcatFromSequence" .sequenceTensor [.float] 1]).kernels
          (floatNode "ConcatFromSequence")) = true := by
    decide +kernel
  rw [hort, Option.all_some, decide_eq_true_eq] at hcheck
  exact hcheck hagrees.found

-- two kernels of one version with other types: the second factory is used for both
example :
    ((convertKernelRegistry .default (registered [operatorFor "Cast" .tensor [.float] 1,
        operatorFor "Cast" .tensor [.int32] 2])).bind fun ort =>
      (tryFindKernel ort (floatNode "Cast")).bind fun k =>
        k.created.regInfo.map fun info => (k.created.kernelCreateFn, info.kernelFactory)) =
      some (0, 2) := by
  decide +kernel

end AmdGpuEp.DirectML.KernelRegistration
