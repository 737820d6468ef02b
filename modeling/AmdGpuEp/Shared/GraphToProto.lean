import AmdGpuEp.Lib.Fallible
import AmdGpuEp.Ort.Graph
import Mathlib.Data.List.Sort

/-!
# The serialization of a graph

`GraphToProto` of `ort_graph_to_proto.cc`: a graph with its nested bodies is written
as a `GraphProto`. The type infos and the initializers of the values that the nodes
use are collected in two maps by name. The conversion of the attributes that are no
bodies is a parameter.

Results:
1. `holds_collected`: what the two maps hold is decided by the flags of the values.
2. `lists_of_ok`: the inputs and outputs are listed in order, each initializer and
   each type info once.
3. `serialized_of_ok`: what is written for a graph and all its bodies is complete,
   and a node reads visible names only.
4. `graphToProto_spec`: this is written for every graph that can be converted, and an
   error is returned for the others.
5. `sequenceGraph_refused`: a graph with a value that is no tensor is refused.
-/

namespace AmdGpuEp.GraphToProto

/-! ## What ORT gives -/

/-- `TypeInfo`: the element type, the dimensions and their symbolic names of a tensor, or another
type. -/
inductive TypeInfo
  | tensor (elemType : Nat) (dims : List Int) (symbolicDims : List String)
  | other
  deriving DecidableEq, Repr

/-- The data of an initializer: a place in an external file, or bytes. -/
inductive InitializerData
  | external (filePath : String) (fileOffset byteSize : Int)
  | bytes (data : List UInt8)
  deriving DecidableEq, Repr

/-- `Ort::ConstValueInfo`, without its name. -/
structure ValueInfo where
  typeInfo : TypeInfo
  isRequiredGraphInput : Bool := false
  isOptionalGraphInput : Bool := false
  isGraphOutput : Bool := false
  isConstantInitializer : Bool := false
  isFromOuterScope : Bool := false
  initializer : Option InitializerData := none
  deriving DecidableEq, Repr

mutual

/-- `Ort::ConstGraph`. A graph has one value info for each name; a slot that is left out is
`none`. -/
inductive OrtGraph
  | mk (name : String) (valueInfo : String → ValueInfo)
      (inputs outputs initializers : List (Option String)) (nodes : List OrtNode)

/-- `Ort::ConstNode`. An attribute with a body is in `attributes` by its type only. -/
inductive OrtNode
  | mk (name domain opType : String) (attributes : List (String × AttrValue))
      (subgraphs : List (String × OrtGraph)) (inputs : List (Option String))
      (implicitInputs : List String) (outputs : List (Option String))

end

/-! ## What is written -/

/-- `TensorShapeProto.Dimension`. -/
inductive DimProto
  | value (dim : Int)
  | param (symbol : String)
  | unknown
  deriving DecidableEq, Repr

structure ValueInfoProto where
  name : String
  elemType : Nat
  shape : List DimProto
  deriving DecidableEq, Repr

inductive TensorDataProto
  | raw (data : List UInt8)
  | external (location : String) (offset length : Int)
  deriving DecidableEq, Repr

structure TensorProto where
  name : String
  dataType : Nat
  dims : List Int
  data : TensorDataProto
  deriving DecidableEq, Repr

mutual

/-- `GraphProto`, for attributes of type `B`. -/
inductive GraphProto (B : Type)
  | mk (name docString : String) (inputs outputs : List ValueInfoProto) (nodes : List (NodeProto B))
      (valueInfos : List ValueInfoProto) (initializers : List TensorProto)

inductive NodeProto (B : Type)
  | mk (name domain opType : String) (attributes : List (AttributeProto B))
      (inputs outputs : List String)

inductive AttributeProto (B : Type)
  | plain (attr : B)
  | graph (name : String) (g : GraphProto B)

end

/-! ## `GraphToProto` -/

/-- `ValueInfoToProto`. -/
def valueInfoToProto (name : String) (info : ValueInfo) : Except String ValueInfoProto :=
  match info.typeInfo with
  | .other => .error "Expected ValueInfo to represent a Tensor"
  | .tensor elemType dims symbolicDims =>
    .ok
      { name, elemType
        shape := List.zipWith (fun dim symbolic =>
          if 0 ≤ dim then .value dim else if symbolic ≠ "" then .param symbolic else .unknown)
          dims symbolicDims }

/-- `HandleInitializerDataFunc`: the file and the offset for the data of an initializer that is to
be external. -/
abbrev HandleInitializerData :=
  ValueInfo → List UInt8 → Except String (Option (String × Int))

/-- No function: the data stays where it is. -/
def noHandler : HandleInitializerData := fun _ _ => .ok none

/-- The data of the `TensorProto` of an initializer. -/
def initializerData (handle : HandleInitializerData) (info : ValueInfo) :
    Except String TensorDataProto :=
  match info.initializer with
  | none => .error "no initializer"
  | some (.external filePath fileOffset byteSize) =>
    .ok (.external filePath fileOffset byteSize)
  | some (.bytes data) =>
    match handle info data with
    | .error e => .error e
    | .ok none => .ok (.raw data)
    | .ok (some (location, offset)) => .ok (.external location offset data.length)

/-- The `TensorProto` of an initializer. -/
def initializerToProto (handle : HandleInitializerData) (name : String) (info : ValueInfo) :
    Except String TensorProto :=
  match info.typeInfo with
  | .other => .error "Expected ValueInfo to represent a Tensor"
  | .tensor elemType dims _ =>
    match initializerData handle info with
    | .error e => .error e
    | .ok data => .ok { name, dataType := elemType, dims, data }

/-- `emplace` into a `std::map` by name, which lists its names in order. -/
def emplace (names : List String) (name : String) : List String :=
  if name ∈ names then names else names.orderedInsert (· ≤ ·) name

/-- `value_infos` and `initializer_value_infos`. -/
structure Collected where
  valueInfos : List String := []
  initializers : List String := []
  deriving DecidableEq, Repr

/-- `collect_value_info`. -/
def collectValueInfo (valueInfo : String → ValueInfo) (s : Collected) (name : String) : Collected :=
  let info := valueInfo name
  if name ∈ s.valueInfos ∨ name ∈ s.initializers then s
  else if info.isFromOuterScope then
    { valueInfos := emplace s.valueInfos name
      initializers :=
        if info.isConstantInitializer then emplace s.initializers name else s.initializers }
  else if info.isOptionalGraphInput then { s with initializers := emplace s.initializers name }
  else if info.isConstantInitializer then
    { valueInfos := emplace s.valueInfos name, initializers := emplace s.initializers name }
  else if !info.isRequiredGraphInput && !info.isGraphOutput then
    { s with valueInfos := emplace s.valueInfos name }
  else s

/-- The values that a node gives to `collect_value_info`, in order. -/
def OrtNode.values : OrtNode → List String
  | .mk _ _ _ _ _ inputs implicitInputs outputs =>
    inputs.reduceOption ++ implicitInputs ++ outputs.reduceOption

/-- The name of a slot: a slot that is left out has the empty name. -/
def slotName (slot : Option String) : String :=
  slot.getD ""

section

variable {B : Type} (opAttrToProto : String × AttrValue → Except String B)

/-- The attributes that are no bodies. -/
def attributesToProto (attributes : List (String × AttrValue)) : Except String (List B) :=
  (attributes.filter fun attr => match attr.2 with
    | .graph _ => false
    | _ => true).mapM opAttrToProto

mutual

/-- `GraphToProto`. -/
def graphToProto (handle : HandleInitializerData) : OrtGraph → Except String (GraphProto B)
  | .mk name valueInfo inputs outputs initializers nodes => do
    let inputProtos ← inputs.reduceOption.mapM fun v => valueInfoToProto v (valueInfo v)
    let outputProtos ← outputs.reduceOption.mapM fun v => valueInfoToProto v (valueInfo v)
    let nodeProtos ← nodesToProto nodes
    let collected := (nodes.flatMap OrtNode.values).foldl (collectValueInfo valueInfo) {}
    let valueInfos ← collected.valueInfos.mapM fun v => valueInfoToProto v (valueInfo v)
    -- the initializers that no node uses
    let names := initializers.reduceOption.foldl emplace collected.initializers
    let tensors ← names.mapM fun v => initializerToProto handle v (valueInfo v)
    return .mk name "Serialized from OrtGraph" inputProtos outputProtos nodeProtos valueInfos tensors

/-- The loop over the nodes. -/
def nodesToProto : List OrtNode → Except String (List (NodeProto B))
  | [] => return []
  | n :: nodes => do
    let p ← nodeToProto n
    let ps ← nodesToProto nodes
    return p :: ps

/-- The body of the loop, without `collect_value_info`. -/
def nodeToProto : OrtNode → Except String (NodeProto B)
  | .mk name domain opType attributes subgraphs inputs _ outputs => do
    let plain ← attributesToProto opAttrToProto attributes
    let graphs ← subgraphsToProto subgraphs
    return .mk name domain opType (plain.map .plain ++ graphs) (inputs.map slotName)
      (outputs.map slotName)

/-- The loop over the bodies of a node, which are written without the function for the data. -/
def subgraphsToProto : List (String × OrtGraph) → Except String (List (AttributeProto B))
  | [] => return []
  | (name, g) :: subgraphs => do
    let p ← graphToProto noHandler g
    let ps ← subgraphsToProto subgraphs
    return .graph name p :: ps

end

end

/-! ## Names -/

namespace OrtGraph

def name : OrtGraph → String
  | .mk name _ _ _ _ _ => name

def valueInfo : OrtGraph → String → ValueInfo
  | .mk _ valueInfo _ _ _ _ => valueInfo

def inputNames : OrtGraph → List String
  | .mk _ _ inputs _ _ _ => inputs.reduceOption

def outputNames : OrtGraph → List String
  | .mk _ _ _ outputs _ _ => outputs.reduceOption

def initializerNames : OrtGraph → List String
  | .mk _ _ _ _ initializers _ => initializers.reduceOption

def nodes : OrtGraph → List OrtNode
  | .mk _ _ _ _ _ nodes => nodes

/-- The values that the nodes of the graph read, capture or write. -/
def usedNames (g : OrtGraph) : List String :=
  g.nodes.flatMap OrtNode.values

/-- A constant of an outer graph that a node of `g` uses. -/
def Copies (g : OrtGraph) (v : String) : Prop :=
  v ∈ g.usedNames ∧ (g.valueInfo v).isFromOuterScope = true ∧
    (g.valueInfo v).isConstantInitializer = true

end OrtGraph

namespace GraphProto

variable {B : Type}

def inputNames : GraphProto B → List String
  | .mk _ _ inputs _ _ _ _ => inputs.map ValueInfoProto.name

def outputNames : GraphProto B → List String
  | .mk _ _ _ outputs _ _ _ => outputs.map ValueInfoProto.name

def nodes : GraphProto B → List (NodeProto B)
  | .mk _ _ _ _ nodes _ _ => nodes

def valueInfoNames : GraphProto B → List String
  | .mk _ _ _ _ _ valueInfos _ => valueInfos.map ValueInfoProto.name

def initializerNames : GraphProto B → List String
  | .mk _ _ _ _ _ _ initializers => initializers.map TensorProto.name

end GraphProto

/-! ## What ORT promises of a graph -/

/-- What the flags of a value of the graph itself say. -/
structure OwnFlags (g : OrtGraph) (v : String) : Prop where
  input : (g.valueInfo v).isRequiredGraphInput = true ∨
    (g.valueInfo v).isOptionalGraphInput = true → v ∈ g.inputNames
  of_input : v ∈ g.inputNames → (g.valueInfo v).isRequiredGraphInput = true ∨
    (g.valueInfo v).isOptionalGraphInput = true ∨ (g.valueInfo v).isConstantInitializer = true
  output : (g.valueInfo v).isGraphOutput = true ↔ v ∈ g.outputNames
  optional : (g.valueInfo v).isOptionalGraphInput = true →
    (g.valueInfo v).isConstantInitializer = false
  initializer : (g.valueInfo v).isOptionalGraphInput = true ∨
    (g.valueInfo v).isConstantInitializer = true → v ∈ g.initializerNames

mutual

/-- A graph inside the names `scope`: the inputs are distinct, the flags are right, and the nodes
are listed behind the writers of what they read. -/
inductive Valid : List String → OrtGraph → Prop
  | mk {scope : List String} {g : OrtGraph} (inputs_nodup : g.inputNames.Nodup)
      (flags : ∀ v ∈ g.usedNames, (g.valueInfo v).isFromOuterScope = true ∨ OwnFlags g v)
      (nodes : ValidNodes (scope ++ g.inputNames ++ g.initializerNames) g.nodes) : Valid scope g

inductive ValidNodes : List String → List OrtNode → Prop
  | nil {scope : List String} : ValidNodes scope []
  | cons {scope : List String} {name domain opType : String}
      {attributes : List (String × AttrValue)} {subgraphs : List (String × OrtGraph)}
      {inputs : List (Option String)} {implicitInputs : List String}
      {outputs : List (Option String)} {nodes : List OrtNode}
      (reads : ∀ v ∈ inputs.reduceOption, v ∈ scope) (bodies : ValidSubgraphs scope subgraphs)
      (rest : ValidNodes (scope ++ outputs.reduceOption) nodes) :
      ValidNodes scope
        (.mk name domain opType attributes subgraphs inputs implicitInputs outputs :: nodes)

inductive ValidSubgraphs : List String → List (String × OrtGraph) → Prop
  | nil {scope : List String} : ValidSubgraphs scope []
  | cons {scope : List String} {name : String} {g : OrtGraph}
      {subgraphs : List (String × OrtGraph)} (body : Valid scope g)
      (rest : ValidSubgraphs scope subgraphs) : ValidSubgraphs scope ((name, g) :: subgraphs)

end

/-! ## What a serialization has to be -/

section

variable {B : Type} (opAttrToProto : String × AttrValue → Except String B)

/-- `p` lists the values of `g`: the inputs and outputs in order, and every initializer and every
type info once. -/
structure Lists (g : OrtGraph) (p : GraphProto B) : Prop where
  inputs : p.inputNames = g.inputNames
  inputs_nodup : p.inputNames.Nodup
  outputs : p.outputNames = g.outputNames
  initializers_nodup : p.initializerNames.Nodup
  mem_initializers : ∀ v, v ∈ p.initializerNames ↔ v ∈ g.initializerNames ∨ g.Copies v
  valueInfos_nodup : p.valueInfoNames.Nodup
  mem_valueInfos : ∀ v, v ∈ p.valueInfoNames ↔ v ∈ g.usedNames ∧
    ((g.valueInfo v).isFromOuterScope = true ∨ (g.valueInfo v).isConstantInitializer = true ∨
      v ∉ g.inputNames ∧ v ∉ g.outputNames)

mutual

/-- `p` is a complete and well-formed serialization of `g` inside the names `scope`. -/
inductive Serialized : List String → OrtGraph → GraphProto B → Prop
  | mk {scope : List String} {g : OrtGraph} {p : GraphProto B} (lists : Lists g p)
      (nodes : SerializedNodes (scope ++ p.inputNames ++ p.initializerNames) g.nodes p.nodes) :
      Serialized scope g p

/-- The nodes keep their order and the names of their slots, and read names of `scope` and outputs
of earlier nodes only. -/
inductive SerializedNodes : List String → List OrtNode → List (NodeProto B) → Prop
  | nil {scope : List String} : SerializedNodes scope [] []
  | cons {scope : List String} {name domain opType : String}
      {attributes : List (String × AttrValue)} {subgraphs : List (String × OrtGraph)}
      {inputs : List (Option String)} {implicitInputs : List String}
      {outputs : List (Option String)} {nodes : List OrtNode} {plain : List B}
      {bodies : List (AttributeProto B)} {protos : List (NodeProto B)}
      (attrs : attributesToProto opAttrToProto attributes = .ok plain)
      (reads : ∀ v ∈ inputs.map slotName, v ≠ "" → v ∈ scope)
      (graphs : SerializedSubgraphs scope subgraphs bodies)
      (rest : SerializedNodes (scope ++ outputs.map slotName) nodes protos) :
      SerializedNodes scope
        (.mk name domain opType attributes subgraphs inputs implicitInputs outputs :: nodes)
        (.mk name domain opType (plain.map .plain ++ bodies) (inputs.map slotName)
          (outputs.map slotName) :: protos)

inductive SerializedSubgraphs :
    List String → List (String × OrtGraph) → List (AttributeProto B) → Prop
  | nil {scope : List String} : SerializedSubgraphs scope [] []
  | cons {scope : List String} {name : String} {g : OrtGraph} {p : GraphProto B}
      {subgraphs : List (String × OrtGraph)} {bodies : List (AttributeProto B)}
      (body : Serialized scope g p) (rest : SerializedSubgraphs scope subgraphs bodies) :
      SerializedSubgraphs scope ((name, g) :: subgraphs) (.graph name p :: bodies)

end

/-! ## What can be serialized -/

def ValueInfo.IsTensor (info : ValueInfo) : Prop :=
  ∃ elemType dims symbolicDims, info.typeInfo = .tensor elemType dims symbolicDims

mutual

/-- All values of `g` are tensors, the initializers have data, and the attributes can be
converted. -/
inductive Convertible : HandleInitializerData → OrtGraph → Prop
  | mk {handle : HandleInitializerData} {g : OrtGraph}
      (tensors : ∀ v, v ∈ g.inputNames ∨ v ∈ g.outputNames ∨ v ∈ g.usedNames ∨
        v ∈ g.initializerNames → (g.valueInfo v).IsTensor)
      (data : ∀ v, v ∈ g.initializerNames ∨ g.Copies v →
        ∃ data, initializerData handle (g.valueInfo v) = .ok data)
      (nodes : ConvertibleNodes g.nodes) : Convertible handle g

inductive ConvertibleNodes : List OrtNode → Prop
  | nil : ConvertibleNodes []
  | cons {name domain opType : String} {attributes : List (String × AttrValue)}
      {subgraphs : List (String × OrtGraph)} {inputs : List (Option String)}
      {implicitInputs : List String} {outputs : List (Option String)} {nodes : List OrtNode}
      (attrs : ∃ plain, attributesToProto opAttrToProto attributes = .ok plain)
      (bodies : ConvertibleSubgraphs subgraphs) (rest : ConvertibleNodes nodes) :
      ConvertibleNodes
        (.mk name domain opType attributes subgraphs inputs implicitInputs outputs :: nodes)

inductive ConvertibleSubgraphs : List (String × OrtGraph) → Prop
  | nil : ConvertibleSubgraphs []
  | cons {name : String} {g : OrtGraph} {subgraphs : List (String × OrtGraph)}
      (body : Convertible noHandler g) (rest : ConvertibleSubgraphs subgraphs) :
      ConvertibleSubgraphs ((name, g) :: subgraphs)

end

end

/-! ## The two maps -/

namespace GraphToProtoLemmas

variable {names : List String} {v name : String}

theorem mem_emplace : v ∈ emplace names name ↔ v = name ∨ v ∈ names := by
  unfold emplace
  split
  · next h => exact ⟨Or.inr, fun hv => hv.elim (fun heq => heq ▸ h) id⟩
  · rw [List.mem_orderedInsert]

theorem nodup_emplace (h : names.Nodup) : (emplace names name).Nodup := by
  unfold emplace
  split
  · exact h
  · next hnew =>
    exact (List.perm_orderedInsert _ _ _).nodup_iff.2 (List.nodup_cons.2 ⟨hnew, h⟩)

theorem mem_foldl_emplace {l : List String} : v ∈ l.foldl emplace names ↔ v ∈ names ∨ v ∈ l := by
  induction l generalizing names with
  | nil => simp
  | cons name l ih => simp only [List.foldl_cons, ih, mem_emplace, List.mem_cons]; tauto

theorem nodup_foldl_emplace {l : List String} (h : names.Nodup) :
    (l.foldl emplace names).Nodup := by
  induction l generalizing names with
  | nil => exact h
  | cons name l ih => exact ih (nodup_emplace h)

/-- The value goes into `value_infos`. -/
def ToValueInfos (info : ValueInfo) : Prop :=
  info.isFromOuterScope = true ∨ info.isOptionalGraphInput = false ∧
    (info.isConstantInitializer = true ∨
      info.isRequiredGraphInput = false ∧ info.isGraphOutput = false)

/-- The value goes into `initializer_value_infos`. -/
def ToInitializers (info : ValueInfo) : Prop :=
  info.isConstantInitializer = true ∨
    info.isFromOuterScope = false ∧ info.isOptionalGraphInput = true

/-- The maps hold what the flags of the values seen so far put there. -/
structure Holds (valueInfo : String → ValueInfo) (seen : List String) (s : Collected) : Prop where
  valueInfos_nodup : s.valueInfos.Nodup
  mem_valueInfos : ∀ v, v ∈ s.valueInfos ↔ v ∈ seen ∧ ToValueInfos (valueInfo v)
  initializers_nodup : s.initializers.Nodup
  mem_initializers : ∀ v, v ∈ s.initializers ↔ v ∈ seen ∧ ToInitializers (valueInfo v)

variable {valueInfo : String → ValueInfo} {seen : List String} {s : Collected}

/-- What one turn adds to the maps. -/
theorem collectValueInfo_spec (hs : Holds valueInfo seen s) :
    (collectValueInfo valueInfo s name).valueInfos.Nodup ∧
      (collectValueInfo valueInfo s name).initializers.Nodup ∧
      (∀ v, v ∈ (collectValueInfo valueInfo s name).valueInfos ↔
        v ∈ s.valueInfos ∨ v = name ∧ ToValueInfos (valueInfo name)) ∧
      ∀ v, v ∈ (collectValueInfo valueInfo s name).initializers ↔
        v ∈ s.initializers ∨ v = name ∧ ToInitializers (valueInfo name) := by
  unfold collectValueInfo
  dsimp only
  split
  · next hold =>
    -- a name that is there was seen, with the same flags
    have hseen : name ∈ seen := by
      rcases hold with h | h
      · exact ((hs.mem_valueInfos name).1 h).1
      · exact ((hs.mem_initializers name).1 h).1
    refine ⟨hs.valueInfos_nodup, hs.initializers_nodup, fun v => ?_, fun v => ?_⟩
    · refine (or_iff_left_of_imp ?_).symm
      rintro ⟨rfl, hto⟩
      exact (hs.mem_valueInfos v).2 ⟨hseen, hto⟩
    · refine (or_iff_left_of_imp ?_).symm
      rintro ⟨rfl, hto⟩
      exact (hs.mem_initializers v).2 ⟨hseen, hto⟩
  · split
    · next houter =>
      refine ⟨nodup_emplace hs.valueInfos_nodup, ?_, fun v => ?_, fun v => ?_⟩
      · split
        · exact nodup_emplace hs.initializers_nodup
        · exact hs.initializers_nodup
      · simp [mem_emplace, ToValueInfos, houter, or_comm]
      · split
        · next hconst => simp [mem_emplace, ToInitializers, hconst, or_comm]
        · next hconst => simp [ToInitializers, hconst, houter]
    · next houter =>
      rw [Bool.not_eq_true] at houter
      split
      · next hoptional =>
        refine ⟨hs.valueInfos_nodup, nodup_emplace hs.initializers_nodup, fun v => ?_, fun v => ?_⟩
        · simp [ToValueInfos, houter, hoptional]
        · simp [mem_emplace, ToInitializers, houter, hoptional, or_comm]
      · next hoptional =>
        rw [Bool.not_eq_true] at hoptional
        split
        · next hconst =>
          refine ⟨nodup_emplace hs.valueInfos_nodup, nodup_emplace hs.initializers_nodup,
            fun v => ?_, fun v => ?_⟩
          · simp [mem_emplace, ToValueInfos, houter, hoptional, hconst, or_comm]
          · simp [mem_emplace, ToInitializers, hconst, or_comm]
        · next hconst =>
          rw [Bool.not_eq_true] at hconst
          split
          · next hplain =>
            refine ⟨nodup_emplace hs.valueInfos_nodup, hs.initializers_nodup, fun v => ?_,
              fun v => ?_⟩
            · simp only [Bool.and_eq_true, Bool.not_eq_true'] at hplain
              simp [mem_emplace, ToValueInfos, hoptional, hplain, or_comm]
            · simp [ToInitializers, houter, hoptional, hconst]
          · next hplain =>
            refine ⟨hs.valueInfos_nodup, hs.initializers_nodup, fun v => ?_, fun v => ?_⟩
            · simp only [Bool.and_eq_true, Bool.not_eq_true'] at hplain
              simp [ToValueInfos, houter, hoptional, hconst, hplain]
            · simp [ToInitializers, houter, hoptional, hconst]

theorem holds_step (hs : Holds valueInfo seen s) :
    Holds valueInfo (seen ++ [name]) (collectValueInfo valueInfo s name) := by
  obtain ⟨hvalues, hinits, hmemValues, hmemInits⟩ :
      (collectValueInfo valueInfo s name).valueInfos.Nodup ∧
        (collectValueInfo valueInfo s name).initializers.Nodup ∧ _ := collectValueInfo_spec hs
  refine ⟨hvalues, fun v => ?_, hinits, fun v => ?_⟩
  · rw [hmemValues, hs.mem_valueInfos, List.mem_append, List.mem_singleton, or_and_right]
    exact or_congr Iff.rfl (and_congr_right fun h => by rw [h])
  · rw [hmemInits, hs.mem_initializers, List.mem_append, List.mem_singleton, or_and_right]
    exact or_congr Iff.rfl (and_congr_right fun h => by rw [h])

theorem holds_run {l : List String} (hs : Holds valueInfo seen s) :
    Holds valueInfo (seen ++ l) (l.foldl (collectValueInfo valueInfo) s) := by
  induction l generalizing seen s with
  | nil => rwa [List.append_nil]
  | cons name l ih => rw [List.append_cons]; exact ih (holds_step hs)

theorem holds_collected (valueInfo : String → ValueInfo) (l : List String) :
    Holds valueInfo l (l.foldl (collectValueInfo valueInfo) {}) := by
  have hempty : Holds valueInfo [] {} := ⟨List.nodup_nil, by simp, List.nodup_nil, by simp⟩
  exact holds_run hempty

/-! ## The lists of one graph -/

open Fallible

theorem name_of_valueInfoToProto {info : ValueInfo} {q : ValueInfoProto}
    (h : valueInfoToProto name info = .ok q) : q.name = name := by
  unfold valueInfoToProto at h
  split at h
  · cases h
  · cases h
    rfl

theorem name_of_initializerToProto {handle : HandleInitializerData} {info : ValueInfo}
    {q : TensorProto} (h : initializerToProto handle name info = .ok q) : q.name = name := by
  unfold initializerToProto at h
  split at h
  · cases h
  · split at h
    · cases h
    · cases h
      rfl

theorem exists_valueInfoToProto_ok {info : ValueInfo} :
    (∃ q, valueInfoToProto name info = .ok q) ↔ info.IsTensor := by
  unfold valueInfoToProto ValueInfo.IsTensor
  cases info.typeInfo <;> simp

theorem exists_initializerToProto_ok {handle : HandleInitializerData} {info : ValueInfo} :
    (∃ q, initializerToProto handle name info = .ok q) ↔
      info.IsTensor ∧ ∃ data, initializerData handle info = .ok data := by
  unfold initializerToProto ValueInfo.IsTensor
  cases info.typeInfo <;> cases initializerData handle info <;> simp

/-- The names that `value_infos` ends up with. -/
def valueInfoNames (g : OrtGraph) : List String :=
  (g.usedNames.foldl (collectValueInfo g.valueInfo) {}).valueInfos

/-- The names that `initializer_value_infos` ends up with. -/
def initializerNames (g : OrtGraph) : List String :=
  g.initializerNames.foldl emplace
    (g.usedNames.foldl (collectValueInfo g.valueInfo) {}).initializers

theorem mem_valueInfoNames {g : OrtGraph}
    (hflags : ∀ v ∈ g.usedNames, (g.valueInfo v).isFromOuterScope = true ∨ OwnFlags g v) :
    v ∈ valueInfoNames g ↔ v ∈ g.usedNames ∧
      ((g.valueInfo v).isFromOuterScope = true ∨ (g.valueInfo v).isConstantInitializer = true ∨
        v ∉ g.inputNames ∧ v ∉ g.outputNames) := by
  rw [valueInfoNames, (holds_collected g.valueInfo g.usedNames).mem_valueInfos]
  refine and_congr_right fun hv => ?_
  unfold ToValueInfos
  rcases hflags v hv with houter | hown
  · simp [houter]
  · have hinput := hown.input
    have hofInput := hown.of_input
    have hoptional := hown.optional
    rw [← hown.output]
    grind

theorem mem_initializerNames {g : OrtGraph}
    (hflags : ∀ v ∈ g.usedNames, (g.valueInfo v).isFromOuterScope = true ∨ OwnFlags g v) :
    v ∈ initializerNames g ↔ v ∈ g.initializerNames ∨ g.Copies v := by
  rw [initializerNames, mem_foldl_emplace,
    (holds_collected g.valueInfo g.usedNames).mem_initializers, or_comm]
  constructor
  · rintro (hown | ⟨hv, hto⟩)
    · exact Or.inl hown
    · rcases hflags v hv with houter | hown
      · rcases hto with hconst | ⟨hnot, -⟩
        · exact Or.inr ⟨hv, houter, hconst⟩
        · exact nomatch houter.symm.trans hnot
      · exact Or.inl (hown.initializer (hto.symm.imp And.right id))
  · rintro (hown | ⟨hv, -, hconst⟩)
    · exact Or.inl hown
    · exact Or.inr ⟨hv, Or.inl hconst⟩

variable {B : Type} {opAttrToProto : String × AttrValue → Except String B}
  {handle : HandleInitializerData} {g : OrtGraph} {p : GraphProto B}

/-- What the steps of `GraphToProto` have made. -/
theorem graphToProto_eq_ok : graphToProto opAttrToProto handle g = .ok p ↔
    ∃ inputs outputs nodes valueInfos initializers,
      g.inputNames.mapM (fun v => valueInfoToProto v (g.valueInfo v)) = .ok inputs ∧
      g.outputNames.mapM (fun v => valueInfoToProto v (g.valueInfo v)) = .ok outputs ∧
      nodesToProto opAttrToProto g.nodes = .ok nodes ∧
      (valueInfoNames g).mapM (fun v => valueInfoToProto v (g.valueInfo v)) = .ok valueInfos ∧
      (initializerNames g).mapM (fun v => initializerToProto handle v (g.valueInfo v)) =
        .ok initializers ∧
      .mk g.name "Serialized from OrtGraph" inputs outputs nodes valueInfos initializers = p := by
  obtain ⟨name, valueInfo, inputs, outputs, initializers, nodes⟩ := g
  rw [graphToProto]
  simp only [bind_eq_ok, pure_eq_ok]
  constructor
  · rintro ⟨_, hinputs, _, houtputs, _, hnodes, _, hvalues, _, hinits, rfl⟩
    exact ⟨_, _, _, _, _, hinputs, houtputs, hnodes, hvalues, hinits, rfl⟩
  · rintro ⟨_, _, _, _, _, hinputs, houtputs, hnodes, hvalues, hinits, rfl⟩
    exact ⟨_, hinputs, _, houtputs, _, hnodes, _, hvalues, _, hinits, rfl⟩

theorem lists_of_ok (hnodup : g.inputNames.Nodup)
    (hflags : ∀ v ∈ g.usedNames, (g.valueInfo v).isFromOuterScope = true ∨ OwnFlags g v)
    (h : graphToProto opAttrToProto handle g = .ok p) : Lists g p := by
  obtain ⟨inputs, outputs, nodes, valueInfos, initializers, hinputs, houtputs, -, hvalues, hinits,
    rfl⟩ := graphToProto_eq_ok.1 h
  have hinputs := map_of_mapM_ok hinputs (g := ValueInfoProto.name) (h := id)
    fun _ _ => name_of_valueInfoToProto
  have houtputs := map_of_mapM_ok houtputs (g := ValueInfoProto.name) (h := id)
    fun _ _ => name_of_valueInfoToProto
  have hvalues := map_of_mapM_ok hvalues (g := ValueInfoProto.name) (h := id)
    fun _ _ => name_of_valueInfoToProto
  have hinits := map_of_mapM_ok hinits (g := TensorProto.name) (h := id)
    fun _ _ => name_of_initializerToProto
  rw [List.map_id] at hinputs houtputs hvalues hinits
  have hcollected := holds_collected g.valueInfo g.usedNames
  exact {
    inputs := hinputs
    inputs_nodup := by rwa [GraphProto.inputNames, hinputs]
    outputs := houtputs
    initializers_nodup := by
      rw [GraphProto.initializerNames, hinits]
      exact nodup_foldl_emplace hcollected.initializers_nodup
    mem_initializers := fun v => by
      rw [GraphProto.initializerNames, hinits]
      exact mem_initializerNames hflags
    valueInfos_nodup := by
      rw [GraphProto.valueInfoNames, hvalues]
      exact hcollected.valueInfos_nodup
    mem_valueInfos := fun v => by
      rw [GraphProto.valueInfoNames, hvalues]
      exact mem_valueInfoNames hflags }

/-! ## The nodes and their bodies -/

theorem nodeToProto_eq_ok {name domain opType : String} {attributes : List (String × AttrValue)}
    {subgraphs : List (String × OrtGraph)} {inputs outputs : List (Option String)}
    {implicitInputs : List String} {q : NodeProto B} :
    nodeToProto opAttrToProto
        (.mk name domain opType attributes subgraphs inputs implicitInputs outputs) = .ok q ↔
      ∃ plain bodies, attributesToProto opAttrToProto attributes = .ok plain ∧
        subgraphsToProto opAttrToProto subgraphs = .ok bodies ∧
        .mk name domain opType (plain.map .plain ++ bodies) (inputs.map slotName)
          (outputs.map slotName) = q := by
  rw [nodeToProto]
  simp only [bind_eq_ok, pure_eq_ok, exists_and_left]

theorem nodesToProto_cons {n : OrtNode} {nodes : List OrtNode} {qs : List (NodeProto B)} :
    nodesToProto opAttrToProto (n :: nodes) = .ok qs ↔
      ∃ q rest, nodeToProto opAttrToProto n = .ok q ∧
        nodesToProto opAttrToProto nodes = .ok rest ∧ q :: rest = qs := by
  rw [nodesToProto]
  simp only [bind_eq_ok, pure_eq_ok, exists_and_left]

theorem subgraphsToProto_cons {name : String} {g : OrtGraph} {subgraphs : List (String × OrtGraph)}
    {qs : List (AttributeProto B)} :
    subgraphsToProto opAttrToProto ((name, g) :: subgraphs) = .ok qs ↔
      ∃ q rest, graphToProto opAttrToProto noHandler g = .ok q ∧
        subgraphsToProto opAttrToProto subgraphs = .ok rest ∧ .graph name q :: rest = qs := by
  rw [subgraphsToProto]
  simp only [bind_eq_ok, pure_eq_ok, exists_and_left]

/-- The name of a slot that is filled. -/
theorem mem_map_slotName {slots : List (Option String)} (h : v ∈ slots.reduceOption) :
    v ∈ slots.map slotName :=
  List.mem_map.2 ⟨some v, List.reduceOption_mem_iff.1 h, rfl⟩

theorem mem_reduceOption_of_slotName {slots : List (Option String)} (h : v ∈ slots.map slotName)
    (hv : v ≠ "") : v ∈ slots.reduceOption := by
  obtain ⟨slot, hslot, rfl⟩ := List.mem_map.1 h
  cases slot with
  | none => exact absurd rfl hv
  | some w => exact List.reduceOption_mem_iff.2 hslot

mutual

/-- The induction is on the way ORT has made sure of the graph. -/
theorem serialized_of_ok {handle : HandleInitializerData} {g : OrtGraph} {p : GraphProto B}
    {scope scope' : List String} (hsub : scope ⊆ scope') :
    Valid scope g → graphToProto opAttrToProto handle g = .ok p →
      Serialized opAttrToProto scope' g p
  | .mk hnodup hflags hnodes, h => by
    have hlists := lists_of_ok hnodup hflags h
    obtain ⟨inputs, outputs, nodes, valueInfos, initializers, -, -, hnodesOk, -, -, rfl⟩ :=
      graphToProto_eq_ok.1 h
    refine .mk hlists (serializedNodes_of_ok ?_ hnodes hnodesOk)
    rw [hlists.inputs]
    intro v hv
    simp only [List.mem_append, hlists.mem_initializers] at hv ⊢
    rcases hv with (hv | hv) | hv
    · exact Or.inl (Or.inl (hsub hv))
    · exact Or.inl (Or.inr hv)
    · exact Or.inr (Or.inl hv)

theorem serializedNodes_of_ok {nodes : List OrtNode} {qs : List (NodeProto B)}
    {scope scope' : List String} (hsub : scope ⊆ scope') :
    ValidNodes scope nodes → nodesToProto opAttrToProto nodes = .ok qs →
      SerializedNodes opAttrToProto scope' nodes qs
  | .nil, h => by
    rw [nodesToProto, pure_eq_ok] at h
    subst h
    exact .nil
  | .cons hreads hbodies hrest, h => by
    obtain ⟨q, rest, hq, hok, rfl⟩ := nodesToProto_cons.1 h
    obtain ⟨plain, bodies, hplain, hbodiesOk, rfl⟩ := nodeToProto_eq_ok.1 hq
    refine .cons hplain (fun v hv hne => hsub (hreads v (mem_reduceOption_of_slotName hv hne)))
      (serializedSubgraphs_of_ok hsub hbodies hbodiesOk) (serializedNodes_of_ok ?_ hrest hok)
    intro v hv
    exact (List.mem_append.1 hv).elim (fun hv => List.mem_append_left _ (hsub hv))
      fun hv => List.mem_append_right _ (mem_map_slotName hv)

theorem serializedSubgraphs_of_ok {subgraphs : List (String × OrtGraph)}
    {qs : List (AttributeProto B)} {scope scope' : List String} (hsub : scope ⊆ scope') :
    ValidSubgraphs scope subgraphs → subgraphsToProto opAttrToProto subgraphs = .ok qs →
      SerializedSubgraphs opAttrToProto scope' subgraphs qs
  | .nil, h => by
    rw [subgraphsToProto, pure_eq_ok] at h
    subst h
    exact .nil
  | .cons hbody hrest, h => by
    obtain ⟨q, rest, hq, hok, rfl⟩ := subgraphsToProto_cons.1 h
    exact .cons (serialized_of_ok hsub hbody hq) (serializedSubgraphs_of_ok hsub hrest hok)

end

/-- The steps of one graph succeed when its values can be converted. -/
theorem exists_ok_iff_nodes
    (hflags : ∀ v ∈ g.usedNames, (g.valueInfo v).isFromOuterScope = true ∨ OwnFlags g v)
    (hnodes : (∃ qs, nodesToProto opAttrToProto g.nodes = .ok qs) ↔
      ConvertibleNodes opAttrToProto g.nodes) :
    (∃ p, graphToProto opAttrToProto handle g = .ok p) ↔ Convertible opAttrToProto handle g := by
  simp only [graphToProto_eq_ok]
  have hinits : ∀ v, v ∈ initializerNames g ↔ v ∈ g.initializerNames ∨ g.Copies v :=
    fun v => mem_initializerNames hflags
  constructor
  · rintro ⟨_, inputs, outputs, qs, valueInfos, initializers, hin, hout, hok, hval, hinit, -⟩
    have hin := exists_mapM_ok.1 ⟨_, hin⟩
    have hout := exists_mapM_ok.1 ⟨_, hout⟩
    have hval := exists_mapM_ok.1 ⟨_, hval⟩
    have hinit := exists_mapM_ok.1 ⟨_, hinit⟩
    simp only [exists_valueInfoToProto_ok] at hin hout hval
    simp only [exists_initializerToProto_ok, hinits] at hinit
    refine .mk ?_ (fun v hv => (hinit v hv).2) (hnodes.1 ⟨qs, hok⟩)
    rintro v (hv | hv | hv | hv)
    · exact hin v hv
    · exact hout v hv
    · -- a used value has its type info in one of the three lists
      by_cases hlisted : v ∈ g.inputNames ∨ v ∈ g.outputNames
      · exact hlisted.elim (hin v) (hout v)
      · rw [not_or] at hlisted
        exact hval v ((mem_valueInfoNames hflags).2 ⟨hv, Or.inr (Or.inr hlisted)⟩)
    · exact (hinit v (Or.inl hv)).1
  · rintro ⟨htensors, hdata, hok⟩
    have hin : ∃ inputs, g.inputNames.mapM (fun v => valueInfoToProto v (g.valueInfo v)) =
        .ok inputs := exists_mapM_ok.2 fun v hv =>
      exists_valueInfoToProto_ok.2 (htensors v (Or.inl hv))
    have hout : ∃ outputs, g.outputNames.mapM (fun v => valueInfoToProto v (g.valueInfo v)) =
        .ok outputs := exists_mapM_ok.2 fun v hv =>
      exists_valueInfoToProto_ok.2 (htensors v (Or.inr (Or.inl hv)))
    have hval : ∃ values, (valueInfoNames g).mapM
        (fun v => valueInfoToProto v (g.valueInfo v)) = .ok values := exists_mapM_ok.2 fun v hv =>
      exists_valueInfoToProto_ok.2
        (htensors v (Or.inr (Or.inr (Or.inl ((mem_valueInfoNames hflags).1 hv).1))))
    have hinit : ∃ inits, (initializerNames g).mapM
        (fun v => initializerToProto handle v (g.valueInfo v)) = .ok inits :=
      exists_mapM_ok.2 fun v hv => by
        have hv := (hinits v).1 hv
        refine exists_initializerToProto_ok.2 ⟨htensors v ?_, hdata v hv⟩
        exact hv.elim (fun hown => Or.inr (Or.inr (Or.inr hown)))
          fun hcopied => Or.inr (Or.inr (Or.inl hcopied.1))
    obtain ⟨inputs, hin⟩ := hin
    obtain ⟨outputs, hout⟩ := hout
    obtain ⟨qs, hqs⟩ := hnodes.2 hok
    obtain ⟨values, hval⟩ := hval
    obtain ⟨inits, hinit⟩ := hinit
    exact ⟨_, inputs, outputs, qs, values, inits, hin, hout, hqs, hval, hinit, rfl⟩

mutual

theorem exists_ok_iff {handle : HandleInitializerData} {g : OrtGraph} {scope : List String} :
    Valid scope g →
      ((∃ p, graphToProto opAttrToProto handle g = .ok p) ↔ Convertible opAttrToProto handle g)
  | .mk _ hflags hnodes => exists_ok_iff_nodes hflags (exists_nodes_ok_iff hnodes)

theorem exists_nodes_ok_iff {nodes : List OrtNode} {scope : List String} :
    ValidNodes scope nodes →
      ((∃ qs, nodesToProto opAttrToProto nodes = .ok qs) ↔ ConvertibleNodes opAttrToProto nodes)
  | .nil => ⟨fun _ => .nil, fun _ => ⟨[], by rw [nodesToProto]; rfl⟩⟩
  | .cons _ hbodies hrest => by
    simp only [nodesToProto_cons, nodeToProto_eq_ok]
    constructor
    · rintro ⟨_, _, rest, ⟨plain, bodies, hplain, hbodiesOk, rfl⟩, hok, -⟩
      exact .cons ⟨plain, hplain⟩ ((exists_subgraphs_ok_iff hbodies).1 ⟨bodies, hbodiesOk⟩)
        ((exists_nodes_ok_iff hrest).1 ⟨rest, hok⟩)
    · rintro (_ | ⟨⟨plain, hplain⟩, hbodiesOk, hok⟩)
      obtain ⟨bodies, hbodiesOk⟩ := (exists_subgraphs_ok_iff hbodies).2 hbodiesOk
      obtain ⟨rest, hok⟩ := (exists_nodes_ok_iff hrest).2 hok
      exact ⟨_, _, rest, ⟨plain, bodies, hplain, hbodiesOk, rfl⟩, hok, rfl⟩

theorem exists_subgraphs_ok_iff {subgraphs : List (String × OrtGraph)} {scope : List String} :
    ValidSubgraphs scope subgraphs →
      ((∃ qs, subgraphsToProto opAttrToProto subgraphs = .ok qs) ↔
        ConvertibleSubgraphs opAttrToProto subgraphs)
  | .nil => ⟨fun _ => .nil, fun _ => ⟨[], by rw [subgraphsToProto]; rfl⟩⟩
  | .cons hbody hrest => by
    simp only [subgraphsToProto_cons]
    constructor
    · rintro ⟨_, q, rest, hq, hok, -⟩
      exact .cons ((exists_ok_iff hbody).1 ⟨q, hq⟩)
        ((exists_subgraphs_ok_iff hrest).1 ⟨rest, hok⟩)
    · rintro (_ | ⟨hbodyOk, hok⟩)
      obtain ⟨q, hq⟩ := (exists_ok_iff hbody).2 hbodyOk
      obtain ⟨rest, hok⟩ := (exists_subgraphs_ok_iff hrest).2 hok
      exact ⟨_, q, rest, hq, hok, rfl⟩

end

end GraphToProtoLemmas

open GraphToProtoLemmas

/-! ## The whole function -/

section

variable {B : Type} {opAttrToProto : String × AttrValue → Except String B}

/-- A graph is serialized exactly when it can be converted. What is written is then complete and
well formed, the bodies of its nodes included. -/
theorem graphToProto_spec {scope : List String} {g : OrtGraph} (handle : HandleInitializerData)
    (h : Valid scope g) :
    (Convertible opAttrToProto handle g → ∃ p, graphToProto opAttrToProto handle g = .ok p ∧
        Serialized opAttrToProto scope g p) ∧
      (¬ Convertible opAttrToProto handle g →
        ∃ e, graphToProto opAttrToProto handle g = .error e) := by
  constructor
  · intro hconvertible
    obtain ⟨p, hp⟩ := (exists_ok_iff h).2 hconvertible
    exact ⟨p, hp, serialized_of_ok (List.Subset.refl _) h hp⟩
  · intro hnot
    cases hresult : graphToProto opAttrToProto handle g with
    | error e => exact ⟨e, rfl⟩
    | ok p => exact absurd ((exists_ok_iff h).1 ⟨p, hresult⟩) hnot

end

/-! ## A graph with a body, and one with a value that is no tensor -/

/-- A tensor of two elements. -/
def pair : ValueInfo where
  typeInfo := .tensor 1 [2] [""]

/-- The body of the node below: it adds two values of the outer graph, one of them a constant. -/
def addBody : OrtGraph :=
  .mk "body"
    (fun v =>
      { pair with
        isFromOuterScope := v == "a" || v == "k"
        isConstantInitializer := v == "k"
        isGraphOutput := v == "z"
        initializer := if v == "k" then some (.bytes [1, 2]) else none })
    [] [some "z"] [] [.mk "add" "" "Add" [] [] [some "a", some "k"] [] [some "z"]]

/-- A node with a body, an input and an output that are left out, and an initializer that no node
uses. -/
def branchGraph : OrtGraph :=
  .mk "main"
    (fun v =>
      { pair with
        isRequiredGraphInput := v == "x"
        isConstantInitializer := v == "k" || v == "unused"
        isGraphOutput := v == "y"
        initializer := if v == "k" || v == "unused" then some (.bytes [1, 2]) else none })
    [some "x"] [some "y"] [some "k", some "unused"]
    [.mk "copy" "" "Identity" [] [] [some "x"] [] [some "a"],
      .mk "branch" "" "If" [("then_branch", .graph [])] [("then_branch", addBody)]
        [some "x", none] ["a", "k"] [none, some "y"]]

theorem addBody_valid : Valid ["x", "k", "unused", "a"] addBody := by
  have hflags : ∀ v ∈ addBody.usedNames,
      (addBody.valueInfo v).isFromOuterScope = true ∨ v = "z" := by decide
  refine .mk List.nodup_nil (fun v hv => (hflags v hv).imp_right ?_)
    (.cons (by decide) .nil .nil)
  rintro rfl
  constructor <;> decide

theorem branchGraph_valid : Valid [] branchGraph := by
  refine .mk (by decide) (fun v hv => Or.inr ?_)
    (.cons (by decide) .nil (.cons (by decide) (.cons addBody_valid .nil) .nil))
  have hused : v ∈ ["x", "a", "k", "y"] := by
    have hall : ∀ v ∈ branchGraph.usedNames, v ∈ ["x", "a", "k", "y"] := by decide
    exact hall v hv
  simp only [List.mem_cons, List.not_mem_nil, or_false] at hused
  rcases hused with rfl | rfl | rfl | rfl
  all_goals constructor <;> decide

theorem branchGraph_convertible : Convertible (B := String × AttrValue) .ok noHandler branchGraph := by
  have hbody : Convertible (B := String × AttrValue) .ok noHandler addBody := by
    refine .mk (fun v _ => ⟨1, [2], [""], rfl⟩) ?_ (.cons ⟨[], rfl⟩ .nil .nil)
    rintro v (hv | ⟨-, -, hconst⟩)
    · cases hv
    · obtain rfl : v = "k" := by simpa [addBody, OrtGraph.valueInfo] using hconst
      exact ⟨.raw [1, 2], rfl⟩
  refine .mk (fun v _ => ⟨1, [2], [""], rfl⟩) ?_
    (.cons ⟨[], rfl⟩ .nil (.cons ⟨[], rfl⟩ (.cons hbody .nil) .nil))
  rintro v (hv | ⟨-, houter, -⟩)
  · have hdata : ∀ v ∈ branchGraph.initializerNames,
        (branchGraph.valueInfo v).initializer = some (.bytes [1, 2]) := by decide
    exact ⟨.raw [1, 2], by rw [initializerData, hdata v hv]; rfl⟩
  · cases houter

theorem branchGraph_serialized :
    ∃ p, graphToProto (B := String × AttrValue) .ok noHandler branchGraph = .ok p ∧
      Serialized .ok [] branchGraph p :=
  (graphToProto_spec noHandler branchGraph_valid).1 branchGraph_convertible

/-- A graph that hands on a sequence. -/
def sequenceGraph : OrtGraph :=
  .mk "main"
    (fun v =>
      { typeInfo := .other
        isRequiredGraphInput := v == "x"
        isGraphOutput := v == "y" })
    [some "x"] [some "y"] [] [.mk "copy" "" "Identity" [] [] [some "x"] [] [some "y"]]

theorem sequenceGraph_refused :
    Valid [] sequenceGraph ∧
      ∃ e, graphToProto (B := String × AttrValue) .ok noHandler sequenceGraph = .error e := by
  constructor
  · refine .mk (by decide) (fun v hv => Or.inr ?_) (.cons (by decide) .nil .nil)
    have hused : v ∈ ["x", "y"] := by
      have hall : ∀ v ∈ sequenceGraph.usedNames, v ∈ ["x", "y"] := by decide
      exact hall v hv
    simp only [List.mem_cons, List.not_mem_nil, or_false] at hused
    rcases hused with rfl | rfl
    all_goals constructor <;> decide
  · exact ⟨"Expected ValueInfo to represent a Tensor", rfl⟩

end AmdGpuEp.GraphToProto
