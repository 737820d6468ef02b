import AmdGpuEp.Ort.Graph

/-!
# What the fusion passes of the DirectML provider read from a graph

`fusion_utils.cc`: the names of a node's slots, scalar initializers, and the
connectivity maps that the pattern matcher walks. The source numbers the nodes
of `Graph_GetNodes` and works with these indices. The nodes of a graph are
distinct, so an index of `node_infos` is given here by its node.

Results:
1. `mem_consumerMap`: a node is a listed consumer of a value exactly when one of
   its listed inputs is that value. A captured value has no listed consumer.
2. `dep_of_consumer`, `dep_cases`: a listed consumer depends on the producer, and
   every dependency is a listed consumer or a capture.
-/

namespace AmdGpuEp.DirectML

/-! ## Names and scalars -/

/-- `GetNodeInputNames`: one name for each listed slot, empty for a missing input. -/
def getNodeInputNames (node : Node) : List String :=
  node.inputs.map fun input => input.getD ""

/-- `GetNodeOutputNames`. -/
def getNodeOutputNames (node : Node) : List String :=
  node.outputs.map fun output => output.getD ""

/-- `OrtNodeAdapter::GetAttributeInts`: empty when the attribute is missing. -/
def getAttributeInts (node : Node) (name : String) : List Int :=
  match node.attributes.find? fun entry => entry.1 == name with
  | some (_, .ints values) => values
  | _ => []

/-- `OrtNodeAdapter::GetAttributeInt`. -/
def getAttributeInt (node : Node) (name : String) (default : Int) : Int :=
  match node.attributes.find? fun entry => entry.1 == name with
  | some (_, .int value) => value
  | _ => default

inductive ElemType
  | undefined
  | float
  | float16
  | double
  | other (code : Nat)
  deriving DecidableEq, Repr

/-- An initializer: element type, dimensions, and the elements as `float` reads them. -/
structure OrtValue (F : Type) where
  elemType : ElemType
  dims : List Nat
  elems : List F

/-- `TryReadScalarFloat`. -/
def tryReadScalarFloat {F : Type} (val : OrtValue F) : Option F :=
  if val.dims.prod = 1 then
    match val.elemType with
    | .float | .double | .float16 => val.elems.head?
    | _ => none
  else none

/-- What the type info of a value says of a tensor. An unknown dimension is negative, and an
unknown shape has no dimensions. -/
structure TensorInfo where
  elemType : ElemType
  dims : List Int
  deriving DecidableEq, Repr

/-! ## Connectivity -/

structure GraphConnectivity where
  nodeInfos : List Node
  producerMap : String → Option Node
  consumerMap : String → List Node
  graphOutputValues : List String

/-- `BuildGraphConnectivity`. A value without a name is in no map. A node is a consumer once for
each listed slot that reads the value. -/
def buildGraphConnectivity (g : Graph) : GraphConnectivity where
  nodeInfos := g.nodes
  producerMap v := if v = "" then none else g.producer v
  consumerMap v :=
    if v = "" then []
    else g.nodes.flatMap fun n => List.replicate ((getNodeInputNames n).count v) n
  graphOutputValues := g.outputs.filter fun v => v != ""

/-- `GraphConnectivity::HasSingleConsumer`. -/
def GraphConnectivity.hasSingleConsumer (gc : GraphConnectivity) (v : String) : Bool :=
  !gc.graphOutputValues.contains v && (gc.consumerMap v).length == 1

section

variable {g : Graph} {v : String} {n p : Node}

theorem mem_consumerMap :
    n ∈ (buildGraphConnectivity g).consumerMap v ↔
      v ≠ "" ∧ n ∈ g.nodes ∧ v ∈ getNodeInputNames n := by
  show n ∈ (if v = "" then [] else _) ↔ _
  split
  · next hv => simp [hv]
  · next hv =>
    simp only [List.mem_flatMap, List.mem_replicate, ne_eq, hv, not_false_eq_true, true_and]
    constructor
    · rintro ⟨m, hm, hcount, rfl⟩
      exact ⟨hm, List.count_pos_iff.1 (Nat.pos_of_ne_zero hcount)⟩
    · rintro ⟨hn, hmem⟩
      exact ⟨n, hn, Nat.ne_of_gt (List.count_pos_iff.2 hmem), rfl⟩

/-- A name that is not empty is the one of a slot that is filled. -/
theorem mem_map_getD (hv : v ≠ "") {slots : List (Option String)} :
    v ∈ slots.map (fun slot => slot.getD "") ↔ some v ∈ slots := by
  rw [List.mem_map]
  constructor
  · rintro ⟨slot, hslot, rfl⟩
    cases slot with
    | none => exact absurd rfl hv
    | some w => exact hslot
  · intro h
    exact ⟨some v, h, rfl⟩

theorem mem_getNodeInputNames (hv : v ≠ "") : v ∈ getNodeInputNames n ↔ some v ∈ n.inputs :=
  mem_map_getD hv

theorem mem_getNodeOutputNames (hv : v ≠ "") : v ∈ getNodeOutputNames n ↔ v ∈ n.outputNames := by
  rw [Node.mem_outputNames]
  exact mem_map_getD hv

theorem ne_empty_of_output (hp : p ∈ g.nodes) (hv : v ∈ p.outputNames) : v ≠ "" := by
  rintro rfl
  exact g.outputs_named (List.mem_flatMap.2 ⟨p, hp, hv⟩)

theorem producerMap_eq_some :
    (buildGraphConnectivity g).producerMap v = some p ↔ p ∈ g.nodes ∧ v ∈ p.outputNames := by
  show (if v = "" then none else g.producer v) = some p ↔ _
  constructor
  · intro h
    split at h
    · cases h
    · exact ⟨List.mem_of_find?_eq_some h, by simpa using List.find?_some h⟩
  · rintro ⟨hp, hv⟩
    rw [if_neg (ne_empty_of_output hp hv)]
    have hsome : (g.producer v).isSome :=
      Graph.producer_isSome.2 (List.mem_flatMap.2 ⟨p, hp, hv⟩)
    obtain ⟨d, hd⟩ := Option.isSome_iff_exists.1 hsome
    rw [hd, g.producer_unique (List.mem_of_find?_eq_some hd) hp
      (by simpa using List.find?_some hd) hv]

theorem mem_nodes_of_producer (h : (buildGraphConnectivity g).producerMap v = some p) :
    p ∈ g.nodes :=
  (producerMap_eq_some.1 h).1

theorem mem_outputNames_of_producer (h : (buildGraphConnectivity g).producerMap v = some p) :
    v ∈ p.outputNames :=
  (producerMap_eq_some.1 h).2

/-- A listed consumer depends on the node that writes the value. -/
theorem dep_of_consumer (hp : p ∈ g.nodes) (hv : v ∈ getNodeOutputNames p)
    (hn : n ∈ (buildGraphConnectivity g).consumerMap v) : g.Dep p n := by
  obtain ⟨hne, hmem, hin⟩ := mem_consumerMap.1 hn
  refine ⟨hp, hmem, v, (mem_getNodeOutputNames hne).1 hv, ?_⟩
  exact Node.uses_pos.2 (Or.inl ((mem_getNodeInputNames hne).1 hin))

/-- A dependency is a listed consumer of an output, or a capture of it. -/
theorem dep_cases (h : g.Dep p n) :
    (∃ v ∈ getNodeOutputNames p, n ∈ (buildGraphConnectivity g).consumerMap v) ∨
      ∃ v ∈ p.outputNames, v ∈ n.implicitInputs := by
  obtain ⟨hp, hn, v, hv, huses⟩ := h
  have hne := ne_empty_of_output hp hv
  rcases Node.uses_pos.1 huses with hin | hcap
  · exact Or.inl ⟨v, (mem_getNodeOutputNames hne).2 hv,
      mem_consumerMap.2 ⟨hne, hn, (mem_getNodeInputNames hne).2 hin⟩⟩
  · exact Or.inr ⟨v, hv, hcap⟩

end

end AmdGpuEp.DirectML
