import AmdGpuEp.Lib.Digraph
import Mathlib.Data.List.Nodup
import Mathlib.Data.List.Count
import Mathlib.Data.List.ReduceOption
import Mathlib.Data.List.Pairwise
import Mathlib.Algebra.Order.BigOperators.Group.List
import Mathlib.Algebra.Order.Ring.Nat
import Mathlib.Data.List.Flatten

/-!
# The ORT graph an execution provider is given

The read-only view of a model graph that `GetCapability` and `Compile` walk:
`Ort::ConstGraph`, `Ort::ConstNode` and the producer and consumer queries of
`Ort::ConstValueInfo`. What the ORT API promises about such a view (distinct
node ids, one producer per value, names for outputs that exist, consumers
listed slot by slot) is carried by
the `Graph` structure.

Results:
1. `Graph.producer_unique`: a value is written by one node.
2. `Graph.Listed.no_dep_back`: in a listing that is sorted, no node depends on a
   later one.
-/

namespace AmdGpuEp

/-! ## Nodes -/

/-- The value of an operator attribute. Floats are kept as their bits. A subgraph attribute
carries the serialized body: the passes below see a body only through the values its node
captures. -/
inductive AttrValue
  | int (v : Int)
  | float (bits : UInt32)
  | string (v : String)
  | ints (v : List Int)
  | floats (bits : List UInt32)
  | strings (v : List String)
  | tensor (dtype : Nat) (dims : List Nat) (data : List UInt8)
  | graph (body : List UInt8)
  deriving DecidableEq, Repr

/-- `Ort::ConstNode`. A missing optional input or output is `none` (a null `OrtValueInfo`), and
`implicitInputs` are the outer-scope values that the bodies of the node capture. -/
structure Node where
  id : Nat
  name : String := ""
  opType : String
  domain : String := ""
  sinceVersion : Nat := 1
  inputs : List (Option String)
  implicitInputs : List String := []
  outputs : List (Option String)
  attributes : List (String × AttrValue) := []
  deriving DecidableEq, Repr

namespace Node

/-- The names of the outputs that exist. -/
def outputNames (n : Node) : List String :=
  n.outputs.reduceOption

/-- The number of input slots of `n`, explicit and captured, that read the value `v`. -/
def uses (n : Node) (v : String) : Nat :=
  n.inputs.count (some v) + n.implicitInputs.count v

/-- The number of input slots of a node, explicit and captured. -/
def slots (n : Node) : Nat :=
  n.inputs.length + n.implicitInputs.length

/-- The number of input slots of `n` that read an output of a node of `l`. -/
def fedBy (n : Node) (l : List Node) : Nat :=
  ((l.flatMap outputNames).map n.uses).sum

theorem mem_outputNames {n : Node} {v : String} : v ∈ n.outputNames ↔ some v ∈ n.outputs := by
  simp [outputNames, List.reduceOption_mem_iff]

theorem uses_pos {n : Node} {v : String} :
    0 < n.uses v ↔ some v ∈ n.inputs ∨ v ∈ n.implicitInputs := by
  simp [uses, List.count_pos_iff]

theorem fedBy_append (n : Node) (l l' : List Node) :
    n.fedBy (l ++ l') = n.fedBy l + n.fedBy l' := by
  simp [fedBy]

theorem fedBy_perm {n : Node} {l l' : List Node} (h : l.Perm l') : n.fedBy l = n.fedBy l' :=
  ((h.flatMap_right _).map _).sum_eq

theorem sum_map_beq {α : Type*} [BEq α] [LawfulBEq α] (x : α) (vs : List α) :
    (vs.map fun v => if x == v then 1 else 0).sum = vs.count x := by
  induction vs with
  | nil => rfl
  | cons v vs ih =>
    have hxv : (x == v) = (v == x) := BEq.comm
    rw [List.map_cons, List.sum_cons, ih, List.count_cons, Nat.add_comm, hxv]

theorem sum_map_count {α : Type*} [BEq α] [LawfulBEq α] (xs : List α) {vs : List α}
    (h : vs.Nodup) : (vs.map fun v => xs.count v).sum = xs.countP (· ∈ vs) := by
  induction xs with
  | nil => simp
  | cons x xs ih =>
    simp only [List.count_cons, List.sum_map_add, ih, List.countP_cons, sum_map_beq,
      decide_eq_true_eq, h.count]

/-- The slots fed by `l`, counted from the side of the reading node. -/
theorem fedBy_eq_countP {n : Node} {l : List Node} (h : (l.flatMap outputNames).Nodup) :
    n.fedBy l =
      n.inputs.countP (· ∈ (l.flatMap outputNames).map some) +
        n.implicitInputs.countP (· ∈ l.flatMap outputNames) := by
  have hs : ((l.flatMap outputNames).map some).Nodup :=
    h.map (Option.some_injective _)
  rw [← sum_map_count n.inputs hs, ← sum_map_count n.implicitInputs h]
  rw [List.map_map, ← List.sum_map_add]
  rfl

theorem fedBy_le_slots {n : Node} {l : List Node} (h : (l.flatMap outputNames).Nodup) :
    n.fedBy l ≤ n.slots := by
  rw [fedBy_eq_countP h]
  exact Nat.add_le_add List.countP_le_length List.countP_le_length

theorem fedBy_le_of_subset {n : Node} {l l' : List Node} (hl : l.Nodup) (hsub : l ⊆ l') :
    n.fedBy l ≤ n.fedBy l' := by
  obtain ⟨k, hk, hkl⟩ := List.subperm_of_subset hl hsub
  rw [← fedBy_perm hk]
  exact ((hkl.flatMap _).map _).sum_le_sum (by simp)

theorem fedBy_eq_zero {n : Node} {l : List Node}
    (h : ∀ p ∈ l, ∀ v ∈ p.outputNames, n.uses v = 0) : n.fedBy l = 0 := by
  refine List.sum_eq_zero fun k hk => ?_
  obtain ⟨v, hv, rfl⟩ := List.mem_map.1 hk
  obtain ⟨p, hp, hvp⟩ := List.mem_flatMap.1 hv
  exact h p hp v hvp

end Node

/-! ## Graphs -/

/-- `Ort::ConstGraph`. `nodes` is the `GetNodes` listing. `consumers v` lists the node of every
`ConsumerInfo` of `v`: one entry for each input slot, explicit or captured, that reads `v`. Its
order is not fixed by the API (ORT keeps the consumers of a value in an unordered set). The
slots of a node are counted by a `size_t`. -/
structure Graph where
  nodes : List Node
  inputs : List String := []
  outputs : List String := []
  consumers : String → List Node
  ids_nodup : (nodes.map Node.id).Nodup
  outputs_nodup : (nodes.flatMap Node.outputNames).Nodup
  outputs_named : "" ∉ nodes.flatMap Node.outputNames
  consumers_mem : ∀ v, ∀ n ∈ consumers v, n ∈ nodes
  consumers_count : ∀ v, ∀ n ∈ nodes, (consumers v).count n = n.uses v
  slots_lt : ∀ n ∈ nodes, n.slots < 2 ^ 64

/-- The consumers of `v` in the order of `nodes`. -/
def consumersOf (nodes : List Node) (v : String) : List Node :=
  nodes.flatMap fun n => List.replicate (n.uses v) n

namespace Graph

/-- `ValueInfo::GetProducerNode`: the node of the graph that writes `v`, if there is one. -/
def producer (g : Graph) (v : String) : Option Node :=
  g.nodes.find? fun n => decide (v ∈ n.outputNames)

/-- The values written by the nodes of the graph. -/
def written (g : Graph) : List String :=
  g.nodes.flatMap Node.outputNames

/-- `n` reads a value that `p` writes, as a listed input or through a captured value. -/
def Dep (g : Graph) (p n : Node) : Prop :=
  p ∈ g.nodes ∧ n ∈ g.nodes ∧ ∃ v ∈ p.outputNames, 0 < n.uses v

/-- The order `GetNodes` promises: every node stands behind the producers of all it reads. -/
def Listed (g : Graph) : Prop :=
  ∀ p n, g.Dep p n → [p, n].Sublist g.nodes

instance (g : Graph) (p n : Node) : Decidable (g.Dep p n) :=
  inferInstanceAs (Decidable (_ ∧ _ ∧ ∃ v ∈ p.outputNames, 0 < n.uses v))

/-- What holds along every dependency can be tested on the nodes of the graph. -/
theorem forall_dep_iff (g : Graph) (P : Node → Node → Prop) :
    (∀ p n, g.Dep p n → P p n) ↔ ∀ p ∈ g.nodes, ∀ n ∈ g.nodes, g.Dep p n → P p n :=
  ⟨fun h p _ n _ hd => h p n hd, fun h p n hd => h p hd.1 n hd.2.1 hd⟩

instance (g : Graph) : Decidable g.Listed :=
  decidable_of_iff _ (g.forall_dep_iff fun p n => [p, n].Sublist g.nodes).symm

variable {g : Graph}

theorem nodes_nodup (g : Graph) : g.nodes.Nodup :=
  List.Nodup.of_map _ g.ids_nodup

theorem id_inj {a b : Node} (ha : a ∈ g.nodes) (hb : b ∈ g.nodes) (h : a.id = b.id) : a = b :=
  List.inj_on_of_nodup_map g.ids_nodup ha hb h

theorem producer_isSome {v : String} : (g.producer v).isSome ↔ v ∈ g.written := by
  simp [producer, written]

theorem outputNames_disjoint {a b : Node} (ha : a ∈ g.nodes) (hb : b ∈ g.nodes) (hne : a ≠ b) :
    a.outputNames.Disjoint b.outputNames := by
  have hsymm : Std.Symm (Function.onFun List.Disjoint Node.outputNames) :=
    ⟨fun _ _ h => List.Disjoint.symm h⟩
  exact (List.nodup_flatMap.1 g.outputs_nodup).2.forall ha hb hne

/-- One value has one producer. -/
theorem producer_unique {a b : Node} {v : String} (ha : a ∈ g.nodes) (hb : b ∈ g.nodes)
    (hva : v ∈ a.outputNames) (hvb : v ∈ b.outputNames) : a = b := by
  by_contra hne
  exact outputNames_disjoint ha hb hne hva hvb

theorem written_nodup {l : List Node} (hl : l.Nodup) (hsub : l ⊆ g.nodes) :
    (l.flatMap Node.outputNames).Nodup := by
  refine List.nodup_flatMap.2 ⟨fun n h => ?_, ?_⟩
  · exact (List.nodup_flatMap.1 g.outputs_nodup).1 n (hsub h)
  · exact hl.imp_of_mem fun ha hb hne => outputNames_disjoint (hsub ha) (hsub hb) hne

/-- In a listing in topological order, a node has no successor among the nodes up to it. -/
theorem Listed.no_dep_back (hlist : g.Listed) {before after : List Node} {node : Node}
    (heq : g.nodes = before ++ node :: after) : ∀ b ∈ before ++ [node], ¬ g.Dep node b := by
  intro b hb hd
  have hnodup : (before ++ node :: after).Nodup := heq ▸ g.nodes_nodup
  have hlt := idxOf_lt_of_sublist g.nodes_nodup (hlist node b hd)
  have hnot : node ∉ before := fun hmem =>
    (List.nodup_append.1 hnodup).2.2 node hmem node (List.mem_cons_self ..) rfl
  rw [heq, List.idxOf_append_of_notMem hnot, List.idxOf_cons_self] at hlt
  rcases List.mem_append.1 hb with hb | hb
  · rw [List.idxOf_append_of_mem hb] at hlt
    have := List.idxOf_lt_length_iff.2 hb
    omega
  · obtain rfl := List.mem_singleton.1 hb
    exact absurd hlt (by simp [List.idxOf_append_of_notMem hnot])

theorem acyclic_of_ids (h : ∀ p ∈ g.nodes, ∀ n ∈ g.nodes,
    (∃ v ∈ p.outputNames, 0 < n.uses v) → p.id < n.id) : Acyclic g.Dep :=
  acyclic_of_rank Node.id fun p n hd => h p hd.1 n hd.2.1 hd.2.2

theorem count_flatMap_replicate {α : Type*} [DecidableEq α] (k : α → Nat) {xs : List α}
    (hxs : xs.Nodup) {x : α} (hx : x ∈ xs) :
    (xs.flatMap fun y => List.replicate (k y) y).count x = k x := by
  rw [List.count_flatMap, List.sum_map_eq_nsmul_single x]
  · simp [hxs.count, hx]
  · intro y hne _
    simp [List.count_replicate, hne]

theorem count_consumersOf {nodes : List Node} (h : nodes.Nodup) {n : Node} (hn : n ∈ nodes)
    (v : String) : (consumersOf nodes v).count n = n.uses v :=
  count_flatMap_replicate (fun m : Node => m.uses v) h hn

/-- The graph whose consumer lists follow the order of its nodes. -/
def ofNodes (nodes : List Node) (inputs outputs : List String)
    (ids_nodup : (nodes.map Node.id).Nodup)
    (outputs_nodup : (nodes.flatMap Node.outputNames).Nodup)
    (outputs_named : "" ∉ nodes.flatMap Node.outputNames)
    (slots_lt : ∀ n ∈ nodes, n.slots < 2 ^ 64) : Graph where
  nodes := nodes
  inputs := inputs
  outputs := outputs
  consumers := consumersOf nodes
  ids_nodup := ids_nodup
  outputs_nodup := outputs_nodup
  outputs_named := outputs_named
  consumers_mem := by
    intro v n hn
    obtain ⟨m, hm, hmn⟩ := List.mem_flatMap.1 hn
    rwa [List.eq_of_mem_replicate hmn]
  consumers_count := fun v _ hn => count_consumersOf (List.Nodup.of_map _ ids_nodup) hn v
  slots_lt := slots_lt

end Graph

end AmdGpuEp
