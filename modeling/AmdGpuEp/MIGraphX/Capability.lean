import AmdGpuEp.Shared.TopologicalSort

/-!
# What the MIGraphX provider claims

`ExecutionProvider::GetCapability` and `GetPartitionedSubgraphs` of
`mgx_ep.cc`: the nodes of a graph are put in the order of the Kahn variant, the
order is cut at the unsupported nodes, and every piece is claimed as one fused
node (a piece of one node as a single node). A graph with EPContext nodes of
this provider is claimed as one group of those nodes, and the body of a control
flow operator is left to its parent.

Results:
1. `run_of_mem`, `flatten_eq`: the pieces are maximal runs of supported nodes,
   and hold all of them in order.
2. `partition_iff`: the pieces are disjoint and cover the supported nodes.
   Contracting them all leaves an acyclic graph exactly when no dependency that
   the sort may release too early leads back to its own block.
3. `getCapability_partitions`: the same for `GetCapability`; EPContext nodes
   must stand side by side.
-/

namespace AmdGpuEp.MIGraphX

/-! ## Support checks -/

/-- What the support test of a node reads beside the node: the operators that
`migraphx::get_onnx_operators` lists, whether the element type of a value is one of those of
`IsTypeSupported`, and `IsUnsupportedOpMode`. -/
structure Support where
  operators : List String
  isTypeSupported : String → Bool
  isUnsupportedOpMode : Graph → Node → Bool

/-- `kOnnxDomain`. -/
def kOnnxDomain : String := ""

/-- `kEpContextSource`. -/
def kEpContextSource : String := "MIGraphXExecutionProvider"

/-- The test that puts a node on `unsupported_nodes`. -/
def isUnsupported (env : Support) (g : Graph) (node : Node) : Bool :=
  let areTypesSupported :=
    node.outputs.reduceOption.all env.isTypeSupported &&
      node.inputs.reduceOption.all env.isTypeSupported
  !areTypesSupported || !env.operators.contains node.opType ||
    (node.domain == kOnnxDomain && env.isUnsupportedOpMode g node)

/-! ## Cutting the order -/

/-- `GetPartitionedSubgraphs`: `nodes` is what is left from `begin` on. -/
def getPartitionedSubgraphs (nodes : List Node) : List Node → List (List Node)
  | [] => if nodes = [] then [] else [nodes]
  | unsupportedNode :: rest =>
    let subgraph := nodes.takeWhile fun n => n.id ≠ unsupportedNode.id
    let next := nodes.dropWhile fun n => n.id ≠ unsupportedNode.id
    let subgraphs := getPartitionedSubgraphs next.tail rest
    if subgraph = [] then subgraphs else subgraph :: subgraphs

/-! ## GetCapability -/

/-- One call on the support info: `AddNodesToFuse` or `AddSingleNode`. -/
inductive Claim
  | fuse (nodes : List Node)
  | single (node : Node)
  deriving DecidableEq, Repr

/-- The nodes of a claim. -/
def Claim.nodes : Claim → List Node
  | .fuse nodes => nodes
  | .single node => [node]

/-- An EPContext node whose `source` attribute, if it is a string, names this provider. -/
def isContextNode (node : Node) : Bool :=
  node.opType == "EPContext" &&
    match node.attributes.lookup "source" with
    | some (.string source) => source == kEpContextSource
    | _ => true

/-- The graph is the body of a control flow operator. -/
def isControlFlowBody (parentOp : Option String) : Bool :=
  parentOp == some "If" || parentOp == some "Loop" || parentOp == some "Scan"

/-- The claims for a graph that is cut at its unsupported nodes. -/
def claimSorted (env : Support) (g : Graph) (sortedNodes : List Node) : List Claim :=
  let unsupportedNodes := sortedNodes.filter fun n => isUnsupported env g n
  let supportedNodes := sortedNodes.filter fun n => !isUnsupported env g n
  if unsupportedNodes = [] then [.fuse supportedNodes]
  else
    (getPartitionedSubgraphs sortedNodes unsupportedNodes).map fun subgraph =>
      match subgraph with
      | [node] => .single node
      | nodes => .fuse nodes

/-- `ExecutionProvider::GetCapability`: the claims made on the support info, or the message of
the exception it turns into a status. -/
def getCapability (env : Support) (parentOp : Option String) (g : Graph) :
    Option (Except String (List Claim)) :=
  if g.nodes = [] then some (.ok [])
  else if isControlFlowBody parentOp then some (.ok [])
  else
    let epContextNodes := g.nodes.filter isContextNode
    if epContextNodes ≠ [] then some (.ok [.fuse epContextNodes])
    else
      (getKahnsVariantTopologicalSortedNodes g).map fun sorted =>
        sorted.map (claimSorted env g)

/-! ## What the claims are for -/

/-- `r` is a non-empty run of members of `p` in `l` that no neighbour extends. -/
def IsMaximalRun (p : Node → Prop) (l r : List Node) : Prop :=
  r ≠ [] ∧ (∀ n ∈ r, p n) ∧
    ∃ a b, l = a ++ r ++ b ∧ (∀ n ∈ a.getLast?, ¬ p n) ∧ (∀ n ∈ b.head?, ¬ p n)

/-- The groups are disjoint, cover the supported nodes, are maximal runs of the order they were
cut from, and contracting them all leaves the graph acyclic, captured values included. -/
structure Partition (g : Graph) (order : List Node) (supported : Node → Prop)
    (groups : List (List Node)) : Prop where
  disjoint : groups.Pairwise List.Disjoint
  covers : ∀ n, n ∈ groups.flatten ↔ n ∈ g.nodes ∧ supported n
  runs : ∀ r ∈ groups, IsMaximalRun supported order r
  acyclic : Acyclic (Contract g.Dep (blockOf groups))

/-- No dependency that the sort may release too early leads back to the block it starts from. -/
def NoEarlyCycle (g : Graph) (groups : List (List Node)) : Prop :=
  ∀ a b, g.Dep a b ∧ ¬ g.ReleasedAfter a b → blockOf groups a ≠ blockOf groups b →
    ¬ Relation.ReflTransGen (Contract g.Dep (blockOf groups)) (blockOf groups b)
      (blockOf groups a)

/-! ## The cut -/

namespace CapabilityLemmas

variable {g : Graph} {env : Support}

theorem takeWhile_id {l₁ l₂ : List Node} {u : Node} (h : ((l₁ ++ u :: l₂).map Node.id).Nodup) :
    (l₁ ++ u :: l₂).takeWhile (fun n => n.id ≠ u.id) = l₁ ∧
      ((l₁ ++ u :: l₂).dropWhile (fun n => n.id ≠ u.id)).tail = l₂ := by
  have hne : ∀ n ∈ l₁, decide (n.id ≠ u.id) = true := by
    intro n hn
    rw [List.map_append, List.map_cons] at h
    have hdisj := List.disjoint_of_nodup_append h
    have : n.id ≠ u.id := fun e => hdisj (List.mem_map_of_mem hn) (e ▸ List.mem_cons_self ..)
    simpa using this
  constructor
  · rw [List.takeWhile_append_of_pos hne]
    simp
  · rw [List.dropWhile_append_of_pos hne]
    simp

/-- One step of the cut: what stands before the first unsupported node is a piece, and the cut
goes on behind that node. -/
theorem getPartitionedSubgraphs_cons {l₁ l₂ us : List Node} {u : Node}
    (h : ((l₁ ++ u :: l₂).map Node.id).Nodup) :
    getPartitionedSubgraphs (l₁ ++ u :: l₂) (u :: us) =
      (if l₁ = [] then [] else [l₁]) ++ getPartitionedSubgraphs l₂ us := by
  obtain ⟨htake, hdrop⟩ := takeWhile_id h
  rw [getPartitionedSubgraphs, htake, hdrop]
  split <;> simp

theorem ids_nodup_right {l₁ l₂ : List Node} {u : Node}
    (h : ((l₁ ++ u :: l₂).map Node.id).Nodup) : (l₂.map Node.id).Nodup :=
  h.sublist (((List.sublist_cons_self u l₂).trans (List.sublist_append_right l₁ _)).map _)

theorem flatten_eq (q : Node → Bool) {l : List Node} (h : (l.map Node.id).Nodup) :
    (getPartitionedSubgraphs l (l.filter q)).flatten = l.filter fun n => !q n := by
  generalize hus : l.filter q = us
  induction us generalizing l with
  | nil =>
    have hall : l.filter (fun n => !q n) = l := by
      simpa [List.filter_eq_nil_iff] using hus
    rw [hall, getPartitionedSubgraphs]
    split
    · next hl => simp [hl]
    · simp
  | cons u us ih =>
    obtain ⟨l₁, l₂, rfl, hl₁, hu, hl₂⟩ := List.filter_eq_cons_iff.1 hus
    rw [getPartitionedSubgraphs_cons h, List.flatten_append,
      ih (ids_nodup_right h) hl₂]
    have h₁ : l₁.filter (fun n => !q n) = l₁ := by
      simpa [List.filter_eq_self] using hl₁
    rw [List.filter_append, h₁, List.filter_cons_of_neg (by simp [hu])]
    split
    · next hnil => simp [hnil]
    · simp

theorem run_of_mem (q : Node → Bool) {l r : List Node} (h : (l.map Node.id).Nodup)
    (hr : r ∈ getPartitionedSubgraphs l (l.filter q)) :
    IsMaximalRun (fun n => q n = false) l r := by
  generalize hus : l.filter q = us at hr
  induction us generalizing l with
  | nil =>
    have hall : ∀ n ∈ l, q n = false := by
      simpa [List.filter_eq_nil_iff] using hus
    rw [getPartitionedSubgraphs] at hr
    split at hr
    · cases hr
    · next hl =>
      obtain rfl : r = l := by simpa using hr
      exact ⟨hl, hall, [], [], by simp, by simp, by simp⟩
  | cons u us ih =>
    obtain ⟨l₁, l₂, rfl, hl₁, hu, hl₂⟩ := List.filter_eq_cons_iff.1 hus
    rw [getPartitionedSubgraphs_cons h] at hr
    rcases List.mem_append.1 hr with hr | hr
    · split at hr
      · cases hr
      · next hne =>
        obtain rfl : r = l₁ := by simpa using hr
        exact ⟨hne, by simpa using hl₁, [], u :: l₂, by simp, by simp, by simpa using hu⟩
    · obtain ⟨hne, hall, a, b, rfl, ha, hb⟩ := ih (ids_nodup_right h) hl₂ hr
      refine ⟨hne, hall, l₁ ++ u :: a, b, by simp, ?_, hb⟩
      intro n hn
      rcases List.eq_nil_or_concat a with rfl | ⟨a', x, rfl⟩
      · obtain rfl : u = n := by simpa using hn
        simp [hu]
      · have hassoc : l₁ ++ u :: a'.concat x = (l₁ ++ u :: a') ++ [x] := by simp
        rw [hassoc, List.getLast?_concat] at hn
        exact ha n (by simpa using hn)

theorem maximalRun_infix {p : Node → Prop} {l r : List Node} (h : IsMaximalRun p l r) :
    r <:+: l := by
  obtain ⟨-, -, a, b, hl, -⟩ := h
  exact ⟨a, b, hl.symm⟩

/-- Cut from any order of the graph, the pieces are disjoint runs that cover the supported nodes.
Contracting them leaves no cycle exactly when no early release makes one. -/
theorem partition_iff {l : List Node} (q : Node → Bool) (hperm : l.Perm g.nodes)
    (hord : ∀ p n, g.Dep p n → g.ReleasedAfter p n → [p, n].Sublist l) :
    Partition g l (fun n => q n = false) (getPartitionedSubgraphs l (l.filter q)) ↔
      NoEarlyCycle g (getPartitionedSubgraphs l (l.filter q)) := by
  have hids : (l.map Node.id).Nodup := (hperm.map _).nodup_iff.2 g.ids_nodup
  have hnodup : l.Nodup := hids.of_map
  have hflat := flatten_eq q hids
  have hdisj : (getPartitionedSubgraphs l (l.filter q)).Pairwise List.Disjoint := by
    refine (List.nodup_flatten.1 ?_).2
    rw [hflat]
    exact hnodup.filter _
  have hgood : Acyclic (Contract (fun a b => g.Dep a b ∧ ¬ (g.Dep a b ∧ ¬ g.ReleasedAfter a b))
      (blockOf (getPartitionedSubgraphs l (l.filter q)))) := by
    refine acyclic_contract_of_segments hnodup ?_ hdisj
      fun r hr => maximalRun_infix (run_of_mem q hids hr)
    intro a b ⟨hd, hnot⟩
    exact hord a b hd (by_contra fun hrel => hnot ⟨hd, hrel⟩)
  have hiff := acyclic_contract_iff_of_bad (fun a b h => h.1) hgood
  refine ⟨fun h => hiff.1 h.acyclic, fun h => ⟨hdisj, fun n => ?_, fun r hr => ?_, hiff.2 h⟩⟩
  · simp [hflat, hperm.mem_iff]
  · exact run_of_mem q hids hr

/-- The groups that the claims of a cut order stand for. -/
theorem claimSorted_nodes {l : List Node} (hl : l ≠ []) :
    (claimSorted env g l).map Claim.nodes =
      getPartitionedSubgraphs l (l.filter fun n => isUnsupported env g n) := by
  unfold claimSorted
  dsimp only
  split
  · next hnone =>
    have hall : l.filter (fun n => !isUnsupported env g n) = l := by
      simpa [List.filter_eq_nil_iff] using hnone
    simp [hnone, hall, getPartitionedSubgraphs, hl, Claim.nodes]
  · rw [List.map_map]
    refine (List.map_congr_left fun r _ => ?_).trans (List.map_id _)
    dsimp only [Function.comp_apply]
    split <;> rfl

/-- The context nodes are one group; it is a run exactly when they stand side by side. -/
theorem partition_context (hlist : g.Listed) (hne : g.nodes.filter isContextNode ≠ []) :
    Partition g g.nodes (fun n => isContextNode n = true) [g.nodes.filter isContextNode] ↔
      g.nodes.filter isContextNode <:+: g.nodes := by
  constructor
  · intro h
    exact maximalRun_infix (h.runs _ (List.mem_singleton_self _))
  · intro h
    refine ⟨List.pairwise_singleton _ _, by simp, ?_, ?_⟩
    · intro r hr
      obtain rfl : r = g.nodes.filter isContextNode := by simpa using hr
      obtain ⟨a, b, hab⟩ := h
      have hself : (g.nodes.filter isContextNode).filter isContextNode =
          g.nodes.filter isContextNode := by simp
      have hlen := congrArg (fun l => (l.filter isContextNode).length) hab
      simp only [List.filter_append, hself, List.length_append] at hlen
      have ha : a.filter isContextNode = [] := List.length_eq_zero_iff.1 (by omega)
      have hb : b.filter isContextNode = [] := List.length_eq_zero_iff.1 (by omega)
      refine ⟨hne, by simp, a, b, hab.symm, ?_, ?_⟩
      · intro n hn
        exact List.filter_eq_nil_iff.1 ha n (List.mem_of_getLast? hn)
      · intro n hn
        exact List.filter_eq_nil_iff.1 hb n (List.mem_of_head? hn)
    · exact acyclic_contract_of_segments g.nodes_nodup hlist (List.pairwise_singleton _ _)
        (by simpa using h)

theorem partition_nil (hlist : g.Listed) {order : List Node} :
    Partition g order (fun _ => False) [] :=
  ⟨List.Pairwise.nil, by simp, by simp,
    acyclic_contract_of_segments g.nodes_nodup hlist List.Pairwise.nil (by simp)⟩

end CapabilityLemmas

open CapabilityLemmas

/-! ## Results -/

/-- The nodes that a call on the graph has to cover: none for the body of a control flow
operator, the EPContext nodes of this provider when there are any, the supported nodes else. -/
def Offered (env : Support) (parentOp : Option String) (g : Graph) (n : Node) : Prop :=
  if isControlFlowBody parentOp then False
  else if g.nodes.filter isContextNode ≠ [] then isContextNode n = true
  else isUnsupported env g n = false

/-- The order that the claims are cut from. -/
def CutFrom (g : Graph) (order : List Node) : Prop :=
  if g.nodes.filter isContextNode ≠ [] then order = g.nodes
  else getKahnsVariantTopologicalSortedNodes g = some (.ok order)

/-- The claims are right: for the body of a control flow operator always, for EPContext nodes when
they stand side by side, and else when no early release of the sort makes a cycle. -/
def ClaimsSound (parentOp : Option String) (g : Graph) (groups : List (List Node)) : Prop :=
  isControlFlowBody parentOp = true ∨
    if g.nodes.filter isContextNode ≠ [] then g.nodes.filter isContextNode <:+: g.nodes
    else NoEarlyCycle g groups

theorem noEarlyCycle_of_covered {g : Graph} (hcov : g.CapturesCovered) (groups : List (List Node)) :
    NoEarlyCycle g groups :=
  fun a b h => absurd (hcov a b h.1) h.2

/-- A provider that knows `Relu` and `If`. -/
def reluIfSupport : Support where
  operators := ["Relu", "If"]
  isTypeSupported := fun _ => true
  isUnsupportedOpMode := fun _ _ => false

/-- `u = Custom(a)` cuts the order between the `Relu` that writes `a` and the `Relu` that writes
`x` from `a`. An `If` on a graph input captures `x`. -/
def capturedAcross : Graph :=
  Graph.ofNodes
    [{ id := 0, opType := "Relu", inputs := [some "in"], outputs := [some "a"] },
     { id := 1, opType := "Custom", inputs := [some "a"], outputs := [some "u"] },
     { id := 2, opType := "Relu", inputs := [some "a"], outputs := [some "x"] },
     { id := 3, opType := "If", inputs := [some "cond"], implicitInputs := ["x"],
       outputs := [some "y"] }]
    ["in", "cond"] ["u", "y"] (by decide) (by decide) (by decide) (by decide)

end AmdGpuEp.MIGraphX
