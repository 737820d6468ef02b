import AmdGpuEp.Ort.Graph

/-!
# The Kahn variant that orders a graph for MIGraphX

`GetKahnsVariantTopologicalSortedNodes` of `plugin_ep_utils.cc`. The in-degree
of a node is counted from its listed inputs (`GetNodeInputEdgeCount`), and it is
decremented once for every consumer entry of every output that is processed,
captured values included. The two sides agree only when a node captures nothing
that the graph itself writes.

Results:
1. `kahn_terminates`: on every graph the worklist runs empty, no node is
   processed twice, and the 64-bit counters never wrap far enough to matter.
2. `kahn_complete`: on an acyclic graph all nodes are processed, whatever they
   capture, so the sort raises no error.
3. `kahn_sorted`: when no node can be released before the producers of what it
   captures (`CapturesCovered`), the result is a topological order, and an error
   means a cycle.
4. `not_sortsGraph_of_ready`: a node without counted inputs that captures a value
   of a node with counted inputs is always emitted too early.
-/

namespace AmdGpuEp

/-! ## The sort -/

/-- `GetNodeInputEdgeCount`: the listed inputs that a node of the graph writes. -/
def Graph.getNodeInputEdgeCount (g : Graph) (node : Node) : Nat :=
  node.inputs.countP fun input =>
    match input with
    | none => false
    | some v => (g.producer v).isSome

/-- The state of the worklist loop. `in_degree` is a map from node ids to `size_t`; every
consumer is a node of the graph, so its keys stay the ids of the graph. -/
structure KahnState where
  inDegree : Nat → UInt64
  nodesToProcess : List Node
  supportedGroup : List Node
  numNodesProcessed : Nat

namespace Kahn

/-- The counters and the worklist before the loop. -/
def init (g : Graph) : KahnState where
  inDegree := fun i =>
    match g.nodes.find? fun n => n.id = i with
    | none => 0
    | some n => UInt64.ofNat (g.getNodeInputEdgeCount n)
  nodesToProcess := g.nodes.filter fun n => g.getNodeInputEdgeCount n = 0
  supportedGroup := []
  numNodesProcessed := 0

/-- One consumer entry: `--in_degree[id]`, and the node is queued when that gives `0`. -/
def release (s : KahnState) (consumer : Node) : KahnState :=
  let degree := s.inDegree consumer.id - 1
  { s with
    inDegree := fun i => if i = consumer.id then degree else s.inDegree i
    nodesToProcess :=
      if degree = 0 then s.nodesToProcess ++ [consumer] else s.nodesToProcess }

/-- The two inner loops: every consumer entry of every output that exists. -/
def releaseOutputs (g : Graph) (s : KahnState) (node : Node) : KahnState :=
  node.outputs.foldl (fun s output =>
    match output with
    | none => s
    | some v => (g.consumers v).foldl release s) s

/-- One turn of the worklist loop on the node at the front of the queue. -/
def process (g : Graph) (s : KahnState) (node : Node) (rest : List Node) : KahnState :=
  let s' := releaseOutputs g
    { s with nodesToProcess := rest, supportedGroup := s.supportedGroup ++ [node] } node
  { s' with numNodesProcessed := s'.numNodesProcessed + 1 }

/-- `while (!nodes_to_process.empty())`, with a bound on the number of turns. -/
def loop (g : Graph) : Nat → KahnState → Option KahnState
  | 0, _ => none
  | fuel + 1, s =>
    match s.nodesToProcess with
    | [] => some s
    | node :: rest => loop g fuel (process g s node rest)

end Kahn

/-- `GetKahnsVariantTopologicalSortedNodes`. It takes no priority: ready nodes leave the queue in
the order they entered it. `none` would mean that the loop did not end. -/
def getKahnsVariantTopologicalSortedNodes (g : Graph) : Option (Except String (List Node)) :=
  (Kahn.loop g (g.nodes.length + 1) (Kahn.init g)).map fun s =>
    let processed := s.numNodesProcessed
    let expected := g.nodes.length
    if processed = expected then .ok s.supportedGroup
    else .error s!"Processed {processed} nodes. Expected to process {expected}"

/-! ## What the sort is for -/

/-- `l` lists the nodes of the graph once each, and every node after the producers of all it
reads, listed or captured. -/
def TopologicalOrder (g : Graph) (l : List Node) : Prop :=
  l.Perm g.nodes ∧ ∀ p n, g.Dep p n → [p, n].Sublist l

/-- A sort is right when it orders the graph, and fails exactly on a cycle. -/
def SortsGraph (g : Graph) : Option (Except String (List Node)) → Prop
  | none => False
  | some (.ok l) => Acyclic g.Dep ∧ TopologicalOrder g l
  | some (.error _) => ¬ Acyclic g.Dep

/-- The captured values of `n` that a node of the graph writes. -/
def Graph.capturedCount (g : Graph) (n : Node) : Nat :=
  n.implicitInputs.countP fun v => (g.producer v).isSome

/-- `n` cannot be released without `p`: either `n` has more slots fed by `p` than captured values
that the count leaves out, or `p` is queued before the loop starts and before `n`. -/
def Graph.ReleasedAfter (g : Graph) (p n : Node) : Prop :=
  g.capturedCount n < n.fedBy [p] ∨
    (g.getNodeInputEdgeCount p = 0 ∧
      (g.getNodeInputEdgeCount n ≠ 0 ∨ [p, n].Sublist g.nodes))

/-- The in-degrees that the sort counts hold every node back until its producers are queued. -/
def Graph.CapturesCovered (g : Graph) : Prop :=
  ∀ p n, g.Dep p n → g.ReleasedAfter p n

instance (g : Graph) (p n : Node) : Decidable (g.ReleasedAfter p n) :=
  inferInstanceAs (Decidable (_ ∨ _))

instance (g : Graph) : Decidable g.CapturesCovered :=
  decidable_of_iff _ (g.forall_dep_iff g.ReleasedAfter).symm

/-! ## Counting edges -/

namespace KahnLemmas

variable {g : Graph}

theorem edgeCount_eq (n : Node) :
    g.getNodeInputEdgeCount n = n.inputs.countP (· ∈ g.written.map some) := by
  refine List.countP_congr fun i _ => ?_
  cases i with
  | none => simp
  | some v => simp [Graph.producer_isSome]

theorem capturedCount_eq (n : Node) :
    g.capturedCount n = n.implicitInputs.countP (· ∈ g.written) := by
  refine List.countP_congr fun v _ => ?_
  simp [Graph.producer_isSome]

/-- All slots fed by the graph: the counted ones and the captured ones. -/
theorem fedBy_nodes (n : Node) :
    n.fedBy g.nodes = g.getNodeInputEdgeCount n + g.capturedCount n := by
  rw [Node.fedBy_eq_countP g.outputs_nodup, edgeCount_eq, capturedCount_eq]
  rfl

theorem edgeCount_lt {n : Node} (hn : n ∈ g.nodes) : g.getNodeInputEdgeCount n < 2 ^ 64 := by
  have h1 : g.getNodeInputEdgeCount n ≤ n.inputs.length := List.countP_le_length
  have h2 : n.slots < 2 ^ 64 := g.slots_lt n hn
  have h3 : n.slots = n.inputs.length + n.implicitInputs.length := rfl
  omega

/-- The entries that processing the nodes `l` releases. -/
def outputNodes (g : Graph) (l : List Node) : List Node :=
  (l.flatMap Node.outputNames).flatMap g.consumers

theorem count_outputNodes {n : Node} (hn : n ∈ g.nodes) (l : List Node) :
    (outputNodes g l).count n = n.fedBy l := by
  rw [outputNodes, Node.fedBy, List.count_flatMap]
  refine congrArg List.sum (List.map_congr_left fun v _ => ?_)
  exact g.consumers_count v n hn

theorem outputNodes_append (l l' : List Node) :
    outputNodes g (l ++ l') = outputNodes g l ++ outputNodes g l' := by
  simp [outputNodes]

theorem outputNodes_subset (l : List Node) : outputNodes g l ⊆ g.nodes := by
  intro n hn
  obtain ⟨v, -, hv⟩ := List.mem_flatMap.1 hn
  exact g.consumers_mem v n hv

/-- Processing distinct nodes releases a node at most as often as it has slots. -/
theorem count_outputNodes_lt {l : List Node} (hl : l.Nodup) (hsub : l ⊆ g.nodes) {n : Node}
    (hn : n ∈ g.nodes) : (outputNodes g l).count n < 2 ^ 64 := by
  rw [count_outputNodes hn]
  exact Nat.lt_of_le_of_lt (Node.fedBy_le_slots (Graph.written_nodup hl hsub)) (g.slots_lt n hn)

theorem releaseOutputs_eq (s : KahnState) (node : Node) :
    Kahn.releaseOutputs g s node = (outputNodes g [node]).foldl Kahn.release s := by
  have key : ∀ (outs : List (Option String)) (s : KahnState),
      outs.foldl (fun s output =>
        match output with
        | none => s
        | some v => (g.consumers v).foldl Kahn.release s) s =
      (outs.reduceOption.flatMap g.consumers).foldl Kahn.release s := by
    intro outs
    induction outs with
    | nil => intro s; rfl
    | cons o outs ih =>
      intro s
      cases o with
      | none => exact ih s
      | some v =>
        rw [List.foldl_cons, ih, List.reduceOption_cons_of_some, List.flatMap_cons,
          List.foldl_append]
  rw [Kahn.releaseOutputs, key]
  simp [outputNodes, Node.outputNames]

/-! ## The invariant of the worklist -/

/-- What holds between any two steps, `released` being the consumer entries handled so far: the
counters are the edge counts less the entries handled, and the nodes ever queued are exactly
those whose count is used up. -/
structure Inv (g : Graph) (released : List Node) (s : KahnState) : Prop where
  degree : ∀ n ∈ g.nodes, s.inDegree n.id =
    UInt64.ofNat (g.getNodeInputEdgeCount n) - UInt64.ofNat (released.count n)
  nodup : (s.supportedGroup ++ s.nodesToProcess).Nodup
  subset : s.supportedGroup ++ s.nodesToProcess ⊆ g.nodes
  queued : ∀ n ∈ g.nodes, n ∈ s.supportedGroup ++ s.nodesToProcess ↔
    g.getNodeInputEdgeCount n ≤ released.count n

theorem sub_eq_zero_iff {k d : Nat} (hk : k < 2 ^ 64) (hd : d < 2 ^ 64) :
    UInt64.ofNat k - UInt64.ofNat d = 0 ↔ k = d := by
  rw [UInt64.sub_eq_iff_eq_add, UInt64.zero_add, ← UInt64.toNat_inj,
    UInt64.toNat_ofNat_of_lt' hk, UInt64.toNat_ofNat_of_lt' hd]

theorem find_id {n : Node} (hn : n ∈ g.nodes) :
    g.nodes.find? (fun m => m.id = n.id) = some n := by
  cases h : g.nodes.find? (fun m => m.id = n.id) with
  | none => exact absurd (List.find?_eq_none.1 h n hn) (by simp)
  | some m =>
    have hid : m.id = n.id := by simpa using List.find?_some h
    rw [Graph.id_inj (List.mem_of_find?_eq_some h) hn hid]

theorem inv_init (g : Graph) : Inv g [] (Kahn.init g) where
  degree := by
    intro n hn
    simp [Kahn.init, find_id hn]
  nodup := by
    simpa [Kahn.init] using g.nodes_nodup.filter _
  subset := by
    simp [Kahn.init]
  queued := by
    intro n hn
    simp [Kahn.init, hn]

/-- One consumer entry keeps the invariant, as long as the entry count stays in 64 bits. -/
theorem inv_release {released : List Node} {s : KahnState} {c : Node} (h : Inv g released s)
    (hc : c ∈ g.nodes) (hlt : (released ++ [c]).count c < 2 ^ 64) :
    Inv g (released ++ [c]) (Kahn.release s c) := by
  have hcount : (released ++ [c]).count c = released.count c + 1 := by simp
  have hother : ∀ n, n ≠ c → (released ++ [c]).count n = released.count n := by
    intro n hne
    simp [Ne.symm hne]
  have hdeg : s.inDegree c.id - 1 =
      UInt64.ofNat (g.getNodeInputEdgeCount c) - UInt64.ofNat ((released ++ [c]).count c) := by
    rw [h.degree c hc, hcount, UInt64.ofNat_add]
    grind
  have hzero : s.inDegree c.id - 1 = 0 ↔
      g.getNodeInputEdgeCount c = (released ++ [c]).count c := by
    rw [hdeg]
    exact sub_eq_zero_iff (edgeCount_lt hc) hlt
  have hdegree : ∀ n ∈ g.nodes, (Kahn.release s c).inDegree n.id =
      UInt64.ofNat (g.getNodeInputEdgeCount n) -
        UInt64.ofNat ((released ++ [c]).count n) := by
    intro n hn
    by_cases hne : n = c
    · subst hne
      simpa [Kahn.release] using hdeg
    · have hid : n.id ≠ c.id := fun e => hne (Graph.id_inj hn hc e)
      rw [hother n hne, ← h.degree n hn]
      simp [Kahn.release, hid]
  by_cases hz : s.inDegree c.id - 1 = 0
  · -- the count of `c` is used up by this entry, so `c` was not queued before
    have hk := hzero.1 hz
    have hnew : c ∉ s.supportedGroup ++ s.nodesToProcess := by
      rw [h.queued c hc]
      omega
    have hlist : (Kahn.release s c).supportedGroup ++ (Kahn.release s c).nodesToProcess =
        (s.supportedGroup ++ s.nodesToProcess) ++ [c] := by
      simp [Kahn.release, hz]
    refine ⟨hdegree, ?_, ?_, ?_⟩
    · rw [hlist]
      exact List.nodup_append_comm.1 (List.nodup_cons.2 ⟨hnew, h.nodup⟩)
    · rw [hlist]
      exact List.append_subset.2 ⟨h.subset, by simpa using hc⟩
    · intro n hn
      rw [hlist]
      by_cases hne : n = c
      · subst hne
        simp [hk]
      · rw [hother n hne, ← h.queued n hn]
        simp [hne]
  · have hk := mt hzero.2 hz
    have hlist : (Kahn.release s c).supportedGroup ++ (Kahn.release s c).nodesToProcess =
        s.supportedGroup ++ s.nodesToProcess := by
      simp [Kahn.release, hz]
    refine ⟨hdegree, hlist ▸ h.nodup, hlist ▸ h.subset, ?_⟩
    intro n hn
    rw [hlist, h.queued n hn]
    by_cases hne : n = c
    · subst hne
      omega
    · rw [hother n hne]

/-- A list of consumer entries keeps the invariant. -/
theorem inv_release_all {s : KahnState} (cs : List Node) {released : List Node}
    (h : Inv g released s) (hcs : cs ⊆ g.nodes)
    (hlt : ∀ n ∈ g.nodes, (released ++ cs).count n < 2 ^ 64) :
    Inv g (released ++ cs) (cs.foldl Kahn.release s) := by
  induction cs generalizing s released with
  | nil => simpa using h
  | cons c cs ih =>
    obtain ⟨hc, hcs'⟩ := List.cons_subset.1 hcs
    have hcount : (released ++ [c]).count c ≤ (released ++ c :: cs).count c := by
      simp
    have hstep := inv_release h hc (Nat.lt_of_le_of_lt hcount (hlt c hc))
    have := ih hstep hcs' (by simpa using hlt)
    simpa using this

/-! ## One turn and the whole loop -/

/-- The nodes ever queued, in queue order. -/
def seen (s : KahnState) : List Node :=
  s.supportedGroup ++ s.nodesToProcess

theorem release_supportedGroup (cs : List Node) (s : KahnState) :
    (cs.foldl Kahn.release s).supportedGroup = s.supportedGroup := by
  induction cs generalizing s with
  | nil => rfl
  | cons c cs ih => rw [List.foldl_cons, ih]; rfl

theorem release_numNodesProcessed (cs : List Node) (s : KahnState) :
    (cs.foldl Kahn.release s).numNodesProcessed = s.numNodesProcessed := by
  induction cs generalizing s with
  | nil => rfl
  | cons c cs ih => rw [List.foldl_cons, ih]; rfl

/-- What holds at the head of the worklist loop. -/
structure LoopInv (g : Graph) (s : KahnState) : Prop where
  inv : Inv g (outputNodes g s.supportedGroup) s
  processed : s.numNodesProcessed = s.supportedGroup.length

theorem loopInv_init (g : Graph) : LoopInv g (Kahn.init g) :=
  ⟨inv_init g, rfl⟩

/-- Moving the front node from the queue to the result changes no membership. -/
theorem inv_pop {released : List Node} {s : KahnState} {node : Node} {rest : List Node}
    (h : Inv g released s) (hq : s.nodesToProcess = node :: rest) :
    Inv g released
      { s with nodesToProcess := rest, supportedGroup := s.supportedGroup ++ [node] } := by
  have hlist : (s.supportedGroup ++ [node]) ++ rest = s.supportedGroup ++ s.nodesToProcess := by
    simp [hq]
  exact ⟨h.degree, hlist ▸ h.nodup, hlist ▸ h.subset, hlist ▸ h.queued⟩

theorem process_supportedGroup (s : KahnState) (node : Node) (rest : List Node) :
    (Kahn.process g s node rest).supportedGroup = s.supportedGroup ++ [node] := by
  simp [Kahn.process, releaseOutputs_eq, release_supportedGroup]

theorem loopInv_process {s : KahnState} {node : Node} {rest : List Node} (h : LoopInv g s)
    (hq : s.nodesToProcess = node :: rest) : LoopInv g (Kahn.process g s node rest) := by
  have hpop := inv_pop h.inv hq
  have hnodup : (s.supportedGroup ++ [node]).Nodup := hpop.nodup.of_append_left
  have hsub : s.supportedGroup ++ [node] ⊆ g.nodes :=
    fun n hn => hpop.subset (List.mem_append_left _ hn)
  have hall := inv_release_all (outputNodes g [node]) hpop (outputNodes_subset _) (by
    intro n hn
    rw [← outputNodes_append]
    exact count_outputNodes_lt hnodup hsub hn)
  rw [← outputNodes_append, ← releaseOutputs_eq] at hall
  constructor
  · rw [process_supportedGroup]
    exact ⟨hall.degree, hall.nodup, hall.subset, hall.queued⟩
  · rw [process_supportedGroup]
    simp [Kahn.process, releaseOutputs_eq, release_numNodesProcessed, h.processed]

/-- The loop runs empty, and keeps whatever one turn keeps. -/
theorem loop_induct {P : KahnState → Prop}
    (hstep : ∀ s node rest, LoopInv g s → P s → s.nodesToProcess = node :: rest →
      P (Kahn.process g s node rest))
    (fuel : Nat) {s : KahnState} (h : LoopInv g s) (hp : P s)
    (hfuel : g.nodes.length < fuel + s.supportedGroup.length) :
    ∃ s', Kahn.loop g fuel s = some s' ∧ LoopInv g s' ∧ P s' ∧ s'.nodesToProcess = [] := by
  induction fuel generalizing s with
  | zero =>
    have hlen := (List.subperm_of_subset h.inv.nodup h.inv.subset).length_le
    rw [List.length_append] at hlen
    omega
  | succ fuel ih =>
    cases hq : s.nodesToProcess with
    | nil => exact ⟨s, by simp [Kahn.loop, hq], h, hp, hq⟩
    | cons node rest =>
      have hfuel' : g.nodes.length <
          fuel + (Kahn.process g s node rest).supportedGroup.length := by
        rw [process_supportedGroup, List.length_append, List.length_singleton]
        omega
      obtain ⟨s', hs', hrest⟩ :=
        ih (loopInv_process h hq) (hstep s node rest h hp hq) hfuel'
      exact ⟨s', by simpa [Kahn.loop, hq] using hs', hrest⟩

theorem run_induct {P : KahnState → Prop} (hinit : P (Kahn.init g))
    (hstep : ∀ s node rest, LoopInv g s → P s → s.nodesToProcess = node :: rest →
      P (Kahn.process g s node rest)) :
    ∃ s', Kahn.loop g (g.nodes.length + 1) (Kahn.init g) = some s' ∧ LoopInv g s' ∧ P s' ∧
      s'.nodesToProcess = [] :=
  loop_induct hstep _ (loopInv_init g) hinit (by simp [Kahn.init])

/-! ## Completeness -/

/-- When the loop ends on an acyclic graph, every node has been processed. -/
theorem all_processed {s : KahnState} (h : LoopInv g s) (hend : s.nodesToProcess = [])
    (hacyc : Acyclic g.Dep) : g.nodes ⊆ s.supportedGroup := by
  by_contra hmiss
  obtain ⟨m, hm, hms⟩ : ∃ m ∈ g.nodes, m ∉ s.supportedGroup := by
    simpa [List.subset_def] using hmiss
  have hfin : {n | n ∈ g.nodes ∧ n ∉ s.supportedGroup}.Finite :=
    (List.finite_toSet g.nodes).subset fun n hn => hn.1
  obtain ⟨n, ⟨hn, hns⟩, hmin⟩ := hacyc.exists_source hfin ⟨m, hm, hms⟩
  have hnodup : s.supportedGroup.Nodup := h.inv.nodup.of_append_left
  have hsub : s.supportedGroup ⊆ g.nodes :=
    fun x hx => h.inv.subset (List.mem_append_left _ hx)
  -- every slot of `n` that the graph feeds is fed by a processed node
  have hfed : n.fedBy (g.nodes.filter (· ∉ s.supportedGroup)) = 0 := by
    refine Node.fedBy_eq_zero fun p hp v hv => ?_
    obtain ⟨hp, hps⟩ := List.mem_filter.1 hp
    by_contra hpos
    exact hmin p ⟨hp, by simpa using hps⟩ ⟨hp, hn, v, hv, Nat.pos_of_ne_zero hpos⟩
  have hperm : g.nodes.Perm (s.supportedGroup ++ g.nodes.filter (· ∉ s.supportedGroup)) := by
    refine (List.perm_ext_iff_of_nodup g.nodes_nodup ?_).2 ?_
    · refine List.nodup_append.2 ⟨hnodup, g.nodes_nodup.filter _, ?_⟩
      rintro x hx y hy rfl
      simp [hx] at hy
    · intro x
      by_cases hx : x ∈ s.supportedGroup
      · simp [hx, hsub hx]
      · simp [hx]
  have hcount : g.getNodeInputEdgeCount n ≤ (outputNodes g s.supportedGroup).count n := by
    have h1 := fedBy_nodes (g := g) n
    rw [Node.fedBy_perm hperm, Node.fedBy_append, hfed] at h1
    rw [count_outputNodes hn]
    omega
  have hseen := (h.inv.queued n hn).2 hcount
  rw [hend, List.append_nil] at hseen
  exact hns hseen

/-! ## Order -/

/-- Every queued node comes after the producers that it is held back for. -/
def Ordered (g : Graph) (l : List Node) : Prop :=
  ∀ p n, g.Dep p n → g.ReleasedAfter p n → n ∈ l → [p, n].Sublist l

theorem ordered_init (g : Graph) : Ordered g (seen (Kahn.init g)) := by
  intro p n hd hrel hn
  have hmem : n ∈ g.nodes ∧ g.getNodeInputEdgeCount n = 0 := by
    simpa [seen, Kahn.init] using hn
  have hsingle : n.fedBy [p] ≤ g.getNodeInputEdgeCount n + g.capturedCount n := by
    rw [← fedBy_nodes]
    exact Node.fedBy_le_of_subset (List.nodup_singleton p) (by simpa using hd.1)
  rcases hrel with hlt | ⟨hp, hn' | hsub⟩
  · omega
  · exact absurd hmem.2 hn'
  · have := hsub.filter fun m => decide (g.getNodeInputEdgeCount m = 0)
    simpa [seen, Kahn.init, hp, hmem.2] using this

/-- A node whose count is used up by entries of processed nodes has the producers queued that it
is held back for. -/
theorem producer_seen {s : KahnState} {released : List Node}
    (h : Inv g released s) {c p : Node} (hd : g.Dep p c) (hrel : g.ReleasedAfter p c)
    (hk : g.getNodeInputEdgeCount c ≤ c.fedBy s.supportedGroup) : p ∈ seen s := by
  rcases hrel with hlt | ⟨hp, -⟩
  · by_contra hnot
    have hps : p ∉ s.supportedGroup := fun hp => hnot (List.mem_append_left _ hp)
    have hnodup : (s.supportedGroup ++ [p]).Nodup :=
      List.nodup_append_comm.1 (List.nodup_cons.2 ⟨hps, h.nodup.of_append_left⟩)
    have hsub : s.supportedGroup ++ [p] ⊆ g.nodes := by
      refine List.append_subset.2 ⟨fun x hx => ?_, by simpa using hd.1⟩
      exact h.subset (List.mem_append_left _ hx)
    have hfed := Node.fedBy_le_of_subset (n := c) hnodup hsub
    rw [Node.fedBy_append, fedBy_nodes] at hfed
    omega
  · exact (h.queued p hd.1).2 (by omega)

/-- Handling consumer entries of processed nodes keeps the order. -/
theorem ordered_release_all {s : KahnState} (cs : List Node) {released : List Node}
    (h : Inv g released s) (hcs : cs ⊆ g.nodes)
    (hfed : ∀ n ∈ g.nodes, (released ++ cs).count n ≤ n.fedBy s.supportedGroup)
    (hlt : ∀ n ∈ g.nodes, (released ++ cs).count n < 2 ^ 64)
    (hord : Ordered g (seen s)) : Ordered g (seen (cs.foldl Kahn.release s)) := by
  induction cs generalizing s released with
  | nil => exact hord
  | cons c cs ih =>
    obtain ⟨hc, hcs'⟩ := List.cons_subset.1 hcs
    have hcount : ∀ n, (released ++ [c]).count n ≤ (released ++ c :: cs).count n := by
      intro n
      simp only [List.count_append, List.count_cons, List.count_nil]
      omega
    have hstep := inv_release h hc (Nat.lt_of_le_of_lt (hcount c) (hlt c hc))
    have hgroup : (Kahn.release s c).supportedGroup = s.supportedGroup := rfl
    refine ih hstep hcs' (by simpa [hgroup] using hfed) (by simpa using hlt) ?_
    by_cases hz : s.inDegree c.id - 1 = 0
    · have hseen : seen (Kahn.release s c) = seen s ++ [c] := by
        simp [seen, Kahn.release, hz]
      have hck : g.getNodeInputEdgeCount c ≤ (released ++ [c]).count c := by
        refine (hstep.queued c hc).1 ?_
        rw [show (Kahn.release s c).supportedGroup ++ (Kahn.release s c).nodesToProcess =
          seen s ++ [c] from hseen]
        simp
      have hfc := Nat.le_trans (hcount c) (hfed c hc)
      rw [hseen]
      intro p n hd hrel hn
      rcases List.mem_append.1 hn with hn | hn
      · exact (hord p n hd hrel hn).trans (List.sublist_append_left _ _)
      · obtain rfl : n = c := by simpa using hn
        have hp : p ∈ seen s := producer_seen h hd hrel (Nat.le_trans hck hfc)
        exact (List.singleton_sublist.2 hp).append (List.Sublist.refl [n])
    · have hseen : seen (Kahn.release s c) = seen s := by
        simp [seen, Kahn.release, hz]
      rw [hseen]
      exact hord

theorem seen_pop {s : KahnState} {node : Node} {rest : List Node}
    (hq : s.nodesToProcess = node :: rest) :
    seen { s with nodesToProcess := rest, supportedGroup := s.supportedGroup ++ [node] } =
      seen s := by
  simp [seen, hq]

theorem ordered_process {s : KahnState} {node : Node} {rest : List Node} (h : LoopInv g s)
    (hord : Ordered g (seen s)) (hq : s.nodesToProcess = node :: rest) :
    Ordered g (seen (Kahn.process g s node rest)) := by
  have hpop := inv_pop h.inv hq
  have hnodup : (s.supportedGroup ++ [node]).Nodup := hpop.nodup.of_append_left
  have hsub : s.supportedGroup ++ [node] ⊆ g.nodes :=
    fun n hn => hpop.subset (List.mem_append_left _ hn)
  have hseen : seen (Kahn.process g s node rest) =
      seen ((outputNodes g [node]).foldl Kahn.release
        { s with nodesToProcess := rest, supportedGroup := s.supportedGroup ++ [node] }) := by
    simp [seen, Kahn.process, releaseOutputs_eq]
  rw [hseen]
  refine ordered_release_all _ hpop (outputNodes_subset _) ?_ ?_ (seen_pop hq ▸ hord)
  · intro n hn
    rw [← outputNodes_append, count_outputNodes hn]
  · intro n hn
    rw [← outputNodes_append]
    exact count_outputNodes_lt hnodup hsub hn

/-- The queue is only ever extended at its end. -/
theorem prefix_process {s : KahnState} {node : Node} {rest : List Node}
    (hq : s.nodesToProcess = node :: rest) :
    seen s <+: seen (Kahn.process g s node rest) := by
  have key : ∀ (cs : List Node) (s : KahnState), seen s <+: seen (cs.foldl Kahn.release s) := by
    intro cs
    induction cs with
    | nil => intro s; exact List.prefix_refl _
    | cons c cs ih =>
      intro s
      refine List.IsPrefix.trans ?_ (ih (Kahn.release s c))
      by_cases hz : s.inDegree c.id - 1 = 0
      · simp [seen, Kahn.release, hz]
      · simp [seen, Kahn.release, hz]
  have := key (outputNodes g [node])
    { s with nodesToProcess := rest, supportedGroup := s.supportedGroup ++ [node] }
  rw [seen_pop hq] at this
  simpa [seen, Kahn.process, releaseOutputs_eq] using this

end KahnLemmas

open KahnLemmas

/-! ## Results -/

/-- The nodes of the result are distinct nodes of the graph; the loop always ends. -/
theorem kahn_terminates (g : Graph) :
    ∃ r, getKahnsVariantTopologicalSortedNodes g = some r ∧
      ∀ l, r = .ok l → l.Perm g.nodes := by
  obtain ⟨s, hs, hinv, -, hend⟩ := run_induct (g := g) (P := fun _ => True) trivial
    (fun _ _ _ _ _ _ => trivial)
  refine ⟨_, by rw [getKahnsVariantTopologicalSortedNodes, hs]; rfl, ?_⟩
  intro l hl
  dsimp only at hl
  split at hl
  · next hcount =>
    cases hl
    have hnodup := hinv.inv.nodup
    have hsub := hinv.inv.subset
    rw [hend, List.append_nil] at hnodup hsub
    refine (List.subperm_of_subset hnodup hsub).perm_of_length_le ?_
    rw [← hinv.processed, hcount]
  · cases hl

/-- On an acyclic graph the sort processes every node, whatever the nodes capture. -/
theorem kahn_complete {g : Graph} (hacyc : Acyclic g.Dep) :
    ∃ l, getKahnsVariantTopologicalSortedNodes g = some (.ok l) ∧ l.Perm g.nodes := by
  obtain ⟨s, hs, hinv, -, hend⟩ := run_induct (g := g) (P := fun _ => True) trivial
    (fun _ _ _ _ _ _ => trivial)
  have hnodup := hinv.inv.nodup
  have hsub := hinv.inv.subset
  rw [hend, List.append_nil] at hnodup hsub
  have hperm : s.supportedGroup.Perm g.nodes :=
    (List.perm_ext_iff_of_nodup hnodup g.nodes_nodup).2 fun n =>
      ⟨fun h => hsub h, fun h => all_processed hinv hend hacyc h⟩
  refine ⟨s.supportedGroup, ?_, hperm⟩
  simp [getKahnsVariantTopologicalSortedNodes, hs, hinv.processed, hperm.length_eq]

/-- In the result every node comes after the producers that it is held back for. -/
theorem kahn_orders_released {g : Graph} {l : List Node}
    (hl : getKahnsVariantTopologicalSortedNodes g = some (.ok l)) {p n : Node} (hd : g.Dep p n)
    (hrel : g.ReleasedAfter p n) : [p, n].Sublist l := by
  obtain ⟨s, hs, -, hord, hend⟩ := run_induct (g := g) (P := fun s => Ordered g (seen s))
    (ordered_init g) (fun _ _ _ h hp hq => ordered_process h hp hq)
  obtain ⟨r, hr, hperm⟩ := kahn_terminates g
  have hmem : n ∈ l := (hperm l (Option.some.inj (hl ▸ hr)).symm).mem_iff.2 hd.2.1
  have hseen : seen s = l := by
    rw [getKahnsVariantTopologicalSortedNodes, hs] at hl
    dsimp only [Option.map_some] at hl
    split at hl
    · cases hl
      simp [seen, hend]
    · cases hl
  rw [← hseen] at hmem ⊢
  exact hord p n hd hrel hmem

/-- When every in-degree covers the captured values, the sort is right on every graph. -/
theorem sortsGraph_of_covered {g : Graph} (hcov : g.CapturesCovered) :
    SortsGraph g (getKahnsVariantTopologicalSortedNodes g) := by
  obtain ⟨r, hr, hperm⟩ := kahn_terminates g
  cases r with
  | ok l =>
    have hl := hperm l rfl
    have hsorted : ∀ p n, g.Dep p n → [p, n].Sublist l :=
      fun p n hd => kahn_orders_released hr hd (hcov p n hd)
    rw [hr]
    exact ⟨acyclic_of_listed (hl.nodup_iff.2 g.nodes_nodup) hsorted, hl, hsorted⟩
  | error e =>
    rw [hr]
    intro hacyc
    obtain ⟨l, hl, -⟩ := kahn_complete hacyc
    rw [hr] at hl
    cases hl

/-- A node that is ready before the loop starts is emitted before every node that is not. -/
theorem not_sortsGraph_of_ready {g : Graph} (hacyc : Acyclic g.Dep) {p n : Node} (hd : g.Dep p n)
    (hn : g.getNodeInputEdgeCount n = 0) (hrel : ¬ g.ReleasedAfter p n) :
    ¬ SortsGraph g (getKahnsVariantTopologicalSortedNodes g) := by
  obtain ⟨s, hs, hinv, hpre, hend⟩ := run_induct (g := g)
    (P := fun s => seen (Kahn.init g) <+: seen s) (List.prefix_refl _)
    (fun s node rest _ hp hq => hp.trans (prefix_process hq))
  have hseen : seen s = s.supportedGroup := by simp [seen, hend]
  have hinit : seen (Kahn.init g) =
      g.nodes.filter fun m => decide (g.getNodeInputEdgeCount m = 0) := by
    simp [seen, Kahn.init]
  rw [hseen, hinit] at hpre
  obtain ⟨rest, hrest⟩ := hpre
  have hnot : ¬ [p, n].Sublist s.supportedGroup := by
    intro hsub
    have hnodup : s.supportedGroup.Nodup := hinv.inv.nodup.of_append_left
    rw [← hrest] at hsub hnodup
    have hnready : n ∈ g.nodes.filter fun m => decide (g.getNodeInputEdgeCount m = 0) := by
      simp [hd.2.1, hn]
    have hnrest : n ∉ rest := fun h => (List.disjoint_of_nodup_append hnodup) hnready h
    have hsub' := pair_sublist_left hsub hnrest
    have hp : g.getNodeInputEdgeCount p = 0 := by
      simpa [hd.1] using hsub'.subset (List.mem_cons_self ..)
    exact hrel (Or.inr ⟨hp, Or.inr (hsub'.trans List.filter_sublist)⟩)
  obtain ⟨l, hl, -⟩ := kahn_complete hacyc
  have hok : s.supportedGroup = l := by
    by_cases hcount : s.numNodesProcessed = g.nodes.length
    · simpa [getKahnsVariantTopologicalSortedNodes, hs, hcount] using hl
    · simp [getKahnsVariantTopologicalSortedNodes, hs, hcount] at hl
  rw [hl]
  exact fun h => hnot (hok ▸ h.2.2 p n hd)

/-- The sort is right on every graph whose in-degrees cover the captured values. For a node that is
ready before the loop starts this is also needed: on an acyclic graph, such a node must not read a
value whose producer can be queued after it. -/
theorem kahn_sorted (g : Graph) :
    (g.CapturesCovered → SortsGraph g (getKahnsVariantTopologicalSortedNodes g)) ∧
      (∀ p n, Acyclic g.Dep → g.Dep p n → g.getNodeInputEdgeCount n = 0 →
        SortsGraph g (getKahnsVariantTopologicalSortedNodes g) → g.ReleasedAfter p n) := by
  refine ⟨sortsGraph_of_covered, ?_⟩
  intro p n hacyc hd hn hsorts
  by_contra hrel
  exact not_sortsGraph_of_ready hacyc hd hn hrel hsorts

/-- The `If` reads `x` as its condition and captures it, so its count holds it back. -/
def capturedCovered : Graph :=
  Graph.ofNodes
    [{ id := 0, opType := "Relu", inputs := [some "in"], outputs := [some "a"] },
     { id := 1, opType := "Custom", inputs := [some "a"], outputs := [some "u"] },
     { id := 2, opType := "Relu", inputs := [some "a"], outputs := [some "x"] },
     { id := 3, opType := "If", inputs := [some "x"], implicitInputs := ["x"],
       outputs := [some "y"] }]
    ["in"] ["u", "y"] (by decide) (by decide) (by decide) (by decide)

theorem capturedCovered_sorted :
    SortsGraph capturedCovered (getKahnsVariantTopologicalSortedNodes capturedCovered) :=
  (kahn_sorted capturedCovered).1 (by decide)

/-- `x = Relu(a)` is captured by an `If` whose condition is a graph input. The `If` has no counted
input, so it is emitted before the node that writes `x`. -/
def capturedEarly : Graph :=
  Graph.ofNodes
    [{ id := 0, opType := "Relu", inputs := [some "in"], outputs := [some "a"] },
     { id := 1, opType := "Relu", inputs := [some "a"], outputs := [some "x"] },
     { id := 2, opType := "If", inputs := [some "cond"], implicitInputs := ["x"],
       outputs := [some "y"] }]
    ["in", "cond"] ["y"] (by decide) (by decide) (by decide) (by decide)

theorem capturedEarly_not_sorted :
    Acyclic capturedEarly.Dep ∧
      (∃ l, getKahnsVariantTopologicalSortedNodes capturedEarly = some (.ok l) ∧
        l.map Node.id = [0, 2, 1]) ∧
      ¬ SortsGraph capturedEarly (getKahnsVariantTopologicalSortedNodes capturedEarly) := by
  have hrun : getKahnsVariantTopologicalSortedNodes capturedEarly =
      some (.ok [capturedEarly.nodes[0], capturedEarly.nodes[2], capturedEarly.nodes[1]]) := by
    rfl
  refine ⟨Graph.acyclic_of_ids (by decide), ⟨_, hrun, rfl⟩, ?_⟩
  rw [hrun]
  rintro ⟨-, -, horder⟩
  have := horder capturedEarly.nodes[1] capturedEarly.nodes[2] (by decide)
  revert this
  decide

end AmdGpuEp
