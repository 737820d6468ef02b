import AmdGpuEp.DirectML.PatternMatcher
import Mathlib.Data.List.Sort

/-!
# The Tier-2 fusion pass of the DirectML provider

`ep_fusion_manager.h` and `ep_fusion_manager.cc`: fusion rules, the index of
pattern trees by the op type of their anchor, and the loop of `ApplyFusions`
over the nodes of the graph. A `size_t` has 64 bits.

Results:
1. `emitted_found`, `emitted_wf`: what every emitted candidate is made of.
2. `fusions_disjoint`: the emitted groups are pairwise disjoint as long as no two
   of them have one hash.
-/

namespace AmdGpuEp.DirectML

/-! ## Rules -/

/-- `IFusionRule`, without `Compile`. `CapturePreFusionData` may take nodes out of the match. -/
structure FusionRule (F : Type) where
  anchorOpType : String
  buildPattern : PNode F
  matchesResult : PatternMatch F → Bool
  capturePreFusionData : MatchEnv F → GraphConnectivity → PatternMatch F → PatternMatch F :=
    fun _ _ m => m
  validateCapture : MatchEnv F → GraphConnectivity → PatternMatch F → Bool := fun _ _ _ => true
  capture_sublist : ∀ env gc m,
    (capturePreFusionData env gc m).allNodes.Sublist m.allNodes := by
      exact fun _ _ _ => List.Sublist.refl _

/-! ## The anchor index -/

namespace PEdges

variable {F : Type}

/-- Applies `merge` to the child of the first edge with this direction, index and op type. -/
def mergeChild (dir : PEdgeDir) (valueIndex : Nat) (opType : String) (merge : PNode F → PNode F) :
    PEdges F → Option (PEdges F)
  | .nil => none
  | .cons d i child optional rest =>
    if d = dir ∧ i = valueIndex ∧ child.opType = opType then
      some (.cons d i (merge child) optional rest)
    else (rest.mergeChild dir valueIndex opType merge).map (.cons d i child optional)

/-- Makes the edges at one position optional. -/
def makeOptional (dir : PEdgeDir) (valueIndex : Nat) : PEdges F → PEdges F
  | .nil => .nil
  | .cons d i child optional rest =>
    .cons d i child (optional || decide (d = dir ∧ i = valueIndex))
      (rest.makeOptional dir valueIndex)

end PEdges

/-- The constraints of `additional` whose input `base` does not constrain yet. -/
def mergeConstraints {F : Type} (base additional : List (Option Nat × PInput F)) :
    List (Option Nat × PInput F) :=
  additional.foldl (fun cs c => if c.1 ∈ cs.map Prod.fst then cs else cs ++ [c]) base

mutual

/-- `MergePatterns`. -/
def mergePatterns {F : Type} : PNode F → PNode F → PNode F
  | .mk opType domain cs cap es, .mk _ _ addCs _ addEs =>
    .mk opType domain (mergeConstraints cs addCs) cap (mergeEdges addEs es)

/-- The loop over the edges of `additional`. -/
def mergeEdges {F : Type} : PEdges F → PEdges F → PEdges F
  | .nil, base => base
  | .cons dir i child _ rest, base =>
    match base.mergeChild dir i child.opType fun c => mergePatterns c child with
    | some merged => mergeEdges rest merged
    | none => mergeEdges rest ((base.makeOptional dir i).emplaceBack dir i child true)

end

structure AnchorEntry (F : Type) where
  tree : PNode F
  rules : List (FusionRule F)

/-- `AnchorIndex`: the entry of an anchor op type. -/
abbrev AnchorIndex (F : Type) := String → Option (AnchorEntry F)

/-- One turn of the loop of `BuildAnchorIndex`. -/
def addRule {F : Type} (index : AnchorIndex F) (rule : FusionRule F) : AnchorIndex F :=
  let entry : AnchorEntry F :=
    match index rule.anchorOpType with
    | none => { tree := rule.buildPattern, rules := [rule] }
    | some entry =>
      { tree := mergePatterns entry.tree rule.buildPattern, rules := entry.rules ++ [rule] }
  Function.update index rule.anchorOpType (some entry)

/-- `BuildAnchorIndex` for the rules `allRules`. -/
def buildAnchorIndex {F : Type} (allRules : List (FusionRule F)) : AnchorIndex F :=
  allRules.foldl addRule fun _ => none

/-! ## The exclusion pass -/

/-- None of the outputs of `n` is consumed by another node of the match. -/
def isTerminal (gc : GraphConnectivity) (matched : List Node) (n : Node) : Bool :=
  (getNodeOutputNames n).all fun outVal =>
    (gc.consumerMap outVal).all fun consumer => !(matched.contains consumer && consumer != n)

/-- An output of `n` is a graph output, or has a consumer outside the match. -/
def hasExternalConsumer (gc : GraphConnectivity) (matched alreadyConsumed : List Node)
    (n : Node) : Bool :=
  (getNodeOutputNames n).any fun outVal =>
    gc.graphOutputValues.contains outVal ||
      (gc.consumerMap outVal).any fun consumer =>
        !matched.contains consumer || alreadyConsumed.contains consumer

/-- A validated match in front of the exclusion pass, and the nodes consumed before it. -/
structure Candidate (F : Type) where
  anchor : Node
  rule : FusionRule F
  found : PatternMatch F
  alreadyConsumed : List Node

namespace Candidate

variable {F : Type}

def matched (c : Candidate F) : List Node :=
  c.found.allNodes

def keeps (gc : GraphConnectivity) (c : Candidate F) (n : Node) : Bool :=
  n == c.anchor || isTerminal gc c.matched n ||
    !hasExternalConsumer gc c.matched c.alreadyConsumed n

/-- The nodes that are fused: those the exclusion pass keeps. -/
def group (gc : GraphConnectivity) (c : Candidate F) : List Node :=
  c.matched.filter (c.keeps gc)

end Candidate

/-! ## The loop -/

/-- `HashNodeIds`. -/
def hashNodeIds (sortedIds : List Nat) : UInt64 :=
  sortedIds.foldl
    (fun (seed : UInt64) id =>
      seed ^^^
        (UInt64.ofNat id + 0x9e3779b9 + (seed <<< (6 : UInt64)) + (seed >>> (2 : UInt64))))
    (UInt64.ofNat sortedIds.length)

/-- The key of a group: the hash of its sorted node ids. -/
def groupHash (nodes : List Node) : UInt64 :=
  hashNodeIds ((nodes.map Node.id).insertionSort (· ≤ ·))

structure FusionMatch (F : Type) where
  found : PatternMatch F
  rule : FusionRule F

/-- What `ApplyFusions` is given. `addNodesToFuse` is the answer of
`EpGraphSupportInfo_AddNodesToFuse` to a group, after the groups it took before. -/
structure FusionEnv (F : Type) extends MatchEnv F where
  isSupported : Node → Bool
  cpuPreferredNodeIds : List Nat
  addNodesToFuse : List (List Node) → List Node → Bool

/-- `already_consumed`, `fused_node_ids`, `fusion_map`, and the candidates whose groups were
taken, in order. -/
structure FusionState (F : Type) where
  alreadyConsumed : List Node := []
  fusedNodeIds : List Nat := []
  fusionMap : UInt64 → Option (FusionMatch F) := fun _ => none
  emitted : List (Candidate F) := []

section

variable {F : Type} [FloatOps F]

/-- The turn of an anchor up to the exclusion pass. -/
def findCandidate (env : FusionEnv F) (index : AnchorIndex F) (gc : GraphConnectivity)
    (alreadyConsumed : List Node) (anchor : Node) : Option (Candidate F) :=
  if anchor ∈ alreadyConsumed then none
  else
    match index anchor.opType with
    | none => none
    | some entry =>
      match matchPattern env.toMatchEnv gc alreadyConsumed anchor entry.tree with
      | none => none
      | some m =>
        match entry.rules.find? fun rule => rule.matchesResult m with
        | none => none
        | some rule =>
          let found := rule.capturePreFusionData env.toMatchEnv gc m
          if !rule.validateCapture env.toMatchEnv gc found then none
          else if found.allNodes.all fun n =>
              !env.cpuPreferredNodeIds.contains n.id && env.isSupported n then
            some { anchor, rule, found, alreadyConsumed }
          else none

/-- `fusion_map.emplace`: an entry that is there stays. -/
def emplace (fusionMap : UInt64 → Option (FusionMatch F)) (key : UInt64) (fm : FusionMatch F) :
    UInt64 → Option (FusionMatch F) :=
  match fusionMap key with
  | some _ => fusionMap
  | none => Function.update fusionMap key (some fm)

/-- The rest of the turn: what is consumed are the nodes of the map's entry, which is an older
match when the hashes of two groups collide. -/
def emitGroup (gc : GraphConnectivity) (s : FusionState F) (c : Candidate F) : FusionState F :=
  let nodes := c.group gc
  let key := groupHash nodes
  let fusionMap := emplace s.fusionMap key
    { found := { c.found with allNodes := nodes }, rule := c.rule }
  { alreadyConsumed := s.alreadyConsumed ++ ((fusionMap key).map (·.found.allNodes)).getD []
    fusedNodeIds := s.fusedNodeIds ++ nodes.map Node.id
    fusionMap
    emitted := s.emitted ++ [c] }

/-- One turn of the loop. -/
def fusionStep (env : FusionEnv F) (index : AnchorIndex F) (gc : GraphConnectivity)
    (s : FusionState F) (anchor : Node) : FusionState F :=
  match findCandidate env index gc s.alreadyConsumed anchor with
  | none => s
  | some c =>
    if (c.group gc).length < 2 then s
    else if env.addNodesToFuse (s.emitted.map (·.group gc)) (c.group gc) then emitGroup gc s c
    else s

/-- `ApplyFusions`. -/
def applyFusions (env : FusionEnv F) (index : AnchorIndex F) (g : Graph) : FusionState F :=
  let gc := buildGraphConnectivity g
  gc.nodeInfos.foldl (fusionStep env index gc) {}

end

/-! ## What one turn does -/

namespace FusionManagerLemmas

variable {F : Type}

/-- What a candidate is made of. -/
structure Wf (g : Graph) (c : Candidate F) : Prop where
  nodes : ∀ n ∈ c.matched, n ∈ g.nodes
  nodup : c.matched.Nodup
  fresh : ∀ n ∈ c.matched, n ∉ c.alreadyConsumed

theorem mem_group {gc : GraphConnectivity} {c : Candidate F} {n : Node} :
    n ∈ c.group gc ↔ n ∈ c.matched ∧ c.keeps gc n = true :=
  List.mem_filter

theorem group_sub {gc : GraphConnectivity} {c : Candidate F} : c.group gc ⊆ c.matched :=
  fun _ hn => (mem_group.1 hn).1

theorem consumer_of_not_terminal {g : Graph} {matched : List Node} {n : Node}
    (h : isTerminal (buildGraphConnectivity g) matched n = false) :
    ∃ v ∈ getNodeOutputNames n, ∃ d ∈ (buildGraphConnectivity g).consumerMap v,
      d ∈ matched ∧ d ≠ n := by
  simpa [isTerminal, and_assoc] using h

theorem emplace_self {fusionMap : UInt64 → Option (FusionMatch F)} {key : UInt64}
    {fm : FusionMatch F} (h : fusionMap key = none) : emplace fusionMap key fm key = some fm := by
  simp [emplace, h]

theorem emplace_of_ne {fusionMap : UInt64 → Option (FusionMatch F)} {key k : UInt64}
    {fm : FusionMatch F} (h : k ≠ key) : emplace fusionMap key fm k = fusionMap k := by
  cases hmap : fusionMap key with
  | some old => simp [emplace, hmap]
  | none => simp [emplace, hmap, h]

/-- Unless two hashes collide, the groups are disjoint, their nodes are consumed, and the map has
no other key than theirs. -/
def Keyed (gc : GraphConnectivity) (s : FusionState F) : Prop :=
  let groups := s.emitted.map (·.group gc)
  (groups.map groupHash).Nodup →
    groups.Pairwise List.Disjoint ∧ (∀ nodes ∈ groups, nodes ⊆ s.alreadyConsumed) ∧
      ∀ key, key ∉ groups.map groupHash → s.fusionMap key = none

theorem keyed_emitGroup {g : Graph} {s : FusionState F} {c : Candidate F}
    (hs : Keyed (buildGraphConnectivity g) s)
    (hwf : Wf g c) (hc : c.alreadyConsumed = s.alreadyConsumed) :
    Keyed (buildGraphConnectivity g) (emitGroup (buildGraphConnectivity g) s c) := by
  intro hnodup
  simp only [emitGroup, List.map_append, List.map_cons, List.map_nil] at hnodup ⊢
  obtain ⟨hnot, hold⟩ := List.nodup_cons.1 (List.nodup_append_comm.1 hnodup)
  obtain ⟨hdisj, hconsumed, hkeys⟩ := hs hold
  rw [emplace_self (hkeys _ hnot)]
  refine ⟨List.pairwise_append.2 ⟨hdisj, List.pairwise_singleton .., ?_⟩, ?_, ?_⟩
  · intro nodes hnodes new hnew n hn hn'
    rw [List.mem_singleton.1 hnew] at hn'
    refine hwf.fresh n (mem_group.1 hn').1 ?_
    rw [hc]
    exact hconsumed nodes hnodes hn
  · intro nodes hnodes n hn
    rcases List.mem_append.1 hnodes with hnodes | hnodes
    · exact List.mem_append_left _ (hconsumed nodes hnodes hn)
    · rw [List.mem_singleton.1 hnodes] at hn
      exact List.mem_append_right _ hn
  · intro key hkey
    simp only [List.mem_append, List.mem_singleton, not_or] at hkey
    rw [emplace_of_ne hkey.2]
    exact hkeys key hkey.1

variable [FloatOps F] {env : FusionEnv F} {index : AnchorIndex F} {g : Graph}
  {s : FusionState F} {anchor : Node}

/-- What has been checked of a candidate. -/
theorem findCandidate_eq_some {consumed : List Node} {c : Candidate F}
    (h : findCandidate env index (buildGraphConnectivity g) consumed anchor = some c) :
    c.anchor = anchor ∧ c.alreadyConsumed = consumed ∧ ∃ entry m,
      index anchor.opType = some entry ∧
      matchPattern env.toMatchEnv (buildGraphConnectivity g) consumed anchor entry.tree = some m ∧
      entry.rules.find? (fun rule => rule.matchesResult m) = some c.rule ∧
      c.found = c.rule.capturePreFusionData env.toMatchEnv (buildGraphConnectivity g) m ∧
      c.rule.validateCapture env.toMatchEnv (buildGraphConnectivity g) c.found = true := by
  unfold findCandidate at h
  split at h
  · cases h
  · split at h
    · cases h
    · next entry hentry =>
      split at h
      · cases h
      · next m hm =>
        split at h
        · cases h
        · next rule hrule =>
          dsimp only at h
          split at h
          · cases h
          · next hvalid =>
            split at h
            · cases h
              exact ⟨rfl, rfl, entry, m, hentry, hm, hrule, rfl, by simpa using hvalid⟩
            · cases h

/-- The matched nodes run on the device and are not cpu-preferred. -/
theorem findCandidate_supported {consumed : List Node} {c : Candidate F}
    (h : findCandidate env index (buildGraphConnectivity g) consumed anchor = some c) :
    ∀ n ∈ c.matched, n.id ∉ env.cpuPreferredNodeIds ∧ env.isSupported n = true := by
  unfold findCandidate at h
  split at h
  · cases h
  · split at h
    · cases h
    · split at h
      · cases h
      · split at h
        · cases h
        · dsimp only at h
          split at h
          · cases h
          · split at h
            · next hall =>
              cases h
              intro n hn
              simpa using List.all_eq_true.1 hall n hn
            · cases h

theorem findCandidate_wf {consumed : List Node} {c : Candidate F} (hanchor : anchor ∈ g.nodes)
    (h : findCandidate env index (buildGraphConnectivity g) consumed anchor = some c) :
    Wf g c := by
  obtain ⟨-, rfl, entry, m, -, hm, -, hfound, -⟩ := findCandidate_eq_some h
  obtain ⟨hnodup, -, hmem⟩ := matchPattern_spec hanchor hm
  have hsub : c.matched.Sublist m.allNodes := by
    rw [Candidate.matched, hfound]
    exact c.rule.capture_sublist env.toMatchEnv (buildGraphConnectivity g) m
  exact ⟨fun n hn => (hmem n (hsub.subset hn)).1, hnodup.sublist hsub,
    fun n hn => (hmem n (hsub.subset hn)).2⟩

/-- A turn leaves the state alone, or emits a candidate with a group of two nodes or more. -/
theorem fusionStep_cases (env : FusionEnv F) (index : AnchorIndex F) (g : Graph)
    (s : FusionState F) (anchor : Node) :
    fusionStep env index (buildGraphConnectivity g) s anchor = s ∨
      ∃ c : Candidate F,
        findCandidate env index (buildGraphConnectivity g) s.alreadyConsumed anchor = some c ∧
        2 ≤ (c.group (buildGraphConnectivity g)).length ∧
        fusionStep env index (buildGraphConnectivity g) s anchor =
          emitGroup (buildGraphConnectivity g) s c := by
  unfold fusionStep
  split
  · exact Or.inl rfl
  · next c hc =>
    split
    · exact Or.inl rfl
    · next hlen =>
      split
      · exact Or.inr ⟨c, hc, Nat.le_of_not_lt hlen, rfl⟩
      · exact Or.inl rfl

/-- What holds at first and is kept by every emission holds after the run. -/
theorem applyFusions_induction {P : FusionState F → Prop} (hinit : P {})
    (hemit : ∀ s (c : Candidate F), P s → c.anchor ∈ g.nodes →
      findCandidate env index (buildGraphConnectivity g) s.alreadyConsumed c.anchor = some c →
      2 ≤ (c.group (buildGraphConnectivity g)).length →
      P (emitGroup (buildGraphConnectivity g) s c)) :
    P (applyFusions env index g) := by
  have hrun : ∀ nodes ⊆ g.nodes, ∀ s, P s →
      P (nodes.foldl (fusionStep env index (buildGraphConnectivity g)) s) := by
    intro nodes
    induction nodes with
    | nil => exact fun _ _ hs => hs
    | cons anchor nodes ih =>
      intro hsub s hs
      obtain ⟨hanchor, hrest⟩ := List.cons_subset.1 hsub
      refine ih hrest _ ?_
      rcases fusionStep_cases env index g s anchor with heq | ⟨c, hc, hlen, heq⟩
      · rwa [heq]
      · rw [heq]
        obtain ⟨rfl, -⟩ := findCandidate_eq_some hc
        exact hemit s c hs hanchor hc hlen
  exact hrun g.nodes (List.Subset.refl _) _ hinit

end FusionManagerLemmas

/-! ## What a run emits -/

open FusionManagerLemmas

variable {F : Type} [FloatOps F]

/-- The groups that a run hands over, in order. -/
def emittedGroups (env : FusionEnv F) (index : AnchorIndex F) (g : Graph) : List (List Node) :=
  (applyFusions env index g).emitted.map (·.group (buildGraphConnectivity g))

/-- An emitted candidate is one that the turn of its anchor has found, and keeps two nodes or
more. -/
theorem emitted_found (env : FusionEnv F) (index : AnchorIndex F) (g : Graph) :
    ∀ c ∈ (applyFusions env index g).emitted, c.anchor ∈ g.nodes ∧
      findCandidate env index (buildGraphConnectivity g) c.alreadyConsumed c.anchor = some c ∧
      2 ≤ (c.group (buildGraphConnectivity g)).length := by
  refine applyFusions_induction (P := fun s => ∀ c ∈ s.emitted, c.anchor ∈ g.nodes ∧
    findCandidate env index (buildGraphConnectivity g) c.alreadyConsumed c.anchor = some c ∧
    2 ≤ (c.group (buildGraphConnectivity g)).length) (by simp) ?_
  intro s c hs hanchor hc hlen c' hc'
  rcases List.mem_append.1 hc' with hold | hnew
  · exact hs c' hold
  · rw [List.mem_singleton.1 hnew]
    obtain ⟨-, hconsumed, -⟩ := findCandidate_eq_some hc
    exact ⟨hanchor, hconsumed ▸ hc, hlen⟩

/-- It has distinct nodes of the graph that were not consumed before. -/
theorem emitted_wf (env : FusionEnv F) (index : AnchorIndex F) (g : Graph) :
    ∀ c ∈ (applyFusions env index g).emitted,
      Wf g c ∧ 2 ≤ (c.group (buildGraphConnectivity g)).length := by
  intro c hc
  obtain ⟨hanchor, hfound, hlen⟩ := emitted_found env index g c hc
  exact ⟨findCandidate_wf hanchor hfound, hlen⟩

/-- As long as no two groups have one hash, everything in a group is consumed. -/
theorem applyFusions_keyed (env : FusionEnv F) (index : AnchorIndex F) (g : Graph) :
    Keyed (buildGraphConnectivity g) (applyFusions env index g) := by
  refine applyFusions_induction ?_ fun s c hs hanchor hc _ => ?_
  · intro _
    exact ⟨List.Pairwise.nil, by simp, by simp⟩
  · exact keyed_emitGroup hs (findCandidate_wf hanchor hc) (findCandidate_eq_some hc).2.1

/-- As long as no two emitted groups have one hash, they are disjoint. -/
theorem fusions_disjoint {env : FusionEnv F} {index : AnchorIndex F} {g : Graph}
    (h : ((emittedGroups env index g).map groupHash).Nodup) :
    (emittedGroups env index g).Pairwise List.Disjoint :=
  (applyFusions_keyed env index g h).1

end AmdGpuEp.DirectML
