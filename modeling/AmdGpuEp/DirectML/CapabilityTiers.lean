import AmdGpuEp.DirectML.FusionGroups
import AmdGpuEp.DirectML.Tier0Partition

/-!
# The three tiers of `GetCapability`

`GetCapabilityImpl` in `dml_ep.cc` claims nodes in three passes: Tier-0 offers
each group of the partition until nothing changes any more, Tier-2 applies the
fusion rules, and Tier-1 claims what is left node by node. What the shape pass and
the pre-flight of a group answer is given.

Results:
1. `tier0Claims_disjoint`: the groups that Tier-0 claims are disjoint.
2. `groups_disjoint_iff`: the groups of Tier-2 are disjoint exactly when no group
   that another one of the same hash hides is met again.
3. `claims_sound_iff`: the same condition decides whether each node is claimed at
   most once; that no cpu-preferred node is claimed, and that what a tier rejects is
   offered to the next one, holds in every run.
4. `hiddenSigmoid_twice`: two groups with the ids 1, 68 and 2, 3 have one hash.
-/

namespace AmdGpuEp.DirectML

/-! ## The passes -/

/-- `resolved_shapes` and what is done with it: the pass over `Upsample` and `Resize`, and the
pre-flight of a group (`ValidateTier0`, `TryTranslateNodes`, which exports shapes, and
`TryCompilePartition`). -/
structure ShapePass (S : Type) where
  empty : S
  size : S → Nat
  resolve : S → S
  preflight : S → List Node → Bool × S

/-- What `GetCapability` is given beside the graph. -/
structure CapabilityEnv (F S : Type) extends MatchEnv F where
  tier0 : Tier0Env
  allGraphInputsStatic : Bool
  shapes : ShapePass S
  addNodesToFuse : List (List Node) → List Node → Bool

/-- `resolved_shapes` and the claimed groups, in order. -/
structure ClaimState (S : Type) where
  shapes : S
  claimed : List (List Node) := []

section

variable {F S : Type}

/-- One group of the claim loop. A group that fails is offered again in the next round. -/
def tryClaim (env : CapabilityEnv F S) (s : ClaimState S) (group : List Node) : ClaimState S :=
  if group ∈ s.claimed then s
  else
    let (passed, shapes) := env.shapes.preflight s.shapes group
    if passed && env.addNodesToFuse s.claimed group then
      { shapes, claimed := s.claimed ++ [group] }
    else { s with shapes }

/-- The resolve-and-claim loop: it stops when a round has neither resolved a shape nor claimed a
node. -/
def claimLoop (env : CapabilityEnv F S) (groups : List (List Node)) :
    Nat → ClaimState S → ClaimState S
  | 0, s => s
  | iter + 1, s =>
    let s' := groups.foldl (tryClaim env) { s with shapes := env.shapes.resolve s.shapes }
    if env.shapes.size s.shapes < env.shapes.size s'.shapes ∨
        s.claimed.flatten.length < s'.claimed.flatten.length then
      claimLoop env groups iter s'
    else s'

/-- The groups that Tier-0 claims. -/
def tier0Claims (env : CapabilityEnv F S) (g : Graph) : List (List Node) :=
  if env.allGraphInputsStatic then
    (claimLoop env (Tier0.groupList (Tier0.run env.tier0 g.nodes)) 10
      { shapes := env.shapes.empty }).claimed
  else []

/-- What Tier-2 is given. Nodes in a claimed partition count as cpu-preferred. -/
def CapabilityEnv.fusionEnv (env : CapabilityEnv F S) (claimed : List (List Node)) :
    FusionEnv F where
  toMatchEnv := env.toMatchEnv
  isSupported := env.tier0.isNodeSupportedByDml
  cpuPreferredNodeIds := env.tier0.cpuPreferredNodes ++ claimed.flatten.map Node.id
  addNodesToFuse := fun taken group => env.addNodesToFuse (claimed ++ taken) group

/-- The claims of a call: the partitions, what `ApplyFusions` leaves, and the single nodes. -/
structure Capability (F : Type) where
  tier0 : List (List Node)
  fusion : FusionState F
  singles : List Node

/-- `GetCapabilityImpl`. -/
def getCapability [FloatOps F] (env : CapabilityEnv F S) (g : Graph) : Capability F :=
  let tier0 := tier0Claims env g
  let fusion := applyFusions (env.fusionEnv tier0) (buildAnchorIndex allRules) g
  { tier0
    fusion
    singles := g.nodes.filter fun node =>
      !(tier0.flatten.map Node.id).contains node.id && !fusion.fusedNodeIds.contains node.id &&
        !env.tier0.cpuPreferredNodes.contains node.id && env.tier0.isNodeSupportedByDml node }

end

namespace Capability

variable {F : Type}

/-- The groups of Tier-2. -/
def fusedGroups (c : Capability F) (g : Graph) : List (List Node) :=
  c.fusion.emitted.map (·.group (buildGraphConnectivity g))

/-- Every claim, group by group and node by node. -/
def claims (c : Capability F) (g : Graph) : List Node :=
  c.tier0.flatten ++ (c.fusedGroups g).flatten ++ c.singles

end Capability

/-! ## What the passes claim -/

namespace CapabilityTiersLemmas

open FusionManagerLemmas

section

variable {F S : Type} {env : CapabilityEnv F S} {groups : List (List Node)}

/-- Tier-0 claims groups that it was offered, each once. -/
structure Offered (groups : List (List Node)) (s : ClaimState S) : Prop where
  sub : s.claimed ⊆ groups
  nodup : s.claimed.Nodup

theorem offered_tryClaim {s : ClaimState S} {group : List Node} (hs : Offered groups s)
    (hgroup : group ∈ groups) : Offered groups (tryClaim env s group) := by
  unfold tryClaim
  split
  · exact hs
  · next hnew =>
    dsimp only
    split
    · refine ⟨List.append_subset.2 ⟨hs.sub, List.cons_subset.2 ⟨hgroup, List.nil_subset _⟩⟩, ?_⟩
      exact hs.nodup.append (List.nodup_singleton group) (List.disjoint_singleton.2 hnew)
    · exact ⟨hs.sub, hs.nodup⟩

theorem offered_claimLoop (iter : Nat) {s : ClaimState S} (hs : Offered groups s) :
    Offered groups (claimLoop env groups iter s) := by
  have hround : ∀ l ⊆ groups, ∀ s : ClaimState S, Offered groups s →
      Offered groups (l.foldl (tryClaim env) s) := by
    intro l
    induction l with
    | nil => exact fun _ s hs => hs
    | cons group l ih =>
      intro hsub s hs
      obtain ⟨hgroup, hrest⟩ := List.cons_subset.1 hsub
      exact ih hrest _ (offered_tryClaim hs hgroup)
  induction iter generalizing s with
  | zero => exact hs
  | succ iter ih =>
    have hs' := hround groups (List.Subset.refl _)
      { s with shapes := env.shapes.resolve s.shapes } ⟨hs.sub, hs.nodup⟩
    unfold claimLoop
    dsimp only
    split
    · exact ih hs'
    · exact hs'

theorem tier0Claims_offered (env : CapabilityEnv F S) (g : Graph) :
    tier0Claims env g ⊆ Tier0.groupList (Tier0.run env.tier0 g.nodes) ∧
      (tier0Claims env g).Nodup := by
  unfold tier0Claims
  split
  · have hstart : Offered (Tier0.groupList (Tier0.run env.tier0 g.nodes))
        { shapes := env.shapes.empty } := ⟨List.nil_subset _, List.nodup_nil⟩
    obtain ⟨hsub, hnodup⟩ : Offered _ (claimLoop env _ 10 { shapes := env.shapes.empty }) :=
      offered_claimLoop 10 hstart
    exact ⟨hsub, hnodup⟩
  · exact ⟨List.nil_subset _, List.nodup_nil⟩

theorem tier0Claims_nodup (env : CapabilityEnv F S) (g : Graph) :
    (tier0Claims env g).flatten.Nodup := by
  obtain ⟨hsub, hnodup⟩ := tier0Claims_offered env g
  refine List.nodup_flatten.2 ⟨fun nodes hnodes => groups_nodup _ g nodes (hsub hnodes), ?_⟩
  have hsymm : Std.Symm (List.Disjoint (α := Node)) := ⟨fun _ _ h => List.Disjoint.symm h⟩
  exact hnodup.imp_of_mem fun ha hb hne =>
    (groups_disjoint env.tier0 g).forall (hsub ha) (hsub hb) hne

/-- A claimed partition has nodes of the graph that are not cpu-preferred. -/
theorem of_mem_tier0Claims {env : CapabilityEnv F S} {g : Graph} {n : Node}
    (hn : n ∈ (tier0Claims env g).flatten) :
    n ∈ g.nodes ∧ n.id ∉ env.tier0.cpuPreferredNodes := by
  obtain ⟨nodes, hnodes, hmem⟩ := List.mem_flatten.1 hn
  have hcover := (groups_cover env.tier0 g n).1
    (List.mem_flatten.2 ⟨nodes, (tier0Claims_offered env g).1 hnodes, hmem⟩)
  refine ⟨hcover.1, ?_⟩
  have hfuse := hcover.2
  simp only [Tier0Env.isFuseable, Bool.and_eq_true, Bool.not_eq_true',
    List.contains_eq_mem, decide_eq_false_iff_not] at hfuse
  exact hfuse.1.1

end

/-! ### Groups with one hash -/

section

variable {F : Type}

/-- A group `b` whose hash an earlier group has is not met again. -/
def HiddenFree (groups : List (List Node)) : Prop :=
  ∀ a b c, [a, b, c].Sublist groups → groupHash a = groupHash b → b.Disjoint c

theorem sublist_concat {gs : List (List Node)} {new : List Node} {l : List (List Node)} :
    l.Sublist (gs ++ [new]) ↔ l.Sublist gs ∨ ∃ l', l = l' ++ [new] ∧ l'.Sublist gs := by
  rw [List.sublist_append_iff]
  constructor
  · rintro ⟨l₁, l₂, rfl, h₁, h₂⟩
    rcases List.sublist_singleton.1 h₂ with rfl | rfl
    · exact Or.inl (by simpa using h₁)
    · exact Or.inr ⟨l₁, rfl, h₁⟩
  · rintro (h | ⟨l', rfl, h⟩)
    · exact ⟨l, [], by simp, h, List.nil_sublist _⟩
    · exact ⟨l', [new], rfl, h, List.Sublist.refl _⟩

/-- What is consumed, what is in the map, and which groups are disjoint: a group whose hash no
earlier one has is consumed, and so disjoint from the later ones. -/
structure Taken (gc : GraphConnectivity) (s : FusionState F) : Prop where
  consumed : ∀ b ∈ s.emitted.map (·.group gc), b ⊆ s.alreadyConsumed ∨
    ∃ a, [a, b].Sublist (s.emitted.map (·.group gc)) ∧ groupHash a = groupHash b
  keys : ∀ key, s.fusionMap key ≠ none →
    ∃ a ∈ s.emitted.map (·.group gc), groupHash a = key
  disjoint : ∀ b c, [b, c].Sublist (s.emitted.map (·.group gc)) → b.Disjoint c ∨
    ∃ a, [a, b, c].Sublist (s.emitted.map (·.group gc)) ∧ groupHash a = groupHash b
  ids : s.fusedNodeIds = (s.emitted.map (·.group gc)).flatten.map Node.id

theorem taken_emitGroup {g : Graph} {s : FusionState F} {c : Candidate F}
    (hs : Taken (buildGraphConnectivity g) s) (hwf : Wf g c)
    (hc : c.alreadyConsumed = s.alreadyConsumed) :
    Taken (buildGraphConnectivity g) (emitGroup (buildGraphConnectivity g) s c) := by
  have hgroups : (emitGroup (buildGraphConnectivity g) s c).emitted.map
      (·.group (buildGraphConnectivity g)) =
        s.emitted.map (·.group (buildGraphConnectivity g)) ++
          [c.group (buildGraphConnectivity g)] := by
    simp [emitGroup]
  have hfresh : ∀ b : List Node, b ⊆ s.alreadyConsumed →
      b.Disjoint (c.group (buildGraphConnectivity g)) := by
    intro b hb n hn hn'
    exact hwf.fresh n (mem_group.1 hn').1 (hc ▸ hb hn)
  refine ⟨?_, ?_, ?_, ?_⟩
  · rw [hgroups]
    intro b hb
    rcases List.mem_append.1 hb with hb | hb
    · rcases hs.consumed b hb with hsub | ⟨a, ha, hhash⟩
      · exact Or.inl fun n hn => List.mem_append_left _ (hsub hn)
      · exact Or.inr ⟨a, sublist_concat.2 (Or.inl ha), hhash⟩
    · obtain rfl := List.mem_singleton.1 hb
      cases hmap : s.fusionMap (groupHash (c.group (buildGraphConnectivity g))) with
      | none =>
        refine Or.inl fun n hn => List.mem_append_right _ ?_
        rw [emplace_self hmap]
        exact hn
      | some old =>
        obtain ⟨a, ha, hhash⟩ := hs.keys _ (hmap ▸ Option.some_ne_none old)
        exact Or.inr ⟨a, sublist_concat.2 (Or.inr ⟨[a], rfl, List.singleton_sublist.2 ha⟩), hhash⟩
  · rw [hgroups]
    intro key hkey
    by_cases hk : key = groupHash (c.group (buildGraphConnectivity g))
    · exact ⟨_, List.mem_append_right _ (List.mem_singleton_self _), hk.symm⟩
    · have hold : s.fusionMap key ≠ none := by
        have hemplace : (emitGroup (buildGraphConnectivity g) s c).fusionMap key =
            s.fusionMap key := emplace_of_ne hk
        rwa [hemplace] at hkey
      obtain ⟨a, ha, hhash⟩ := hs.keys key hold
      exact ⟨a, List.mem_append_left _ ha, hhash⟩
  · rw [hgroups]
    intro b d hsub
    rcases sublist_concat.1 hsub with hold | ⟨l', hl', hlast⟩
    · rcases hs.disjoint b d hold with hdisj | ⟨a, ha, hhash⟩
      · exact Or.inl hdisj
      · exact Or.inr ⟨a, sublist_concat.2 (Or.inl ha), hhash⟩
    · have heq : [b] ++ [d] = l' ++ [c.group (buildGraphConnectivity g)] := hl'
      obtain ⟨rfl, hd⟩ := List.append_inj' heq rfl
      obtain rfl := List.singleton_inj.1 hd
      rcases hs.consumed b (List.singleton_sublist.1 hlast) with hcons | ⟨a, ha, hhash⟩
      · exact Or.inl (hfresh b hcons)
      · exact Or.inr ⟨a, sublist_concat.2 (Or.inr ⟨[a, b], rfl, ha⟩), hhash⟩
  · rw [hgroups, List.flatten_append, List.map_append, ← hs.ids]
    simp [emitGroup]

variable [FloatOps F]

theorem applyFusions_taken (env : FusionEnv F) (index : AnchorIndex F) (g : Graph) :
    Taken (buildGraphConnectivity g) (applyFusions env index g) := by
  refine applyFusions_induction ⟨by simp, by simp, by simp, rfl⟩ fun s c hs hanchor hc _ => ?_
  exact taken_emitGroup hs (findCandidate_wf hanchor hc) (findCandidate_eq_some hc).2.1

end

end CapabilityTiersLemmas

/-! ## Results -/

open CapabilityTiersLemmas FusionManagerLemmas

section

variable {F S : Type} [FloatOps F]

omit [FloatOps F] in
theorem tier0Claims_disjoint (env : CapabilityEnv F S) (g : Graph) :
    (tier0Claims env g).Pairwise List.Disjoint :=
  (List.nodup_flatten.1 (tier0Claims_nodup env g)).2

/-- The groups of Tier-2 are disjoint exactly when no hidden group is met again. -/
theorem groups_disjoint_iff (env : CapabilityEnv F S) (g : Graph) :
    ((getCapability env g).fusedGroups g).Pairwise List.Disjoint ↔
      HiddenFree ((getCapability env g).fusedGroups g) := by
  have h := applyFusions_taken (env.fusionEnv (tier0Claims env g)) (buildAnchorIndex allRules) g
  rw [List.pairwise_iff_forall_sublist]
  constructor
  · intro hdisj a b c hsub _
    exact hdisj ((List.sublist_cons_self a [b, c]).trans hsub)
  · intro hfree b c hsub
    rcases h.disjoint b c hsub with hdisj | ⟨a, ha, hhash⟩
    · exact hdisj
    · exact hfree a b c ha hhash

/-- What the three tiers owe each other: each node is claimed at most once, no cpu-preferred node
is claimed, a node that Tier-0 has not claimed is offered to Tier-2, and a node that neither has
claimed becomes a single node if the device runs it. -/
structure SoundClaims (env : CapabilityEnv F S) (g : Graph) (c : Capability F) : Prop where
  once : (c.claims g).Nodup
  notCpu : ∀ n ∈ c.claims g, n.id ∉ env.tier0.cpuPreferredNodes
  offeredTier2 : ∀ n ∈ g.nodes, n ∉ c.tier0.flatten → n.id ∉ env.tier0.cpuPreferredNodes →
    n.id ∉ (env.fusionEnv c.tier0).cpuPreferredNodeIds
  offeredTier1 : ∀ n ∈ g.nodes, n ∉ c.tier0.flatten → n ∉ (c.fusedGroups g).flatten →
    n.id ∉ env.tier0.cpuPreferredNodes → env.tier0.isNodeSupportedByDml n = true →
    n ∈ c.singles

/-- The claims are sound exactly when no group of Tier-2 whose hash an earlier group has shares a
node with a later one. -/
theorem claims_sound_iff (env : CapabilityEnv F S) (g : Graph) :
    SoundClaims env g (getCapability env g) ↔
      HiddenFree ((getCapability env g).fusedGroups g) := by
  rw [← groups_disjoint_iff]
  have hfused := emitted_found (env.fusionEnv (tier0Claims env g)) (buildAnchorIndex allRules) g
  have htaken :=
    applyFusions_taken (env.fusionEnv (tier0Claims env g)) (buildAnchorIndex allRules) g
  -- a fused node runs on the device and is in no partition
  have hnode : ∀ n ∈ ((getCapability env g).fusedGroups g).flatten, n ∈ g.nodes ∧
      n.id ∉ env.tier0.cpuPreferredNodes ∧ n.id ∉ (tier0Claims env g).flatten.map Node.id := by
    intro n hn
    obtain ⟨nodes, hnodes, hmem⟩ := List.mem_flatten.1 hn
    obtain ⟨c, hc, rfl⟩ := List.mem_map.1 hnodes
    obtain ⟨hanchor, hfound, -⟩ := hfused c hc
    have hmatched := (mem_group.1 hmem).1
    have hfree := (findCandidate_supported hfound n hmatched).1
    refine ⟨(findCandidate_wf hanchor hfound).nodes n hmatched, ?_⟩
    exact not_or.1 (mt List.mem_append.2 hfree)
  have hids : (getCapability env g).fusion.fusedNodeIds =
      ((getCapability env g).fusedGroups g).flatten.map Node.id := htaken.ids
  have hsingle : ∀ n, n ∈ (getCapability env g).singles ↔
      n ∈ g.nodes ∧ n.id ∉ (tier0Claims env g).flatten.map Node.id ∧
        n.id ∉ ((getCapability env g).fusedGroups g).flatten.map Node.id ∧
        n.id ∉ env.tier0.cpuPreferredNodes ∧ env.tier0.isNodeSupportedByDml n = true := by
    intro n
    rw [← hids]
    simp [getCapability, and_assoc]
  -- among nodes of the graph, ids stand for nodes
  have hid : ∀ n ∈ g.nodes, ∀ l ⊆ g.nodes, n.id ∈ l.map Node.id → n ∈ l := by
    intro n hn l hl hmem
    obtain ⟨m, hm, heq⟩ := List.mem_map.1 hmem
    exact Graph.id_inj (hl hm) hn heq ▸ hm
  constructor
  · intro h
    have hnodup := (List.nodup_append.1 (List.nodup_append.1 h.once).1).2.1
    exact (List.nodup_flatten.1 hnodup).2
  · intro hdisj
    refine ⟨?_, ?_, ?_, ?_⟩
    · have hflat : ((getCapability env g).fusedGroups g).flatten.Nodup := by
        refine List.nodup_flatten.2 ⟨fun nodes hnodes => ?_, hdisj⟩
        obtain ⟨c, hc, rfl⟩ := List.mem_map.1 hnodes
        exact (findCandidate_wf (hfused c hc).1 (hfused c hc).2.1).nodup.filter _
      refine ((tier0Claims_nodup env g).append hflat ?_).append (g.nodes_nodup.filter _) ?_
      · intro n hn hn'
        exact (hnode n hn').2.2 (List.mem_map_of_mem hn)
      · intro n hn hn'
        obtain ⟨-, h0, h2, -⟩ := (hsingle n).1 hn'
        rcases List.mem_append.1 hn with hn | hn
        · exact h0 (List.mem_map_of_mem hn)
        · exact h2 (List.mem_map_of_mem hn)
    · intro n hn
      rcases List.mem_append.1 hn with hn | hn
      · rcases List.mem_append.1 hn with hn | hn
        · exact (of_mem_tier0Claims hn).2
        · exact (hnode n hn).2.1
      · exact ((hsingle n).1 hn).2.2.2.1
    · intro n hn h0 hcpu hmem
      rcases List.mem_append.1 hmem with hmem | hmem
      · exact hcpu hmem
      · exact h0 (hid n hn _ (fun m hm => (of_mem_tier0Claims hm).1) hmem)
    · intro n hn h0 h2 hcpu hsupp
      refine (hsingle n).2 ⟨hn, fun hmem => ?_, fun hmem => ?_, hcpu, hsupp⟩
      · exact h0 (hid n hn _ (fun m hm => (of_mem_tier0Claims hm).1) hmem)
      · exact h2 (hid n hn _ (fun m hm => (hnode m hm).1) hmem)

end

/-! ## Two groups with one hash -/

/-- A device that runs every node, for a graph with a dynamic input. -/
def dynamicInputEnv : CapabilityEnv Rat Unit where
  initializers := fun name => if name = "c" then some ⟨.float, [], [2]⟩ else none
  valueInfo := fun _ => none
  tier0 := { cpuPreferredNodes := [], isNodeSupportedByDml := fun _ => true, translators := [] }
  allGraphInputsStatic := false
  shapes := { empty := (), size := fun _ => 0, resolve := id, preflight := fun s _ => (false, s) }
  addNodesToFuse := fun _ _ => true

/-- `Relu(MatMul(a, w))` and `Sigmoid(Div(MatMul(a, u), c))`, the latter multiplied by the input of
the `Sigmoid`. -/
def hiddenSigmoid : Graph :=
  Graph.ofNodes
    [{ id := 0, opType := "Identity", inputs := [some "in"], outputs := [some "a"] },
     { id := 1, opType := "MatMul", inputs := [some "a", some "w"], outputs := [some "m1"] },
     { id := 2, opType := "MatMul", inputs := [some "a", some "u"], outputs := [some "m2"] },
     { id := 70, opType := "Div", inputs := [some "m2", some "c"], outputs := [some "x"] },
     { id := 3, opType := "Sigmoid", inputs := [some "x"], outputs := [some "s"] },
     { id := 71, opType := "Mul", inputs := [some "x", some "s"], outputs := [some "y"] },
     { id := 68, opType := "Relu", inputs := [some "m1"], outputs := [some "r"] }]
    ["in", "w", "u"] ["r", "y"] (by decide) (by decide) (by decide) (by decide)

theorem hiddenSigmoid_twice :
    ((getCapability dynamicInputEnv hiddenSigmoid).fusedGroups hiddenSigmoid).map
        (List.map Node.id) = [[1, 68], [2, 3], [3, 71]] ∧
      ¬ SoundClaims dynamicInputEnv hiddenSigmoid (getCapability dynamicInputEnv hiddenSigmoid) := by
  refine ⟨by decide, fun h => ?_⟩
  have honce : ((getCapability dynamicInputEnv hiddenSigmoid).claims hiddenSigmoid).Nodup := h.once
  revert honce
  decide

end AmdGpuEp.DirectML
