import AmdGpuEp.DirectML.CapabilityTiers
import AmdGpuEp.Lib.Runs

/-!
# From a claimed group to its kernel

`CompileImpl` in `dml_ep.cc` and `CompileFusion` in `ep_fusion_manager.cc` know the
fused subgraph they are handed by the hash of its sorted node ids only. A group of
Tier-0 is looked up first, then a registered match, which is used up.

Results:
1. `groupHash_perm`: the order in which the nodes are listed does not matter.
2. `fusionMap_eq`: an entry of the map is the first match of its hash.
3. `dispatched`: in a run whose calls keep the hashes apart and compile what the
   last `GetCapability` has registered, every subgraph gets the match of its group.
4. `hiddenSigmoid_dropped`: two groups of one hash, of which the second is lost.
-/

namespace AmdGpuEp.DirectML

open FusionManagerLemmas CapabilityTiersLemmas

/-! ## Calls -/

/-- A registered group: its nodes, and the match and the rule it was found with. -/
structure Registration (F : Type) where
  nodes : List Node
  found : FusionMatch F

/-- What `ApplyFusions` registers for a candidate. -/
def Candidate.registration {F : Type} (gc : GraphConnectivity) (c : Candidate F) :
    Registration F where
  nodes := c.group gc
  found := { found := { c.found with allNodes := c.group gc }, rule := c.rule }

/-- `m_fusionMap` and `m_tier0GroupHashes`, and beside them the registered groups that were not
compiled yet. -/
structure DispatchState (F : Type) where
  fusionMap : UInt64 → Option (FusionMatch F) := fun _ => none
  tier0GroupHashes : List UInt64 := []
  pending : List (Registration F) := []

/-- Which kernel a subgraph is compiled to. -/
inductive CompiledBy (F : Type)
  | fullGraph
  | fusion (found : FusionMatch F)

/-- A call of the provider: `GetCapability` for a graph, or `Compile` for the fused subgraph of a
registered group, whose nodes are listed in some order. `fullGraphCompiles` is the answer of
`FullGraphFusion::Compile`. -/
inductive DispatchCall (F S : Type)
  | getCapability (env : CapabilityEnv F S) (g : Graph)
  | compile (group : Registration F) (nodes : List Node) (fullGraphCompiles : Bool)

section

variable {F S : Type}

/-- `CompileFusion`: the match of the hash is taken out of the map. -/
def compileFusion (s : DispatchState F) (nodes : List Node) :
    DispatchState F × Option (FusionMatch F) :=
  match s.fusionMap (groupHash nodes) with
  | none => (s, none)
  | some found =>
    ({ s with fusionMap := Function.update s.fusionMap (groupHash nodes) none }, some found)

/-- One subgraph of `CompileImpl`. Nothing is compiled when neither route has an answer. -/
def compileImpl (s : DispatchState F) (nodes : List Node) (fullGraphCompiles : Bool) :
    DispatchState F × Option (CompiledBy F) :=
  if s.tier0GroupHashes.contains (groupHash nodes) && fullGraphCompiles then (s, some .fullGraph)
  else
    let (s', found) := compileFusion s nodes
    (s', found.map .fusion)

/-- The state behind it. The group is no longer pending. -/
def afterCompile (s : DispatchState F) (group : Registration F) (nodes : List Node)
    (fullGraphCompiles : Bool) : DispatchState F :=
  { (compileImpl s nodes fullGraphCompiles).1 with
    pending := (compileImpl s nodes fullGraphCompiles).1.pending.filter fun other =>
      other.nodes != group.nodes }

variable [FloatOps F]

/-- What a call of `GetCapability` leaves behind. -/
def registerGroups (env : CapabilityEnv F S) (g : Graph) : DispatchState F :=
  let c := getCapability env g
  { fusionMap := c.fusion.fusionMap
    tier0GroupHashes := c.tier0.map groupHash
    pending := c.fusion.emitted.map (·.registration (buildGraphConnectivity g)) }

/-- The provider. -/
def dispatchMachine (F S : Type) [FloatOps F] :
    Machine (DispatchState F) (DispatchCall F S) (Option (CompiledBy F)) where
  step s call :=
    match call with
    | .getCapability env g => some (registerGroups env g, none)
    | .compile group nodes fullGraphCompiles =>
      some (afterCompile s group nodes fullGraphCompiles,
        (compileImpl s nodes fullGraphCompiles).2)

theorem step_getCapability (s : DispatchState F) (env : CapabilityEnv F S) (g : Graph) :
    (dispatchMachine F S).step s (.getCapability env g) = some (registerGroups env g, none) :=
  rfl

theorem step_compile (s : DispatchState F) (group : Registration F) (nodes : List Node)
    (fullGraphCompiles : Bool) :
    (dispatchMachine F S).step s (.compile group nodes fullGraphCompiles) =
      some (afterCompile s group nodes fullGraphCompiles,
        (compileImpl s nodes fullGraphCompiles).2) :=
  rfl

/-- The calls that keep groups apart: `GetCapability` finds groups with different hashes, and
`Compile` gets the nodes of a group that the last `GetCapability` has registered and that was not
compiled since. -/
def KeepsApart (s : DispatchState F) (call : DispatchCall F S) : Prop :=
  match call with
  | .getCapability env g =>
    (((getCapability env g).tier0 ++ (getCapability env g).fusedGroups g).map groupHash).Nodup
  | .compile group nodes _ => group ∈ s.pending ∧ nodes.Perm group.nodes

/-- What a call owes: every registered group can be looked up after `GetCapability`, and `Compile`
uses the match of the group whose subgraph it is handed. -/
def Dispatches (call : DispatchCall F S) (s' : DispatchState F)
    (answer : Option (CompiledBy F)) : Prop :=
  match call with
  | .getCapability env g =>
    ∀ c ∈ (getCapability env g).fusion.emitted,
      s'.fusionMap (groupHash (c.group (buildGraphConnectivity g))) =
        some (c.registration (buildGraphConnectivity g)).found
  | .compile group _ _ => answer = some (.fusion group.found)

end

/-! ## Hashes and the map -/

/-- The key of a group does not depend on the order in which its nodes are listed. -/
theorem groupHash_perm {nodes nodes' : List Node} (h : nodes.Perm nodes') :
    groupHash nodes = groupHash nodes' := by
  have hids : (nodes.map Node.id).insertionSort (· ≤ ·) =
      (nodes'.map Node.id).insertionSort (· ≤ ·) := by
    refine List.Perm.eq_of_sortedLE List.sortedLE_insertionSort List.sortedLE_insertionSort ?_
    exact (List.perm_insertionSort _ _).trans
      ((h.map Node.id).trans (List.perm_insertionSort _ _).symm)
  rw [groupHash, groupHash, hids]

section

variable {F S : Type} [FloatOps F]

/-- The map has, for each hash, the first match of that hash. -/
theorem fusionMap_eq (env : FusionEnv F) (index : AnchorIndex F) (g : Graph) (key : UInt64) :
    (applyFusions env index g).fusionMap key =
      ((applyFusions env index g).emitted.find? fun c =>
        groupHash (c.group (buildGraphConnectivity g)) == key).map fun c =>
          (c.registration (buildGraphConnectivity g)).found := by
  refine applyFusions_induction (P := fun s => s.fusionMap key = (s.emitted.find? fun c =>
    groupHash (c.group (buildGraphConnectivity g)) == key).map fun c =>
      (c.registration (buildGraphConnectivity g)).found) rfl ?_
  intro s c hs _ _ _
  show emplace s.fusionMap (groupHash (c.group (buildGraphConnectivity g))) _ key =
    ((s.emitted ++ [c]).find? _).map _
  rw [List.find?_append, Option.map_or, ← hs]
  by_cases hkey : key = groupHash (c.group (buildGraphConnectivity g))
  · subst hkey
    cases hmap : s.fusionMap (groupHash (c.group (buildGraphConnectivity g))) with
    | none =>
      rw [emplace_self hmap, Option.none_or]
      simp [Candidate.registration]
    | some old => simp [emplace, hmap]
  · rw [emplace_of_ne hkey]
    simp [beq_false_of_ne (Ne.symm hkey)]

/-- When the groups have different hashes, each is found under its own. -/
theorem fusionMap_registered {env : FusionEnv F} {index : AnchorIndex F} {g : Graph}
    (hkeys : ((emittedGroups env index g).map groupHash).Nodup) {c : Candidate F}
    (hc : c ∈ (applyFusions env index g).emitted) :
    (applyFusions env index g).fusionMap (groupHash (c.group (buildGraphConnectivity g))) =
      some (c.registration (buildGraphConnectivity g)).found := by
  rw [emittedGroups, List.map_map] at hkeys
  have hfind : (applyFusions env index g).emitted.find? (fun d =>
      groupHash (d.group (buildGraphConnectivity g)) ==
        groupHash (c.group (buildGraphConnectivity g))) = some c := by
    have hsome : ((applyFusions env index g).emitted.find? fun d =>
        groupHash (d.group (buildGraphConnectivity g)) ==
          groupHash (c.group (buildGraphConnectivity g))).isSome :=
      List.find?_isSome.2 ⟨c, hc, beq_self_eq_true _⟩
    obtain ⟨d, hd⟩ := Option.isSome_iff_exists.1 hsome
    have heq : groupHash (d.group (buildGraphConnectivity g)) =
        groupHash (c.group (buildGraphConnectivity g)) := by
      simpa using List.find?_some hd
    rw [hd, List.inj_on_of_nodup_map hkeys (List.mem_of_find?_eq_some hd) hc heq]
  rw [fusionMap_eq, hfind]
  rfl

/-! ## Runs -/

/-- Every pending group is found under its hash, which no partition and no other pending group
has. -/
structure Ready (s : DispatchState F) : Prop where
  found : ∀ group ∈ s.pending, s.fusionMap (groupHash group.nodes) = some group.found
  apart : ∀ group ∈ s.pending, groupHash group.nodes ∉ s.tier0GroupHashes
  keys : (s.pending.map fun group => groupHash group.nodes).Nodup

theorem ready_registerGroups {env : CapabilityEnv F S} {g : Graph}
    (h : KeepsApart ({} : DispatchState F) (.getCapability env g)) :
    Ready (registerGroups env g) := by
  have hnodup : (((getCapability env g).tier0 ++ (getCapability env g).fusedGroups g).map
      groupHash).Nodup := h
  rw [List.map_append] at hnodup
  obtain ⟨-, hfused, hdisj⟩ := List.nodup_append.1 hnodup
  have hmem : ∀ group ∈ (registerGroups env g).pending,
      ∃ c ∈ (getCapability env g).fusion.emitted,
        c.registration (buildGraphConnectivity g) = group :=
    fun group hgroup => List.mem_map.1 hgroup
  refine ⟨?_, ?_, ?_⟩
  · intro group hgroup
    obtain ⟨c, hc, rfl⟩ := hmem group hgroup
    exact fusionMap_registered hfused hc
  · intro group hgroup htier0
    obtain ⟨c, hc, rfl⟩ := hmem group hgroup
    exact hdisj _ htier0 _ (List.mem_map_of_mem (List.mem_map_of_mem hc)) rfl
  · show (((getCapability env g).fusion.emitted.map
      (·.registration (buildGraphConnectivity g))).map _).Nodup
    rw [List.map_map]
    rw [Capability.fusedGroups, List.map_map] at hfused
    exact hfused

omit [FloatOps F] in
/-- A pending group is compiled with its own match, and the others stay ready. -/
theorem ready_compile {s : DispatchState F} {group : Registration F} {nodes : List Node}
    (hs : Ready s) (hgroup : group ∈ s.pending) (hnodes : nodes.Perm group.nodes)
    (fullGraphCompiles : Bool) :
    (compileImpl s nodes fullGraphCompiles).2 = some (.fusion group.found) ∧
      Ready (afterCompile s group nodes fullGraphCompiles) := by
  have hkey := groupHash_perm hnodes
  have hcompile : compileImpl s nodes fullGraphCompiles =
      ({ s with fusionMap := Function.update s.fusionMap (groupHash group.nodes) none },
        some (.fusion group.found)) := by
    simp [compileImpl, compileFusion, hkey, hs.apart group hgroup, hs.found group hgroup]
  rw [afterCompile, hcompile]
  refine ⟨rfl, ?_, ?_, ?_⟩
  · intro other hother
    obtain ⟨hmem, hne⟩ := List.mem_filter.1 hother
    have hhash : groupHash other.nodes ≠ groupHash group.nodes := by
      intro heq
      obtain rfl := List.inj_on_of_nodup_map hs.keys hmem hgroup heq
      simp at hne
    show Function.update s.fusionMap _ _ _ = _
    rw [Function.update_of_ne hhash]
    exact hs.found other hmem
  · exact fun other hother => hs.apart other (List.mem_filter.1 hother).1
  · exact hs.keys.sublist (List.filter_sublist.map _)

/-- In every run whose calls keep the groups apart, every registered group is in the map, and the
subgraph of a group is compiled with the match and the rule of that group. -/
theorem dispatched {calls : List (DispatchCall F S)}
    (h : (dispatchMachine F S).Every (fun s call _ _ => KeepsApart s call) {} calls) :
    (dispatchMachine F S).Every (fun _ call s' answer => Dispatches call s' answer) {} calls := by
  refine Machine.Every.of_invariant Ready ?_ ⟨by simp, by simp, by simp⟩ h
  intro s call s' answer hs hstep hkeeps
  cases call with
  | getCapability env g =>
    obtain ⟨rfl, rfl⟩ : registerGroups env g = s' ∧ none = answer := by
      simpa [step_getCapability] using hstep
    have hready : Ready (registerGroups env g) := ready_registerGroups hkeeps
    exact ⟨hready, fun c hc => hready.found _ (List.mem_map_of_mem hc)⟩
  | compile group nodes fullGraphCompiles =>
    obtain ⟨hgroup, hnodes⟩ := hkeeps
    obtain ⟨hanswer, hready⟩ := ready_compile hs hgroup hnodes fullGraphCompiles
    obtain ⟨rfl, rfl⟩ : afterCompile s group nodes fullGraphCompiles = s' ∧
        (compileImpl s nodes fullGraphCompiles).2 = answer := by
      simpa [step_compile] using hstep
    exact ⟨hready, hanswer⟩

end

/-! ## Runs on the registered rules -/

/-- A `GetCapability`, and the compilation of all it has registered, with the nodes of each group
in reverse. -/
def capabilityRun (env : CapabilityEnv Rat Unit) (g : Graph) : List (DispatchCall Rat Unit) :=
  .getCapability env g ::
    (registerGroups env g).pending.map fun group => .compile group group.nodes.reverse true

theorem reluRead_dispatched :
    (dispatchMachine Rat Unit).Every (fun _ call s' answer => Dispatches call s' answer) {}
      (capabilityRun dynamicInputEnv reluRead) := by
  refine dispatched ((Machine.Every.cons (step_getCapability ..)).2 ⟨?_, ?_⟩)
  · show (List.map groupHash _).Nodup
    decide
  · obtain ⟨group, hgroup⟩ := List.length_eq_one_iff.1
      (show (registerGroups dynamicInputEnv reluRead).pending.length = 1 by decide)
    rw [hgroup]
    refine (Machine.Every.cons (step_compile ..)).2 ⟨⟨?_, List.reverse_perm _⟩, trivial⟩
    rw [hgroup]
    exact List.mem_singleton_self group

/-- The second group is not in the map, and its subgraph gets the match of the first one. -/
theorem hiddenSigmoid_dropped :
    ¬ (dispatchMachine Rat Unit).Every (fun _ call s' answer => Dispatches call s' answer) {}
        [.getCapability dynamicInputEnv hiddenSigmoid] ∧
      ((compileFusion (registerGroups dynamicInputEnv hiddenSigmoid)
        [hiddenSigmoid.nodes[2], hiddenSigmoid.nodes[4]]).2.map fun found =>
          found.found.allNodes.map Node.id) = some [1, 68] := by
  refine ⟨fun h => ?_, by decide⟩
  have hall : ∀ c ∈ (getCapability dynamicInputEnv hiddenSigmoid).fusion.emitted, _ :=
    ((Machine.Every.cons (step_getCapability ..)).1 h).1
  have hids : (getCapability dynamicInputEnv hiddenSigmoid).fusion.emitted.map (fun c =>
      ((registerGroups dynamicInputEnv hiddenSigmoid).fusionMap
        (groupHash (c.group (buildGraphConnectivity hiddenSigmoid)))).map fun found =>
          found.found.allNodes.map Node.id) =
      (getCapability dynamicInputEnv hiddenSigmoid).fusion.emitted.map fun c =>
        some ((c.group (buildGraphConnectivity hiddenSigmoid)).map Node.id) := by
    refine List.map_congr_left fun c hc => ?_
    rw [hall c hc]
    rfl
  revert hids
  decide

end AmdGpuEp.DirectML
