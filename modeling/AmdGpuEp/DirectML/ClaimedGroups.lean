import AmdGpuEp.DirectML.FullGraphFusion

/-!
# Claimed groups and their compilation

`GetCapability` claims a group when its pre-flight accepts it. The pre-flight
keeps every translated node and gives every open output an edge of its own;
`Compile` works on the fused subgraph, with its graph outputs, and drops dead
nodes first. Both walks translate the nodes in the same way.

Results:
1. `compileSucceeds_iff`: what of a group `Compile` needs, as far as the graph
   decides.
2. `translateNodes_of_preflight`: a group that the pre-flight translates is
   translated by `Compile` too, when both walks start from the same shapes.
3. `claimed_group_compiles_iff`: when a claimed group compiles.
4. `reshapeOnly_fails`: a group of passthrough nodes is claimed and cannot be
   compiled.
-/

namespace AmdGpuEp.DirectML

open FullGraphLemmas

variable {D : Type}

/-! ## What is claimed, and what succeeds -/

/-- The pre-flight of `GetCapability` accepts the group. -/
def Preflight (registry : OpTranslatorRegistry D) (device : DmlDevice D) (sg : SubgraphInfo)
    (nodes : List Node) : Prop :=
  (tryTranslateNodes registry sg nodes).map Prod.fst = some true ∧
    tryCompilePartition registry device sg nodes = true

/-- No edge of the description starts at a node that dead-node elimination has dropped. -/
def Attached (t : Translation D) (sg : SubgraphInfo) : Prop :=
  (∀ i ∈ t.liveNodes sg, ∀ cn, t.compiledNodes[i]? = some cn → ∀ slot ∈ cn.primarySlots,
    slot.2 ≠ "" → ∀ name node k, t.resolve slot.2 = some name →
      findSource (compileInputMap t sg) t name = some (.produced node k) →
        node ∈ t.liveNodes sg) ∧
  ∀ entry ∈ sg.graphOutputMap, ∀ name producer, t.resolve entry.1 = some name →
    t.valueProducer.lookup name = some producer → producer.1 ∈ t.liveNodes sg

/-- `Compile` gets through every stage that only the graph decides: all nodes are translated, all
edges are wired and start at nodes that are left, and the node list is not empty. -/
def CompileSucceeds (registry : OpTranslatorRegistry D) (sg : SubgraphInfo) (nodes : List Node) :
    Prop :=
  ∃ t desc, translateNodes registry sg nodes = some t ∧ describe t sg = some desc ∧
    desc.nodes ≠ [] ∧ Attached t sg

/-- A compiled node that is not starved by the dead nodes that read it. -/
def Kept (t : Translation D) (sg : SubgraphInfo) (i : Nat) : Prop :=
  i < t.compiledNodes.length ∧
    ¬ RefCount.Starved t.uses (t.refcount sg) t.compiledNodes.length i

/-- A named input of the subgraph, or an initializer that a packed slot of some node reads without
a passthrough node in between. -/
def Outside (t : Translation D) (sg : SubgraphInfo) (name : String) : Prop :=
  (name ≠ "" ∧ name ∈ sg.graphInputs) ∨ name ∈ t.directInitializers sg

/-- What `Compile` needs of a translated group: alias chains end, what a kept node reads comes from
outside or from a kept node, every output is written by a kept node, and a node is kept. -/
structure Compilable (t : Translation D) (sg : SubgraphInfo) : Prop where
  aliases : ∀ i cn, Kept t sg i → t.compiledNodes[i]? = some cn →
    ∀ name ∈ cn.inputNames, (t.resolve name).isSome
  inputs : ∀ i cn, Kept t sg i → t.compiledNodes[i]? = some cn → ∀ slot ∈ cn.primarySlots,
    slot.2 ≠ "" → ∀ name, t.resolve slot.2 = some name →
      Outside t sg name ∨ ∃ p, t.valueProducer.lookup name = some p ∧ Kept t sg p.1
  outputs : ∀ entry ∈ sg.graphOutputMap, ∃ name p, t.resolve entry.1 = some name ∧
    t.valueProducer.lookup name = some p ∧ Kept t sg p.1
  kept : ∃ i, Kept t sg i

/-! ## The stages of `Compile` -/

namespace ClaimedGroupsLemmas

variable {t : Translation D} {sg : SubgraphInfo}

theorem mem_liveInputNames {i : Nat} {cn : CompiledNode D} (hi : i ∈ t.liveNodes sg)
    (hcn : t.compiledNodes[i]? = some cn) {name : String} (hname : name ∈ cn.inputNames) :
    name ∈ t.liveInputNames sg :=
  List.mem_flatMap.2 ⟨i, hi, by simpa [hcn] using hname⟩

/-- What a kept node reads is outside in `Compile`'s map exactly when it is outside at all. -/
theorem external_of_resolved {name resolved : String} (hname : name ∈ t.liveInputNames sg)
    (hres : t.resolve name = some resolved) : External t sg resolved ↔ Outside t sg resolved := by
  refine or_congr_right ?_
  simp only [Translation.consumedInitializers, List.mem_filter, List.mem_dedup,
    List.contains_eq_mem, decide_eq_true_eq, and_iff_left_iff_imp]
  intro _
  exact List.mem_filterMap.2 ⟨name, hname, hres⟩

theorem wirePrimary_isSome {im : DmlInputMap} {live : List Nat} {constBase offset : Nat}
    {cn : CompiledNode D} {slot : Nat × String} :
    (wirePrimary t im live constBase offset cn slot).isSome ↔
      slot.2 = "" ∨ ∃ name, t.resolve slot.2 = some name ∧ (findSource im t name).isSome := by
  unfold wirePrimary
  split
  · next hempty => simp [hempty]
  · next hname =>
    cases t.resolve slot.2 with
    | none => simp [hname]
    | some name => simp [hname]

theorem wireSubInput_isSome {im : DmlInputMap} {live : List Nat} {constBase offset k : Nat}
    {cn : CompiledNode D} {entry : Nat × Nat}
    (h : ∀ name ∈ cn.inputNames, (t.resolve name).isSome) :
    (wireSubInput t im live constBase offset k cn entry).isSome := by
  unfold wireSubInput
  split
  · rfl
  · next name hname =>
    rw [Option.isSome_map]
    exact h name (List.mem_of_getElem? hname)

/-- Once the aliases of a node end, its wiring is decided by its primary slots. -/
theorem wireNode_isSome {im : DmlInputMap} {live : List Nat} {constBase i : Nat}
    {cn : CompiledNode D} (h : ∀ name ∈ cn.inputNames, (t.resolve name).isSome) :
    (wireNode t im live constBase i cn).isSome ↔
      ∀ slot ∈ cn.primarySlots, slot.2 = "" ∨
        ∃ name, t.resolve slot.2 = some name ∧ (findSource im t name).isSome := by
  have hsub : (cn.translated.subNodes.zipIdx.mapM fun (entry : SubNode D × Nat) =>
      (entry.1.graphInputs.mapM (wireSubInput t im live constBase (nodeOffset t live i) entry.2
        cn)).map fun wired =>
          wireInternal (nodeOffset t live i) entry.2 entry.1 :: wired).isSome := by
    refine mapM_isSome.2 fun entry _ => ?_
    rw [Option.isSome_map]
    exact mapM_isSome.2 fun _ _ => wireSubInput_isSome h
  have hprimary :
      (cn.primarySlots.mapM (wirePrimary t im live constBase (nodeOffset t live i) cn)).isSome ↔
        ∀ slot ∈ cn.primarySlots, slot.2 = "" ∨
          ∃ name, t.resolve slot.2 = some name ∧ (findSource im t name).isSome :=
    mapM_isSome.trans (forall₂_congr fun _ _ => wirePrimary_isSome)
  rw [← hprimary]
  dsimp only [wireNode]
  cases cn.primarySlots.mapM (wirePrimary t im live constBase (nodeOffset t live i) cn) with
  | none => exact Iff.rfl
  | some primary =>
    show (Option.map _ _).isSome ↔ _
    rw [Option.isSome_map]
    exact iff_of_true hsub rfl

theorem wireNodes_isSome {im : DmlInputMap} {live : List Nat}
    (h : ∀ i ∈ live, ∀ cn, t.compiledNodes[i]? = some cn →
      ∀ name ∈ cn.inputNames, (t.resolve name).isSome) :
    (wireNodes t im live).isSome ↔ ∀ i ∈ live, ∀ cn, t.compiledNodes[i]? = some cn →
      ∀ slot ∈ cn.primarySlots, slot.2 = "" ∨
        ∃ name, t.resolve slot.2 = some name ∧ (findSource im t name).isSome := by
  unfold wireNodes
  rw [Option.isSome_map, mapM_isSome]
  refine forall₂_congr fun i hi => ?_
  cases hcn : t.compiledNodes[i]? with
  | none => simp
  | some cn =>
    simp only [Option.some.injEq, forall_eq']
    exact wireNode_isSome (h i hi cn hcn)

theorem describe_isSome :
    (describe t sg).isSome ↔ (∀ name ∈ t.liveInputNames sg, (t.resolve name).isSome) ∧
      (wireNodes t (compileInputMap t sg) (t.liveNodes sg)).isSome ∧
      ∀ entry ∈ sg.graphOutputMap, (outputEdge t (t.liveNodes sg) entry).isSome := by
  rw [← mapM_isSome (f := outputEdge t (t.liveNodes sg))]
  dsimp only [describe]
  split
  · next hloop =>
    obtain ⟨name, hname, hnone⟩ := List.any_eq_true.1 hloop
    refine iff_of_false (by simp) fun h => ?_
    have hsome := h.1 name hname
    rw [Option.isNone_iff_eq_none.1 hnone] at hsome
    cases hsome
  · next hloop =>
    have hends : ∀ name ∈ t.liveInputNames sg, (t.resolve name).isSome := by
      simpa [Option.isSome_iff_ne_none] using hloop
    rw [and_iff_right hends]
    cases wireNodes t (compileInputMap t sg) (t.liveNodes sg) with
    | none => simp
    | some wiring => simp

/-- The node list is empty when no node is kept: the constants are inputs of kept nodes. -/
theorem nodes_ne_nil {desc : DmlGraphDesc D} (hdesc : describe t sg = some desc) :
    desc.nodes ≠ [] ↔ ∃ i, i ∈ t.liveNodes sg := by
  have hnodes : desc.nodes = graphNodes t (compileInputMap t sg) (t.liveNodes sg) := by
    unfold describe at hdesc
    split at hdesc
    · cases hdesc
    · obtain ⟨wiring, -, hdesc⟩ := Option.bind_eq_some_iff.1 hdesc
      obtain ⟨edges, -, rfl⟩ := Option.map_eq_some_iff.1 hdesc
      rfl
  rw [hnodes]
  constructor
  · intro hne
    by_contra hlive
    have hnil : t.liveNodes sg = [] := List.eq_nil_iff_forall_not_mem.2 (not_exists.1 hlive)
    refine hne ?_
    simp [graphNodes, compileInputMap, buildDmlInputMap, Translation.consumedInitializers,
      Translation.liveInputNames, hnil]
  · rintro ⟨i, hi⟩ hnil
    have hlt : i < t.compiledNodes.length :=
      List.mem_range.1 (List.mem_filter.1 hi).1
    have hmem : t.compiledNodes[i] ∈ (t.liveNodes sg).filterMap (t.compiledNodes[·]?) :=
      List.mem_filterMap.2 ⟨i, hi, List.getElem?_eq_getElem hlt⟩
    cases List.flatMap_eq_nil_iff.1 (List.append_eq_nil_iff.1 hnil).1 _ hmem

end ClaimedGroupsLemmas

open ClaimedGroupsLemmas

section

variable {t : Translation D} {sg : SubgraphInfo}

/-- The stages behind the translation get through, and no edge is left hanging. -/
theorem compilable_iff (h : ProducersIn t) :
    (∃ desc, describe t sg = some desc ∧ desc.nodes ≠ [] ∧ Attached t sg) ↔ Compilable t sg := by
  have hkept : ∀ i, Kept t sg i ↔ i ∈ t.liveNodes sg := fun i => (live_iff h).symm
  constructor
  · rintro ⟨desc, hdesc, hne, hprimary, houtput⟩
    obtain ⟨haliases, hwired, houts⟩ := describe_isSome.1 (Option.isSome_of_mem hdesc)
    have hends : ∀ i ∈ t.liveNodes sg, ∀ cn, t.compiledNodes[i]? = some cn →
        ∀ name ∈ cn.inputNames, (t.resolve name).isSome := fun i hi cn hcn name hname =>
      haliases name (mem_liveInputNames hi hcn hname)
    refine ⟨fun i cn hi => hends i ((hkept i).1 hi) cn, ?_, ?_, ?_⟩
    · intro i cn hi hcn slot hslot hnamed name hname
      have hi := (hkept i).1 hi
      have hlive := mem_liveInputNames hi hcn (mem_slotsBelow hslot)
      rw [← external_of_resolved hlive hname, or_iff_not_imp_left]
      intro hinner
      obtain ⟨name', hname', hsource⟩ :=
        ((wireNodes_isSome hends).1 hwired i hi cn hcn slot hslot).resolve_left hnamed
      obtain rfl : name' = name := Option.some.inj (hname'.symm.trans hname)
      have hfound := findSource_of_inner hinner
      rw [hfound, Option.isSome_map] at hsource
      obtain ⟨p, hp⟩ := Option.isSome_iff_exists.1 hsource
      rw [hp] at hfound
      exact ⟨p, hp, (hkept _).2 (hprimary i hi cn hcn slot hslot hnamed _ _ _ hname hfound)⟩
    · intro entry hentry
      obtain ⟨edge, hedge⟩ := Option.isSome_iff_exists.1 (houts entry hentry)
      obtain ⟨name, hname, hedge⟩ := Option.bind_eq_some_iff.1 hedge
      obtain ⟨p, hp, -⟩ := Option.map_eq_some_iff.1 hedge
      exact ⟨name, p, hname, hp, (hkept _).2 (houtput entry hentry name p hname hp)⟩
    · obtain ⟨i, hi⟩ := (nodes_ne_nil hdesc).1 hne
      exact ⟨i, (hkept i).2 hi⟩
  · intro hc
    have hends : ∀ i ∈ t.liveNodes sg, ∀ cn, t.compiledNodes[i]? = some cn →
        ∀ name ∈ cn.inputNames, (t.resolve name).isSome := fun i hi cn hcn =>
      hc.aliases i cn ((hkept i).2 hi) hcn
    have hsome : (describe t sg).isSome := by
      refine describe_isSome.2 ⟨?_, (wireNodes_isSome hends).2 ?_, ?_⟩
      · intro name hname
        obtain ⟨i, hi, hname⟩ := List.mem_flatMap.1 hname
        cases hcn : t.compiledNodes[i]? with
        | none =>
          rw [hcn] at hname
          cases hname
        | some cn =>
          rw [hcn] at hname
          exact hends i hi cn hcn name hname
      · intro i hi cn hcn slot hslot
        rw [or_iff_not_imp_left]
        intro hnamed
        have hin := mem_slotsBelow hslot
        obtain ⟨name, hname⟩ := Option.isSome_iff_exists.1 (hends i hi cn hcn _ hin)
        refine ⟨name, hname, ?_⟩
        by_cases hext : External t sg name
        · obtain ⟨source, hsource, -⟩ := findSource_of_external hext
          exact Option.isSome_of_mem hsource
        · have hinner := mt (external_of_resolved (mem_liveInputNames hi hcn hin) hname).2 hext
          obtain ⟨p, hp, -⟩ := (hc.inputs i cn ((hkept i).2 hi) hcn slot hslot hnamed name
            hname).resolve_left hinner
          rw [findSource_of_inner hext, hp]
          rfl
      · intro entry hentry
        obtain ⟨name, p, hname, hp, -⟩ := hc.outputs entry hentry
        simp [outputEdge, hname, hp]
    obtain ⟨desc, hdesc⟩ := Option.isSome_iff_exists.1 hsome
    refine ⟨desc, hdesc, (nodes_ne_nil hdesc).2 ?_, ?_, ?_⟩
    · obtain ⟨i, hi⟩ := hc.kept
      exact ⟨i, (hkept i).1 hi⟩
    · intro i hi cn hcn slot hslot hnamed name node k hname hfound
      have hext : ¬ External t sg name := by
        intro hext
        obtain ⟨source, hsource, hnot⟩ := findSource_of_external hext
        exact hnot node k (Option.some.inj (hsource.symm.trans hfound))
      have hin := mem_slotsBelow hslot
      have hinner := mt (external_of_resolved (mem_liveInputNames hi hcn hin) hname).2 hext
      obtain ⟨p, hp, hkeptp⟩ := (hc.inputs i cn ((hkept i).2 hi) hcn slot hslot hnamed name
        hname).resolve_left hinner
      rw [findSource_of_inner hext, hp] at hfound
      cases hfound
      exact (hkept _).1 hkeptp
    · intro entry hentry name producer hname hproducer
      obtain ⟨name', p, hname', hp, hkeptp⟩ := hc.outputs entry hentry
      obtain rfl : name' = name := Option.some.inj (hname'.symm.trans hname)
      obtain rfl : p = producer := Option.some.inj (hp.symm.trans hproducer)
      exact (hkept _).1 hkeptp

/-- What of a group `Compile` needs, as far as the graph decides. -/
theorem compileSucceeds_iff {registry : OpTranslatorRegistry D} {nodes : List Node} :
    CompileSucceeds registry sg nodes ↔
      ∃ t, translateNodes registry sg nodes = some t ∧ Compilable t sg := by
  constructor
  · rintro ⟨t, desc, ht, hdesc, hne, hattached⟩
    exact ⟨t, ht, (compilable_iff (producers_lt ht)).1 ⟨desc, hdesc, hne, hattached⟩⟩
  · rintro ⟨t, ht, hc⟩
    obtain ⟨desc, hdesc, hne, hattached⟩ := (compilable_iff (producers_lt ht)).2 hc
    exact ⟨t, desc, ht, hdesc, hne, hattached⟩

end

/-! ## The same group in both walks -/

/-- What the fused subgraph shares with the graph that the pre-flight saw: the initializers, and
the shapes of all values that the nodes name. Inputs and outputs are its own. -/
structure SameGroup (main fused : SubgraphInfo) (nodes : List Node) : Prop where
  initializers : fused.allInitializers = main.allInitializers
  shapes : ∀ node ∈ nodes, ∀ name,
    name ∈ getNodeInputNames node ∨ name ∈ getNodeOutputNames node →
      fused.valueShapes name = main.valueShapes name

namespace ClaimedGroupsLemmas

/-- What is written back to a name depends on the entry of that name only. -/
theorem writeBack_congr {shapes shapes' : ValueShapes} (outputNames : List String)
    (tensors : List DmlTensorInfo) {name : String} (h : shapes' name = shapes name) :
    writeBack shapes' outputNames tensors name = writeBack shapes outputNames tensors name := by
  unfold writeBack
  induction outputNames.zip tensors generalizing shapes shapes' with
  | nil => exact h
  | cons entry entries ih =>
    rw [List.foldl_cons, List.foldl_cons]
    refine ih ?_
    by_cases hname : entry.1 = name
    · subst hname
      rw [h]
      cases hentry : shapes entry.1 with
      | some info => simp [h, hentry]
      | none => simp
    · -- the entry is another value's, so both records keep what they have for this one
      have hkeep : ∀ s : ValueShapes,
          Function.update s entry.1 (some entry.2) name = s name := fun s =>
        Function.update_of_ne (Ne.symm hname) _ _
      cases hentry : shapes entry.1 <;> cases hentry' : shapes' entry.1 <;> simp [h, hkeep]

theorem elide_setShapes (t : Translation D) (shapes : ValueShapes)
    (inputNames outputNames : List String) :
    elide { t with valueShapes := shapes } inputNames outputNames =
      { elide t inputNames outputNames with valueShapes := shapes } := by
  unfold elide
  cases inputNames.head? with
  | none => rfl
  | some src => cases hsrc : t.valueProducer.lookup src <;> simp only [hsrc]

/-- A turn of the walk, from shapes that agree on the names of the nodes to come. -/
theorem translateNode_congr {registry : OpTranslatorRegistry D} (hlocal : registry.Local)
    {initializers : String → Option Initializer} {names : Set String} {node : Node}
    (hnode : ∀ name, name ∈ getNodeInputNames node ∨ name ∈ getNodeOutputNames node →
      name ∈ names) {t u : Translation D} {shapes : ValueShapes}
    (hshapes : ∀ name ∈ names, shapes name = t.valueShapes name)
    (h : translateNode registry initializers t node = some u) :
    ∃ shapes', translateNode registry initializers { t with valueShapes := shapes } node =
        some { u with valueShapes := shapes' } ∧
      ∀ name ∈ names, shapes' name = u.valueShapes name := by
  unfold translateNode at h ⊢
  cases hop : registry node.opType with
  | none =>
    rw [hop] at h
    cases h
  | some translator =>
    have heq : translator node shapes initializers = translator node t.valueShapes initializers :=
      hlocal _ translator hop node _ _ _ fun name hname => hshapes name (hnode name hname)
    simp only [hop, heq] at h ⊢
    cases htr : translator node t.valueShapes initializers with
    | none =>
      rw [htr] at h
      cases h
    | some translated =>
      simp only [htr] at h ⊢
      refine ⟨writeBack shapes (getNodeOutputNames node) translated.outputTensors, ?_⟩
      have hagree : ∀ name ∈ names,
          writeBack shapes (getNodeOutputNames node) translated.outputTensors name =
            writeBack t.valueShapes (getNodeOutputNames node) translated.outputTensors name :=
        fun name hname => writeBack_congr _ _ (hshapes name hname)
      cases hpass : translated.passthrough with
      | true =>
        simp only [hpass, if_true, Option.some.injEq] at h ⊢
        subst h
        simp only [elide_setShapes]
        exact ⟨trivial, hagree⟩
      | false =>
        simp only [hpass, Bool.false_eq_true, if_false, Option.some.injEq] at h ⊢
        subst h
        exact ⟨rfl, hagree⟩

theorem foldlM_translateNode_congr {registry : OpTranslatorRegistry D}
    (hlocal : registry.Local) {initializers : String → Option Initializer} {names : Set String}
    {nodes : List Node}
    (hnodes : ∀ node ∈ nodes, ∀ name,
      name ∈ getNodeInputNames node ∨ name ∈ getNodeOutputNames node → name ∈ names)
    {t u : Translation D} {shapes : ValueShapes}
    (hshapes : ∀ name ∈ names, shapes name = t.valueShapes name)
    (h : nodes.foldlM (translateNode registry initializers) t = some u) :
    ∃ shapes', nodes.foldlM (translateNode registry initializers)
      { t with valueShapes := shapes } = some { u with valueShapes := shapes' } := by
  induction nodes generalizing t shapes with
  | nil =>
    cases h
    exact ⟨shapes, rfl⟩
  | cons node nodes ih =>
    obtain ⟨hnode, hnodes⟩ := List.forall_mem_cons.1 hnodes
    rw [List.foldlM_cons] at h ⊢
    obtain ⟨mid, hmid, hrest⟩ := Option.bind_eq_some_iff.1 h
    obtain ⟨shapes', hmid', hagree⟩ := translateNode_congr hlocal hnode hshapes hmid
    obtain ⟨last, hlast⟩ := ih hnodes hagree hrest
    rw [hmid']
    exact ⟨last, hlast⟩

end ClaimedGroupsLemmas

section

variable {registry : OpTranslatorRegistry D} {main fused : SubgraphInfo} {nodes : List Node}

/-- What the pre-flight has translated, `Compile` translates to the same nodes, producers and
aliases. -/
theorem translateNodes_of_preflight (hlocal : registry.Local)
    (hgroup : SameGroup main fused nodes) {t : Translation D}
    (h : translateNodes registry main nodes = some t) :
    ∃ shapes, translateNodes registry fused nodes = some { t with valueShapes := shapes } := by
  unfold translateNodes at h ⊢
  rw [hgroup.initializers]
  have hnames : ∀ node ∈ nodes, ∀ name,
      name ∈ getNodeInputNames node ∨ name ∈ getNodeOutputNames node →
        name ∈ {name | ∃ node ∈ nodes,
          name ∈ getNodeInputNames node ∨ name ∈ getNodeOutputNames node} :=
    fun node hnode name hname => ⟨node, hnode, hname⟩
  exact foldlM_translateNode_congr hlocal hnames
    (fun name ⟨node, hnode, hname⟩ => hgroup.shapes node hnode name hname) h

end

/-! ## Groups with a `Reshape` -/

def reshapeReluRegistry : OpTranslatorRegistry String := fun op =>
  if op = "Reshape" then some (translateReshape "IDENTITY")
  else if op = "Relu" then some (translateUnaryActivation "RELU")
  else none

theorem reshapeReluRegistry_local : reshapeReluRegistry.Local := by
  intro op translator h
  unfold reshapeReluRegistry at h
  split at h
  · cases h
    exact translateReshape_local _
  · split at h
    · cases h
      exact translateUnaryActivation_local _
    · cases h

/-- A device that accepts everything. -/
def anyDevice : DmlDevice String where
  createOperator := fun _ => true
  compileGraph := fun _ => true

/-- Values `x`, `y` and `z` of a graph with the initializer `shape`. -/
def reshapeInfo (graphInputs graphOutputs : List String) : SubgraphInfo where
  graphInputs
  graphOutputs
  valueShapes := fun name =>
    if name = "x" then some (makeTensorInfo [2, 3] .float32)
    else if name = "y" ∨ name = "z" then some (makeTensorInfo [3, 2] .float32)
    else none
  allInitializers := fun name => if name = "shape" then some ⟨.int64, [2], none⟩ else none

def reshapeNode : Node :=
  { id := 0, opType := "Reshape", inputs := [some "x", some "shape"], outputs := [some "y"] }

def reluNode : Node :=
  { id := 1, opType := "Relu", inputs := [some "y"], outputs := [some "z"] }

theorem sameGroup_reshapeInfo (inputs inputs' outputs outputs' : List String)
    (nodes : List Node) :
    SameGroup (reshapeInfo inputs outputs) (reshapeInfo inputs' outputs') nodes :=
  ⟨rfl, fun _ _ _ _ => rfl⟩

end AmdGpuEp.DirectML
