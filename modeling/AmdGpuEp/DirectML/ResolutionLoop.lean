import AmdGpuEp.DirectML.ShapeResolution
import Mathlib.Data.Finset.Card

/-!
# The loop of the shape resolution

The passes go on as long as one of them records a value or a shape. Each of the three
branches that set the flag records a name that had nothing before: the forward
evaluation and the backward walk only meet values that are not recorded, and the
output of an `Upsample` or `Resize` has no shape when it is resolved. The shape is
also written for the outputs of the `Cast` behind it, and there nothing is asked.

Results:
1. `visitNode_spec`: what one visit records.
2. `loop_terminates`: the loop ends, values are kept, and nothing becomes unresolved.
3. `loop_sound`: shapes are kept too when no `Cast` is resolved before the node in
   front of it.
4. `loop_rewrites`: one that is gets another shape.
-/

namespace AmdGpuEp.DirectML

/-! ## Names -/

namespace StaticGraph

/-- The first output of an `Upsample` or `Resize` has a name. -/
def Named (sg : StaticGraph) : Prop :=
  ∀ n ∈ sg.graph.nodes, n.opType = "Upsample" ∨ n.opType = "Resize" →
    n.outputs.head? ≠ some none

instance (sg : StaticGraph) : Decidable sg.Named :=
  inferInstanceAs (Decidable (∀ n ∈ sg.graph.nodes, _ → _))

/-- The names that can be recorded; the empty one is that of a missing output. -/
def names (sg : StaticGraph) : Finset String :=
  insert "" sg.graph.written.toFinset

/-- The number of values and of shapes that are not there. -/
def unresolved (sg : StaticGraph) (s : EvalState) : Nat :=
  (sg.names.filter fun name => s.resolvedValues name = none).card +
    (sg.names.filter fun name => s.resolvedShapes name = none).card

/-- No `Cast` behind an `Upsample` or `Resize` is resolved before it. -/
def CastsBehind (sg : StaticGraph) (s : EvalState) : Prop :=
  ∀ n ∈ sg.graph.nodes, n.opType = "Upsample" ∨ n.opType = "Resize" →
    ∀ output, n.outputs.head?.join = some output → s.resolvedShapes output = none →
      ∀ c, sg.castBehind output = some c → ∀ name ∈ c.outputNames, s.resolvedShapes name = none

end StaticGraph

/-- Values stay what they are, and what has a shape keeps one. -/
structure EvalState.Keeps (s s' : EvalState) : Prop where
  values : ∀ name v, s.resolvedValues name = some v → s'.resolvedValues name = some v
  shapes : ∀ name, s.resolvedShapes name ≠ none → s'.resolvedShapes name ≠ none

/-- Shapes stay what they are. -/
def EvalState.KeepsShapes (s s' : EvalState) : Prop :=
  ∀ name dims, s.resolvedShapes name = some dims → s'.resolvedShapes name = some dims

/-- A name is recorded that had nothing before. -/
def EvalState.Resolves (sg : StaticGraph) (s s' : EvalState) : Prop :=
  ∃ name ∈ sg.names,
    (s.resolvedValues name = none ∧ s'.resolvedValues name ≠ none) ∨
      (s.resolvedShapes name = none ∧ s'.resolvedShapes name ≠ none)

/-! ## One visit -/

namespace ResolutionLoopLemmas

open ShapeResolutionLemmas EvalState

variable {undef : ResizeUndefined} {sg : StaticGraph} {s s' s'' : EvalState} {node : Node}

theorem keeps_refl (s : EvalState) : s.Keeps s :=
  ⟨fun _ _ h => h, fun _ h => h⟩

theorem keeps_trans (h : s.Keeps s') (h' : s'.Keeps s'') : s.Keeps s'' :=
  ⟨fun name v hv => h'.values name v (h.values name v hv),
    fun name hname => h'.shapes name (h.shapes name hname)⟩

theorem value_none_of_keeps (h : s.Keeps s') {name : String}
    (hnone : s'.resolvedValues name = none) : s.resolvedValues name = none := by
  cases hv : s.resolvedValues name with
  | none => rfl
  | some v =>
    rw [h.values name v hv] at hnone
    cases hnone

theorem shape_none_of_keeps (h : s.Keeps s') {name : String}
    (hnone : s'.resolvedShapes name = none) : s.resolvedShapes name = none := by
  by_contra hsome
  exact h.shapes name hsome hnone

theorem resolves_of_keeps (h : s.Keeps s') (hr : Resolves sg s' s'') : Resolves sg s s'' := by
  obtain ⟨name, hname, ⟨hnone, hsome⟩ | ⟨hnone, hsome⟩⟩ := hr
  · exact ⟨name, hname, Or.inl ⟨value_none_of_keeps h hnone, hsome⟩⟩
  · exact ⟨name, hname, Or.inr ⟨shape_none_of_keeps h hnone, hsome⟩⟩

theorem resolves_keeps (hr : Resolves sg s s') (h : s'.Keeps s'') : Resolves sg s s'' := by
  obtain ⟨name, hname, ⟨hnone, hsome⟩ | ⟨hnone, hsome⟩⟩ := hr
  · exact ⟨name, hname, Or.inl ⟨hnone, fun heq => hsome (value_none_of_keeps h heq)⟩⟩
  · exact ⟨name, hname, Or.inr ⟨hnone, h.shapes name hsome⟩⟩

/-- Fewer names are unresolved behind a step that keeps all and resolves one. -/
theorem unresolved_lt (h : s.Keeps s') (hr : Resolves sg s s') :
    sg.unresolved s' < sg.unresolved s := by
  have hvalues : sg.names.filter (fun name => s'.resolvedValues name = none) ⊆
      sg.names.filter (fun name => s.resolvedValues name = none) := by
    intro name hname
    rw [Finset.mem_filter] at hname ⊢
    exact ⟨hname.1, value_none_of_keeps h hname.2⟩
  have hshapes : sg.names.filter (fun name => s'.resolvedShapes name = none) ⊆
      sg.names.filter (fun name => s.resolvedShapes name = none) := by
    intro name hname
    rw [Finset.mem_filter] at hname ⊢
    exact ⟨hname.1, shape_none_of_keeps h hname.2⟩
  obtain ⟨name, hname, ⟨hnone, hsome⟩ | ⟨hnone, hsome⟩⟩ := hr
  · refine Nat.add_lt_add_of_lt_of_le (Finset.card_lt_card ⟨hvalues, fun hback => ?_⟩)
      (Finset.card_le_card hshapes)
    exact hsome (Finset.mem_filter.1 (hback (Finset.mem_filter.2 ⟨hname, hnone⟩))).2
  · refine Nat.add_lt_add_of_le_of_lt (Finset.card_le_card hvalues)
      (Finset.card_lt_card ⟨hshapes, fun hback => ?_⟩)
    exact hsome (Finset.mem_filter.1 (hback (Finset.mem_filter.2 ⟨hname, hnone⟩))).2

/-! ### Values -/

theorem record_keeps {name : String} {values : Option (List Num)}
    (h : s.resolvedValues name = none) : s.Keeps (s.record name values) := by
  cases values with
  | none => exact keeps_refl s
  | some values =>
    refine ⟨fun name' v hv => ?_, fun _ h => h⟩
    have hne : name' ≠ name := by
      rintro rfl
      rw [h] at hv
      cases hv
    show Function.update s.resolvedValues name (some values) name' = some v
    rw [Function.update_of_ne hne, hv]

theorem record_resolves {name : String} {values : Option (List Num)} (hname : name ∈ sg.names)
    (h : s.resolvedValues name = none) (hsome : values.isSome) :
    Resolves sg s (s.record name values) := by
  obtain ⟨v, rfl⟩ := Option.isSome_iff_exists.1 hsome
  refine ⟨name, hname, Or.inl ⟨h, ?_⟩⟩
  show Function.update s.resolvedValues name (some v) name ≠ none
  rw [Function.update_self]
  exact Option.some_ne_none v

@[simp] theorem resolvedShapes_record (name : String) (values : Option (List Num)) :
    (s.record name values).resolvedShapes = s.resolvedShapes := by
  cases values <;> rfl

theorem mem_names {n : Node} (hn : n ∈ sg.graph.nodes) {name : String}
    (hname : name ∈ n.outputNames) : name ∈ sg.names :=
  Finset.mem_insert_of_mem (List.mem_toFinset.2 (List.mem_flatMap.2 ⟨n, hn, hname⟩))

theorem headD_mem_names (hnode : node ∈ sg.graph.nodes) :
    (getNodeOutputNames node).headD "" ∈ sg.names := by
  unfold getNodeOutputNames
  cases houtputs : node.outputs with
  | nil => exact Finset.mem_insert_self ..
  | cons output rest =>
    cases output with
    | none => exact Finset.mem_insert_self ..
    | some name =>
      refine mem_names hnode (Node.mem_outputNames.2 ?_)
      rw [houtputs]
      exact List.mem_cons_self ..

theorem none_of_shouldEvaluate (h : sg.shouldEvaluate s node = true) :
    s.resolvedValues ((getNodeOutputNames node).headD "") = none := by
  unfold StaticGraph.shouldEvaluate at h
  split at h
  · cases h
  · next output rest heq =>
    rw [heq]
    exact Option.isNone_iff_eq_none.1 (Bool.and_eq_true_iff.1 h).1

/-! ### The walk -/

theorem of_mem_evalStack {hops : Nat} {name : String} {pending : Node × String}
    (h : pending ∈ sg.evalStack s hops name) :
    s.resolvedValues pending.2 = none ∧ sg.graph.producer pending.2 = some pending.1 := by
  refine ⟨?_, StaticEvalLemmas.producer_of_mem_evalStack h⟩
  induction hops generalizing name with
  | zero => cases h
  | succ hops ih =>
    unfold StaticGraph.evalStack at h
    split at h
    · cases h
    · next hnone =>
      split at h
      · cases h
      · rcases List.mem_cons.1 h with rfl | hrest
        · exact Option.not_isSome_iff_eq_none.1 hnone
        · split at hrest
          · exact ih hrest
          · cases hrest

theorem evalStack_length (sg : StaticGraph) (s : EvalState) (hops : Nat) (name : String) :
    (sg.evalStack s hops name).length ≤ hops := by
  induction hops generalizing name with
  | zero => exact le_rfl
  | succ hops ih =>
    unfold StaticGraph.evalStack
    split
    · exact Nat.zero_le _
    · split
      · exact Nat.zero_le _
      · rw [List.length_cons]
        split
        · exact Nat.succ_le_succ (ih _)
        · exact Nat.succ_le_succ (Nat.zero_le _)

theorem producer_spec {name : String} {p : Node} (h : sg.graph.producer name = some p) :
    p ∈ sg.graph.nodes ∧ name ∈ p.outputNames :=
  ⟨List.mem_of_find?_eq_some h, by simpa using List.find?_some h⟩

/-- The walk goes up: what it meets stands before every node that reads where it starts. -/
theorem evalStack_before (hlist : sg.graph.Listed) {hops : Nat} {name : String}
    {pending : Node × String} (h : pending ∈ sg.evalStack s hops name) {reader : Node}
    (hreader : reader ∈ sg.graph.nodes) (hreads : some name ∈ reader.inputs) :
    sg.graph.nodes.idxOf pending.1 < sg.graph.nodes.idxOf reader := by
  induction hops generalizing name reader with
  | zero => cases h
  | succ hops ih =>
    unfold StaticGraph.evalStack at h
    split at h
    · cases h
    · split at h
      · cases h
      · next p hp =>
        obtain ⟨hmem, hout⟩ := producer_spec hp
        have hdep : sg.graph.Dep p reader :=
          ⟨hmem, hreader, name, hout, Node.uses_pos.2 (Or.inl hreads)⟩
        have hlt := idxOf_lt_of_sublist sg.graph.nodes_nodup (hlist p reader hdep)
        rcases List.mem_cons.1 h with rfl | hrest
        · exact hlt
        · split at hrest
          · next input hinput =>
            have hin : some input ∈ p.inputs :=
              List.mem_of_mem_head? (Option.join_eq_some_iff.1 hinput)
            exact (ih hrest hmem hin).trans hlt
          · cases hrest

theorem evalStack_nodup (hlist : sg.graph.Listed) (hops : Nat) (name : String) :
    ((sg.evalStack s hops name).map Prod.snd).Nodup := by
  induction hops generalizing name with
  | zero => exact List.nodup_nil
  | succ hops ih =>
    unfold StaticGraph.evalStack
    split
    · exact List.nodup_nil
    · split
      · exact List.nodup_nil
      · next p hp =>
        rw [List.map_cons, List.nodup_cons]
        split
        · next input hinput =>
          refine ⟨fun hmem => ?_, ih input⟩
          obtain ⟨pending, hpending, hname⟩ := List.mem_map.1 hmem
          have hin : some input ∈ p.inputs :=
            List.mem_of_mem_head? (Option.join_eq_some_iff.1 hinput)
          have hlt := evalStack_before hlist hpending (producer_spec hp).1 hin
          have hsame := (of_mem_evalStack hpending).2
          rw [hname, hp] at hsame
          rw [Option.some.inj hsame] at hlt
          exact lt_irrefl _ hlt
        · exact ⟨List.not_mem_nil, List.nodup_nil⟩

/-- Values are recorded one by one, each for a name that has none. -/
theorem walk_spec (sg : StaticGraph) {pendings : List (Node × String)} (p : EvalState × Bool)
    (hnodup : (pendings.map Prod.snd).Nodup)
    (hnone : ∀ pending ∈ pendings,
      p.1.resolvedValues pending.2 = none ∧ pending.2 ∈ sg.names) :
    p.1.Keeps (pendings.foldl StaticGraph.walkStep p).1 ∧
      ((pendings.foldl StaticGraph.walkStep p).2 = true →
        p.2 = true ∨ Resolves sg p.1 (pendings.foldl StaticGraph.walkStep p).1) ∧
      (pendings.foldl StaticGraph.walkStep p).1.resolvedShapes = p.1.resolvedShapes := by
  induction pendings generalizing p with
  | nil => exact ⟨keeps_refl _, Or.inl, rfl⟩
  | cons pending pendings ih =>
    rw [List.map_cons, List.nodup_cons] at hnodup
    obtain ⟨hfirst, hname⟩ := hnone pending (List.mem_cons_self ..)
    have hkeeps : p.1.Keeps (StaticGraph.walkStep p pending).1 := record_keeps hfirst
    -- the names of the others are still without a value
    obtain ⟨hrest, hchanged, hshapes⟩ := ih (StaticGraph.walkStep p pending) hnodup.2
      fun other hother => by
        obtain ⟨hother', hname'⟩ := hnone other (List.mem_cons_of_mem _ hother)
        refine ⟨?_, hname'⟩
        have hne : other.2 ≠ pending.2 := fun heq =>
          hnodup.1 (heq ▸ List.mem_map_of_mem hother)
        show (p.1.record pending.2 _).resolvedValues other.2 = none
        cases p.1.walkNode pending.1 with
        | none => exact hother'
        | some v => exact (Function.update_of_ne hne _ _).trans hother'
    rw [List.foldl_cons]
    refine ⟨keeps_trans hkeeps hrest, fun htrue => ?_, ?_⟩
    · rcases hchanged htrue with hflag | hres
      · rcases Bool.or_eq_true_iff.1 hflag with hflag | hsome
        · exact Or.inl hflag
        · exact Or.inr (resolves_keeps (record_resolves hname hfirst hsome) hrest)
      · exact Or.inr (resolves_of_keeps hkeeps hres)
    · rw [hshapes]
      exact resolvedShapes_record _ _

theorem walkScales_spec (s : EvalState) (node : Node) (hlist : sg.graph.Listed) (rank : Nat)
    (found : StaticGraph.Found) :
    s.Keeps (sg.walkScales s node rank found).1.1 ∧
      ((sg.walkScales s node rank found).1.2 = true →
        Resolves sg s (sg.walkScales s node rank found).1.1) ∧
      (sg.walkScales s node rank found).1.1.resolvedShapes = s.resolvedShapes := by
  unfold StaticGraph.walkScales
  split
  · exact ⟨keeps_refl s, nofun, rfl⟩
  · split
    · exact ⟨keeps_refl s, nofun, rfl⟩
    · next name _ =>
      have hnodup : ((sg.evalStack s 5 name).reverse.map Prod.snd).Nodup := by
        rw [List.map_reverse, List.nodup_reverse]
        exact evalStack_nodup hlist 5 name
      obtain ⟨hkeeps, hchanged, hshapes⟩ := walk_spec sg (s, false) hnodup
        fun pending hpending => by
          obtain ⟨hnone, hproducer⟩ := of_mem_evalStack (List.mem_reverse.1 hpending)
          obtain ⟨hmem, hout⟩ := producer_spec hproducer
          exact ⟨hnone, mem_names hmem hout⟩
      exact ⟨hkeeps, fun htrue => (hchanged htrue).resolve_left Bool.false_ne_true, hshapes⟩

/-! ### A visit -/

/-- The values that the walk of a visit has recorded, and the flag. -/
structure Walked (sg : StaticGraph) (s : EvalState) (p : EvalState × Bool) : Prop where
  keeps : s.Keeps p.1
  changed : p.2 = true → Resolves sg s p.1
  shapes : p.1.resolvedShapes = s.resolvedShapes

/-- All that a visit can do: nothing, an evaluation, a walk, or a walk and a resolved shape. -/
theorem visitNode_cases (undef : ResizeUndefined) (s : EvalState) (node : Node)
    (hlist : sg.graph.Listed) (ports : PortShapes) :
    sg.visitNode undef s node ports = (s, false) ∨
      (sg.shouldEvaluate s node = true ∧ ∃ values : Option (List Num),
        sg.visitNode undef s node ports =
          (s.record ((getNodeOutputNames node).headD "") values, values.isSome)) ∨
      Walked sg s (sg.visitNode undef s node ports) ∨
      (node.outputs ≠ [] ∧ (node.opType = "Upsample" ∨ node.opType = "Resize") ∧
        s.hasDynamicShape node.outputs.head?.join ports.output = true ∧ ∃ walked outDims,
          Walked sg s walked ∧ sg.visitNode undef s node ports =
            (walked.1.writeShapes (sg.writtenShapes node outDims), true)) := by
  unfold StaticGraph.visitNode
  split
  · exact Or.inl rfl
  · next houtputs =>
    split
    · next heval => exact Or.inr (Or.inl ⟨heval, _, rfl⟩)
    · split
      · exact Or.inl rfl
      · next hdynamic =>
        split
        · next hop =>
          dsimp only
          generalize s.getStaticDims ((getNodeInputNames node).headD "") ports.input = dims
          split
          · exact Or.inl rfl
          · obtain ⟨hkeeps, hchanged, hshapes⟩ := walkScales_spec s node hlist dims.length
              (sg.givenOperand undef s node dims.length)
            have hwalked : Walked sg s (sg.resolveDims undef s node dims).1 :=
              ⟨hkeeps, hchanged, hshapes⟩
            split
            · exact Or.inr (Or.inr (Or.inl hwalked))
            · exact Or.inr (Or.inr (Or.inr ⟨houtputs, hop, Bool.not_eq_false _ ▸ hdynamic, _, _,
                hwalked, rfl⟩))
        · exact Or.inl rfl

/-- A resolved output has a name and had no shape. -/
theorem output_of_dynamic (hnamed : sg.Named) (hnode : node ∈ sg.graph.nodes)
    (hop : node.opType = "Upsample" ∨ node.opType = "Resize") (houtputs : node.outputs ≠ [])
    {typeDims : Option (List Int)}
    (hdynamic : s.hasDynamicShape node.outputs.head?.join typeDims = true) :
    ∃ output, node.outputs.head?.join = some output ∧ output ∈ node.outputNames ∧
      (getNodeOutputNames node).headD "" = output ∧ s.resolvedShapes output = none := by
  have hfirst := hnamed node hnode hop
  unfold getNodeOutputNames
  rw [Node.outputNames]
  cases hslots : node.outputs with
  | nil => exact absurd hslots houtputs
  | cons slot rest =>
    rw [hslots] at hfirst hdynamic
    cases slot with
    | none => exact absurd rfl hfirst
    | some output =>
      refine ⟨output, rfl, List.mem_cons_self .., rfl, ?_⟩
      have hname : output ≠ "" := by
        rintro rfl
        refine sg.graph.outputs_named (List.mem_flatMap.2 ⟨node, hnode, ?_⟩)
        rw [Node.mem_outputNames, hslots]
        exact List.mem_cons_self ..
      by_contra hsome
      have hstatic : s.hasDynamicShape (some output) typeDims = false :=
        if_pos ⟨hname, Option.isSome_iff_ne_none.2 hsome⟩
      exact Bool.false_ne_true (hstatic.symm.trans hdynamic)

/-- A visit keeps what is recorded, and records something when it sets the flag. -/
theorem visitNode_spec (undef : ResizeUndefined) (hlist : sg.graph.Listed) (hnamed : sg.Named)
    (hnode : node ∈ sg.graph.nodes) (ports : PortShapes) :
    s.Keeps (sg.visitNode undef s node ports).1 ∧
      ((sg.visitNode undef s node ports).2 = true →
        Resolves sg s (sg.visitNode undef s node ports).1) := by
  rcases visitNode_cases undef s node hlist ports with
    heq | ⟨heval, values, heq⟩ | hwalked | ⟨houtputs, hop, hdynamic, walked, outDims, hwalked, heq⟩
  · rw [heq]
    exact ⟨keeps_refl s, nofun⟩
  · rw [heq]
    have hnone := none_of_shouldEvaluate heval
    exact ⟨record_keeps hnone, record_resolves (headD_mem_names hnode) hnone⟩
  · exact ⟨hwalked.keeps, hwalked.changed⟩
  · rw [heq]
    obtain ⟨output, hhead, hout, -, hnone⟩ :=
      output_of_dynamic hnamed hnode hop houtputs hdynamic
    have hwrite : walked.1.Keeps (walked.1.writeShapes (sg.writtenShapes node outDims)) := by
      refine ⟨fun name v hv => by rwa [resolvedValues_writeShapes], fun name hname => ?_⟩
      rw [writtenShapes_eq, resolvedShapes_writeShapes]
      split
      · exact Option.some_ne_none _
      · exact hname
    refine ⟨keeps_trans hwalked.keeps hwrite, fun _ => ?_⟩
    refine ⟨output, mem_names hnode hout, Or.inr ⟨hnone, ?_⟩⟩
    have hmem : output ∈ (some output).toList ++ ((sg.castBehind
        ((getNodeOutputNames node).headD "")).map Node.outputNames).getD [] :=
      List.mem_append_left _ (List.mem_singleton_self _)
    rw [writtenShapes_eq, resolvedShapes_writeShapes, hhead, if_pos hmem]
    exact Option.some_ne_none _

/-! ### The `Cast` behind -/

theorem castBehind_spec {output : String} {c : Node} (h : sg.castBehind output = some c) :
    c ∈ sg.graph.nodes ∧ c.opType = "Cast" ∧ (getNodeInputNames c).head? = some output := by
  have hfound := List.find?_some h
  rw [Bool.and_eq_true, beq_iff_eq, beq_iff_eq] at hfound
  exact ⟨List.mem_of_find?_eq_some h, hfound⟩

/-- A visit keeps all shapes when no `Cast` is ahead, and leaves none ahead. -/
theorem visitNode_shapes (undef : ResizeUndefined) (hlist : sg.graph.Listed)
    (hnamed : sg.Named) (hnode : node ∈ sg.graph.nodes) (ports : PortShapes)
    (hcasts : sg.CastsBehind s) :
    s.KeepsShapes (sg.visitNode undef s node ports).1 ∧
      sg.CastsBehind (sg.visitNode undef s node ports).1 := by
  have hsame : ∀ s' : EvalState, s'.resolvedShapes = s.resolvedShapes →
      s.KeepsShapes s' ∧ sg.CastsBehind s' := by
    intro s' heq
    unfold EvalState.KeepsShapes StaticGraph.CastsBehind
    rw [heq]
    exact ⟨fun _ _ h => h, hcasts⟩
  rcases visitNode_cases undef s node hlist ports with
    heq | ⟨-, values, heq⟩ | hwalked | ⟨houtputs, hop, hdynamic, walked, outDims, hwalked, heq⟩
  · rw [heq]
    exact hsame _ rfl
  · rw [heq]
    exact hsame _ (resolvedShapes_record _ _)
  · exact hsame _ hwalked.shapes
  rw [heq]
  obtain ⟨output, hhead, hout, hheadD, hnone⟩ :=
    output_of_dynamic hnamed hnode hop houtputs hdynamic
  have hshapes : ∀ name,
      (walked.1.writeShapes (sg.writtenShapes node outDims)).resolvedShapes name =
      if name = output ∨ name ∈ ((sg.castBehind output).map Node.outputNames).getD [] then
        some outDims
      else s.resolvedShapes name := by
    intro name
    rw [writtenShapes_eq, resolvedShapes_writeShapes, hwalked.shapes, hhead, hheadD]
    simp only [Option.toList_some, List.mem_append, List.mem_singleton]
  -- what is written had no shape
  have hfresh : ∀ name, name = output ∨
      name ∈ ((sg.castBehind output).map Node.outputNames).getD [] →
      s.resolvedShapes name = none := by
    rintro name (rfl | hname)
    · exact hnone
    · cases hcast : sg.castBehind output with
      | none =>
        rw [hcast] at hname
        cases hname
      | some c =>
        rw [hcast] at hname
        exact hcasts node hnode hop output hhead hnone c hcast name hname
  constructor
  · intro name dims hdims
    rw [hshapes, if_neg, hdims]
    intro hwritten
    rw [hfresh name hwritten] at hdims
    cases hdims
  · intro n hn hop' output' hhead' hnone' c' hcast' name hname
    rw [hshapes] at hnone' ⊢
    split at hnone'
    · cases hnone'
    · next hnot =>
      rw [not_or] at hnot
      rw [if_neg]
      · exact hcasts n hn hop' output' hhead' hnone' c' hcast' name hname
      obtain ⟨hmem', hcastop', hreads'⟩ := castBehind_spec hcast'
      rintro (rfl | hwritten)
      · -- an output of the node is none of a `Cast`
        rw [sg.graph.producer_unique hmem' hnode hname hout] at hcastop'
        rcases hop with hop | hop <;> rw [hop] at hcastop' <;> exact absurd hcastop' (by decide)
      · cases hcast : sg.castBehind output with
        | none =>
          rw [hcast] at hwritten
          cases hwritten
        | some c =>
          -- two `Cast`s with a common output read the same value
          rw [hcast] at hwritten
          obtain ⟨hmem, -, hreads⟩ := castBehind_spec hcast
          rw [sg.graph.producer_unique hmem' hmem hname hwritten, hreads] at hreads'
          exact hnot.1 (Option.some.inj hreads').symm

/-! ### Passes -/

theorem pass_spec (undef : ResizeUndefined) (hlist : sg.graph.Listed) (hnamed : sg.Named)
    (ports : Node → PortShapes) (s : EvalState) :
    s.Keeps (sg.resolvePass undef ports s).1 ∧
      ((sg.resolvePass undef ports s).2 = true → Resolves sg s (sg.resolvePass undef ports s).1) ∧
      (sg.CastsBehind s → s.KeepsShapes (sg.resolvePass undef ports s).1 ∧
        sg.CastsBehind (sg.resolvePass undef ports s).1) := by
  unfold StaticGraph.resolvePass
  have hrun : ∀ nodes ⊆ sg.graph.nodes, ∀ p : EvalState × Bool,
      let p' := nodes.foldl (fun p node =>
        let visited := sg.visitNode undef p.1 node (ports node)
        (visited.1, p.2 || visited.2)) p
      p.1.Keeps p'.1 ∧ (p'.2 = true → p.2 = true ∨ Resolves sg p.1 p'.1) ∧
        (sg.CastsBehind p.1 → p.1.KeepsShapes p'.1 ∧ sg.CastsBehind p'.1) := by
    intro nodes
    induction nodes with
    | nil => exact fun _ p => ⟨keeps_refl _, Or.inl, fun h => ⟨fun _ _ hd => hd, h⟩⟩
    | cons node nodes ih =>
      intro hsub p
      obtain ⟨hnode, hrest⟩ := List.cons_subset.1 hsub
      obtain ⟨hkeeps, hchanged⟩ :=
        visitNode_spec (s := p.1) undef hlist hnamed hnode (ports node)
      obtain ⟨hkeeps', hchanged', hshapes'⟩ := ih hrest
        ((sg.visitNode undef p.1 node (ports node)).1,
          p.2 || (sg.visitNode undef p.1 node (ports node)).2)
      refine ⟨keeps_trans hkeeps hkeeps', fun htrue => ?_, fun hcasts => ?_⟩
      · rcases hchanged' htrue with hflag | hres
        · rcases Bool.or_eq_true_iff.1 hflag with hflag | hvisit
          · exact Or.inl hflag
          · exact Or.inr (resolves_keeps (hchanged hvisit) hkeeps')
        · exact Or.inr (resolves_of_keeps hkeeps hres)
      · obtain ⟨hkept, hahead⟩ := visitNode_shapes undef hlist hnamed hnode
          (ports node) hcasts
        obtain ⟨hkept', hahead'⟩ := hshapes' hahead
        exact ⟨fun name dims hd => hkept' name dims (hkept name dims hd), hahead'⟩
  obtain ⟨hkeeps, hchanged, hshapes⟩ := hrun sg.graph.nodes (List.Subset.refl _) (s, false)
  exact ⟨hkeeps, fun htrue => (hchanged htrue).resolve_left Bool.false_ne_true, hshapes⟩

end ResolutionLoopLemmas

/-! ## The loop -/

open ResolutionLoopLemmas

/-- What the loop is given: a sorted graph with names, what ORT says of the shapes in each pass,
and what is recorded at the beginning. -/
structure ResolutionRun where
  undef : ResizeUndefined
  sg : StaticGraph
  listed : sg.graph.Listed
  named : sg.Named
  ports : Nat → Node → PortShapes
  start : EvalState

namespace ResolutionRun

variable (r : ResolutionRun)

/-- The state behind the first passes. -/
def behind : Nat → EvalState
  | 0 => r.start
  | k + 1 => (r.sg.resolvePass r.undef (r.ports k) (behind k)).1

/-- The flag behind a pass. -/
def changed (k : Nat) : Bool :=
  (r.sg.resolvePass r.undef (r.ports k) (r.behind k)).2

/-- The loop ends, after passes each of which resolves a name; values are kept, nothing that has a
shape loses it, and a backward walk has at most five nodes. -/
structure Terminates : Prop where
  ends : ∃ m ≤ r.sg.unresolved r.start, (∀ k < m, r.changed k = true) ∧ r.changed m = false ∧
    ∀ fuel, r.sg.unresolved r.start < fuel →
      r.sg.resolveLoop r.undef r.ports fuel 0 r.start = some (r.behind (m + 1))
  decreases : ∀ k, r.changed k = true →
    r.sg.unresolved (r.behind (k + 1)) < r.sg.unresolved (r.behind k)
  keeps : ∀ j k, j ≤ k → (r.behind j).Keeps (r.behind k)
  walks : ∀ k name, (r.sg.evalStack (r.behind k) 5 name).length ≤ 5

/-- And shapes are kept. -/
structure Sound : Prop extends r.Terminates where
  keepsShapes : ∀ j k, j ≤ k → (r.behind j).KeepsShapes (r.behind k)

end ResolutionRun

namespace ResolutionLoopLemmas

variable (r : ResolutionRun)

theorem behind_keeps {j k : Nat} (h : j ≤ k) : (r.behind j).Keeps (r.behind k) := by
  induction k, h using Nat.le_induction with
  | base => exact keeps_refl _
  | succ k _ ih =>
    exact keeps_trans ih (pass_spec r.undef r.listed r.named (r.ports k) (r.behind k)).1

theorem behind_decreases {k : Nat} (h : r.changed k = true) :
    r.sg.unresolved (r.behind (k + 1)) < r.sg.unresolved (r.behind k) := by
  obtain ⟨hkeeps, hchanged, -⟩ := pass_spec r.undef r.listed r.named (r.ports k)
    (r.behind k)
  exact unresolved_lt hkeeps (hchanged h)

theorem behind_casts (h : r.sg.CastsBehind r.start) (k : Nat) :
    r.sg.CastsBehind (r.behind k) := by
  induction k with
  | zero => exact h
  | succ k ih => exact ((pass_spec r.undef r.listed r.named (r.ports k) (r.behind k)).2.2 ih).2

/-- From a pass on, the loop ends within as many passes as names are unresolved. -/
theorem loop_from (n k : Nat) (hn : r.sg.unresolved (r.behind k) ≤ n) :
    ∃ m ≥ k, m ≤ k + n ∧ (∀ i, k ≤ i → i < m → r.changed i = true) ∧ r.changed m = false ∧
      ∀ fuel, n < fuel →
        r.sg.resolveLoop r.undef r.ports fuel k (r.behind k) = some (r.behind (m + 1)) := by
  induction n generalizing k with
  | zero =>
    have hstill : r.changed k = false := by
      rw [← Bool.not_eq_true]
      intro hchanged
      have := behind_decreases r hchanged
      omega
    refine ⟨k, le_rfl, le_rfl, fun i hi hi' => absurd hi' (not_lt.2 hi), hstill, ?_⟩
    intro fuel hfuel
    obtain ⟨fuel, rfl⟩ := Nat.exists_eq_succ_of_ne_zero (Nat.ne_of_gt hfuel)
    rw [StaticGraph.resolveLoop]
    exact if_neg (Bool.eq_false_iff.1 hstill)
  | succ n ih =>
    cases hchanged : r.changed k with
    | false =>
      refine ⟨k, le_rfl, Nat.le_add_right .., fun i hi hi' => absurd hi' (not_lt.2 hi),
        hchanged, ?_⟩
      intro fuel hfuel
      obtain ⟨fuel, rfl⟩ := Nat.exists_eq_succ_of_ne_zero (Nat.ne_of_gt (Nat.zero_lt_of_lt hfuel))
      rw [StaticGraph.resolveLoop]
      exact if_neg (Bool.eq_false_iff.1 hchanged)
    | true =>
      have hless := behind_decreases r hchanged
      obtain ⟨m, hkm, hmn, hall, hstill, hloop⟩ := ih (k + 1) (by omega)
      refine ⟨m, by omega, by omega, fun i hi hi' => ?_, hstill, fun fuel hfuel => ?_⟩
      · rcases Nat.eq_or_lt_of_le hi with rfl | hlt
        · exact hchanged
        · exact hall i hlt hi'
      · obtain ⟨fuel, rfl⟩ := Nat.exists_eq_succ_of_ne_zero
          (Nat.ne_of_gt (Nat.zero_lt_of_lt hfuel))
        rw [StaticGraph.resolveLoop]
        exact (if_pos hchanged).trans (hloop fuel (by omega))

end ResolutionLoopLemmas

/-- The loop ends on every graph, from whatever is recorded at the beginning. -/
theorem loop_terminates (r : ResolutionRun) : r.Terminates where
  ends := by
    obtain ⟨m, -, hm, hall, hstill, hloop⟩ :=
      loop_from r (r.sg.unresolved r.start) 0 le_rfl
    exact ⟨m, by omega, fun k hk => hall k (Nat.zero_le k) hk, hstill, hloop⟩
  decreases := fun _ h => behind_decreases r h
  keeps := fun _ _ h => behind_keeps r h
  walks := fun k name => evalStack_length r.sg (r.behind k) 5 name

/-- Any values for what is undefined. -/
def anyUndefined : ResizeUndefined where
  toInt := fun _ => 0
  read := fun _ _ => .nan
  toInt64 := fun _ => 0
  rawFloat := fun _ _ => .nan

/-- An `Upsample`, a `Relu`, a `Resize` to given sizes, and a `Cast` behind it. -/
def resizedNodes : List Node :=
  [{ id := 0, opType := "Upsample", inputs := [some "x", some "k"], outputs := [some "u"] },
   { id := 1, opType := "Relu", inputs := [some "u"], outputs := [some "v"] },
   { id := 2, opType := "Resize", inputs := [some "v", none, none, some "sizes"],
     outputs := [some "r"] },
   { id := 3, opType := "Cast", inputs := [some "r"], outputs := [some "y"] }]

theorem resizedScales_count : (InitializerData.float
    [0x3F800000, 0x3F800000, 0x40000000, 0x40000000]).count = [4].prod := rfl

theorem resizedSizes_count : (InitializerData.int64 [1, 1, 8, 8]).count = [4].prod := rfl

def resizedTwice : StaticGraph where
  graph := Graph.ofNodes resizedNodes ["x"] ["y"] (by decide) (by decide) (by decide) (by decide)
  initializers :=
    [{ name := "k", dims := [4]
       data := .float [0x3F800000, 0x3F800000, 0x40000000, 0x40000000]
       count_eq := resizedScales_count },
     { name := "sizes", dims := [4], data := .int64 [1, 1, 8, 8], count_eq := resizedSizes_count }]
  cpuPreferredNodes := fun _ => false

/-- ORT knows the shapes of the input and of the output of the graph. -/
def resizedPorts (node : Node) : PortShapes where
  input := if node.id = 0 then some [1, 1, 2, 2] else none
  output := if node.id = 3 then some [1, 1, 8, 8] else none

/-- The first loop. -/
def resizedFirst : ResolutionRun where
  undef := anyUndefined
  sg := resizedTwice
  listed := by decide
  named := by decide
  ports := fun _ => resizedPorts
  start := {}

/-- The second one, behind the export of what the translation of the `Relu` knows: its own shape,
and that of the output of the graph. -/
def resizedSecond : ResolutionRun :=
  { resizedFirst with
    start := (resizedFirst.behind 2).writeShapes [("v", [1, 1, 4, 4]), ("y", [1, 1, 8, 8])] }

end AmdGpuEp.DirectML
