import AmdGpuEp.DirectML.FusedMatMulKernel

/-!
# The group of a FusedMatMul candidate

The nodes that a candidate of the `FusedMatMul` rule consists of, what each of them
reads, and which of them the exclusion pass keeps.

Results:
1. `exists_setting`: a candidate of the rule is made of the branches of its match.
2. `matmul_kept`, `activation_kept`, `last_kept`: the nodes that no exclusion takes
   from the group.
-/

namespace AmdGpuEp.DirectML

open FusionManagerLemmas PatternMatcherLemmas Relation

theorem anchorIndex_matMul {F : Type} [FloatOps F] :
    buildAnchorIndex (allRules : List (FusionRule F)) "MatMul" =
      some { tree := FusedMatMul.buildPattern, rules := [FusedMatMul.fusionRule] } := by
  simp [buildAnchorIndex, allRules, addRule, QuickGelu.fusionRule, BiasGelu.fusionRule,
    FusedMatMul.fusionRule]

namespace FusedMatMul

/-- A candidate of the rule, taken apart: the branches of its match, the transposes that are left,
the activations, and the values at the `MatMul`. -/
structure Setting (env : MatchEnv Rat) (g : Graph) (c : Candidate Rat) (b : Branches)
    (trans : Input → Option Node) (acts : List (String × Node)) (v : Input → String)
    (y : String) : Prop where
  model : MatMulGraph env g
  wf : Wf g c
  anchor : c.anchor = b.matmul
  matmul_mem : b.matmul ∈ g.nodes
  found : Found env (buildGraphConnectivity g) b trans acts c.found
  acts_eq : acts =
    takenActivations (buildGraphConnectivity g) c.alreadyConsumed b.last activations
  inputs : b.matmul.inputs = [some (v .a), some (v .b)]
  outputs : b.matmul.outputs = [some y]
  distinct : v .a ≠ v .b
  runtime : ∃ i p, (buildGraphConnectivity g).producerMap (v i) = some p ∧ p ∉ c.matched

/-- What `ValidateCapture` has checked of the inputs of the `MatMul`. -/
theorem validateCapture_inputs {env : MatchEnv Rat} {gc : GraphConnectivity} {m : PatternMatch Rat}
    {matmul : Node} {a b : String} (h : validateCapture env gc m = true)
    (hmatmul : m.nodeIndices "FusedMatMul.matmul" = some matmul)
    (hin : matmul.inputs = [some a, some b]) :
    a ≠ b ∧ (isRuntime gc m a = true ∨ isRuntime gc m b = true) := by
  have hnames : getNodeInputNames matmul = [a, b] := by simp [getNodeInputNames, hin]
  rw [validateCapture, hmatmul] at h
  dsimp only at h
  rw [hnames] at h
  simp only [Bool.and_eq_true, bne_iff_ne, ne_eq, Bool.or_eq_true] at h
  exact ⟨h.1.1.1, h.1.1.2⟩

theorem producer_of_isRuntime {gc : GraphConnectivity} {m : PatternMatch Rat} {name : String}
    (h : isRuntime gc m name = true) :
    ∃ p, gc.producerMap name = some p ∧ p ∉ m.allNodes := by
  unfold isRuntime at h
  split at h
  · next p hp => exact ⟨p, hp, by simpa using h⟩
  · cases h

theorem exists_setting {env : FusionEnv Rat} {g : Graph} {c : Candidate Rat}
    (hg : MatMulGraph env.toMatchEnv g)
    (hc : c ∈ (applyFusions env (buildAnchorIndex allRules) g).emitted)
    (hop : c.anchor.opType = "MatMul") :
    ∃ b trans acts v y, Setting env.toMatchEnv g c b trans acts v y := by
  obtain ⟨hanchor, hcandidate, -⟩ := emitted_found env _ g c hc
  have hwf := findCandidate_wf hanchor hcandidate
  obtain ⟨-, -, entry, m, hentry, hm, hrule, hfound, hvalid⟩ := findCandidate_eq_some hcandidate
  rw [hop, anchorIndex_matMul, Option.some.injEq] at hentry
  subst hentry
  have hrule' : c.rule = fusionRule := List.mem_singleton.1 (List.mem_of_find?_eq_some hrule)
  rw [hrule'] at hfound hvalid
  obtain ⟨b, hb, trans, hspec⟩ := found_spec hanchor hm
  have hspec : Found env.toMatchEnv (buildGraphConnectivity g) b trans
      (takenActivations (buildGraphConnectivity g) c.alreadyConsumed b.last activations) c.found :=
    hfound.symm ▸ hspec
  have hmatmul : b.matmul ∈ g.nodes := hb ▸ hanchor
  obtain ⟨v₁, v₂, y, hin, hout⟩ := (hg.schema _ hmatmul).binary (by simp [hspec.taken.op])
  obtain ⟨hne, hruntime⟩ := validateCapture_inputs hvalid hspec.matmul hin
  refine ⟨b, trans, _, Input.rec v₁ v₂, y, hg, hwf, hb.symm, hmatmul, hspec, rfl, hin,
    hout, hne, ?_⟩
  rcases hruntime with h | h
  · exact ⟨.a, producer_of_isRuntime h⟩
  · exact ⟨.b, producer_of_isRuntime h⟩

theorem exists_of_scalarInitPredicate {env : MatchEnv Rat} {name : String} {node : Node}
    (h : scalarInitPredicate env name node = true) :
    ∃ k, (env.initializers name).bind tryReadScalarFloat = some k := by
  unfold scalarInitPredicate at h
  split at h
  · cases h
  · next val hval =>
    split at h
    · cases h
    · next hread =>
      rw [hval, Option.bind_some]
      exact Option.ne_none_iff_exists'.1 (by simpa using hread)

namespace Setting

variable {env : MatchEnv Rat} {g : Graph} {c : Candidate Rat} {b : Branches}
  {trans : Input → Option Node} {acts : List (String × Node)} {v : Input → String} {y : String}
  {i : Input} {n t : Node} {s : Scale} {key : String}

/-! ## The nodes of the match -/

theorem input_eq (h : Setting env g c b trans acts v y) (i : Input) :
    b.matmul.inputs[i.index]? = some (some (v i)) := by
  rw [h.inputs]
  cases i <;> rfl

theorem trans_spec (h : Setting env g c b trans acts v y) (ht : trans i = some t) :
    t ∈ g.nodes ∧ t.opType = "Transpose" ∧ t.outputs = [some (v i)] ∧ ∃ w, t.inputs = [some w] := by
  have htaken := h.found.taken.trans i (h.found.trans_taken i t ht)
  have hproducer : (buildGraphConnectivity g).producerMap (v i) = some t := by
    rw [← htaken.producer, getNodeInputNames, List.getElem?_map, h.input_eq]
    rfl
  have hmem := mem_nodes_of_producer hproducer
  obtain ⟨w, o, hin, hout⟩ := (h.model.schema t hmem).unary (by simp [htaken.op])
  exact ⟨hmem, htaken.op, outputs_of_producer hproducer hout, w, hin⟩

theorem scale_spec (h : Setting env g c b trans acts v y) (hs : b.scale = some s) :
    s.node ∈ g.nodes ∧ s.node.opType = (if s.isDiv then "Div" else "Mul") ∧
      Reads s.node y s.name ∧ (s.isDiv = true → s.node.inputs = [some y, some s.name]) ∧
      (∃ z, s.node.outputs = [some z]) ∧ s.name ≠ "" ∧
      ∃ k, (env.initializers s.name).bind tryReadScalarFloat = some k := by
  have htaken := h.found.taken.scale s hs
  obtain ⟨hmem, hin⟩ := onlyConsumer_spec h.outputs htaken.consumer
  have hop : s.node.opType ∈ ["MatMul", "Mul", "Div"] := by
    rw [htaken.op]
    cases s.isDiv <;> simp
  obtain ⟨p, q, z, hpq, hout⟩ := (h.model.schema s.node hmem).binary hop
  obtain ⟨k, hk⟩ := exists_of_scalarInitPredicate htaken.predicate
  have hinit := isSome_of_read hk
  have hname : s.name ≠ "" := by
    intro hempty
    rw [hempty, h.model.named] at hinit
    cases hinit
  have hne : y ≠ s.name := by
    rintro rfl
    exact h.model.unwritten _ hinit (mem_written h.matmul_mem h.outputs)
  refine ⟨hmem, htaken.op, ?_, fun hdiv => ?_, ⟨z, hout⟩, hname, k, hk⟩
  · exact reads_of_mem hpq hin ((mem_getNodeInputNames hname).1 htaken.name_mem) hne
  · have hdivisor := htaken.divisor hdiv
    rw [getNodeInputNames, hpq] at hdivisor
    obtain rfl : q = s.name := by simpa using hdivisor
    rw [hpq] at hin ⊢
    have hp : y = p := by simpa [hne] using hin
    rw [hp]

/-- The node in front of the activations has one output. -/
theorem exists_last_output (h : Setting env g c b trans acts v y) :
    b.last ∈ g.nodes ∧ ∃ z, b.last.outputs = [some z] := by
  rw [Branches.last]
  cases hs : b.scale with
  | none => exact ⟨h.matmul_mem, y, h.outputs⟩
  | some s =>
    obtain ⟨hmem, -, -, -, hout, -⟩ := h.scale_spec hs
    exact ⟨hmem, hout⟩

theorem activation_spec (h : Setting env g c b trans acts v y) {z : String}
    (hz : b.last.outputs = [some z]) (hn : (key, n) ∈ acts) :
    ∃ k : Activation, k.key = key ∧ n.opType = k.opType ∧ n ∈ g.nodes ∧ n.inputs = [some z] ∧
      ∃ o, n.outputs = [some o] := by
  rw [h.acts_eq, mem_takenActivations] at hn
  obtain ⟨op, hmem, hread⟩ := hn
  rw [Activation.activations_eq] at hmem
  obtain ⟨k, -, hk⟩ := List.mem_map.1 hmem
  cases hk
  have hop := (opType_of_freeReader hread).1
  obtain ⟨hfound, -⟩ := Option.filter_eq_some_iff.1 hread
  have hv : (getNodeOutputNames b.last)[0]? = some z := by simp [getNodeOutputNames, hz]
  rw [hv, Option.bind_some] at hfound
  obtain ⟨hne, hnode, hin⟩ := mem_consumerMap.1 (List.mem_of_find?_eq_some hfound)
  have hschema : n.opType ∈ "Transpose" :: activations.map Prod.fst := by
    rw [hop, Activation.activations_eq]
    exact List.mem_cons_of_mem _ (List.mem_map.2 ⟨(k.opType, k.key),
      List.mem_map.2 ⟨k, k.mem_all, rfl⟩, rfl⟩)
  obtain ⟨a, o, ha, ho⟩ := (h.model.schema n hnode).unary hschema
  have hza : some z ∈ n.inputs := (mem_getNodeInputNames hne).1 hin
  rw [ha, List.mem_singleton] at hza
  exact ⟨k, rfl, hop, hnode, hza ▸ ha, o, ho⟩

/-! ## Who reads whom -/

theorem trans_feeds (h : Setting env g c b trans acts v y) (ht : trans i = some t) :
    Feeds g t b.matmul := by
  obtain ⟨hmem, -, hout, -⟩ := h.trans_spec ht
  exact ⟨hmem, h.matmul_mem, v i, hout, List.mem_of_getElem? (h.input_eq i)⟩

theorem matmul_feeds (h : Setting env g c b trans acts v y) (hs : b.scale = some s) :
    Feeds g b.matmul s.node := by
  obtain ⟨hmem, -, hreads, -⟩ := h.scale_spec hs
  refine ⟨h.matmul_mem, hmem, y, h.outputs, ?_⟩
  rcases hreads with hin | hin <;> simp [hin]

theorem last_feeds (h : Setting env g c b trans acts v y) (hn : (key, n) ∈ acts) :
    Feeds g b.last n := by
  obtain ⟨hmem, z, hz⟩ := h.exists_last_output
  obtain ⟨-, -, -, hnode, hin, -⟩ := h.activation_spec hz hn
  exact ⟨hmem, hnode, z, hz, by simp [hin]⟩

theorem matmul_last (h : Setting env g c b trans acts v y) :
    ReflTransGen g.Dep b.matmul b.last := by
  rw [Branches.last]
  cases hs : b.scale with
  | none => exact .refl
  | some s => exact .single (h.matmul_feeds hs).dep

theorem mem_matched (h : Setting env g c b trans acts v y) :
    n ∈ c.matched ↔ n = b.matmul ∨ (∃ i, trans i = some n) ∨
      (∃ s, b.scale = some s ∧ s.node = n) ∨ ∃ key, (key, n) ∈ acts := by
  rw [Candidate.matched, h.found.mem]
  simp [List.mem_map]

/-- Every node of the match leads to the node in front of the activations, or is one of them. -/
theorem leads_last (h : Setting env g c b trans acts v y) (hn : n ∈ c.matched) :
    ReflTransGen g.Dep n b.last ∨ ∃ key, (key, n) ∈ acts := by
  rcases h.mem_matched.1 hn with rfl | ⟨i, ht⟩ | ⟨s, hs, rfl⟩ | hact
  · exact Or.inl h.matmul_last
  · exact Or.inl (.head (h.trans_feeds ht).dep h.matmul_last)
  · rw [Branches.last, hs]
    exact Or.inl .refl
  · exact Or.inr hact

/-! ## What the exclusion pass keeps -/

theorem matmul_kept (h : Setting env g c b trans acts v y) :
    b.matmul ∈ c.group (buildGraphConnectivity g) := by
  refine mem_group.2 ⟨h.mem_matched.2 (Or.inl rfl), ?_⟩
  simp [Candidate.keeps, h.anchor]

/-- No node of the match reads an activation. -/
theorem activation_terminal (h : Setting env g c b trans acts v y) (hn : (key, n) ∈ acts)
    {matched : List Node} (hsub : matched ⊆ c.matched) :
    isTerminal (buildGraphConnectivity g) matched n = true := by
  obtain ⟨hlast, z, hz⟩ := h.exists_last_output
  obtain ⟨-, -, -, hnode, hin, o, hout⟩ := h.activation_spec hz hn
  by_contra hterm
  obtain ⟨w, hw, d, hd, hdm, -⟩ :=
    consumer_of_not_terminal (Bool.eq_false_of_not_eq_true hterm)
  have hdep := dep_of_consumer hnode hw hd
  rcases h.leads_last (hsub hdm) with hpath | ⟨key', hd'⟩
  · exact h.model.acyclic n (.tail (.head' hdep hpath) (h.last_feeds hn).dep)
  · -- another activation reads the same value
    obtain ⟨-, -, -, -, hin', -⟩ := h.activation_spec hz hd'
    obtain ⟨hne, -, hread⟩ := mem_consumerMap.1 hd
    rw [getNodeInputNames, hin'] at hread
    rw [getNodeOutputNames, hout] at hw
    obtain rfl : w = z := by simpa using hread
    obtain rfl : w = o := by simpa using hw
    have heq := producer_of_outputs hnode hlast hout hz
    exact h.model.acyclic n (.single (heq ▸ (h.last_feeds hn).dep))

theorem activation_kept (h : Setting env g c b trans acts v y) (hn : (key, n) ∈ acts) :
    n ∈ c.group (buildGraphConnectivity g) := by
  refine mem_group.2 ⟨h.mem_matched.2 (Or.inr (Or.inr (Or.inr ⟨key, hn⟩))), ?_⟩
  simp [Candidate.keeps, h.activation_terminal hn (List.Subset.refl _)]

theorem last_kept (h : Setting env g c b trans acts v y) (hacts : acts = []) :
    b.last ∈ c.group (buildGraphConnectivity g) := by
  have hleads : ∀ d ∈ c.matched, ReflTransGen g.Dep d b.last := by
    intro d hd
    rcases h.leads_last hd with hpath | ⟨key, hact⟩
    · exact hpath
    · simp [hacts] at hact
  have hmem : b.last ∈ c.matched := by
    rw [Branches.last]
    cases hs : b.scale with
    | none => exact h.mem_matched.2 (Or.inl rfl)
    | some s => exact h.mem_matched.2 (Or.inr (Or.inr (Or.inl ⟨s, hs, rfl⟩)))
  refine mem_group.2 ⟨hmem, ?_⟩
  simp [Candidate.keeps, terminal_of_leads h.model.acyclic h.exists_last_output.1 hleads]

/-- The single consumer of the `MatMul` is the scale: without it nothing in the group reads the
product. -/
theorem matmul_terminal (h : Setting env g c b trans acts v y) (hs : b.scale = some s)
    (hdropped : s.node ∉ c.group (buildGraphConnectivity g)) :
    isTerminal (buildGraphConnectivity g) (c.group (buildGraphConnectivity g)) b.matmul = true := by
  by_contra hterm
  obtain ⟨w, hw, d, hd, hdm, -⟩ :=
    consumer_of_not_terminal (Bool.eq_false_of_not_eq_true hterm)
  rw [getNodeOutputNames, h.outputs] at hw
  obtain rfl : w = y := by simpa using hw
  rw [eq_of_onlyConsumer h.outputs (h.found.taken.scale s hs).consumer hd] at hdm
  exact hdropped hdm

end Setting

end FusedMatMul
end AmdGpuEp.DirectML
