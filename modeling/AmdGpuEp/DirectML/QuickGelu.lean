import AmdGpuEp.DirectML.FusedMatMulGroup
import Mathlib.Analysis.SpecialFunctions.Sigmoid

/-!
# What the kernel of a QuickGelu group computes

`quick_gelu_ep_fusion.cc`: the pattern `x * sigmoid(alpha * x)` with an optional
multiplication in front of the `Sigmoid`, and the kernel that `Compile` makes of a
match. The kernel reads the first input of the fused graph and takes `alpha` from
the match, whether or not the exclusion pass has left the multiplication in the
group.

Results:
1. `match_expansion`: the nodes of a match and what they read.
2. `scaling_kept_iff`: the multiplication in front stays in the group exactly when
   nothing but the `Sigmoid` reads it.
3. `givesValue_iff`: on `x` the kernel gives the value of the product unless its
   factor can be overridden.
4. `kernel_refines_iff`: the kernel of an emitted candidate computes what the matched nodes
   compute exactly when the candidate is `Faithful`.
5. `sharedScale_wrong`: the scaled input is an output of the graph too, and the
   kernel scales it once more.
-/

namespace AmdGpuEp.DirectML

open FusionManagerLemmas PatternMatcherLemmas

theorem anchorIndex_sigmoid {F : Type} [FloatOps F] :
    buildAnchorIndex (allRules : List (FusionRule F)) "Sigmoid" =
      some { tree := QuickGelu.buildPattern, rules := [QuickGelu.fusionRule] } := by
  simp [buildAnchorIndex, allRules, addRule, QuickGelu.fusionRule, BiasGelu.fusionRule,
    FusedMatMul.fusionRule]

namespace QuickGelu

open FusedMatMul (FusedGraph readConstant)

/-! ## `Compile` and `Compute` -/

/-- `QuickGeluKernelState`. -/
structure KernelState where
  alpha : Rat
  deriving DecidableEq

/-- `QuickGeluFusionRule::Compile`. The calls of the device are taken to succeed. -/
def compile (env : MatchEnv Rat) (s : FusedGraph) (m : PatternMatch Rat) : Option KernelState :=
  let alpha := (readConstant env (m.valueName "QuickGelu.alpha")).getD 1
  match s.inputs[0]?.bind env.valueInfo with
  | none => none
  | some info => if info.elemType ∈ [.float, .float16] then some { alpha } else none

/-- The graph of `CompileQuickGeluDml` on one element: the identity operator with a scale is in it
for another factor than 1 only. -/
noncomputable def KernelState.apply (k : KernelState) (x : ℝ) : ℝ :=
  let scaled := if k.alpha = 1 then x else k.alpha * x + 0
  x * Real.sigmoid scaled

theorem KernelState.apply_eq (k : KernelState) (x : ℝ) :
    k.apply x = x * Real.sigmoid (k.alpha * x) := by
  unfold KernelState.apply
  dsimp only
  split
  · next h => rw [h, Rat.cast_one, one_mul]
  · rw [add_zero]

/-! ## What the nodes compute -/

/-- A node computes its ONNX function. A value stands for its element at one place. -/
def ComputesAt (ρ : String → ℝ) (n : Node) : Prop :=
  match n.inputs, n.outputs with
  | [some a], [some o] => n.opType = "Sigmoid" → ρ o = Real.sigmoid (ρ a)
  | [some a, some b], [some o] => n.opType = "Mul" → ρ o = ρ a * ρ b
  | _, _ => True

/-- The elements at one place of a run of the matched nodes. An initializer that is an input of the
graph can be overridden; the others have their values. -/
structure Run (env : MatchEnv Rat) (g : Graph) (c : Candidate Rat) (ρ : String → ℝ) : Prop where
  constants : ∀ v q, v ∉ g.inputs → (env.initializers v).bind tryReadScalarFloat = some q → ρ v = q
  nodes : ∀ n ∈ c.matched, ComputesAt ρ n

/-- On the first input of the fused graph the kernel gives the value of `o`. -/
def GivesValue (env : MatchEnv Rat) (g : Graph) (c : Candidate Rat) (s : FusedGraph)
    (k : KernelState) (o : String) : Prop :=
  ∀ ρ, Run env g c ρ → ∀ input, s.inputs[0]? = some input → ρ o = k.apply (ρ input)

/-- The kernel computes what the matched nodes compute: on `x`, which the product takes beside the
output of the anchor, it gives the value of the product, and its factor is 1 exactly when no node of
the group scales the input of the anchor. -/
structure Refines (env : MatchEnv Rat) (g : Graph) (c : Candidate Rat) (s : FusedGraph)
    (k : KernelState) : Prop where
  value : ∃ n ∈ c.group (buildGraphConnectivity g), ∃ w x o, c.anchor.outputs = [some w] ∧
    n.opType = "Mul" ∧ Reads n w x ∧ n.outputs = [some o] ∧ s.inputs[0]? = some x ∧
    GivesValue env g c s k o
  alpha : k.alpha = 1 ↔ ∀ n ∈ c.group (buildGraphConnectivity g), ¬ Feeds g n c.anchor

/-- Only `d` reads the output of `n`, which is no output of the graph. -/
def FeedsOnly (g : Graph) (n d : Node) : Prop :=
  ∀ v, n.outputs = [some v] → v ∉ g.outputs ∧ ∀ r ∈ g.nodes, some v ∈ r.inputs → r = d

/-- The condition under which the kernel is right, on a matched node in front of the anchor: its
constant cannot be overridden, its other operand is the first input of the fused graph, and the
constant is 1 exactly when something else reads the product of the two. -/
def Faithful (env : MatchEnv Rat) (g : Graph) (c : Candidate Rat) (s : FusedGraph) : Prop :=
  ∀ n ∈ c.matched, Feeds g n c.anchor → ∃ x name q, Reads n x name ∧ env.initializers x = none ∧
    (env.initializers name).bind tryReadScalarFloat = some q ∧ name ∉ g.inputs ∧
    s.inputs[0]? = some x ∧ (q = 1 ↔ ¬ FeedsOnly g n c.anchor)

/-- What a model gives to the rule: beside the arities, no initializer without a name. -/
structure QuickGeluGraph (env : MatchEnv Rat) (g : Graph) : Prop extends
    ModelGraph ["Sigmoid"] ["Mul"] env g where
  named : env.initializers "" = none

/-! ## The pattern -/

section

variable {F : Type} [FloatOps F] {env : MatchEnv F} {g : Graph} {already : List Node} {node : Node}
  {out out' : PatternMatch F}

def alphaMulNode : PNode F :=
  .mk "Mul" "" [(none, alphaMulXInput), (none, alphaInput)] "QuickGelu.alpha_mul" .nil

def outputMulNode : PNode F :=
  .mk "Mul" "" [(none, .sameAs "QuickGelu.input")] "QuickGelu.output_mul" .nil

omit [FloatOps F] in
theorem buildPattern_eq :
    (buildPattern : PNode F) =
      .mk "Sigmoid" "" [(some 0, .capture "QuickGelu.input")] "QuickGelu.sigmoid"
        (.cons .upstream 0 alphaMulNode true (.cons .downstream 0 outputMulNode false .nil)) :=
  rfl

/-- The multiplication in front: an input that is no initializer, and one that is a scalar. -/
theorem matchNode_alphaMulNode
    (h : matchNode env (buildGraphConnectivity g) already alphaMulNode node out = some out') :
    node.opType = "Mul" ∧ ∃ x name, x ∈ getNodeInputNames node ∧ env.initializers x = none ∧
      name ∈ getNodeInputNames node ∧
      ((env.initializers name).bind tryReadScalarFloat).isSome ∧
      out'.allNodes = out.allNodes ++ [node] ∧
      out'.valueNames "QuickGelu.input" = some x ∧
      out'.valueNames "QuickGelu.alpha" = some name := by
  rw [alphaMulNode, matchNode_eq_some] at h
  obtain ⟨-, -, hop, -, checked, hchecked, hedges⟩ := h
  simp only [matchEdges, Option.some.injEq] at hedges
  subst hedges
  simp only [checkInputs, Option.bind_eq_some_iff, alphaMulXInput, alphaInput, checkAnyInput,
    Option.some.injEq, Option.map_eq_some_iff] at hchecked
  obtain ⟨_, ⟨x, hx, rfl⟩, _, ⟨name, hname, rfl⟩, rfl⟩ := hchecked
  refine ⟨hop, x, name, List.mem_of_find?_eq_some hx, by simpa using List.find?_some hx,
    List.mem_of_find?_eq_some hname, by simpa using List.find?_some hname, ?_, ?_, ?_⟩
  · simp [PatternMatch.commit]
  · simp [PatternMatch.commit, PatternMatch.noteValueName, PatternMatch.setValueName]
  · simp [PatternMatch.commit, PatternMatch.noteValueName, PatternMatch.setValueName]

/-- The product takes the captured input. -/
theorem matchNode_outputMulNode {x : String} (hx : out.valueNames "QuickGelu.input" = some x)
    (h : matchNode env (buildGraphConnectivity g) already outputMulNode node out = some out') :
    node.opType = "Mul" ∧ x ∈ getNodeInputNames node ∧
      out' = out.commit "QuickGelu.output_mul" node := by
  rw [outputMulNode, matchNode_eq_some] at h
  obtain ⟨-, -, hop, -, checked, hchecked, hedges⟩ := h
  simp only [checkInputs, checkAnyInput, hx, Option.bind_eq_some_iff] at hchecked
  obtain ⟨_, hsame, hchecked⟩ := hchecked
  split at hsame
  · next hmem =>
    cases hsame
    cases hchecked
    exact ⟨hop, hmem, (Option.some.inj hedges).symm⟩
  · cases hsame

end

/-! ## The shape of a match -/

/-- The multiplication in front of the anchor, with its constant. -/
structure Scaling where
  node : Node
  name : String
  factor : Rat

/-- The nodes of a match, and the values between them. -/
structure Expansion where
  (sigmoid product : Node)
  (x u w o : String)
  scaling : Option Scaling

variable {env : MatchEnv Rat} {g : Graph} {already : List Node} {anchor : Node}
  {m : PatternMatch Rat}

namespace Expansion

/-- `s` makes the input of the anchor out of `e.x`. -/
structure ScaledBy (e : Expansion) (env : MatchEnv Rat) (g : Graph) (s : Scaling) : Prop where
  mem : s.node ∈ g.nodes
  op : s.node.opType = "Mul"
  inputs : Reads s.node e.x s.name
  outputs : s.node.outputs = [some e.u]
  runtime : env.initializers e.x = none
  read : (env.initializers s.name).bind tryReadScalarFloat = some s.factor

/-- `e` is what the match `m` consists of. -/
structure Describes (e : Expansion) (env : MatchEnv Rat) (g : Graph) (m : PatternMatch Rat) :
    Prop where
  sigmoid_mem : e.sigmoid ∈ g.nodes
  sigmoid_op : e.sigmoid.opType = "Sigmoid"
  sigmoid_inputs : e.sigmoid.inputs = [some e.u]
  sigmoid_outputs : e.sigmoid.outputs = [some e.w]
  product_mem : e.product ∈ g.nodes
  product_op : e.product.opType = "Mul"
  product_inputs : Reads e.product e.w e.x
  product_outputs : e.product.outputs = [some e.o]
  unscaled : e.scaling = none → e.x = e.u ∧ m.valueNames "QuickGelu.alpha" = none
  scaled : ∀ s, e.scaling = some s →
    e.ScaledBy env g s ∧ m.valueNames "QuickGelu.alpha" = some s.name
  nodes : m.allNodes = [e.sigmoid] ++ (e.scaling.map Scaling.node).toList ++ [e.product]

end Expansion

/-- The optional edge in front of the anchor, when it is taken. -/
theorem exists_scaling (hg : QuickGeluGraph env g) {u : String} {out out' : PatternMatch Rat}
    (hanchor : anchor.inputs = [some u])
    (h : ((followEdge (buildGraphConnectivity g) anchor .upstream 0
      (alphaMulNode : PNode Rat)).bind fun n =>
        matchNode env (buildGraphConnectivity g) already alphaMulNode n out) = some out') :
    ∃ (s : Scaling) (x : String), s.node ∈ g.nodes ∧ s.node.opType = "Mul" ∧
      Reads s.node x s.name ∧ s.node.outputs = [some u] ∧ env.initializers x = none ∧
      (env.initializers s.name).bind tryReadScalarFloat = some s.factor ∧
      out'.allNodes = out.allNodes ++ [s.node] ∧
      out'.valueNames "QuickGelu.input" = some x ∧
      out'.valueNames "QuickGelu.alpha" = some s.name := by
  obtain ⟨n, hfollow, hmatch⟩ := Option.bind_eq_some_iff.1 h
  have hmem := followEdge_mem hfollow
  obtain ⟨hop, x, name, hx, hinit, hname, hread, hall, hinput, halpha⟩ :=
    matchNode_alphaMulNode hmatch
  obtain ⟨p, q, o, hpq, hout⟩ := (hg.schema n hmem).binary (by simp [hop])
  have hproducer : (buildGraphConnectivity g).producerMap u = some n := by
    simpa [followEdge, getNodeInputNames, hanchor] using hfollow
  obtain ⟨factor, hfactor⟩ := Option.isSome_iff_exists.1 hread
  have hne : x ≠ name := by
    rintro rfl
    rw [hinit] at hfactor
    cases hfactor
  have hslot : ∀ v, v ∈ getNodeInputNames n → some v ∈ n.inputs := by
    intro v hv
    simpa [getNodeInputNames, hpq] using hv
  exact ⟨⟨n, name, factor⟩, x, hmem, hop, reads_of_mem hpq (hslot x hx) (hslot name hname) hne,
    outputs_of_producer hproducer hout, hinit, hfactor, hall, hinput, halpha⟩

/-- A match takes the anchor and the product, and between them the multiplication in front when the
optional edge is taken. -/
theorem match_expansion (hg : QuickGeluGraph env g) (hanchor : anchor ∈ g.nodes)
    (h : matchPattern env (buildGraphConnectivity g) already anchor buildPattern = some m) :
    ∃ e : Expansion, e.sigmoid = anchor ∧ e.Describes env g m := by
  rw [matchPattern, buildPattern_eq, matchNode_eq_some] at h
  obtain ⟨-, -, hop, -, checked, hchecked, hedges⟩ := h
  obtain ⟨u, w, hin, hout⟩ := (hg.schema anchor hanchor).unary (by simp [hop])
  have hslot : (getNodeInputNames anchor)[0]? = some u := by simp [getNodeInputNames, hin]
  simp only [checkInputs, checkInput, hslot, Option.bind_some, Option.some.injEq] at hchecked
  subst hchecked
  rw [captureName_of_ne (by decide), matchEdges_optional, matchEdges_required] at hedges
  obtain ⟨product, longer, hfollow, hproduct, hedges⟩ := hedges
  obtain rfl : longer = m := by simpa [matchEdges] using hedges
  have hproductMem := followEdge_mem hfollow
  have hwName : (getNodeOutputNames anchor)[0]? = some w := by simp [getNodeOutputNames, hout]
  -- the product reads the output of the anchor and the captured input
  have hwRead : some w ∈ product.inputs := by
    have hfound : ((buildGraphConnectivity g).consumerMap w).find?
        (fun consumer => consumer.opType == "Mul") = some product := by
      rw [← hfollow, followEdge]
      simp only [hwName, Option.bind_some]
      rfl
    obtain ⟨hne, -, hmem⟩ := mem_consumerMap.1 (List.mem_of_find?_eq_some hfound)
    exact (mem_getNodeInputNames hne).1 hmem
  have hreads : ∀ x, w ≠ x → x ∈ getNodeInputNames product → product.opType = "Mul" →
      Reads product w x ∧ ∃ o, product.outputs = [some o] := by
    intro x hne hx hmul
    obtain ⟨p, q, o, hpq, ho⟩ := (hg.schema product hproductMem).binary (by simp [hmul])
    refine ⟨reads_of_mem hpq hwRead ?_ hne, o, ho⟩
    simpa [getNodeInputNames, hpq] using hx
  cases hedge : (followEdge (buildGraphConnectivity g) anchor .upstream 0
      (alphaMulNode : PNode Rat)).bind fun n =>
        matchNode env (buildGraphConnectivity g) already alphaMulNode n
          ((({} : PatternMatch Rat).setValueName "QuickGelu.input" u).commit
            "QuickGelu.sigmoid" anchor) with
  | none =>
    rw [hedge, Option.getD_none] at hproduct
    obtain ⟨hmul, hx, rfl⟩ := matchNode_outputMulNode (x := u)
      (by simp [PatternMatch.commit, PatternMatch.setValueName]) hproduct
    have hne : w ≠ u := by
      rintro rfl
      exact hg.acyclic anchor (.single (dep_of_slots hanchor hanchor hout (by simp [hin])))
    obtain ⟨hslots, o, ho⟩ := hreads u hne hx hmul
    exact ⟨⟨anchor, product, u, u, w, o, none⟩, rfl, {
      sigmoid_mem := hanchor
      sigmoid_op := hop
      sigmoid_inputs := hin
      sigmoid_outputs := hout
      product_mem := hproductMem
      product_op := hmul
      product_inputs := hslots
      product_outputs := ho
      unscaled := fun _ => ⟨rfl, by simp [PatternMatch.commit, PatternMatch.setValueName]⟩
      scaled := fun s h => absurd h.symm (Option.some_ne_none s)
      nodes := by simp [PatternMatch.commit, PatternMatch.setValueName] }⟩
  | some scaled =>
    rw [hedge, Option.getD_some] at hproduct
    obtain ⟨s, x, hsMem, hsOp, hsReads, hsOut, hinit, hread, hall, hinput, halpha⟩ :=
      exists_scaling hg hin hedge
    obtain ⟨hmul, hx, rfl⟩ := matchNode_outputMulNode hinput hproduct
    have hne : w ≠ x := by
      rintro rfl
      have hback : g.Dep anchor s.node :=
        dep_of_slots hanchor hsMem hout (by rcases hsReads with h | h <;> simp [h])
      exact hg.acyclic anchor (.tail (.single hback) (dep_of_slots hsMem hanchor hsOut
        (by simp [hin])))
    obtain ⟨hslots, o, ho⟩ := hreads x hne hx hmul
    exact ⟨⟨anchor, product, x, u, w, o, some s⟩, rfl, {
      sigmoid_mem := hanchor
      sigmoid_op := hop
      sigmoid_inputs := hin
      sigmoid_outputs := hout
      product_mem := hproductMem
      product_op := hmul
      product_inputs := hslots
      product_outputs := ho
      unscaled := fun h => absurd h (Option.some_ne_none s)
      scaled := by
        rintro _ ⟨⟩
        exact ⟨⟨hsMem, hsOp, hsReads, hsOut, hinit, hread⟩, halpha⟩
      nodes := by simp [PatternMatch.commit, hall, PatternMatch.setValueName] }⟩

/-! ## A candidate of the rule -/

/-- A candidate of the rule, taken apart. -/
structure Setting (env : MatchEnv Rat) (g : Graph) (c : Candidate Rat) (e : Expansion) : Prop where
  model : QuickGeluGraph env g
  wf : Wf g c
  anchor : e.sigmoid = c.anchor
  describes : e.Describes env g c.found

theorem exists_setting {env : FusionEnv Rat} {c : Candidate Rat}
    (hg : QuickGeluGraph env.toMatchEnv g)
    (hc : c ∈ (applyFusions env (buildAnchorIndex allRules) g).emitted)
    (hop : c.anchor.opType = "Sigmoid") : ∃ e, Setting env.toMatchEnv g c e := by
  obtain ⟨hanchor, hcandidate, -⟩ := emitted_found env _ g c hc
  obtain ⟨-, -, entry, m, hentry, hm, hrule, hfound, -⟩ := findCandidate_eq_some hcandidate
  rw [hop, anchorIndex_sigmoid, Option.some.injEq] at hentry
  subst hentry
  have hrule' : c.rule = fusionRule := List.mem_singleton.1 (List.mem_of_find?_eq_some hrule)
  rw [hrule'] at hfound
  obtain ⟨e, he, hdescribes⟩ := match_expansion hg hanchor hm
  exact ⟨e, hg, findCandidate_wf hanchor hcandidate, he, hfound.symm ▸ hdescribes⟩

namespace Setting

variable {c : Candidate Rat} {e : Expansion} {n : Node} {sc : Scaling} {v : String}

theorem scaled (h : Setting env g c e) (hsc : e.scaling = some sc) : e.ScaledBy env g sc :=
  (h.describes.scaled sc hsc).1

theorem mem_matched (h : Setting env g c e) :
    n ∈ c.matched ↔ n = e.sigmoid ∨ (∃ sc, e.scaling = some sc ∧ sc.node = n) ∨ n = e.product := by
  rw [Candidate.matched, h.describes.nodes]
  simp

/-! ### Who reads whom -/

theorem scaling_feeds (h : Setting env g c e) (hsc : e.scaling = some sc) :
    Feeds g sc.node e.sigmoid :=
  ⟨(h.scaled hsc).mem, h.describes.sigmoid_mem, e.u, (h.scaled hsc).outputs,
    by simp [h.describes.sigmoid_inputs]⟩

theorem sigmoid_feeds (h : Setting env g c e) : Feeds g e.sigmoid e.product := by
  refine ⟨h.describes.sigmoid_mem, h.describes.product_mem, e.w, h.describes.sigmoid_outputs, ?_⟩
  rcases h.describes.product_inputs with hin | hin <;> simp [hin]

theorem leads_product (h : Setting env g c e) (hn : n ∈ c.matched) :
    Relation.ReflTransGen g.Dep n e.product := by
  rcases h.mem_matched.1 hn with rfl | ⟨sc, hsc, rfl⟩ | rfl
  · exact .single h.sigmoid_feeds.dep
  · exact .head (h.scaling_feeds hsc).dep (.single h.sigmoid_feeds.dep)
  · exact .refl

/-- A matched node in front of the anchor is the one that scales. -/
theorem feeds_anchor_iff (h : Setting env g c e) (hn : n ∈ c.matched) :
    Feeds g n c.anchor ↔ ∃ sc, e.scaling = some sc ∧ sc.node = n := by
  rw [← h.anchor]
  constructor
  · intro hfeeds
    rcases h.mem_matched.1 hn with rfl | hsc | rfl
    · exact absurd (.single hfeeds.dep) (h.model.acyclic _)
    · exact hsc
    · exact absurd (.tail (.single hfeeds.dep) h.sigmoid_feeds.dep) (h.model.acyclic _)
  · rintro ⟨sc, hsc, rfl⟩
    exact h.scaling_feeds hsc

/-- The multiplication in front writes none of the values that the product reads. -/
theorem product_not_reads (h : Setting env g c e) (hsc : e.scaling = some sc) :
    some e.u ∉ e.product.inputs := by
  have hw : e.w ≠ e.u := by
    intro heq
    refine h.model.acyclic e.sigmoid (.single ?_)
    exact dep_of_slots h.describes.sigmoid_mem h.describes.sigmoid_mem
      (heq ▸ h.describes.sigmoid_outputs) (by simp [h.describes.sigmoid_inputs])
  have hx : e.x ≠ e.u := by
    intro heq
    refine h.model.acyclic sc.node (.single ?_)
    refine dep_of_slots (h.scaled hsc).mem (h.scaled hsc).mem (heq ▸ (h.scaled hsc).outputs) ?_
    rcases (h.scaled hsc).inputs with hin | hin <;> simp [hin]
  rcases h.describes.product_inputs with hin | hin <;> simp [hin, hw.symm, hx.symm]

/-! ### What the exclusion pass keeps -/

theorem sigmoid_kept (h : Setting env g c e) : e.sigmoid ∈ c.group (buildGraphConnectivity g) := by
  refine mem_group.2 ⟨h.mem_matched.2 (Or.inl rfl), ?_⟩
  simp [Candidate.keeps, h.anchor]

theorem product_kept (h : Setting env g c e) : e.product ∈ c.group (buildGraphConnectivity g) := by
  refine mem_group.2 ⟨h.mem_matched.2 (Or.inr (Or.inr rfl)), ?_⟩
  simp [Candidate.keeps, terminal_of_leads h.model.acyclic h.describes.product_mem
    fun d hd => h.leads_product hd]

/-- The multiplication in front stays exactly when nothing but the anchor reads it. -/
theorem scaling_kept_iff (h : Setting env g c e) (hsc : e.scaling = some sc) :
    sc.node ∈ c.group (buildGraphConnectivity g) ↔ FeedsOnly g sc.node c.anchor := by
  have hmem : sc.node ∈ c.matched := h.mem_matched.2 (Or.inr (Or.inl ⟨sc, hsc, rfl⟩))
  have hne : sc.node ≠ c.anchor := by
    rw [← h.anchor]
    intro heq
    exact h.model.acyclic _ (.single (heq ▸ (h.scaling_feeds hsc).dep))
  have hterm : isTerminal (buildGraphConnectivity g) c.matched sc.node = false :=
    isTerminal_eq_false h.model.acyclic (h.scaling_feeds hsc) (h.mem_matched.2 (Or.inl rfl))
  have hu : e.u ≠ "" := ne_empty_of_outputs (h.scaled hsc).mem (h.scaled hsc).outputs
  have houtputs : getNodeOutputNames sc.node = [e.u] := by
    simp [getNodeOutputNames, (h.scaled hsc).outputs]
  have hgraph : e.u ∈ (buildGraphConnectivity g).graphOutputValues ↔ e.u ∈ g.outputs := by
    simp [buildGraphConnectivity, hu]
  -- the anchor is the only matched reader, and it was not consumed before
  have hreaders : ∀ r ∈ g.nodes, some e.u ∈ r.inputs →
      (r ∉ c.matched ∨ r ∈ c.alreadyConsumed ↔ r ≠ e.sigmoid) := by
    intro r hr hin
    constructor
    · rintro (hout | hold) rfl
      · exact hout (h.mem_matched.2 (Or.inl rfl))
      · exact h.wf.fresh _ (h.mem_matched.2 (Or.inl rfl)) hold
    · intro hrne
      refine Or.inl fun hrm => ?_
      rcases h.mem_matched.1 hrm with heq | ⟨sc', hsc', rfl⟩ | rfl
      · exact hrne heq
      · obtain rfl : sc = sc' := Option.some.inj (hsc.symm.trans hsc')
        exact h.model.acyclic _ (.single (dep_of_slots hr hr (h.scaled hsc).outputs hin))
      · exact h.product_not_reads hsc hin
  have hexternal : hasExternalConsumer (buildGraphConnectivity g) c.matched c.alreadyConsumed
      sc.node = true ↔ e.u ∈ g.outputs ∨ ∃ r ∈ g.nodes, some e.u ∈ r.inputs ∧ r ≠ e.sigmoid := by
    rw [hasExternalConsumer, houtputs]
    simp only [List.any_cons, List.any_nil, Bool.or_false, Bool.or_eq_true,
      List.any_eq_true, mem_consumerMap, mem_getNodeInputNames hu, Bool.not_eq_true',
      List.contains_eq_mem, decide_eq_false_iff_not, decide_eq_true_eq]
    refine or_congr hgraph ⟨?_, ?_⟩
    · rintro ⟨r, ⟨-, hr, hin⟩, hout⟩
      exact ⟨r, hr, hin, (hreaders r hr hin).1 hout⟩
    · rintro ⟨r, hr, hin, hrne⟩
      exact ⟨r, ⟨hu, hr, hin⟩, (hreaders r hr hin).2 hrne⟩
  rw [mem_group, Candidate.keeps, hterm, beq_false_of_ne hne]
  simp only [hmem, true_and, Bool.false_or, Bool.not_eq_true', ← Bool.not_eq_true, hexternal]
  rw [← h.anchor]
  constructor
  · intro hnone v hv
    obtain rfl : e.u = v := by simpa [(h.scaled hsc).outputs] using hv
    refine ⟨fun hout => hnone (Or.inl hout), fun r hr hin => ?_⟩
    by_contra hrne
    exact hnone (Or.inr ⟨r, hr, hin, hrne⟩)
  · intro honly
    obtain ⟨hout, hreads⟩ := honly e.u (h.scaled hsc).outputs
    rintro (hmem | ⟨r, hr, hin, hrne⟩)
    · exact hout hmem
    · exact hrne (hreads r hr hin)

/-! ### The inputs of the fused graph -/

variable {s : FusedGraph} {k : KernelState}

/-- `x` comes from outside the match. -/
theorem x_outside (h : Setting env g c e) (hn : n ∈ c.matched) : e.x ∉ n.outputNames := by
  -- a node that reads `x` and leads to every node of the match
  obtain ⟨r, hr, hread, hfirst⟩ : ∃ r ∈ g.nodes, some e.x ∈ r.inputs ∧
      ∀ d ∈ c.matched, Relation.ReflTransGen g.Dep r d := by
    cases hscaling : e.scaling with
    | none =>
      refine ⟨e.sigmoid, h.describes.sigmoid_mem, ?_, fun d hd => ?_⟩
      · rw [(h.describes.unscaled hscaling).1, h.describes.sigmoid_inputs]
        exact List.mem_singleton_self _
      · rcases h.mem_matched.1 hd with rfl | ⟨sc, hsc, -⟩ | rfl
        · exact .refl
        · exact nomatch hscaling.symm.trans hsc
        · exact .single h.sigmoid_feeds.dep
    | some sc =>
      refine ⟨sc.node, (h.scaled hscaling).mem, ?_, fun d hd => ?_⟩
      · rcases (h.scaled hscaling).inputs with hin | hin <;> simp [hin]
      · rcases h.mem_matched.1 hd with rfl | ⟨sc', hsc', rfl⟩ | rfl
        · exact .single (h.scaling_feeds hscaling).dep
        · rw [Option.some.inj (hscaling.symm.trans hsc')]
        · exact .head (h.scaling_feeds hscaling).dep (.single h.sigmoid_feeds.dep)
  intro hout
  have hdep : g.Dep n r := ⟨h.wf.nodes n hn, hr, e.x, hout, Node.uses_pos.2 (Or.inl hread)⟩
  exact h.model.acyclic r (.tail' (hfirst n hn) hdep)

/-- Without a multiplication in front the fused graph has no other input. -/
theorem input_eq (h : Setting env g c e) (hs : s.Of env (c.group (buildGraphConnectivity g)))
    (hscaling : e.scaling = none) (hv : v ∈ s.inputs) : v = e.x := by
  obtain ⟨⟨n, hn, hread⟩, hout⟩ := hs.inputs_read v hv
  obtain ⟨hxu, -⟩ := h.describes.unscaled hscaling
  rcases h.mem_matched.1 (group_sub hn) with rfl | ⟨sc, hsc, rfl⟩ | rfl
  · rw [hxu]
    simpa [h.describes.sigmoid_inputs] using hread
  · exact nomatch hscaling.symm.trans hsc
  · have hne : v ≠ e.w := by
      rintro rfl
      exact hout e.sigmoid h.sigmoid_kept (by
        simp [Node.mem_outputNames, h.describes.sigmoid_outputs])
    have hcases : v = e.w ∨ v = e.x := by
      rcases h.describes.product_inputs with hin | hin <;> simp [hin] at hread <;> tauto
    exact hcases.resolve_left hne

theorem compile_spec (hk : compile env s c.found = some k) :
    (∃ input, s.inputs[0]? = some input) ∧
      k.alpha = (readConstant env (c.found.valueName "QuickGelu.alpha")).getD 1 := by
  unfold compile at hk
  dsimp only at hk
  split at hk
  · cases hk
  · next info hinfo =>
    obtain ⟨input, hinput, -⟩ := Option.bind_eq_some_iff.1 hinfo
    split at hk
    · cases hk
      exact ⟨⟨input, hinput⟩, rfl⟩
    · cases hk

theorem alpha_unscaled (h : Setting env g c e) (hk : compile env s c.found = some k)
    (hscaling : e.scaling = none) : k.alpha = 1 := by
  rw [(compile_spec hk).2, PatternMatch.valueName, (h.describes.unscaled hscaling).2]
  rfl

theorem alpha_scaled (h : Setting env g c e) (hk : compile env s c.found = some k)
    (hsc : e.scaling = some sc) : k.alpha = sc.factor := by
  have hread := (h.scaled hsc).read
  have hne : sc.name ≠ "" := by
    intro hempty
    rw [hempty, h.model.named] at hread
    cases hread
  rw [(compile_spec hk).2, PatternMatch.valueName, (h.describes.scaled sc hsc).2, Option.getD_some,
    readConstant, if_neg hne, hread, Option.getD_some]

/-! ### The value of the product -/

variable {ρ : String → ℝ}

theorem computesAt_mul {p q o : String} (h : ComputesAt ρ n) (hop : n.opType = "Mul")
    (hin : Reads n p q) (hout : n.outputs = [some o]) : ρ o = ρ p * ρ q := by
  rcases hin with hin | hin
  · rw [ComputesAt, hin, hout] at h
    exact h hop
  · rw [ComputesAt, hin, hout] at h
    rw [h hop, mul_comm]

theorem value_product (h : Setting env g c e) (hρ : Run env g c ρ) :
    ρ e.o = ρ e.x * Real.sigmoid (ρ e.u) := by
  have hsigmoid : ρ e.w = Real.sigmoid (ρ e.u) := by
    have hcomputes := hρ.nodes e.sigmoid (h.mem_matched.2 (Or.inl rfl))
    rw [ComputesAt, h.describes.sigmoid_inputs, h.describes.sigmoid_outputs] at hcomputes
    exact hcomputes h.describes.sigmoid_op
  have hproduct := computesAt_mul (hρ.nodes e.product (h.mem_matched.2 (Or.inr (Or.inr rfl))))
    h.describes.product_op h.describes.product_inputs h.describes.product_outputs
  rw [hproduct, hsigmoid, mul_comm]

theorem value_scaled (h : Setting env g c e) (hρ : Run env g c ρ) (hsc : e.scaling = some sc) :
    ρ e.u = ρ e.x * ρ sc.name :=
  computesAt_mul (hρ.nodes sc.node (h.mem_matched.2 (Or.inr (Or.inl ⟨sc, hsc, rfl⟩))))
    (h.scaled hsc).op (h.scaled hsc).inputs (h.scaled hsc).outputs

/-- The value that a node computes from its inputs. -/
noncomputable def nodeValue (n : Node) (ρ : String → ℝ) : ℝ :=
  match n.inputs with
  | [some a] => Real.sigmoid (ρ a)
  | [some a, some b] => ρ a * ρ b
  | _ => 0

theorem nodeValue_congr (n : Node) (ρ ρ' : String → ℝ)
    (h : ∀ v ∈ n.inputs.reduceOption, ρ v = ρ' v) : nodeValue n ρ = nodeValue n ρ' := by
  unfold nodeValue
  split
  · next a hin => rw [h a (by simp [hin, List.reduceOption])]
  · next a b hin =>
    rw [h a (by simp [hin, List.reduceOption]), h b (by simp [hin, List.reduceOption])]
  · rfl

theorem computesAt_of_nodeValue {o : String} (hout : n.outputs = [some o])
    (h : ρ o = nodeValue n ρ) : ComputesAt ρ n := by
  unfold ComputesAt
  split
  · next a o' hin hout' =>
    obtain rfl : o = o' := by simpa [hout] using hout'
    rw [nodeValue, hin] at h
    exact fun _ => h
  · next a b o' hin hout' =>
    obtain rfl : o = o' := by simpa [hout] using hout'
    rw [nodeValue, hin] at h
    exact fun _ => h
  · trivial

/-- The matched nodes run on every `x`, and on every constant that can be overridden. -/
theorem exists_run (h : Setting env g c e) (hsc : e.scaling = some sc) (t a : ℝ) :
    ∃ ρ, Run env g c ρ ∧ ρ e.x = t ∧ (sc.name ∈ g.inputs → ρ sc.name = a) := by
  have hmem : ∀ d ∈ [sc.node, e.sigmoid, e.product], d ∈ c.matched := by
    intro d hd
    simp only [List.mem_cons, List.not_mem_nil, or_false] at hd
    rw [h.mem_matched]
    rcases hd with rfl | rfl | rfl
    · exact Or.inr (Or.inl ⟨sc, hsc, rfl⟩)
    · exact Or.inl rfl
    · exact Or.inr (Or.inr rfl)
  have houtputs : ∀ d ∈ [sc.node, e.sigmoid, e.product], d ∈ g.nodes ∧
      ∃ o, d.outputs = [some o] := by
    intro d hd
    refine ⟨h.wf.nodes d (hmem d hd), ?_⟩
    simp only [List.mem_cons, List.not_mem_nil, or_false] at hd
    rcases hd with rfl | rfl | rfl
    · exact ⟨_, (h.scaled hsc).outputs⟩
    · exact ⟨_, h.describes.sigmoid_outputs⟩
    · exact ⟨_, h.describes.product_outputs⟩
  have hchain : [sc.node, e.sigmoid, e.product].IsChain (Feeds g) := by
    simp [h.scaling_feeds hsc, h.sigmoid_feeds]
  have hnodup : [sc.node, e.sigmoid, e.product].Nodup := by
    have hmatched := h.wf.nodup
    rw [Candidate.matched, h.describes.nodes, hsc] at hmatched
    exact (List.Perm.swap sc.node e.sigmoid [e.product]).nodup_iff.1 hmatched
  have hinit : ∀ v, (∃ q, (env.initializers v).bind tryReadScalarFloat = some q) → v ≠ e.x := by
    rintro v ⟨q, hq⟩ rfl
    rw [(h.scaled hsc).runtime] at hq
    cases hq
  obtain ⟨ρ, hρ, hframe⟩ := exists_run_of_chain h.model.acyclic hchain hnodup houtputs nodeValue
    nodeValue_congr fun v =>
      if v = e.x then t else if v ∈ g.inputs then a
      else (((env.initializers v).bind tryReadScalarFloat).map fun q : Rat => (q : ℝ)).getD 0
  have hconstant : ∀ v, (∃ q, (env.initializers v).bind tryReadScalarFloat = some q) →
      ∀ d ∈ [sc.node, e.sigmoid, e.product], d.outputs ≠ [some v] := by
    rintro v ⟨q, hq⟩ d hd hout
    exact h.model.unwritten v (isSome_of_read hq) (mem_written (houtputs d hd).1 hout)
  refine ⟨ρ, ⟨fun v q hv hq => ?_, fun d hd => ?_⟩, ?_, fun hin => ?_⟩
  · rw [hframe v (hconstant v ⟨q, hq⟩), if_neg (hinit v ⟨q, hq⟩), if_neg hv, hq]
    rfl
  · have hd' : d ∈ [sc.node, e.sigmoid, e.product] := by
      rcases h.mem_matched.1 hd with rfl | ⟨sc', hsc', rfl⟩ | rfl
      · simp
      · simp [Option.some.inj (hsc'.symm.trans hsc)]
      · simp
    obtain ⟨-, o, hout⟩ := houtputs d hd'
    exact computesAt_of_nodeValue hout (hρ d hd' o hout)
  · rw [hframe e.x fun d hd hout => h.x_outside (hmem d hd) (by
      simp [Node.mem_outputNames, hout]), if_pos rfl]
  · have hread : ∃ q, (env.initializers sc.name).bind tryReadScalarFloat = some q :=
      ⟨_, (h.scaled hsc).read⟩
    rw [hframe sc.name (hconstant _ hread), if_neg (hinit _ hread), if_pos hin]

/-- On `x` the kernel gives the value of the product unless its factor can be overridden. -/
theorem givesValue_iff (h : Setting env g c e) (hk : compile env s c.found = some k)
    (hx : s.inputs[0]? = some e.x) :
    GivesValue env g c s k e.o ↔ ∀ sc, e.scaling = some sc → sc.name ∉ g.inputs := by
  have hvalue : ∀ ρ, Run env g c ρ → ∀ input, s.inputs[0]? = some input →
      (ρ e.o = k.apply (ρ input) ↔
        ρ e.x * Real.sigmoid (ρ e.u) = ρ e.x * Real.sigmoid (k.alpha * ρ e.x)) := by
    intro ρ hρ input hinput
    obtain rfl : e.x = input := Option.some.inj (hx.symm.trans hinput)
    rw [h.value_product hρ, k.apply_eq]
  constructor
  · intro hgives sc hsc hin
    -- the factor is raised by 1
    obtain ⟨ρ, hρ, hone, hraised⟩ := h.exists_run hsc 1 (sc.factor + 1)
    have heq := (hvalue ρ hρ e.x hx).1 (hgives ρ hρ e.x hx)
    rw [h.value_scaled hρ hsc, hone, hraised hin, h.alpha_scaled hk hsc, one_mul, one_mul, one_mul,
      Real.sigmoid_inj] at heq
    linarith
  · intro hconstant ρ hρ input hinput
    rw [hvalue ρ hρ input hinput]
    cases hscaling : e.scaling with
    | none =>
      rw [h.alpha_unscaled hk hscaling, (h.describes.unscaled hscaling).1, Rat.cast_one, one_mul]
    | some sc =>
      rw [h.value_scaled hρ hscaling, h.alpha_scaled hk hscaling,
        hρ.constants _ _ (hconstant sc hscaling) (h.scaled hscaling).read,
        mul_comm (ρ e.x) (sc.factor : ℝ)]

/-- The product is the only multiplication of the group that reads the output of the anchor. -/
theorem value_refines_iff (h : Setting env g c e) :
    (∃ n ∈ c.group (buildGraphConnectivity g), ∃ w x o, c.anchor.outputs = [some w] ∧
      n.opType = "Mul" ∧ Reads n w x ∧ n.outputs = [some o] ∧ s.inputs[0]? = some x ∧
      GivesValue env g c s k o) ↔
    s.inputs[0]? = some e.x ∧ GivesValue env g c s k e.o := by
  rw [← h.anchor]
  constructor
  · rintro ⟨n, hn, w, x, o, hw, hop, hreads, ho, hx, hgives⟩
    obtain rfl : e.w = w := by simpa [h.describes.sigmoid_outputs] using hw
    have hfeeds : g.Dep e.sigmoid n :=
      dep_of_slots h.describes.sigmoid_mem (h.wf.nodes n (group_sub hn))
        h.describes.sigmoid_outputs (by rcases hreads with hin | hin <;> simp [hin])
    rcases h.mem_matched.1 (group_sub hn) with rfl | ⟨sc, hsc, rfl⟩ | rfl
    · exact absurd (.single hfeeds) (h.model.acyclic _)
    · exact absurd (.tail (.single hfeeds) (h.scaling_feeds hsc).dep) (h.model.acyclic _)
    · obtain rfl : e.o = o := by simpa [h.describes.product_outputs] using ho
      have hother : x = e.x := by
        rcases hreads with hin | hin <;> rcases h.describes.product_inputs with hin' | hin' <;>
          simp [hin] at hin' <;> grind
      exact ⟨hother ▸ hx, hgives⟩
  · rintro ⟨hx, hgives⟩
    exact ⟨e.product, h.product_kept, e.w, e.x, e.o, h.describes.sigmoid_outputs,
      h.describes.product_op, h.describes.product_inputs, h.describes.product_outputs, hx, hgives⟩

theorem refines_iff_faithful (h : Setting env g c e)
    (hs : s.Of env (c.group (buildGraphConnectivity g))) (hk : compile env s c.found = some k) :
    Refines env g c s k ↔ Faithful env g c s := by
  have hgroup : (∀ n ∈ c.group (buildGraphConnectivity g), ¬ Feeds g n c.anchor) ↔
      ∀ sc, e.scaling = some sc → ¬ FeedsOnly g sc.node c.anchor := by
    constructor
    · intro hnone sc hsc honly
      have hkept := (h.scaling_kept_iff hsc).2 honly
      exact hnone sc.node hkept ((h.feeds_anchor_iff (group_sub hkept)).2 ⟨sc, hsc, rfl⟩)
    · intro hnone n hn hfeeds
      obtain ⟨sc, hsc, rfl⟩ := (h.feeds_anchor_iff (group_sub hn)).1 hfeeds
      exact hnone sc hsc ((h.scaling_kept_iff hsc).1 hn)
  constructor
  · rintro ⟨hvalue, halpha⟩ n hn hfeeds
    obtain ⟨sc, hsc, rfl⟩ := (h.feeds_anchor_iff hn).1 hfeeds
    obtain ⟨hx, hgives⟩ := h.value_refines_iff.1 hvalue
    refine ⟨e.x, sc.name, sc.factor, (h.scaled hsc).inputs, (h.scaled hsc).runtime,
      (h.scaled hsc).read, (h.givesValue_iff hk hx).1 hgives sc hsc, hx, ?_⟩
    rw [h.alpha_scaled hk hsc, hgroup] at halpha
    rw [halpha]
    constructor
    · exact fun hall => hall sc hsc
    · intro hnot sc' hsc'
      rwa [Option.some.inj (hsc'.symm.trans hsc)]
  · intro hfaithful
    cases hscaling : e.scaling with
    | none =>
      have hx : s.inputs[0]? = some e.x := by
        obtain ⟨⟨input, hinput⟩, -⟩ := compile_spec hk
        rwa [h.input_eq hs hscaling (List.mem_of_getElem? hinput)] at hinput
      refine ⟨h.value_refines_iff.2 ⟨hx, (h.givesValue_iff hk hx).2 ?_⟩, ?_⟩
      · exact fun sc hsc => nomatch hscaling.symm.trans hsc
      · rw [h.alpha_unscaled hk hscaling, hgroup]
        simp [hscaling]
    | some sc =>
      have hmem : sc.node ∈ c.matched := h.mem_matched.2 (Or.inr (Or.inl ⟨sc, hscaling, rfl⟩))
      obtain ⟨x, name, q, hreads, hinit, hread, hname, hx, hfactor⟩ := hfaithful sc.node hmem
        ((h.feeds_anchor_iff hmem).2 ⟨sc, hscaling, rfl⟩)
      -- the operand that is an initializer is the constant
      have hne : x ≠ sc.name := by
        rintro rfl
        have hread' := (h.scaled hscaling).read
        rw [hinit] at hread'
        cases hread'
      have hsame : x = e.x ∧ name = sc.name := by
        rcases hreads with hin | hin <;> rcases (h.scaled hscaling).inputs with hin' | hin' <;>
          simp [hin] at hin' <;> grind
      obtain ⟨rfl, rfl⟩ := hsame
      obtain rfl : sc.factor = q := Option.some.inj ((h.scaled hscaling).read.symm.trans hread)
      refine ⟨h.value_refines_iff.2 ⟨hx, (h.givesValue_iff hk hx).2 ?_⟩, ?_⟩
      · intro sc' hsc'
        rwa [Option.some.inj (hsc'.symm.trans hscaling)]
      · rw [h.alpha_scaled hk hscaling, hgroup, hfactor]
        constructor
        · intro hnot sc' hsc'
          rwa [Option.some.inj (hsc'.symm.trans hscaling)]
        · exact fun hall => hall sc hscaling

end Setting

/-! ## The whole kernel -/

/-- `x * sigmoid(s * x)`. -/
def scaledNodes : List Node :=
  [{ id := 0, opType := "Identity", inputs := [some "in"], outputs := [some "x"] },
   { id := 1, opType := "Mul", inputs := [some "x", some "s"], outputs := [some "u"] },
   { id := 2, opType := "Sigmoid", inputs := [some "u"], outputs := [some "w"] },
   { id := 3, opType := "Mul", inputs := [some "x", some "w"], outputs := [some "y"] }]

/-- These nodes with some of their values as outputs of the graph. -/
def scaledGelu (outputs : List String) : Graph :=
  Graph.ofNodes scaledNodes ["in"] outputs (by decide) (by decide) (by decide) (by decide)

/-- A provider that runs every node, with the constant 2 as `s`. -/
def twoEnv : FusionEnv Rat where
  initializers name := if name = "s" then some ⟨.float, [], [2]⟩ else none
  valueInfo name := if name ∈ ["x", "u", "w"] then some ⟨.float, [4]⟩ else none
  isSupported _ := true
  cpuPreferredNodeIds := []
  addNodesToFuse _ _ := true

theorem scaledGelu_model (outputs : List String) :
    QuickGeluGraph twoEnv.toMatchEnv (scaledGelu outputs) where
  acyclic := Graph.acyclic_of_ids (by
    show ∀ p ∈ scaledNodes, ∀ n ∈ scaledNodes, _
    decide)
  schema n hn := by
    simp only [scaledGelu, Graph.ofNodes, scaledNodes, List.mem_cons, List.not_mem_nil,
      or_false] at hn
    rcases hn with rfl | rfl | rfl | rfl
    · exact ⟨fun h => absurd h (by decide), fun h => absurd h (by decide)⟩
    · exact ⟨fun h => absurd h (by decide), fun _ => ⟨"x", "s", "u", rfl, rfl⟩⟩
    · exact ⟨fun _ => ⟨"u", "w", rfl, rfl⟩, fun h => absurd h (by decide)⟩
    · exact ⟨fun h => absurd h (by decide), fun _ => ⟨"x", "w", "y", rfl, rfl⟩⟩
  unwritten v hinit hmem := by
    have hwritten : ∀ v ∈ (scaledGelu outputs).written,
        ¬ (twoEnv.initializers v).isSome := by
      show ∀ v ∈ ["x", "u", "w", "y"], _
      decide
    exact hwritten v hmem hinit
  named := rfl

/-- The only candidate. -/
def scaledGeluCandidate (outputs : List String) : Option (Candidate Rat) :=
  (applyFusions twoEnv (buildAnchorIndex allRules) (scaledGelu outputs)).emitted.head?

end QuickGelu
end AmdGpuEp.DirectML
