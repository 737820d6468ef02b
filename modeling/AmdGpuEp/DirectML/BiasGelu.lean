import AmdGpuEp.DirectML.FusionGroups
import AmdGpuEp.DirectML.ModelGraph
import AmdGpuEp.Lib.Erf

/-!
# What an accepted BiasGelu match computes

`bias_gelu_ep_fusion.cc`: the nodes that the pattern takes at an `Erf`, the value
that the last of them computes over the real numbers, and the function of the
fused kernel, `DML_ELEMENT_WISE_ADD1` with `DML_ACTIVATION_GELU`.

Results:
1. `match_expansion`: the nodes of an accepted match. The half in front of the
   product is never found, and the half behind it may be missing.
2. `computesGelu_iff`: an accepted match computes the function of the fused
   kernel exactly when the half is there and the constants are exact.
3. `unscaled_accepted`: a graph without the half is accepted.
-/

namespace AmdGpuEp.DirectML

open PatternMatcherLemmas

/-! ## Operators over the real numbers -/

/-- A node computes its ONNX function. A value stands for its element at one position, and a
scalar for the element that broadcasting puts there. -/
def Computes (ρ : String → ℝ) (n : Node) : Prop :=
  match n.inputs, n.outputs with
  | [some a], [some o] => n.opType = "Erf" → ρ o = erf (ρ a)
  | [some a, some b], [some o] =>
    (n.opType = "Add" → ρ o = ρ a + ρ b) ∧ (n.opType = "Mul" → ρ o = ρ a * ρ b) ∧
      (n.opType = "Div" → ρ o = ρ a / ρ b)
  | _, _ => True

namespace BiasGelu

variable {F : Type} [FloatOps F]

/-- The operators of the pattern have their ONNX arities. -/
abbrev GeluGraph (env : MatchEnv F) (g : Graph) : Prop :=
  ModelGraph ["Erf"] ["Add", "Mul", "Div"] env g

/-! ## The pattern -/

def divNode : PNode F :=
  .mk "Div" ""
    [(some 0, .capture "BiasGelu.add_out"),
      (some 1, .scalar "" (FloatOps.lit 1.41421356237) (FloatOps.lit 0.001))]
    "BiasGelu.div"
    (.cons .upstream 0 (.mk "Add" "" [(none, biasInput)] "BiasGelu.bias_add" .nil) false .nil)

def halfUpstream : PNode F :=
  .mk "Mul" ""
    [(none, .sameAs "BiasGelu.add_out"), (none, .scalar "" (FloatOps.lit 0.5) defaultTol)]
    "BiasGelu.mul_half_p1" .nil

def halfDownstream : PNode F :=
  .mk "Mul" "" [(some 1, .scalar "" (FloatOps.lit 0.5) defaultTol)] "BiasGelu.mul_half_p2" .nil

def mulNode : PNode F :=
  .mk "Mul" "" [(none, .sameAs "BiasGelu.add_out")] "BiasGelu.mul_x"
    (.cons .upstream 1 halfUpstream true (.cons .downstream 0 halfDownstream true .nil))

def addOneNode : PNode F :=
  .mk "Add" "" [(none, .scalar "" (FloatOps.lit 1) defaultTol)] "BiasGelu.add1"
    (.cons .downstream 0 mulNode false .nil)

theorem buildPattern_eq :
    (buildPattern : PNode F) =
      .mk "Erf" "" [] "BiasGelu.erf"
        (.cons .upstream 0 divNode false (.cons .downstream 0 addOneNode false .nil)) :=
  rfl

variable {env : MatchEnv F} {g : Graph} {already : List Node} {anchor : Node} {m : PatternMatch F}

variable {node : Node} {out out' : PatternMatch F}

/-- The first two inputs of the division: the biased value and the divisor. -/
theorem matchNode_divNode
    (h : matchNode env (buildGraphConnectivity g) already divNode node out = some out') :
    node.opType = "Div" ∧ ∃ addOut divisorName c add,
      (getNodeInputNames node)[0]? = some addOut ∧
      (getNodeInputNames node)[1]? = some divisorName ∧
      readNear env (FloatOps.lit 1.41421356237) (FloatOps.lit 0.001) divisorName = some c ∧
      (buildGraphConnectivity g).producerMap addOut = some add ∧ add.opType = "Add" ∧
      out'.allNodes = out.allNodes ++ [node, add] ∧
      out'.valueNames "BiasGelu.add_out" = some addOut ∧
      out'.nodeIndices "BiasGelu.bias_add" = some add := by
  rw [divNode, matchNode_eq_some] at h
  obtain ⟨-, -, hop, -, checked, hchecked, hedges⟩ := h
  simp only [checkInputs, checkInput, Option.bind_eq_some_iff, Option.some.injEq] at hchecked
  obtain ⟨_, ⟨addOut, haddOut, rfl⟩, _, ⟨divisorName, hname, hscalar⟩, rfl⟩ := hchecked
  obtain ⟨c, hc, rfl⟩ := Option.map_eq_some_iff.1 hscalar
  rw [matchEdges_required] at hedges
  obtain ⟨add, longer, hfollow, hadd, hedges⟩ := hedges
  simp only [matchEdges, Option.some.injEq] at hedges
  subst hedges
  rw [matchNode_eq_some] at hadd
  obtain ⟨-, -, haddOp, -, checked, hchecked, hedges⟩ := hadd
  simp only [matchEdges, Option.some.injEq] at hedges
  subst hedges
  simp only [checkInputs, Option.bind_eq_some_iff, biasInput, checkAnyInput,
    Option.some.injEq] at hchecked
  obtain ⟨_, hbias, rfl⟩ := hchecked
  obtain ⟨biasName, -, rfl⟩ := Option.map_eq_some_iff.1 hbias
  have hproducer : (buildGraphConnectivity g).producerMap addOut = some add := by
    simpa [followEdge, haddOut] using hfollow
  refine ⟨hop, addOut, divisorName, c, add, haddOut, hname, hc, hproducer, haddOp, ?_, ?_, ?_⟩
  · simp [PatternMatch.commit, PatternMatch.noteValueName, PatternMatch.noteScalarValue,
      PatternMatch.setValueName]
  · simp [PatternMatch.commit, PatternMatch.noteValueName, PatternMatch.noteScalarValue,
      PatternMatch.setValueName]
  · simp [PatternMatch.commit]

/-- The half behind the product: its second input is the factor. -/
theorem matchNode_halfDownstream :
    matchNode env (buildGraphConnectivity g) already halfDownstream node out = some out' ↔
      node ∉ already ∧ node ∉ out.allNodes ∧ node.opType = "Mul" ∧
        (∃ name h, (getNodeInputNames node)[1]? = some name ∧
          readNear env (FloatOps.lit 0.5) defaultTol name = some h) ∧
        out' = out.commit "BiasGelu.mul_half_p2" node := by
  rw [halfDownstream, matchNode_eq_some]
  simp only [checkInputs, checkInput, Option.bind_eq_some_iff, Option.some.injEq, matchEdges,
    Option.map_eq_some_iff, PatternMatch.noteScalarValue, if_true]
  constructor
  · rintro ⟨hfree, hnew, hop, -, _, ⟨_, ⟨name, hname, h, hh, rfl⟩, rfl⟩, rfl⟩
    exact ⟨hfree, hnew, hop, ⟨name, h, hname, hh⟩, rfl⟩
  · rintro ⟨hfree, hnew, hop, ⟨name, h, hname, hh⟩, rfl⟩
    exact ⟨hfree, hnew, hop, Or.inl trivial, _, ⟨_, ⟨name, hname, h, hh, rfl⟩, rfl⟩, rfl⟩

/-- The multiplication behind the product `mul` that the pattern takes as the factor 1/2: the first
`Mul` among the consumers, with its second input a constant near 1/2. -/
def halfBehind (env : MatchEnv F) (gc : GraphConnectivity) (already : List Node) (mul : Node) :
    Option (Node × F) :=
  ((getNodeOutputNames mul)[0]?.bind fun out =>
      (gc.consumerMap out).find? fun consumer => consumer.opType == "Mul").bind fun half =>
    if half ∈ already then none
    else
      ((getNodeInputNames half)[1]?.bind
        (readNear env (FloatOps.lit 0.5) defaultTol)).map (half, ·)

theorem followHalf_eq
    (hnew : ∀ half h, halfBehind env (buildGraphConnectivity g) already node = some (half, h) →
      half ∉ out.allNodes) :
    ((followEdge (buildGraphConnectivity g) node .downstream 0 (halfDownstream : PNode F)).bind
        fun half => matchNode env (buildGraphConnectivity g) already halfDownstream half out) =
      (halfBehind env (buildGraphConnectivity g) already node).map fun r =>
        out.commit "BiasGelu.mul_half_p2" r.1 := by
  have hfollow : followEdge (buildGraphConnectivity g) node .downstream 0
        (halfDownstream : PNode F) =
      (getNodeOutputNames node)[0]?.bind fun v =>
        ((buildGraphConnectivity g).consumerMap v).find? fun consumer =>
          consumer.opType == "Mul" :=
    rfl
  unfold halfBehind at hnew ⊢
  rw [hfollow]
  cases hfound : (getNodeOutputNames node)[0]?.bind fun v =>
      ((buildGraphConnectivity g).consumerMap v).find? fun consumer =>
        consumer.opType == "Mul" with
  | none => rfl
  | some half =>
    obtain ⟨v, -, hv⟩ := Option.bind_eq_some_iff.1 hfound
    have hop : half.opType = "Mul" := by simpa using List.find?_some hv
    rw [hfound] at hnew
    simp only [Option.bind_some] at hnew ⊢
    refine Option.ext fun out' => ?_
    rw [matchNode_halfDownstream, Option.map_eq_some_iff]
    split
    · next hmem => simp [hmem]
    · next hmem =>
      rw [if_neg hmem] at hnew
      constructor
      · rintro ⟨-, -, -, ⟨name, h, hname, hh⟩, rfl⟩
        exact ⟨(half, h), by simp [hname, hh], rfl⟩
      · rintro ⟨r, hr, rfl⟩
        obtain ⟨h, hh, rfl⟩ := Option.map_eq_some_iff.1 hr
        obtain ⟨name, hname, hread⟩ := Option.bind_eq_some_iff.1 hh
        exact ⟨hmem, hnew half h hr, hop, ⟨name, h, hname, hread⟩, rfl⟩

/-- The product of the biased value: the half in front of it is not found, as the pattern asks for
the biased value itself, and the half behind it is taken when it is there. -/
theorem matchNode_mulNode {addOut : String}
    (haddOut : out.valueNames "BiasGelu.add_out" = some addOut)
    (hupstream : addOut ∈ getNodeInputNames node → ∀ v c,
      (getNodeInputNames node)[1]? = some v →
      (buildGraphConnectivity g).producerMap v = some c → c.opType ≠ "Mul")
    (hnew : ∀ half h, halfBehind env (buildGraphConnectivity g) already node = some (half, h) →
      half ∉ out.allNodes ++ [node])
    (h : matchNode env (buildGraphConnectivity g) already mulNode node out = some out') :
    node.opType = "Mul" ∧ addOut ∈ getNodeInputNames node ∧
      out'.nodeIndices "BiasGelu.bias_add" = out.nodeIndices "BiasGelu.bias_add" ∧
      out'.allNodes = out.allNodes ++ [node] ++
        ((halfBehind env (buildGraphConnectivity g) already node).map Prod.fst).toList := by
  rw [mulNode, matchNode_eq_some] at h
  obtain ⟨-, -, hop, -, checked, hchecked, hedges⟩ := h
  simp only [checkInputs, checkAnyInput, haddOut, Option.bind_eq_some_iff] at hchecked
  obtain ⟨_, hsame, hchecked⟩ := hchecked
  split at hsame
  · next hmem =>
    cases hsame
    cases hchecked
    refine ⟨hop, hmem, ?_⟩
    rw [captureName_of_ne (by decide), matchEdges_optional] at hedges
    have hnone : ((followEdge (buildGraphConnectivity g) node .upstream 1
        (halfUpstream : PNode F)).bind fun c => matchNode env (buildGraphConnectivity g) already
          halfUpstream c (out.commit "BiasGelu.mul_x" node)) = none := by
      rw [Option.bind_eq_none_iff]
      intro c hfollow
      obtain ⟨v, hv, hc⟩ := Option.bind_eq_some_iff.1 hfollow
      rw [Option.eq_none_iff_forall_not_mem]
      intro longer hlonger
      rw [halfUpstream, Option.mem_def, matchNode_eq_some] at hlonger
      exact hupstream hmem v c hv hc hlonger.2.2.1
    rw [hnone, Option.getD_none, matchEdges_optional, matchEdges, Option.some.injEq] at hedges
    rw [followHalf_eq hnew] at hedges
    subst hedges
    cases hhalf : halfBehind env (buildGraphConnectivity g) already node with
    | none => simp [PatternMatch.commit]
    | some r => simp [PatternMatch.commit]
  · cases hsame

/-- The addition of 1. -/
theorem matchNode_addOneNode
    (h : matchNode env (buildGraphConnectivity g) already addOneNode node out = some out') :
    node.opType = "Add" ∧ ∃ a mul mid,
      firstNear env (FloatOps.lit 1) defaultTol (getNodeInputNames node) = some a ∧
      onlyConsumer (buildGraphConnectivity g) node = some mul ∧
      mid = out.commit "BiasGelu.add1" node ∧
      matchNode env (buildGraphConnectivity g) already mulNode mul mid = some out' := by
  rw [addOneNode, matchNode_eq_some] at h
  obtain ⟨-, -, hop, -, checked, hchecked, hedges⟩ := h
  simp only [checkInputs, checkAnyInput, Option.bind_eq_some_iff, Option.some.injEq] at hchecked
  obtain ⟨_, hscalar, rfl⟩ := hchecked
  obtain ⟨a, ha, rfl⟩ := Option.map_eq_some_iff.1 hscalar
  rw [matchEdges_required] at hedges
  obtain ⟨mul, longer, hfollow, hmul, hedges⟩ := hedges
  simp only [matchEdges, Option.some.injEq] at hedges
  subst hedges
  exact ⟨hop, a, mul, _, ha, hfollow, rfl, hmul⟩

/-! ## The shape of a match -/

/-- The constant that the biased value is divided by. -/
def divisor (env : MatchEnv F) (gc : GraphConnectivity) (anchor : Node) : Option F :=
  ((getNodeInputNames anchor)[0]?.bind gc.producerMap).bind fun div =>
    (getNodeInputNames div)[1]?.bind
      (readNear env (FloatOps.lit 1.41421356237) (FloatOps.lit 0.001))

/-- The constant that is added to the error function. -/
def offset (env : MatchEnv F) (gc : GraphConnectivity) (anchor : Node) : Option F :=
  (onlyConsumer gc anchor).bind fun add =>
    firstNear env (FloatOps.lit 1) defaultTol (getNodeInputNames add)

/-- The factor behind the product, with its node. -/
def scale (env : MatchEnv F) (gc : GraphConnectivity) (already : List Node) (anchor : Node) :
    Option (Node × F) :=
  ((onlyConsumer gc anchor).bind (onlyConsumer gc)).bind (halfBehind env gc already)

/-- The nodes of a match, the values between them, and the two constants inside. -/
structure Expansion (F : Type) where
  (anchor div biasAdd addOne mul : Node)
  (addOut divOut erfOut oneOut mulOut divisorName oneName : String)
  (c a : F)

namespace Expansion

/-- `e` is what the match `m` at `e.anchor` consists of. -/
structure Describes (e : Expansion F) (env : MatchEnv F) (g : Graph) (already : List Node)
    (m : PatternMatch F) : Prop where
  mem : ∀ n ∈ [e.anchor, e.div, e.biasAdd, e.addOne, e.mul], n ∈ g.nodes
  erf_op : e.anchor.opType = "Erf"
  erf_inputs : e.anchor.inputs = [some e.divOut]
  erf_outputs : e.anchor.outputs = [some e.erfOut]
  div_op : e.div.opType = "Div"
  div_inputs : e.div.inputs = [some e.addOut, some e.divisorName]
  div_outputs : e.div.outputs = [some e.divOut]
  biasAdd_outputs : e.biasAdd.outputs = [some e.addOut]
  addOne_op : e.addOne.opType = "Add"
  addOne_inputs : Reads e.addOne e.erfOut e.oneName
  addOne_outputs : e.addOne.outputs = [some e.oneOut]
  mul_op : e.mul.opType = "Mul"
  mul_inputs : Reads e.mul e.oneOut e.addOut
  mul_outputs : e.mul.outputs = [some e.mulOut]
  divisor_read : (env.initializers e.divisorName).bind tryReadScalarFloat = some e.c
  one_read : (env.initializers e.oneName).bind tryReadScalarFloat = some e.a
  divisor_eq : divisor env (buildGraphConnectivity g) e.anchor = some e.c
  offset_eq : offset env (buildGraphConnectivity g) e.anchor = some e.a
  scale_eq : scale env (buildGraphConnectivity g) already e.anchor =
    halfBehind env (buildGraphConnectivity g) already e.mul
  biasAdd_captured : m.nodeIndices "BiasGelu.bias_add" = some e.biasAdd
  nodes : m.allNodes = [e.anchor, e.div, e.biasAdd, e.addOne, e.mul] ++
    ((halfBehind env (buildGraphConnectivity g) already e.mul).map Prod.fst).toList

end Expansion

theorem readNear_eq_some {value tol v : F} {name : String}
    (h : readNear env value tol name = some v) :
    (env.initializers name).bind tryReadScalarFloat = some v := by
  unfold readNear at h
  split at h
  · cases h
  · next val hval =>
    rw [hval, Option.bind_some]
    split at h
    · cases h
    · next w hw =>
      split at h
      · cases h
      · rw [hw, h]

theorem halfBehind_spec {n half : Node} {o : String} {h : F} (hout : n.outputs = [some o])
    (hhalf : halfBehind env (buildGraphConnectivity g) already n = some (half, h)) :
    half ∈ g.nodes ∧ half.opType = "Mul" ∧ some o ∈ half.inputs ∧
      ∃ name, (getNodeInputNames half)[1]? = some name ∧
        readNear env (FloatOps.lit 0.5) defaultTol name = some h := by
  have hv : (getNodeOutputNames n)[0]? = some o := by simp [getNodeOutputNames, hout]
  rw [halfBehind, hv, Option.bind_some] at hhalf
  obtain ⟨half', hfind, hread⟩ := Option.bind_eq_some_iff.1 hhalf
  split at hread
  · cases hread
  · obtain ⟨h', hbind, heq⟩ := Option.map_eq_some_iff.1 hread
    cases heq
    obtain ⟨hne, hnode, hin⟩ := mem_consumerMap.1 (List.mem_of_find?_eq_some hfind)
    have hop : half.opType = "Mul" := by simpa using List.find?_some hfind
    exact ⟨hnode, hop, (mem_getNodeInputNames hne).1 hin, Option.bind_eq_some_iff.1 hbind⟩

/-- The first steps of the descent from the anchor. -/
theorem matchPattern_descent
    (h : matchPattern env (buildGraphConnectivity g) already anchor buildPattern = some m) :
    anchor.opType = "Erf" ∧ ∃ div addOne m₁,
      followEdge (buildGraphConnectivity g) anchor .upstream 0 (divNode : PNode F) = some div ∧
      matchNode env (buildGraphConnectivity g) already divNode div
        (({} : PatternMatch F).commit "BiasGelu.erf" anchor) = some m₁ ∧
      onlyConsumer (buildGraphConnectivity g) anchor = some addOne ∧
      matchNode env (buildGraphConnectivity g) already addOneNode addOne m₁ = some m := by
  rw [matchPattern, buildPattern_eq, matchNode_eq_some] at h
  obtain ⟨-, -, hop, -, checked, hchecked, hedges⟩ := h
  obtain rfl : ({} : PatternMatch F) = checked := Option.some.inj hchecked
  rw [matchEdges_required] at hedges
  obtain ⟨div, m₁, hdivFollow, hdivMatch, hedges⟩ := hedges
  rw [matchEdges_required] at hedges
  obtain ⟨addOne, m₂, honeFollow, honeMatch, hedges⟩ := hedges
  obtain rfl : m₂ = m := by simpa [matchEdges] using hedges
  exact ⟨hop, div, addOne, m₁, hdivFollow, hdivMatch, honeFollow, honeMatch⟩

/-- Neither operand of the product comes from a `Mul`. -/
theorem operand_not_mul {mul addOne biasAdd c : Node} {oneOut addOut v : String}
    (hone : addOne ∈ g.nodes) (hbias : biasAdd ∈ g.nodes) (honeOp : addOne.opType = "Add")
    (hbiasOp : biasAdd.opType = "Add") (honeOutputs : addOne.outputs = [some oneOut])
    (hbiasOutputs : biasAdd.outputs = [some addOut]) (hreads : Reads mul oneOut addOut)
    (hv : (getNodeInputNames mul)[1]? = some v)
    (hc : (buildGraphConnectivity g).producerMap v = some c) : c.opType ≠ "Mul" := by
  have hmem := mem_nodes_of_producer hc
  have hout := mem_outputNames_of_producer hc
  have hcases : v = oneOut ∨ v = addOut := by
    rcases hreads with hr | hr
    · right
      simpa [getNodeInputNames, hr] using hv.symm
    · left
      simpa [getNodeInputNames, hr] using hv.symm
  rcases hcases with rfl | rfl
  · rw [Graph.producer_unique hmem hone hout (by simp [Node.mem_outputNames, honeOutputs]), honeOp]
    decide
  · rw [Graph.producer_unique hmem hbias hout (by simp [Node.mem_outputNames, hbiasOutputs]),
      hbiasOp]
    decide

/-- An accepted match takes the six nodes of the expansion or, without the last factor, five. -/
theorem match_expansion (hg : GeluGraph env g) (hanchor : anchor ∈ g.nodes)
    (h : matchPattern env (buildGraphConnectivity g) already anchor buildPattern = some m) :
    ∃ e : Expansion F, e.anchor = anchor ∧ e.Describes env g already m := by
  obtain ⟨herfOp, div, addOne, m₁, hdivFollow, hdivMatch, honly, honeMatch⟩ :=
    matchPattern_descent h
  obtain ⟨hdivOp, addOut, divisorName, c, biasAdd, haddOut, hdivisorName, hc, hproducer, hbiasOp,
    hall₁, hvalue₁, hindex₁⟩ := matchNode_divNode hdivMatch
  obtain ⟨honeOp, a, mul, mid, ha, honlyMul, rfl, hmulMatch⟩ := matchNode_addOneNode honeMatch
  -- the slots of the nodes
  obtain ⟨divOut, erfOut, herfInputs, herfOutputs⟩ :=
    (hg.schema anchor hanchor).unary (by simp [herfOp])
  have hdivMem := followEdge_mem hdivFollow
  obtain ⟨p, q, o, hdivInputs, hdivOutputs⟩ := (hg.schema div hdivMem).binary (by simp [hdivOp])
  obtain rfl : addOut = p := by simpa [getNodeInputNames, hdivInputs] using haddOut.symm
  obtain rfl : divisorName = q := by
    simpa [getNodeInputNames, hdivInputs] using hdivisorName.symm
  have hdivProducer : (buildGraphConnectivity g).producerMap divOut = some div := by
    simpa [followEdge, getNodeInputNames, herfInputs] using hdivFollow
  have hdivOutputs := outputs_of_producer hdivProducer hdivOutputs
  have hbiasMem := mem_nodes_of_producer hproducer
  obtain ⟨_, _, o, -, hbiasOutputs⟩ := (hg.schema biasAdd hbiasMem).binary (by simp [hbiasOp])
  have hbiasOutputs := outputs_of_producer hproducer hbiasOutputs
  obtain ⟨honeMem, honeReads⟩ := onlyConsumer_spec herfOutputs honly
  obtain ⟨p, q, oneOut, honeInputs, honeOutputs⟩ :=
    (hg.schema addOne honeMem).binary (by simp [honeOp])
  obtain ⟨hmulMem, hmulReads⟩ := onlyConsumer_spec honeOutputs honlyMul
  have hmulOp : mul.opType = "Mul" := (matchNode_eq_some.1 hmulMatch).2.2.1
  obtain ⟨r, t, mulOut, hmulInputs, hmulOutputs⟩ :=
    (hg.schema mul hmulMem).binary (by simp [hmulOp])
  -- a constant is written by no node
  obtain ⟨oneName, honeName, hone⟩ := List.exists_of_findSome?_eq_some ha
  have honeNe : erfOut ≠ oneName := by
    rintro rfl
    exact hg.unwritten _ (isSome_of_read (readNear_eq_some hone)) (mem_written hanchor herfOutputs)
  have honeIn : some oneName ∈ addOne.inputs := by
    simpa [getNodeInputNames, honeInputs] using honeName
  -- the two additions differ, as the second depends on the first
  have hbiasDiv : g.Dep biasAdd div :=
    dep_of_slots hbiasMem hdivMem hbiasOutputs (by simp [hdivInputs])
  have hdivErf : g.Dep div anchor :=
    dep_of_slots hdivMem hanchor hdivOutputs (by simp [herfInputs])
  have herfOne : g.Dep anchor addOne := dep_of_slots hanchor honeMem herfOutputs honeReads
  have haddNe : oneOut ≠ addOut := by
    rintro rfl
    have hsame : biasAdd = addOne := producer_of_outputs hbiasMem honeMem hbiasOutputs honeOutputs
    subst hsame
    exact hg.acyclic biasAdd (.tail (.tail (.single hbiasDiv) hdivErf) herfOne)
  have hreads : addOut ∈ getNodeInputNames mul → Reads mul oneOut addOut := by
    intro hmem
    have hin := (mem_getNodeInputNames (ne_empty_of_outputs hbiasMem hbiasOutputs)).1 hmem
    exact reads_of_mem hmulInputs hmulReads hin haddNe
  have hall : (m₁.commit "BiasGelu.add1" addOne).allNodes = [anchor, div, biasAdd, addOne] := by
    simp [PatternMatch.commit, hall₁]
  -- no earlier node is a `Mul`, and none reads its own output
  have hnew : ∀ half h, halfBehind env (buildGraphConnectivity g) already mul = some (half, h) →
      half ∉ (m₁.commit "BiasGelu.add1" addOne).allNodes ++ [mul] := by
    intro half h hhalf
    obtain ⟨hhalfMem, hhalfOp, hhalfIn, -⟩ := halfBehind_spec hmulOutputs hhalf
    rw [hall]
    intro hmem
    simp only [List.cons_append, List.nil_append, List.mem_cons, List.not_mem_nil,
      or_false] at hmem
    rcases hmem with rfl | rfl | rfl | rfl | rfl
    · simp [herfOp] at hhalfOp
    · simp [hdivOp] at hhalfOp
    · simp [hbiasOp] at hhalfOp
    · simp [honeOp] at hhalfOp
    · exact hg.acyclic half (.single (dep_of_slots hhalfMem hhalfMem hmulOutputs hhalfIn))
  have hcaptured : (m₁.commit "BiasGelu.add1" addOne).valueNames "BiasGelu.add_out" =
      some addOut := hvalue₁
  obtain ⟨-, hsame, hindex, hnodes⟩ := matchNode_mulNode hcaptured
    (fun hmem v c' hv hc' => operand_not_mul honeMem hbiasMem honeOp hbiasOp honeOutputs
      hbiasOutputs (hreads hmem) hv hc') hnew hmulMatch
  exact ⟨⟨anchor, div, biasAdd, addOne, mul, addOut, divOut, erfOut, oneOut, mulOut, divisorName,
    oneName, c, a⟩, rfl, {
      mem := by simp [hanchor, hdivMem, hbiasMem, honeMem, hmulMem]
      erf_op := herfOp
      erf_inputs := herfInputs
      erf_outputs := herfOutputs
      div_op := hdivOp
      div_inputs := hdivInputs
      div_outputs := hdivOutputs
      biasAdd_outputs := hbiasOutputs
      addOne_op := honeOp
      addOne_inputs := reads_of_mem honeInputs honeReads honeIn honeNe
      addOne_outputs := honeOutputs
      mul_op := hmulOp
      mul_inputs := hreads hsame
      mul_outputs := hmulOutputs
      divisor_read := readNear_eq_some hc
      one_read := readNear_eq_some hone
      divisor_eq := by simp [divisor, getNodeInputNames, herfInputs, hdivProducer, hdivInputs, hc]
      offset_eq := by simp [offset, honly, ha]
      scale_eq := by simp [scale, honly, honlyMul]
      biasAdd_captured := by
        rw [hindex]
        simpa [PatternMatch.commit] using hindex₁
      nodes := by
        rw [hnodes, hall]
        rfl }⟩

/-! ## What a match computes -/

/-- Values at one position of a run of the matched nodes on the input `x` and the bias `b`:
constants have the values that `val` gives to floats, and every node but the sum of input and bias
computes its function. -/
structure Valuation (val : F → ℝ) (env : MatchEnv F) (m : PatternMatch F) (x b : ℝ)
    (ρ : String → ℝ) : Prop where
  scalars : ∀ v c, (env.initializers v).bind tryReadScalarFloat = some c → ρ v = val c
  sum : ∀ n, m.nodeIndices "BiasGelu.bias_add" = some n → ∀ o, n.outputs = [some o] → ρ o = x + b
  nodes : ∀ n ∈ m.allNodes, m.nodeIndices "BiasGelu.bias_add" ≠ some n → Computes ρ n

/-- On every input and every bias the terminal node of the match gives the function of the fused
kernel. -/
def ComputesGelu (val : F → ℝ) (env : MatchEnv F) (gc : GraphConnectivity) (m : PatternMatch F) :
    Prop :=
  ∀ x b ρ, Valuation val env m x b ρ → ∀ t ∈ m.allNodes, isTerminal gc m.allNodes t = true →
    ∀ o, t.outputs = [some o] → ρ o = gelu (x + b)

namespace Expansion

variable {e : Expansion F} {val : F → ℝ} {x b : ℝ} {ρ : String → ℝ}

theorem computes_unary {n : Node} {p o : String} (h : Computes ρ n) (hop : n.opType = "Erf")
    (hin : n.inputs = [some p]) (hout : n.outputs = [some o]) : ρ o = erf (ρ p) := by
  rw [Computes, hin, hout] at h
  exact h hop

theorem computes_binary {n : Node} {p q o : String} (h : Computes ρ n)
    (hin : n.inputs = [some p, some q]) (hout : n.outputs = [some o]) :
    (n.opType = "Add" → ρ o = ρ p + ρ q) ∧ (n.opType = "Mul" → ρ o = ρ p * ρ q) ∧
      (n.opType = "Div" → ρ o = ρ p / ρ q) := by
  rwa [Computes, hin, hout] at h

theorem computes_add {n : Node} {p q o : String} (h : Computes ρ n) (hop : n.opType = "Add")
    (hin : Reads n p q) (hout : n.outputs = [some o]) : ρ o = ρ p + ρ q := by
  rcases hin with hin | hin
  · exact (computes_binary h hin hout).1 hop
  · rw [(computes_binary h hin hout).1 hop, add_comm]

theorem computes_mul {n : Node} {p q o : String} (h : Computes ρ n) (hop : n.opType = "Mul")
    (hin : Reads n p q) (hout : n.outputs = [some o]) : ρ o = ρ p * ρ q := by
  rcases hin with hin | hin
  · exact (computes_binary h hin hout).2.1 hop
  · rw [(computes_binary h hin hout).2.1 hop, mul_comm]

/-- The value of the product: the expanded function without its factor. -/
theorem Describes.value_mulOut (he : e.Describes env g already m)
    (hbias : ∀ n ∈ [e.anchor, e.div, e.addOne, e.mul], n ≠ e.biasAdd)
    (hρ : Valuation val env m x b ρ) :
    ρ e.mulOut = (x + b) * (val e.a + erf ((x + b) / val e.c)) := by
  have hcomputes : ∀ n ∈ [e.anchor, e.div, e.addOne, e.mul], Computes ρ n := by
    intro n hn
    refine hρ.nodes n ?_ ?_
    · rw [he.nodes]
      simp only [List.mem_cons, List.not_mem_nil, or_false, List.mem_append] at hn ⊢
      tauto
    · rw [he.biasAdd_captured, Ne, Option.some.injEq]
      exact (hbias n hn).symm
  have hsum : ρ e.addOut = x + b := hρ.sum e.biasAdd he.biasAdd_captured _ he.biasAdd_outputs
  have hdiv : ρ e.divOut = (x + b) / val e.c := by
    rw [(computes_binary (hcomputes e.div (by simp)) he.div_inputs he.div_outputs).2.2 he.div_op,
      hsum, hρ.scalars _ _ he.divisor_read]
  have herf : ρ e.erfOut = erf ((x + b) / val e.c) := by
    rw [computes_unary (hcomputes e.anchor (by simp)) he.erf_op he.erf_inputs he.erf_outputs, hdiv]
  have hone : ρ e.oneOut = erf ((x + b) / val e.c) + val e.a := by
    rw [computes_add (hcomputes e.addOne (by simp)) he.addOne_op he.addOne_inputs
      he.addOne_outputs, herf, hρ.scalars _ _ he.one_read]
  rw [computes_mul (hcomputes e.mul (by simp)) he.mul_op he.mul_inputs he.mul_outputs, hone, hsum]
  ring

/-- The last multiplication of the match, with the factor that it puts on the product. -/
def last (e : Expansion F) (val : F → ℝ) (env : MatchEnv F) (gc : GraphConnectivity)
    (already : List Node) : Node × ℝ :=
  match halfBehind env gc already e.mul with
  | none => (e.mul, 1)
  | some (half, h) => (half, val h)

/-- The nodes of the match, each behind the one that it reads. -/
def chain (e : Expansion F) (env : MatchEnv F) (gc : GraphConnectivity) (already : List Node) :
    List Node :=
  [e.biasAdd, e.div, e.anchor, e.addOne, e.mul] ++
    ((halfBehind env gc already e.mul).map Prod.fst).toList

theorem Describes.mem_chain (he : e.Describes env g already m) {n : Node} :
    n ∈ m.allNodes ↔ n ∈ e.chain env (buildGraphConnectivity g) already := by
  rw [he.nodes, chain]
  simp only [List.mem_append, List.mem_cons, List.not_mem_nil, or_false]
  tauto

theorem getLast?_chain :
    (e.chain env (buildGraphConnectivity g) already).getLast? =
      some (e.last val env (buildGraphConnectivity g) already).1 := by
  unfold chain last
  cases halfBehind env (buildGraphConnectivity g) already e.mul with
  | none => rfl
  | some r => rfl

/-- The factor behind the product reads it and a constant. -/
theorem Describes.half_slots (he : e.Describes env g already m) (hg : GeluGraph env g)
    {half : Node} {h : F}
    (hhalf : halfBehind env (buildGraphConnectivity g) already e.mul = some (half, h)) :
    half ∈ g.nodes ∧ half.opType = "Mul" ∧ ∃ name o, half.inputs = [some e.mulOut, some name] ∧
      half.outputs = [some o] ∧ (env.initializers name).bind tryReadScalarFloat = some h := by
  obtain ⟨hmem, hop, hin, name, hname, hread⟩ := halfBehind_spec he.mul_outputs hhalf
  obtain ⟨p, q, o, hinputs, houtputs⟩ := (hg.schema half hmem).binary (by simp [hop])
  obtain rfl : name = q := by simpa [getNodeInputNames, hinputs] using hname.symm
  have hread := readNear_eq_some hread
  have hne : e.mulOut ≠ name := by
    rintro rfl
    exact hg.unwritten _ (isSome_of_read hread)
      (mem_written (he.mem e.mul (by simp)) he.mul_outputs)
  rw [hinputs] at hin
  simp only [List.mem_cons, Option.some.injEq, List.not_mem_nil, or_false, hne] at hin
  exact ⟨hmem, hop, name, o, by rw [hinputs, hin], houtputs, hread⟩

theorem Describes.isChain (he : e.Describes env g already m) (hg : GeluGraph env g) :
    (e.chain env (buildGraphConnectivity g) already).IsChain (Feeds g) := by
  have hmem := he.mem
  simp only [List.forall_mem_cons, List.not_mem_nil, false_implies, implies_true,
    and_true] at hmem
  obtain ⟨herf, hdiv, hbias, hone, hmul⟩ := hmem
  have hmulReads : some e.oneOut ∈ e.mul.inputs := by
    rcases he.mul_inputs with h | h <;> simp [h]
  have honeReads : some e.erfOut ∈ e.addOne.inputs := by
    rcases he.addOne_inputs with h | h <;> simp [h]
  have h₁ : Feeds g _ _ := ⟨hbias, hdiv, _, he.biasAdd_outputs, (by simp [he.div_inputs])⟩
  have h₂ : Feeds g _ _ := ⟨hdiv, herf, _, he.div_outputs, (by simp [he.erf_inputs])⟩
  have h₃ : Feeds g _ _ := ⟨herf, hone, _, he.erf_outputs, honeReads⟩
  have h₄ : Feeds g _ _ := ⟨hone, hmul, _, he.addOne_outputs, hmulReads⟩
  unfold chain
  cases hhalf : halfBehind env (buildGraphConnectivity g) already e.mul with
  | none => simp [h₁, h₂, h₃, h₄]
  | some r =>
    obtain ⟨hmem, -, name, o, hin, -, -⟩ := he.half_slots hg hhalf
    have h₅ : Feeds g _ _ := ⟨hmul, hmem, _, he.mul_outputs, (by simp [hin])⟩
    simp [h₁, h₂, h₃, h₄, h₅]

theorem Describes.outputs (he : e.Describes env g already m) (hg : GeluGraph env g) {n : Node}
    (hn : n ∈ m.allNodes) : n ∈ g.nodes ∧ ∃ o, n.outputs = [some o] := by
  have hmem := he.mem
  simp only [he.nodes, List.mem_append, List.mem_cons, List.not_mem_nil, or_false,
    Option.mem_toList, Option.map_eq_some_iff] at hn hmem
  rcases hn with (rfl | rfl | rfl | rfl | rfl) | ⟨r, hr, rfl⟩
  · exact ⟨hmem _ (by simp), _, he.erf_outputs⟩
  · exact ⟨hmem _ (by simp), _, he.div_outputs⟩
  · exact ⟨hmem _ (by simp), _, he.biasAdd_outputs⟩
  · exact ⟨hmem _ (by simp), _, he.addOne_outputs⟩
  · exact ⟨hmem _ (by simp), _, he.mul_outputs⟩
  · obtain ⟨hnode, -, name, o, -, hout, -⟩ := he.half_slots hg hr
    exact ⟨hnode, o, hout⟩

theorem Describes.nodup_chain (he : e.Describes env g already m) (hnodup : m.allNodes.Nodup) :
    (e.chain env (buildGraphConnectivity g) already).Nodup := by
  refine List.Perm.nodup ?_ hnodup
  rw [he.nodes, chain]
  refine List.Perm.append_right _ ?_
  exact ((List.Perm.swap e.div e.anchor _).trans
    (((List.Perm.swap e.biasAdd e.anchor _).cons e.div).trans (List.Perm.swap e.biasAdd e.div _)))

/-- The last multiplication is the terminal node of the match, and the only one. -/
theorem Describes.terminal_iff (he : e.Describes env g already m) (hg : GeluGraph env g)
    (val : F → ℝ) {t : Node} (ht : t ∈ m.allNodes) :
    isTerminal (buildGraphConnectivity g) m.allNodes t = true ↔
      t = (e.last val env (buildGraphConnectivity g) already).1 := by
  have hstep : ∀ n ∈ m.allNodes, n = (e.last val env (buildGraphConnectivity g) already).1 ∨
      ∃ b ∈ m.allNodes, Feeds g n b ∧ Relation.ReflTransGen (Feeds g) b
        (e.last val env (buildGraphConnectivity g) already).1 := by
    intro n hn
    simp only [he.mem_chain] at hn ⊢
    exact step_of_isChain (he.isChain hg) getLast?_chain hn
  constructor
  · intro hterm
    rcases hstep t ht with hlast | ⟨n, hn, hfeeds, -⟩
    · exact hlast
    · rw [isTerminal_eq_false hg.acyclic hfeeds hn] at hterm
      cases hterm
  · rintro rfl
    cases hterm : isTerminal (buildGraphConnectivity g) m.allNodes
        (e.last val env (buildGraphConnectivity g) already).1 with
    | true => rfl
    | false =>
      -- a reader of the last node leads back to it
      obtain ⟨v, hv, d, hd, hdm, hne⟩ := FusionManagerLemmas.consumer_of_not_terminal hterm
      have hdep := dep_of_consumer (he.outputs hg ht).1 hv hd
      rcases hstep d hdm with hlast | ⟨n, -, hfeeds, hpath⟩
      · exact absurd hlast hne
      · have hback := (hpath.lift id fun _ _ => Feeds.dep).head hfeeds.dep
        exact absurd (.head' hdep hback) (hg.acyclic _)

/-- The value of the last node: the factor times the product. -/
theorem Describes.value_last (he : e.Describes env g already m) (hg : GeluGraph env g)
    (hnodup : m.allNodes.Nodup) (hρ : Valuation val env m x b ρ) {o : String}
    (ho : (e.last val env (buildGraphConnectivity g) already).1.outputs = [some o]) :
    ρ o = (e.last val env (buildGraphConnectivity g) already).2 *
      ((x + b) * (val e.a + erf ((x + b) / val e.c))) := by
  have hchain := he.nodup_chain hnodup
  unfold chain at hchain
  have hbias : ∀ n ∈ [e.anchor, e.div, e.addOne, e.mul], n ≠ e.biasAdd := by
    simp only [List.cons_append, List.nodup_cons, List.mem_cons, List.mem_append] at hchain
    intro n hn heq
    subst heq
    simp only [List.mem_cons, List.not_mem_nil, or_false] at hn
    tauto
  have hproduct := he.value_mulOut hbias hρ
  unfold last at ho ⊢
  cases hhalf : halfBehind env (buildGraphConnectivity g) already e.mul with
  | none =>
    rw [hhalf] at ho
    obtain rfl : e.mulOut = o := by simpa [he.mul_outputs] using ho
    rw [hproduct, one_mul]
  | some r =>
    obtain ⟨half, h⟩ := r
    rw [hhalf] at ho hchain
    obtain ⟨-, hop, name, o', hin, hout, hread⟩ := he.half_slots hg hhalf
    obtain rfl : o' = o := by simpa [hout] using ho
    have hcomputes : Computes ρ half := by
      refine hρ.nodes half (by simp [he.nodes, hhalf]) ?_
      rw [he.biasAdd_captured, Ne, Option.some.injEq]
      rintro rfl
      simp at hchain
    rw [(computes_binary hcomputes hin hout).2.1 hop, hproduct, hρ.scalars _ _ hread]
    exact mul_comm _ _

/-- The value that a node computes from its inputs, with `y` for the sum of input and bias. -/
noncomputable def nodeValue (biasAdd : Node) (y : ℝ) (n : Node) (ρ : String → ℝ) : ℝ :=
  if n = biasAdd then y
  else
    match n.inputs with
    | [some p] => erf (ρ p)
    | [some p, some q] =>
      if n.opType = "Add" then ρ p + ρ q else if n.opType = "Mul" then ρ p * ρ q else ρ p / ρ q
    | _ => 0

theorem nodeValue_congr (biasAdd : Node) (y : ℝ) (n : Node) (ρ ρ' : String → ℝ)
    (h : ∀ v ∈ n.inputs.reduceOption, ρ v = ρ' v) :
    nodeValue biasAdd y n ρ = nodeValue biasAdd y n ρ' := by
  unfold nodeValue
  split
  · rfl
  · split
    · next p hin => rw [h p (by simp [hin, List.reduceOption])]
    · next p q hin =>
      rw [h p (by simp [hin, List.reduceOption]), h q (by simp [hin, List.reduceOption])]
    · rfl

theorem computes_of_nodeValue {biasAdd n : Node} {y : ℝ} {o : String} (hne : n ≠ biasAdd)
    (hout : n.outputs = [some o]) (h : ρ o = nodeValue biasAdd y n ρ) : Computes ρ n := by
  rw [nodeValue, if_neg hne] at h
  unfold Computes
  split
  · next p o' hin hout' =>
    obtain rfl : o = o' := by simpa [hout] using hout'
    rw [hin] at h
    exact fun _ => h
  · next p q o' hin hout' =>
    obtain rfl : o = o' := by simpa [hout] using hout'
    rw [hin] at h
    refine ⟨fun hop => ?_, fun hop => ?_, fun hop => ?_⟩
    all_goals simpa [hop] using h
  · trivial

/-- The match runs on every input and every bias. -/
theorem Describes.exists_valuation (he : e.Describes env g already m) (hg : GeluGraph env g)
    (hnodup : m.allNodes.Nodup) (val : F → ℝ) (x b : ℝ) : ∃ ρ, Valuation val env m x b ρ := by
  have hmem : ∀ n ∈ e.chain env (buildGraphConnectivity g) already,
      n ∈ g.nodes ∧ ∃ o, n.outputs = [some o] :=
    fun n hn => he.outputs hg (he.mem_chain.2 hn)
  obtain ⟨ρ, hρ, hframe⟩ := exists_run_of_chain hg.acyclic (he.isChain hg)
    (he.nodup_chain hnodup) hmem (nodeValue e.biasAdd (x + b)) (nodeValue_congr e.biasAdd (x + b))
    fun v => (((env.initializers v).bind tryReadScalarFloat).map val).getD 0
  refine ⟨ρ, ?_, ?_, ?_⟩
  · intro v c hread
    rw [hframe v, hread]
    · rfl
    · intro n hn hout
      exact hg.unwritten v (isSome_of_read hread) (mem_written (hmem n hn).1 hout)
  · intro n hn o hout
    rw [he.biasAdd_captured, Option.some.injEq] at hn
    subst hn
    rw [hρ e.biasAdd (he.mem_chain.1 (by simp [he.nodes])) o hout, nodeValue, if_pos rfl]
  · intro n hn hne
    rw [he.biasAdd_captured, Ne, Option.some.injEq] at hne
    obtain ⟨-, o, hout⟩ := he.outputs hg hn
    exact computes_of_nodeValue (fun heq => hne heq.symm) hout (hρ n (he.mem_chain.1 hn) o hout)

/-- A match computes a multiple of the expanded function, by the factor of its last node. -/
theorem Describes.gelu_iff (he : e.Describes env g already m) (hg : GeluGraph env g)
    (hnodup : m.allNodes.Nodup) :
    ComputesGelu val env (buildGraphConnectivity g) m ↔
      ∀ y, (e.last val env (buildGraphConnectivity g) already).2 *
        (y * (val e.a + erf (y / val e.c))) = gelu y := by
  constructor
  · intro h y
    obtain ⟨ρ, hρ⟩ := he.exists_valuation hg hnodup val y 0
    have hlast : (e.last val env (buildGraphConnectivity g) already).1 ∈ m.allNodes :=
      he.mem_chain.2 (List.mem_of_getLast? getLast?_chain)
    obtain ⟨-, o, hout⟩ := he.outputs hg hlast
    have hgelu := h y 0 ρ hρ _ hlast ((he.terminal_iff hg val hlast).2 rfl) o hout
    rwa [he.value_last hg hnodup hρ hout, add_zero] at hgelu
  · intro h x b ρ hρ t ht hterm o hout
    obtain rfl := (he.terminal_iff hg val ht).1 hterm
    rw [he.value_last hg hnodup hρ hout, h]

end Expansion

/-- The rule takes the match at the anchor. -/
def Accepted (env : MatchEnv F) (g : Graph) (already : List Node) (anchor : Node)
    (m : PatternMatch F) : Prop :=
  matchPattern env (buildGraphConnectivity g) already anchor buildPattern = some m ∧
    (fusionRule : FusionRule F).matchesResult m = true

/-- The three constants that an accepted match reads give the function of the fused kernel. The
tolerances of the pattern leave the second case out. -/
inductive Exact (h a c : ℝ) : Prop
  | plus (half : h = 1 / 2) (one : a = 1) (root : c = √2)
  | minus (half : h = -(1 / 2)) (one : a = -1) (root : c = -√2)

theorem exact_iff {h a c : ℝ} :
    Exact h a c ↔ (h = 1 / 2 ∧ a = 1 ∧ c = √2) ∨ (h = -(1 / 2) ∧ a = -1 ∧ c = -√2) := by
  constructor
  · rintro (⟨hhalf, hone, hroot⟩ | ⟨hhalf, hone, hroot⟩)
    · exact Or.inl ⟨hhalf, hone, hroot⟩
    · exact Or.inr ⟨hhalf, hone, hroot⟩
  · rintro (⟨hhalf, hone, hroot⟩ | ⟨hhalf, hone, hroot⟩)
    · exact .plus hhalf hone hroot
    · exact .minus hhalf hone hroot

/-- An accepted match computes the function of the fused kernel exactly when the factor behind the
product is there and the constants are those of the function. -/
theorem computesGelu_iff (val : F → ℝ) (hg : GeluGraph env g) (hanchor : anchor ∈ g.nodes)
    (h : Accepted env g already anchor m) :
    ComputesGelu val env (buildGraphConnectivity g) m ↔
      ∃ half f a c, scale env (buildGraphConnectivity g) already anchor = some (half, f) ∧
        offset env (buildGraphConnectivity g) anchor = some a ∧
        divisor env (buildGraphConnectivity g) anchor = some c ∧
        Exact (val f) (val a) (val c) := by
  obtain ⟨e, rfl, he⟩ := match_expansion hg hanchor h.1
  rw [he.gelu_iff hg (matchPattern_spec hanchor h.1).1, scaled_gelu_iff, ← exact_iff, he.scale_eq,
    he.offset_eq, he.divisor_eq]
  unfold Expansion.last
  cases halfBehind env (buildGraphConnectivity g) already e.mul with
  | none =>
    simp only [reduceCtorEq, false_and, exists_false, iff_false]
    norm_num [exact_iff]
  | some r =>
    constructor
    · intro hexact
      exact ⟨r.1, r.2, e.a, e.c, rfl, rfl, rfl, hexact⟩
    · rintro ⟨half, f, a, c, hr, ha, hc, hexact⟩
      cases hr
      cases ha
      cases hc
      exact hexact

/-! ## Runs on a graph with the factor, and on one without -/

/-- The constants and the shapes of the graphs below. -/
def geluEnv : MatchEnv Rat where
  initializers name :=
    if name = "bias" then some ⟨.float, [4], [1, 2, 3, 4]⟩
    else if name = "root" then some ⟨.float, [], [1.41421356237]⟩
    else if name = "one" then some ⟨.float, [], [1]⟩
    else if name = "half" then some ⟨.float, [], [0.5]⟩
    else none
  valueInfo name :=
    if name = "x" then some ⟨.float, [2, 4]⟩ else if name = "bias" then some ⟨.float, [4]⟩ else none

/-- The values that the constants stand for. -/
noncomputable def nominal (q : Rat) : ℝ :=
  if q = 1.41421356237 then √(2 : Rat) else q

/-- `y * (erf(y / root) + 1)` with `y = x + bias`, and no factor behind it. -/
def unscaled : Graph :=
  Graph.ofNodes
    [{ id := 0, opType := "Add", inputs := [some "x", some "bias"], outputs := [some "y"] },
     { id := 1, opType := "Div", inputs := [some "y", some "root"], outputs := [some "d"] },
     { id := 2, opType := "Erf", inputs := [some "d"], outputs := [some "e"] },
     { id := 3, opType := "Add", inputs := [some "e", some "one"], outputs := [some "s"] },
     { id := 4, opType := "Mul", inputs := [some "y", some "s"], outputs := [some "p"] }]
    ["x"] ["p"] (by decide) (by decide) (by decide) (by decide)

/-- The same with the factor. -/
def halved : Graph :=
  Graph.ofNodes
    (unscaled.nodes ++
      [{ id := 5, opType := "Mul", inputs := [some "p", some "half"], outputs := [some "z"] }])
    ["x"] ["z"] (by decide) (by decide) (by decide) (by decide)

theorem halved_schema {n : Node} (hn : n ∈ halved.nodes) :
    HasSchema ["Erf"] ["Add", "Mul", "Div"] n := by
  have hslots : n.opType = "Erf" ∧ (∃ a o, n.inputs = [some a] ∧ n.outputs = [some o]) ∨
      n.opType ≠ "Erf" ∧ ∃ a b o, n.inputs = [some a, some b] ∧ n.outputs = [some o] := by
    simp only [halved, unscaled, Graph.ofNodes, List.cons_append, List.nil_append, List.mem_cons,
      List.not_mem_nil, or_false] at hn
    rcases hn with rfl | rfl | rfl | rfl | rfl | rfl <;> simp
  rcases hslots with ⟨hop, hslots⟩ | ⟨hop, hslots⟩
  · exact ⟨fun _ => hslots, fun hmem => by simp [hop] at hmem⟩
  · exact ⟨fun h => absurd (List.mem_singleton.1 h) hop, fun _ => hslots⟩

theorem halved_model : GeluGraph geluEnv halved := by
  have hwritten : ∀ v ∈ halved.written, ¬ (geluEnv.initializers v).isSome := by decide
  exact ⟨Graph.acyclic_of_ids (by decide), fun n => halved_schema,
    fun v hv hmem => hwritten v hmem hv⟩

theorem unscaled_model : GeluGraph geluEnv unscaled := by
  have hwritten : ∀ v ∈ unscaled.written, ¬ (geluEnv.initializers v).isSome := by decide
  exact ⟨Graph.acyclic_of_ids (by decide),
    fun n hn => halved_schema (List.mem_append_left _ hn), fun v hv hmem => hwritten v hmem hv⟩

theorem halved_computesGelu : ∃ m, Accepted geluEnv halved [] halved.nodes[2] m ∧
    ComputesGelu nominal geluEnv (buildGraphConnectivity halved) m := by
  have hmatch : ((matchPattern geluEnv (buildGraphConnectivity halved) [] halved.nodes[2]
      buildPattern).any (fusionRule : FusionRule Rat).matchesResult) = true := by decide +kernel
  obtain ⟨m, hm⟩ := (Option.any_eq_true _ _).1 hmatch
  refine ⟨m, hm, (computesGelu_iff nominal halved_model (by decide) hm).2
    ⟨halved.nodes[5], 0.5, 1, 1.41421356237, by decide +kernel, by decide +kernel,
      by decide +kernel, .plus ?_ ?_ ?_⟩⟩
  · rw [nominal, if_neg (by norm_num)]
    norm_num
  · rw [nominal, if_neg (by norm_num)]
    norm_num
  · rw [nominal, if_pos rfl, Rat.cast_ofNat]

/-- Without the factor the pattern matches too, and the match computes the double. -/
theorem unscaled_accepted : ∃ m, Accepted geluEnv unscaled [] unscaled.nodes[2] m ∧
    ¬ ComputesGelu nominal geluEnv (buildGraphConnectivity unscaled) m := by
  have hmatch : ((matchPattern geluEnv (buildGraphConnectivity unscaled) [] unscaled.nodes[2]
      buildPattern).any (fusionRule : FusionRule Rat).matchesResult) = true := by decide +kernel
  obtain ⟨m, hm⟩ := (Option.any_eq_true _ _).1 hmatch
  refine ⟨m, hm, fun hgelu => ?_⟩
  obtain ⟨e, he, hdesc⟩ := match_expansion unscaled_model (by decide) hm.1
  rw [hdesc.gelu_iff unscaled_model (matchPattern_spec (by decide) hm.1).1,
    scaled_gelu_iff] at hgelu
  have hscale : scale geluEnv (buildGraphConnectivity unscaled) [] unscaled.nodes[2] = none := by
    decide +kernel
  rw [← he, hdesc.scale_eq] at hscale
  rw [Expansion.last, hscale] at hgelu
  norm_num at hgelu

end BiasGelu

end AmdGpuEp.DirectML
