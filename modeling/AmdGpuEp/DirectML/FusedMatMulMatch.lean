import AmdGpuEp.DirectML.FusionGroups
import AmdGpuEp.DirectML.GemmShapes
import AmdGpuEp.DirectML.ModelGraph

/-!
# What a FusedMatMul match consists of

The pattern of `fused_matmul_ep_fusion.cc` has an optional branch for each
transpose, for each kind of scale and, at two places, for each activation. This
module computes the match that a descent commits, branch by branch.

Results:
1. `matchPattern_eq`: a match is the `MatMul`, a transpose on each side at most,
   a scale at most, and the activations behind the last of them.
-/

namespace AmdGpuEp.DirectML.FusedMatMul

open PatternMatcherLemmas

variable {F : Type}

/-! ## The pattern -/

def activationEdges (acts : List (String × String)) : PEdges F :=
  acts.foldr (fun a es => .cons .downstream 0 (.mk a.1 "" [] a.2 .nil) true es) .nil

def transposeNode (key : String) : PNode F :=
  .mk "Transpose" "" [(some 0, transposeInput)] key .nil

theorem buildPattern_eq :
    (buildPattern : PNode F) =
      .mk "MatMul" "" [] "FusedMatMul.matmul"
        (.cons .upstream 0 (transposeNode "FusedMatMul.trans_a") true
          (.cons .upstream 1 (transposeNode "FusedMatMul.trans_b") true
            (.cons .downstream 0 scaleMul true
              (.cons .downstream 0 scaleDiv true (activationEdges activations))))) :=
  rfl

theorem scaleMul_eq :
    (scaleMul : PNode F) =
      .mk "Mul" ""
        [(none, .predicate "FusedMatMul.scale_name" fun env name _ node =>
          scalarInitPredicate env name node)]
        "FusedMatMul.scale_mul" (activationEdges activations) :=
  rfl

theorem scaleDiv_eq :
    (scaleDiv : PNode F) =
      .mk "Div" ""
        [(some 1, .predicate "FusedMatMul.scale_div_name" fun env name _ node =>
          scalarInitPredicate env name node)]
        "FusedMatMul.scale_div" (activationEdges activations) :=
  rfl

/-! ## The activations behind a node -/

/-- The first consumer of the first output of a node with this op type, if it is free. -/
def freeReader (gc : GraphConnectivity) (already : List Node) (n : Node) (op : String) :
    Option Node :=
  ((getNodeOutputNames n)[0]?.bind fun v =>
    (gc.consumerMap v).find? fun consumer => consumer.opType == op).filter (· ∉ already)

/-- The turn of an activation branch. -/
def takeActivation (gc : GraphConnectivity) (already : List Node) (n : Node)
    (out : PatternMatch F) (a : String × String) : PatternMatch F :=
  match freeReader gc already n a.1 with
  | none => out
  | some c => if c ∈ out.allNodes then out else out.commit a.2 c

variable [FloatOps F] {env : MatchEnv F} {g : Graph} {already : List Node} {n : Node}
  {out out' : PatternMatch F}

theorem matchNode_leaf {op key : String} (hkey : key ≠ "") :
    matchNode env (buildGraphConnectivity g) already (.mk op "" [] key .nil) n out = some out' ↔
      n ∉ already ∧ n ∉ out.allNodes ∧ n.opType = op ∧ out.commit key n = out' := by
  rw [matchNode_eq_some]
  simp [checkInputs, matchEdges, hkey]

theorem matchNode_leaf_eq {op key : String} (hkey : key ≠ "") :
    matchNode env (buildGraphConnectivity g) already (.mk op "" [] key .nil) n out =
      if n ∉ already ∧ n ∉ out.allNodes ∧ n.opType = op then some (out.commit key n) else none := by
  refine Option.ext fun out' => ?_
  rw [matchNode_leaf hkey]
  split
  · next h => simp [h.1, h.2.1, h.2.2]
  · next h =>
    simp only [reduceCtorEq, iff_false]
    rintro ⟨hfree, hnew, hop, -⟩
    exact h ⟨hfree, hnew, hop⟩

theorem matchNode_leaf_getD {op key : String} (hkey : key ≠ "") :
    (((followEdge (buildGraphConnectivity g) n .downstream 0
        (.mk op "" [] key .nil : PNode F)).bind fun c =>
      matchNode env (buildGraphConnectivity g) already (.mk op "" [] key .nil) c out).getD out) =
      takeActivation (buildGraphConnectivity g) already n out (op, key) := by
  have hfollow : followEdge (buildGraphConnectivity g) n .downstream 0
      (.mk op "" [] key .nil : PNode F) =
      (getNodeOutputNames n)[0]?.bind fun v =>
        ((buildGraphConnectivity g).consumerMap v).find? fun consumer => consumer.opType == op :=
    rfl
  unfold takeActivation freeReader
  rw [hfollow]
  cases hfound : (getNodeOutputNames n)[0]?.bind fun v =>
      ((buildGraphConnectivity g).consumerMap v).find? fun consumer => consumer.opType == op with
  | none => rfl
  | some c =>
    obtain ⟨v, -, hv⟩ := Option.bind_eq_some_iff.1 hfound
    have hop : c.opType = op := by simpa using List.find?_some hv
    rw [Option.bind_some, matchNode_leaf_eq hkey]
    cases Classical.em (c ∈ already) with
    | inl hmem => simp [hmem, Option.filter_some]
    | inr hfree =>
      cases Classical.em (c ∈ out.allNodes) with
      | inl hmem => simp [hfree, hmem, Option.filter_some]
      | inr hnew => simp [hfree, hnew, hop, Option.filter_some]

theorem matchEdges_activationEdges {acts : List (String × String)} (h : ∀ a ∈ acts, a.2 ≠ "") :
    matchEdges env (buildGraphConnectivity g) already n (activationEdges acts) out =
      some (acts.foldl (takeActivation (buildGraphConnectivity g) already n) out) := by
  induction acts generalizing out with
  | nil => rfl
  | cons a acts ih =>
    show matchEdges _ _ _ _ (.cons .downstream 0 (.mk a.1 "" [] a.2 .nil) true
      (activationEdges acts)) _ = _
    rw [matchEdges_optional, ih fun b hb => h b (List.mem_cons_of_mem a hb), List.foldl_cons,
      matchNode_leaf_getD (h a List.mem_cons_self)]

omit [FloatOps F] in
theorem opType_of_freeReader {gc : GraphConnectivity} {op : String} {c : Node}
    (h : freeReader gc already n op = some c) : c.opType = op ∧ c ∉ already := by
  obtain ⟨hfound, hfree⟩ := Option.filter_eq_some_iff.1 h
  obtain ⟨v, -, hv⟩ := Option.bind_eq_some_iff.1 hfound
  exact ⟨by simpa using List.find?_some hv, by simpa using hfree⟩

/-- The activations that are taken behind a node, with their captures. -/
def takenActivations (gc : GraphConnectivity) (already : List Node) (n : Node)
    (acts : List (String × String)) : List (String × Node) :=
  acts.filterMap fun a => (freeReader gc already n a.1).map (a.2, ·)

/-- Commits the nodes with their captures, in order. -/
def commitAll (out : PatternMatch F) (taken : List (String × Node)) : PatternMatch F :=
  taken.foldl (fun m e => m.commit e.1 e.2) out

omit [FloatOps F] in
theorem allNodes_commitAll (out : PatternMatch F) (taken : List (String × Node)) :
    (commitAll out taken).allNodes = out.allNodes ++ taken.map Prod.snd := by
  induction taken generalizing out with
  | nil => simp [commitAll]
  | cons e taken ih =>
    show (commitAll (out.commit e.1 e.2) taken).allNodes = _
    rw [ih]
    simp [PatternMatch.commit]

omit [FloatOps F] in
/-- Branches for different op types, none of which is matched before, are taken one by one. -/
theorem foldl_takeActivation {gc : GraphConnectivity} {acts : List (String × String)}
    (hops : (acts.map Prod.fst).Nodup)
    (hnew : ∀ c ∈ out.allNodes, c.opType ∉ acts.map Prod.fst) :
    acts.foldl (takeActivation gc already n) out =
      commitAll out (takenActivations gc already n acts) := by
  induction acts generalizing out with
  | nil => rfl
  | cons a acts ih =>
    obtain ⟨hop, hops⟩ := List.nodup_cons.1 hops
    rw [List.foldl_cons, takenActivations, List.filterMap_cons]
    cases hread : freeReader gc already n a.1 with
    | none =>
      have hstep : takeActivation gc already n out a = out := by rw [takeActivation, hread]
      rw [hstep]
      exact ih hops fun c hc hmem => hnew c hc (List.mem_cons_of_mem _ hmem)
    | some c =>
      have hopc := (opType_of_freeReader hread).1
      have hfresh : c ∉ out.allNodes := fun hc => hnew c hc (hopc ▸ List.mem_cons_self)
      have hstep : takeActivation gc already n out a = out.commit a.2 c := by
        rw [takeActivation, hread]
        exact if_neg hfresh
      rw [hstep]
      refine ih hops fun d hd hmem => ?_
      rcases List.mem_append.1 hd with hd | hd
      · exact hnew d hd (List.mem_cons_of_mem _ hmem)
      · rw [List.mem_singleton.1 hd, hopc] at hmem
        exact hop hmem

/-! ## The transposes -/

def commitOption (out : PatternMatch F) (key : String) : Option Node → PatternMatch F
  | none => out
  | some n => out.commit key n

omit [FloatOps F] in
theorem allNodes_commitOption (out : PatternMatch F) (key : String) (t : Option Node) :
    (commitOption out key t).allNodes = out.allNodes ++ t.toList := by
  cases t with
  | none => exact (List.append_nil _).symm
  | some n => rfl

/-- What is known of a transpose taken in front of input `i` of `matmul`. -/
structure TransposeTaken (env : MatchEnv F) (gc : GraphConnectivity) (matmul : Node) (i : Nat)
    (c : Node) : Prop where
  producer : (getNodeInputNames matmul)[i]?.bind gc.producerMap = some c
  op : c.opType = "Transpose"
  predicate : ∃ name, (getNodeInputNames c)[0]? = some name ∧
    transposePermPredicate (env.inputInfo c name) c = true

theorem matchNode_transposeNode {key : String} (hkey : key ≠ "")
    (h : matchNode env (buildGraphConnectivity g) already (transposeNode key) n out = some out') :
    n.opType = "Transpose" ∧ (∃ name, (getNodeInputNames n)[0]? = some name ∧
      transposePermPredicate (env.inputInfo n name) n = true) ∧ out' = out.commit key n := by
  rw [transposeNode, matchNode_eq_some] at h
  obtain ⟨-, -, hop, -, checked, hchecked, hedges⟩ := h
  simp only [checkInputs, Option.bind_eq_some_iff, Option.some.injEq] at hchecked
  obtain ⟨_, ⟨name, hname, hcheck⟩, rfl⟩ := hchecked
  simp only [transposeInput, checkInput, Option.ite_none_right_eq_some,
    Option.some.injEq] at hcheck
  obtain ⟨hpredicate, rfl⟩ := hcheck
  rw [matchEdges, Option.some.injEq, captureName_of_ne hkey] at hedges
  exact ⟨hop, ⟨name, hname, hpredicate⟩, hedges.symm⟩

theorem transpose_step (env : MatchEnv F) (g : Graph) (already : List Node) (n : Node)
    (out : PatternMatch F) (key : String) (hkey : key ≠ "") (i : Nat) :
    ∃ t : Option Node,
      (((followEdge (buildGraphConnectivity g) n .upstream i (transposeNode key : PNode F)).bind
        fun c => matchNode env (buildGraphConnectivity g) already (transposeNode key) c out).getD
          out) = commitOption out key t ∧
      ∀ c, t = some c → TransposeTaken env (buildGraphConnectivity g) n i c := by
  cases hstep : (followEdge (buildGraphConnectivity g) n .upstream i
      (transposeNode key : PNode F)).bind fun c =>
        matchNode env (buildGraphConnectivity g) already (transposeNode key) c out with
  | none => exact ⟨none, rfl, fun _ h => nomatch h⟩
  | some out' =>
    obtain ⟨c, hfollow, hmatch⟩ := Option.bind_eq_some_iff.1 hstep
    obtain ⟨hop, hpredicate, rfl⟩ := matchNode_transposeNode hkey hmatch
    refine ⟨some c, rfl, fun d hd => ?_⟩
    cases hd
    exact ⟨hfollow, hop, hpredicate⟩

/-! ## The scale -/

structure Scale where
  node : Node
  name : String
  isDiv : Bool

def scaleNodeKey (isDiv : Bool) : String :=
  if isDiv then "FusedMatMul.scale_div" else "FusedMatMul.scale_mul"

def scaleNameKey (isDiv : Bool) : String :=
  if isDiv then "FusedMatMul.scale_div_name" else "FusedMatMul.scale_name"

/-- What is known of a scale taken behind `matmul`. -/
structure Scale.Taken (s : Scale) (env : MatchEnv F) (gc : GraphConnectivity) (matmul : Node) :
    Prop where
  consumer : onlyConsumer gc matmul = some s.node
  op : s.node.opType = if s.isDiv then "Div" else "Mul"
  name_mem : s.name ∈ getNodeInputNames s.node
  divisor : s.isDiv = true → (getNodeInputNames s.node)[1]? = some s.name
  predicate : scalarInitPredicate env s.name s.node = true

def withScale (out : PatternMatch F) : Option Scale → PatternMatch F
  | none => out
  | some s => (out.setValueName (scaleNameKey s.isDiv) s.name).commit (scaleNodeKey s.isDiv) s.node

omit [FloatOps F] in
theorem allNodes_withScale (out : PatternMatch F) (scale : Option Scale) :
    (withScale out scale).allNodes = out.allNodes ++ (scale.map Scale.node).toList := by
  cases scale with
  | none => exact (List.append_nil _).symm
  | some s => rfl

theorem activations_keys : ∀ a ∈ activations, a.2 ≠ "" := by
  decide

/-- The branch for a kind of scale. -/
def scaleBranch (isDiv : Bool) : PNode F :=
  if isDiv then scaleDiv else scaleMul

theorem matchNode_scaleBranch {isDiv : Bool}
    (h : matchNode env (buildGraphConnectivity g) already (scaleBranch isDiv) n out = some out') :
    ∃ name, n.opType = (if isDiv then "Div" else "Mul") ∧ name ∈ getNodeInputNames n ∧
      (isDiv = true → (getNodeInputNames n)[1]? = some name) ∧
      scalarInitPredicate env name n = true ∧
      out' = activations.foldl (takeActivation (buildGraphConnectivity g) already n)
        (withScale out (some ⟨n, name, isDiv⟩)) := by
  cases isDiv with
  | false =>
    rw [scaleBranch, if_neg Bool.false_ne_true, scaleMul_eq, matchNode_eq_some] at h
    obtain ⟨-, -, hop, -, checked, hchecked, hedges⟩ := h
    simp only [checkInputs, checkAnyInput, Option.bind_eq_some_iff, Option.some.injEq] at hchecked
    obtain ⟨_, hname, rfl⟩ := hchecked
    obtain ⟨name, hfound, rfl⟩ := Option.map_eq_some_iff.1 hname
    have hpredicate : scalarInitPredicate env name n = true := by
      simpa using List.find?_some hfound
    rw [captureName_of_ne (by decide), matchEdges_activationEdges activations_keys,
      Option.some.injEq] at hedges
    exact ⟨name, hop, List.mem_of_find?_eq_some hfound, fun h => absurd h Bool.false_ne_true,
      hpredicate, hedges.symm⟩
  | true =>
    rw [scaleBranch, if_pos rfl, scaleDiv_eq, matchNode_eq_some] at h
    obtain ⟨-, -, hop, -, checked, hchecked, hedges⟩ := h
    simp only [checkInputs, checkInput, Option.bind_eq_some_iff, Option.some.injEq,
      Option.ite_none_right_eq_some] at hchecked
    obtain ⟨_, ⟨name, hname, hpredicate, rfl⟩, rfl⟩ := hchecked
    rw [captureName_of_ne (by decide), matchEdges_activationEdges activations_keys,
      Option.some.injEq] at hedges
    exact ⟨name, hop, List.mem_of_getElem? hname, fun _ => hname, hpredicate, hedges.symm⟩

/-- The turn of a branch for a scale. -/
theorem scale_step (env : MatchEnv F) (g : Graph) (already : List Node) (n : Node)
    (out : PatternMatch F) (isDiv : Bool) :
    (((followEdge (buildGraphConnectivity g) n .downstream 0 (scaleBranch isDiv : PNode F)).bind
        fun c => matchNode env (buildGraphConnectivity g) already (scaleBranch isDiv) c out).getD
          out) = out ∨
      ∃ s : Scale, s.isDiv = isDiv ∧ s.Taken env (buildGraphConnectivity g) n ∧
        (((followEdge (buildGraphConnectivity g) n .downstream 0 (scaleBranch isDiv : PNode F)).bind
          fun c => matchNode env (buildGraphConnectivity g) already (scaleBranch isDiv) c out).getD
            out) = activations.foldl (takeActivation (buildGraphConnectivity g) already s.node)
              (withScale out (some s)) := by
  have hfollow : followEdge (buildGraphConnectivity g) n .downstream 0
      (scaleBranch isDiv : PNode F) = onlyConsumer (buildGraphConnectivity g) n := by
    cases isDiv <;> rfl
  rw [hfollow]
  cases hstep : (onlyConsumer (buildGraphConnectivity g) n).bind fun c =>
      matchNode env (buildGraphConnectivity g) already (scaleBranch isDiv) c out with
  | none => exact Or.inl rfl
  | some out' =>
    obtain ⟨c, hconsumer, hmatch⟩ := Option.bind_eq_some_iff.1 hstep
    obtain ⟨name, hop, hmem, hdivisor, hpredicate, rfl⟩ := matchNode_scaleBranch hmatch
    exact Or.inr ⟨⟨c, name, isDiv⟩, rfl, ⟨hconsumer, hop, hmem, hdivisor, hpredicate⟩, rfl⟩

omit [FloatOps F] in
/-- A single consumer that is a scale leaves no activation behind the `MatMul` itself. -/
theorem freeReader_of_scale {s : Scale} {matmul : Node} {a : String × String}
    (hs : s.Taken env (buildGraphConnectivity g) matmul) (ha : a ∈ activations) :
    freeReader (buildGraphConnectivity g) already matmul a.1 = none := by
  obtain ⟨v, hv, hsingle⟩ := Option.bind_eq_some_iff.1 hs.consumer
  split at hsingle
  · next hone =>
    rw [GraphConnectivity.hasSingleConsumer, Bool.and_eq_true, beq_iff_eq] at hone
    obtain ⟨c, hc⟩ := List.length_eq_one_iff.1 hone.2
    rw [hc, List.head?_cons, Option.some.injEq] at hsingle
    have hop : (c.opType == a.1) = false := by
      rw [hsingle, hs.op, beq_eq_false_iff_ne]
      cases s.isDiv
      · revert a
        decide
      · revert a
        decide
    rw [freeReader, hv, Option.bind_some, hc, List.find?_cons, hop]
    rfl
  · cases hsingle

omit [FloatOps F] in
theorem foldl_takeActivation_of_scale {s : Scale} {matmul : Node}
    (hs : s.Taken env (buildGraphConnectivity g) matmul) :
    activations.foldl (takeActivation (buildGraphConnectivity g) already matmul) out = out := by
  have hsame : ∀ (m : PatternMatch F), ∀ a ∈ activations,
      takeActivation (buildGraphConnectivity g) already matmul m a = m := by
    intro m a ha
    rw [takeActivation, freeReader_of_scale hs ha]
  rw [List.foldl_ext _ (fun m _ => m) out hsame, List.foldl_fixed]

/-- The two branches for a scale and the activations behind them. -/
theorem scale_steps
    (h : matchEdges env (buildGraphConnectivity g) already n
      (.cons .downstream 0 scaleMul true
        (.cons .downstream 0 scaleDiv true (activationEdges activations))) out = some out') :
    ∃ scale : Option Scale, (∀ s, scale = some s → s.Taken env (buildGraphConnectivity g) n) ∧
      out' = activations.foldl (takeActivation (buildGraphConnectivity g) already
        ((scale.map Scale.node).getD n)) (withScale out scale) := by
  rw [matchEdges_optional, matchEdges_optional, matchEdges_activationEdges activations_keys,
    Option.some.injEq] at h
  subst h
  rcases scale_step env g already n out false with hmul | ⟨s, hkind, hs, hmul⟩
  · rw [show scaleBranch false = (scaleMul : PNode F) from rfl] at hmul
    rw [hmul]
    rcases scale_step env g already n out true with hdiv | ⟨s, -, hs, hdiv⟩
    · rw [show scaleBranch true = (scaleDiv : PNode F) from rfl] at hdiv
      rw [hdiv]
      exact ⟨none, nofun, rfl⟩
    · rw [show scaleBranch true = (scaleDiv : PNode F) from rfl] at hdiv
      rw [hdiv, foldl_takeActivation_of_scale hs]
      exact ⟨some s, fun _ h => Option.some.inj h ▸ hs, rfl⟩
  · rw [show scaleBranch false = (scaleMul : PNode F) from rfl] at hmul
    rw [hmul]
    rcases scale_step env g already n (activations.foldl
      (takeActivation (buildGraphConnectivity g) already s.node) (withScale out (some s)))
      true with hdiv | ⟨s', hkind', hs', -⟩
    · rw [show scaleBranch true = (scaleDiv : PNode F) from rfl] at hdiv
      rw [hdiv, foldl_takeActivation_of_scale hs]
      exact ⟨some s, fun _ h => Option.some.inj h ▸ hs, rfl⟩
    · -- one node is no `Mul` and `Div` at once
      have hnode : s.node = s'.node := Option.some.inj (hs.consumer.symm.trans hs'.consumer)
      have hop := hs.op
      rw [hnode, hs'.op, hkind, hkind'] at hop
      exact absurd hop (by decide)

/-! ## The whole match -/

/-- The nodes of a match in front of its activations. -/
structure Branches where
  matmul : Node
  transA : Option Node
  transB : Option Node
  scale : Option Scale

namespace Branches

/-- The node that the activations are behind. -/
def last (b : Branches) : Node :=
  (b.scale.map Scale.node).getD b.matmul

def captured (b : Branches) : PatternMatch F :=
  withScale
    (commitOption
      (commitOption (({} : PatternMatch F).commit "FusedMatMul.matmul" b.matmul)
        "FusedMatMul.trans_a" b.transA)
      "FusedMatMul.trans_b" b.transB)
    b.scale

def nodes (b : Branches) : List Node :=
  b.matmul :: b.transA.toList ++ b.transB.toList ++ (b.scale.map Scale.node).toList

structure Taken (b : Branches) (env : MatchEnv F) (gc : GraphConnectivity) : Prop where
  op : b.matmul.opType = "MatMul"
  transA : ∀ c, b.transA = some c → TransposeTaken env gc b.matmul 0 c
  transB : ∀ c, b.transB = some c → TransposeTaken env gc b.matmul 1 c
  scale : ∀ s, b.scale = some s → s.Taken env gc b.matmul

variable {b : Branches}

omit [FloatOps F] in
theorem allNodes_captured : (b.captured : PatternMatch F).allNodes = b.nodes := by
  rw [captured, allNodes_withScale, allNodes_commitOption, allNodes_commitOption]
  rfl

omit [FloatOps F] in
theorem Taken.opType_of_mem {gc : GraphConnectivity} (h : b.Taken env gc) (hn : n ∈ b.nodes) :
    n.opType ∈ ["MatMul", "Transpose", "Mul", "Div"] := by
  simp only [nodes, List.cons_append, List.mem_cons, List.mem_append, Option.mem_toList,
    Option.map_eq_some_iff] at hn
  rcases hn with rfl | (ha | hb) | ⟨s, hs, rfl⟩
  · simp [h.op]
  · simp [(h.transA n ha).op]
  · simp [(h.transB n hb).op]
  · rw [(h.scale s hs).op]
    cases s.isDiv <;> simp

omit [FloatOps F] in
/-- The nodes in front of the activations are no activations. -/
theorem Taken.not_activation {gc : GraphConnectivity} (h : b.Taken env gc) (hn : n ∈ b.nodes) :
    n.opType ∉ activations.map Prod.fst := by
  have hops : ∀ op ∈ ["MatMul", "Transpose", "Mul", "Div"], op ∉ activations.map Prod.fst := by
    decide
  exact hops _ (h.opType_of_mem hn)

end Branches

/-- A match is the `MatMul`, a transpose on each side at most, a scale at most, and the activations
behind the last of them. -/
theorem matchPattern_eq {matmul : Node} {m : PatternMatch F}
    (h : matchPattern env (buildGraphConnectivity g) already matmul buildPattern = some m) :
    ∃ b : Branches, b.matmul = matmul ∧ b.Taken env (buildGraphConnectivity g) ∧
      m = commitAll b.captured
        (takenActivations (buildGraphConnectivity g) already b.last activations) := by
  rw [matchPattern, buildPattern_eq, matchNode_eq_some] at h
  obtain ⟨-, -, hop, -, checked, hchecked, hedges⟩ := h
  obtain rfl : ({} : PatternMatch F) = checked := Option.some.inj hchecked
  rw [captureName_of_ne (by decide), matchEdges_optional] at hedges
  obtain ⟨ta, hstepA, hta⟩ := transpose_step env g already matmul
    (({} : PatternMatch F).commit "FusedMatMul.matmul" matmul) "FusedMatMul.trans_a"
    (by decide) 0
  rw [hstepA, matchEdges_optional] at hedges
  obtain ⟨tb, hstepB, htb⟩ := transpose_step env g already matmul
    (commitOption (({} : PatternMatch F).commit "FusedMatMul.matmul" matmul)
      "FusedMatMul.trans_a" ta) "FusedMatMul.trans_b" (by decide) 1
  rw [hstepB] at hedges
  obtain ⟨scale, hscale, rfl⟩ := scale_steps hedges
  have htaken : (⟨matmul, ta, tb, scale⟩ : Branches).Taken env (buildGraphConnectivity g) :=
    ⟨hop, hta, htb, hscale⟩
  refine ⟨_, rfl, htaken, foldl_takeActivation (by decide) fun c hc => htaken.not_activation ?_⟩
  rwa [← Branches.allNodes_captured (F := F)]

end AmdGpuEp.DirectML.FusedMatMul
