import AmdGpuEp.DirectML.FusionUtils
import Mathlib.Logic.Function.Basic

/-!
# The pattern matcher of the DirectML provider

`pattern_matcher.h` and `pattern_matcher.cc`: trees of `PNode`s and the descent
`MatchNode` from an anchor node along their edges. A failed match leaves its
`PatternMatch` half written in the source, but every caller drops it: a required
child fails the whole match, an optional one works on a snapshot. So the descent
is given here by `Option`. `float` is a type with the operations the matcher
uses.

Results:
1. `matchPattern_spec`: the nodes of a match are distinct nodes of the graph, the
   anchor among them, and none was matched before.
2. `matchNode_eq_some`, `matchEdges_required`, `matchEdges_optional`: what a descent
   has checked when it succeeds.
-/

namespace AmdGpuEp.DirectML

/-! ## Patterns -/

/-- The `float`s of the source: its literals, and `std::abs(v - expected) > tol`, which is false
when `v` is no number. -/
class FloatOps (F : Type) where
  lit : Rat → F
  far : F → F → F → Bool

/-- Floats as exact rationals. -/
instance : FloatOps Rat where
  lit := id
  far v expected tol := decide (tol < v - expected ∨ tol < expected - v)

/-- What the matcher is given beside the graph: `initializers`, and the type info of values. -/
structure MatchEnv (F : Type) where
  initializers : String → Option (OrtValue F)
  valueInfo : String → Option TensorInfo

/-- The `OrtValueInfo` of an input, looked up by name among the inputs that exist. -/
def MatchEnv.inputInfo {F : Type} (env : MatchEnv F) (node : Node) (name : String) :
    Option TensorInfo :=
  if some name ∈ node.inputs then env.valueInfo name else none

/-- `PInput`. A missing capture name is empty. -/
inductive PInput (F : Type)
  | any
  | scalar (captureName : String) (value tol : F)
  | sameAs (captureName : String)
  | capture (captureName : String)
  | predicate (captureName : String)
      (fn : MatchEnv F → String → Option TensorInfo → Node → Bool)

inductive PEdgeDir
  | upstream
  | downstream
  deriving DecidableEq, Repr

mutual

/-- `PNode`. The input of a constraint is `none` for `SIZE_MAX`, which stands for any input. -/
inductive PNode (F : Type)
  | mk (opType domain : String) (inputConstraints : List (Option Nat × PInput F))
      (nodeCapture : String) (edges : PEdges F)

/-- `PNode::edges`. -/
inductive PEdges (F : Type)
  | nil
  | cons (dir : PEdgeDir) (valueIndex : Nat) (child : PNode F) (optional : Bool)
      (rest : PEdges F)

end

namespace PEdges

variable {F : Type}

def isEmpty : PEdges F → Bool
  | .nil => true
  | .cons .. => false

/-- `edges.emplace_back`. -/
def emplaceBack (dir : PEdgeDir) (valueIndex : Nat) (child : PNode F) (optional : Bool) :
    PEdges F → PEdges F
  | .nil => .cons dir valueIndex child optional .nil
  | .cons d i c o rest => .cons d i c o (rest.emplaceBack dir valueIndex child optional)

end PEdges

namespace PNode

variable {F : Type}

def opType : PNode F → String
  | .mk opType _ _ _ _ => opType

/-- A terminal child has no edges of its own. -/
def isTerminal : PNode F → Bool
  | .mk _ _ _ _ edges => edges.isEmpty

/-- The node of an operator in any domain, without constraints or edges. -/
def op (opType : String) : PNode F :=
  .mk opType "" [] "" .nil

def input (node : PNode F) (idx : Option Nat) (constraint : PInput F) : PNode F :=
  match node with
  | .mk op dom cs cap es => .mk op dom (cs ++ [(idx, constraint)]) cap es

def as (node : PNode F) (name : String) : PNode F :=
  match node with
  | .mk op dom cs _ es => .mk op dom cs name es

def addEdge (node : PNode F) (dir : PEdgeDir) (valueIndex : Nat) (child : PNode F)
    (optional : Bool) : PNode F :=
  match node with
  | .mk op dom cs cap es => .mk op dom cs cap (es.emplaceBack dir valueIndex child optional)

def downstream (node : PNode F) (outputIdx : Nat) (child : PNode F) (optional : Bool) : PNode F :=
  node.addEdge .downstream outputIdx child optional

def upstream (node : PNode F) (inputIdx : Nat) (child : PNode F) (optional : Bool) : PNode F :=
  node.addEdge .upstream inputIdx child optional

end PNode

/-! ## Matches -/

structure PatternMatch (F : Type) where
  nodeIndices : String → Option Node := fun _ => none
  valueNames : String → Option String := fun _ => none
  scalarValues : String → Option F := fun _ => none
  allNodes : List Node := []

namespace PatternMatch

variable {F : Type}

/-- `ValueName`: the empty name when there is none. -/
def valueName (m : PatternMatch F) (capture : String) : String :=
  (m.valueNames capture).getD ""

def scalarValue (m : PatternMatch F) (capture : String) (default : F) : F :=
  (m.scalarValues capture).getD default

def setValueName (m : PatternMatch F) (capture name : String) : PatternMatch F :=
  { m with valueNames := Function.update m.valueNames capture (some name) }

def setScalarValue (m : PatternMatch F) (capture : String) (v : F) : PatternMatch F :=
  { m with scalarValues := Function.update m.scalarValues capture (some v) }

/-- The same when the constraint names a capture. -/
def noteValueName (m : PatternMatch F) (capture name : String) : PatternMatch F :=
  if capture = "" then m else m.setValueName capture name

def noteScalarValue (m : PatternMatch F) (capture : String) (v : F) : PatternMatch F :=
  if capture = "" then m else m.setScalarValue capture v

/-- "Commit this node." -/
def commit (m : PatternMatch F) (capture : String) (node : Node) : PatternMatch F :=
  { m with
    nodeIndices := Function.update m.nodeIndices capture (some node)
    allNodes := m.allNodes ++ [node] }

end PatternMatch

/-! ## The descent -/

section

variable {F : Type} [FloatOps F]

/-- The value of an initializer that is a scalar near `value`. -/
def readNear (env : MatchEnv F) (value tol : F) (name : String) : Option F :=
  match env.initializers name with
  | none => none
  | some val =>
    match tryReadScalarFloat val with
    | none => none
    | some v => if FloatOps.far v value tol then none else some v

/-- The first input whose initializer is near `value`, read. -/
def firstNear (env : MatchEnv F) (value tol : F) (names : List String) : Option F :=
  names.findSome? (readNear env value tol)

/-- A constraint on any input (`idx == SIZE_MAX`). Only three kinds can pass. -/
def checkAnyInput (env : MatchEnv F) (node : Node) (out : PatternMatch F) :
    PInput F → Option (PatternMatch F)
  | .scalar captureName value tol =>
    (firstNear env value tol (getNodeInputNames node)).map (out.noteScalarValue captureName)
  | .sameAs captureName =>
    match out.valueNames captureName with
    | none =>
      -- first use: the first input that is no initializer is captured
      ((getNodeInputNames node).find? fun name => (env.initializers name).isNone).map
        (out.setValueName captureName)
    | some name => if name ∈ getNodeInputNames node then some out else none
  | .predicate captureName fn =>
    ((getNodeInputNames node).find? fun name => fn env name (env.inputInfo node name) node).map
      (out.noteValueName captureName)
  | .any => none
  | .capture _ => none

/-- A constraint on one input. -/
def checkInput (env : MatchEnv F) (node : Node) (out : PatternMatch F) (name : String) :
    PInput F → Option (PatternMatch F)
  | .any => some out
  | .capture captureName => some (out.setValueName captureName name)
  | .sameAs captureName =>
    match out.valueNames captureName with
    | none => some (out.setValueName captureName name)
    | some captured => if captured = name then some out else none
  | .scalar captureName value tol =>
    (readNear env value tol name).map (out.noteScalarValue captureName)
  | .predicate captureName fn =>
    if fn env name (env.inputInfo node name) node then some (out.noteValueName captureName name)
    else none

/-- The loop over the constraints of a node, in order. -/
def checkInputs (env : MatchEnv F) (node : Node) :
    List (Option Nat × PInput F) → PatternMatch F → Option (PatternMatch F)
  | [], out => some out
  | (none, constraint) :: rest, out =>
    (checkAnyInput env node out constraint).bind (checkInputs env node rest)
  | (some idx, constraint) :: rest, out =>
    ((getNodeInputNames node)[idx]?.bind fun name => checkInput env node out name constraint).bind
      (checkInputs env node rest)

/-- The node an edge leads to. A downstream edge to a child with edges of its own needs a single
consumer; a terminal child is the first consumer with its op type. -/
def followEdge (gc : GraphConnectivity) (node : Node) (dir : PEdgeDir) (valueIndex : Nat)
    (child : PNode F) : Option Node :=
  match dir with
  | .downstream =>
    (getNodeOutputNames node)[valueIndex]?.bind fun outVal =>
      if child.isTerminal then
        (gc.consumerMap outVal).find? fun consumer => consumer.opType == child.opType
      else if gc.hasSingleConsumer outVal then (gc.consumerMap outVal).head?
      else none
  | .upstream => (getNodeInputNames node)[valueIndex]?.bind gc.producerMap

mutual

/-- `MatchNode`. -/
def matchNode (env : MatchEnv F) (gc : GraphConnectivity) (alreadyMatched : List Node) :
    PNode F → Node → PatternMatch F → Option (PatternMatch F)
  | .mk opType domain inputConstraints nodeCapture edges, node, out =>
    if node ∈ alreadyMatched then none
    else if node ∈ out.allNodes then none
    else if node.opType ≠ opType then none
    else if domain ≠ "" ∧ node.domain ≠ domain then none
    else
      let capture :=
        if nodeCapture = "" then opType ++ "/" ++ toString out.allNodes.length else nodeCapture
      match checkInputs env node inputConstraints out with
      | none => none
      | some checked => matchEdges env gc alreadyMatched node edges (checked.commit capture node)

/-- The loop over the edges of a committed node. -/
def matchEdges (env : MatchEnv F) (gc : GraphConnectivity) (alreadyMatched : List Node)
    (node : Node) : PEdges F → PatternMatch F → Option (PatternMatch F)
  | .nil, out => some out
  | .cons dir valueIndex child optional rest, out =>
    match followEdge gc node dir valueIndex child with
    | none => if optional then matchEdges env gc alreadyMatched node rest out else none
    | some childNode =>
      match matchNode env gc alreadyMatched child childNode out with
      | none => if optional then matchEdges env gc alreadyMatched node rest out else none
      | some longer =>
        -- an optional child is kept only when it makes the match longer
        if optional && decide (longer.allNodes.length ≤ out.allNodes.length) then
          matchEdges env gc alreadyMatched node rest out
        else matchEdges env gc alreadyMatched node rest longer

end

/-- `MatchPattern`. -/
def matchPattern (env : MatchEnv F) (gc : GraphConnectivity) (alreadyMatched : List Node)
    (anchor : Node) (pattern : PNode F) : Option (PatternMatch F) :=
  matchNode env gc alreadyMatched pattern anchor {}

end

/-! ## The nodes of a match -/

namespace PatternMatcherLemmas

variable {F : Type}

@[simp] theorem allNodes_noteValueName (m : PatternMatch F) (capture name : String) :
    (m.noteValueName capture name).allNodes = m.allNodes := by
  unfold PatternMatch.noteValueName
  split <;> rfl

@[simp] theorem allNodes_noteScalarValue (m : PatternMatch F) (capture : String) (v : F) :
    (m.noteScalarValue capture v).allNodes = m.allNodes := by
  unfold PatternMatch.noteScalarValue
  split <;> rfl

@[simp] theorem allNodes_setValueName (m : PatternMatch F) (capture name : String) :
    (m.setValueName capture name).allNodes = m.allNodes :=
  rfl

variable {env : MatchEnv F} {g : Graph} {already : List Node} {node : Node}
  {out out' : PatternMatch F}

/-- What a successful descent does to the list of matched nodes. -/
structure Grown (g : Graph) (already : List Node) (out out' : PatternMatch F) : Prop where
  pre : out.allNodes <+: out'.allNodes
  nodup : out.allNodes.Nodup → out'.allNodes.Nodup
  new : ∀ n ∈ out'.allNodes, n ∈ out.allNodes ∨ (n ∈ g.nodes ∧ n ∉ already)

namespace Grown

theorem refl (g : Graph) (already : List Node) (out : PatternMatch F) :
    Grown g already out out :=
  ⟨List.prefix_rfl, id, fun _ h => Or.inl h⟩

theorem trans {out₁ out₂ out₃ : PatternMatch F} (h : Grown g already out₁ out₂)
    (h' : Grown g already out₂ out₃) : Grown g already out₁ out₃ := by
  refine ⟨h.pre.trans h'.pre, fun hn => h'.nodup (h.nodup hn), fun n hn => ?_⟩
  rcases h'.new n hn with hmid | hnew
  · exact h.new n hmid
  · exact Or.inr hnew

end Grown

theorem grown_commit (hnode : node ∈ g.nodes) (hfree : node ∉ already)
    (hnew : node ∉ out.allNodes) {checked : PatternMatch F}
    (hc : checked.allNodes = out.allNodes) (capture : String) :
    Grown g already out (checked.commit capture node) := by
  have hall : (checked.commit capture node).allNodes = out.allNodes ++ [node] := by
    simp [PatternMatch.commit, hc]
  refine ⟨?_, fun hn => ?_, fun n hn => ?_⟩
  · rw [hall]
    exact List.prefix_append _ _
  · rw [hall]
    exact List.nodup_append_comm.1 (List.nodup_cons.2 ⟨hnew, hn⟩)
  · rw [hall] at hn
    rcases List.mem_append.1 hn with hn | hn
    · exact Or.inl hn
    · rw [List.mem_singleton.1 hn]
      exact Or.inr ⟨hnode, hfree⟩

theorem followEdge_mem {dir : PEdgeDir} {i : Nat} {child : PNode F} {c : Node}
    (h : followEdge (buildGraphConnectivity g) node dir i child = some c) : c ∈ g.nodes := by
  cases dir with
  | upstream =>
    obtain ⟨v, -, hv⟩ := Option.bind_eq_some_iff.1 h
    exact mem_nodes_of_producer hv
  | downstream =>
    obtain ⟨v, -, hv⟩ := Option.bind_eq_some_iff.1 h
    split at hv
    · exact (mem_consumerMap.1 (List.mem_of_find?_eq_some hv)).2.1
    · split at hv
      · exact (mem_consumerMap.1 (List.mem_of_mem_head? hv)).2.1
      · cases hv

variable [FloatOps F]

theorem allNodes_checkAnyInput {c : PInput F} (h : checkAnyInput env node out c = some out') :
    out'.allNodes = out.allNodes := by
  cases c with
  | any => cases h
  | capture name => cases h
  | scalar name value tol =>
    obtain ⟨v, -, rfl⟩ := Option.map_eq_some_iff.1 h
    exact allNodes_noteScalarValue ..
  | sameAs name =>
    simp only [checkAnyInput] at h
    split at h
    · obtain ⟨v, -, rfl⟩ := Option.map_eq_some_iff.1 h
      rfl
    · split at h
      · cases h
        rfl
      · cases h
  | predicate name fn =>
    obtain ⟨v, -, rfl⟩ := Option.map_eq_some_iff.1 h
    exact allNodes_noteValueName ..

theorem allNodes_checkInput {c : PInput F} {name : String}
    (h : checkInput env node out name c = some out') : out'.allNodes = out.allNodes := by
  cases c with
  | any =>
    cases h
    rfl
  | capture capture =>
    cases h
    rfl
  | scalar capture value tol =>
    obtain ⟨v, -, rfl⟩ := Option.map_eq_some_iff.1 h
    exact allNodes_noteScalarValue ..
  | sameAs capture =>
    simp only [checkInput] at h
    split at h
    · cases h
      rfl
    · split at h
      · cases h
        rfl
      · cases h
  | predicate capture fn =>
    simp only [checkInput] at h
    split at h
    · cases h
      exact allNodes_noteValueName ..
    · cases h

/-- Checking the inputs of a node captures names and scalars, and no node. -/
theorem allNodes_checkInputs {cs : List (Option Nat × PInput F)}
    (h : checkInputs env node cs out = some out') : out'.allNodes = out.allNodes := by
  induction cs generalizing out with
  | nil =>
    cases h
    rfl
  | cons c cs ih =>
    obtain ⟨idx, c⟩ := c
    cases idx with
    | none =>
      obtain ⟨mid, hc, hrest⟩ := Option.bind_eq_some_iff.1 h
      exact (ih hrest).trans (allNodes_checkAnyInput hc)
    | some idx =>
      obtain ⟨mid, hc, hrest⟩ := Option.bind_eq_some_iff.1 h
      obtain ⟨name, -, hc⟩ := Option.bind_eq_some_iff.1 hc
      exact (ih hrest).trans (allNodes_checkInput hc)

mutual

theorem matchNode_grown {p : PNode F} {node : Node} {out out' : PatternMatch F}
    (hnode : node ∈ g.nodes)
    (h : matchNode env (buildGraphConnectivity g) already p node out = some out') :
    Grown g already out out' ∧ node ∈ out'.allNodes := by
  cases p with
  | mk opType domain cs cap edges =>
    simp only [matchNode] at h
    split at h
    · cases h
    · next hfree =>
      split at h
      · cases h
      · next hnew =>
        split at h
        · cases h
        · split at h
          · cases h
          · split at h
            · cases h
            · next checked hchecked =>
              have hcommit := grown_commit hnode hfree hnew (allNodes_checkInputs hchecked)
                (if cap = "" then opType ++ "/" ++ toString out.allNodes.length else cap)
              have hrest := matchEdges_grown h
              refine ⟨hcommit.trans hrest, hrest.pre.subset ?_⟩
              simp [PatternMatch.commit]

theorem matchEdges_grown {es : PEdges F} {node : Node} {out out' : PatternMatch F}
    (h : matchEdges env (buildGraphConnectivity g) already node es out = some out') :
    Grown g already out out' := by
  cases es with
  | nil =>
    simp only [matchEdges] at h
    cases h
    exact Grown.refl g already out
  | cons dir i child optional rest =>
    simp only [matchEdges] at h
    split at h
    · split at h
      · exact matchEdges_grown h
      · cases h
    · next c hfollow =>
      split at h
      · split at h
        · exact matchEdges_grown h
        · cases h
      · next longer hchild =>
        have hgrown := (matchNode_grown (followEdge_mem hfollow) hchild).1
        split at h
        · exact matchEdges_grown h
        · exact hgrown.trans (matchEdges_grown h)

end

/-! ## What a descent has checked -/

/-- The capture name of a node. -/
def captureName (opType cap : String) (out : PatternMatch F) : String :=
  if cap = "" then opType ++ "/" ++ toString out.allNodes.length else cap

omit [FloatOps F] in
@[simp] theorem captureName_of_ne {opType cap : String} (h : cap ≠ "") (out : PatternMatch F) :
    captureName opType cap out = cap :=
  if_neg h

theorem matchNode_eq_some {gc : GraphConnectivity} {opType domain cap : String}
    {cs : List (Option Nat × PInput F)} {edges : PEdges F} :
    matchNode env gc already (.mk opType domain cs cap edges) node out = some out' ↔
      node ∉ already ∧ node ∉ out.allNodes ∧ node.opType = opType ∧
        (domain = "" ∨ node.domain = domain) ∧
        ∃ checked, checkInputs env node cs out = some checked ∧
          matchEdges env gc already node edges
            (checked.commit (captureName opType cap out) node) = some out' := by
  rw [matchNode]
  split
  · next h => simp [h]
  · next hfree =>
    split
    · next h => simp [h]
    · next hnew =>
      split
      · next h => simp [h]
      · next hop =>
        split
        · next h => simp [h.1, h.2]
        · next hdomain =>
          have hdomain : domain = "" ∨ node.domain = domain := by
            rw [or_iff_not_imp_left]
            exact fun hne => not_not.1 fun hne' => hdomain ⟨hne, hne'⟩
          rw [not_not] at hop
          cases hchecked : checkInputs env node cs out with
          | none => simp
          | some checked =>
            simp only [hfree, hnew, hop, hdomain, not_false_eq_true, true_and, Option.some.injEq,
              exists_eq_left']
            rfl

/-- A required edge is followed to a node that matches its child. -/
theorem matchEdges_required {gc : GraphConnectivity} {dir : PEdgeDir} {i : Nat} {child : PNode F}
    {rest : PEdges F} :
    matchEdges env gc already node (.cons dir i child false rest) out = some out' ↔
      ∃ c longer, followEdge gc node dir i child = some c ∧
        matchNode env gc already child c out = some longer ∧
        matchEdges env gc already node rest longer = some out' := by
  rw [matchEdges]
  cases hfollow : followEdge gc node dir i child with
  | none => simp
  | some c =>
    cases hchild : matchNode env gc already child c out with
    | none => simp [hchild]
    | some longer => simp [hchild]

/-- An optional edge is taken exactly when it can be: every match of a child is longer. -/
theorem matchEdges_optional {dir : PEdgeDir} {i : Nat} {child : PNode F} {rest : PEdges F} :
    matchEdges env (buildGraphConnectivity g) already node (.cons dir i child true rest) out =
      matchEdges env (buildGraphConnectivity g) already node rest
        (((followEdge (buildGraphConnectivity g) node dir i child).bind fun c =>
          matchNode env (buildGraphConnectivity g) already child c out).getD out) := by
  rw [matchEdges]
  cases hfollow : followEdge (buildGraphConnectivity g) node dir i child with
  | none => simp
  | some c =>
    rw [Option.bind_some]
    cases hchild : matchNode env (buildGraphConnectivity g) already child c out with
    | none => simp [hchild]
    | some longer =>
      have hlonger : out.allNodes.length < longer.allNodes.length := by
        obtain ⟨hgrown, hmem⟩ := matchNode_grown (followEdge_mem hfollow) hchild
        obtain ⟨opType, domain, cs, cap, edges⟩ := child
        have hnew := (matchNode_eq_some.1 hchild).2.1
        refine lt_of_le_of_ne hgrown.pre.length_le fun heq => hnew ?_
        rwa [hgrown.pre.eq_of_length heq]
      simp [hchild, Nat.not_le_of_lt hlonger]

end PatternMatcherLemmas

open PatternMatcherLemmas in
/-- The nodes of a match are distinct nodes of the graph, and none was matched before. -/
theorem matchPattern_spec {F : Type} [FloatOps F] {env : MatchEnv F} {g : Graph}
    {already : List Node} {anchor : Node} {pattern : PNode F} {m : PatternMatch F}
    (hanchor : anchor ∈ g.nodes)
    (h : matchPattern env (buildGraphConnectivity g) already anchor pattern = some m) :
    m.allNodes.Nodup ∧ anchor ∈ m.allNodes ∧
      ∀ n ∈ m.allNodes, n ∈ g.nodes ∧ n ∉ already := by
  obtain ⟨hgrown, hmem⟩ := matchNode_grown hanchor h
  refine ⟨hgrown.nodup List.nodup_nil, hmem, fun n hn => ?_⟩
  exact (hgrown.new n hn).resolve_left List.not_mem_nil

end AmdGpuEp.DirectML
