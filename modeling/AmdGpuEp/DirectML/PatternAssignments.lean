import AmdGpuEp.DirectML.PatternMatcher

/-!
# Assignments of a pattern

What it means that graph nodes realize a pattern: an `Assignment` gives a node to
the root and, for each edge, to the child or to nothing where the edge is
optional. Which node an edge may lead to, which input a constraint may take and
when an edge may be left out are the rules. `anyRules` are those of the graph
alone, `firstRules` those of the descent, which never comes back on a choice.

Results:
1. `matchNode_iff`: a descent succeeds exactly when there is an assignment by the
   rules of the descent, and that assignment is all it leaves behind.
2. `matchPattern_iff`: the same from an anchor.
3. `matchPattern_sound`: a match is an assignment by the rules of the graph.
4. `greedy_incomplete`: five patterns with assignments that the descent misses.
5. `sharedCapture_overwritten`: of two nodes with one capture name the later one is
   kept.
-/

namespace AmdGpuEp.DirectML

/-! ## Assignments -/

mutual

/-- A node for a pattern node, and what its edges lead to. -/
inductive Assignment
  | mk (node : Node) (edges : Assignments)

/-- One entry for each edge, in order. -/
inductive Assignments
  | nil
  | skip (rest : Assignments)
  | take (child : Assignment) (rest : Assignments)

end

mutual

/-- The assigned nodes, in the order of the pattern. -/
def Assignment.nodes : Assignment → List Node
  | .mk node edges => node :: edges.nodes

def Assignments.nodes : Assignments → List Node
  | .nil => []
  | .skip rest => rest.nodes
  | .take child rest => child.nodes ++ rest.nodes

end

def Assignment.node : Assignment → Node
  | .mk node _ => node

/-- The name a pattern node captures its node under, behind `before` assigned nodes. -/
def nodeKey (opType nodeCapture : String) (before : Nat) : String :=
  if nodeCapture = "" then opType ++ "/" ++ toString before else nodeCapture

mutual

/-- Every assigned node with the name it is captured under, in the order of the pattern. -/
def Assignment.keyed {F : Type} : PNode F → Assignment → Nat → List (String × Node)
  | .mk opType _ _ nodeCapture edges, .mk node as, before =>
    (nodeKey opType nodeCapture before, node) :: as.keyed edges (before + 1)

def Assignments.keyed {F : Type} : PEdges F → Assignments → Nat → List (String × Node)
  | .cons _ _ child _ rest, .take a as, before =>
    a.keyed child before ++ as.keyed rest (before + a.nodes.length)
  | .cons _ _ _ _ rest, .skip as, before => as.keyed rest before
  | _, _, _ => []

end

/-- The last of the nodes that are captured under a name. -/
def lastUnder (entries : List (String × Node)) (key : String) : Option Node :=
  entries.reverse.lookup key

/-! ## Constraints -/

/-- The nodes assigned so far, and the names and scalars captured so far. -/
structure Bindings (F : Type) where
  nodes : List Node := []
  valueNames : String → Option String := fun _ => none
  scalarValues : String → Option F := fun _ => none

namespace Bindings

variable {F : Type}

def add (b : Bindings F) (node : Node) : Bindings F :=
  { b with nodes := b.nodes ++ [node] }

def setName (b : Bindings F) (key name : String) : Bindings F :=
  { b with valueNames := Function.update b.valueNames key (some name) }

def noteName (b : Bindings F) (key name : String) : Bindings F :=
  if key = "" then b else b.setName key name

def noteScalar (b : Bindings F) (key : String) (v : F) : Bindings F :=
  if key = "" then b
  else { b with scalarValues := Function.update b.scalarValues key (some v) }

end Bindings

section

variable {F : Type} [FloatOps F]

/-- `name` is an initializer with the one element `v`, which is near `value`. -/
def IsNear (env : MatchEnv F) (value tol : F) (name : String) (v : F) : Prop :=
  ∃ val, env.initializers name = some val ∧ tryReadScalarFloat val = some v ∧
    FloatOps.far v value tol = false

/-- An input of `node` meets a constraint after the captures `b`, and leaves the captures `b'`. -/
inductive MeetsAt (env : MatchEnv F) (node : Node) (name : String) :
    PInput F → Bindings F → Bindings F → Prop
  | any {b} : MeetsAt env node name .any b b
  | capture {key b} : MeetsAt env node name (.capture key) b (b.setName key name)
  | sameAsFirst {key b} (hfirst : b.valueNames key = none) :
    MeetsAt env node name (.sameAs key) b (b.setName key name)
  | sameAs {key b} (hsame : b.valueNames key = some name) :
    MeetsAt env node name (.sameAs key) b b
  | scalar {key value tol v b} (hnear : IsNear env value tol name v) :
    MeetsAt env node name (.scalar key value tol) b (b.noteScalar key v)
  | predicate {key fn b} (hfn : fn env name (env.inputInfo node name) node = true) :
    MeetsAt env node name (.predicate key fn) b (b.noteName key name)

/-- A constraint is met at its input, or at some input when it stands for any. -/
def Meets (env : MatchEnv F) (node : Node) (c : Option Nat × PInput F) (b b' : Bindings F) :
    Prop :=
  ∃ name ∈ getNodeInputNames node,
    (∀ i, c.1 = some i → (getNodeInputNames node)[i]? = some name) ∧
      MeetsAt env node name c.2 b b'

/-- `x` is the first element of `xs` with `p`. -/
def IsFirst {α : Type} (p : α → Prop) (xs : List α) (x : α) : Prop :=
  ∃ before after, xs = before ++ x :: after ∧ p x ∧ ∀ y ∈ before, ¬ p y

theorem IsFirst.mem {α : Type} {p : α → Prop} {xs : List α} {x : α} (h : IsFirst p xs x) :
    x ∈ xs := by
  obtain ⟨before, after, rfl, -⟩ := h
  simp

theorem IsFirst.prop {α : Type} {p : α → Prop} {xs : List α} {x : α} (h : IsFirst p xs x) :
    p x := by
  obtain ⟨-, -, -, hx, -⟩ := h
  exact hx

/-- The input that the descent takes for a constraint on any input. The kinds that have such a
form are `Scalar`, `SameAs` and `Predicate`. -/
def Picks (env : MatchEnv F) (node : Node) (b : Bindings F) (name : String) : PInput F → Prop
  | .scalar _ value tol =>
    IsFirst (fun input => ∃ v, IsNear env value tol input v) (getNodeInputNames node) name
  | .sameAs key =>
    b.valueNames key = none →
      IsFirst (fun input => env.initializers input = none) (getNodeInputNames node) name
  | .predicate _ fn =>
    IsFirst (fun input => fn env input (env.inputInfo node input) node = true)
      (getNodeInputNames node) name
  | .any => False
  | .capture _ => False

/-- A constraint is met as the descent meets it. -/
def MeetsFirst (env : MatchEnv F) (node : Node) (c : Option Nat × PInput F)
    (b b' : Bindings F) : Prop :=
  ∃ name ∈ getNodeInputNames node,
    (∀ i, c.1 = some i → (getNodeInputNames node)[i]? = some name) ∧
      MeetsAt env node name c.2 b b' ∧ (c.1 = none → Picks env node b name c.2)

end

/-! ## Edges -/

/-- `child` writes what `node` reads at an input, or reads what `node` writes at an output. -/
def Joins (g : Graph) (node : Node) (dir : PEdgeDir) (i : Nat) (child : Node) : Prop :=
  child ∈ g.nodes ∧
    match dir with
    | .upstream => ∃ v, node.inputs[i]? = some (some v) ∧ v ∈ child.outputNames
    | .downstream => ∃ v, node.outputs[i]? = some (some v) ∧ some v ∈ child.inputs

/-- The reader that the descent goes to: the first one with the op type of a terminal child, and
for a child with edges of its own the only one, of a value that is no graph output. -/
def IsReader {F : Type} (g : Graph) (v : String) (p : PNode F) (child : Node) : Prop :=
  if p.isTerminal then
    IsFirst (fun n => some v ∈ n.inputs ∧ n.opType = p.opType) g.nodes child
  else v ∉ g.outputs ∧ child.inputs.count (some v) = 1 ∧
    ∀ n ∈ g.nodes, some v ∈ n.inputs → n = child

/-- An edge leads the descent to `child`. -/
def JoinsFirst {F : Type} (g : Graph) (node : Node) (dir : PEdgeDir) (i : Nat) (p : PNode F)
    (child : Node) : Prop :=
  Joins g node dir i child ∧
    (dir = .downstream → ∀ v, node.outputs[i]? = some (some v) → IsReader g v p child)

/-! ## Rules -/

/-- Where an edge may lead, how a constraint may be met, and whether an optional edge is left out
only when its child cannot be assigned. -/
structure MatchRules (F : Type) where
  joins : Node → PEdgeDir → Nat → PNode F → Node → Prop
  meets : Node → Option Nat × PInput F → Bindings F → Bindings F → Prop
  greedy : Prop

section

variable {F : Type} [FloatOps F]

/-- The rules of the graph. -/
def anyRules (env : MatchEnv F) (g : Graph) : MatchRules F where
  joins node dir i _ child := Joins g node dir i child
  meets := Meets env
  greedy := False

/-- The rules of the descent. -/
def firstRules (env : MatchEnv F) (g : Graph) : MatchRules F where
  joins := JoinsFirst g
  meets := MeetsFirst env
  greedy := True

end

section

variable {F : Type}

/-- The constraints of a node are met one after the other. -/
def MeetsAll (r : MatchRules F) (node : Node) :
    List (Option Nat × PInput F) → Bindings F → Bindings F → Prop
  | [], b, b' => b' = b
  | c :: cs, b, b' => ∃ mid, r.meets node c b mid ∧ MeetsAll r node cs mid b'

mutual

/-- An assignment realizes a pattern with nodes that are not matched yet. -/
def Realizes (r : MatchRules F) (alreadyMatched : List Node) :
    PNode F → Assignment → Bindings F → Bindings F → Prop
  | .mk opType domain inputConstraints _ edges, .mk node as, b, b' =>
    node ∉ alreadyMatched ∧ node ∉ b.nodes ∧ node.opType = opType ∧
      (domain = "" ∨ node.domain = domain) ∧
      ∃ mid, MeetsAll r node inputConstraints b mid ∧
        RealizesEdges r alreadyMatched node edges as (mid.add node) b'

def RealizesEdges (r : MatchRules F) (alreadyMatched : List Node) (node : Node) :
    PEdges F → Assignments → Bindings F → Bindings F → Prop
  | .nil, .nil, b, b' => b' = b
  | .cons dir i child _ rest, .take a as, b, b' =>
    r.joins node dir i child a.node ∧
      ∃ mid, Realizes r alreadyMatched child a b mid ∧
        RealizesEdges r alreadyMatched node rest as mid b'
  | .cons dir i child optional rest, .skip as, b, b' =>
    optional = true ∧
      (r.greedy → ∀ a mid, r.joins node dir i child a.node →
        ¬ Realizes r alreadyMatched child a b mid) ∧
      RealizesEdges r alreadyMatched node rest as b b'
  | _, _, _, _ => False

end

end

/-! ## The rules of the descent -/

/-- The match without the captured nodes. -/
def PatternMatch.bindings {F : Type} (m : PatternMatch F) : Bindings F where
  nodes := m.allNodes
  valueNames := m.valueNames
  scalarValues := m.scalarValues

namespace PatternAssignmentsLemmas

open PatternMatcherLemmas

section

variable {F : Type} {m m' : PatternMatch F}

theorem eq_iff_bindings :
    m = m' ↔ m'.bindings = m.bindings ∧ m'.nodeIndices = m.nodeIndices := by
  refine ⟨by rintro rfl; exact ⟨rfl, rfl⟩, fun ⟨hb, hn⟩ => ?_⟩
  obtain ⟨nodeIndices, valueNames, scalarValues, allNodes⟩ := m
  obtain ⟨nodeIndices', valueNames', scalarValues', allNodes'⟩ := m'
  simp only [PatternMatch.bindings, Bindings.mk.injEq] at hb
  obtain ⟨rfl, rfl, rfl⟩ := hb
  obtain rfl := hn
  rfl

@[simp] theorem valueNames_bindings : m.bindings.valueNames = m.valueNames :=
  rfl

@[simp] theorem bindings_setValueName (key name : String) :
    (m.setValueName key name).bindings = m.bindings.setName key name :=
  rfl

@[simp] theorem nodeIndices_setValueName (key name : String) :
    (m.setValueName key name).nodeIndices = m.nodeIndices :=
  rfl

@[simp] theorem bindings_noteValueName (key name : String) :
    (m.noteValueName key name).bindings = m.bindings.noteName key name := by
  unfold PatternMatch.noteValueName Bindings.noteName
  split <;> rfl

@[simp] theorem nodeIndices_noteValueName (key name : String) :
    (m.noteValueName key name).nodeIndices = m.nodeIndices := by
  unfold PatternMatch.noteValueName
  split <;> rfl

@[simp] theorem bindings_noteScalarValue (key : String) (v : F) :
    (m.noteScalarValue key v).bindings = m.bindings.noteScalar key v := by
  unfold PatternMatch.noteScalarValue Bindings.noteScalar
  split <;> rfl

@[simp] theorem nodeIndices_noteScalarValue (key : String) (v : F) :
    (m.noteScalarValue key v).nodeIndices = m.nodeIndices := by
  unfold PatternMatch.noteScalarValue
  split <;> rfl

end

section

variable {F : Type} [FloatOps F] {env : MatchEnv F} {node : Node} {name key : String}
  {value tol v : F} {b b' : Bindings F} {out out' : PatternMatch F}

theorem readNear_eq_some : readNear env value tol name = some v ↔ IsNear env value tol name v := by
  unfold readNear IsNear
  cases hval : env.initializers name with
  | none => simp
  | some val =>
    cases hread : tryReadScalarFloat val with
    | none => simp [hread]
    | some w =>
      simp only [hread, Option.some.injEq, exists_eq_left']
      split
      · next hfar =>
        refine iff_of_false (by simp) ?_
        rintro ⟨rfl, h⟩
        exact absurd (hfar.symm.trans h) (by simp)
      · next hfar =>
        rw [Option.some.injEq]
        exact ⟨fun h => ⟨h, h ▸ Bool.eq_false_of_not_eq_true hfar⟩, fun h => h.1⟩

@[simp] theorem meetsAt_any : MeetsAt env node name .any b b' ↔ b' = b :=
  ⟨fun h => by cases h; rfl, fun h => h ▸ .any⟩

@[simp] theorem meetsAt_capture :
    MeetsAt env node name (.capture key) b b' ↔ b' = b.setName key name :=
  ⟨fun h => by cases h; rfl, fun h => h ▸ .capture⟩

theorem meetsAt_sameAs :
    MeetsAt env node name (.sameAs key) b b' ↔
      (b.valueNames key = none ∧ b' = b.setName key name) ∨
        (b.valueNames key = some name ∧ b' = b) := by
  constructor
  · intro h
    cases h with
    | sameAsFirst hfirst => exact Or.inl ⟨hfirst, rfl⟩
    | sameAs hsame => exact Or.inr ⟨hsame, rfl⟩
  · rintro (⟨hfirst, rfl⟩ | ⟨hsame, rfl⟩)
    · exact .sameAsFirst hfirst
    · exact .sameAs hsame

theorem meetsAt_scalar :
    MeetsAt env node name (.scalar key value tol) b b' ↔
      ∃ v, IsNear env value tol name v ∧ b' = b.noteScalar key v := by
  constructor
  · intro h
    cases h with
    | scalar hnear => exact ⟨_, hnear, rfl⟩
  · rintro ⟨v, hnear, rfl⟩
    exact .scalar hnear

theorem meetsAt_predicate {fn : MatchEnv F → String → Option TensorInfo → Node → Bool} :
    MeetsAt env node name (.predicate key fn) b b' ↔
      fn env name (env.inputInfo node name) node = true ∧ b' = b.noteName key name := by
  constructor
  · intro h
    cases h with
    | predicate hfn => exact ⟨hfn, rfl⟩
  · rintro ⟨hfn, rfl⟩
    exact .predicate hfn

theorem isFirst_iff_find? {α : Type} {p : α → Prop} {q : α → Bool} (hq : ∀ x, q x = true ↔ p x)
    {xs : List α} {x : α} : xs.find? q = some x ↔ IsFirst p xs x := by
  simp only [List.find?_eq_some_iff_append, IsFirst, ← hq, Bool.not_eq_true', Bool.not_eq_true]
  constructor
  · rintro ⟨hx, before, after, heq, hbefore⟩
    exact ⟨before, after, heq, hx, hbefore⟩
  · rintro ⟨before, after, heq, hx, hbefore⟩
    exact ⟨hx, before, after, heq, hbefore⟩

theorem checkInput_eq_some {c : PInput F} :
    checkInput env node out name c = some out' ↔
      MeetsAt env node name c out.bindings out'.bindings ∧
        out'.nodeIndices = out.nodeIndices := by
  cases c with
  | any => simp [checkInput, eq_iff_bindings]
  | capture key => simp [checkInput, eq_iff_bindings]
  | sameAs key =>
    rw [meetsAt_sameAs]
    simp only [checkInput, valueNames_bindings]
    cases hkey : out.valueNames key with
    | none => simp [eq_iff_bindings]
    | some captured =>
      by_cases hname : captured = name
      · simp [hname, eq_iff_bindings]
      · simp [hname]
  | scalar key value tol =>
    simp only [checkInput, Option.map_eq_some_iff, readNear_eq_some, meetsAt_scalar,
      eq_iff_bindings, bindings_noteScalarValue, nodeIndices_noteScalarValue]
    constructor
    · rintro ⟨v, hv, hb, hn⟩
      exact ⟨⟨v, hv, hb⟩, hn⟩
    · rintro ⟨⟨v, hv, hb⟩, hn⟩
      exact ⟨v, hv, hb, hn⟩
  | predicate key fn =>
    simp only [checkInput, meetsAt_predicate]
    split
    · next hfn => simp [hfn, eq_iff_bindings]
    · next hfn => simp [hfn]

theorem firstNear_eq_some {names : List String} :
    firstNear env value tol names = some v ↔
      ∃ name, IsFirst (fun input => ∃ v, IsNear env value tol input v) names name ∧
        IsNear env value tol name v := by
  have hnone : ∀ input, readNear env value tol input = none ↔
      ¬ ∃ v, IsNear env value tol input v := by
    intro input
    simp only [← readNear_eq_some, Option.eq_none_iff_forall_ne_some, not_exists]
  rw [firstNear, List.findSome?_eq_some_iff]
  simp only [hnone, readNear_eq_some]
  constructor
  · rintro ⟨before, name, after, heq, hnear, hbefore⟩
    exact ⟨name, ⟨before, after, heq, ⟨v, hnear⟩, hbefore⟩, hnear⟩
  · rintro ⟨name, ⟨before, after, heq, -, hbefore⟩, hnear⟩
    exact ⟨before, name, after, heq, hnear, hbefore⟩

theorem checkAnyInput_eq_some {c : PInput F} :
    checkAnyInput env node out c = some out' ↔
      (∃ name ∈ getNodeInputNames node, MeetsAt env node name c out.bindings out'.bindings ∧
        Picks env node out.bindings name c) ∧ out'.nodeIndices = out.nodeIndices := by
  cases c with
  | any => simp [checkAnyInput, Picks]
  | capture key => simp [checkAnyInput, Picks]
  | scalar key value tol =>
    simp only [checkAnyInput, Option.map_eq_some_iff, firstNear_eq_some, eq_iff_bindings,
      bindings_noteScalarValue, nodeIndices_noteScalarValue, meetsAt_scalar, Picks]
    constructor
    · rintro ⟨v, ⟨name, hfirst, hnear⟩, hb, hn⟩
      exact ⟨⟨name, hfirst.mem, ⟨v, hnear, hb⟩, hfirst⟩, hn⟩
    · rintro ⟨⟨name, -, ⟨v, hnear, hb⟩, hfirst⟩, hn⟩
      exact ⟨v, ⟨name, hfirst, hnear⟩, hb, hn⟩
  | sameAs key =>
    simp only [checkAnyInput, meetsAt_sameAs, Picks, valueNames_bindings]
    cases hkey : out.valueNames key with
    | none =>
      simp only [Option.map_eq_some_iff, eq_iff_bindings, bindings_setValueName,
        nodeIndices_setValueName, reduceCtorEq, false_and, or_false, true_and, forall_const,
        isFirst_iff_find? fun _ => Option.isNone_iff_eq_none]
      constructor
      · rintro ⟨name, hfirst, hb, hn⟩
        exact ⟨⟨name, hfirst.mem, hb, hfirst⟩, hn⟩
      · rintro ⟨⟨name, -, hb, hfirst⟩, hn⟩
        exact ⟨name, hfirst, hb, hn⟩
    | some captured =>
      simp only [reduceCtorEq, false_and, false_or, Option.some.injEq, false_implies, and_true]
      split
      · next hmem =>
        rw [Option.some.injEq, eq_iff_bindings]
        refine and_congr_left fun _ => ⟨fun hb => ⟨captured, hmem, rfl, hb⟩, ?_⟩
        rintro ⟨_, -, -, hb⟩
        exact hb
      · next hmem =>
        refine iff_of_false (by simp) ?_
        rintro ⟨⟨name, hname, rfl, -⟩, -⟩
        exact hmem hname
  | predicate key fn =>
    simp only [checkAnyInput, Option.map_eq_some_iff, eq_iff_bindings, bindings_noteValueName,
      nodeIndices_noteValueName, meetsAt_predicate, Picks, isFirst_iff_find? fun _ => Iff.rfl]
    constructor
    · rintro ⟨name, hfirst, hb, hn⟩
      exact ⟨⟨name, hfirst.mem, ⟨hfirst.prop, hb⟩, hfirst⟩, hn⟩
    · rintro ⟨⟨name, -, ⟨-, hb⟩, hfirst⟩, hn⟩
      exact ⟨name, hfirst, hb, hn⟩

/-- One constraint, as the loop checks it. -/
theorem check_eq_some {idx : Option Nat} {c : PInput F} :
    (match idx with
      | none => checkAnyInput env node out c
      | some i => (getNodeInputNames node)[i]?.bind fun name =>
          checkInput env node out name c) = some out' ↔
      MeetsFirst env node (idx, c) out.bindings out'.bindings ∧
        out'.nodeIndices = out.nodeIndices := by
  cases idx with
  | none => simp [checkAnyInput_eq_some, MeetsFirst]
  | some i =>
    simp only [Option.bind_eq_some_iff, checkInput_eq_some, MeetsFirst, Option.some.injEq,
      forall_eq', reduceCtorEq, false_implies, and_true]
    constructor
    · rintro ⟨name, hi, hmeets, hn⟩
      exact ⟨⟨name, List.mem_of_getElem? hi, hi, hmeets⟩, hn⟩
    · rintro ⟨⟨name, -, hi, hmeets⟩, hn⟩
      exact ⟨name, hi, hmeets, hn⟩

/-- A match with given bindings. -/
def toMatch (b : Bindings F) (nodeIndices : String → Option Node) : PatternMatch F where
  nodeIndices := nodeIndices
  valueNames := b.valueNames
  scalarValues := b.scalarValues
  allNodes := b.nodes

theorem checkInputs_eq_some (g : Graph) {cs : List (Option Nat × PInput F)} :
    checkInputs env node cs out = some out' ↔
      MeetsAll (firstRules env g) node cs out.bindings out'.bindings ∧
        out'.nodeIndices = out.nodeIndices := by
  induction cs generalizing out with
  | nil => rw [checkInputs, Option.some.injEq, eq_iff_bindings]; rfl
  | cons c cs ih =>
    obtain ⟨idx, c⟩ := c
    have hstep : checkInputs env node ((idx, c) :: cs) out =
        (match idx with
          | none => checkAnyInput env node out c
          | some i => (getNodeInputNames node)[i]?.bind fun name =>
              checkInput env node out name c).bind (checkInputs env node cs) := by
      cases idx <;> rfl
    rw [hstep, Option.bind_eq_some_iff]
    simp only [check_eq_some, ih, MeetsAll]
    constructor
    · rintro ⟨mid, ⟨hmeets, hmid⟩, hrest, hn⟩
      exact ⟨⟨mid.bindings, hmeets, hrest⟩, hn.trans hmid⟩
    · rintro ⟨⟨mid, hmeets, hrest⟩, hn⟩
      exact ⟨toMatch mid out.nodeIndices, ⟨hmeets, rfl⟩, hrest, hn⟩

end

/-! ## Where an edge leads -/

section

variable {g : Graph} {node c : Node} {v : String}

theorem find?_flatMap_replicate {α : Type} (k : α → Nat) (q : α → Bool) (xs : List α) :
    (xs.flatMap fun x => List.replicate (k x) x).find? q =
      xs.find? fun x => decide (0 < k x) && q x := by
  induction xs with
  | nil => rfl
  | cons x xs ih =>
    rw [List.flatMap_cons, List.find?_append, ih, List.find?_cons, List.find?_replicate]
    by_cases hk : k x = 0
    · simp [hk]
    · cases q x <;> simp [hk, Nat.pos_of_ne_zero hk]

theorem count_getNodeInputNames (hv : v ≠ "") (n : Node) :
    (getNodeInputNames n).count v = n.inputs.count (some v) := by
  rw [getNodeInputNames, List.count, List.countP_map, List.count]
  refine List.countP_congr fun slot _ => ?_
  cases slot with
  | none => simp [hv.symm]
  | some w => simp

theorem consumerMap_eq (hv : v ≠ "") :
    (buildGraphConnectivity g).consumerMap v =
      g.nodes.flatMap fun n => List.replicate (n.inputs.count (some v)) n := by
  show (if v = "" then _ else _) = _
  rw [if_neg hv]
  simp only [count_getNodeInputNames hv]

theorem find?_consumerMap (hv : v ≠ "") (q : Node → Bool) :
    ((buildGraphConnectivity g).consumerMap v).find? q = some c ↔
      IsFirst (fun n => some v ∈ n.inputs ∧ q n = true) g.nodes c := by
  rw [consumerMap_eq hv, find?_flatMap_replicate]
  refine isFirst_iff_find? fun n => ?_
  simp [List.count_pos_iff]

/-- A value has the single listed reader `c`. -/
theorem consumerMap_eq_singleton (hv : v ≠ "") :
    (buildGraphConnectivity g).consumerMap v = [c] ↔
      c ∈ g.nodes ∧ c.inputs.count (some v) = 1 ∧
        ∀ n ∈ g.nodes, some v ∈ n.inputs → n = c := by
  have hmem : ∀ n, n ∈ (buildGraphConnectivity g).consumerMap v ↔
      n ∈ g.nodes ∧ some v ∈ n.inputs := by
    intro n
    rw [mem_consumerMap, mem_getNodeInputNames hv]
    exact and_iff_right hv
  have hcount : ∀ n ∈ g.nodes,
      ((buildGraphConnectivity g).consumerMap v).count n = n.inputs.count (some v) := by
    intro n hn
    rw [consumerMap_eq hv]
    exact Graph.count_flatMap_replicate (fun n => n.inputs.count (some v)) g.nodes_nodup hn
  constructor
  · intro heq
    obtain ⟨hc, -⟩ := (hmem c).1 (heq ▸ List.mem_singleton_self c)
    refine ⟨hc, ?_, fun n hn hread => ?_⟩
    · rw [← hcount c hc, heq, List.count_singleton_self]
    · exact List.mem_singleton.1 (heq ▸ (hmem n).2 ⟨hn, hread⟩)
  · rintro ⟨hc, hone, hall⟩
    have heqc : ∀ n ∈ (buildGraphConnectivity g).consumerMap v, c = n := fun n hn =>
      (hall n ((hmem n).1 hn).1 ((hmem n).1 hn).2).symm
    have hlength : ((buildGraphConnectivity g).consumerMap v).length = 1 := by
      rw [← List.count_eq_length.2 heqc, hcount c hc, hone]
    exact (List.eq_replicate_iff (n := 1)).2 ⟨hlength, fun n hn => (heqc n hn).symm⟩

theorem followEdge_eq_some {F : Type} {dir : PEdgeDir} {i : Nat} {p : PNode F}
    (hnode : node ∈ g.nodes) :
    followEdge (buildGraphConnectivity g) node dir i p = some c ↔ JoinsFirst g node dir i p c := by
  cases dir with
  | upstream =>
    simp only [followEdge, Option.bind_eq_some_iff, producerMap_eq_some, JoinsFirst, Joins,
      getNodeInputNames, List.getElem?_map, Option.map_eq_some_iff, reduceCtorEq, false_implies,
      and_true]
    constructor
    · rintro ⟨v, ⟨slot, hi, rfl⟩, hc, hv⟩
      cases slot with
      | none => exact absurd rfl (ne_empty_of_output hc hv)
      | some v => exact ⟨hc, v, hi, hv⟩
    · rintro ⟨hc, v, hi, hv⟩
      exact ⟨v, ⟨some v, hi, rfl⟩, hc, hv⟩
  | downstream =>
    cases hi : node.outputs[i]? with
    | none => simp [followEdge, JoinsFirst, Joins, getNodeOutputNames, hi]
    | some slot =>
      cases slot with
      | none =>
        simp [followEdge, JoinsFirst, Joins, getNodeOutputNames, hi,
          GraphConnectivity.hasSingleConsumer, buildGraphConnectivity]
      | some v =>
        have hv : v ≠ "" :=
          ne_empty_of_output hnode (Node.mem_outputNames.2 (List.mem_of_getElem? hi))
        simp only [followEdge, JoinsFirst, Joins, IsReader, getNodeOutputNames,
          List.getElem?_map, hi, Option.map_some, Option.getD_some, Option.bind_some,
          Option.some.injEq, exists_eq_left', forall_eq', forall_const]
        split
        · rw [find?_consumerMap hv]
          simp only [beq_iff_eq]
          exact ⟨fun h => ⟨⟨h.mem, h.prop.1⟩, h⟩, fun h => h.2⟩
        · have hsingle : (if (buildGraphConnectivity g).hasSingleConsumer v = true then
                ((buildGraphConnectivity g).consumerMap v).head? else none) = some c ↔
              v ∉ g.outputs ∧ (buildGraphConnectivity g).consumerMap v = [c] := by
            have hout : (buildGraphConnectivity g).graphOutputValues.contains v = true ↔
                v ∈ g.outputs := by
              simp [buildGraphConnectivity, hv]
            cases hmap : (buildGraphConnectivity g).consumerMap v with
            | nil => simp [GraphConnectivity.hasSingleConsumer, hmap]
            | cons d rest =>
              cases rest <;> simp [GraphConnectivity.hasSingleConsumer, hmap, ← hout]
          rw [hsingle, consumerMap_eq_singleton hv]
          constructor
          · rintro ⟨hout, hc, hone, hall⟩
            exact ⟨⟨hc, List.count_pos_iff.1 (by rw [hone]; exact Nat.one_pos)⟩, hout, hone, hall⟩
          · rintro ⟨⟨hc, -⟩, hout, hone, hall⟩
            exact ⟨hout, hc, hone, hall⟩

end

/-! ## The descent -/

section

variable {F : Type}

/-- The captured nodes after some more. -/
def noteNodes (nodeIndices : String → Option Node) (entries : List (String × Node)) :
    String → Option Node :=
  entries.foldl (fun f entry => Function.update f entry.1 (some entry.2)) nodeIndices

@[simp] theorem noteNodes_append (f : String → Option Node) (l l' : List (String × Node)) :
    noteNodes f (l ++ l') = noteNodes (noteNodes f l) l' :=
  List.foldl_append

theorem noteNodes_apply (f : String → Option Node) (l : List (String × Node)) (key : String) :
    noteNodes f l key = (lastUnder l key).or (f key) := by
  induction l generalizing f with
  | nil => rfl
  | cons entry l ih =>
    obtain ⟨k, node⟩ := entry
    show noteNodes (Function.update f k (some node)) l key = _
    rw [ih, lastUnder, lastUnder, List.reverse_cons, List.lookup_append, Option.or_assoc]
    congr 1
    by_cases hk : key = k
    · simp [hk]
    · simp [hk, List.lookup_cons, beq_false_of_ne hk]

@[simp] theorem bindings_toMatch (b : Bindings F) (f : String → Option Node) :
    (toMatch b f).bindings = b :=
  rfl

@[simp] theorem nodeIndices_toMatch (b : Bindings F) (f : String → Option Node) :
    (toMatch b f).nodeIndices = f :=
  rfl

mutual

/-- A realization assigns the nodes of its assignment, behind those that were there. -/
theorem Realizes.nodes {r : MatchRules F} {already : List Node} {p : PNode F} {a : Assignment}
    {b b' : Bindings F} (hinput : ∀ node c b b', r.meets node c b b' → b'.nodes = b.nodes)
    (h : Realizes r already p a b b') : b'.nodes = b.nodes ++ a.nodes := by
  cases p with
  | mk opType domain cs cap edges =>
    cases a with
    | mk node as =>
      simp only [Realizes] at h
      obtain ⟨-, -, -, -, mid, hmeets, hedges⟩ := h
      have hmid : ∀ cs (b mid : Bindings F), MeetsAll r node cs b mid → mid.nodes = b.nodes := by
        intro cs
        induction cs with
        | nil => exact fun b mid h => h ▸ rfl
        | cons c cs ih =>
          rintro b mid ⟨next, hc, hcs⟩
          rw [ih next mid hcs, hinput node c b next hc]
      rw [RealizesEdges.nodes hinput hedges, Assignment.nodes, Bindings.add, hmid cs b mid hmeets,
        List.append_assoc, List.singleton_append]

theorem RealizesEdges.nodes {r : MatchRules F} {already : List Node} {node : Node}
    {es : PEdges F} {as : Assignments} {b b' : Bindings F}
    (hinput : ∀ node c b b', r.meets node c b b' → b'.nodes = b.nodes)
    (h : RealizesEdges r already node es as b b') : b'.nodes = b.nodes ++ as.nodes := by
  cases es with
  | nil =>
    cases as with
    | nil =>
      simp only [RealizesEdges] at h
      rw [h, Assignments.nodes, List.append_nil]
    | skip as => simp only [RealizesEdges] at h
    | take a as => simp only [RealizesEdges] at h
  | cons dir i child optional rest =>
    cases as with
    | nil => simp only [RealizesEdges] at h
    | skip as =>
      simp only [RealizesEdges] at h
      rw [RealizesEdges.nodes hinput h.2.2, Assignments.nodes]
    | take a as =>
      simp only [RealizesEdges] at h
      obtain ⟨-, mid, hchild, hrest⟩ := h
      rw [RealizesEdges.nodes hinput hrest, Realizes.nodes hinput hchild, Assignments.nodes,
        List.append_assoc]

end

mutual

/-- An assignment by narrower rules is one by wider rules that do not ask for optional edges. -/
theorem Realizes.mono {r r' : MatchRules F} {already : List Node} {p : PNode F} {a : Assignment}
    {b b' : Bindings F}
    (hjoins : ∀ node dir i p child, r.joins node dir i p child → r'.joins node dir i p child)
    (hmeets : ∀ node c b b', r.meets node c b b' → r'.meets node c b b')
    (hgreedy : ¬ r'.greedy) (h : Realizes r already p a b b') : Realizes r' already p a b b' := by
  have hall : ∀ node cs b b', MeetsAll r node cs b b' → MeetsAll r' node cs b b' := by
    intro node cs
    induction cs with
    | nil => exact fun b b' h => h
    | cons c cs ih =>
      rintro b b' ⟨mid, hc, hcs⟩
      exact ⟨mid, hmeets node c b mid hc, ih mid b' hcs⟩
  obtain ⟨opType, domain, cs, cap, edges⟩ := p
  obtain ⟨node, as⟩ := a
  obtain ⟨hfree, hnew, hop, hdomain, mid, hcs, hedges⟩ := h
  exact ⟨hfree, hnew, hop, hdomain, mid, hall node cs b mid hcs,
    RealizesEdges.mono hjoins hmeets hgreedy hedges⟩

theorem RealizesEdges.mono {r r' : MatchRules F} {already : List Node} {node : Node}
    {es : PEdges F} {as : Assignments} {b b' : Bindings F}
    (hjoins : ∀ node dir i p child, r.joins node dir i p child → r'.joins node dir i p child)
    (hmeets : ∀ node c b b', r.meets node c b b' → r'.meets node c b b')
    (hgreedy : ¬ r'.greedy) (h : RealizesEdges r already node es as b b') :
    RealizesEdges r' already node es as b b' := by
  cases es with
  | nil =>
    cases as with
    | nil => exact h
    | skip as => exact h.elim
    | take a as => exact h.elim
  | cons dir i child optional rest =>
    cases as with
    | nil => exact h.elim
    | skip as =>
      obtain ⟨hopt, -, hrest⟩ := h
      exact ⟨hopt, fun hg => absurd hg hgreedy, RealizesEdges.mono hjoins hmeets hgreedy hrest⟩
    | take a as =>
      obtain ⟨hjoin, mid, hchild, hrest⟩ := h
      exact ⟨hjoins _ _ _ _ _ hjoin, mid, Realizes.mono hjoins hmeets hgreedy hchild,
        RealizesEdges.mono hjoins hmeets hgreedy hrest⟩

end

variable [FloatOps F] {env : MatchEnv F} {g : Graph} {already : List Node}

theorem nodes_of_meets {node : Node} {c : Option Nat × PInput F} {b b' : Bindings F}
    (h : Meets env node c b b') : b'.nodes = b.nodes := by
  obtain ⟨name, -, -, hmeets⟩ := h
  generalize c.2 = constraint at hmeets
  cases hmeets with
  | any => rfl
  | capture => rfl
  | sameAsFirst => rfl
  | sameAs => rfl
  | scalar =>
    unfold Bindings.noteScalar
    split <;> rfl
  | predicate =>
    unfold Bindings.noteName
    split <;> rfl

theorem meets_of_meetsFirst {node : Node} {c : Option Nat × PInput F} {b b' : Bindings F}
    (h : MeetsFirst env node c b b') : Meets env node c b b' := by
  obtain ⟨name, hname, hi, hmeets, -⟩ := h
  exact ⟨name, hname, hi, hmeets⟩

mutual

theorem matchNode_iff {p : PNode F} {node : Node} {out out' : PatternMatch F}
    (hnode : node ∈ g.nodes) :
    matchNode env (buildGraphConnectivity g) already p node out = some out' ↔
      ∃ a : Assignment, a.node = node ∧
        Realizes (firstRules env g) already p a out.bindings out'.bindings ∧
        out'.nodeIndices = noteNodes out.nodeIndices (a.keyed p out.allNodes.length) := by
  cases p with
  | mk opType domain cs cap edges =>
    have hlength : ∀ checked : PatternMatch F, checkInputs env node cs out = some checked →
        (checked.commit (captureName opType cap out) node).allNodes.length =
          out.allNodes.length + 1 := by
      intro checked hchecked
      simp [PatternMatch.commit, allNodes_checkInputs hchecked]
    rw [matchNode_eq_some]
    constructor
    · rintro ⟨hfree, hnew, hop, hdomain, checked, hchecked, hedges⟩
      obtain ⟨as, has, hnodes⟩ := (matchEdges_iff hnode).1 hedges
      obtain ⟨hmeets, hkept⟩ := (checkInputs_eq_some g).1 hchecked
      refine ⟨.mk node as, rfl, ?_, ?_⟩
      · exact ⟨hfree, hnew, hop, hdomain, checked.bindings, hmeets, has⟩
      · rw [hnodes, hlength checked hchecked]
        show noteNodes (Function.update checked.nodeIndices _ _) _ = _
        rw [hkept]
        rfl
    · rintro ⟨⟨_, as⟩, rfl, hreal, hnodes⟩
      obtain ⟨hfree, hnew, hop, hdomain, mid, hmeets, has⟩ := hreal
      have hchecked : checkInputs env _ cs out = some (toMatch mid out.nodeIndices) :=
        (checkInputs_eq_some g).2 ⟨hmeets, rfl⟩
      refine ⟨hfree, hnew, hop, hdomain, _, hchecked, (matchEdges_iff hnode).2 ⟨as, has, ?_⟩⟩
      rw [hnodes, hlength _ hchecked]
      rfl

theorem matchEdges_iff {es : PEdges F} {node : Node} {out out' : PatternMatch F}
    (hnode : node ∈ g.nodes) :
    matchEdges env (buildGraphConnectivity g) already node es out = some out' ↔
      ∃ as : Assignments,
        RealizesEdges (firstRules env g) already node es as out.bindings out'.bindings ∧
        out'.nodeIndices = noteNodes out.nodeIndices (as.keyed es out.allNodes.length) := by
  cases es with
  | nil =>
    rw [matchEdges, Option.some.injEq, eq_iff_bindings]
    constructor
    · rintro ⟨hb, hn⟩
      exact ⟨.nil, hb, hn⟩
    · rintro ⟨as, has, hn⟩
      cases as with
      | nil => exact ⟨has, hn⟩
      | skip as => exact has.elim
      | take a as => exact has.elim
  | cons dir i child optional rest =>
    -- the child at the end of the edge, by the induction hypothesis
    have hchild : ∀ longer : PatternMatch F,
        ((followEdge (buildGraphConnectivity g) node dir i child).bind fun c =>
            matchNode env (buildGraphConnectivity g) already child c out) = some longer ↔
          ∃ a : Assignment, JoinsFirst g node dir i child a.node ∧
            Realizes (firstRules env g) already child a out.bindings longer.bindings ∧
            longer.nodeIndices =
              noteNodes out.nodeIndices (a.keyed child out.allNodes.length) := by
      intro longer
      rw [Option.bind_eq_some_iff]
      constructor
      · rintro ⟨c, hfollow, hmatch⟩
        obtain ⟨a, rfl, ha⟩ := (matchNode_iff (followEdge_mem hfollow)).1 hmatch
        exact ⟨a, (followEdge_eq_some hnode).1 hfollow, ha⟩
      · rintro ⟨a, hjoin, ha⟩
        exact ⟨a.node, (followEdge_eq_some hnode).2 hjoin,
          (matchNode_iff hjoin.1.1).2 ⟨a, rfl, ha⟩⟩
    have htake : ∀ (a : Assignment) (mid : Bindings F),
        Realizes (firstRules env g) already child a out.bindings mid →
        mid.nodes.length = out.allNodes.length + a.nodes.length := by
      intro a mid ha
      rw [Realizes.nodes (fun _ _ _ _ h => nodes_of_meets (meets_of_meetsFirst h)) ha,
        List.length_append]
      rfl
    constructor
    · intro h
      cases hrest : (followEdge (buildGraphConnectivity g) node dir i child).bind fun c =>
          matchNode env (buildGraphConnectivity g) already child c out with
      | none =>
        have hopt : optional = true := by
          cases optional with
          | true => rfl
          | false =>
            obtain ⟨c, longer, hfollow, hmatch, -⟩ := matchEdges_required.1 h
            rw [hfollow, Option.bind_some, hmatch] at hrest
            cases hrest
        subst hopt
        rw [matchEdges_optional, hrest, Option.getD_none] at h
        obtain ⟨as, has, hn⟩ := (matchEdges_iff hnode).1 h
        refine ⟨.skip as, ⟨rfl, fun _ a mid hjoin ha => ?_, has⟩, hn⟩
        -- an assignment of the child would have been found
        have hsome := (hchild (toMatch mid _)).2 ⟨a, hjoin, ha, rfl⟩
        rw [hrest] at hsome
        cases hsome
      | some longer =>
        have hedges : matchEdges env (buildGraphConnectivity g) already node rest longer =
            some out' := by
          cases optional with
          | true => rwa [matchEdges_optional, hrest, Option.getD_some] at h
          | false =>
            obtain ⟨c, longer', hfollow, hmatch, hedges⟩ := matchEdges_required.1 h
            rw [hfollow, Option.bind_some, hmatch] at hrest
            cases hrest
            exact hedges
        obtain ⟨a, hjoin, ha, hn⟩ := (hchild longer).1 hrest
        obtain ⟨as, has, hn'⟩ := (matchEdges_iff hnode).1 hedges
        refine ⟨.take a as, ⟨hjoin, longer.bindings, ha, has⟩, ?_⟩
        rw [hn', hn, Assignments.keyed, noteNodes_append, ← htake a longer.bindings ha]
        rfl
    · rintro ⟨as, has, hn⟩
      cases as with
      | nil => exact has.elim
      | skip as =>
        obtain ⟨rfl, hnone, has⟩ := has
        have hrest : ((followEdge (buildGraphConnectivity g) node dir i child).bind fun c =>
            matchNode env (buildGraphConnectivity g) already child c out) = none := by
          rw [Option.eq_none_iff_forall_ne_some]
          intro longer hlonger
          obtain ⟨a, hjoin, ha, -⟩ := (hchild longer).1 hlonger
          exact hnone trivial a longer.bindings hjoin ha
        rw [matchEdges_optional, hrest, Option.getD_none]
        exact (matchEdges_iff hnode).2 ⟨as, has, hn⟩
      | take a as =>
        obtain ⟨hjoin, mid, ha, has⟩ := has
        have hrest := (hchild (toMatch mid
          (noteNodes out.nodeIndices (a.keyed child out.allNodes.length)))).2 ⟨a, hjoin, ha, rfl⟩
        have hedges : matchEdges env (buildGraphConnectivity g) already node rest
            (toMatch mid (noteNodes out.nodeIndices (a.keyed child out.allNodes.length))) =
              some out' := by
          refine (matchEdges_iff hnode).2 ⟨as, has, ?_⟩
          rw [hn, Assignments.keyed, noteNodes_append, ← htake a mid ha]
          rfl
        cases optional with
        | true => rwa [matchEdges_optional, hrest, Option.getD_some]
        | false =>
          obtain ⟨c, hfollow, hmatch⟩ := Option.bind_eq_some_iff.1 hrest
          exact matchEdges_required.2 ⟨c, _, hfollow, hmatch, hedges⟩

end

theorem realizes_any_of_first {p : PNode F} {a : Assignment} {b b' : Bindings F}
    (h : Realizes (firstRules env g) already p a b b') :
    Realizes (anyRules env g) already p a b b' :=
  Realizes.mono (fun _ _ _ _ _ (hjoin : JoinsFirst ..) => hjoin.1)
    (fun _ _ _ _ hmeets => meets_of_meetsFirst hmeets) id h

end

end PatternAssignmentsLemmas

/-! ## Matches of a pattern -/

open PatternAssignmentsLemmas

section

variable {F : Type} [FloatOps F]

/-- An anchor matches exactly when it starts an assignment by the rules of the descent: upstream
to the producer, downstream to the only reader, or to the first one with the op type of a
terminal child; a constraint on any input takes the first input it can; an optional edge is left
out only when its child cannot be assigned behind what is assigned before it. -/
theorem matchPattern_iff (env : MatchEnv F) {g : Graph} (already : List Node) {anchor : Node}
    (pattern : PNode F) (hanchor : anchor ∈ g.nodes) :
    (matchPattern env (buildGraphConnectivity g) already anchor pattern).isSome ↔
      ∃ a b, a.node = anchor ∧ Realizes (firstRules env g) already pattern a {} b := by
  rw [Option.isSome_iff_exists]
  constructor
  · rintro ⟨m, hm⟩
    obtain ⟨a, ha, hreal, -⟩ := (matchNode_iff hanchor).1 hm
    exact ⟨a, m.bindings, ha, hreal⟩
  · rintro ⟨a, b, ha, hreal⟩
    exact ⟨toMatch b _, (matchNode_iff hanchor).2 ⟨a, ha, hreal, rfl⟩⟩

/-- A match is an assignment: its nodes are distinct nodes of the graph that were not matched
before, every edge that is taken joins them, constraints hold, and the captures are those of the
assignment alone, a name standing for the last node that is captured under it. -/
theorem matchPattern_sound {env : MatchEnv F} {g : Graph} {already : List Node} {anchor : Node}
    {pattern : PNode F} {m : PatternMatch F} (hanchor : anchor ∈ g.nodes)
    (h : matchPattern env (buildGraphConnectivity g) already anchor pattern = some m) :
    ∃ a b, a.node = anchor ∧ Realizes (anyRules env g) already pattern a {} b ∧
      m.allNodes = a.nodes ∧ m.allNodes.Nodup ∧
      (∀ n ∈ m.allNodes, n ∈ g.nodes ∧ n ∉ already) ∧
      m.valueNames = b.valueNames ∧ m.scalarValues = b.scalarValues ∧
      ∀ key, m.nodeIndices key = lastUnder (a.keyed pattern 0) key := by
  obtain ⟨hnodup, -, hmem⟩ := matchPattern_spec hanchor h
  obtain ⟨a, ha, hreal, hn⟩ := (matchNode_iff hanchor).1 h
  have hany := realizes_any_of_first hreal
  refine ⟨a, m.bindings, ha, hany, ?_, hnodup, hmem, rfl, rfl, fun key => ?_⟩
  · exact Realizes.nodes (fun _ _ _ _ h => nodes_of_meets h) hany
  · rw [hn, noteNodes_apply, Option.or_eq_left_of_none rfl]
    rfl

end

/-! ## What a descent does not find -/

/-- Nothing is an initializer. -/
def noInitializers : MatchEnv Rat where
  initializers := fun _ => none
  valueInfo := fun _ => none

/-- A `Sigmoid` with several readers, two of them `Mul`s. -/
def fanOut : Graph :=
  Graph.ofNodes
    [{ id := 0, opType := "Sigmoid", inputs := [some "x"], outputs := [some "s"] },
     { id := 1, opType := "Mul", inputs := [some "s", some "y"], outputs := [some "p"] },
     { id := 2, opType := "Mul", domain := "d", inputs := [some "s", some "p"],
       outputs := [some "q"] },
     { id := 3, opType := "Relu", inputs := [some "p"], outputs := [some "r"] },
     { id := 4, opType := "Add", inputs := [some "s", some "s"], outputs := [some "t"] }]
    ["x", "y"] ["q", "r", "t"] (by decide) (by decide) (by decide) (by decide)

/-- The anchor starts an assignment by the rules of the graph, and the descent finds none. -/
def Missed (anchor : Node) (pattern : PNode Rat) : Prop :=
  (matchPattern noInitializers (buildGraphConnectivity fanOut) [] anchor pattern).isSome = false ∧
    ∃ a b, a.node = anchor ∧ Realizes (anyRules noInitializers fanOut) [] pattern a {} b

theorem greedy_incomplete :
    -- the first reader with the op type of a terminal child is in another domain
    Missed fanOut.nodes[0]
      ((PNode.op "Sigmoid").downstream 0 (.mk "Mul" "d" [] "" .nil) false) ∧
    -- the child has an edge of its own, and the value several readers
    Missed fanOut.nodes[0]
      ((PNode.op "Sigmoid").downstream 0 ((PNode.op "Mul").downstream 0 (.op "Relu") false)
        false) ∧
    -- the optional edge takes the node that the required one needs
    Missed fanOut.nodes[4]
      (((PNode.op "Add").upstream 0 (.op "Sigmoid") true).upstream 1 (.op "Sigmoid") false) ∧
    -- the first input that passes is captured, and is not the second one
    Missed fanOut.nodes[2]
      (((PNode.op "Mul").input none (.predicate "k" fun _ _ _ _ => true)).input (some 1)
        (.sameAs "k")) ∧
    -- a constraint without a form for any input
    Missed fanOut.nodes[3] ((PNode.op "Relu").input none .any) := by
  refine ⟨⟨by decide, .mk fanOut.nodes[0] (.take (.mk fanOut.nodes[2] .nil) .nil), ?_⟩,
    ⟨by decide, .mk fanOut.nodes[0]
      (.take (.mk fanOut.nodes[1] (.take (.mk fanOut.nodes[3] .nil) .nil)) .nil), ?_⟩,
    ⟨by decide, .mk fanOut.nodes[4] (.skip (.take (.mk fanOut.nodes[0] .nil) .nil)), ?_⟩,
    ⟨by decide, .mk fanOut.nodes[2] .nil, ?_⟩, ⟨by decide, .mk fanOut.nodes[3] .nil, ?_⟩⟩
  · exact ⟨_, rfl, by decide, by decide, rfl, Or.inl rfl, _, rfl,
      ⟨by decide, "s", by decide, by decide⟩, _,
      ⟨by decide, by decide, rfl, Or.inr rfl, _, rfl, rfl⟩, rfl⟩
  · exact ⟨_, rfl, by decide, by decide, rfl, Or.inl rfl, _, rfl,
      ⟨by decide, "s", by decide, by decide⟩, _,
      ⟨by decide, by decide, rfl, Or.inl rfl, _, rfl, ⟨by decide, "p", by decide, by decide⟩, _,
        ⟨by decide, by decide, rfl, Or.inl rfl, _, rfl, rfl⟩, rfl⟩, rfl⟩
  · exact ⟨_, rfl, by decide, by decide, rfl, Or.inl rfl, _, rfl, rfl, False.elim,
      ⟨by decide, "s", by decide, by decide⟩, _,
      ⟨by decide, by decide, rfl, Or.inl rfl, _, rfl, rfl⟩, rfl⟩
  · exact ⟨_, rfl, by decide, by decide, rfl, Or.inl rfl, _,
      ⟨_, ⟨"p", by decide, by simp, .predicate rfl⟩, _, ⟨"p", by decide, by decide, .sameAs rfl⟩,
        rfl⟩, rfl⟩
  · exact ⟨_, rfl, by decide, by decide, rfl, Or.inl rfl, _,
      ⟨_, ⟨"p", by decide, by simp, .any⟩, rfl⟩, rfl⟩

/-- A `Sigmoid` and a `Mul` behind it, both captured as `n`. -/
def sharedCapture : PNode Rat :=
  ((PNode.op "Sigmoid").as "n").downstream 0 ((PNode.op "Mul").as "n") false

theorem sharedCapture_assigned :
    ∃ a b, a.node = fanOut.nodes[0] ∧
      Realizes (firstRules noInitializers fanOut) [] sharedCapture a {} b :=
  (matchPattern_iff noInitializers [] sharedCapture (by decide)).1 (by decide)

theorem sharedCapture_overwritten :
    ∃ m, matchPattern noInitializers (buildGraphConnectivity fanOut) [] fanOut.nodes[0]
        sharedCapture = some m ∧
      m.nodeIndices "n" = some fanOut.nodes[1] ∧ fanOut.nodes[1] ≠ fanOut.nodes[0] := by
  obtain ⟨m, hm, hn⟩ := Option.map_eq_some_iff.1 (show
    (matchPattern noInitializers (buildGraphConnectivity fanOut) [] fanOut.nodes[0]
      sharedCapture).map (fun m => m.nodeIndices "n") = some (some fanOut.nodes[1]) by decide)
  exact ⟨m, hm, hn, by decide⟩

theorem sharedCapture_sound :
    ∃ m a b, matchPattern noInitializers (buildGraphConnectivity fanOut) [] fanOut.nodes[0]
        sharedCapture = some m ∧
      a.node = fanOut.nodes[0] ∧
      Realizes (anyRules noInitializers fanOut) [] sharedCapture a {} b ∧
      m.allNodes = a.nodes ∧
      ∀ key, m.nodeIndices key = lastUnder (a.keyed sharedCapture 0) key := by
  obtain ⟨m, hm⟩ := Option.isSome_iff_exists.1 (show
    (matchPattern noInitializers (buildGraphConnectivity fanOut) [] fanOut.nodes[0]
      sharedCapture).isSome by decide)
  obtain ⟨a, b, ha, hreal, hnodes, -, -, -, -, hkeys⟩ := matchPattern_sound (by decide) hm
  exact ⟨m, a, b, hm, ha, hreal, hnodes, hkeys⟩

end AmdGpuEp.DirectML
