import AmdGpuEp.DirectML.OnnxOperators

/-!
# The static evaluator of the Tier-0 partitioner

`GetCapabilityImpl` of `dml_ep.cc`: `resolved_values` is seeded from the
initializers, and nodes are folded over it while groups are claimed, forwards in
the passes over all nodes and backwards from the scales of an `Upsample` or
`Resize`. Its values are single-precision numbers without a shape.

What C++ leaves undefined (a conversion of a number to an integer that does not
hold it, a read outside of a vector) is a parameter. The resolution of `Upsample`
and `Resize` is here as far as it reaches the values: which shapes it writes is
left open.

Results:
1. `backwardWalk_run`, `visit_run`: the loops of the source are runs of the
   machine of single recordings.
2. `evaluator_run`: so is the whole evaluation, from the seeds to the last node.
-/

namespace AmdGpuEp.DirectML

/-! ## Initializers -/

/-- The elements of an initializer, as they are stored. -/
inductive InitializerData
  | float (bits : List UInt32)
  | int64 (values : List Int64)
  | int32 (values : List Int32)
  | float16 (bits : List UInt16)
  | double (bits : List UInt64)
  | other (elemType : OnnxDataType) (count : Nat)
  deriving DecidableEq, Repr

namespace InitializerData

def count : InitializerData → Nat
  | .float xs => xs.length
  | .int64 xs => xs.length
  | .int32 xs => xs.length
  | .float16 xs => xs.length
  | .double xs => xs.length
  | .other _ n => n

/-- The bits that are put together for a half. A subnormal half becomes a normal number. -/
def halfToFloat (h : UInt16) : Nat :=
  let sign := (h.toNat >>> 15) &&& 1
  let exp := (h.toNat >>> 10) &&& 0x1F
  let man := h.toNat &&& 0x3FF
  if exp = 0 then sign <<< 31 ||| (if man ≠ 0 then man <<< 13 ||| 0x38000000 else 0)
  else if exp = 31 then sign <<< 31 ||| 0x7F800000 ||| man <<< 13
  else sign <<< 31 ||| (exp + 112) <<< 23 ||| man <<< 13

/-- The seeds of an initializer with one of the types that are read. -/
def seeds : InitializerData → Option (List Num)
  | .float bits => some (bits.map fun b => FloatFormat.float32.decode b.toNat)
  | .int64 values => some (values.map fun v => FloatFormat.float32.round v.toInt)
  | .int32 values => some (values.map fun v => FloatFormat.float32.round v.toInt)
  | .float16 bits => some (bits.map fun h => FloatFormat.float32.decode (halfToFloat h))
  | .double bits => some (bits.map fun b =>
      FloatFormat.float32.convert (FloatFormat.float64.decode b.toNat))
  | .other _ _ => none

end InitializerData

/-- An entry of `m_graphInitializerMap`. -/
structure ConstantTensor where
  name : String
  dims : List Nat
  data : InitializerData
  count_eq : data.count = dims.prod

/-- What the evaluator is given. Initializers that are graph inputs too are in the map. -/
structure StaticGraph where
  graph : Graph
  initializers : List ConstantTensor
  cpuPreferredNodes : Nat → Bool

/-! ## The operators -/

/-- What C++ leaves undefined. -/
structure Undefined where
  toInt : Num → Int
  read : List Num → Int → Num

section

variable (undef : Undefined)

/-- `static_cast<int>` of a `float`. -/
def castInt : Num → Int
  | .fin q =>
    if -2 ^ 31 ≤ truncate q ∧ truncate q < 2 ^ 31 then truncate q else undef.toInt (.fin q)
  | x => undef.toInt x

/-- `static_cast<int>` of a size. -/
def sizeInt (n : Nat) : Int :=
  (n : Int).bmod (2 ^ 32)

def readAt (data : List Num) (i : Int) : Num :=
  if 0 ≤ i ∧ i < data.length then data.getD i.toNat .nan else undef.read data i

/-- An index that is still out of range after one turn is passed over. -/
def gatherValues (data indices : List Num) : List Num :=
  indices.filterMap fun idx =>
    let i := castInt undef idx
    let i := if i < 0 then i + sizeInt data.length else i
    if 0 ≤ i ∧ i < sizeInt data.length then some (data.getD i.toNat .nan) else none

def sliceValues (data : List Num) (start stop : Num) : List Num :=
  let size := sizeInt data.length
  let s := castInt undef start
  let e := castInt undef stop
  let s := if s < 0 then s + size else s
  let e := if e < 0 then e + size else e
  let e := if size < e then size else e
  (List.range (e - s).toNat).map fun (i : Nat) => readAt undef data (s + i)

/-- Two vectors, the shorter one repeated. -/
def cyclicPairs (a b : List Num) : List (Num × Num) :=
  (List.range (max a.length b.length)).map fun i =>
    (a.getD (i % a.length) .nan, b.getD (i % b.length) .nan)

def mulValue (x y : Num) : Num :=
  FloatFormat.float32.mul x y

def divValue (x y : Num) : Num :=
  if y ≠ .fin 0 then FloatFormat.float32.div x y else .fin 0

/-- A vector that is recorded when it is not empty. -/
def nonEmpty (values : List Num) : Option (List Num) :=
  if values ≠ [] then some values else none

/-! ## State -/

structure EvalState where
  resolvedValues : String → Option (List Num) := fun _ => none
  resolvedShapes : ResolvedShapes := fun _ => none

namespace EvalState

variable (s : EvalState)

def record (name : String) (values : Option (List Num)) : EvalState :=
  match values with
  | some values => { s with resolvedValues := Function.update s.resolvedValues name (some values) }
  | none => s

/-- `GetStaticDims`, for a value of this name whose type has these dimensions. No dimensions are
found for a scalar. -/
def getStaticDims (name : String) (typeDims : Option (List Int)) : List Int :=
  let resolved := if name = "" then [] else (s.resolvedShapes name).getD []
  match typeDims with
  | some dims => if dims ≠ [] ∧ ∀ d ∈ dims, 0 ≤ d then dims else resolved
  | none => resolved

/-! ## One node -/

def evalShape (names : List String) (typeDims : Option (List Int)) : Option (List Num) :=
  match names with
  | input :: _ =>
    nonEmpty ((s.getStaticDims input typeDims).map fun (d : Int) => FloatFormat.float32.round d)
  | [] => none

def evalGather : List String → Option (List Num)
  | data :: indices :: _ =>
    match s.resolvedValues data, s.resolvedValues indices with
    | some data, some indices => nonEmpty (gatherValues undef data indices)
    | _, _ => none
  | _ => none

def evalCast : List String → Option (List Num)
  | input :: _ => s.resolvedValues input
  | [] => none

/-- The starts and the ends: inputs, or else attributes. -/
def sliceOperands (node : Node) : Option (List Num × List Num) :=
  let inputs :=
    match getNodeInputNames node with
    | _ :: starts :: ends :: _ => (s.resolvedValues starts, s.resolvedValues ends)
    | _ => (none, none)
  let floats := fun values : List Int => values.map fun (v : Int) => FloatFormat.float32.round v
  match inputs with
  | (some starts, some ends) => some (starts, ends)
  | (_, _) =>
    if getAttributeInts node "starts" ≠ [] ∧ getAttributeInts node "ends" ≠ [] then
      some (floats (getAttributeInts node "starts"), floats (getAttributeInts node "ends"))
    else none

/-- Axes, steps and all bounds but the first are not read. -/
def evalSlice (node : Node) : Option (List Num) :=
  match getNodeInputNames node with
  | input :: _ =>
    match s.resolvedValues input, s.sliceOperands node with
    | some data, some (start :: _, stop :: _) => nonEmpty (sliceValues undef data start stop)
    | _, _ => none
  | [] => none

def evalBinary (op : Num → Num → Num) : List String → Option (List Num)
  | a :: b :: _ =>
    match s.resolvedValues a, s.resolvedValues b with
    | some a, some b => some ((cyclicPairs a b).map fun p => op p.1 p.2)
    | _, _ => none
  | _ => none

def evalConcat (names : List String) : Option (List Num) :=
  (names.mapM s.resolvedValues).bind fun parts => nonEmpty parts.flatten

/-- The cases of the forward evaluation. -/
def evalNode (node : Node) (typeDims : Option (List Int)) : Option (List Num) :=
  let names := getNodeInputNames node
  if node.opType = "Shape" then s.evalShape names typeDims
  else if node.opType = "Gather" then s.evalGather undef names
  else if node.opType = "Cast" then s.evalCast names
  else if node.opType = "Slice" then s.evalSlice undef node
  else if node.opType = "Mul" then s.evalBinary mulValue names
  else if node.opType = "Div" then s.evalBinary divValue names
  else if node.opType = "Concat" then s.evalConcat names
  else none

/-- The cases of the backward walk. -/
def walkNode (node : Node) : Option (List Num) :=
  let names := getNodeInputNames node
  if node.opType = "Cast" then s.evalCast names
  else if node.opType = "Concat" then s.evalConcat names
  else if node.opType = "Div" then s.evalBinary divValue names
  else none

end EvalState

def EvalState.writeShapes (s : EvalState) (shapes : List (String × List Int)) : EvalState :=
  shapes.foldl
    (fun s e => { s with resolvedShapes := Function.update s.resolvedShapes e.1 (some e.2) }) s

/-! ## The machine -/

/-- One recording, of values or of a shape. The type of the first input of a node is what ORT says
at the time. -/
inductive EvalStep (sg : StaticGraph)
  | seed (c : ConstantTensor) (mem : c ∈ sg.initializers)
  | evaluate (node : Node) (mem : node ∈ sg.graph.nodes) (typeDims : Option (List Int))
  | walk (node : Node) (name : String) (producer : sg.graph.producer name = some node)
  | resolve (name : String) (dims : List Int)

/-- Up to 64 elements are seeded. -/
def EvalState.seed (s : EvalState) (c : ConstantTensor) : EvalState :=
  if c.data.count = 0 ∨ 64 < c.data.count then s else s.record c.name c.data.seeds

def EvalState.step {sg : StaticGraph} (s : EvalState) : EvalStep sg → EvalState
  | .seed c _ => s.seed c
  | .evaluate node _ typeDims =>
    s.record ((getNodeOutputNames node).headD "") (s.evalNode undef node typeDims)
  | .walk node name _ => s.record name (s.walkNode node)
  | .resolve name dims =>
    { s with resolvedShapes := Function.update s.resolvedShapes name (some dims) }

def EvalState.run {sg : StaticGraph} (s : EvalState) (steps : List (EvalStep sg)) : EvalState :=
  steps.foldl (EvalState.step undef) s

/-- The recordings as a machine. -/
def StaticGraph.machine (sg : StaticGraph) : Machine EvalState (EvalStep sg) Unit where
  step := fun s c => some (s.step undef c, ())

/-! ## The loops of the source -/

namespace StaticGraph

variable (sg : StaticGraph)

/-- `should_evaluate`: only while the first output is not recorded. -/
def shouldEvaluate (s : EvalState) (node : Node) : Bool :=
  match getNodeOutputNames node with
  | [] => false
  | output :: _ =>
    (s.resolvedValues output).isNone &&
      (sg.cpuPreferredNodes node.id || node.opType == "Shape" ||
        (!node.inputs.isEmpty &&
          ["Cast", "Concat", "Div", "Mul", "Gather", "Slice", "Shape"].contains node.opType &&
          (getNodeInputNames node).all fun name =>
            name == "" || (s.resolvedValues name).isSome))

/-- `eval_stack`: from a value to the producer of the first input, until a value is recorded. -/
def evalStack (s : EvalState) : Nat → String → List (Node × String)
  | 0, _ => []
  | hops + 1, name =>
    if (s.resolvedValues name).isSome then []
    else
      match sg.graph.producer name with
      | none => []
      | some producer =>
        (producer, name) ::
          match producer.inputs.head?.join with
          | some input => evalStack s hops input
          | none => []

def backwardWalk (s : EvalState) (scales : String) : EvalState :=
  (sg.evalStack s 5 scales).reverse.foldl
    (fun s pending => s.record pending.2 (s.walkNode pending.1)) s

/-- What one visit of a node in a pass meets: the type of its first input, and, for an `Upsample` or
`Resize`, the input that a backward walk starts from and the shapes that are resolved. -/
structure Visit where
  typeDims : Option (List Int)
  scales : Option String
  shapes : List (String × List Int)

def visit (s : EvalState) (node : Node) (v : Visit) : EvalState :=
  if sg.shouldEvaluate s node then
    s.record ((getNodeOutputNames node).headD "") (s.evalNode undef node v.typeDims)
  else if node.opType = "Upsample" ∨ node.opType = "Resize" then
    (v.scales.elim s (sg.backwardWalk s)).writeShapes v.shapes
  else s

/-- The whole evaluator: the seeds, in whichever order the map has them, and the visits of all
passes, with the shapes that the translation of groups exports in between. -/
def evaluator (seeds : List {c // c ∈ sg.initializers})
    (visits : List ({n // n ∈ sg.graph.nodes} × Visit × List (String × List Int))) : EvalState :=
  visits.foldl (fun s v => (sg.visit undef s v.1 v.2.1).writeShapes v.2.2)
    (seeds.foldl (fun s c => s.seed c.1) {})

end StaticGraph

namespace StaticEvalLemmas

variable {undef} {sg : StaticGraph}

@[simp] theorem run_nil (s : EvalState) : s.run undef ([] : List (EvalStep sg)) = s := rfl

theorem run_cons (s : EvalState) (c : EvalStep sg) (cs : List (EvalStep sg)) :
    s.run undef (c :: cs) = (s.step undef c).run undef cs := rfl

theorem run_append (s : EvalState) (cs cs' : List (EvalStep sg)) :
    s.run undef (cs ++ cs') = (s.run undef cs).run undef cs' := List.foldl_append

/-- A loop whose turns are steps is a run. -/
theorem exists_run_foldl (undef : Undefined) (sg : StaticGraph) {X : Type}
    (turn : EvalState → X → EvalState) (xs : List X)
    (hturn : ∀ x ∈ xs, ∀ s : EvalState, ∃ steps : List (EvalStep sg),
      s.run undef steps = turn s x) (s : EvalState) :
    ∃ steps : List (EvalStep sg), s.run undef steps = xs.foldl turn s := by
  induction xs generalizing s with
  | nil => exact ⟨[], rfl⟩
  | cons x xs ih =>
    obtain ⟨first, hfirst⟩ := hturn x (List.mem_cons_self ..) s
    obtain ⟨rest, hrest⟩ := ih (fun y hy => hturn y (List.mem_cons_of_mem _ hy)) (turn s x)
    exact ⟨first ++ rest, by rw [run_append, hfirst, hrest, List.foldl_cons]⟩

theorem producer_of_mem_evalStack {s : EvalState} {hops : Nat} {name : String}
    {pending : Node × String} (h : pending ∈ sg.evalStack s hops name) :
    sg.graph.producer pending.2 = some pending.1 := by
  induction hops generalizing name with
  | zero => cases h
  | succ hops ih =>
    unfold StaticGraph.evalStack at h
    split at h
    · cases h
    · split at h
      · cases h
      · next producer hproducer =>
        rcases List.mem_cons.1 h with rfl | hrest
        · exact hproducer
        · split at hrest
          · exact ih hrest
          · cases hrest

end StaticEvalLemmas

open StaticEvalLemmas

variable (sg : StaticGraph)

theorem backwardWalk_run (s : EvalState) (scales : String) :
    ∃ steps : List (EvalStep sg), s.run undef steps = sg.backwardWalk s scales := by
  refine exists_run_foldl undef sg _ _ (fun pending hpending s => ?_) s
  exact ⟨[.walk pending.1 pending.2 (producer_of_mem_evalStack (List.mem_reverse.1 hpending))], rfl⟩

theorem writeShapes_run (s : EvalState) (shapes : List (String × List Int)) :
    ∃ steps : List (EvalStep sg), s.run undef steps = s.writeShapes shapes :=
  exists_run_foldl undef sg _ _ (fun e _ _ => ⟨[.resolve e.1 e.2], rfl⟩) s

theorem visit_run (s : EvalState) {node : Node} (hnode : node ∈ sg.graph.nodes)
    (v : StaticGraph.Visit) :
    ∃ steps : List (EvalStep sg), s.run undef steps = sg.visit undef s node v := by
  unfold StaticGraph.visit
  split
  · exact ⟨[.evaluate node hnode v.typeDims], rfl⟩
  · split
    · cases v.scales with
      | none => exact writeShapes_run undef sg s v.shapes
      | some scales =>
        obtain ⟨walk, hwalk⟩ := backwardWalk_run undef sg s scales
        obtain ⟨write, hwrite⟩ := writeShapes_run undef sg (sg.backwardWalk s scales) v.shapes
        exact ⟨walk ++ write, by rw [run_append, hwalk, hwrite]; rfl⟩
    · exact ⟨[], rfl⟩

/-- So every state of the evaluator is one of the machine. -/
theorem evaluator_run (seeds : List {c // c ∈ sg.initializers})
    (visits : List ({n // n ∈ sg.graph.nodes} × StaticGraph.Visit × List (String × List Int))) :
    ∃ steps : List (EvalStep sg),
      EvalState.run undef {} steps = sg.evaluator undef seeds visits := by
  obtain ⟨first, hfirst⟩ := exists_run_foldl undef sg
    (fun s (c : {c // c ∈ sg.initializers}) => s.seed c.1) seeds
    (fun c _ _ => ⟨[.seed c.1 c.2], rfl⟩) {}
  obtain ⟨rest, hrest⟩ := exists_run_foldl undef sg
    (fun s (v : {n // n ∈ sg.graph.nodes} × StaticGraph.Visit × List (String × List Int)) =>
      (sg.visit undef s v.1 v.2.1).writeShapes v.2.2) visits
    (fun v _ s => by
      obtain ⟨visit, hvisit⟩ := visit_run undef sg s v.1.2 v.2.1
      obtain ⟨write, hwrite⟩ := writeShapes_run undef sg (sg.visit undef s v.1 v.2.1) v.2.2
      exact ⟨visit ++ write, by rw [run_append, hvisit, hwrite]⟩)
    (seeds.foldl (fun s c => s.seed c.1) {})
  refine ⟨first ++ rest, ?_⟩
  rw [run_append, hfirst]
  exact hrest

end

end AmdGpuEp.DirectML
