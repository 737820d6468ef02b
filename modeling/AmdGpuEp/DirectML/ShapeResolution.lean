import AmdGpuEp.DirectML.StaticEval

/-!
# The shapes of `Upsample` and `Resize`

`GetCapabilityImpl` of `dml_ep.cc`: passes over all nodes fold values and find out
the output shapes of `Upsample` and `Resize` nodes whose shape ORT does not know,
from the sizes or the scales they are given, until a pass has nothing new.

`GetInitializerFloats` reads the memory of an initializer as `float`s whatever its
type is, so the elements are given here as words too.

Results:
1. `visitNode_visit`: a visit is one of those of the evaluator.
-/

namespace AmdGpuEp.DirectML

/-! ## What a node is given -/

/-- What C++ leaves undefined besides: a conversion to `int64_t` of a number that it does not
hold, and a `float` read outside of an initializer or from halves of 16 bits. -/
structure ResizeUndefined extends Undefined where
  toInt64 : Num → Int
  rawFloat : InitializerData → Nat → Num

/-- `static_cast<int64_t>` of a `float`. -/
def castInt64 (undef : ResizeUndefined) : Num → Int
  | .fin q =>
    if -2 ^ 63 ≤ truncate q ∧ truncate q < 2 ^ 63 then truncate q else undef.toInt64 (.fin q)
  | x => undef.toInt64 x

/-- The two words of a 64-bit element, the low one first. -/
def splitWords (bits : UInt64) : List Nat :=
  [bits.toNat % 2 ^ 32, bits.toNat / 2 ^ 32]

/-- The 32-bit words of an initializer in memory. -/
def InitializerData.words : InitializerData → List Nat
  | .float bits => bits.map UInt32.toNat
  | .int64 values => values.flatMap fun v => splitWords v.toUInt64
  | .int32 values => values.map fun v => v.toUInt32.toNat
  | .double bits => bits.flatMap splitWords
  | .float16 _ => []
  | .other _ _ => []

/-- `OrtNodeAdapter::GetAttributeFloats`: empty when the attribute is missing. -/
def getAttributeFloats (node : Node) (name : String) : List Num :=
  match node.attributes.find? fun entry => entry.1 == name with
  | some (_, .floats bits) => bits.map fun b => FloatFormat.float32.decode b.toNat
  | _ => []

/-- What ORT says at the time of the shapes of the first input and the first output of a node. -/
structure PortShapes where
  input : Option (List Int)
  output : Option (List Int)

/-- `HasDynamicShape`, for an output that exists and one that does not. -/
def EvalState.hasDynamicShape (s : EvalState) (output : Option String)
    (typeDims : Option (List Int)) : Bool :=
  match output with
  | none => true
  | some name =>
    if name ≠ "" ∧ (s.resolvedShapes name).isSome then false
    else
      match typeDims with
      | none => true
      | some dims => dims.any fun d => decide (d < 0)

namespace StaticGraph

variable (undef : ResizeUndefined) (sg : StaticGraph)

/-- `GetInitializerFloats`. -/
def getInitializerFloats (name : String) (expectedCount : Nat) : List Num :=
  match sg.initializers.find? fun c => c.name == name with
  | none => []
  | some c =>
    if c.data.count ≠ expectedCount then []
    else
      (List.range c.data.count).map fun i =>
        match c.data.words[i]? with
        | some word => FloatFormat.float32.decode word
        | none => undef.rawFloat c.data i

/-- Scales of the wrong length are none. -/
def resolvedScales (s : EvalState) (name : String) (rank : Nat) : List Num :=
  match s.resolvedValues name with
  | some values => if values.length = rank then values else []
  | none => []

def readScales (s : EvalState) (name : String) (rank : Nat) : List Num :=
  let scales := sg.getInitializerFloats undef name rank
  if scales ≠ [] then scales else resolvedScales s name rank

/-- The name of an input that is there. -/
def inputName (node : Node) (i : Nat) : Option String :=
  (getNodeInputNames node)[i]?.filter fun name => name != ""

def scalesIdx (node : Node) : Nat :=
  if node.opType = "Upsample" ∨ node.inputs.length = 2 then 1 else 2

def sizesIdx (node : Node) : Option Nat :=
  if node.opType = "Resize" ∧ 4 ≤ node.inputs.length then some 3 else none

/-- What has been found for a node: scales, or the dimensions of the output. -/
structure Found where
  scales : List Num := []
  outDims : List Int := []

/-- The scales of the attribute, or else the sizes, or else the scales of an input. -/
def givenOperand (s : EvalState) (node : Node) (rank : Nat) : Found :=
  let scales := if node.opType = "Upsample" ∧ node.inputs.length = 1
    then getAttributeFloats node "scales" else []
  if scales ≠ [] then { scales }
  else
    let sizes := (((sizesIdx node).bind (inputName node)).map
      fun name => sg.getInitializerFloats undef name rank).getD []
    if sizes ≠ [] then { outDims := sizes.map (castInt64 undef) }
    else { scales := ((inputName node (scalesIdx node)).map
      fun name => sg.readScales undef s name rank).getD [] }

/-- One node of the backward walk, and whether it has recorded a value. -/
def walkStep (p : EvalState × Bool) (pending : Node × String) : EvalState × Bool :=
  (p.1.record pending.2 (p.1.walkNode pending.1), p.2 || (p.1.walkNode pending.1).isSome)

/-- The walk from the scales, for a node that nothing has been found for. -/
def walkScales (s : EvalState) (node : Node) (rank : Nat) (found : Found) :
    (EvalState × Bool) × Found :=
  if found.scales ≠ [] ∨ found.outDims ≠ [] then ((s, false), found)
  else
    match node.inputs[scalesIdx node]?.join with
    | none => ((s, false), found)
    | some name =>
      let walked := (sg.evalStack s 5 name).reverse.foldl walkStep (s, false)
      (walked, { found with scales := resolvedScales walked.1 name rank })

/-- The last attempt. -/
def laterScales (s : EvalState) (node : Node) (rank : Nat) (found : Found) : Found :=
  if found.scales ≠ [] ∨ found.outDims ≠ [] then found
  else if node.opType = "Resize" ∧ 3 ≤ node.inputs.length then
    { found with
      scales := ((inputName node 2).map fun name => sg.readScales undef s name rank).getD [] }
  else found

/-- `in_dims[d] * scales[d]`, converted. -/
def scaledDim (dim : Int) (scale : Num) : Int :=
  castInt64 undef (FloatFormat.float32.mul (FloatFormat.float32.round dim) scale)

def outputDims (inDims : List Int) (found : Found) : List Int :=
  if found.outDims = [] ∧ found.scales.length = inDims.length then
    List.zipWith (scaledDim undef) inDims found.scales
  else found.outDims

/-- What is found for an `Upsample` or `Resize` with an input of these dimensions: the state behind
the walk, whether the walk has recorded a value, and the output shape, empty when there is none. -/
def resolveDims (s : EvalState) (node : Node) (inDims : List Int) :
    (EvalState × Bool) × List Int :=
  let walked := sg.walkScales s node inDims.length (sg.givenOperand undef s node inDims.length)
  (walked.1,
    outputDims undef inDims (sg.laterScales undef walked.1.1 node inDims.length walked.2))

/-- The `Cast` that the output shape is handed on to: the first one that reads the output. -/
def castBehind (output : String) : Option Node :=
  sg.graph.nodes.find? fun c =>
    c.opType == "Cast" && (getNodeInputNames c).head? == some output

/-- The shapes that a resolution writes. -/
def writtenShapes (node : Node) (outDims : List Int) : List (String × List Int) :=
  let output := (getNodeOutputNames node).headD ""
  ((node.outputs.head?.join.toList ++
    ((sg.castBehind output).map Node.outputNames).getD []).map fun name => (name, outDims))

/-- One node in a pass, and whether it sets `changed`. -/
def visitNode (s : EvalState) (node : Node) (ports : PortShapes) : EvalState × Bool :=
  if node.outputs = [] then (s, false)
  else if sg.shouldEvaluate s node then
    let values := s.evalNode undef.toUndefined node ports.input
    (s.record ((getNodeOutputNames node).headD "") values, values.isSome)
  else if s.hasDynamicShape node.outputs.head?.join ports.output = false then (s, false)
  else if node.opType = "Upsample" ∨ node.opType = "Resize" then
    let inDims := s.getStaticDims ((getNodeInputNames node).headD "") ports.input
    if inDims = [] then (s, false)
    else
      let (walked, outDims) := sg.resolveDims undef s node inDims
      if outDims = [] then walked
      else (walked.1.writeShapes (sg.writtenShapes node outDims), true)
  else (s, false)

/-! ## The loop -/

/-- One pass over all nodes. -/
def resolvePass (ports : Node → PortShapes) (s : EvalState) : EvalState × Bool :=
  sg.graph.nodes.foldl
    (fun p node =>
      let visited := sg.visitNode undef p.1 node (ports node)
      (visited.1, p.2 || visited.2))
    (s, false)

/-- The passes until one changes nothing, from the `k`-th on, or `none` when `fuel` passes are not
enough. -/
def resolveLoop (ports : Nat → Node → PortShapes) : Nat → Nat → EvalState → Option EvalState
  | 0, _, _ => none
  | fuel + 1, k, s =>
    let passed := sg.resolvePass undef (ports k) s
    if passed.2 then resolveLoop ports fuel (k + 1) passed.1 else some passed.1

end StaticGraph

/-! ## Visits of the evaluator -/

namespace ShapeResolutionLemmas

variable {undef : ResizeUndefined} {sg : StaticGraph} {s : EvalState} {node : Node}

theorem walkStep_fst (pendings : List (Node × String)) (p : EvalState × Bool) :
    (pendings.foldl StaticGraph.walkStep p).1 =
      pendings.foldl (fun s pending => s.record pending.2 (s.walkNode pending.1)) p.1 := by
  induction pendings generalizing p with
  | nil => rfl
  | cons pending pendings ih => exact ih _

/-- The walk is that of the evaluator, if there is one. -/
theorem walkScales_fst (sg : StaticGraph) (s : EvalState) (node : Node) (rank : Nat)
    (found : StaticGraph.Found) :
    ∃ scales : Option String,
      (sg.walkScales s node rank found).1.1 = scales.elim s (sg.backwardWalk s) := by
  unfold StaticGraph.walkScales
  split
  · exact ⟨none, rfl⟩
  · split
    · exact ⟨none, rfl⟩
    · next name _ => exact ⟨some name, walkStep_fst _ _⟩

theorem shouldEvaluate_of_outputs_nil (h : node.outputs = []) :
    sg.shouldEvaluate s node = false := by
  unfold StaticGraph.shouldEvaluate getNodeOutputNames
  rw [h]
  rfl

@[simp] theorem resolvedValues_writeShapes (shapes : List (String × List Int)) (s : EvalState) :
    (s.writeShapes shapes).resolvedValues = s.resolvedValues := by
  induction shapes generalizing s with
  | nil => rfl
  | cons entry shapes ih => exact ih _

theorem resolvedShapes_writeShapes (written : List String) (dims : List Int) (s : EvalState)
    (name : String) :
    (s.writeShapes (written.map fun n => (n, dims))).resolvedShapes name =
      if name ∈ written then some dims else s.resolvedShapes name := by
  induction written generalizing s with
  | nil => rfl
  | cons first written ih =>
    show (EvalState.writeShapes _ (written.map fun n => (n, dims))).resolvedShapes name = _
    rw [ih]
    show (if name ∈ written then some dims
      else Function.update s.resolvedShapes first (some dims) name) = _
    by_cases hmem : name ∈ written
    · rw [if_pos hmem, if_pos (List.mem_cons_of_mem _ hmem)]
    · rw [if_neg hmem]
      by_cases hfirst : name = first
      · rw [hfirst, Function.update_self, if_pos (List.mem_cons_self ..)]
      · rw [Function.update_of_ne hfirst, if_neg]
        exact fun h => (List.mem_cons.1 h).elim hfirst hmem

/-- The names that get the shape of a resolved output. -/
theorem writtenShapes_eq (outDims : List Int) :
    sg.writtenShapes node outDims = (node.outputs.head?.join.toList ++
      ((sg.castBehind ((getNodeOutputNames node).headD "")).map Node.outputNames).getD []).map
        fun name => (name, outDims) :=
  rfl

end ShapeResolutionLemmas

open ShapeResolutionLemmas

/-- A visit is one of those of the evaluator. -/
theorem visitNode_visit (undef : ResizeUndefined) (sg : StaticGraph) (s : EvalState) (node : Node)
    (ports : PortShapes) : ∃ v : StaticGraph.Visit,
      (sg.visitNode undef s node ports).1 = sg.visit undef.toUndefined s node v := by
  have hidle : sg.shouldEvaluate s node = false → s = sg.visit undef.toUndefined s node
      { typeDims := ports.input, scales := none, shapes := [] } := by
    intro hskip
    unfold StaticGraph.visit
    rw [if_neg (by simp [hskip])]
    split <;> rfl
  unfold StaticGraph.visitNode
  split
  · next hnone => exact ⟨_, hidle (shouldEvaluate_of_outputs_nil hnone)⟩
  · split
    · next heval =>
      refine ⟨{ typeDims := ports.input, scales := none, shapes := [] }, ?_⟩
      rw [StaticGraph.visit, if_pos heval]
    · next hskip =>
      have hskip' := Bool.eq_false_iff.2 hskip
      split
      · exact ⟨_, hidle hskip'⟩
      · split
        · next hop =>
          dsimp only
          generalize s.getStaticDims ((getNodeInputNames node).headD "") ports.input = dims
          split
          · exact ⟨_, hidle hskip'⟩
          · obtain ⟨scales, hwalk⟩ := walkScales_fst sg s node dims.length
              (sg.givenOperand undef s node dims.length)
            split
            · refine ⟨{ typeDims := ports.input, scales, shapes := [] }, ?_⟩
              rw [StaticGraph.visit, if_neg hskip, if_pos hop]
              exact hwalk
            · refine ⟨
                { typeDims := ports.input
                  scales
                  shapes := sg.writtenShapes node (sg.resolveDims undef s node dims).2 }, ?_⟩
              rw [StaticGraph.visit, if_neg hskip, if_pos hop, ← hwalk]
              rfl
        · exact ⟨_, hidle hskip'⟩

end AmdGpuEp.DirectML
