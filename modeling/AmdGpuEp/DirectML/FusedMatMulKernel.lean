import AmdGpuEp.DirectML.Activations
import AmdGpuEp.DirectML.FusedMatMulCapture

/-!
# What the kernel of a FusedMatMul group computes

`FusedMatMulFusionRule::Compile` of `fused_matmul_ep_fusion.cc` reads the
captures of a match back and makes a kernel of them: the operands with their
transposes, the factor, the activation. The group that it replaces may have lost
nodes to the exclusion pass since the match was captured.

Results:
1. `FusedGraph.of_slots`: whether a list of values can be the inputs of a fused
   subgraph is decided by the slots of its nodes.
-/

namespace AmdGpuEp.DirectML.FusedMatMul

/-! ## `Compile` -/

deriving instance DecidableEq for Input

/-- A value for each input. -/
def Input.pick {α : Type*} (x y : α) : Input → α
  | .a => x
  | .b => y

/-- What `Compile` reads of the fused subgraph: its nodes and the names of its inputs. -/
structure FusedGraph where
  nodes : List Node
  inputs : List String

/-- `FusedMatMulKernelState`. The initializer that is uploaded is given by its side and its name. -/
structure KernelState where
  transposes : Input → TransposeInfo
  alpha : Rat
  activation : Option Activation
  attrs : ActivationAttrs
  graphInputIdx : Input → Nat
  initializer : Option (Input × String)

namespace FusedGraph

/-- `find_graph_input`. -/
def findGraphInput (s : FusedGraph) (name : String) : Option Nat :=
  s.inputs.findIdx? (· == name)

/-- `matmul_a_name` and `matmul_b_name`. -/
def matmulInput (s : FusedGraph) (i : Input) : String :=
  ((s.nodes.find? fun n => n.opType == "MatMul").bind fun n =>
    (getNodeInputNames n)[i.index]?).getD ""

/-- `idx_a` and `idx_b`: the input of the `MatMul`, or else the source of its transpose. -/
def operandIdx (s : FusedGraph) (m : PatternMatch Rat) (i : Input) : Option Nat :=
  match s.findGraphInput (s.matmulInput i) with
  | some idx => some idx
  | none =>
    let source := m.valueName i.side.sourceKey
    if source = "" then none else s.findGraphInput source

/-- `resolved_a_idx` and `resolved_b_idx`, and the side that is taken for an initializer. -/
def resolve (s : FusedGraph) (m : PatternMatch Rat) : (Input → Nat) × Option Input :=
  let second := if 2 ≤ s.inputs.length then 1 else 0
  match s.operandIdx m .a, s.operandIdx m .b with
  | some a, some b => (Input.pick a b, none)
  | some a, none => (Input.pick a second, some .b)
  | none, some b => (Input.pick 0 b, some .a)
  | none, none => (Input.pick 0 second, none)

end FusedGraph

/-- The scalar of an initializer that is found under the name. -/
def readConstant (env : MatchEnv Rat) (name : String) : Option Rat :=
  if name = "" then none else (env.initializers name).bind tryReadScalarFloat

/-- The factor: a divisor of 0 is passed over. -/
def scaleAlpha (env : MatchEnv Rat) (m : PatternMatch Rat) : Rat :=
  let alpha := (readConstant env (m.valueName "FusedMatMul.scale_name")).getD 1
  match readConstant env (m.valueName "FusedMatMul.scale_div_name") with
  | some v => if v ≠ 0 then 1 / v else alpha
  | none => alpha

/-- The first activation that is captured. -/
def detectActivation (m : PatternMatch Rat) : Option Activation :=
  Activation.all.find? fun a => (m.nodeIndices a.key).isSome

/-- A batch transpose needs operands of one rank, 3 or more. -/
def batchDisabled (rank : Input → Nat) : Bool :=
  decide (rank .a < 3 ∨ rank .a ≠ rank .b)

/-- Sizes that are all known are compiled at once, and this fails when they do not fit. -/
def eagerFails (aDims bDims : List Int) (infoA infoB : TransposeInfo) : Bool :=
  let sizes := fun dims : List Int => dims.map fun d => d.toNat % 2 ^ 32
  (aDims ++ bDims).all (fun d => 0 < d) && decide (2 ≤ aDims.length) &&
    decide (2 ≤ bDims.length) && (prepareGemmShapes (sizes aDims) (sizes bDims) infoA infoB).isNone

/-- `Compile`. The calls of the device are taken to succeed. -/
def compile (decode : UInt32 → Rat) (env : MatchEnv Rat) (s : FusedGraph) (m : PatternMatch Rat) :
    Option KernelState :=
  if s.inputs.length < 1 then none
  else
    let flags := fun i : Input => transposeFlags m i.side
    let (idx, initializerSide) := s.resolve m
    let valueInfo := fun i => s.inputs[idx i]?.bind env.valueInfo
    let dims := fun i => ((valueInfo i).map TensorInfo.dims).getD []
    let disable := ((flags .a).isTransBatch || (flags .b).isTransBatch) &&
      batchDisabled fun i => (dims i).length
    let transposes := fun i =>
      { flags i with isTransBatch := (flags i).isTransBatch && !disable }
    if (valueInfo .a).all fun info => info.elemType ≠ .float ∧ info.elemType ≠ .float16 then none
    else if initializerSide.any fun i => (env.initializers (s.matmulInput i)).isNone then none
    else if eagerFails (dims .a) (dims .b) (transposes .a) (transposes .b) then none
    else
      some
        { transposes
          alpha := scaleAlpha env m
          activation := detectActivation m
          attrs := s.nodes.foldl (readActivationAttrs decode) {}
          graphInputIdx := idx
          initializer := initializerSide.map fun i => (i, s.matmulInput i) }

namespace KernelState

/-- The value that the kernel binds as an operand. -/
def operand (k : KernelState) (s : FusedGraph) (i : Input) : Option String :=
  match k.initializer with
  | some (side, name) => if side = i then some name else s.inputs[k.graphInputIdx i]?
  | none => s.inputs[k.graphInputIdx i]?

/-- What the GEMM makes of an element of the product. -/
noncomputable def apply (k : KernelState) (x : ℝ) : ℝ :=
  match k.activation with
  | none => k.alpha * x
  | some a => (buildActivationDesc k.attrs a).eval (k.alpha * x)

end KernelState

/-! ## What the nodes of the group compute -/

/-- What ORT makes of a group: its nodes in some order, and as inputs the values that they read from
outside. A constant initializer may be left out of these. -/
structure FusedGraph.Of (s : FusedGraph) (env : MatchEnv Rat) (group : List Node) : Prop where
  nodes : s.nodes.Perm group
  inputs_named : "" ∉ s.inputs
  inputs_read : ∀ v ∈ s.inputs,
    (∃ n ∈ group, some v ∈ n.inputs) ∧ ∀ p ∈ group, v ∉ p.outputNames
  mem_inputs : ∀ n ∈ group, ∀ v, some v ∈ n.inputs → (∀ p ∈ group, v ∉ p.outputNames) →
    env.initializers v = none → v ∈ s.inputs

/-- Whether a list of values can be the inputs is decided by the slots of the nodes. -/
theorem FusedGraph.of_slots {env : MatchEnv Rat} {group : List Node} {inputs : List String}
    (hnamed : "" ∉ inputs)
    (hread : ∀ v ∈ inputs,
      (∃ n ∈ group, some v ∈ n.inputs) ∧ ∀ p ∈ group, v ∉ p.outputNames)
    (hmem : ∀ n ∈ group, ∀ slot ∈ n.inputs, slot.all fun v =>
      group.any (fun p => v ∈ p.outputNames) || (env.initializers v).isSome || v ∈ inputs) :
    FusedGraph.Of ⟨group, inputs⟩ env group where
  nodes := .refl _
  inputs_named := hnamed
  inputs_read := hread
  mem_inputs n hn v hv hout hinit := by
    have hcheck := hmem n hn _ hv
    simp only [Option.all_some, Bool.or_eq_true, List.any_eq_true, decide_eq_true_eq,
      hinit, Option.isSome_none, Bool.false_eq_true, or_false] at hcheck
    rcases hcheck with ⟨p, hp, hw⟩ | hin
    · exact absurd hw (hout p hp)
    · exact hin

/-- An operand of the `MatMul`: the value that the group reads for it, and the transpose of the
group in between. -/
inductive Operates (group : List Node) (matmul : Node) (i : Input) : String → Option Node → Prop
  | direct {v : String} : matmul.inputs[i.index]? = some (some v) →
      (∀ p ∈ group, v ∉ p.outputNames) → Operates group matmul i v none
  | transposed {v w : String} {t : Node} : matmul.inputs[i.index]? = some (some v) →
      t ∈ group → t.opType = "Transpose" → t.inputs = [some w] → t.outputs = [some v] →
      (∀ p ∈ group, w ∉ p.outputNames) → Operates group matmul i w (some t)

/-- The axes of a value of rank `r` in the order in which the `MatMul` has them. -/
def axes (t : Option Node) (r : Nat) : List Int :=
  match t with
  | none => (List.range r).map Int.ofNat
  | some n => fullPerm r (getAttributeInts n "perm")

/-- `r` can be the rank of the value in front of the transpose, as far as the type info of the value
and the `perm` of the transpose tell. -/
def CanHaveRank (env : MatchEnv Rat) (v : String) (t : Option Node) (r : Nat) : Prop :=
  (env.rank v = 0 ∨ env.rank v = r) ∧ (axes t r).Perm ((List.range r).map Int.ofNat)

/-- From an element `x` of the product, the nodes of the group compute the element `r` of a value at
the same place. A division by 0 has no result. -/
inductive Evaluates (decode : UInt32 → Rat) (env : MatchEnv Rat) (group : List Node)
    (product : String) (x : ℝ) : String → ℝ → Prop
  | product : Evaluates decode env group product x product x
  | constant {v : String} {c : Rat} : (env.initializers v).bind tryReadScalarFloat = some c →
      Evaluates decode env group product x v c
  | mul {n : Node} {a b o : String} {p q : ℝ} : n ∈ group → n.opType = "Mul" →
      n.inputs = [some a, some b] → n.outputs = [some o] →
      Evaluates decode env group product x a p → Evaluates decode env group product x b q →
      Evaluates decode env group product x o (p * q)
  | div {n : Node} {a b o : String} {p q : ℝ} : n ∈ group → n.opType = "Div" →
      n.inputs = [some a, some b] → n.outputs = [some o] →
      Evaluates decode env group product x a p → Evaluates decode env group product x b q →
      q ≠ 0 → Evaluates decode env group product x o (p / q)
  | activation {n : Node} {k : Activation} {a o : String} {p : ℝ} : n ∈ group →
      n.opType = k.opType → n.inputs = [some a] → n.outputs = [some o] →
      Evaluates decode env group product x a p →
      Evaluates decode env group product x o (k.eval (getAttributeFloat decode n) p)

/-- The kernel computes what the nodes of the group compute: it reads the operands in the places
where the `MatMul` reads them, and gives the value of the one node that nothing in the group
reads. -/
structure Refines (decode : UInt32 → Rat) (env : MatchEnv Rat) (gc : GraphConnectivity)
    (group : List Node) (matmul : Node) (s : FusedGraph) (k : KernelState) : Prop where
  operands : ∀ i, ∃ v t, Operates group matmul i v t ∧ k.operand s i = some v ∧
    ∀ r, CanHaveRank env v t r →
      ((k.transposes i).apply (List.range r)).map Int.ofNat = axes t r
  result : ∃ n ∈ group, ∃ o product, n.outputs = [some o] ∧ matmul.outputs = [some product] ∧
    (∀ n' ∈ group, isTerminal gc group n' = true ↔ n' = n) ∧
    ∀ x, Evaluates decode env group product x o (k.apply x)

/-- The condition under which the kernel is right. -/
structure Faithful (decode : UInt32 → Rat) (env : MatchEnv Rat) (gc : GraphConnectivity)
    (c : Candidate Rat) : Prop where
  absorbed : ∀ i : Input, ∀ t, c.found.nodeIndices i.side.idxKey = some t → t ∈ c.group gc →
    (transposeInfoOf t).isTransBatch = true → ∀ w, t.inputs = [some w] → env.rank w ≠ 0
  excluded : ∀ i : Input, ∀ t, c.found.nodeIndices i.side.idxKey = some t → t ∉ c.group gc →
    (transposeInfoOf t).isTrans = false ∧
      ((transposeInfoOf t).isTransBatch = true → ∀ v, t.outputs = [some v] → env.rank v = 0)
  scale : ∀ isDiv n, c.found.nodeIndices (scaleNodeKey isDiv) = some n → n ∈ c.group gc
  divisor : readConstant env (c.found.valueName "FusedMatMul.scale_div_name") ≠ some 0
  activation : ∀ a a' : Activation, (c.found.nodeIndices a.key).isSome →
    (c.found.nodeIndices a'.key).isSome → a = a'
  selu : ∀ n, c.found.nodeIndices Activation.selu.key = some n →
    getAttributeFloat decode n "gamma" 1.05070102 = 0 ∧
      (getAttributeFloat decode n "alpha" 1.67326319 = 0 ∨
        readConstant env (c.found.valueName "FusedMatMul.scale_name") = some 0)

/-- What a model gives to the rule: beside the arities, transposes whose `perm` permutes the axes of
their values, and no initializer without a name. -/
structure MatMulGraph (env : MatchEnv Rat) (g : Graph) : Prop extends
    ModelGraph ("Transpose" :: activations.map Prod.fst) ["MatMul", "Mul", "Div"] env g where
  transposes : ∀ n ∈ g.nodes, n.opType = "Transpose" →
    ∃ r, (fullPerm r (getAttributeInts n "perm")).Perm ((List.range r).map Int.ofNat) ∧
      ∀ v, some v ∈ n.inputs ∨ some v ∈ n.outputs → env.rank v = 0 ∨ env.rank v = r
  named : env.initializers "" = none

end AmdGpuEp.DirectML.FusedMatMul
