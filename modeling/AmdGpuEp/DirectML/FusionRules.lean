import AmdGpuEp.DirectML.FusionManager

/-!
# The fusion rules of the DirectML provider

The patterns of `quick_gelu_ep_fusion.cc`, `bias_gelu_ep_fusion.cc` and
`fused_matmul_ep_fusion.cc`, and what the last one reads from the graph before
the exclusion pass: `CapturePreFusionData` and `ValidateCapture`.

Results:
1. `captureSide_sublist`: capturing the transpose of a side takes at most that
   transpose out of the match.
-/

namespace AmdGpuEp.DirectML

variable {F : Type}

/-- The rank that the type info of a value gives: 0 when it is unknown. -/
def MatchEnv.rank (env : MatchEnv F) (name : String) : Nat :=
  ((env.valueInfo name).map fun info => info.dims.length).getD 0

/-! ## QuickGelu: `x * sigmoid(alpha * x)` -/

namespace QuickGelu

/-- Alpha must be a constant initializer with one element. -/
def alphaInput : PInput F :=
  .predicate "QuickGelu.alpha" fun env name _ _ =>
    ((env.initializers name).bind tryReadScalarFloat).isSome

def alphaMulXInput : PInput F :=
  .predicate "QuickGelu.input" fun env name _ _ => (env.initializers name).isNone

def buildPattern : PNode F :=
  (((PNode.op "Sigmoid").as "QuickGelu.sigmoid").input (some 0) (.capture "QuickGelu.input")
    |>.upstream 0
      (((PNode.op "Mul").as "QuickGelu.alpha_mul").input none alphaMulXInput
        |>.input none alphaInput) true
    |>.downstream 0
      (((PNode.op "Mul").as "QuickGelu.output_mul").input none (.sameAs "QuickGelu.input"))
      false)

def fusionRule : FusionRule F where
  anchorOpType := "Sigmoid"
  buildPattern := buildPattern
  matchesResult m := (m.nodeIndices "QuickGelu.sigmoid").isSome

end QuickGelu

/-! ## BiasGelu: `0.5 * y * (1 + erf(y / sqrt 2))` with `y = x + bias` -/

namespace BiasGelu

variable [FloatOps F]

/-- The check of the bias against the other input of the `Add`. -/
def biasMatches (env : MatchEnv F) (node : Node) (name : String) (biasLastDim : Int) : Bool :=
  match node.inputs.reduceOption.find? fun other => other != name with
  | none => true
  | some other =>
    match (env.valueInfo other).bind fun info => info.dims.getLast? with
    | none => false
    | some lastDim => !(0 ≤ biasLastDim && 0 ≤ lastDim && biasLastDim != lastDim)

/-- `PBiasInput`: an initializer of rank 1 whose dimension is the last one of the other input. -/
def biasInput : PInput F :=
  .predicate "BiasGelu.bias_name" fun env name info node =>
    (env.initializers name).isSome &&
      match info with
      | some { dims := [biasLastDim], .. } => biasMatches env node name biasLastDim
      | _ => false

/-- The default tolerance of a scalar constraint. -/
def defaultTol : F :=
  FloatOps.lit 0.0001

def buildPattern : PNode F :=
  ((PNode.op "Erf").as "BiasGelu.erf"
    |>.upstream 0
      (((PNode.op "Div").as "BiasGelu.div").input (some 0) (.capture "BiasGelu.add_out")
        |>.input (some 1) (.scalar "" (FloatOps.lit 1.41421356237) (FloatOps.lit 0.001))
        |>.upstream 0 (((PNode.op "Add").as "BiasGelu.bias_add").input none biasInput) false)
      false
    |>.downstream 0
      (((PNode.op "Add").as "BiasGelu.add1").input none
          (.scalar "" (FloatOps.lit 1) defaultTol)
        |>.downstream 0
          (((PNode.op "Mul").as "BiasGelu.mul_x").input none (.sameAs "BiasGelu.add_out")
            |>.upstream 1
              (((PNode.op "Mul").as "BiasGelu.mul_half_p1").input none
                  (.sameAs "BiasGelu.add_out")
                |>.input none (.scalar "" (FloatOps.lit 0.5) defaultTol)) true
            |>.downstream 0
              (((PNode.op "Mul").as "BiasGelu.mul_half_p2").input (some 1)
                (.scalar "" (FloatOps.lit 0.5) defaultTol)) true)
          false)
      false)

def fusionRule : FusionRule F where
  anchorOpType := "Erf"
  buildPattern := buildPattern
  matchesResult m :=
    (m.nodeIndices "BiasGelu.erf").isSome && (m.nodeIndices "BiasGelu.bias_add").isSome &&
      m.valueName "BiasGelu.bias_name" != ""

end BiasGelu

/-! ## FusedMatMul: transposes, `MatMul`, scale, activation -/

namespace FusedMatMul

structure TransposeInfo where
  isTrans : Bool := false
  isTransBatch : Bool := false
  deriving DecidableEq, Repr

/-- `AnalyzeTransposePerm`: the last axis stays last or goes one place forward, and the others
keep their order behind a first axis 0 or 1. -/
def analyzeTransposePerm (perms : List Int) : Option TransposeInfo :=
  let rank := perms.length
  if rank < 2 then none
  else
    let lastAxis : Int := rank - 1
    let lastAxisIndex :=
      if perms[rank - 1]? = some lastAxis then rank - 1
      else if perms[rank - 2]? = some lastAxis then rank - 2
      else rank
    if lastAxisIndex = rank then none
    else if 3 ≤ rank ∧ perms[0]? ≠ some 0 ∧ perms[0]? ≠ some 1 then none
    else if 3 ≤ rank ∧ ((List.range (rank - 3)).any fun i =>
        perms[i]?.map (· + 1) != perms[i + 1]?) then none
    else some
      { isTrans := lastAxisIndex == rank - 2
        isTransBatch := decide (3 ≤ rank) && perms[0]? == some 1 }

/-- `TransposePermPredicate`. Without the attribute all dimensions are reversed, and the rank must
be known. -/
def transposePermPredicate (info : Option TensorInfo) (node : Node) : Bool :=
  let perms := getAttributeInts node "perm"
  if perms.isEmpty then
    match info with
    | none => false
    | some info =>
      let rank := info.dims.length
      if rank = 0 then false
      else (analyzeTransposePerm ((List.range rank).reverse.map Int.ofNat)).isSome
  else (analyzeTransposePerm perms).isSome

def transposeInput : PInput F :=
  .predicate "" fun _ _ info node => transposePermPredicate info node

/-- `ScalarInitPredicate`: an initializer with one element, whose rank is at most that of the
other input where both are known. -/
def scalarInitPredicate (env : MatchEnv F) (name : String) (node : Node) : Bool :=
  match env.initializers name with
  | none => false
  | some val =>
    if (tryReadScalarFloat val).isNone then false
    else if val.dims.length = 0 then true
    else
      match node.inputs.reduceOption.find? fun other =>
          other != name && (env.valueInfo other).isSome with
      | none => true
      | some other => !(0 < env.rank other && env.rank other < val.dims.length)

/-- The activations that can be absorbed, with their capture names. -/
def activations : List (String × String) :=
  [("Relu", "FusedMatMul.relu"), ("Sigmoid", "FusedMatMul.sigmoid"),
    ("Tanh", "FusedMatMul.tanh"), ("LeakyRelu", "FusedMatMul.leaky"),
    ("Elu", "FusedMatMul.elu"), ("HardSigmoid", "FusedMatMul.hsig"),
    ("Selu", "FusedMatMul.selu"), ("Softplus", "FusedMatMul.splus"),
    ("Softsign", "FusedMatMul.ssign"), ("ThresholdedRelu", "FusedMatMul.threlu")]

def addActivations (node : PNode F) : PNode F :=
  activations.foldl (fun n a => n.downstream 0 ((PNode.op a.1).as a.2) true) node

def scaleMul : PNode F :=
  addActivations
    (((PNode.op "Mul").as "FusedMatMul.scale_mul").input none
      (.predicate "FusedMatMul.scale_name" fun env name _ node =>
        scalarInitPredicate env name node))

def scaleDiv : PNode F :=
  addActivations
    (((PNode.op "Div").as "FusedMatMul.scale_div").input (some 1)
      (.predicate "FusedMatMul.scale_div_name" fun env name _ node =>
        scalarInitPredicate env name node))

def buildPattern : PNode F :=
  addActivations
    ((PNode.op "MatMul").as "FusedMatMul.matmul"
      |>.upstream 0
        (((PNode.op "Transpose").as "FusedMatMul.trans_a").input (some 0) transposeInput) true
      |>.upstream 1
        (((PNode.op "Transpose").as "FusedMatMul.trans_b").input (some 0) transposeInput) true
      |>.downstream 0 scaleMul true
      |>.downstream 0 scaleDiv true)

/-- The captures of the nodes behind the `MatMul`. -/
def downstreamKeys : List String :=
  ["FusedMatMul.scale_mul", "FusedMatMul.scale_div"] ++ activations.map Prod.snd

def matchesResult (m : PatternMatch F) : Bool :=
  (m.nodeIndices "FusedMatMul.matmul").isSome &&
    (["FusedMatMul.trans_a", "FusedMatMul.trans_b"] ++ downstreamKeys).any fun key =>
      (m.nodeIndices key).isSome

/-- A side of the `MatMul`: the keys under which its transpose is captured, and the input of the
other side. -/
structure Side where
  idxKey : String
  transKey : String
  batchKey : String
  sourceKey : String
  otherSide : Nat

def sideA : Side where
  idxKey := "FusedMatMul.trans_a"
  transKey := "FusedMatMul.transA"
  batchKey := "FusedMatMul.transBatchA"
  sourceKey := "FusedMatMul.source_a"
  otherSide := 1

def sideB : Side where
  idxKey := "FusedMatMul.trans_b"
  transKey := "FusedMatMul.transB"
  batchKey := "FusedMatMul.transBatchB"
  sourceKey := "FusedMatMul.source_b"
  otherSide := 0

/-- Takes a transpose out of the match. -/
def dropTranspose (m : PatternMatch F) (key : String) (node : Node) : PatternMatch F :=
  { m with
    nodeIndices := Function.update m.nodeIndices key none
    allNodes := m.allNodes.erase node }

/-- The other input of the `MatMul` has a rank that does not allow a batch transpose. -/
def refusesBatch (env : MatchEnv F) (matmul : Node) (side : Side) (perms : List Int) : Bool :=
  match matmul.inputs[side.otherSide]? with
  | none => false
  | some slot =>
    let otherRank := (slot.map env.rank).getD 0
    decide (otherRank = 0 ∨ otherRank < 3 ∨ otherRank ≠ perms.length)

variable [FloatOps F]

/-- The flags and the source of an absorbed transpose. -/
def recordTranspose (m : PatternMatch F) (side : Side) (node : Node) (info : TransposeInfo) :
    PatternMatch F :=
  let flagged := (m.setScalarValue side.transKey (FloatOps.lit (if info.isTrans then 1 else 0)))
    |>.setScalarValue side.batchKey (FloatOps.lit (if info.isTransBatch then 1 else 0))
  match (getNodeInputNames node).head? with
  | none => flagged
  | some name => flagged.setValueName side.sourceKey name

/-- One turn of the loop of `CapturePreFusionData`. -/
def captureSide (env : MatchEnv F) (m : PatternMatch F) (side : Side) : PatternMatch F :=
  match m.nodeIndices side.idxKey with
  | none => m
  | some node =>
    let perms := getAttributeInts node "perm"
    match if perms.isEmpty then some { isTrans := true } else analyzeTransposePerm perms with
    | none => m
    | some info =>
      if perms.length = 2 then dropTranspose m side.idxKey node
      else if info.isTransBatch then
        match m.nodeIndices "FusedMatMul.matmul" with
        | none => m
        | some matmul =>
          if refusesBatch env matmul side perms then dropTranspose m side.idxKey node
          else recordTranspose m side node info
      else recordTranspose m side node info

def capturePreFusionData (env : MatchEnv F) (m : PatternMatch F) : PatternMatch F :=
  [sideA, sideB].foldl (captureSide env) m

omit [FloatOps F] in
/-- An input of the `MatMul` that a node outside the match produces. -/
def isRuntime (gc : GraphConnectivity) (m : PatternMatch F) (name : String) : Bool :=
  match gc.producerMap name with
  | some producer => !m.allNodes.contains producer
  | none => false

omit [FloatOps F] in
/-- The element type of the first input is unknown, or one that a GEMM has. -/
def typeSupported (env : MatchEnv F) (matmul : Node) : Bool :=
  match matmul.inputs.head?.join.bind env.valueInfo with
  | none => true
  | some info =>
    match info.elemType with
    | .undefined | .float | .float16 => true
    | _ => false

omit [FloatOps F] in
/-- `ValidateCapture`. -/
def validateCapture (env : MatchEnv F) (gc : GraphConnectivity) (m : PatternMatch F) : Bool :=
  match m.nodeIndices "FusedMatMul.matmul" with
  | none => true
  | some matmul =>
    match getNodeInputNames matmul with
    | a :: b :: _ =>
      a != b && (isRuntime gc m a || isRuntime gc m b) && typeSupported env matmul &&
        match (getNodeOutputNames matmul).head? with
        | none => true
        | some out =>
          !(downstreamKeys.any fun key => (m.nodeIndices key).isSome) || gc.hasSingleConsumer out
    | _ => true

omit [FloatOps F] in
theorem dropTranspose_sublist (m : PatternMatch F) (key : String) (node : Node) :
    (dropTranspose m key node).allNodes.Sublist m.allNodes :=
  List.erase_sublist

theorem allNodes_recordTranspose (m : PatternMatch F) (side : Side) (node : Node)
    (info : TransposeInfo) : (recordTranspose m side node info).allNodes = m.allNodes := by
  unfold recordTranspose
  dsimp only
  split <;> rfl

theorem captureSide_sublist (env : MatchEnv F) (m : PatternMatch F) (side : Side) :
    (captureSide env m side).allNodes.Sublist m.allNodes := by
  unfold captureSide
  split
  · exact List.Sublist.refl _
  · next node _ =>
    dsimp only
    split
    · exact List.Sublist.refl _
    · split
      · exact dropTranspose_sublist m _ node
      · split
        · split
          · exact List.Sublist.refl _
          · split
            · exact dropTranspose_sublist m _ node
            · rw [allNodes_recordTranspose]
        · rw [allNodes_recordTranspose]

def fusionRule : FusionRule F where
  anchorOpType := "MatMul"
  buildPattern := buildPattern
  matchesResult := matchesResult
  capturePreFusionData env _ m := capturePreFusionData env m
  validateCapture := validateCapture
  capture_sublist := fun env _ m =>
    (captureSide_sublist env (captureSide env m sideA) sideB).trans
      (captureSide_sublist env m sideA)

end FusedMatMul

/-- The rules of `BuildAnchorIndex`. -/
def allRules [FloatOps F] : List (FusionRule F) :=
  [QuickGelu.fusionRule, BiasGelu.fusionRule, FusedMatMul.fusionRule]

end AmdGpuEp.DirectML
