import AmdGpuEp.DirectML.AxisTranslators

/-!
# The dimensions that an axis names

A translation with axes is right when its axes are those of ONNX, moved behind the padding, and
when its output has the sizes of its input with another size at these axes. ONNX removes the
reduced dimensions when `keepdims` is 0, and the recorded shape of the output says so; padded,
its dimensions stand at other places than those of the input.

Results:
1. `axes_iff`: when the axes and the sizes of a translation are right.
2. `rowSums_misplaced`: the sums of the rows of a matrix, without the reduced dimension.
-/

namespace AmdGpuEp.DirectML

/-! ## Nodes and what they say -/

/-- The operators along one axis, which keep the sizes. -/
inductive AlongOp
  | softmax
  | logSoftmax
  | hardmax
  | lpNormalization
  deriving DecidableEq, Repr

/-- A node with axes: its operator, the ONNX shapes of its inputs and what else ONNX is given. -/
inductive AxisOp
  | along (op : AlongOp) (shape : List Nat)
  | reduce (function : ReduceFunction) (shape : List Nat) (axes : List Int)
  | arg (max : Bool) (shape : List Nat)
  | concat (first : List Nat) (others : List (List Nat))
  | qLinearConcat (first : List Nat) (others : List (List Nat))
  | split (shape : List Nat) (sizes : List Nat)
  | gather (data indices : List Nat)
  | gatherElements (data indices : List Nat)
  | scatterElements (data : List Nat)
  | oneHot (indices : List Nat) (depth : Nat)
  deriving DecidableEq, Repr

/-- What is described: axes, how many dimensions there are, and the sizes of the outputs. -/
structure AxisView where
  axes : List Nat
  dimensionCount : Nat
  outputs : List (List Nat)
  deriving DecidableEq, Repr

/-- Other sizes at some places. -/
def replaceAt (sizes places : List Nat) (size : Nat) : List Nat :=
  places.foldl (fun sizes place => sizes.set place size) sizes

/-- The sizes without those at some places. -/
def removeAt (sizes places : List Nat) : List Nat :=
  (sizes.zipIdx.filter fun entry => decide (entry.2 ∉ places)).map Prod.fst

namespace AxisOp

/-! ## Views -/

def axesOf : AxisDesc → List Nat
  | .softmax axis | .logSoftmax axis | .hardmax axis | .lpNormalization axis _ _ | .argMax axis _
  | .argMin axis _ | .join axis _ _ | .split axis | .gather axis _ | .gatherElements axis
  | .scatter axis | .oneHot axis => [axis]
  | .dequantizeLinear _ | .quantizeLinear => []

def sizesOf (infos : List DmlTensorInfo) (i : Nat) : List Nat :=
  (infos.getD i {}).sizes

/-- The axes, and the dimensions of the first input. -/
def viewOf (t : TranslatedOp AxisDesc) : AxisView where
  axes := axesOf t.opDesc
  dimensionCount := (sizesOf t.inputTensors 0).length
  outputs := t.outputTensors.map DmlTensorInfo.sizes

/-- The join of a translation with sub-nodes. -/
def joinOf (t : TranslatedOp AxisDesc) : AxisView :=
  match t.subNodes.map SubNode.opDesc |>.find? fun desc => !(axesOf desc).isEmpty with
  | some (.join axis inputs output) =>
    { axes := [axis], dimensionCount := (sizesOf inputs 0).length, outputs := [output.sizes] }
  | _ => { axes := [], dimensionCount := 0, outputs := [] }

def view (beyond : Nat → UInt8) (op : AxisOp) (node : Node) (shapes : ValueShapes)
    (initializers : String → Option Initializer) : Option AxisView :=
  match op with
  | along .softmax _ => (translateSoftmax .softmax node shapes initializers).map viewOf
  | along .logSoftmax _ => (translateLogSoftmax node shapes initializers).map viewOf
  | along .hardmax _ => (translateHardmax node shapes initializers).map viewOf
  | along .lpNormalization _ => (translateLpNormalization node shapes initializers).map viewOf
  | reduce function _ _ =>
    (translateReduce beyond function node shapes initializers).map fun t =>
      { axes := match t.opDesc with
          | .reduce _ axes => axes
          | _ => []
        dimensionCount := (sizesOf t.inputTensors 0).length
        outputs := t.outputTensors.map DmlTensorInfo.sizes }
  | arg max _ =>
    (translateArgMaxMin (if max then .argMax else .argMin) node shapes initializers).map viewOf
  | concat _ _ => (translateConcat node shapes initializers).map viewOf
  | qLinearConcat _ _ => (translateQLinearConcat node shapes initializers).map joinOf
  | split _ _ => (translateSplit node shapes initializers).map viewOf
  | gather _ _ => (translateGather .gather node shapes initializers).map viewOf
  | gatherElements _ _ => (translateGatherElements node shapes initializers).map viewOf
  | scatterElements _ => (translateScatterElements node shapes initializers).map viewOf
  | oneHot _ _ =>
    (translateOneHot node shapes initializers).map fun t =>
      { axes := axesOf t.opDesc
        dimensionCount := (sizesOf t.outputTensors 0).length
        outputs := t.outputTensors.map DmlTensorInfo.sizes }

/-! ## ONNX axes -/

/-- The rank that the axes are counted in. -/
def rank : AxisOp → Nat
  | along _ shape | reduce _ shape _ | arg _ shape | split shape _ | scatterElements shape =>
    shape.length
  | concat shape _ | qLinearConcat shape _ | gather shape _ | gatherElements shape _ => shape.length
  | oneHot indices _ => indices.length + 1

/-- Before opset 13 the dimensions from the axis on are normalized as one. -/
def Coerced (op : AxisOp) (node : Node) : Prop :=
  node.sinceVersion < 13 ∧
    match op with
    | along .lpNormalization _ => False
    | along _ _ => True
    | _ => False

instance (op : AxisOp) (node : Node) : Decidable (op.Coerced node) := by
  unfold Coerced
  cases op with
  | along op shape => cases op <;> infer_instance
  | _ => infer_instance

def defaultAxis (op : AxisOp) (node : Node) : Int :=
  match op with
  | along _ _ => if op.Coerced node then 1 else -1
  | concat _ _ => if node.sinceVersion < 4 then 1 else 0
  | oneHot _ _ => -1
  | _ => 0

/-- The axis of a node. -/
def axis (op : AxisOp) (node : Node) : Int :=
  getAttributeInt node "axis" (op.defaultAxis node)

def noop (node : Node) : Bool :=
  getAttributeInt node "noop_with_empty_axes" 0 != 0

def keepdims (node : Node) : Bool :=
  getAttributeInt node "keepdims" 1 != 0

/-- The dimensions that the axes of a node name, when they name some. -/
def places (op : AxisOp) (node : Node) : Option (List Nat) :=
  match op with
  | reduce _ shape axes =>
    if axes = [] then some (if noop node then [] else List.range shape.length)
    else if ∀ a ∈ axes, ValidAxis shape.length a then
      some (axes.map (placeOfAxis shape.length))
    else none
  | _ =>
    if ValidAxis op.rank (op.axis node) then
      let place := placeOfAxis op.rank (op.axis node)
      some (if op.Coerced node then (List.range op.rank).drop place else [place])
    else none

/-- The size of a join. -/
def totalSize (first : List Nat) (others : List (List Nat)) (place : Nat) : Nat :=
  ((first :: others).map fun shape => shape.getD place 0).sum

/-- The ONNX shapes of the outputs, for these dimensions. -/
def results (op : AxisOp) (node : Node) (places : List Nat) : List (List Nat) :=
  let place := places.headD 0
  match op with
  | along _ shape => [shape]
  | reduce _ shape _ | arg _ shape =>
    [if keepdims node then replaceAt shape places 1 else removeAt shape places]
  | concat first others | qLinearConcat first others =>
    [first.set place (totalSize first others place)]
  | split shape sizes => sizes.map (shape.set place)
  | gather data indices => [data.take place ++ indices ++ data.drop (place + 1)]
  | gatherElements _ indices => [indices]
  | scatterElements data => [data]
  | oneHot indices depth => [indices.take place ++ depth :: indices.drop place]

/-- The sizes of the outputs in the dimensions of the input: other sizes at the axes, of 1 where
they are reduced. The dimensions of the indices of a `Gather` stand for its axis, and the indices of
`OneHot` lack the dimension of its axis. -/
def inPlace (op : AxisOp) (node : Node) (count : Nat) (places : List Nat) : List (List Nat) :=
  let moved := places.map (· + (count - op.rank))
  let place := moved.headD 0
  match op with
  | along _ shape | scatterElements shape => [padToMinDims shape count]
  | reduce _ shape _ | arg _ shape => [replaceAt (padToMinDims shape count) moved 1]
  | concat first others | qLinearConcat first others =>
    [(padToMinDims first count).set place (totalSize first others (places.headD 0))]
  | split shape sizes => sizes.map ((padToMinDims shape count).set place)
  | gather _ _ => (op.results node places).map (padToMinDims · count)
  | gatherElements _ indices => [padToMinDims indices count]
  | oneHot indices depth => [(padToMinDims indices 4).set place depth]

/-! ## What is asked of the translators -/

/-- An accepted node has valid axes, and they are described, behind the padding and below the
dimension count, with outputs in the dimensions of the input. -/
def InPlace (op : AxisOp) (node : Node) (shapes : ValueShapes)
    (initializers : String → Option Initializer) : Prop :=
  ∀ beyond v, op.view beyond node shapes initializers = some v →
    ∃ places, op.places node = some places ∧
      (∀ d, d ∈ v.axes ↔ ∃ place ∈ places, d = place + (v.dimensionCount - op.rank)) ∧
      (∀ d ∈ v.axes, d < v.dimensionCount) ∧
      v.outputs = op.inPlace node v.dimensionCount places

/-- The inputs whose shapes are those of the operator. -/
def inputs : AxisOp → List (Nat × List Nat)
  | along _ shape | reduce _ shape _ | arg _ shape | split shape _ | scatterElements shape
  | oneHot shape _ => [(0, shape)]
  | concat first others => (first :: others).mapIdx fun i shape => (i, shape)
  | qLinearConcat first others => (first :: others).mapIdx fun i shape => (2 + i * 3, shape)
  | gather data indices | gatherElements data indices => [(0, data), (1, indices)]

/-- What else a node has. -/
def Given (op : AxisOp) (node : Node) (shapes : ValueShapes)
    (initializers : String → Option Initializer) : Prop :=
  match op with
  | reduce _ _ axes =>
    (∀ constant, constantInput initializers node 1 = some constant →
        ∀ beyond, readInt64s beyond constant = axes) ∧
      (presentInput node 1 = none → getAttributeInts node "axes" = axes)
  | concat first others =>
    (getNodeInputNames node).length = others.length + 1 ∧ ∀ s ∈ others, s.length = first.length
  | qLinearConcat first others =>
    (getNodeInputNames node).length = 3 * (others.length + 1) + 2 ∧
      (∀ name ∈ getNodeInputNames node, name ≠ "" ∧ (shapes name).isSome) ∧
      (∀ s ∈ others, s.length = first.length) ∧ (outEdge node shapes).isSome
  | split _ sizes =>
    sizes.length = (getNodeOutputNames node).length ∧ (∀ s ∈ sizes, s < 2 ^ 32) ∧
      (getAttributeInts node "split" ≠ [] →
        getAttributeInts node "split" = sizes.map Int.ofNat)
  | gather _ _ => (outEdge node shapes).isSome
  | gatherElements data indices => indices.length = data.length
  | scatterElements _ =>
    (lookupInput node shapes 1).isSome ∧ (lookupInput node shapes 2).isSome
  | oneHot _ _ => (lookupInput node shapes 2).isSome ∧ (outEdge node shapes).isSome
  | _ => True

end AxisOp

/-- The record of a tensor of this shape. -/
structure DmlTensorInfo.HasShape (info : DmlTensorInfo) (shape : List Nat) : Prop where
  sizes : info.sizes = padToMinDims shape 4
  originalRank : info.originalRank = shape.length
  small : shape.length < 2 ^ 32

/-- A node of this operator: the shapes of its inputs are recorded, and maybe those of its outputs,
which are those of ONNX when the axes are valid. -/
structure AxisNode (op : AxisOp) (node : Node) (shapes : ValueShapes)
    (initializers : String → Option Initializer) : Prop where
  inputs : ∀ entry ∈ op.inputs, ∃ info, lookupInput node shapes entry.1 = some info ∧
    info.HasShape entry.2
  positive : ∀ entry ∈ op.inputs, ∀ d ∈ entry.2, 0 < d
  outputs : getNodeOutputNames node ≠ []
  recorded : ∀ places, op.places node = some places → ∀ (o : Nat) name info,
    (getNodeOutputNames node)[o]? = some name → shapes name = some info →
      ∃ out, (op.results node places)[o]? = some out ∧ info.HasShape out
  given : op.Given node shapes initializers

namespace AxisOp

/-- The rank as the translators read it from a record, which is 0 for a scalar, too. -/
def readRank (shape : List Nat) : Nat :=
  if shape = [] then 4 else shape.length

/-- The axes of a reduction are not those of a constant. -/
def Hidden (node : Node) (initializers : String → Option Initializer) : Prop :=
  (presentInput node 1).isSome ∧ constantInput initializers node 1 = none

/-- Leaving out the dimensions at these places gives the same padded sizes as 1 in their place. -/
def RemovesInPlace (shape places : List Nat) : Prop :=
  padToMinDims (removeAt shape places) 4 =
    replaceAt (padToMinDims shape 4) (places.map (· + (max 4 shape.length - shape.length))) 1

/-- When the translators are right. -/
def Fits (op : AxisOp) (node : Node) (shapes : ValueShapes)
    (initializers : String → Option Initializer) : Prop :=
  let valid := ValidAxis op.rank (op.axis node)
  let place := placeOfAxis op.rank (op.axis node)
  match op with
  | along kind shape =>
    (kind = .softmax ∧ ¬ ValidAxis (readRank shape) (getAttributeInt node "axis" (-1))) ∨
      valid ∧ (op.Coerced node → place + 1 = shape.length)
  | reduce _ shape axes =>
    ((axes = [] ∨ Hidden node initializers) ∧ noop node) ∨
      ∃ places, op.places node = some places ∧
        (axes = [] ∨ Hidden node initializers → 4 ≤ shape.length ∧ ∀ d < shape.length, d ∈ places) ∧
        (¬ keepdims node → RemovesInPlace shape places)
  | arg _ shape => valid ∧ (¬ keepdims node → RemovesInPlace shape [place])
  | concat first others =>
    valid ∧ placeOfAxis first.length (getAttributeInt node "axis" 0) = place ∧
      ((outEdge node shapes).isSome ∨ totalSize first others place < 2 ^ 32)
  | qLinearConcat first _ => valid ∧ (op.axis node < 0 ∨ 4 ≤ first.length)
  | split shape sizes =>
    valid ∧ (getAttributeInts node "split" = [] → ∀ o name,
      (getNodeOutputNames node)[o]? = some name → shapes name = none →
        sizes.getD o 0 = shape.getD place 0 / (getNodeOutputNames node).length)
  | gather _ _ | gatherElements _ _ | scatterElements _ => valid
  | oneHot indices depth =>
    valid ∧ (indices ≠ [] ∨ 0 ≤ op.axis node) ∧
      padToMinDims (indices.take place ++ depth :: indices.drop place) 4 =
        (padToMinDims indices 4).set (place + (max 4 op.rank - op.rank)) depth

end AxisOp

namespace AxisPlacesLemmas

/-! ## Sizes at places -/

theorem replaceAt_eq_map (l places : List Nat) (size : Nat) :
    replaceAt l places size =
      l.zipIdx.map fun entry => if entry.2 ∈ places then size else entry.1 := by
  induction places generalizing l with
  | nil => simp [replaceAt]
  | cons place places ih =>
    rw [replaceAt, List.foldl_cons, ← replaceAt, ih]
    refine List.ext_getElem (by simp) fun i hi hi' => ?_
    simp only [List.getElem_map, List.getElem_zipIdx, List.getElem_set, Nat.zero_add, List.mem_cons]
    by_cases hplace : place = i
    · subst hplace
      simp
    · simp [hplace, Ne.symm hplace]

theorem replaceAt_congr (l : List Nat) {p q : List Nat} (h : ∀ d, d ∈ p ↔ d ∈ q) (size : Nat) :
    replaceAt l p size = replaceAt l q size := by
  simp only [replaceAt_eq_map, h]

theorem removeAt_congr (l : List Nat) {p q : List Nat} (h : ∀ d, d ∈ p ↔ d ∈ q) :
    removeAt l p = removeAt l q := by
  simp only [removeAt, h]

theorem length_replaceAt (l places : List Nat) (size : Nat) :
    (replaceAt l places size).length = l.length := by
  simp [replaceAt_eq_map]

/-- Sizes of 0 are none of the others. -/
theorem filter_replaceAt {l : List Nat} (hpos : ∀ d ∈ l, 0 < d) (places : List Nat) :
    (replaceAt l places 0).filter (· != 0) = removeAt l places := by
  rw [replaceAt_eq_map, List.filter_map, removeAt]
  have hkept : ∀ entry ∈ l.zipIdx,
      ((· != 0) ∘ fun entry : Nat × Nat => if entry.2 ∈ places then 0 else entry.1) entry =
        decide (entry.2 ∉ places) := by
    intro entry hentry
    have hentry := hpos entry.1 (List.fst_mem_of_mem_zipIdx hentry)
    by_cases hplace : entry.2 ∈ places
    · simp [hplace]
    · simp [hplace, hentry.ne']
  rw [List.filter_congr hkept]
  refine List.map_congr_left fun entry hentry => ?_
  exact if_neg (of_decide_eq_true (List.mem_filter.1 hentry).2)

theorem kept_above {l : List Nat} {n : Nat} {places : List Nat} (h : ∀ d ∈ places, d < n) :
    ((l.zipIdx n).filter fun entry => decide (entry.2 ∉ places)).map Prod.fst = l := by
  have hkept : (l.zipIdx n).filter (fun entry => decide (entry.2 ∉ places)) = l.zipIdx n := by
    refine List.filter_eq_self.2 fun entry hentry => ?_
    have hle := List.le_snd_of_mem_zipIdx hentry
    exact decide_eq_true fun hmem => absurd (h _ hmem) (by omega)
  rw [hkept, List.zipIdx_map_fst]

theorem removeAt_single (l : List Nat) (place : Nat) : removeAt l [place] = l.eraseIdx place := by
  have hfrom : ∀ n, ((l.zipIdx n).filter fun entry => decide (entry.2 ∉ [place + n])).map Prod.fst =
      l.eraseIdx place := by
    induction l generalizing place with
    | nil => simp
    | cons d l ih =>
      intro n
      rw [List.zipIdx_cons]
      cases place with
      | zero =>
        rw [List.filter_cons_of_neg (by simp), List.eraseIdx_cons_zero]
        exact kept_above (by simp)
      | succ place =>
        have hnext : place + 1 + n = place + (n + 1) := by omega
        rw [List.filter_cons_of_pos (by simp), List.eraseIdx_cons_succ, List.map_cons, hnext, ih]
  exact hfrom 0

/-- The places behind a padding. -/
theorem replaceAt_ones (k : Nat) (l places : List Nat) (size : Nat) :
    replaceAt (List.replicate k 1 ++ l) (places.map (· + k)) size =
      List.replicate k 1 ++ replaceAt l places size := by
  induction places generalizing l with
  | nil => rfl
  | cons place places ih =>
    rw [replaceAt, List.map_cons, List.foldl_cons, ← replaceAt,
      List.set_append_right _ _ (by simp), List.length_replicate, Nat.add_sub_cancel, ih]
    rfl

theorem removed_shifted (l : List Nat) (k : Nat) (places : List Nat) (n : Nat) :
    ((l.zipIdx (n + k)).filter fun entry =>
        decide (entry.2 ∉ places.map (· + k))).map Prod.fst =
      ((l.zipIdx n).filter fun entry => decide (entry.2 ∉ places)).map Prod.fst := by
  induction l generalizing n with
  | nil => rfl
  | cons d l ih =>
    have hnext : n + k + 1 = n + 1 + k := by omega
    have hmem : n + k ∈ places.map (· + k) ↔ n ∈ places := by simp
    rw [List.zipIdx_cons, List.zipIdx_cons, hnext]
    by_cases hplace : n ∈ places
    · rw [List.filter_cons_of_neg (by simpa using hplace),
        List.filter_cons_of_neg (by simpa using hplace), ih]
    · rw [List.filter_cons_of_pos (by simpa using hplace),
        List.filter_cons_of_pos (by simpa using hplace), List.map_cons, List.map_cons, ih]

theorem removeAt_ones (k : Nat) (l places : List Nat) :
    removeAt (List.replicate k 1 ++ l) (places.map (· + k)) =
      List.replicate k 1 ++ removeAt l places := by
  have hfront : ((List.replicate k 1).zipIdx.filter fun entry =>
      decide (entry.2 ∉ places.map (· + k))).map Prod.fst = List.replicate k 1 := by
    have hkept : (List.replicate k 1).zipIdx.filter (fun entry =>
        decide (entry.2 ∉ places.map (· + k))) = (List.replicate k 1).zipIdx := by
      refine List.filter_eq_self.2 fun entry hentry => decide_eq_true fun hmem => ?_
      obtain ⟨d, -, hd⟩ := List.mem_map.1 hmem
      have hlt := List.snd_lt_of_mem_zipIdx hentry
      rw [List.length_replicate] at hlt
      omega
    rw [hkept, List.zipIdx_map_fst]
  have hback := removed_shifted l k places 0
  rw [removeAt, List.zipIdx_append, List.filter_append, List.map_append, hfront,
    List.length_replicate, hback]
  rfl

/-- Behind the padding the other dimensions keep their places. -/
theorem padded_eq (l : List Nat) : padToMinDims l 4 =
    List.replicate (max 4 l.length - l.length) 1 ++ l := by
  rw [padToMinDims]
  congr 2
  omega

theorem padToMinDims_ones {k : Nat} {l : List Nat} (h : k = 0 ∨ k + l.length ≤ 4) :
    padToMinDims (List.replicate k 1 ++ l) 4 = padToMinDims l 4 := by
  rw [padToMinDims, padToMinDims, List.length_append, List.length_replicate, ← List.append_assoc,
    ← List.replicate_add]
  congr 2
  omega

theorem padToMinDims_max (l : List Nat) : padToMinDims l (max 4 l.length) = padToMinDims l 4 := by
  rw [padToMinDims, padToMinDims]
  congr 2
  omega

theorem padToMinDims_long {l : List Nat} {n : Nat} (h : n ≤ l.length) : padToMinDims l n = l := by
  rw [padToMinDims, Nat.sub_eq_zero_of_le h]
  rfl

/-! ## Axes -/

section

variable {info : DmlTensorInfo} {shape : List Nat} {a : Int}

theorem placeOfAxis_lt {rank : Nat} (h : ValidAxis rank a) : placeOfAxis rank a < rank := by
  unfold ValidAxis at h
  unfold placeOfAxis
  split
  · omega
  · omega

theorem rank_eq (h : info.HasShape shape) : info.rank = AxisOp.readRank shape := by
  rw [DmlTensorInfo.rank, h.originalRank, h.sizes, BroadcastingLemmas.length_padToMinDims,
    AxisOp.readRank]
  by_cases hnil : shape = []
  · subst hnil
    rfl
  · rw [if_neg hnil, if_neg (by simpa using hnil)]

theorem length_sizes (h : info.HasShape shape) : info.sizes.length = max 4 shape.length := by
  rw [h.sizes, BroadcastingLemmas.length_padToMinDims]

theorem windowAxis_eq (h : info.HasShape shape) (hvalid : ValidAxis shape.length a) :
    windowAxis info a =
      (placeOfAxis shape.length a + (max 4 shape.length - shape.length) : Nat) := by
  have hrank : info.rank = shape.length := by
    rw [rank_eq h, AxisOp.readRank, if_neg]
    rintro rfl
    unfold ValidAxis at hvalid
    simp only [List.length_nil] at hvalid
    omega
  unfold ValidAxis at hvalid
  rw [windowAxis, hrank, length_sizes h, placeOfAxis]
  split
  · omega
  · omega

theorem uncheckedAxis_eq (h : info.HasShape shape) (hvalid : ValidAxis shape.length a) :
    uncheckedAxis info a = placeOfAxis shape.length a + (max 4 shape.length - shape.length) := by
  have hlt := placeOfAxis_lt hvalid
  have hsmall := h.small
  rw [uncheckedAxis, windowAxis_eq h hvalid, toUInt32]
  omega

end

/-! ## Translations -/

section

variable {op : AxisOp} {node : Node} {shapes : ValueShapes}
  {initializers : String → Option Initializer}

theorem withShapes_eq {D : Type} {info : DmlTensorInfo} (hin : lookupInput node shapes 0 = some info)
    (hout : getNodeOutputNames node ≠ [])
    (f : DmlTensorInfo → Option DmlTensorInfo → Option (TranslatedOp D)) :
    withShapes node shapes f = f info (outEdge node shapes) := by
  obtain ⟨output, outputs, houtputs⟩ := List.exists_cons_of_ne_nil hout
  rw [withShapes, outEdge, houtputs]
  rw [lookupInput] at hin
  cases hnames : getNodeInputNames node with
  | nil =>
    rw [hnames] at hin
    cases hin
  | cons input inputs =>
    rw [hnames] at hin
    change (shapes input).bind _ = _
    rw [show shapes input = some info from hin]
    rfl

/-- A translation that is not rejected. -/
theorem inPlace_of_view {v : AxisView}
    (hview : ∀ beyond, op.view beyond node shapes initializers = some v) :
    op.InPlace node shapes initializers ↔ ∃ places, op.places node = some places ∧
      (∀ d, d ∈ v.axes ↔ ∃ place ∈ places, d = place + (v.dimensionCount - op.rank)) ∧
      (∀ d ∈ v.axes, d < v.dimensionCount) ∧
      v.outputs = op.inPlace node v.dimensionCount places := by
  constructor
  · intro h
    exact h (fun _ => 0) v (hview _)
  · intro h beyond v' hv'
    obtain rfl := Option.some.inj ((hview beyond).symm.trans hv')
    exact h

theorem places_single (hreduce : ∀ f shape axes, op ≠ .reduce f shape axes)
    (hcoerced : ¬ op.Coerced node) :
    op.places node = if ValidAxis op.rank (op.axis node) then
      some [placeOfAxis op.rank (op.axis node)] else none := by
  unfold AxisOp.places
  split
  · exact absurd rfl (hreduce _ _ _)
  · simp only [hcoerced, if_false]

/-- A description with one axis. -/
theorem single_iff {d count : Nat} {outputs : List (List Nat)}
    (hreduce : ∀ f shape axes, op ≠ .reduce f shape axes) (hcoerced : ¬ op.Coerced node)
    (hview : ∀ beyond, op.view beyond node shapes initializers = some ⟨[d], count, outputs⟩)
    (hrank : ValidAxis op.rank (op.axis node) → op.rank ≤ count) :
    op.InPlace node shapes initializers ↔ ValidAxis op.rank (op.axis node) ∧
      d = placeOfAxis op.rank (op.axis node) + (count - op.rank) ∧
      outputs = op.inPlace node count [placeOfAxis op.rank (op.axis node)] := by
  rw [inPlace_of_view hview, places_single hreduce hcoerced]
  by_cases hvalid : ValidAxis op.rank (op.axis node)
  · have hlt := placeOfAxis_lt hvalid
    have hcount := hrank hvalid
    simp only [hvalid, if_true, Option.some.injEq, true_and, exists_eq_left', List.mem_singleton]
    constructor
    · rintro ⟨haxes, -, houtputs⟩
      obtain ⟨place, rfl, hd⟩ := (haxes d).1 rfl
      exact ⟨hd, houtputs⟩
    · rintro ⟨rfl, houtputs⟩
      refine ⟨fun x => ?_, fun x hx => by omega, houtputs⟩
      simp
  · simp [hvalid]

/-- The sizes of an output that is recorded, or follows from those of the input. -/
theorem output_eq (h : AxisNode op node shapes initializers) {places : List Nat}
    (hplaces : op.places node = some places) (out fallback : List Nat)
    (hresults : op.results node places = [out])
    (hfallback : outEdge node shapes = none → padToMinDims fallback 4 = padToMinDims out 4) :
    padToMinDims (((outEdge node shapes).map DmlTensorInfo.sizes).getD fallback) 4 =
      padToMinDims out 4 := by
  obtain ⟨output, outputs, houtputs⟩ := List.exists_cons_of_ne_nil h.outputs
  have hedge : outEdge node shapes = shapes output := by rw [outEdge, houtputs]; rfl
  cases hrecord : outEdge node shapes with
  | none => exact hfallback hrecord
  | some edge =>
    obtain ⟨out', hout', hshape⟩ := h.recorded places hplaces 0 output edge (by rw [houtputs]; rfl)
      (hedge ▸ hrecord)
    rw [hresults] at hout'
    obtain rfl := Option.some.inj hout'
    rw [Option.map_some, Option.getD_some, hshape.sizes]
    exact BroadcastingLemmas.padToMinDims_padToMinDims _ (by omega)

/-! ## One axis, the same sizes -/

theorem sizes_padded {info : DmlTensorInfo} {shape : List Nat} (h : info.HasShape shape)
    (dtype : DmlDataType) : (makeTensorInfo info.sizes dtype).sizes = padToMinDims shape 4 := by
  change padToMinDims info.sizes 4 = _
  rw [h.sizes]
  exact BroadcastingLemmas.padToMinDims_padToMinDims _ (by omega)

/-- An attribute has its value, whatever the default would be. -/
theorem attribute_cases (node : Node) (name : String) (m n : Int) :
    getAttributeInt node name m = getAttributeInt node name n ∨
      getAttributeInt node name m = m ∧ getAttributeInt node name n = n := by
  unfold getAttributeInt
  cases node.attributes.find? fun entry => entry.1 == name with
  | none => exact Or.inr ⟨rfl, rfl⟩
  | some entry =>
    obtain ⟨key, value⟩ := entry
    cases value with
    | int value => exact Or.inl rfl
    | _ => exact Or.inr ⟨rfl, rfl⟩

theorem dmlAxis_eq (info : DmlTensorInfo) (a : Int) :
    info.dmlAxis a = if ValidAxis info.rank a then some (windowAxis info a) else none := by
  have hrange : ((if a < 0 then a + info.rank else a) < 0 ∨
      (info.rank : Int) ≤ if a < 0 then a + info.rank else a) ↔ ¬ ValidAxis info.rank a := by
    unfold ValidAxis
    split
    · omega
    · omega
  simp only [DmlTensorInfo.dmlAxis, windowAxis, hrange]
  by_cases hvalid : ValidAxis info.rank a
  · rw [if_pos hvalid, if_neg (not_not_intro hvalid)]
  · rw [if_neg hvalid, if_pos hvalid]

/-- Only `TranslateSoftmax` checks the axis. -/
theorem view_along {kind : AlongOp} {shape : List Nat} {info : DmlTensorInfo}
    (hin : lookupInput node shapes 0 = some info) (hshape : info.HasShape shape)
    (hout : getNodeOutputNames node ≠ []) (beyond : Nat → UInt8) :
    (AxisOp.along kind shape).view beyond node shapes initializers =
      if kind = .softmax ∧ ¬ ValidAxis (AxisOp.readRank shape) (getAttributeInt node "axis" (-1)) then
        none
      else some ⟨[uncheckedAxis info (getAttributeInt node "axis" (-1))], max 4 shape.length,
        [padToMinDims shape 4]⟩ := by
  have hview : ∀ desc : Nat → AxisDesc, (∀ axis, AxisOp.axesOf (desc axis) = [axis]) →
      (translateAlongAxis desc node shapes initializers).map AxisOp.viewOf =
        some ⟨[uncheckedAxis info (getAttributeInt node "axis" (-1))], max 4 shape.length,
          [padToMinDims shape 4]⟩ := by
    intro desc hdesc
    rw [translateAlongAxis, withShapes_eq hin hout]
    simp only [Option.map_some, AxisOp.viewOf, hdesc, AxisOp.sizesOf, List.getD_cons_zero,
      List.map_cons, List.map_nil, sizes_padded hshape, BroadcastingLemmas.length_padToMinDims]
  cases kind with
  | softmax =>
    have hhead : (getNodeInputNames node).head?.bind shapes = some info := by
      rw [List.head?_eq_getElem?]
      exact hin
    have hnonempty : (getNodeOutputNames node).isEmpty = false := by simpa using hout
    simp only [AxisOp.view, translateSoftmax, hnonempty, hhead, Bool.false_eq_true, if_false,
      Option.bind_some, dmlAxis_eq, rank_eq hshape, true_and]
    by_cases hvalid : ValidAxis (AxisOp.readRank shape) (getAttributeInt node "axis" (-1))
    · rw [if_pos hvalid, if_neg (not_not_intro hvalid)]
      simp only [Option.map_some, AxisOp.viewOf, AxisOp.axesOf, AxisOp.sizesOf, List.getD_cons_zero,
        List.map_cons, List.map_nil, sizes_padded hshape, BroadcastingLemmas.length_padToMinDims]
      rfl
    · rw [if_neg hvalid, if_pos hvalid]
      rfl
  | logSoftmax =>
    rw [if_neg (by simp)]
    exact hview .logSoftmax fun _ => rfl
  | hardmax =>
    rw [if_neg (by simp)]
    exact hview .hardmax fun _ => rfl
  | lpNormalization =>
    rw [if_neg (by simp)]
    exact hview (fun axis => .lpNormalization axis _ _) fun _ => rfl

theorem mem_drop_range {rank place d : Nat} :
    d ∈ (List.range rank).drop place ↔ place ≤ d ∧ d < rank := by
  rw [List.mem_iff_getElem]
  constructor
  · rintro ⟨i, hi, rfl⟩
    rw [List.length_drop, List.length_range] at hi
    rw [List.getElem_drop, List.getElem_range]
    omega
  · rintro ⟨hle, hlt⟩
    refine ⟨d - place, by simp; omega, ?_⟩
    rw [List.getElem_drop, List.getElem_range]
    omega

theorem placeOfAxis_last {rank : Nat} : placeOfAxis rank (-1) = rank - 1 := by
  rw [placeOfAxis, if_pos (by decide)]
  omega

theorem lookup_first {shape : List Nat} (h : AxisNode op node shapes initializers)
    (hmem : (0, shape) ∈ op.inputs) :
    ∃ info, lookupInput node shapes 0 = some info ∧ info.HasShape shape :=
  h.inputs (0, shape) hmem

theorem along_iff {kind : AlongOp} {shape : List Nat}
    (h : AxisNode (.along kind shape) node shapes initializers) :
    (AxisOp.along kind shape).InPlace node shapes initializers ↔
      (AxisOp.along kind shape).Fits node shapes initializers := by
  obtain ⟨info, hin, hshape⟩ := lookup_first h (List.mem_singleton.2 rfl)
  by_cases hreject : kind = .softmax ∧
      ¬ ValidAxis (AxisOp.readRank shape) (getAttributeInt node "axis" (-1))
  · refine iff_of_true (fun beyond v hv => ?_) (Or.inl hreject)
    rw [view_along hin hshape h.outputs, if_pos hreject] at hv
    cases hv
  · have hview : ∀ beyond, (AxisOp.along kind shape).view beyond node shapes initializers =
        some ⟨[uncheckedAxis info (getAttributeInt node "axis" (-1))], max 4 shape.length,
          [padToMinDims shape 4]⟩ := by
      intro beyond
      rw [view_along hin hshape h.outputs, if_neg hreject]
    have hplaced := padToMinDims_max shape
    have hrank : (AxisOp.along kind shape).rank = shape.length := rfl
    have hdefault : (AxisOp.along kind shape).axis node = getAttributeInt node "axis"
      (if (AxisOp.along kind shape).Coerced node then 1 else -1) := rfl
    change _ ↔ (_ ∧ _) ∨ _
    rw [or_iff_right hreject, hrank]
    by_cases hcoerced : (AxisOp.along kind shape).Coerced node
    · rw [if_pos hcoerced] at hdefault
      have hplaces : (AxisOp.along kind shape).places node =
          if ValidAxis shape.length ((AxisOp.along kind shape).axis node) then
            some ((List.range shape.length).drop
              (placeOfAxis shape.length ((AxisOp.along kind shape).axis node)))
          else none := by
        simp only [AxisOp.places, hcoerced, if_true, hrank]
      rw [inPlace_of_view hview, hplaces]
      by_cases hvalid : ValidAxis shape.length ((AxisOp.along kind shape).axis node)
      · have hlt := placeOfAxis_lt hvalid
        rw [if_pos hvalid]
        constructor
        · rintro ⟨places, hsome, haxes, -, -⟩
          obtain rfl := Option.some.inj hsome
          refine ⟨hvalid, fun _ => ?_⟩
          -- the first and the last of the dimensions are the one that is described
          have hfirst := (haxes _).2 ⟨_, mem_drop_range.2 ⟨le_rfl, hlt⟩, rfl⟩
          have hlast := (haxes _).2 ⟨shape.length - 1,
            mem_drop_range.2 ⟨by omega, by omega⟩, rfl⟩
          rw [List.mem_singleton] at hfirst hlast
          omega
        · rintro ⟨-, hone⟩
          have hone := hone hcoerced
          have hcode : ValidAxis shape.length (getAttributeInt node "axis" (-1)) ∧
              placeOfAxis shape.length (getAttributeInt node "axis" (-1)) = shape.length - 1 := by
            rcases attribute_cases node "axis" (-1) 1 with heq | ⟨hcode, -⟩
            · rw [heq, ← hdefault]
              exact ⟨hvalid, by omega⟩
            · rw [hcode]
              exact ⟨⟨by omega, by omega⟩, placeOfAxis_last⟩
          refine ⟨_, rfl, fun d => ?_, fun d hd => ?_, congrArg (fun l => [l]) hplaced.symm⟩
          · rw [List.mem_singleton, uncheckedAxis_eq hshape hcode.1, hcode.2]
            constructor
            · rintro rfl
              exact ⟨shape.length - 1, mem_drop_range.2 ⟨by omega, by omega⟩, rfl⟩
            · rintro ⟨place, hplace, rfl⟩
              obtain ⟨hle, hltp⟩ := mem_drop_range.1 hplace
              dsimp only
              rw [hrank]
              omega
          · rw [List.mem_singleton.1 hd, uncheckedAxis_eq hshape hcode.1, hcode.2]
            dsimp only
            omega
      · rw [if_neg hvalid]
        refine iff_of_false ?_ fun hfits => hvalid hfits.1
        rintro ⟨places, hsome, -⟩
        cases hsome
    · rw [if_neg hcoerced] at hdefault
      rw [single_iff (by simp) hcoerced hview (fun _ => le_max_right _ _), hrank, hdefault]
      refine and_congr_right fun hvalid => ?_
      exact iff_of_true ⟨uncheckedAxis_eq hshape hvalid, congrArg (fun l => [l]) hplaced.symm⟩
        (absurd · hcoerced)

/-! ## Elements at indices -/

theorem not_coerced (h : ∀ kind shape, op ≠ .along kind shape) : ¬ op.Coerced node := by
  rintro ⟨-, hcoerced⟩
  cases op with
  | along kind shape => exact h kind shape rfl
  | _ => exact hcoerced

theorem places_of_valid (hreduce : ∀ f shape axes, op ≠ .reduce f shape axes)
    (halong : ∀ kind shape, op ≠ .along kind shape)
    (hvalid : ValidAxis op.rank (op.axis node)) :
    op.places node = some [placeOfAxis op.rank (op.axis node)] := by
  rw [places_single hreduce (not_coerced halong), if_pos hvalid]

theorem scatterElements_iff {data : List Nat}
    (h : AxisNode (.scatterElements data) node shapes initializers) :
    (AxisOp.scatterElements data).InPlace node shapes initializers ↔
      (AxisOp.scatterElements data).Fits node shapes initializers := by
  obtain ⟨info, hin, hshape⟩ := lookup_first h (List.mem_singleton.2 rfl)
  obtain ⟨hindices, hupdates⟩ := h.given
  obtain ⟨indices, hindices⟩ := Option.isSome_iff_exists.1 hindices
  obtain ⟨updates, hupdates⟩ := Option.isSome_iff_exists.1 hupdates
  obtain ⟨output, outputs, houtputs⟩ := List.exists_cons_of_ne_nil h.outputs
  have hview : ∀ beyond, (AxisOp.scatterElements data).view beyond node shapes initializers =
      some ⟨[uncheckedAxis info (getAttributeInt node "axis" 0)], max 4 data.length,
        [padToMinDims data 4]⟩ := by
    intro beyond
    simp only [AxisOp.view, translateScatterElements, hin, hindices, hupdates, houtputs,
      Option.map_some, AxisOp.viewOf, AxisOp.axesOf, AxisOp.sizesOf, List.getD_cons_zero,
      List.map_cons, List.map_nil, sizes_padded hshape, BroadcastingLemmas.length_padToMinDims]
  rw [single_iff (by simp) (not_coerced (by simp)) hview fun _ => le_max_right _ _]
  refine and_iff_left_of_imp fun hvalid => ⟨uncheckedAxis_eq hshape hvalid, ?_⟩
  exact congrArg (fun l => [l]) (padToMinDims_max data).symm

theorem gatherElements_iff {data indices : List Nat}
    (h : AxisNode (.gatherElements data indices) node shapes initializers) :
    (AxisOp.gatherElements data indices).InPlace node shapes initializers ↔
      (AxisOp.gatherElements data indices).Fits node shapes initializers := by
  obtain ⟨info, hin, hshape⟩ := lookup_first h (List.mem_cons_self ..)
  obtain ⟨indicesInfo, hindices, hindicesShape⟩ := h.inputs (1, indices) (by simp [AxisOp.inputs])
  obtain ⟨output, outputs, houtputs⟩ := List.exists_cons_of_ne_nil h.outputs
  have hview : ∀ beyond, (AxisOp.gatherElements data indices).view beyond node shapes initializers =
      some ⟨[uncheckedAxis info (getAttributeInt node "axis" 0)], max 4 data.length,
        [padToMinDims (((outEdge node shapes).map DmlTensorInfo.sizes).getD indicesInfo.sizes)
          4]⟩ := by
    intro beyond
    simp only [AxisOp.view, translateGatherElements, hin, hindices, houtputs, Option.map_some,
      AxisOp.viewOf, AxisOp.axesOf, AxisOp.sizesOf, List.getD_cons_zero, List.map_cons,
      List.map_nil, sizes_padded hshape, BroadcastingLemmas.length_padToMinDims]
    rfl
  rw [single_iff (by simp) (not_coerced (by simp)) hview fun _ => le_max_right _ _]
  refine and_iff_left_of_imp fun hvalid => ⟨uncheckedAxis_eq hshape hvalid, ?_⟩
  have houtput := output_eq h (places_of_valid (by simp) (by simp) hvalid) indices
    indicesInfo.sizes rfl fun _ => by
      rw [hindicesShape.sizes]
      exact BroadcastingLemmas.padToMinDims_padToMinDims _ (by omega)
  have hlen : indices.length = data.length := h.given
  have hplaced : padToMinDims indices (max 4 data.length) = padToMinDims indices 4 := by
    rw [← hlen, padToMinDims_max]
  exact congrArg (fun l => [l]) (houtput.trans hplaced.symm)

theorem recorded_edge (h : AxisNode op node shapes initializers) {places out : List Nat}
    {edge : DmlTensorInfo} (hedge : outEdge node shapes = some edge)
    (hplaces : op.places node = some places) (hresults : op.results node places = [out]) :
    edge.HasShape out := by
  obtain ⟨output, outputs, houtputs⟩ := List.exists_cons_of_ne_nil h.outputs
  have hrecord : shapes output = some edge := by
    rw [← hedge, outEdge, houtputs]
    rfl
  obtain ⟨out', hout', hshape⟩ := h.recorded places hplaces 0 output edge (by rw [houtputs]; rfl)
    hrecord
  rw [hresults] at hout'
  obtain rfl := Option.some.inj hout'
  exact hshape

theorem names_two {info info' : DmlTensorInfo} (hin : lookupInput node shapes 0 = some info)
    (hin' : lookupInput node shapes 1 = some info') :
    ∃ name name' names, getNodeInputNames node = name :: name' :: names ∧
      shapes name = some info ∧ shapes name' = some info' := by
  rw [lookupInput] at hin hin'
  cases hnames : getNodeInputNames node with
  | nil =>
    rw [hnames] at hin
    cases hin
  | cons name names =>
    rw [hnames] at hin hin'
    cases names with
    | nil => cases hin'
    | cons name' names => exact ⟨name, name', names, rfl, hin, hin'⟩

theorem rank_of_valid {info : DmlTensorInfo} {shape : List Nat} {a : Int} (h : info.HasShape shape)
    (hvalid : ValidAxis shape.length a) : info.rank = shape.length := by
  rw [rank_eq h, AxisOp.readRank, if_neg]
  rintro rfl
  unfold ValidAxis at hvalid
  simp only [List.length_nil] at hvalid
  omega

theorem gather_iff {data indices : List Nat}
    (h : AxisNode (.gather data indices) node shapes initializers) :
    (AxisOp.gather data indices).InPlace node shapes initializers ↔
      (AxisOp.gather data indices).Fits node shapes initializers := by
  obtain ⟨info, hin, hshape⟩ := lookup_first h (List.mem_cons_self ..)
  obtain ⟨indicesInfo, hindices, hindicesShape⟩ := h.inputs (1, indices) (by simp [AxisOp.inputs])
  obtain ⟨edge, hedge⟩ := Option.isSome_iff_exists.1 h.given
  obtain ⟨count, hcount⟩ : ∃ count, count =
      max (max info.rank indicesInfo.indicesRank) (max edge.rank 4) := ⟨_, rfl⟩
  obtain ⟨a, ha⟩ : ∃ a, a = (AxisOp.gather data indices).axis node := ⟨_, rfl⟩
  have hview : ∀ beyond, (AxisOp.gather data indices).view beyond node shapes initializers =
      some ⟨[toUInt32 ((count - info.rank : Nat) + if a < 0 then a + info.rank else a)],
        max 4 (max count (max 4 data.length)),
        [padToMinDims (padToMinDims edge.sizes count) 4]⟩ := by
    intro beyond
    obtain ⟨name, name', names, hnames, hname, hname'⟩ := names_two hin hindices
    obtain ⟨output, outputs, houtputs⟩ := List.exists_cons_of_ne_nil h.outputs
    have houtput : shapes output = some edge := by
      rw [← hedge, outEdge, houtputs]
      rfl
    have haxis : getAttributeInt node "axis" 0 = a := ha.symm
    rw [AxisOp.view, translateGather, hnames, houtputs]
    simp only [hname, hname', houtput, Option.map_some, AxisOp.viewOf, AxisOp.axesOf,
      AxisOp.sizesOf, List.getD_cons_zero, List.map_cons, List.map_nil, haxis, ← hcount]
    change some (AxisView.mk _ (padToMinDims (padToMinDims info.sizes count) 4).length _) = _
    rw [BroadcastingLemmas.length_padToMinDims, BroadcastingLemmas.length_padToMinDims,
      length_sizes hshape]
    rfl
  rw [single_iff (by simp) (not_coerced (by simp)) hview (fun _ => by
    change data.length ≤ _
    omega), ← ha]
  change ValidAxis data.length a ∧ _ ↔ ValidAxis data.length _
  rw [← ha]
  refine and_iff_left_of_imp fun hvalid => ?_
  have hrank := rank_of_valid hshape hvalid
  have hvalid' : ValidAxis (AxisOp.gather data indices).rank
      ((AxisOp.gather data indices).axis node) := ha ▸ hvalid
  have hedgeShape := recorded_edge h hedge (places_of_valid (by simp) (by simp) hvalid') rfl
  have hlt := placeOfAxis_lt hvalid
  have hsmall : data.length < 2 ^ 32 := hshape.small
  have hindicesSmall : indicesInfo.indicesRank < 2 ^ 32 :=
    lt_of_eq_of_lt hindicesShape.originalRank hindicesShape.small
  have hedgeSmall : edge.rank < 2 ^ 32 := by
    rw [rank_eq hedgeShape, AxisOp.readRank]
    split
    · decide
    · exact hedgeShape.small
  have hcountSmall : count < 2 ^ 32 := by omega
  have hdata : data.length ≤ count := by omega
  have hfour : 4 ≤ count := by omega
  have hdims : max 4 (max count (max 4 data.length)) = count := by omega
  rw [hdims]
  refine ⟨?_, ?_⟩
  · change _ = placeOfAxis data.length a + (count - data.length)
    unfold ValidAxis at hvalid
    rw [hrank, toUInt32, placeOfAxis]
    split
    · omega
    · omega
  · change _ = [padToMinDims _ count]
    rw [padToMinDims_long (by rw [BroadcastingLemmas.length_padToMinDims]; omega),
      hedgeShape.sizes, BroadcastingLemmas.padToMinDims_padToMinDims _ (by omega), ← ha]

/-! ## One more dimension -/

theorem oneHot_iff {indices : List Nat} {depth : Nat}
    (h : AxisNode (.oneHot indices depth) node shapes initializers) :
    (AxisOp.oneHot indices depth).InPlace node shapes initializers ↔
      (AxisOp.oneHot indices depth).Fits node shapes initializers := by
  obtain ⟨info, hin, hshape⟩ := lookup_first h (List.mem_singleton.2 rfl)
  obtain ⟨hvalues, hgiven⟩ := h.given
  obtain ⟨values, hvalues⟩ := Option.isSome_iff_exists.1 hvalues
  obtain ⟨edge, hedge⟩ := Option.isSome_iff_exists.1 hgiven
  obtain ⟨a, ha⟩ : ∃ a, a = (AxisOp.oneHot indices depth).axis node := ⟨_, rfl⟩
  have hview : ∀ beyond, (AxisOp.oneHot indices depth).view beyond node shapes initializers =
      some ⟨[toUInt32 ((if a < 0 then a + (info.rank + 1) else a) +
        (edge.sizes.length - edge.rank))], max 4 edge.sizes.length,
        [padToMinDims edge.sizes 4]⟩ := by
    intro beyond
    have haxis : getAttributeInt node "axis" (-1) = a := ha.symm
    simp only [AxisOp.view, translateOneHot, hin, hvalues, hedge, Option.map_some, AxisOp.axesOf,
      AxisOp.sizesOf, List.getD_cons_zero, List.map_cons, List.map_nil, haxis]
    change some (AxisView.mk _ (padToMinDims edge.sizes 4).length _) = _
    rw [BroadcastingLemmas.length_padToMinDims]
    rfl
  have hedgeShape : ValidAxis (indices.length + 1) a → edge.HasShape
      (indices.take (placeOfAxis (indices.length + 1) a) ++
        depth :: indices.drop (placeOfAxis (indices.length + 1) a)) := by
    rintro hvalid
    rw [ha] at hvalid ⊢
    exact recorded_edge h hedge (places_of_valid (by simp) (by simp) hvalid) rfl
  have hlength : ∀ place ≤ indices.length,
      (indices.take place ++ depth :: indices.drop place).length = indices.length + 1 := by
    intro place hplace
    rw [List.length_append, List.length_cons, List.length_take, List.length_drop]
    omega
  have hcount : ValidAxis (indices.length + 1) a →
      max 4 edge.sizes.length = max 4 (indices.length + 1) := by
    intro hvalid
    have hlt := placeOfAxis_lt hvalid
    have hsizes := length_sizes (hedgeShape hvalid)
    rw [hlength _ (by omega)] at hsizes
    omega
  rw [single_iff (by simp) (not_coerced (by simp)) hview (fun hvalid => by
    rw [hcount (ha ▸ hvalid)]
    exact le_max_right _ _), ← ha]
  change ValidAxis (indices.length + 1) a ∧ _ ↔ ValidAxis (indices.length + 1) _ ∧ _
  rw [← ha]
  refine and_congr_right fun hvalid => ?_
  have hedgeShape := hedgeShape hvalid
  have hlt := placeOfAxis_lt hvalid
  have hlen := hlength (placeOfAxis (indices.length + 1) a) (by omega)
  have hsmall := hedgeShape.small
  rw [hlen] at hsmall
  have hsizes : edge.sizes.length = max 4 (indices.length + 1) := hlen ▸ length_sizes hedgeShape
  have hrank : edge.rank = indices.length + 1 := by
    rw [rank_eq hedgeShape, AxisOp.readRank, if_neg (by simp), hlen]
  rw [hcount hvalid, hsizes, hrank, hedgeShape.sizes, BroadcastingLemmas.padToMinDims_padToMinDims _
    (by omega), rank_eq hshape, AxisOp.readRank]
  refine and_congr ?_ ?_
  · change _ = placeOfAxis (indices.length + 1) a +
      (max 4 (indices.length + 1) - (indices.length + 1)) ↔ _
    unfold ValidAxis at hvalid
    rw [toUInt32, placeOfAxis]
    -- the rank of a scalar is read as 4
    by_cases hscalar : indices = []
    · subst hscalar
      simp only [if_true, List.length_nil] at hvalid ⊢
      by_cases hneg : a < 0
      · simp only [hneg, if_true]
        refine iff_of_false (by omega) (by simp; omega)
      · simp only [hneg, if_false]
        refine iff_of_true (by omega) (Or.inr (by omega))
    · have hpos := List.length_pos_of_ne_nil hscalar
      simp only [hscalar, if_false]
      refine iff_of_true ?_ (Or.inl hscalar)
      split
      · omega
      · omega
  · exact ⟨fun hview => List.singleton_inj.1 hview, fun hfits => congrArg (fun l => [l]) hfits⟩

/-! ## Reduced sizes -/

theorem length_removeAt_le (l places : List Nat) : (removeAt l places).length ≤ l.length := by
  rw [removeAt, List.length_map]
  exact (List.length_filter_le _ _).trans (by rw [List.length_zipIdx])

theorem replaceAt_padded (shape places : List Nat) (size : Nat) :
    replaceAt (padToMinDims shape 4) (places.map (· + (max 4 shape.length - shape.length))) size =
      padToMinDims (replaceAt shape places size) 4 := by
  rw [padded_eq, padded_eq, replaceAt_ones, length_replaceAt]

/-- Dimensions that are left out before the padding or behind it. -/
theorem removeAt_padded (shape places : List Nat) :
    padToMinDims (removeAt (padToMinDims shape 4)
      (places.map (· + (max 4 shape.length - shape.length)))) 4 =
      padToMinDims (removeAt shape places) 4 := by
  have hle := length_removeAt_le shape places
  rw [padded_eq shape, removeAt_ones, padToMinDims_ones (by omega)]

theorem reduced_fallback {info : DmlTensorInfo} {shape : List Nat} (h : info.HasShape shape)
    (keepdims : Bool) (places : List Nat) :
    padToMinDims (if keepdims then
        replaceAt info.sizes (places.map (· + (max 4 shape.length - shape.length))) 1
      else removeAt info.sizes (places.map (· + (max 4 shape.length - shape.length)))) 4 =
      padToMinDims (if keepdims then replaceAt shape places 1 else removeAt shape places) 4 := by
  rw [h.sizes]
  cases keepdims with
  | true =>
    simp only [if_true]
    rw [replaceAt_padded, BroadcastingLemmas.padToMinDims_padToMinDims _ (by omega)]
  | false =>
    simp only [Bool.false_eq_true, if_false]
    rw [removeAt_padded]

theorem reduced_iff (keepdims : Bool) (shape places : List Nat) :
    padToMinDims (if keepdims then replaceAt shape places 1 else removeAt shape places) 4 =
        replaceAt (padToMinDims shape (max 4 shape.length))
          (places.map (· + (max 4 shape.length - shape.length))) 1 ↔
      (¬ keepdims → AxisOp.RemovesInPlace shape places) := by
  rw [padToMinDims_max]
  cases keepdims with
  | true => simp [replaceAt_padded]
  | false => simp [AxisOp.RemovesInPlace]

theorem keepdims_iff : AxisOp.keepdims node ↔ getAttributeInt node "keepdims" 1 ≠ 0 :=
  bne_iff_ne

theorem arg_view {largest : Bool} {shape : List Nat} {info : DmlTensorInfo}
    (hin : lookupInput node shapes 0 = some info) (hshape : info.HasShape shape)
    (hout : getNodeOutputNames node ≠ []) (beyond : Nat → UInt8) :
    (AxisOp.arg largest shape).view beyond node shapes initializers =
      some ⟨[uncheckedAxis info (getAttributeInt node "axis" 0)], max 4 shape.length,
        [padToMinDims (((outEdge node shapes).map DmlTensorInfo.sizes).getD
          (if AxisOp.keepdims node then
            replaceAt info.sizes [(windowAxis info (getAttributeInt node "axis" 0)).toNat] 1
          else removeAt info.sizes [(windowAxis info (getAttributeInt node "axis" 0)).toNat]))
          4]⟩ := by
  rw [AxisOp.view, translateArgMaxMin, withShapes_eq hin hout]
  simp only [Option.map_some, AxisOp.viewOf, AxisOp.sizesOf, List.getD_cons_zero, List.map_cons,
    List.map_nil, sizes_padded hshape, BroadcastingLemmas.length_padToMinDims]
  rw [removeAt_single]
  have haxes : ∀ n direction, AxisOp.axesOf
      ((if largest then AxisDesc.argMax else .argMin) n direction) = [n] := by
    intro n direction
    cases largest with
    | true => rfl
    | false => rfl
  rw [haxes]
  by_cases hkeep : AxisOp.keepdims node
  · rw [if_pos hkeep, if_pos (keepdims_iff.1 hkeep)]
    rfl
  · rw [if_neg hkeep, if_neg fun hne => hkeep (keepdims_iff.2 hne)]
    cases herase : info.sizes.eraseIdx (windowAxis info (getAttributeInt node "axis" 0)).toNat with
    | nil =>
      have hlen := congrArg List.length herase
      rw [List.length_eraseIdx, length_sizes hshape, List.length_nil] at hlen
      split at hlen
      · omega
      · omega
    | cons d kept => rfl

theorem arg_iff {largest : Bool} {shape : List Nat}
    (h : AxisNode (.arg largest shape) node shapes initializers) :
    (AxisOp.arg largest shape).InPlace node shapes initializers ↔
      (AxisOp.arg largest shape).Fits node shapes initializers := by
  obtain ⟨info, hin, hshape⟩ := lookup_first h (List.mem_singleton.2 rfl)
  obtain ⟨a, ha⟩ : ∃ a, a = getAttributeInt node "axis" 0 := ⟨_, rfl⟩
  have haxis : (AxisOp.arg largest shape).axis node = a := ha.symm
  have hview : ∀ beyond, (AxisOp.arg largest shape).view beyond node shapes initializers = _ :=
    arg_view hin hshape h.outputs
  rw [← ha] at hview
  rw [single_iff (by simp) (not_coerced (by simp)) hview fun _ => le_max_right _ _]
  refine and_congr_right fun hvalid => ?_
  have hplaces := places_of_valid (by simp) (by simp) hvalid
  rw [haxis] at hvalid hplaces ⊢
  have hvalid : ValidAxis shape.length a := hvalid
  have houtput := output_eq h hplaces _ _ rfl fun _ =>
    reduced_fallback hshape (AxisOp.keepdims node) [placeOfAxis shape.length a]
  have hplace : (windowAxis info a).toNat =
      placeOfAxis shape.length a + (max 4 shape.length - shape.length) := by
    rw [windowAxis_eq hshape hvalid, Int.toNat_natCast]
  have houtputs := reduced_iff (AxisOp.keepdims node) shape [placeOfAxis shape.length a]
  rw [hplace]
  constructor
  · rintro ⟨-, hview⟩
    exact houtputs.1 (houtput.symm.trans (List.singleton_inj.1 hview))
  · intro hfits
    exact ⟨uncheckedAxis_eq hshape hvalid,
      congrArg (fun l => [l]) (houtput.trans (houtputs.2 hfits))⟩

/-! ## Joins -/

/-- The records of several inputs. -/
theorem records_of_lookup {names : List String} {l : List (List Nat)}
    (hlen : names.length = l.length)
    (h : ∀ (i : Nat) shape, l[i]? = some shape →
      ∃ info, names[i]?.bind shapes = some info ∧ info.HasShape shape) :
    ∃ infos, names.mapM shapes = some infos ∧ List.Forall₂ DmlTensorInfo.HasShape infos l := by
  induction l generalizing names with
  | nil =>
    obtain rfl := List.length_eq_zero_iff.1 hlen
    exact ⟨[], rfl, .nil⟩
  | cons shape l ih =>
    cases names with
    | nil => cases hlen
    | cons name names =>
      obtain ⟨info, hinfo, hshape⟩ := h 0 shape rfl
      obtain ⟨infos, hinfos, hshapes⟩ := ih (Nat.succ.inj hlen) fun i => h (i + 1)
      refine ⟨info :: infos, ?_, .cons hshape hshapes⟩
      rw [List.mapM_cons, show shapes name = some info from hinfo, hinfos]
      rfl

theorem getD_padded (l : List Nat) (place : Nat) :
    (padToMinDims l 4).getD (place + (max 4 l.length - l.length)) 0 = l.getD place 0 := by
  rw [padded_eq, List.getD_append_right _ _ _ _ (by simp), List.length_replicate,
    Nat.add_sub_cancel]

theorem joinedSize_eq (infos : List DmlTensorInfo) (axis : Nat) :
    joinedSize infos axis = (infos.map fun info => info.sizes.getD axis 0).sum % 2 ^ 32 := by
  have hfrom : ∀ total, infos.foldl (fun total info =>
      (total + info.sizes.getD axis 0) % 2 ^ 32) (total % 2 ^ 32) =
      (total + (infos.map fun info => info.sizes.getD axis 0).sum) % 2 ^ 32 := by
    induction infos with
    | nil => intro total; rfl
    | cons info infos ih =>
      intro total
      rw [List.foldl_cons, Nat.mod_add_mod, ih, List.map_cons, List.sum_cons, Nat.add_assoc]
  exact (hfrom 0).trans (by rw [Nat.zero_add])

theorem joined_records {infos : List DmlTensorInfo} {l : List (List Nat)} {rank place : Nat}
    (h : List.Forall₂ DmlTensorInfo.HasShape infos l) (hrank : ∀ shape ∈ l, shape.length = rank) :
    joinedSize (infos.map fun info => makeTensorInfo info.sizes info.dataType)
        (place + (max 4 rank - rank)) =
      (l.map fun shape => shape.getD place 0).sum % 2 ^ 32 := by
  rw [joinedSize_eq, List.map_map]
  congr 2
  induction h with
  | nil => rfl
  | cons hshape hshapes ih =>
    rw [List.map_cons, List.map_cons, ih fun shape hmem => hrank shape (List.mem_cons_of_mem _ hmem),
      Function.comp_apply, sizes_padded hshape, ← hrank _ List.mem_cons_self, getD_padded]

theorem concat_view {first : List Nat} {others : List (List Nat)}
    (h : AxisNode (.concat first others) node shapes initializers) :
    ∃ info infos, info.HasShape first ∧
      List.Forall₂ DmlTensorInfo.HasShape infos (first :: others) ∧
      ∀ beyond, (AxisOp.concat first others).view beyond node shapes initializers =
        some ⟨[uncheckedAxis info (getAttributeInt node "axis" 0)], max 4 first.length,
          [padToMinDims (((outEdge node shapes).map fun edge => padToMinDims edge.sizes 4).getD
            ((padToMinDims first 4).set (uncheckedAxis info (getAttributeInt node "axis" 0))
              (joinedSize (infos.map fun info => makeTensorInfo info.sizes info.dataType)
                (uncheckedAxis info (getAttributeInt node "axis" 0))))) 4]⟩ := by
  obtain ⟨hnames, -⟩ := h.given
  have hinputs : ∀ (i : Nat) shape, (first :: others)[i]? = some shape →
      ∃ info, (getNodeInputNames node)[i]?.bind shapes = some info ∧ info.HasShape shape := by
    intro i shape hshape
    refine h.inputs (i, shape) (List.mem_iff_getElem?.2 ⟨i, ?_⟩)
    rw [AxisOp.inputs, List.getElem?_mapIdx, hshape]
    rfl
  obtain ⟨info, hin, hshape⟩ := hinputs 0 first rfl
  obtain ⟨infos, hinfos, hshapes⟩ := records_of_lookup hnames hinputs
  refine ⟨{ info with sizes := padToMinDims first 4 }, infos,
    ⟨rfl, hshape.originalRank, hshape.small⟩, hshapes, fun beyond => ?_⟩
  obtain ⟨head, tail, hhead, htail, rfl⟩ := List.forall₂_cons_right_iff.1 hshapes
  rw [AxisOp.view, translateConcat, withShapes_eq hin h.outputs, hinfos]
  simp only [Option.map_some, AxisOp.viewOf, AxisOp.axesOf, AxisOp.sizesOf, List.map_cons,
    List.headD_cons, List.getD_cons_zero, List.map_nil, sizes_padded hhead,
    BroadcastingLemmas.length_padToMinDims]
  rfl

theorem set_injective {l : List Nat} {i m n : Nat} (hi : i < l.length) :
    l.set i m = l.set i n ↔ m = n := by
  constructor
  · intro h
    have hget := congrArg (fun l => l[i]?) h
    simpa [hi] using hget
  · rintro rfl
    rfl

/-- The sizes of a join in place. -/
theorem set_padded (shape : List Nat) (place size : Nat) :
    (padToMinDims shape 4).set (place + (max 4 shape.length - shape.length)) size =
      padToMinDims (shape.set place size) 4 :=
  replaceAt_padded shape [place] size

theorem concat_iff {first : List Nat} {others : List (List Nat)}
    (h : AxisNode (.concat first others) node shapes initializers) :
    (AxisOp.concat first others).InPlace node shapes initializers ↔
      (AxisOp.concat first others).Fits node shapes initializers := by
  obtain ⟨info, infos, hshape, hshapes, hview⟩ := concat_view h
  obtain ⟨-, hothers⟩ := h.given
  obtain ⟨a, ha⟩ : ∃ a, a = (AxisOp.concat first others).axis node := ⟨_, rfl⟩
  have hcode : ValidAxis first.length a →
      ValidAxis first.length (getAttributeInt node "axis" 0) := by
    intro hvalid
    have haxis : a = getAttributeInt node "axis" (if node.sinceVersion < 4 then 1 else 0) := ha
    rcases attribute_cases node "axis" 0 (if node.sinceVersion < 4 then 1 else 0) with
      heq | ⟨hzero, -⟩
    · rw [heq, ← haxis]
      exact hvalid
    · have hlt := placeOfAxis_lt hvalid
      rw [hzero]
      exact ⟨by omega, by omega⟩
  rw [single_iff (by simp) (not_coerced (by simp)) hview fun _ => le_max_right _ _, ← ha]
  change ValidAxis first.length a ∧ _ ↔ ValidAxis first.length _ ∧ _
  rw [← ha]
  refine and_congr_right fun hvalid => ?_
  have hlt := placeOfAxis_lt hvalid
  have hplaces := places_of_valid (by simp) (by simp) (ha ▸ hvalid)
  rw [uncheckedAxis_eq hshape (hcode hvalid)]
  change _ = placeOfAxis first.length a + (max 4 first.length - first.length) ∧ _ ↔ _
  rw [Nat.add_right_cancel_iff]
  refine and_congr_right fun hplace => ?_
  have hlen : (padToMinDims first 4).length = max 4 first.length :=
    BroadcastingLemmas.length_padToMinDims _ _
  have hrank : ∀ shape ∈ first :: others, shape.length = first.length := by
    intro shape hmem
    rcases List.mem_cons.1 hmem with rfl | hmem
    · rfl
    · exact hothers shape hmem
  have htotal : joinedSize (infos.map fun info => makeTensorInfo info.sizes info.dataType)
      (placeOfAxis first.length a + (max 4 first.length - first.length)) =
      AxisOp.totalSize first others (placeOfAxis first.length a) % 2 ^ 32 :=
    joined_records hshapes hrank
  rw [hplace, htotal]
  have hinPlace : (AxisOp.concat first others).inPlace node (max 4 first.length)
      [placeOfAxis (AxisOp.concat first others).rank a] =
      [(padToMinDims first 4).set
        (placeOfAxis first.length a + (max 4 first.length - first.length))
        (AxisOp.totalSize first others (placeOfAxis first.length a))] := by
    rw [← padToMinDims_max]
    rfl
  rw [hinPlace]
  cases hedge : outEdge node shapes with
  | none =>
    simp only [Option.map_none, Option.getD_none, Option.isSome_none, Bool.false_eq_true, false_or,
      List.singleton_inj]
    rw [padToMinDims_long (by rw [List.length_set]; omega), set_injective (by omega)]
    change _ ↔ AxisOp.totalSize first others (placeOfAxis first.length a) < 2 ^ 32
    omega
  | some edge =>
    have hedgeShape := recorded_edge h hedge hplaces rfl
    refine iff_of_true ?_ (Or.inl rfl)
    rw [Option.map_some, Option.getD_some, hedgeShape.sizes, set_padded,
      BroadcastingLemmas.padToMinDims_padToMinDims _ (by omega),
      BroadcastingLemmas.padToMinDims_padToMinDims _ (by omega), ← ha]
    rfl

theorem joinOf_eq {t : TranslatedOp AxisDesc} {front back : List (SubNode AxisDesc)}
    {join : SubNode AxisDesc} {axis : Nat} {inputs : List DmlTensorInfo} {out : DmlTensorInfo}
    (hsub : t.subNodes = front ++ join :: back)
    (hfront : ∀ sub ∈ front, AxisOp.axesOf sub.opDesc = [])
    (hjoin : join.opDesc = .join axis inputs out) :
    AxisOp.joinOf t = ⟨[axis], (AxisOp.sizesOf inputs 0).length, [out.sizes]⟩ := by
  have hnone : (front.map SubNode.opDesc).find? (fun desc => !(AxisOp.axesOf desc).isEmpty) =
      none := by
    refine List.find?_eq_none.2 fun desc hmem => ?_
    obtain ⟨sub, hsub, rfl⟩ := List.mem_map.1 hmem
    rw [hfront sub hsub]
    decide
  have hfind : (t.subNodes.map SubNode.opDesc).find? (fun desc => !(AxisOp.axesOf desc).isEmpty) =
      some (.join axis inputs out) := by
    rw [hsub, List.map_append, List.map_cons, hjoin, List.find?_append, hnone, Option.none_or]
    exact List.find?_cons_of_pos rfl
  rw [AxisOp.joinOf, hfind]

theorem qLinearConcat_view {first : List Nat} {others : List (List Nat)} {edge : DmlTensorInfo}
    (h : AxisNode (.qLinearConcat first others) node shapes initializers)
    (hedge : outEdge node shapes = some edge) (beyond : Nat → UInt8) :
    (AxisOp.qLinearConcat first others).view beyond node shapes initializers =
      some ⟨[toUInt32 (if getAttributeInt node "axis" 0 < 0 then
          getAttributeInt node "axis" 0 + edge.sizes.length else getAttributeInt node "axis" 0)],
        max 4 first.length, [padToMinDims edge.sizes 4]⟩ := by
  obtain ⟨hnames, hvalid, -, -⟩ := h.given
  obtain ⟨info, hin, hshape⟩ := h.inputs (2, first)
    (List.mem_iff_getElem?.2 ⟨0, by simp [AxisOp.inputs]⟩)
  obtain ⟨infos, hinfos⟩ : ∃ infos, (getNodeInputNames node).mapM shapes = some infos := by
    refine ⟨(getNodeInputNames node).map fun name => (shapes name).getD {}, mapM_eq_some_iff.2 ?_⟩
    refine List.forall₂_map_right_iff.2 (List.forall₂_same.2 fun name hmem => ?_)
    obtain ⟨info, hinfo⟩ := Option.isSome_iff_exists.1 (hvalid name hmem).2
    rw [hinfo]
    rfl
  have hfirst : infos.getD 2 {} = info := by
    obtain ⟨hlen, hget⟩ := List.forall₂_iff_get.1 (mapM_eq_some_iff.1 hinfos)
    have hlt : 2 < (getNodeInputNames node).length := by omega
    have hrecord := hget 2 hlt (hlen ▸ hlt)
    have hin : shapes ((getNodeInputNames node).get ⟨2, hlt⟩) = some info := by
      rw [lookupInput, List.getElem?_eq_getElem hlt] at hin
      exact hin
    rw [List.getD_eq_getElem _ _ (hlen ▸ hlt)]
    exact Option.some.inj (hrecord.symm.trans hin)
  have hguard : ¬ ((getNodeInputNames node).length < 5 ∨ getNodeOutputNames node = [] ∨
      ((getNodeInputNames node).length - 2) % 3 ≠ 0 ∨ "" ∈ getNodeInputNames node) := by
    rintro (hshort | hout | hmod | hmem)
    · omega
    · exact h.outputs hout
    · omega
    · exact (hvalid "" hmem).1 rfl
  rw [AxisOp.view, translateQLinearConcat]
  simp only [hguard, if_false, hedge, hinfos, Option.map_some]
  rw [joinOf_eq rfl (fun sub hmem => ?_) rfl]
  · have hcount : ((getNodeInputNames node).length - 2) / 3 = others.length + 1 := by omega
    have hdims : (AxisOp.sizesOf ((List.range (others.length + 1)).map fun t =>
        makeTensorInfo (infos.getD (2 + t * 3) {}).sizes .float32) 0).length =
        max 4 first.length := by
      rw [AxisOp.sizesOf, List.range_succ_eq_map, List.map_cons, List.getD_cons_zero, Nat.zero_mul,
        hfirst, sizes_padded hshape, BroadcastingLemmas.length_padToMinDims]
    rw [hcount, hdims]
    rfl
  · obtain ⟨t, -, rfl⟩ := List.mem_map.1 hmem
    rfl

/-- The axis is counted in the padded dimensions of the output. -/
theorem qLinearConcat_iff {first : List Nat} {others : List (List Nat)}
    (h : AxisNode (.qLinearConcat first others) node shapes initializers) :
    (AxisOp.qLinearConcat first others).InPlace node shapes initializers ↔
      (AxisOp.qLinearConcat first others).Fits node shapes initializers := by
  obtain ⟨-, -, -, hgiven⟩ := h.given
  obtain ⟨edge, hedge⟩ := Option.isSome_iff_exists.1 hgiven
  obtain ⟨a, ha⟩ : ∃ a, a = (AxisOp.qLinearConcat first others).axis node := ⟨_, rfl⟩
  have hcode : getAttributeInt node "axis" 0 = a := ha.symm
  have hview := qLinearConcat_view h hedge
  rw [hcode] at hview
  rw [single_iff (by simp) (not_coerced (by simp)) hview fun _ => le_max_right _ _, ← ha]
  change ValidAxis first.length a ∧ _ ↔ ValidAxis first.length _ ∧ (AxisOp.axis _ node < 0 ∨ _)
  rw [← ha]
  refine and_congr_right fun hvalid => ?_
  have hedgeShape := recorded_edge h hedge (places_of_valid (by simp) (by simp) (ha ▸ hvalid)) rfl
  have hlen : edge.sizes.length = max 4 first.length := by
    rw [length_sizes hedgeShape, List.length_set]
  have hsmall := hedgeShape.small
  rw [List.length_set] at hsmall
  have houtputs : [padToMinDims edge.sizes 4] = (AxisOp.qLinearConcat first others).inPlace node
      (max 4 first.length) [placeOfAxis (AxisOp.qLinearConcat first others).rank a] := by
    rw [hedgeShape.sizes, BroadcastingLemmas.padToMinDims_padToMinDims _ (by omega), ← ha,
      ← set_padded, ← padToMinDims_max first]
    rfl
  rw [and_iff_left houtputs, hlen]
  change _ = placeOfAxis first.length a + (max 4 first.length - first.length) ↔ _
  unfold ValidAxis at hvalid
  rw [toUInt32, placeOfAxis]
  split
  · omega
  · omega

/-! ## Splits -/

theorem mapIdx_eq_map_iff {α β γ : Type} {l : List α} {k : List β} {f : Nat → α → γ} {g : β → γ}
    (d : β) (hlen : k.length = l.length) :
    l.mapIdx f = k.map g ↔ ∀ (i : Nat) x, l[i]? = some x → f i x = g (k.getD i d) := by
  constructor
  · intro heq i x hx
    have hi : i < l.length := (List.getElem?_eq_some_iff.1 hx).1
    have hget := congrArg (fun l => l[i]?) heq
    simp only [List.getElem?_mapIdx, List.getElem?_map, hx, Option.map_some,
      List.getElem?_eq_getElem (hlen ▸ hi), Option.some.injEq] at hget
    rw [hget, List.getD_eq_getElem _ _ (hlen ▸ hi)]
  · intro h
    refine List.ext_getElem (by simp [hlen]) fun i hi hi' => ?_
    rw [List.length_mapIdx] at hi
    rw [List.getElem_mapIdx, List.getElem_map, h i _ (List.getElem?_eq_getElem hi),
      List.getD_eq_getElem _ _ (hlen ▸ hi)]

theorem splitSizes_given {sizes : List Nat} {total : Nat} (hsizes : ∀ s ∈ sizes, s < 2 ^ 32)
    (hattr : getAttributeInts node "split" ≠ [])
    (hgiven : getAttributeInts node "split" = sizes.map Int.ofNat) :
    splitSizes node total = sizes := by
  have hmap : splitSizes node total = (getAttributeInts node "split").map toUInt32 := by
    rw [splitSizes]
    cases hints : getAttributeInts node "split" with
    | nil => exact absurd hints hattr
    | cons s split => rfl
  rw [hmap, hgiven, List.map_map]
  refine (List.map_congr_left fun s hs => ?_).trans (List.map_id sizes)
  have hlt := hsizes s hs
  rw [Function.comp_apply, toUInt32, id]
  change ((s : Int) % 2 ^ 32).toNat = s
  omega

theorem split_view {shape sizes : List Nat} {info : DmlTensorInfo}
    (hin : lookupInput node shapes 0 = some info) (hshape : info.HasShape shape)
    (hout : getNodeOutputNames node ≠ []) (beyond : Nat → UInt8) :
    (AxisOp.split shape sizes).view beyond node shapes initializers =
      some ⟨[uncheckedAxis info (getAttributeInt node "axis" 0)], max 4 shape.length,
        (getNodeOutputNames node).mapIdx fun o name =>
          padToMinDims (((shapes name).map DmlTensorInfo.sizes).getD
            (info.sizes.set (windowAxis info (getAttributeInt node "axis" 0)).toNat
              ((splitSizes node (info.sizes.getD
                (windowAxis info (getAttributeInt node "axis" 0)).toNat 0)).getD o 0))) 4⟩ := by
  rw [AxisOp.view, translateSplit, withShapes_eq hin hout]
  simp only [Option.map_some, AxisOp.viewOf, AxisOp.axesOf, AxisOp.sizesOf, List.getD_cons_zero,
    List.mapIdx_eq_zipIdx_map, List.map_map, sizes_padded hshape,
    BroadcastingLemmas.length_padToMinDims]
  rfl

theorem split_iff {shape sizes : List Nat}
    (h : AxisNode (.split shape sizes) node shapes initializers) :
    (AxisOp.split shape sizes).InPlace node shapes initializers ↔
      (AxisOp.split shape sizes).Fits node shapes initializers := by
  obtain ⟨info, hin, hshape⟩ := lookup_first h (List.mem_singleton.2 rfl)
  obtain ⟨hlen, hsmall, hgiven⟩ := h.given
  obtain ⟨a, ha⟩ : ∃ a, a = (AxisOp.split shape sizes).axis node := ⟨_, rfl⟩
  have hcode : getAttributeInt node "axis" 0 = a := ha.symm
  have hview : ∀ beyond, (AxisOp.split shape sizes).view beyond node shapes initializers = _ :=
    split_view hin hshape h.outputs
  rw [hcode] at hview
  rw [single_iff (by simp) (not_coerced (by simp)) hview fun _ => le_max_right _ _, ← ha]
  change ValidAxis shape.length a ∧ _ ↔ ValidAxis shape.length _ ∧ _
  rw [← ha]
  refine and_congr_right fun hvalid => ?_
  have hlt := placeOfAxis_lt hvalid
  have hplaces := places_of_valid (by simp) (by simp) (ha ▸ hvalid)
  have hplace : (windowAxis info a).toNat =
      placeOfAxis shape.length a + (max 4 shape.length - shape.length) := by
    rw [windowAxis_eq hshape hvalid, Int.toNat_natCast]
  have hlength := BroadcastingLemmas.length_padToMinDims shape 4
  have hrank : (AxisOp.split shape sizes).rank = shape.length := rfl
  rw [hrank, and_iff_right (uncheckedAxis_eq hshape hvalid), hplace, hshape.sizes, getD_padded]
  have hinPlace : (AxisOp.split shape sizes).inPlace node (max 4 shape.length)
      [placeOfAxis shape.length a] =
      sizes.map ((padToMinDims shape 4).set
        (placeOfAxis shape.length a + (max 4 shape.length - shape.length))) := by
    rw [← padToMinDims_max]
    rfl
  rw [hinPlace, mapIdx_eq_map_iff 0 hlen]
  have hindex : placeOfAxis shape.length a + (max 4 shape.length - shape.length) <
      (padToMinDims shape 4).length := by omega
  have hout : ∀ (o : Nat) name, (getNodeOutputNames node)[o]? = some name →
      (padToMinDims (((shapes name).map DmlTensorInfo.sizes).getD ((padToMinDims shape 4).set
          (placeOfAxis shape.length a + (max 4 shape.length - shape.length))
          ((splitSizes node (shape.getD (placeOfAxis shape.length a) 0)).getD o 0))) 4 =
        (padToMinDims shape 4).set
          (placeOfAxis shape.length a + (max 4 shape.length - shape.length)) (sizes.getD o 0) ↔
      (shapes name = none →
        (splitSizes node (shape.getD (placeOfAxis shape.length a) 0)).getD o 0 =
          sizes.getD o 0)) := by
    intro o name hname
    have ho : o < sizes.length := hlen ▸ (List.getElem?_eq_some_iff.1 hname).1
    cases hrecord : shapes name with
    | none =>
      rw [Option.map_none, Option.getD_none,
        padToMinDims_long (by rw [List.length_set]; omega), set_injective hindex]
      simp
    | some record =>
      obtain ⟨out, hout, houtShape⟩ := h.recorded _ hplaces o name record hname hrecord
      refine iff_of_true ?_ (by simp)
      have hresult : out = shape.set (placeOfAxis shape.length a) (sizes.getD o 0) := by
        change (sizes.map (shape.set _))[o]? = some out at hout
        rw [List.getElem?_map, List.getElem?_eq_getElem ho, Option.map_some, Option.some.injEq] at hout
        rw [← hout, List.getD_eq_getElem _ _ ho, ← ha]
        rfl
      rw [Option.map_some, Option.getD_some, houtShape.sizes,
        BroadcastingLemmas.padToMinDims_padToMinDims _ (by omega), hresult, set_padded]
  rw [forall_congr' fun o => forall_congr' fun name => forall_congr' (hout o name)]
  by_cases hattr : getAttributeInts node "split" = []
  · have heven : ∀ (o : Nat) name, (getNodeOutputNames node)[o]? = some name →
        (splitSizes node (shape.getD (placeOfAxis shape.length a) 0)).getD o 0 =
          shape.getD (placeOfAxis shape.length a) 0 / (getNodeOutputNames node).length := by
      intro o name hname
      have ho := (List.getElem?_eq_some_iff.1 hname).1
      rw [splitSizes, hattr]
      exact List.getD_replicate _ ho
    constructor
    · intro hview _ o name hname hrecord
      exact (hview o name hname hrecord).symm.trans (heven o name hname)
    · intro hfits o name hname hrecord
      exact (heven o name hname).trans (hfits hattr o name hname hrecord).symm
  · rw [splitSizes_given hsmall hattr (hgiven hattr)]
    exact iff_of_true (fun _ _ _ _ => rfl) fun hempty => absurd hempty hattr

/-! ## Reductions -/

/-- The sizes of a reduction are those without its axes, or with 1 there. -/
theorem reducedSizes_padded {sizes : List Nat} (hpos : ∀ d ∈ sizes, 0 < d) (keepdims : Bool)
    (axes : List Nat) :
    padToMinDims (reducedSizes keepdims sizes axes) 4 =
      padToMinDims (if keepdims then replaceAt sizes axes 1 else removeAt sizes axes) 4 := by
  cases keepdims with
  | true => rfl
  | false =>
    simp only [reducedSizes, Bool.false_eq_true, if_false]
    rw [← replaceAt, filter_replaceAt hpos]
    cases removeAt sizes axes with
    | nil => rfl
    | cons d kept => rfl

theorem padded_pos {shape : List Nat} (hpos : ∀ d ∈ shape, 0 < d) :
    ∀ d ∈ padToMinDims shape 4, 0 < d := by
  intro d hd
  rcases List.mem_append.1 hd with hone | hmem
  · rw [List.eq_of_mem_replicate hone]
    exact Nat.one_pos
  · exact hpos d hmem

section

variable {function : ReduceFunction} {shape : List Nat} {axes : List Int} {info : DmlTensorInfo}

theorem reduce_places : (AxisOp.reduce function shape axes).places node =
    if axes = [] then some (if AxisOp.noop node then [] else List.range shape.length)
    else if ∀ a ∈ axes, ValidAxis shape.length a then
      some (axes.map (placeOfAxis shape.length))
    else none :=
  rfl

theorem reduce_places_lt {places : List Nat}
    (hplaces : (AxisOp.reduce function shape axes).places node = some places) :
    ∀ place ∈ places, place < shape.length := by
  intro place hmem
  rw [reduce_places] at hplaces
  split_ifs at hplaces with hnil hnoop hvalid
  · cases hplaces
    cases hmem
  · cases hplaces
    exact List.mem_range.1 hmem
  · cases hplaces
    obtain ⟨a, ha, rfl⟩ := List.mem_map.1 hmem
    exact placeOfAxis_lt (hvalid a ha)

/-- The axes that a translation reads. -/
theorem reduceAxes_eq (h : AxisNode (.reduce function shape axes) node shapes initializers)
    (beyond : Nat → UInt8) :
    reduceAxes beyond node initializers = [] ∧ (axes = [] ∨ AxisOp.Hidden node initializers) ∨
      reduceAxes beyond node initializers = axes ∧ axes ≠ [] ∧
        ¬ AxisOp.Hidden node initializers := by
  obtain ⟨hconstant, hattr⟩ := h.given
  by_cases hhidden : AxisOp.Hidden node initializers
  · refine Or.inl ⟨?_, Or.inr hhidden⟩
    rw [reduceAxes, if_pos hhidden.1, hhidden.2]
    rfl
  · have hread : reduceAxes beyond node initializers = axes := by
      rw [reduceAxes]
      split
      · next hpresent =>
        cases hconst : constantInput initializers node 1 with
        | none => exact absurd ⟨hpresent, hconst⟩ hhidden
        | some constant => exact hconstant constant hconst beyond
      · next hpresent => exact hattr (Option.not_isSome_iff_eq_none.1 hpresent)
    by_cases hnil : axes = []
    · exact Or.inl ⟨hread.trans hnil, Or.inl hnil⟩
    · exact Or.inr ⟨hread, hnil, hhidden⟩

theorem reduce_view (hin : lookupInput node shapes 0 = some info) (hshape : info.HasShape shape)
    (hout : getNodeOutputNames node ≠ []) (beyond : Nat → UInt8) :
    (AxisOp.reduce function shape axes).view beyond node shapes initializers =
      if reduceAxes beyond node initializers = [] ∧ AxisOp.noop node then none
      else
        some ⟨if reduceAxes beyond node initializers = [] then List.range (max 4 shape.length)
            else (reduceAxes beyond node initializers).map (uncheckedAxis info),
          max 4 shape.length,
          [padToMinDims (((outEdge node shapes).map DmlTensorInfo.sizes).getD
            (reducedSizes (AxisOp.keepdims node) info.sizes
              (if reduceAxes beyond node initializers = [] then List.range (max 4 shape.length)
              else (reduceAxes beyond node initializers).map (uncheckedAxis info)))) 4]⟩ := by
  have hnoop : AxisOp.noop node ↔ getAttributeInt node "noop_with_empty_axes" 0 ≠ 0 := bne_iff_ne
  rw [AxisOp.view, translateReduce, withShapes_eq hin hout]
  by_cases hreject : reduceAxes beyond node initializers = [] ∧ AxisOp.noop node
  · rw [if_pos hreject, if_pos ⟨hreject.1, hnoop.1 hreject.2⟩]
    rfl
  · rw [if_neg hreject, if_neg fun h => hreject ⟨h.1, hnoop.2 h.2⟩, ← length_sizes hshape]
    refine congrArg some (congrArg₂ (fun d s => AxisView.mk _ d [s]) ?_ rfl)
    change (padToMinDims info.sizes 4).length = _
    rw [padToMinDims_long (by rw [length_sizes hshape]; omega)]

/-- The described sizes, for axes that are the right ones. -/
theorem reduced_outputs (h : AxisNode (.reduce function shape axes) node shapes initializers)
    (hshape : info.HasShape shape) {places emitted : List Nat}
    (hplaces : (AxisOp.reduce function shape axes).places node = some places)
    (hemitted : ∀ d, d ∈ emitted ↔
      ∃ place ∈ places, d = place + (max 4 shape.length - shape.length)) :
    [padToMinDims (((outEdge node shapes).map DmlTensorInfo.sizes).getD
        (reducedSizes (AxisOp.keepdims node) info.sizes emitted)) 4] =
        (AxisOp.reduce function shape axes).inPlace node (max 4 shape.length) places ↔
      (¬ AxisOp.keepdims node → AxisOp.RemovesInPlace shape places) := by
  have hpos : ∀ d ∈ info.sizes, 0 < d := by
    rw [hshape.sizes]
    exact padded_pos fun d hd => h.positive (0, shape) (List.mem_singleton.2 rfl) d hd
  have hmem : ∀ d, d ∈ emitted ↔ d ∈ places.map (· + (max 4 shape.length - shape.length)) := by
    intro d
    rw [hemitted, List.mem_map]
    exact exists_congr fun place => and_congr_right fun _ => eq_comm
  have houtput := output_eq h hplaces _
    (reducedSizes (AxisOp.keepdims node) info.sizes emitted) rfl fun _ => by
      rw [reducedSizes_padded hpos, replaceAt_congr _ hmem, removeAt_congr _ hmem]
      exact reduced_fallback hshape _ _
  have houtputs := reduced_iff (AxisOp.keepdims node) shape places
  constructor
  · intro hview
    exact houtputs.1 (houtput.symm.trans (List.singleton_inj.1 hview))
  · intro hfits
    exact congrArg (fun l => [l]) (houtput.trans (houtputs.2 hfits))

theorem reduce_iff (h : AxisNode (.reduce function shape axes) node shapes initializers) :
    (AxisOp.reduce function shape axes).InPlace node shapes initializers ↔
      (AxisOp.reduce function shape axes).Fits node shapes initializers := by
  obtain ⟨info, hin, hshape⟩ := lookup_first h (List.mem_singleton.2 rfl)
  have hview : ∀ beyond, (AxisOp.reduce function shape axes).view beyond node shapes initializers =
      _ := reduce_view hin hshape h.outputs
  have hlen := le_max_right 4 shape.length
  by_cases hunseen : axes = [] ∨ AxisOp.Hidden node initializers
  · have hread : ∀ beyond, reduceAxes beyond node initializers = [] := by
      intro beyond
      rcases reduceAxes_eq h beyond with ⟨hnil, -⟩ | ⟨-, hne, hseen⟩
      · exact hnil
      · exact absurd hunseen (not_or.2 ⟨hne, hseen⟩)
    simp only [hread, true_and, if_true] at hview
    by_cases hnoop : AxisOp.noop node
    · simp only [hnoop, if_true] at hview
      refine iff_of_true (fun beyond v hv => ?_) (Or.inl ⟨hunseen, hnoop⟩)
      rw [hview] at hv
      cases hv
    · simp only [hnoop, Bool.false_eq_true, if_false] at hview
      rw [inPlace_of_view hview]
      change _ ↔ _ ∨ _
      rw [or_iff_right fun hreject => hnoop hreject.2]
      refine exists_congr fun places => and_congr_right fun hplaces => ?_
      have hplaced := reduce_places_lt hplaces
      -- all dimensions are described, those of the padding, too
      have haxes : (∀ d, d ∈ List.range (max 4 shape.length) ↔ ∃ place ∈ places,
          d = place + (max 4 shape.length - shape.length)) ↔
          4 ≤ shape.length ∧ ∀ d < shape.length, d ∈ places := by
        constructor
        · intro haxes
          have hfour : 4 ≤ shape.length := by
            obtain ⟨place, hmem, heq⟩ := (haxes 0).1 (List.mem_range.2 (by omega))
            omega
          refine ⟨hfour, fun d hd => ?_⟩
          obtain ⟨place, hmem, rfl⟩ := (haxes d).1 (List.mem_range.2 (by omega))
          rwa [max_eq_right hfour, Nat.sub_self, Nat.add_zero]
        · rintro ⟨hfour, hall⟩ d
          rw [List.mem_range, max_eq_right hfour, Nat.sub_self]
          constructor
          · exact fun hd => ⟨d, hall d hd, rfl⟩
          · rintro ⟨place, hmem, heq⟩
            exact heq ▸ hplaced place hmem
      constructor
      · rintro ⟨hsame, -, houtputs⟩
        exact ⟨fun _ => haxes.1 hsame, (reduced_outputs h hshape hplaces hsame).1 houtputs⟩
      · rintro ⟨hall, hfits⟩
        have hsame := haxes.2 (hall hunseen)
        exact ⟨hsame, fun d hd => List.mem_range.1 hd,
          (reduced_outputs h hshape hplaces hsame).2 hfits⟩
  · obtain ⟨hne, hseen⟩ := not_or.1 hunseen
    have hread : ∀ beyond, reduceAxes beyond node initializers = axes := by
      intro beyond
      rcases reduceAxes_eq h beyond with ⟨-, hunseen'⟩ | ⟨hread, -, -⟩
      · exact absurd hunseen' hunseen
      · exact hread
    simp only [hread, hne, false_and, if_false] at hview
    rw [inPlace_of_view hview]
    change _ ↔ _ ∨ _
    rw [or_iff_right fun hreject => hunseen hreject.1]
    refine exists_congr fun places => and_congr_right fun hplaces => ?_
    have hplaced := reduce_places_lt hplaces
    have hsame : ∀ d, d ∈ axes.map (uncheckedAxis info) ↔
        ∃ place ∈ places, d = place + (max 4 shape.length - shape.length) := by
      rw [reduce_places, if_neg hne] at hplaces
      split_ifs at hplaces with hvalid
      obtain rfl := Option.some.inj hplaces
      intro d
      simp only [List.mem_map, exists_exists_and_eq_and]
      constructor
      · rintro ⟨a, ha, rfl⟩
        exact ⟨a, ha, uncheckedAxis_eq hshape (hvalid a ha)⟩
      · rintro ⟨a, ha, rfl⟩
        exact ⟨a, ha, uncheckedAxis_eq hshape (hvalid a ha)⟩
    constructor
    · rintro ⟨-, -, houtputs⟩
      exact ⟨fun hunseen' => absurd hunseen' hunseen,
        (reduced_outputs h hshape hplaces hsame).1 houtputs⟩
    · rintro ⟨-, hfits⟩
      refine ⟨hsame, fun d hd => ?_, (reduced_outputs h hshape hplaces hsame).2 hfits⟩
      obtain ⟨place, hmem, rfl⟩ := (hsame d).1 hd
      have hlt := hplaced place hmem
      dsimp only
      omega

end

end

end AxisPlacesLemmas

/-! ## When the axes are right -/

/-- An accepted node has its axes in place exactly when it fits. -/
theorem axes_iff {op : AxisOp} {node : Node} {shapes : ValueShapes}
    {initializers : String → Option Initializer} (h : AxisNode op node shapes initializers) :
    op.InPlace node shapes initializers ↔ op.Fits node shapes initializers := by
  cases op with
  | along kind shape => exact AxisPlacesLemmas.along_iff h
  | reduce function shape axes => exact AxisPlacesLemmas.reduce_iff h
  | arg largest shape => exact AxisPlacesLemmas.arg_iff h
  | concat first others => exact AxisPlacesLemmas.concat_iff h
  | qLinearConcat first others => exact AxisPlacesLemmas.qLinearConcat_iff h
  | split shape sizes => exact AxisPlacesLemmas.split_iff h
  | gather data indices => exact AxisPlacesLemmas.gather_iff h
  | gatherElements data indices => exact AxisPlacesLemmas.gatherElements_iff h
  | scatterElements data => exact AxisPlacesLemmas.scatterElements_iff h
  | oneHot indices depth => exact AxisPlacesLemmas.oneHot_iff h

/-! ## The sums of rows -/

/-- The sums of the rows of a matrix. -/
def rowSumsNode (keepdims : Int) : Node :=
  { id := 0
    opType := "ReduceSum"
    inputs := [some "x"]
    outputs := [some "y"]
    attributes := [("axes", .ints [1]), ("keepdims", .int keepdims)] }

def rowSumsShapes (result : List Nat) : ValueShapes := fun name =>
  let info := fun shape : List Nat =>
    some { makeTensorInfo shape .float32 with originalRank := shape.length }
  if name = "x" then info [2, 3] else if name = "y" then info result else none

theorem rowSums_known {keepdims : Int} {result : List Nat}
    (hresult : (AxisOp.reduce .sum [2, 3] [1]).results (rowSumsNode keepdims) [1] = [result])
    (hsmall : result.length < 2 ^ 32) :
    AxisNode (.reduce .sum [2, 3] [1]) (rowSumsNode keepdims) (rowSumsShapes result)
      (fun _ => none) where
  inputs := by
    intro entry hentry
    obtain rfl := List.mem_singleton.1 hentry
    exact ⟨_, rfl, rfl, rfl, by decide⟩
  positive := by
    intro entry hentry
    obtain rfl := List.mem_singleton.1 hentry
    decide
  outputs := by simp [rowSumsNode, getNodeOutputNames]
  recorded := by
    rintro places hplaces o name info hname hinfo
    obtain rfl : [1] = places := Option.some.inj hplaces
    cases o with
    | zero =>
      obtain rfl := Option.some.inj hname
      obtain rfl := Option.some.inj hinfo
      exact ⟨result, by rw [hresult]; rfl, rfl, rfl, hsmall⟩
    | succ o => cases hname
  given := by
    refine ⟨fun constant hconstant => ?_, fun _ => rfl⟩
    cases hconstant

/-- Without the reduced dimension the two sums are described as a row, below the two rows that
they are the sums of. -/
theorem rowSums_misplaced :
    AxisNode (.reduce .sum [2, 3] [1]) (rowSumsNode 0) (rowSumsShapes [2]) (fun _ => none) ∧
      ¬ (AxisOp.reduce .sum [2, 3] [1]).InPlace (rowSumsNode 0) (rowSumsShapes [2])
        (fun _ => none) := by
  refine ⟨rowSums_known rfl (by decide), fun h => ?_⟩
  obtain ⟨places, hplaces, -, -, houtputs⟩ := h (fun _ => 0) _ rfl
  obtain rfl : [1] = places := Option.some.inj hplaces
  exact absurd houtputs (by decide)

/-- With the reduced dimension the sums are a column. -/
theorem rowSums_placed :
    (AxisOp.reduce .sum [2, 3] [1]).InPlace (rowSumsNode 1) (rowSumsShapes [2, 1])
      (fun _ => none) := by
  refine (axes_iff (rowSums_known rfl (by decide))).2 (Or.inr ⟨[1], rfl, ?_, ?_⟩)
  · rintro (hnil | ⟨hpresent, -⟩)
    · cases hnil
    · cases hpresent
  · exact fun hremoved => absurd rfl hremoved

end AmdGpuEp.DirectML
