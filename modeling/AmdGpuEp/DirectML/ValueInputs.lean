import AmdGpuEp.DirectML.RecordedRanks
import Mathlib.Data.BitVec

/-!
# Inputs that a translator reads

Axes, windows, paddings and bounds are inputs in newer opsets. The translators of
`Reduce*`, `Slice`, `Pad`, `Clip` and `Trilu` wire their first input only and read
the others from the initializers. An input that no initializer stands behind has
a value at run time only.

The C++ reads without a check of the length. What lies behind the data of an
initializer is the parameter `beyond`.

Results:
1. `respects_iff`: which nodes are translated only when their inputs are there to
   be read.
2. `dynamicClip_accepted`: a `Clip` with a computed bound is translated without
   the bound.
-/

namespace AmdGpuEp.DirectML

/-! ## Descriptions -/

/-- `DML_REDUCE_FUNCTION`, those that `TranslateReduce` is registered with. -/
inductive ReduceFunction
  | average | sum | max | min | multiply | l1 | l2 | logSum | logSumExp | sumSquare
  deriving DecidableEq, Repr

/-- `DML_AXIS_DIRECTION`. -/
inductive AxisDirection
  | increasing
  | decreasing
  deriving DecidableEq, Repr

inductive PaddingMode
  | constant | reflection | edge | wrap
  deriving DecidableEq, Repr

/-- `DML_SCALAR_UNION`: the bits of a value, or a float attribute widened to a double. -/
inductive ScalarUnion
  | bits (value : Nat)
  | widened (value : UInt32)
  deriving DecidableEq, Repr

/-- The operator descriptions of these translators, beside the tensors. -/
inductive ValueOpDesc
  | reduce (function : ReduceFunction) (axes : List Nat)
  | padding (mode : PaddingMode) (dtype : DmlDataType) (startPad endPad : List Nat)
  | slice (offsets sizes : List Nat) (strides : List Int)
  | clip (dtype : DmlDataType) (min max : ScalarUnion)
  | diagonal (dtype : DmlDataType) (fillBegin fillEnd : Int)
  deriving DecidableEq, Repr

/-! ## Attributes and constants -/

/-- `GetAttributeString`. -/
def getAttributeString (node : Node) (name default : String) : String :=
  match node.attributes.find? fun entry => entry.1 == name with
  | some (_, .string value) => value
  | _ => default

/-- `HasAttribute` and `GetAttributeFloat`: missing, or the bits, 0.0 when it is no float. -/
def getAttributeFloat (node : Node) (name : String) : Option UInt32 :=
  (node.attributes.find? fun entry => entry.1 == name).map fun entry =>
    match entry.2 with
    | .float bits => bits
    | _ => 0

/-- `GetAttributeFloat`: the default when the attribute is missing or no float. -/
def getAttributeFloatOr (node : Node) (name : String) (default : UInt32) : UInt32 :=
  match node.attributes.find? fun entry => entry.1 == name with
  | some (_, .float bits) => bits
  | _ => default

/-- The input of a slot, if there is one. -/
def presentInput (node : Node) (slot : Nat) : Option String :=
  ((getNodeInputNames node)[slot]?).filter (· != "")

/-- The initializer behind an input, with the data that can be read. -/
def constantInput (initializers : String → Option Initializer) (node : Node) (slot : Nat) :
    Option (Initializer × List UInt8) :=
  (presentInput node slot).bind fun name =>
    (initializers name).bind fun init => init.bytes.map fun data => (init, data)

section

variable (beyond : Nat → UInt8)

/-- The `n` bytes from `offset` on, the low byte first. -/
def readBits (data : List UInt8) (offset n : Nat) : Nat :=
  (List.range n).foldr
    (fun k acc => (data.getD (offset + k) (beyond (offset + k))).toNat + 256 * acc) 0

def readInt64 (data : List UInt8) (i : Nat) : Int :=
  (BitVec.ofNat 64 (readBits beyond data (8 * i) 8)).toInt

/-- As many values as the initializer has elements. -/
def readInt64s (constant : Initializer × List UInt8) : List Int :=
  (List.range constant.1.dims.prod).map (readInt64 beyond constant.2)

end

/-- `static_cast<uint32_t>`. -/
def toUInt32 (value : Int) : Nat :=
  (value % 2 ^ 32).toNat

/-- `static_cast<int32_t>`. -/
def toInt32 (value : Int) : Int :=
  (BitVec.ofInt 32 value).toInt

/-- What these translators begin with: a first input with a shape, and an output, which may have
one. -/
def withShapes {D : Type} (node : Node) (shapes : ValueShapes)
    (translate : DmlTensorInfo → Option DmlTensorInfo → Option (TranslatedOp D)) :
    Option (TranslatedOp D) :=
  match getNodeInputNames node, getNodeOutputNames node with
  | input :: _, output :: _ => (shapes input).bind fun inInfo => translate inInfo (shapes output)
  | _, _ => none

/-- One input tensor, one output tensor. -/
def unaryOp {D : Type} (desc : D) (inInfo : DmlTensorInfo) (outSizes : List Nat) :
    TranslatedOp D where
  opDesc := desc
  inputTensors := [makeTensorInfo inInfo.sizes inInfo.dataType]
  outputTensors := [makeTensorInfo outSizes inInfo.dataType]

/-! ## The translators -/

/-- The sizes of a reduced tensor without a recorded output. -/
def reducedSizes (keepdims : Bool) (sizes axes : List Nat) : List Nat :=
  let marked := axes.foldl (fun sizes axis => sizes.set axis (if keepdims then 1 else 0)) sizes
  if keepdims then marked
  else
    match marked.filter (· != 0) with
    | [] => [1]
    | kept => kept

section

variable (beyond : Nat → UInt8)

/-- The axes of a reduction, as they are written: from the input when it is present. -/
def reduceAxes (node : Node) (initializers : String → Option Initializer) : List Int :=
  if (presentInput node 1).isSome then
    ((constantInput initializers node 1).map (readInt64s beyond)).getD []
  else getAttributeInts node "axes"

def translateReduce (function : ReduceFunction) : OpTranslator ValueOpDesc :=
  fun node shapes initializers =>
    withShapes node shapes fun inInfo outEdge =>
      let given := reduceAxes beyond node initializers
      if given = [] ∧ getAttributeInt node "noop_with_empty_axes" 0 ≠ 0 then none
      else
        let padOffset : Int := inInfo.sizes.length - inInfo.rank
        let axes :=
          if given = [] then List.range inInfo.sizes.length
          else given.map fun (a : Int) =>
            toUInt32 ((if a < 0 then a + inInfo.rank else a) + padOffset)
        let keepdims := getAttributeInt node "keepdims" 1 != 0
        let outSizes := (outEdge.map DmlTensorInfo.sizes).getD
          (reducedSizes keepdims inInfo.sizes axes)
        some (unaryOp (.reduce function axes) inInfo outSizes)

def paddingMode (mode : String) : PaddingMode :=
  if mode = "wrap" then .wrap
  else if mode = "edge" then .edge
  else if mode = "reflect" then .reflection
  else .constant

/-- Paddings before and behind every dimension, all 0 when there is nothing to read. -/
def paddings (node : Node) (initializers : String → Option Initializer) (rank : Nat) :
    List Nat × List Nat :=
  let none := (List.replicate rank 0, List.replicate rank 0)
  if (presentInput node 1).isSome then
    match constantInput initializers node 1 with
    | some (_, data) =>
      ((List.range rank).map fun i => toUInt32 (readInt64 beyond data i),
        (List.range rank).map fun i => toUInt32 (readInt64 beyond data (rank + i)))
    | _ => none
  else
    let pads := getAttributeInts node "pads"
    if 2 * rank ≤ pads.length then
      ((pads.take rank).map toUInt32, ((pads.drop rank).take rank).map toUInt32)
    else none

/-- The constant that is padded with is always 0. -/
def translatePad : OpTranslator ValueOpDesc := fun node shapes initializers =>
  withShapes node shapes fun inInfo outEdge =>
    let rank := inInfo.sizes.length
    let pads := paddings beyond node initializers rank
    let outSizes := (outEdge.map DmlTensorInfo.sizes).getD
      ((inInfo.sizes.zip (pads.1.zip pads.2)).map fun entry =>
        (entry.1 + entry.2.1 + entry.2.2) % 2 ^ 32)
    let front := List.replicate (max rank 4 - rank) 0
    some (unaryOp (.padding (paddingMode (getAttributeString node "mode" "constant"))
      inInfo.dataType (front ++ pads.1) (front ++ pads.2)) inInfo outSizes)

/-- `read_int64_init`: empty when there is nothing to read, or the type is another. -/
def readInt64Init (node : Node) (initializers : String → Option Initializer) (slot : Nat) :
    List Int :=
  match constantInput initializers node slot with
  | some constant => if constant.1.dataType = .int64 then readInt64s beyond constant else []
  | none => []

/-- Offset, size and stride of every dimension. -/
structure SliceWindow where
  offsets : List Nat
  sizes : List Nat
  strides : List Int
  deriving DecidableEq, Repr

/-- One turn of the window loop; `none` when the axis is out of range or the step is 0. -/
def sliceAxis (inInfo : DmlTensorInfo) (w : SliceWindow) (start stop axis step : Int) :
    Option SliceWindow :=
  let rank := inInfo.sizes.length
  let axis := (if axis < 0 then axis + inInfo.rank else axis) + (rank - inInfo.rank)
  if axis < 0 ∨ rank ≤ axis ∨ step = 0 then none
  else
    let dim : Int := inInfo.sizes.getD axis.toNat 0
    let start := max 0 (min (if start < 0 then start + dim else start) dim)
    let stop := max 0 (min (if stop < 0 then stop + dim else stop) dim)
    let size :=
      if 0 < step then if stop ≤ start then 0 else (stop - start + step - 1) / step
      else if start ≤ stop then 0 else (start - stop + -step - 1) / -step
    some
      { offsets := w.offsets.set axis.toNat (toUInt32 start)
        sizes := w.sizes.set axis.toNat (toUInt32 size)
        strides := w.strides.set axis.toNat (toInt32 step) }

/-- The windows of a slice. The lists of a valid node have one length. -/
def sliceWindow (inInfo : DmlTensorInfo) (starts stops axes steps : List Int) :
    Option SliceWindow :=
  (List.range starts.length).foldlM
    (fun w i => sliceAxis inInfo w (starts.getD i 0) (stops.getD i 0) (axes.getD i 0)
      (steps.getD i 0))
    { offsets := List.replicate inInfo.sizes.length 0
      sizes := inInfo.sizes
      strides := List.replicate inInfo.sizes.length 1 }

/-- `starts_raw`, `ends_raw`, `axes_raw` and `steps_raw`. -/
def sliceInputs (node : Node) (initializers : String → Option Initializer) :
    List Int × List Int × List Int × List Int :=
  if 3 ≤ (getNodeInputNames node).length then
    let read := readInt64Init beyond node initializers
    (read 1, read 2, read 3, read 4)
  else
    (getAttributeInts node "starts", getAttributeInts node "ends", getAttributeInts node "axes", [])

def translateSlice : OpTranslator ValueOpDesc := fun node shapes initializers =>
  withShapes node shapes fun inInfo outEdge =>
    let (starts, stops, axes, steps) := sliceInputs beyond node initializers
    if starts = [] ∨ stops = [] then none
    else
      let axes := if axes = [] then (List.range starts.length).map Int.ofNat else axes
      let steps := if steps = [] then List.replicate starts.length 1 else steps
      (sliceWindow inInfo starts stops axes steps).map fun w =>
        unaryOp (.slice w.offsets w.sizes w.strides) inInfo
          ((outEdge.map DmlTensorInfo.sizes).getD w.sizes)

/-- The finite extremes of an element type. -/
def clipExtremes : DmlDataType → ScalarUnion × ScalarUnion
  | .float16 => (.bits 0xFBFF, .bits 0x7BFF)
  | .float64 => (.bits 0xFFEFFFFFFFFFFFFF, .bits 0x7FEFFFFFFFFFFFFF)
  | .int8 => (.bits 0x80, .bits 0x7F)
  | .uint8 => (.bits 0, .bits 0xFF)
  | .int16 => (.bits 0x8000, .bits 0x7FFF)
  | .uint16 => (.bits 0, .bits 0xFFFF)
  | .int32 => (.bits 0x80000000, .bits 0x7FFFFFFF)
  | .uint32 => (.bits 0, .bits 0xFFFFFFFF)
  | .int64 => (.bits 0x8000000000000000, .bits 0x7FFFFFFFFFFFFFFF)
  | .uint64 => (.bits 0, .bits 0xFFFFFFFFFFFFFFFF)
  | .float32 | .uint4 | .unknown => (.bits 0xFF7FFFFF, .bits 0x7F7FFFFF)

/-- One bound of a clip: the input overrides the attribute, and that the extreme. -/
def clipBound (node : Node) (initializers : String → Option Initializer) (dtype : DmlDataType)
    (slot : Nat) (name : String) (extreme : ScalarUnion) : ScalarUnion :=
  let fromAttribute :=
    match getAttributeFloat node name, dtype with
    | some bits, .float32 => .bits bits.toNat
    | some bits, .float64 => .widened bits
    | _, _ => extreme
  match constantInput initializers node slot with
  | some (_, data) =>
    if dtype.size = 0 then fromAttribute else .bits (readBits beyond data 0 dtype.size)
  | none => fromAttribute

def translateClip : OpTranslator ValueOpDesc := fun node shapes initializers =>
  withShapes node shapes fun inInfo _ =>
    let dtype := inInfo.dataType
    let bound := clipBound beyond node initializers dtype
    some (unaryOp (.clip dtype (bound 1 "min" (clipExtremes dtype).1)
      (bound 2 "max" (clipExtremes dtype).2)) inInfo inInfo.sizes)

def translateTrilu : OpTranslator ValueOpDesc := fun node shapes initializers =>
  withShapes node shapes fun inInfo _ =>
    let upper := getAttributeInt node "upper" 1 != 0
    let k := ((constantInput initializers node 1).map fun constant =>
      toInt32 (readInt64 beyond constant.2 0)).getD 0
    let desc := ValueOpDesc.diagonal inInfo.dataType
      (if upper then -2 ^ 31 else toInt32 (k + 1)) (if upper then k else 2 ^ 31 - 1)
    some (unaryOp desc inInfo inInfo.sizes)

end

/-! ## The law -/

/-- The operators whose results depend on inputs that are not wired. -/
inductive ValueOp
  | reduce (function : ReduceFunction)
  | slice
  | pad
  | clip
  | trilu
  deriving DecidableEq, Repr

namespace ValueOp

variable (beyond : Nat → UInt8)

def translate : ValueOp → OpTranslator ValueOpDesc
  | .reduce function => translateReduce beyond function
  | .slice => translateSlice beyond
  | .pad => translatePad beyond
  | .clip => translateClip beyond
  | .trilu => translateTrilu beyond

/-- The slots of these inputs: axes; starts, ends, axes and steps; pads, constant and axes; bounds;
the diagonal. -/
def valueSlots : ValueOp → List Nat
  | .reduce _ => [1]
  | .slice => [1, 2, 3, 4]
  | .pad => [1, 2, 3]
  | .clip => [1, 2]
  | .trilu => [1]

end ValueOp

/-- What a node meets: constants, and the values of all names at run time. -/
structure RunEnv where
  constants : String → Option Initializer
  values : String → List Int

/-- The input is there, and is no constant that can be read. -/
def DynamicInput (constants : String → Option Initializer) (node : Node) (slot : Nat) : Prop :=
  (presentInput node slot).isSome ∧ constantInput constants node slot = none

instance (constants : String → Option Initializer) (node : Node) (slot : Nat) :
    Decidable (DynamicInput constants node slot) :=
  inferInstanceAs (Decidable (_ ∧ _))

/-- Two runs that differ in the value of one such input. -/
def DifferAt (op : ValueOp) (node : Node) (env env' : RunEnv) : Prop :=
  env.constants = env'.constants ∧ ∃ slot ∈ op.valueSlots, DynamicInput env.constants node slot ∧
    ∃ name ∈ presentInput node slot, env.values name ≠ env'.values name ∧
      ∀ other ≠ name, env.values other = env'.values other

/-- A node with a dynamic input is refused, and so no two runs have one description that should
have two. -/
structure Respects (beyond : Nat → UInt8) (op : ValueOp) (node : Node) (shapes : ValueShapes)
    (env : RunEnv) : Prop where
  refused : ∀ slot ∈ op.valueSlots, DynamicInput env.constants node slot →
    op.translate beyond node shapes env.constants = none
  twoRuns : ∀ env', DifferAt op node env env' → ∀ translated translated',
    op.translate beyond node shapes env.constants = some translated →
    op.translate beyond node shapes env'.constants = some translated' → translated ≠ translated'

/-! ## The exact condition -/

/-- The translator can begin: the first input has this record, and there is an output. -/
def Begins (node : Node) (shapes : ValueShapes) (inInfo : DmlTensorInfo) : Prop :=
  getNodeOutputNames node ≠ [] ∧ (getNodeInputNames node).head?.bind shapes = some inInfo

/-- The DML axis of a window. -/
def windowAxis (inInfo : DmlTensorInfo) (axis : Int) : Int :=
  (if axis < 0 then axis + inInfo.rank else axis) + (inInfo.sizes.length - inInfo.rank)

/-- A slice that would be refused with these inputs, axes and steps being those by default where
there are none. -/
def SliceRefused (inInfo : DmlTensorInfo) (starts stops axes steps : List Int) : Prop :=
  starts = [] ∨ stops = [] ∨
    ∃ i < starts.length,
      let axes := if axes = [] then (List.range starts.length).map Int.ofNat else axes
      let steps := if steps = [] then List.replicate starts.length 1 else steps
      windowAxis inInfo (axes.getD i 0) < 0 ∨
        inInfo.sizes.length ≤ windowAxis inInfo (axes.getD i 0) ∨ steps.getD i 0 = 0

/-- The node is refused for another reason: a reduction by `noop_with_empty_axes`, a slice by what
can be read of its inputs. -/
def RefusedAnyway (beyond : Nat → UInt8) (op : ValueOp) (node : Node)
    (constants : String → Option Initializer) (inInfo : DmlTensorInfo) : Prop :=
  match op with
  | .reduce _ => getAttributeInt node "noop_with_empty_axes" 0 ≠ 0
  | .slice =>
    let inputs := sliceInputs beyond node constants
    SliceRefused inInfo inputs.1 inputs.2.1 inputs.2.2.1 inputs.2.2.2
  | .pad | .clip | .trilu => False

namespace ValueInputsLemmas

variable {D : Type} {beyond : Nat → UInt8} {node : Node} {shapes : ValueShapes}
  {constants : String → Option Initializer}

theorem withShapes_eq_none
    {translate : DmlTensorInfo → Option DmlTensorInfo → Option (TranslatedOp D)} :
    withShapes node shapes translate = none ↔ ∀ inInfo, Begins node shapes inInfo →
      ∀ output ∈ (getNodeOutputNames node).head?, translate inInfo (shapes output) = none := by
  unfold withShapes Begins
  cases getNodeInputNames node with
  | nil => simp
  | cons input inputs =>
    cases getNodeOutputNames node with
    | nil => simp
    | cons output outputs => simp [Option.bind_eq_none_iff]

/-- A translator that can begin is given the record of its first input. -/
theorem withShapes_of_begins {inInfo : DmlTensorInfo} (hbegins : Begins node shapes inInfo) :
    ∃ outEdge, ∀ (E : Type) (translate : DmlTensorInfo → Option DmlTensorInfo →
      Option (TranslatedOp E)), withShapes node shapes translate = translate inInfo outEdge := by
  obtain ⟨hout, hin⟩ := hbegins
  obtain ⟨output, outputs, hout⟩ := List.exists_cons_of_ne_nil hout
  unfold withShapes
  cases hnames : getNodeInputNames node with
  | nil =>
    rw [hnames] at hin
    cases hin
  | cons input inputs =>
    rw [hnames] at hin
    have hshape : shapes input = some inInfo := hin
    exact ⟨shapes output, fun E translate => by simp only [hout, hshape, Option.bind_some]⟩

/-- A translator that refuses no record accepts whatever it can begin with. -/
theorem withShapes_of_total
    {translate : DmlTensorInfo → Option DmlTensorInfo → Option (TranslatedOp D)}
    (h : ∀ inInfo outEdge, translate inInfo outEdge ≠ none) :
    withShapes node shapes translate = none ↔ ∀ inInfo, ¬ Begins node shapes inInfo := by
  rw [withShapes_eq_none]
  refine forall_congr' fun inInfo => ?_
  constructor
  · intro hnone hbegins
    obtain ⟨output, houtput⟩ := Option.isSome_iff_exists.1
      (List.isSome_head?.2 hbegins.1)
    exact h inInfo _ (hnone hbegins output houtput)
  · exact fun hnot hbegins => absurd hbegins hnot

theorem foldlM_isSome {S X : Type} {f : S → X → Option S} {P : X → Prop}
    (h : ∀ s x, (f s x).isSome ↔ P x) (xs : List X) (s : S) :
    (xs.foldlM f s).isSome ↔ ∀ x ∈ xs, P x := by
  induction xs generalizing s with
  | nil => simp
  | cons x xs ih =>
    rw [List.foldlM_cons, Option.bind_eq_bind, List.forall_mem_cons, ← h s x]
    cases hx : f s x with
    | none => simp
    | some s' => simp [ih]

theorem sliceAxis_isSome (inInfo : DmlTensorInfo) (w : SliceWindow) (start stop axis step : Int) :
    (sliceAxis inInfo w start stop axis step).isSome ↔
      ¬ (windowAxis inInfo axis < 0 ∨ inInfo.sizes.length ≤ windowAxis inInfo axis ∨ step = 0) := by
  show (if windowAxis inInfo axis < 0 ∨ inInfo.sizes.length ≤ windowAxis inInfo axis ∨ step = 0
    then none else some _).isSome ↔ _
  by_cases h : windowAxis inInfo axis < 0 ∨ inInfo.sizes.length ≤ windowAxis inInfo axis ∨ step = 0
  · rw [if_pos h]
    exact iff_of_false (by simp) (not_not_intro h)
  · rw [if_neg h]
    exact iff_of_true rfl h

theorem sliceWindow_eq_none (inInfo : DmlTensorInfo) (starts stops axes steps : List Int) :
    sliceWindow inInfo starts stops axes steps = none ↔
      ∃ i < starts.length, windowAxis inInfo (axes.getD i 0) < 0 ∨
        inInfo.sizes.length ≤ windowAxis inInfo (axes.getD i 0) ∨ steps.getD i 0 = 0 := by
  rw [← Option.not_isSome_iff_eq_none]
  unfold sliceWindow
  rw [foldlM_isSome fun w i => sliceAxis_isSome inInfo w (starts.getD i 0) (stops.getD i 0)
    (axes.getD i 0) (steps.getD i 0)]
  simp only [List.mem_range, not_forall, not_not, exists_prop]

/-- When each translator refuses a node. -/
theorem translateReduce_eq_none (function : ReduceFunction) :
    translateReduce beyond function node shapes constants = none ↔
      ∀ inInfo, Begins node shapes inInfo →
        reduceAxes beyond node constants = [] ∧
          getAttributeInt node "noop_with_empty_axes" 0 ≠ 0 := by
  unfold translateReduce
  by_cases hempty : reduceAxes beyond node constants = [] ∧
      getAttributeInt node "noop_with_empty_axes" 0 ≠ 0
  · simp only [if_pos hempty]
    exact iff_of_true (withShapes_eq_none.2 fun _ _ _ _ => rfl) fun _ _ => hempty
  · simp only [if_neg hempty]
    rw [withShapes_of_total fun _ _ => Option.some_ne_none _]
    exact forall_congr' fun inInfo => ⟨fun h hb => absurd hb h, fun h hb => hempty (h hb)⟩

theorem translateSlice_eq_none :
    translateSlice beyond node shapes constants = none ↔
      ∀ inInfo, Begins node shapes inInfo →
        RefusedAnyway beyond .slice node constants inInfo := by
  unfold translateSlice
  rw [withShapes_eq_none]
  refine forall_congr' fun inInfo => ?_
  refine forall_congr' fun hbegins => ?_
  obtain ⟨output, houtput⟩ := Option.isSome_iff_exists.1 (List.isSome_head?.2 hbegins.1)
  rw [houtput]
  simp only [Option.mem_def, Option.some.injEq, forall_eq']
  show _ ↔ SliceRefused inInfo (sliceInputs beyond node constants).1
    (sliceInputs beyond node constants).2.1 (sliceInputs beyond node constants).2.2.1
    (sliceInputs beyond node constants).2.2.2
  generalize sliceInputs beyond node constants = inputs
  obtain ⟨starts, stops, axes, steps⟩ := inputs
  unfold SliceRefused
  dsimp only
  rw [← sliceWindow_eq_none, ← or_assoc]
  split
  · next hempty => exact iff_of_true rfl (Or.inl hempty)
  · next hread => rw [Option.map_eq_none_iff, or_iff_right hread]

/-- The other three refuse nothing that they can begin with. -/
theorem translate_eq_none_of_total {op : ValueOp} (hop : op = .pad ∨ op = .clip ∨ op = .trilu) :
    op.translate beyond node shapes constants = none ↔
      ∀ inInfo, ¬ Begins node shapes inInfo := by
  rcases hop with rfl | rfl | rfl
  · unfold ValueOp.translate translatePad
    exact withShapes_of_total fun _ _ => Option.some_ne_none _
  · unfold ValueOp.translate translateClip
    exact withShapes_of_total fun _ _ => Option.some_ne_none _
  · unfold ValueOp.translate translateTrilu
    exact withShapes_of_total fun _ _ => Option.some_ne_none _

/-- A node with a dynamic input is refused exactly when it would be refused anyway. -/
theorem translate_eq_none {op : ValueOp}
    (hdynamic : ∃ slot ∈ op.valueSlots, DynamicInput constants node slot) :
    op.translate beyond node shapes constants = none ↔
      ∀ inInfo, Begins node shapes inInfo → RefusedAnyway beyond op node constants inInfo := by
  cases op with
  | reduce function =>
    obtain ⟨slot, hslot, hpresent, hconst⟩ := hdynamic
    obtain rfl := List.mem_singleton.1 hslot
    have hempty : reduceAxes beyond node constants = [] := by
      unfold reduceAxes
      rw [if_pos hpresent, hconst]
      rfl
    refine (translateReduce_eq_none function).trans ?_
    simp only [hempty, true_and]
    rfl
  | slice => exact translateSlice_eq_none
  | pad => exact translate_eq_none_of_total (Or.inl rfl)
  | clip => exact translate_eq_none_of_total (Or.inr (Or.inl rfl))
  | trilu => exact translate_eq_none_of_total (Or.inr (Or.inr rfl))

end ValueInputsLemmas

open ValueInputsLemmas

/-- The law holds for a node exactly when it has no dynamic input, cannot be begun with, or is
refused anyway. -/
theorem respects_iff (beyond : Nat → UInt8) (op : ValueOp) (node : Node) (shapes : ValueShapes)
    (env : RunEnv) :
    Respects beyond op node shapes env ↔
      ((∃ slot ∈ op.valueSlots, DynamicInput env.constants node slot) →
        ∀ inInfo, Begins node shapes inInfo →
          RefusedAnyway beyond op node env.constants inInfo) := by
  constructor
  · rintro h ⟨slot, hslot, hdynamic⟩
    exact (translate_eq_none ⟨slot, hslot, hdynamic⟩).1 (h.refused slot hslot hdynamic)
  · intro h
    have hrefused : ∀ slot ∈ op.valueSlots, DynamicInput env.constants node slot →
        op.translate beyond node shapes env.constants = none := fun slot hslot hdynamic =>
      (translate_eq_none ⟨slot, hslot, hdynamic⟩).2 (h ⟨slot, hslot, hdynamic⟩)
    refine ⟨hrefused, ?_⟩
    rintro env' ⟨-, slot, hslot, hdynamic, -⟩ translated translated' htranslated
    rw [hrefused slot hslot hdynamic] at htranslated
    cases htranslated

/-! ## A clip with a computed bound -/

/-- `m` is computed by another node. -/
def dynamicClip : Node :=
  { id := 0, opType := "Clip", inputs := [some "x", some "m"], outputs := [some "y"] }

def dynamicClipShapes : ValueShapes := fun _ => some (makeTensorInfo [2] .float32)

def runWithBound (bound : Int) : RunEnv where
  constants := fun _ => none
  values := fun name => if name = "m" then [bound] else []

/-- It is translated with the least float for a bound, whatever the bound is. -/
theorem dynamicClip_accepted :
    (ValueOp.clip.translate (fun _ => 0) dynamicClip dynamicClipShapes fun _ => none).map
        TranslatedOp.opDesc = some (.clip .float32 (.bits 0xFF7FFFFF) (.bits 0x7F7FFFFF)) ∧
      DifferAt .clip dynamicClip (runWithBound 0) (runWithBound 1) ∧
      ¬ Respects (fun _ => 0) .clip dynamicClip dynamicClipShapes (runWithBound 0) := by
  have hdynamic : DynamicInput (runWithBound 0).constants dynamicClip 1 := by decide
  refine ⟨by decide, ⟨rfl, 1, by decide, hdynamic, "m", by decide, by decide, ?_⟩, fun h => ?_⟩
  · intro other hother
    show (if other = "m" then [0] else []) = if other = "m" then [1] else []
    rw [if_neg hother, if_neg hother]
  · have hrefused := h.refused 1 (by decide) hdynamic
    exact absurd hrefused (by decide)

end AmdGpuEp.DirectML
