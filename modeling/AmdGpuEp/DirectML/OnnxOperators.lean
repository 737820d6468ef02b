import AmdGpuEp.Lib.FloatFormat
import AmdGpuEp.DirectML.SubgraphShapes
import Mathlib.Data.List.GetD
import Mathlib.Data.List.TakeWhile

/-!
# The ONNX operators that the provider folds

What ONNX says of `Shape`, `Gather`, `Cast`, `Slice`, `Mul`, `Div` and `Concat`,
on whole tensors. It is not translated from the source: the folding of the
provider is compared with it. Where ONNX leaves a result open, these relations
leave it open. `Mul` and `Div` are those of version 7 and later.

Results:
1. `takeAxis_only`: along an axis that is the only one longer than 1, positions
   are elements.
2. `broadcast_suffix`: an operand whose dimensions end the other's is repeated.
3. `concatElems_outer`, `concatElems_single`: a concatenation that is one of lists.
-/

namespace AmdGpuEp.DirectML

/-! ## Element types -/

namespace OnnxDataType

def floatFormat : OnnxDataType → Option FloatFormat
  | .float => some .float32
  | .float16 => some .float16
  | .double => some .float64
  | _ => none

/-- The integers of a type, from the first to before the second. -/
def intRange : OnnxDataType → Option (Int × Int)
  | .int8 => some (-2 ^ 7, 2 ^ 7)
  | .int16 => some (-2 ^ 15, 2 ^ 15)
  | .int32 => some (-2 ^ 31, 2 ^ 31)
  | .int64 => some (-2 ^ 63, 2 ^ 63)
  | .uint8 => some (0, 2 ^ 8)
  | .uint16 => some (0, 2 ^ 16)
  | .uint32 => some (0, 2 ^ 32)
  | .uint64 => some (0, 2 ^ 64)
  | _ => none

/-- An exact result as an element of the type: rounded, or without its fraction. What becomes of an
integer out of range is open. -/
def ofRat (t : OnnxDataType) (q : ℚ) : Option Num :=
  match t.floatFormat with
  | some f => some (f.round q)
  | none =>
    (t.intRange.filter fun range => range.1 ≤ truncate q ∧ truncate q < range.2).map
      fun _ => .fin (truncate q)

/-- `Cast` to the type. -/
def castElem (t : OnnxDataType) (x : Num) : Option Num :=
  if t = .bool then some (.fin (if x = .fin 0 then 0 else 1))
  else
    match x with
    | .fin q => t.ofRat q
    | .inf s => t.floatFormat.map fun _ => .inf s
    | .nan => t.floatFormat.map fun _ => .nan

def mulElem (t : OnnxDataType) (x y : Num) : Option Num :=
  match t.floatFormat, x, y with
  | some f, x, y => some (f.mul x y)
  | none, .fin a, .fin b => t.ofRat (a * b)
  | none, _, _ => none

/-- Integers are divided towards zero. -/
def divElem (t : OnnxDataType) (x y : Num) : Option Num :=
  if y = .fin 0 then none
  else
    match t.floatFormat, x, y with
    | some f, x, y => some (f.div x y)
    | none, .fin a, .fin b => t.ofRat (a / b)
    | none, _, _ => none

end OnnxDataType

/-! ## Tensors -/

/-- A tensor in row-major order. -/
structure OnnxTensor where
  elemType : OnnxDataType
  dims : List Nat
  elems : List Num
  length_elems : elems.length = dims.prod

/-- The tensors of one run, by name. -/
abbrev TensorRun := String → Option OnnxTensor

/-- The tensors behind the slots of a node. -/
def TensorRun.At (ρ : TensorRun) (slots : List (Option String)) (tensors : List OnnxTensor) :
    Prop :=
  List.Forall₂ (fun slot tensor => slot.bind ρ = some tensor) slots tensors

/-- The tensor holds these integers. -/
def OnnxTensor.Ints (t : OnnxTensor) (ks : List Int) : Prop :=
  t.elems = ks.map fun k => .fin k

/-- A position, counted from the end when it is negative. -/
def fromEnd (n : Nat) (k : Int) : Int :=
  if k < 0 then k + n else k

/-- The slices of a tensor at some positions of an axis. -/
def takeAxis (dims : List Nat) (axis : Nat) (positions : List Nat) (elems : List Num) : List Num :=
  let n := dims.getD axis 1
  let inner := (dims.drop (axis + 1)).prod
  (List.range (dims.take axis).prod).flatMap fun outer =>
    positions.flatMap fun p =>
      (List.range inner).map fun i => elems.getD ((outer * n + p) * inner + i) .nan

/-! ## Operators -/

/-- The dimensions that `Shape` gives, with `start` and `end`. -/
def shapeRange (node : Node) (rank : Nat) : Nat × Nat :=
  let bound := fun k => (max 0 (min (fromEnd rank k) rank)).toNat
  (bound (getAttributeInt node "start" 0), bound (getAttributeInt node "end" rank))

def IsShape (node : Node) (x y : OnnxTensor) : Prop :=
  let range := shapeRange node x.dims.length
  y.elemType = .int64 ∧ y.dims.length = 1 ∧
    y.Ints (((x.dims.take range.2).drop range.1).map fun (d : Nat) => (d : Int))

def nodeAxis (node : Node) (default : Int) (rank : Nat) : Nat :=
  (fromEnd rank (getAttributeInt node "axis" default)).toNat

def IsGather (node : Node) (data indices y : OnnxTensor) : Prop :=
  let axis := nodeAxis node 0 data.dims.length
  let n := data.dims.getD axis 1
  axis < data.dims.length ∧ y.elemType = data.elemType ∧
    y.dims = data.dims.take axis ++ indices.dims ++ data.dims.drop (axis + 1) ∧
    ∃ ks : List Int, indices.Ints ks ∧ (∀ k ∈ ks, -n ≤ k ∧ k < n) ∧
      y.elems = takeAxis data.dims axis (ks.map fun k => (fromEnd n k).toNat) data.elems

/-- The type to cast to is that of the output. -/
def IsCast (x y : OnnxTensor) : Prop :=
  y.dims = x.dims ∧
    List.Forall₂ (fun e e' => ∀ v, y.elemType.castElem e = some v → e' = v) x.elems y.elems

structure SliceBounds where
  starts : List Int
  ends : List Int
  axes : List Int
  steps : List Int

/-- One axis of a slice. -/
structure SliceEntry where
  axis : Int
  start : Int
  stop : Int
  step : Int

def SliceBounds.entries (b : SliceBounds) : List SliceEntry :=
  (b.axes.zip (b.starts.zip (b.ends.zip b.steps))).map fun e => ⟨e.1, e.2.1, e.2.2.1, e.2.2.2⟩

/-- The integers of an optional input. -/
def IntsAt (ρ : TensorRun) (slot : Option String) (default ks : List Int) : Prop :=
  match slot with
  | none => ks = default
  | some name => ∃ t, ρ name = some t ∧ t.Ints ks

def defaultAxes (starts : List Int) : List Int :=
  (List.range starts.length).map fun (i : Nat) => (i : Int)

/-- Before version 10 the bounds are attributes, and there are no steps. -/
def SliceBounds.Of (b : SliceBounds) (ρ : TensorRun) (node : Node) : Prop :=
  if node.sinceVersion < 10 then
    node.inputs.length = 1 ∧
      b.starts = getAttributeInts node "starts" ∧ b.ends = getAttributeInts node "ends" ∧
      b.axes = (if getAttributeInts node "axes" = [] then defaultAxes b.starts
        else getAttributeInts node "axes") ∧
      b.steps = b.starts.map fun _ => 1
  else
    getAttributeInts node "starts" = [] ∧
      ∃ data starts ends rest, node.inputs = data :: some starts :: some ends :: rest ∧
        IntsAt ρ (some starts) [] b.starts ∧ IntsAt ρ (some ends) [] b.ends ∧
        IntsAt ρ (rest.getD 0 none) (defaultAxes b.starts) b.axes ∧
        IntsAt ρ (rest.getD 1 none) (b.starts.map fun _ => 1) b.steps

/-- The positions of a slice along an axis of size `n`. -/
def slicePositions (n : Nat) (e : SliceEntry) : List Nat :=
  -- downwards, the slice may end before the first position
  let low : Int := if 0 < e.step then 0 else -1
  let high : Int := if 0 < e.step then n else n - 1
  let start := max 0 (min (fromEnd n e.start) high)
  let stop := max low (min (fromEnd n e.stop) high)
  let count := if 0 < e.step then (stop - start + e.step - 1) / e.step
    else (start - stop - e.step - 1) / -e.step
  (List.range count.toNat).map fun (i : Nat) => (start + i * e.step).toNat

/-- Dimensions and elements after one axis is sliced. -/
def sliceAlong (t : List Nat × List Num) (e : SliceEntry) : List Nat × List Num :=
  let axis := (fromEnd t.1.length e.axis).toNat
  let positions := slicePositions (t.1.getD axis 1) e
  (t.1.set axis positions.length, takeAxis t.1 axis positions t.2)

def IsSlice (b : SliceBounds) (x y : OnnxTensor) : Prop :=
  b.ends.length = b.starts.length ∧ b.axes.length = b.starts.length ∧
    b.steps.length = b.starts.length ∧
    (∀ axis ∈ b.axes, -(x.dims.length : Int) ≤ axis ∧ axis < x.dims.length) ∧
    y.elemType = x.elemType ∧ (y.dims, y.elems) = b.entries.foldl sliceAlong (x.dims, x.elems)

/-- The dimensions of a broadcast, the last one first. -/
def broadcastDims : List Nat → List Nat → Option (List Nat)
  | [], ds => some ds
  | ds, [] => some ds
  | d :: ds, e :: es =>
    if d = e ∨ e = 1 then (broadcastDims ds es).map (d :: ·)
    else if d = 1 then (broadcastDims ds es).map (e :: ·)
    else none

/-- The element of an operand that stands behind an element of the result, all dimensions the last
one first. -/
def operandIndex : List Nat → List Nat → Nat → Nat
  | out :: outs, d :: ds, i => (if d = 1 then 0 else i % out) + d * operandIndex outs ds (i / out)
  | _, _, _ => 0

/-- `Mul` and `Div`. -/
def IsBinary (op : Num → Num → Option Num) (x y z : OnnxTensor) : Prop :=
  y.elemType = x.elemType ∧ z.elemType = x.elemType ∧
    broadcastDims x.dims.reverse y.dims.reverse = some z.dims.reverse ∧
    ∀ i < z.elems.length, ∀ v,
      op (x.elems.getD (operandIndex z.dims.reverse x.dims.reverse i) .nan)
        (y.elems.getD (operandIndex z.dims.reverse y.dims.reverse i) .nan) = some v →
      z.elems.getD i .nan = v

/-- The elements of a concatenation, block by block. -/
def concatElems (outer axis : Nat) (xs : List OnnxTensor) : List Num :=
  (List.range outer).flatMap fun o =>
    xs.flatMap fun x =>
      (x.elems.drop (o * (x.dims.drop axis).prod)).take (x.dims.drop axis).prod

def IsConcat (node : Node) (xs : List OnnxTensor) (y : OnnxTensor) : Prop :=
  let axis := nodeAxis node 1 y.dims.length
  axis < y.dims.length ∧
    (∀ x ∈ xs, x.elemType = y.elemType ∧ x.dims.length = y.dims.length ∧
      x.dims.take axis = y.dims.take axis ∧ x.dims.drop (axis + 1) = y.dims.drop (axis + 1)) ∧
    y.dims.getD axis 0 = (xs.map fun x => x.dims.getD axis 0).sum ∧
    y.elems = concatElems (y.dims.take axis).prod axis xs

theorem TensorRun.At.single {ρ : TensorRun} {slots : List (Option String)} {x : OnnxTensor}
    (h : ρ.At slots [x]) : ∃ name, slots = [some name] ∧ ρ name = some x := by
  obtain ⟨slot, _, hslot, hnil, rfl⟩ := List.forall₂_cons_right_iff.1 h
  obtain ⟨name, rfl, hx⟩ := Option.bind_eq_some_iff.1 hslot
  cases hnil
  exact ⟨name, rfl, hx⟩

theorem TensorRun.At.pair {ρ : TensorRun} {slots : List (Option String)} {x y : OnnxTensor}
    (h : ρ.At slots [x, y]) :
    ∃ a b, slots = [some a, some b] ∧ ρ a = some x ∧ ρ b = some y := by
  obtain ⟨slot, rest, hslot, hrest, rfl⟩ := List.forall₂_cons_right_iff.1 h
  obtain ⟨a, rfl, hx⟩ := Option.bind_eq_some_iff.1 hslot
  obtain ⟨b, rfl, hy⟩ := TensorRun.At.single hrest
  exact ⟨a, b, rfl, hx, hy⟩

/-- A node computes its output as ONNX says. -/
structure TensorRun.Follows (ρ : TensorRun) (node : Node) : Prop where
  shape : node.opType = "Shape" → ∃ x y,
    ρ.At node.inputs [x] ∧ ρ.At node.outputs [y] ∧ IsShape node x y
  gather : node.opType = "Gather" → ∃ data indices y,
    ρ.At node.inputs [data, indices] ∧ ρ.At node.outputs [y] ∧ IsGather node data indices y
  cast : node.opType = "Cast" → ∃ x y,
    ρ.At node.inputs [x] ∧ ρ.At node.outputs [y] ∧ IsCast x y
  slice : node.opType = "Slice" → ∃ x y, ∃ b : SliceBounds,
    (node.inputs.head?.join.bind ρ) = some x ∧ ρ.At node.outputs [y] ∧ b.Of ρ node ∧ IsSlice b x y
  mul : node.opType = "Mul" → ∃ x y z,
    ρ.At node.inputs [x, y] ∧ ρ.At node.outputs [z] ∧ IsBinary x.elemType.mulElem x y z
  div : node.opType = "Div" → ∃ x y z,
    ρ.At node.inputs [x, y] ∧ ρ.At node.outputs [z] ∧ IsBinary x.elemType.divElem x y z
  concat : node.opType = "Concat" → ∃ xs y,
    ρ.At node.inputs xs ∧ ρ.At node.outputs [y] ∧ IsConcat node xs y

/-! ## Where positions are elements -/

theorem takeAxis_only {dims : List Nat} {axis : Nat} (houter : (dims.take axis).prod = 1)
    (hinner : (dims.drop (axis + 1)).prod = 1) (positions : List Nat) (elems : List Num) :
    takeAxis dims axis positions elems = positions.map fun p => elems.getD p .nan := by
  unfold takeAxis
  simp only [houter, hinner, List.range_one, List.flatMap_cons, List.flatMap_nil, List.append_nil,
    List.map_cons, List.map_nil, Nat.zero_mul, Nat.zero_add, Nat.mul_one, Nat.add_zero]
  exact List.map_eq_flatMap.symm

/-- The size of such a tensor is that of its axis. -/
theorem prod_only {dims : List Nat} {axis : Nat} (haxis : axis < dims.length)
    (houter : (dims.take axis).prod = 1) (hinner : (dims.drop (axis + 1)).prod = 1) :
    dims.prod = dims.getD axis 1 := by
  calc dims.prod = (dims.take axis).prod * (dims.drop axis).prod := by
        rw [← List.prod_append, List.take_append_drop]
    _ = dims.getD axis 1 := by
        rw [houter, Nat.one_mul, List.drop_eq_getElem_cons haxis, List.prod_cons, hinner,
          Nat.mul_one, List.getD_eq_getElem _ _ haxis]

/-! ## Where an operand is repeated -/

theorem broadcastDims_nil_right (ds : List Nat) : broadcastDims ds [] = some ds := by
  cases ds <;> rfl

theorem broadcastDims_comm (ds es : List Nat) : broadcastDims ds es = broadcastDims es ds := by
  induction ds generalizing es with
  | nil => rw [broadcastDims_nil_right]; rfl
  | cons d ds ih =>
    cases es with
    | nil => rfl
    | cons e es =>
      show (if d = e ∨ e = 1 then _ else _) = if e = d ∨ d = 1 then _ else _
      rw [ih es]
      by_cases heq : d = e
      · subst heq
        rfl
      · by_cases hd : d = 1
        · subst hd
          simp [heq, Ne.symm heq]
        · simp [heq, hd, Ne.symm heq]

/-- Ones widen nothing. -/
theorem broadcastDims_ones (ds : List Nat) (k : Nat) :
    broadcastDims ds (List.replicate k 1) = some (ds ++ List.replicate (k - ds.length) 1) := by
  induction ds generalizing k with
  | nil => rfl
  | cons d ds ih =>
    cases k with
    | zero => simp [broadcastDims]
    | succ k =>
      rw [List.replicate_succ]
      show (if d = 1 ∨ 1 = 1 then (broadcastDims ds (List.replicate k 1)).map (d :: ·) else _) = _
      rw [if_pos (Or.inr rfl), ih, Option.map_some, List.length_cons, Nat.add_sub_add_right]
      rfl

theorem broadcastDims_append (core ds es : List Nat) :
    broadcastDims (core ++ ds) (core ++ es) = (broadcastDims ds es).map (core ++ ·) := by
  induction core with
  | nil =>
    show broadcastDims ds es = (broadcastDims ds es).map id
    rw [Option.map_id_fun, id_eq]
  | cons d core ih =>
    show (if d = d ∨ d = 1 then (broadcastDims (core ++ ds) (core ++ es)).map (d :: ·) else _) = _
    rw [if_pos (Or.inl rfl), ih, Option.map_map]
    rfl

theorem operandIndex_core (core rest : List Nat) (k i : Nat) :
    operandIndex (core ++ rest) (core ++ List.replicate k 1) i = i % core.prod := by
  induction core generalizing i with
  | nil =>
    rw [List.prod_nil, Nat.mod_one, List.nil_append, List.nil_append]
    induction rest generalizing k i with
    | nil => rfl
    | cons out rest ih =>
      cases k with
      | zero => rfl
      | succ k =>
        show (if (1 : Nat) = 1 then 0 else _) + 1 * operandIndex rest (List.replicate k 1) _ = 0
        rw [if_pos rfl, ih]
  | cons d core ih =>
    show (if d = 1 then 0 else i % d) +
      d * operandIndex (core ++ rest) (core ++ List.replicate k 1) (i / d) = _
    rw [ih, List.prod_cons, Nat.mod_mul]
    by_cases hd : d = 1
    · subst hd
      simp [Nat.mod_one]
    · rw [if_neg hd]

/-- But for leading ones, the dimensions are the last ones of the others. -/
def EndsIn (small big : List Nat) : Prop :=
  small.dropWhile (· == 1) <:+ big

instance (small big : List Nat) : Decidable (EndsIn small big) :=
  inferInstanceAs (Decidable (_ <:+ _))

theorem EndsIn.reverse {small big : List Nat} (h : EndsIn small big) :
    ∃ core rest k, big.reverse = core ++ rest ∧ small.reverse = core ++ List.replicate k 1 ∧
      core.prod = small.prod := by
  obtain ⟨front, hfront⟩ := h
  have hones : ∀ d ∈ small.takeWhile (· == 1), d = 1 := by
    intro d hd
    simpa using List.mem_takeWhile_imp hd
  have hreplicate := List.eq_replicate_of_mem hones
  refine ⟨(small.dropWhile (· == 1)).reverse, front.reverse,
    (small.takeWhile (· == 1)).length, ?_, ?_, ?_⟩
  · rw [← List.reverse_append, hfront]
  · rw [← List.reverse_replicate, ← hreplicate, ← List.reverse_append,
      List.takeWhile_append_dropWhile]
  · rw [List.prod_reverse]
    nth_rewrite 2 [← List.takeWhile_append_dropWhile (p := (· == 1)) (l := small)]
    rw [List.prod_append, hreplicate, List.prod_replicate, one_pow, one_mul]

/-- The operand is repeated, and the result is as large as the other one. -/
theorem broadcast_suffix {small big out : List Nat} (h : EndsIn small big)
    (hout : broadcastDims big.reverse small.reverse = some out.reverse) :
    out.prod = big.prod ∧ small.prod ∣ big.prod ∧ ∀ i,
      operandIndex out.reverse big.reverse i = i % big.prod ∧
        operandIndex out.reverse small.reverse i = i % small.prod := by
  obtain ⟨core, rest, k, hbig, hsmall, hprod⟩ := h.reverse
  rw [hbig, hsmall, broadcastDims_append, broadcastDims_ones, Option.map_some] at hout
  have hrev := (Option.some.inj hout).symm
  have hbigprod : (core ++ rest).prod = big.prod := by rw [← hbig, List.prod_reverse]
  refine ⟨?_, ?_, fun i => ⟨?_, ?_⟩⟩
  · rw [← List.prod_reverse, hrev, ← List.append_assoc, List.prod_append, hbigprod,
      List.prod_replicate, one_pow, mul_one]
  · rw [← hbigprod, List.prod_append, hprod]
    exact Dvd.intro _ rfl
  · rw [hrev, hbig, ← List.append_assoc, ← hbigprod]
    have hindex := operandIndex_core (core ++ rest) (List.replicate (k - rest.length) 1) 0 i
    rwa [List.replicate_zero, List.append_nil] at hindex
  · rw [hrev, hsmall, ← hprod]
    exact operandIndex_core core _ k i

/-! ## Where a concatenation is one of lists -/

theorem concatElems_outer {axis : Nat} {xs : List OnnxTensor}
    (houter : ∀ x ∈ xs, (x.dims.take axis).prod = 1) :
    concatElems 1 axis xs = xs.flatMap OnnxTensor.elems := by
  unfold concatElems
  rw [List.range_one, List.flatMap_cons, List.flatMap_nil, List.append_nil]
  refine List.flatMap_congr fun x hx => ?_
  have hlen : x.elems.length = (x.dims.drop axis).prod := by
    rw [x.length_elems, ← Nat.one_mul (x.dims.drop axis).prod, ← houter x hx, ← List.prod_append,
      List.take_append_drop]
  rw [Nat.zero_mul, List.drop_zero, ← hlen, List.take_length]

/-- Blocks of one length, one after the other. -/
theorem flatMap_blocks {α : Type*} (n block : Nat) (l : List α) :
    ((List.range n).flatMap fun o => (l.drop (o * block)).take block) = l.take (n * block) := by
  induction n with
  | zero => simp
  | succ n ih =>
    rw [List.range_succ, List.flatMap_append, ih, List.flatMap_singleton, Nat.succ_mul,
      ← List.take_add]

theorem concatElems_single {axis : Nat} (x : OnnxTensor) :
    concatElems (x.dims.take axis).prod axis [x] = x.elems := by
  unfold concatElems
  simp only [List.flatMap_cons, List.flatMap_nil, List.append_nil]
  rw [flatMap_blocks, ← List.prod_append, List.take_append_drop, ← x.length_elems, List.take_length]

end AmdGpuEp.DirectML
