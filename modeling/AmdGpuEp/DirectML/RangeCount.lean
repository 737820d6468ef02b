import AmdGpuEp.DirectML.Broadcasting
import AmdGpuEp.Lib.FloatFormat
import Mathlib.Data.Rat.Floor
import Mathlib.Tactic.FieldSimp

/-!
# Element counts of Range

`TranslateRange` reads the three scalars when it translates the node and counts the elements
itself, unless a shape was recorded for the output. The ceiling of a quotient of integers is the
quotient towards zero plus one when there is a remainder, whatever the signs are: a range that goes
the other way by less than one step gets an element.

Results:
1. `ceil_tdiv`: what the ceiling of the source is.
2. `range_iff`: when the count is right and nothing overflows.
3. `range_backwards`: a range that should be empty.
-/

namespace AmdGpuEp.DirectML

/-! ## The translator -/

/-- `DML_FILL_VALUE_SEQUENCE_OPERATOR_DESC`; a `DML_SCALAR_UNION` has eight bytes. -/
structure FillValueSequence where
  valueDataType : DmlDataType
  valueStart : List UInt8
  valueDelta : List UInt8
  deriving DecidableEq, Repr

/-- `read_scalar_bytes`: the type and the eight bytes of the union. -/
def readScalarBytes (node : Node) (initializers : String → Option Initializer) (idx : Nat) :
    Option (DmlDataType × List UInt8) :=
  ((getNodeInputNames node)[idx]?.filter (· ≠ "")).bind fun name =>
    (initializers name).bind fun tensor =>
      if tensor.dims.prod = 1 ∧ tensor.dataType.size ≠ 0 then
        tensor.bytes.map fun data =>
          let read := data.take (min tensor.dataType.size 8)
          (tensor.dataType, read ++ List.replicate (8 - read.length) 0)
      else none

/-- The number of bytes, the least one first. -/
def littleEndian (bytes : List UInt8) : Nat :=
  bytes.foldr (fun b n => b.toNat + 256 * n) 0

/-- A signed member of the union. -/
def signedMember (bits : Nat) (value : List UInt8) : Int :=
  (littleEndian (value.take (bits / 8)) : Int).bmod (2 ^ bits)

/-- A floating-point member of the union. -/
def floatMember (f : FloatFormat) (bytes : Nat) (value : List UInt8) : Num :=
  f.decode (littleEndian (value.take bytes))

/-- The count in `double`, where numbers are rationals. What the conversion to `uint32_t` gives out
of its range is undefined, and so is here the count of numbers that are not finite. -/
def floatCount (undef : Option ℚ → UInt32) : Num → Num → Num → Nat
  | .fin s, .fin l, .fin d =>
    let count := max ⌈(l - s) / d⌉ 0
    if count < 2 ^ 32 then count.toNat else (undef (some ((l - s) / d))).toNat
  | _, _, _ => (undef none).toNat

/-- The count in `int64_t`. -/
def intCount (s l d : Int) : Option Nat :=
  if d = 0 then none
  else
    let range := (l - s).bmod (2 ^ 64)
    some ((max (range.tdiv d + if range.tmod d ≠ 0 then 1 else 0) 0).toNat % 2 ^ 32)

/-- `output_count`: all three are read with the type of the start. -/
def rangeOutputCount (undef : Option ℚ → UInt32) (startType : DmlDataType)
    (start limit delta : List UInt8) : Option Nat :=
  match startType with
  | .float32 =>
    let read := floatMember .float32 4
    some (floatCount undef (read start) (read limit) (read delta))
  | .float64 =>
    let read := floatMember .float64 8
    some (floatCount undef (read start) (read limit) (read delta))
  | .float16 => some (floatCount undef (.fin 0) (.fin 0) (.fin 1))
  | .int32 => intCount (signedMember 32 start) (signedMember 32 limit) (signedMember 32 delta)
  | .int64 => intCount (signedMember 64 start) (signedMember 64 limit) (signedMember 64 delta)
  | .int16 => intCount (signedMember 16 start) (signedMember 16 limit) (signedMember 16 delta)
  | _ => none

/-- A recorded shape of the output goes before the count. -/
def rangeResult (node : Node) (shapes : ValueShapes) (dtype : DmlDataType)
    (start delta : List UInt8) (outputCount : Nat) : Option (TranslatedOp FillValueSequence) :=
  let op := fun sizes : List Nat =>
    { opDesc := { valueDataType := dtype, valueStart := start, valueDelta := delta }
      inputTensors := []
      outputTensors := [makeTensorInfo sizes dtype] : TranslatedOp FillValueSequence }
  match outEdge node shapes with
  | some edge => some (op edge.sizes)
  | none => if outputCount = 0 then none else some (op [outputCount])

def translateRange (undef : Option ℚ → UInt32) : OpTranslator FillValueSequence :=
  fun node shapes initializers =>
    if getNodeOutputNames node = [] then none
    else
      match readScalarBytes node initializers 0, readScalarBytes node initializers 1,
        readScalarBytes node initializers 2 with
      | some (dtype, start), some (_, limit), some (_, delta) =>
        (rangeOutputCount undef dtype start limit delta).bind
          (rangeResult node shapes dtype start delta)
      | _, _, _ => none

/-! ## Ranges of constants -/

/-- The types of a Range. -/
inductive RangeType
  | float | double | int16 | int32 | int64
  deriving DecidableEq, Repr

namespace RangeType

def dml : RangeType → DmlDataType
  | .float => .float32
  | .double => .float64
  | .int16 => .int16
  | .int32 => .int32
  | .int64 => .int64

def isInt : RangeType → Bool
  | .float | .double => false
  | .int16 | .int32 | .int64 => true

/-- The number that the bytes of an element are. -/
def number (type : RangeType) (bytes : List UInt8) : Num :=
  match type with
  | .float => FloatFormat.float32.decode (littleEndian bytes)
  | .double => FloatFormat.float64.decode (littleEndian bytes)
  | .int16 => .fin ((littleEndian bytes : Int).bmod (2 ^ 16))
  | .int32 => .fin ((littleEndian bytes : Int).bmod (2 ^ 32))
  | .int64 => .fin ((littleEndian bytes : Int).bmod (2 ^ 64))

end RangeType

/-- A constant scalar with a finite value. -/
structure RangeScalar (type : RangeType) where
  name : String
  dims : List Nat
  bytes : List UInt8
  value : ℚ
  name_ne : name ≠ ""
  scalar : dims.prod = 1
  length_eq : bytes.length = type.dml.size
  value_eq : type.number bytes = .fin value

/-- The initializer of the scalar. -/
def RangeScalar.tensor {type : RangeType} (x : RangeScalar type) : Initializer where
  dataType := type.dml
  dims := x.dims
  bytes := some x.bytes

/-- The union that the bytes are copied to. -/
def RangeScalar.union {type : RangeType} (x : RangeScalar type) : List UInt8 :=
  x.bytes ++ List.replicate (8 - x.bytes.length) 0

/-- A Range with constant start, limit and delta, where delta is not zero. -/
structure ConstantRange where
  node : Node
  initializers : String → Option Initializer
  type : RangeType
  start : RangeScalar type
  limit : RangeScalar type
  delta : RangeScalar type
  inputs_eq : getNodeInputNames node = [start.name, limit.name, delta.name]
  output_ne : getNodeOutputNames node ≠ []
  start_eq : initializers start.name = some start.tensor
  limit_eq : initializers limit.name = some limit.tensor
  delta_eq : initializers delta.name = some delta.tensor
  delta_ne : delta.value ≠ 0

namespace ConstantRange

variable (r : ConstantRange)

/-- `max(ceil((limit - start) / delta), 0)` -/
def count : Nat := ⌈(r.limit.value - r.start.value) / r.delta.value⌉.toNat

/-- The difference, and its quotient, are in the range of `int64_t`. -/
def NoOverflow : Prop :=
  (-2 ^ 63 ≤ r.limit.value - r.start.value ∧ r.limit.value - r.start.value < 2 ^ 63) ∧
    (r.limit.value - r.start.value) / r.delta.value < 2 ^ 63

/-- What a translation should be: a node with elements is translated, with that many elements, from
the given values. -/
structure Gives (result : Option (TranslatedOp FillValueSequence)) : Prop where
  noOverflow : r.type.isInt → r.NoOverflow
  given : 0 < r.count → result.isSome
  count : ∀ op, result = some op → op.outputTensors.map (fun t => t.sizes.prod) = [r.count]
  values : ∀ op, result = some op → op.opDesc =
    { valueDataType := r.type.dml, valueStart := r.start.union, valueDelta := r.delta.union }

/-- The limit is behind the start, by less than a step. -/
def Backwards : Prop :=
  (r.limit.value - r.start.value) / r.delta.value < 0 ∧
    -1 < (r.limit.value - r.start.value) / r.delta.value

/-- When the count is right: the shape that was recorded is, or the count fits and the range does
not go backwards. -/
structure Countable (shapes : ValueShapes) : Prop where
  fits : r.type.isInt → r.NoOverflow
  recorded : ∀ edge, outEdge r.node shapes = some edge → edge.sizes.prod = r.count
  counted : outEdge r.node shapes = none → r.count < 2 ^ 32 ∧ (r.type.isInt → ¬ r.Backwards)

end ConstantRange

namespace RangeCountLemmas

/-! ## The ceiling -/

/-- A quotient is the one towards zero and a fraction with the sign of the remainder over the
divisor. -/
theorem div_eq_tdiv_add {a d : Int} (hd : d ≠ 0) :
    (a : ℚ) / d = a.tdiv d + (a.tmod d : ℚ) / d ∧ |(a.tmod d : ℚ) / d| < 1 := by
  have hd' : (d : ℚ) ≠ 0 := by exact_mod_cast hd
  constructor
  · have hsum : (d * a.tdiv d + a.tmod d : Int) = a := Int.mul_tdiv_add_tmod a d
    have hsum' : (d : ℚ) * a.tdiv d + a.tmod d = a := by exact_mod_cast hsum
    rw [← hsum']
    field_simp
  · rw [abs_div, div_lt_one (abs_pos.2 hd')]
    have hlt : |a.tmod d| < |d| := by
      rw [Int.abs_eq_natAbs, Int.abs_eq_natAbs, Int.natAbs_tmod]
      exact_mod_cast Nat.mod_lt _ (Int.natAbs_pos.2 hd)
    exact_mod_cast hlt

theorem tdiv_nonneg_of_frac_pos {a d : Int} (h : 0 < (a.tmod d : ℚ) / d) : 0 ≤ a.tdiv d := by
  rcases Int.le_total 0 a with ha | ha
  · have hmod : (0 : ℚ) ≤ a.tmod d := by exact_mod_cast Int.tmod_nonneg d ha
    have hd : (0 : ℚ) ≤ d := by
      by_contra hneg
      exact absurd h (not_lt.2 (div_nonpos_of_nonneg_of_nonpos hmod (not_le.1 hneg).le))
    exact Int.tdiv_nonneg ha (by exact_mod_cast hd)
  · have hneg := Int.tmod_nonneg d (Int.neg_nonneg_of_nonpos ha)
    rw [Int.neg_tmod] at hneg
    have hmod : (a.tmod d : ℚ) ≤ 0 := by exact_mod_cast Int.nonpos_of_neg_nonneg hneg
    have hd : (d : ℚ) ≤ 0 := by
      by_contra hpos
      exact absurd h (not_lt.2 (div_nonpos_of_nonpos_of_nonneg hmod (not_le.1 hpos).le))
    have hd' : d ≤ 0 := by exact_mod_cast hd
    rw [← neg_neg a, ← neg_neg d, Int.neg_tdiv, Int.tdiv_neg, neg_neg]
    exact Int.tdiv_nonneg (Int.neg_nonneg_of_nonpos ha) (Int.neg_nonneg_of_nonpos hd')

theorem tdiv_nonpos_of_frac_neg {a d : Int} (h : (a.tmod d : ℚ) / d < 0) : a.tdiv d ≤ 0 := by
  have hneg : 0 < (((-a).tmod d : Int) : ℚ) / d := by
    rw [Int.neg_tmod, Int.cast_neg, neg_div]
    exact neg_pos.2 h
  have hle := tdiv_nonneg_of_frac_pos hneg
  rw [Int.neg_tdiv] at hle
  omega

/-- The count is one too many when the quotient lies between -1 and 0. -/
theorem ceil_tdiv {a d : Int} (hd : d ≠ 0) :
    max (a.tdiv d + if a.tmod d ≠ 0 then 1 else 0) 0 =
      if (a : ℚ) / d < 0 ∧ -1 < (a : ℚ) / d then 1 else max ⌈(a : ℚ) / d⌉ 0 := by
  obtain ⟨hsplit, hfrac⟩ := div_eq_tdiv_add hd (a := a)
  rw [hsplit]
  have hzero : a.tmod d = 0 ↔ (a.tmod d : ℚ) / d = 0 := by
    rw [div_eq_zero_iff, Int.cast_eq_zero, Int.cast_eq_zero, or_iff_left hd]
  simp only [ne_eq, hzero]
  have hpos := tdiv_nonneg_of_frac_pos (a := a) (d := d)
  have hneg := tdiv_nonpos_of_frac_neg (a := a) (d := d)
  generalize (a.tmod d : ℚ) / d = f at *
  generalize a.tdiv d = t at *
  obtain ⟨hlow, hhigh⟩ := abs_lt.1 hfrac
  rcases lt_trichotomy f 0 with hf | rfl | hf
  · -- the signs differ: the ceiling is the quotient towards zero
    have hceil : ⌈(t : ℚ) + f⌉ = t := by
      rw [Int.ceil_eq_iff]
      constructor <;> linarith
    have ht := hneg hf
    rw [if_pos hf.ne, hceil]
    rcases Int.lt_or_eq_of_le ht with hlt | rfl
    · have hle : (t : ℚ) ≤ -1 := by exact_mod_cast Int.le_sub_one_of_lt hlt
      rw [if_neg fun h => absurd h.2 (by linarith)]
      omega
    · rw [if_pos ⟨by push_cast; linarith, by push_cast; linarith⟩]
      rfl
  · rw [if_neg (not_not_intro rfl), add_zero, add_zero, Int.ceil_intCast, if_neg]
    rintro ⟨hlt, hgt⟩
    have hlt' : t < 0 := by exact_mod_cast hlt
    have hgt' : -1 < t := by exact_mod_cast hgt
    omega
  · have hceil : ⌈(t : ℚ) + f⌉ = t + 1 := by
      rw [Int.ceil_eq_iff]
      push_cast
      constructor <;> linarith
    have ht : (0 : ℚ) ≤ t := by exact_mod_cast hpos hf
    rw [if_pos hf.ne', hceil, if_neg fun h => absurd h.1 (by linarith)]

/-! ## What is read -/

theorem size_le (type : RangeType) : type.dml.size ≤ 8 ∧ type.dml.size ≠ 0 := by
  cases type <;> decide

section
variable {type : RangeType} (x : RangeScalar type)

theorem take_union : x.union.take type.dml.size = x.bytes := by
  rw [RangeScalar.union, ← x.length_eq, List.take_left]

end

variable (r : ConstantRange) (undef : Option ℚ → UInt32) (shapes : ValueShapes)

theorem readScalarBytes_eq {idx : Nat} (x : RangeScalar r.type)
    (hname : (getNodeInputNames r.node)[idx]? = some x.name)
    (htensor : r.initializers x.name = some x.tensor) :
    readScalarBytes r.node r.initializers idx = some (r.type.dml, x.union) := by
  have htake : x.bytes.take (min r.type.dml.size 8) = x.bytes := by
    rw [Nat.min_eq_left (size_le r.type).1, ← x.length_eq, List.take_length]
  have hname' : (some x.name).filter (· ≠ "") = some x.name := by
    rw [Option.filter_some, if_pos (decide_eq_true x.name_ne)]
  unfold readScalarBytes
  rw [hname, hname', Option.bind_some, htensor, Option.bind_some]
  unfold RangeScalar.tensor
  dsimp only
  rw [if_pos ⟨x.scalar, (size_le r.type).2⟩, Option.map_some, htake]
  rfl

/-- The count of the translator for these scalars. -/
def outputCount : Option Nat :=
  rangeOutputCount undef r.type.dml r.start.union r.limit.union r.delta.union

theorem translateRange_eq : translateRange undef r.node shapes r.initializers =
    (outputCount r undef).bind
      (rangeResult r.node shapes r.type.dml r.start.union r.delta.union) := by
  have hstart : readScalarBytes r.node r.initializers 0 = some (r.type.dml, r.start.union) :=
    readScalarBytes_eq r r.start (by rw [r.inputs_eq]; rfl) r.start_eq
  have hlimit : readScalarBytes r.node r.initializers 1 = some (r.type.dml, r.limit.union) :=
    readScalarBytes_eq r r.limit (by rw [r.inputs_eq]; rfl) r.limit_eq
  have hdelta : readScalarBytes r.node r.initializers 2 = some (r.type.dml, r.delta.union) :=
    readScalarBytes_eq r r.delta (by rw [r.inputs_eq]; rfl) r.delta_eq
  unfold translateRange
  rw [if_neg r.output_ne, hstart, hlimit, hdelta]
  rfl

/-- What is read from the union is the number of the bytes. -/
theorem number_union {type : RangeType} (x : RangeScalar type) :
    type.number (x.union.take type.dml.size) = .fin x.value := by
  rw [take_union, x.value_eq]

/-- Floating-point scalars are counted as rationals. -/
theorem outputCount_float (h : r.type.isInt = false) : outputCount r undef =
    some (floatCount undef (.fin r.start.value) (.fin r.limit.value) (.fin r.delta.value)) := by
  rw [← number_union r.start, ← number_union r.limit, ← number_union r.delta]
  unfold outputCount
  generalize r.start.union = start
  generalize r.limit.union = limit
  generalize r.delta.union = delta
  cases htype : r.type with
  | float | double => rfl
  | int16 | int32 | int64 =>
    rw [htype] at h
    cases h

/-- Integers are counted in 64 bits. -/
theorem outputCount_int (h : r.type.isInt = true) : ∃ s l d : Int,
    (r.start.value = s ∧ r.limit.value = l ∧ r.delta.value = d) ∧
      outputCount r undef = intCount s l d := by
  have hmember : ∃ member : List UInt8 → Int,
      (∀ bytes, r.type.number (bytes.take r.type.dml.size) = .fin (member bytes)) ∧
      ∀ start limit delta, rangeOutputCount undef r.type.dml start limit delta =
        intCount (member start) (member limit) (member delta) := by
    cases htype : r.type with
    | float | double =>
      rw [htype] at h
      cases h
    | int16 => exact ⟨signedMember 16, fun _ => rfl, fun _ _ _ => rfl⟩
    | int32 => exact ⟨signedMember 32, fun _ => rfl, fun _ _ _ => rfl⟩
    | int64 => exact ⟨signedMember 64, fun _ => rfl, fun _ _ _ => rfl⟩
  obtain ⟨member, hnumber, hcount⟩ := hmember
  have hvalue : ∀ x : RangeScalar r.type, x.value = member x.union := fun x =>
    Num.fin.inj ((number_union x).symm.trans (hnumber x.union))
  exact ⟨member r.start.union, member r.limit.union, member r.delta.union,
    ⟨hvalue r.start, hvalue r.limit, hvalue r.delta⟩, hcount _ _ _⟩

/-! ## The result for a count -/

theorem makeTensorInfo_prod (sizes : List Nat) (dtype : DmlDataType) :
    (makeTensorInfo sizes dtype).sizes.prod = sizes.prod := by
  unfold makeTensorInfo padToMinDims
  rw [List.prod_append, List.prod_replicate, one_pow, one_mul]

/-- What the result is, apart from the overflow: the recorded shape, or the count. -/
theorem gives_rangeResult_iff (count : Nat) :
    r.Gives (rangeResult r.node shapes r.type.dml r.start.union r.delta.union count) ↔
      (r.type.isInt → r.NoOverflow) ∧
      (∀ edge, outEdge r.node shapes = some edge → edge.sizes.prod = r.count) ∧
      (outEdge r.node shapes = none → count = r.count) := by
  unfold rangeResult
  cases hedge : outEdge r.node shapes with
  | some edge =>
    dsimp only
    constructor
    · intro h
      refine ⟨h.noOverflow, fun edge' heq => ?_, nofun⟩
      obtain rfl := Option.some.inj heq
      exact (makeTensorInfo_prod _ _).symm.trans (List.singleton_inj.1 (h.count _ rfl))
    · rintro ⟨hfits, hprod, -⟩
      refine ⟨hfits, fun _ => rfl, fun op hop => ?_, fun op hop => ?_⟩
      · obtain rfl := Option.some.inj hop
        exact List.singleton_inj.2 ((makeTensorInfo_prod _ _).trans (hprod edge rfl))
      · obtain rfl := Option.some.inj hop
        rfl
  | none =>
    dsimp only
    constructor
    · intro h
      refine ⟨h.noOverflow, nofun, fun _ => ?_⟩
      by_cases hzero : count = 0
      · have hgiven := h.given
        rw [if_pos hzero] at hgiven
        by_contra hne
        exact absurd (hgiven (by omega)) Bool.false_ne_true
      · have hcount := h.count
        rw [if_neg hzero] at hcount
        have hprod : (makeTensorInfo [count] r.type.dml).sizes.prod = r.count :=
          List.singleton_inj.1 (hcount _ rfl)
        rw [makeTensorInfo_prod, List.prod_singleton] at hprod
        exact hprod
    · rintro ⟨hfits, -, hcount⟩
      obtain rfl := hcount rfl
      by_cases hzero : r.count = 0
      · rw [if_pos hzero]
        exact ⟨hfits, fun hpos => absurd hzero hpos.ne', nofun, nofun⟩
      · rw [if_neg hzero]
        refine ⟨hfits, fun _ => rfl, fun op hop => ?_, fun op hop => ?_⟩
        · obtain rfl := Option.some.inj hop
          exact List.singleton_inj.2 ((makeTensorInfo_prod _ _).trans List.prod_singleton)
        · obtain rfl := Option.some.inj hop
          rfl

theorem floatCount_eq_iff {s l d : ℚ} :
    floatCount undef (.fin s) (.fin l) (.fin d) = ⌈(l - s) / d⌉.toNat ↔
      ⌈(l - s) / d⌉.toNat < 2 ^ 32 := by
  unfold floatCount
  dsimp only
  generalize hundef : (undef (some ((l - s) / d))).toNat = n
  have hn : n < 2 ^ 32 := hundef ▸ UInt32.toNat_lt _
  generalize ⌈(l - s) / d⌉ = c
  split
  · next hlt =>
    refine iff_of_true ?_ ?_
    · omega
    · omega
  · next hge =>
    refine iff_of_false ?_ ?_
    · omega
    · omega

theorem intCount_eq_iff {s l d : Int} (hd : d ≠ 0)
    (hfits : -2 ^ 63 ≤ l - s ∧ l - s < 2 ^ 63) :
    ∃ count, intCount s l d = some count ∧ (count = ⌈((l - s : Int) : ℚ) / d⌉.toNat ↔
      ⌈((l - s : Int) : ℚ) / d⌉.toNat < 2 ^ 32 ∧
        ¬ (((l - s : Int) : ℚ) / d < 0 ∧ -1 < ((l - s : Int) : ℚ) / d)) := by
  have hrange : (l - s).bmod (2 ^ 64) = l - s := by
    refine Int.bmod_eq_of_le ?_ ?_
    · omega
    · omega
  unfold intCount
  rw [if_neg hd]
  dsimp only
  rw [hrange, ceil_tdiv hd]
  refine ⟨_, rfl, ?_⟩
  generalize ((l - s : Int) : ℚ) / d = q
  by_cases hback : q < 0 ∧ -1 < q
  · have hceil : ⌈q⌉ = 0 := by
      rw [Int.ceil_eq_iff]
      push_cast
      exact ⟨by linarith [hback.2], hback.1.le⟩
    rw [if_pos hback, hceil]
    refine iff_of_false (by decide) fun h => h.2 hback
  · rw [if_neg hback, and_iff_left hback]
    generalize ⌈q⌉ = c
    omega

end RangeCountLemmas

open RangeCountLemmas

/-! ## The count -/

/-- The translation is right exactly when nothing overflows, the recorded shape of the output is
right, and without one the count fits in 32 bits and an integer range does not go backwards. -/
theorem range_iff (r : ConstantRange) (undef : Option ℚ → UInt32) (shapes : ValueShapes) :
    r.Gives (translateRange undef r.node shapes r.initializers) ↔ r.Countable shapes := by
  have hsplit : r.Countable shapes ↔ (r.type.isInt → r.NoOverflow) ∧
      (∀ edge, outEdge r.node shapes = some edge → edge.sizes.prod = r.count) ∧
      (outEdge r.node shapes = none → r.count < 2 ^ 32 ∧ (r.type.isInt → ¬ r.Backwards)) :=
    ⟨fun h => ⟨h.fits, h.recorded, h.counted⟩, fun h => ⟨h.1, h.2.1, h.2.2⟩⟩
  rw [hsplit]
  by_cases hint : r.type.isInt = true
  · obtain ⟨s, l, d, ⟨hs, hl, hd⟩, hcount⟩ := outputCount_int r undef hint
    have hdiff : r.limit.value - r.start.value = ((l - s : Int) : ℚ) := by
      rw [hs, hl, Int.cast_sub]
    by_cases hfits : r.NoOverflow
    · have hd' : d ≠ 0 := fun h => r.delta_ne (by rw [hd, h, Int.cast_zero])
      have hrange : -2 ^ 63 ≤ l - s ∧ l - s < 2 ^ 63 := by
        have hrange' := hfits.1
        rw [hdiff] at hrange'
        exact ⟨by exact_mod_cast hrange'.1, by exact_mod_cast hrange'.2⟩
      obtain ⟨count, hsome, hiff⟩ := intCount_eq_iff hd' hrange
      rw [← hdiff, ← hd] at hiff
      rw [translateRange_eq, hcount, hsome, Option.bind_some, gives_rangeResult_iff]
      refine and_congr_right fun _ => and_congr_right fun _ => imp_congr_right fun _ => ?_
      exact hiff.trans (and_congr_right fun _ => ⟨fun h _ => h, fun h => h hint⟩)
    · exact iff_of_false (fun h => hfits (h.noOverflow hint)) fun h => hfits (h.1 hint)
  · have hfloat : r.type.isInt = false := Bool.eq_false_iff.2 hint
    rw [translateRange_eq, outputCount_float r undef hfloat, Option.bind_some,
      gives_rangeResult_iff]
    refine and_congr_right fun _ => and_congr_right fun _ => imp_congr_right fun _ => ?_
    exact (floatCount_eq_iff undef).trans (and_iff_left fun h => absurd h hint).symm

/-- From 5 down to 4 in steps of 2 upwards there is nothing. -/
def backwards : ConstantRange where
  node := { id := 0, name := "range", opType := "Range"
            inputs := [some "start", some "limit", some "delta"], outputs := [some "out"] }
  initializers name :=
    if name = "start" then some { dataType := .int32, dims := [], bytes := some [5, 0, 0, 0] }
    else if name = "limit" then some { dataType := .int32, dims := [], bytes := some [4, 0, 0, 0] }
    else if name = "delta" then some { dataType := .int32, dims := [], bytes := some [2, 0, 0, 0] }
    else none
  type := .int32
  start := ⟨"start", [], [5, 0, 0, 0], 5, by decide, rfl, rfl, by decide⟩
  limit := ⟨"limit", [], [4, 0, 0, 0], 4, by decide, rfl, rfl, by decide⟩
  delta := ⟨"delta", [], [2, 0, 0, 0], 2, by decide, rfl, rfl, by decide⟩
  inputs_eq := rfl
  output_ne := by decide
  start_eq := rfl
  limit_eq := rfl
  delta_eq := rfl
  delta_ne := by decide

/-- The output gets one element. -/
theorem range_backwards :
    ¬ backwards.Gives (translateRange (fun _ => 0) backwards.node (fun _ => none)
      backwards.initializers) := by
  intro h
  have hone : outputCount backwards (fun _ => 0) = some 1 := by decide
  rw [translateRange_eq, hone, Option.bind_some, gives_rangeResult_iff] at h
  have hcount : backwards.count = 0 := by
    show ⌈((4 : ℚ) - 5) / 2⌉.toNat = 0
    norm_num
  exact absurd ((h.2.2 rfl).trans hcount) Nat.one_ne_zero

end AmdGpuEp.DirectML
