import AmdGpuEp.DirectML.ShapeResolution
import Mathlib.Data.Nat.Prime.Basic

/-!
# What is found for an `Upsample` or `Resize`

The shape that a visit records, compared with the one of ONNX: the product of each
dimension with its scale, rounded down, or the sizes as they are given. Scales are
multiplied in single precision and the product is cut off. Sizes go through the
reader of `float`s, which takes the words of their memory for numbers.

Results:
1. `eq_zero_of_low_word`: no integer but zero is the `float` with its low word.
2. `resize_iff`: the shape is right exactly when no product is rounded across an
   integer, and the sizes of an initializer are all zero. For folded sizes none is recorded.
3. `resize_wrong`: a `Resize` to given sizes, and an `Upsample` by a scale of 0.7.
-/

namespace AmdGpuEp.DirectML

/-! ## Words that are numbers -/

namespace ResizedShapesLemmas

open FloatFormat

theorem magnitude_eq {exp : Nat} (hexp : exp ≠ 0) (man : Nat) :
    float32.magnitude exp man = ((2 ^ 23 + man : Nat) : ℚ) * 2 ^ ((exp : Int) - 150) := by
  unfold magnitude
  rw [if_neg hexp]
  show ((2 : ℚ) ^ 23 + man) * 2 ^ (-149 + (exp : Int) - 1) = _
  rw [show -149 + (exp : Int) - 1 = exp - 150 by ring]
  push_cast
  ring

theorem magnitude_lt_one {exp man : Nat} (hman : man < 2 ^ 23) (hexp : exp ≤ 126) :
    float32.magnitude exp man < 1 := by
  have hdigits : ((2 ^ 23 + man : Nat) : ℚ) < 2 ^ (24 : Int) := by
    have : 2 ^ 23 + man < 2 ^ 24 := by omega
    exact_mod_cast this
  by_cases hzero : exp = 0
  · subst hzero
    have hman' : (man : ℚ) < 2 ^ (23 : Int) := by exact_mod_cast hman
    calc float32.magnitude 0 man = man * 2 ^ (-149 : Int) := if_pos rfl
      _ < 2 ^ (23 : Int) * 2 ^ (-149 : Int) := mul_lt_mul_of_pos_right hman' (zpow_pos two_pos _)
      _ < 1 := by norm_num
  · rw [magnitude_eq hzero]
    calc ((2 ^ 23 + man : Nat) : ℚ) * 2 ^ ((exp : Int) - 150)
        < 2 ^ (24 : Int) * 2 ^ ((exp : Int) - 150) :=
          mul_lt_mul_of_pos_right hdigits (zpow_pos two_pos _)
      _ = 2 ^ (24 + ((exp : Int) - 150)) := (zpow_add₀ two_ne_zero _ _).symm
      _ ≤ 2 ^ (0 : Int) := zpow_le_zpow_right₀ (by norm_num) (by omega)
      _ = 1 := zpow_zero 2

theorem magnitude_lt_digits {exp man : Nat} (hman : man < 2 ^ 23) (hlow : exp ≠ 0)
    (hexp : exp ≤ 150) : float32.magnitude exp man < (2 ^ 24 : Nat) := by
  have hdigits : ((2 ^ 23 + man : Nat) : ℚ) < (2 ^ 24 : Nat) := by
    have : 2 ^ 23 + man < 2 ^ 24 := by omega
    exact_mod_cast this
  rw [magnitude_eq hlow]
  calc ((2 ^ 23 + man : Nat) : ℚ) * 2 ^ ((exp : Int) - 150)
      ≤ ((2 ^ 23 + man : Nat) : ℚ) * 1 := by
        refine mul_le_mul_of_nonneg_left ?_ (Nat.cast_nonneg _)
        exact zpow_le_one_of_nonpos₀ (by norm_num) (by omega)
    _ < (2 ^ 24 : Nat) := by rwa [mul_one]

theorem eq_zero_of_dvd_mul_odd {man c : Nat} (hman : man < 2 ^ 23) (hodd : c % 2 = 1)
    (h : 2 ^ 23 ∣ man * c) : man = 0 := by
  have hcoprime : Nat.Coprime (2 ^ 23) c :=
    Nat.Coprime.pow_left 23 (Nat.coprime_two_left.2 (Nat.odd_iff.2 hodd))
  exact Nat.eq_zero_of_dvd_of_lt (hcoprime.dvd_of_dvd_mul_right h) hman

theorem magnitude_large (t man : Nat) :
    float32.magnitude (151 + t) man = (((2 ^ 23 + man) * 2 ^ (t + 1) : Nat) : ℚ) := by
  have hexp : ((151 + t : Nat) : Int) - 150 = ((t + 1 : Nat) : Int) := by omega
  rw [magnitude_eq (by omega), hexp, zpow_natCast]
  push_cast
  ring

theorem truncate_large (negative : Bool) (t man : Nat) :
    truncate ((if negative then -1 else 1) * float32.magnitude (151 + t) man) =
      (if negative then -1 else 1) * (((2 ^ 23 + man) * 2 ^ (t + 1) : Nat) : Int) := by
  rw [magnitude_large]
  cases negative with
  | false =>
    rw [if_neg (by decide), if_neg (by decide), one_mul, one_mul]
    exact truncate_intCast _
  | true =>
    rw [if_pos rfl, if_pos rfl, neg_one_mul, neg_one_mul]
    have hcast := truncate_intCast (-(((2 ^ 23 + man) * 2 ^ (t + 1) : Nat) : Int))
    push_cast at hcast ⊢
    exact hcast

theorem shift_le {t : Nat} (man : Nat) (h : (2 ^ 23 + man) * 2 ^ (t + 1) ≤ 2 ^ 63) : t ≤ 39 := by
  by_contra hlarge
  have hpow : 2 ^ 41 ≤ 2 ^ (t + 1) := Nat.pow_le_pow_right (by decide) (by omega)
  have hbig : 2 ^ 23 * 2 ^ 41 ≤ (2 ^ 23 + man) * 2 ^ (t + 1) :=
    Nat.mul_le_mul (Nat.le_add_right _ _) hpow
  omega

theorem low_word_ne {t man : Nat} (hman : man < 2 ^ 23) (ht : t ≤ 39) :
    (((2 ^ 23 + man) * 2 ^ (t + 1) : Nat) : Int) % 2 ^ 32 ≠ (151 + t : Nat) * 2 ^ 23 + man := by
  intro hword
  rw [Nat.add_mul] at hword
  have heven : 2 ^ (t + 1) % 2 = 0 := pow_succ 2 t ▸ Nat.mul_mod_left _ _
  have hpos : 0 < 2 ^ (t + 1) := Nat.two_pow_pos _
  have hzero : man = 0 := by
    refine eq_zero_of_dvd_mul_odd (c := 2 ^ (t + 1) - 1) hman (by omega) ?_
    rw [Nat.mul_sub_one]
    omega
  have htable : ∀ t ≤ 39, 2 ^ (t + 1) % 512 ≠ 151 + t := by decide
  have hne := htable t ht
  rw [hzero, Nat.zero_mul] at hword
  omega

theorem low_word_neg_ne {t man : Nat} (hman : man < 2 ^ 23) (ht : t ≤ 39) :
    -(((2 ^ 23 + man) * 2 ^ (t + 1) : Nat) : Int) % 2 ^ 32 ≠
      2 ^ 31 + (151 + t : Nat) * 2 ^ 23 + man := by
  intro hword
  rw [Nat.add_mul] at hword
  have heven : 2 ^ (t + 1) % 2 = 0 := pow_succ 2 t ▸ Nat.mul_mod_left _ _
  have hpos : 0 < 2 ^ (t + 1) := Nat.two_pow_pos _
  have hzero : man = 0 := by
    refine eq_zero_of_dvd_mul_odd (c := 2 ^ (t + 1) + 1) hman (by omega) ?_
    rw [Nat.mul_add_one]
    omega
  have htable : ∀ t ≤ 39, (2 ^ (t + 1) + 407 + t) % 512 ≠ 0 := by decide
  have hne := htable t ht
  rw [hzero, Nat.zero_mul] at hword
  omega

theorem abs_truncate_signed (negative : Bool) {exp man n : Nat}
    (h : float32.magnitude exp man < (n : ℚ)) :
    |truncate ((if negative then -1 else 1) * float32.magnitude exp man)| < n := by
  refine abs_truncate_lt ?_
  have hnonneg : 0 ≤ float32.magnitude exp man := by
    unfold magnitude
    split
    · exact mul_nonneg (Nat.cast_nonneg _) (zpow_pos two_pos _).le
    · exact mul_nonneg (by positivity) (zpow_pos two_pos _).le
  cases negative with
  | false => rwa [if_neg (by decide), one_mul, abs_of_nonneg hnonneg]
  | true => rwa [if_pos rfl, neg_one_mul, abs_neg, abs_of_nonneg hnonneg]

/-- No integer but zero is the value of its own low word. -/
theorem eq_zero_of_low_word {k : Int} {negative : Bool} {exp man : Nat} (hman : man < 2 ^ 23)
    (hexp : exp < 255) (hrange : -2 ^ 63 ≤ k ∧ k < 2 ^ 63)
    (hword : k % 2 ^ 32 = (if negative then 2 ^ 31 else 0) + exp * 2 ^ 23 + man)
    (hvalue : k = truncate ((if negative then -1 else 1) * float32.magnitude exp man)) : k = 0 := by
  by_cases hfraction : exp ≤ 126
  · have hone : float32.magnitude exp man < (1 : Nat) := by
      exact_mod_cast magnitude_lt_one hman hfraction
    have hlt := abs_truncate_signed negative hone
    rw [← hvalue, abs_lt] at hlt
    omega
  by_cases hsmall : exp ≤ 150
  · have hlt := abs_truncate_signed negative
      (magnitude_lt_digits hman (by omega) hsmall)
    rw [← hvalue, abs_lt] at hlt
    push_cast at hlt
    cases negative with
    | false =>
      rw [if_neg (by decide)] at hword
      omega
    | true =>
      rw [if_pos rfl] at hword
      omega
  · obtain ⟨t, rfl⟩ := Nat.exists_eq_add_of_le (Nat.lt_of_not_le hsmall)
    have hk := hvalue.trans (truncate_large negative t man)
    exfalso
    cases negative with
    | false =>
      rw [if_neg (by decide), one_mul] at hk
      rw [if_neg (by decide), zero_add, hk] at hword
      exact low_word_ne hman (shift_le man (by omega)) hword
    | true =>
      rw [if_pos rfl, neg_one_mul] at hk
      rw [if_pos rfl, hk] at hword
      exact low_word_neg_ne hman (shift_le man (by omega)) hword

end ResizedShapesLemmas

/-! ## What ONNX says -/

/-- The scales or the sizes of a node. -/
inductive ResizeOperand
  | scales (values : List Num)
  | sizes (values : List Int64)
  | foldedSizes (values : List Num)

/-- The input with the scales: the second one up to version 10, and then the third one. -/
def ScalesInput (node : Node) (name : String) : Prop :=
  (node.opType = "Upsample" ∧ node.inputs.length = 2 ∨
      node.opType = "Resize" ∧ node.sinceVersion = 10 ∧ node.inputs.length = 2) ∧
    StaticGraph.inputName node 1 = some name ∨
  node.opType = "Resize" ∧ 11 ≤ node.sinceVersion ∧ 3 ≤ node.inputs.length ∧
    StaticGraph.inputName node 2 = some name ∧ StaticGraph.inputName node 3 = none

/-- How a node has one of the two, for all axes: as an attribute, as an initializer, or as a value
that is folded behind the backward walk from it. -/
inductive Given (sg : StaticGraph) (s : EvalState) (node : Node) (rank : Nat) :
    ResizeOperand → Prop
  | fromAttribute (hop : node.opType = "Upsample") (hinputs : node.inputs.length = 1)
    (hlength : (getAttributeFloats node "scales").length = rank) :
    Given sg s node rank (.scales (getAttributeFloats node "scales"))
  | fromInitializer {name : String} {c : ConstantTensor} {bits : List UInt32}
    (hinput : ScalesInput node name)
    (hfind : sg.initializers.find? (fun c => c.name == name) = some c)
    (hdata : c.data = .float bits) (hlength : bits.length = rank) :
    Given sg s node rank (.scales (bits.map fun b => FloatFormat.float32.decode b.toNat))
  | fromFolding {name : String} {values : List Num} (hinput : ScalesInput node name)
    (hfind : sg.initializers.find? (fun c => c.name == name) = none)
    (hvalues : (sg.backwardWalk s name).resolvedValues name = some values)
    (hlength : values.length = rank) : Given sg s node rank (.scales values)
  | fromSizes {name : String} {c : ConstantTensor} {values : List Int64}
    (hop : node.opType = "Resize") (hinputs : 4 ≤ node.inputs.length)
    (hinput : StaticGraph.inputName node 3 = some name)
    (hfind : sg.initializers.find? (fun c => c.name == name) = some c)
    (hdata : c.data = .int64 values) (hlength : values.length = rank) :
    Given sg s node rank (.sizes values)
  | fromFoldedSizes {name : String} {values : List Num} (hop : node.opType = "Resize")
    (hinputs : 4 ≤ node.inputs.length) (hscales : node.inputs[2]?.join = none)
    (hinput : StaticGraph.inputName node 3 = some name)
    (hfind : sg.initializers.find? (fun c => c.name == name) = none)
    (hvalues : s.resolvedValues name = some values) (hlength : values.length = rank) :
    Given sg s node rank (.foldedSizes values)

/-- A dimension times a scale, rounded down. -/
def floorDim (dim : Int) : Num → Option Int
  | .fin q => some ⌊dim * q⌋
  | _ => none

/-- The output shape is that of ONNX. -/
def ResizeOperand.Shape (inDims : List Int) (outDims : List Int) : ResizeOperand → Prop
  | .scales values => outDims.map some = List.zipWith floorDim inDims values
  | .sizes values => outDims = values.map Int64.toInt
  | .foldedSizes values => outDims.map (fun dim => Num.fin dim) = values

/-- In single precision, the product of a dimension and a scale has the integer part of the exact
product, and an `int64_t` holds it. -/
def FloorKept (dim : Int) (scale : Num) : Prop :=
  ∃ q p : ℚ, scale = .fin q ∧
    FloatFormat.float32.mul (FloatFormat.float32.round dim) (.fin q) = .fin p ∧
    truncate p = ⌊dim * q⌋ ∧ -2 ^ 63 ≤ truncate p ∧ truncate p < 2 ^ 63

def ResizeOperand.Readable (inDims : List Int) : ResizeOperand → Prop
  | .scales values => List.Forall₂ FloorKept inDims values
  | .sizes values => ∀ v ∈ values, v = 0
  | .foldedSizes _ => True

/-- A visit of an `Upsample` or `Resize` whose output shape is not known, with an input of known
shape. -/
structure ResizeVisit where
  sg : StaticGraph
  s : EvalState
  node : Node
  ports : PortShapes
  output : String
  operand : ResizeOperand
  named : output ≠ ""
  isOutput : node.outputs.head? = some (some output)
  skipped : sg.shouldEvaluate s node = false
  dynamic : s.hasDynamicShape (some output) ports.output = true
  static : s.getStaticDims ((getNodeInputNames node).headD "") ports.input ≠ []
  given : Given sg s node
    (s.getStaticDims ((getNodeInputNames node).headD "") ports.input).length operand

namespace ResizeVisit

variable (r : ResizeVisit)

def inDims : List Int :=
  r.s.getStaticDims ((getNodeInputNames r.node).headD "") r.ports.input

/-- Whenever a shape is recorded it is that of ONNX, whatever undefined conversions give. -/
def Right : Prop :=
  ∀ (undef : ResizeUndefined) (dims : List Int),
    (r.sg.visitNode undef r.s r.node r.ports).1.resolvedShapes r.output = some dims →
      r.operand.Shape r.inDims dims

end ResizeVisit

/-! ## What is read -/

namespace ResizedShapesLemmas

open ShapeResolutionLemmas

variable {undef : ResizeUndefined} {sg : StaticGraph} {s : EvalState} {node : Node} {name : String}
  {c : ConstantTensor} {rank : Nat}

theorem input_of_inputName {i : Nat} (h : StaticGraph.inputName node i = some name) :
    node.inputs[i]?.join = some name := by
  obtain ⟨hget, hname⟩ := Option.filter_eq_some_iff.1 h
  rw [getNodeInputNames, List.getElem?_map] at hget
  obtain ⟨slot, hslot, hvalue⟩ := Option.map_eq_some_iff.1 hget
  rw [hslot]
  cases slot with
  | none =>
    rw [← hvalue] at hname
    exact absurd hname (by decide)
  | some input => exact congrArg some hvalue

theorem scalesInput_spec (h : ScalesInput node name) :
    StaticGraph.inputName node (StaticGraph.scalesIdx node) = some name ∧
      node.inputs.length ≠ 1 ∧
      (StaticGraph.sizesIdx node).bind (StaticGraph.inputName node) = none := by
  unfold StaticGraph.scalesIdx StaticGraph.sizesIdx
  rcases h with ⟨⟨hop, hlength⟩ | ⟨hop, -, hlength⟩, hinput⟩ | ⟨hop, -, hlength, hinput, hnone⟩
  · rw [if_pos (Or.inl hop), if_neg (by omega)]
    exact ⟨hinput, by omega, rfl⟩
  · rw [if_pos (Or.inr hlength), if_neg (by omega)]
    exact ⟨hinput, by omega, rfl⟩
  · have hnot : ¬(node.opType = "Upsample" ∨ node.inputs.length = 2) := by
      rw [hop]
      rintro (habs | habs)
      · exact absurd habs (by decide)
      · omega
    rw [if_neg hnot]
    refine ⟨hinput, by omega, ?_⟩
    split
    · exact hnone
    · rfl

theorem givenOperand_scales (h : ScalesInput node name) :
    sg.givenOperand undef s node rank = { scales := sg.readScales undef s name rank } := by
  obtain ⟨hinput, hlength, hsizes⟩ := scalesInput_spec h
  unfold StaticGraph.givenOperand
  have hattribute : ¬(node.opType = "Upsample" ∧ node.inputs.length = 1) :=
    fun habs => hlength habs.2
  rw [if_neg hattribute, hsizes, hinput]
  rfl

/-- `float`s are read as they are. -/
theorem getInitializerFloats_float {bits : List UInt32}
    (hfind : sg.initializers.find? (fun c => c.name == name) = some c)
    (hdata : c.data = .float bits) (hlength : bits.length = rank) :
    sg.getInitializerFloats undef name rank =
      bits.map fun b => FloatFormat.float32.decode b.toNat := by
  unfold StaticGraph.getInitializerFloats
  have hcount : c.data.count = rank := by rw [hdata]; exact hlength
  simp only [hfind, hcount, ne_eq, not_true_eq_false, if_false]
  refine List.ext_getElem (by rw [List.length_map, List.length_range, List.length_map, hlength])
    fun i hi hi' => ?_
  rw [List.length_map] at hi'
  rw [List.getElem_map, List.getElem_range, List.getElem_map]
  have hword : c.data.words[i]? = some (bits[i]).toNat := by
    rw [hdata]
    show (bits.map UInt32.toNat)[i]? = _
    rw [List.getElem?_map, List.getElem?_eq_getElem hi']
    rfl
  rw [hword]

/-- What has been found is not looked for again. -/
theorem resolveDims_of_given {inDims : List Int} {found : StaticGraph.Found}
    (hgiven : sg.givenOperand undef s node inDims.length = found)
    (hfound : found.scales ≠ [] ∨ found.outDims ≠ []) :
    (sg.resolveDims undef s node inDims).2 = StaticGraph.outputDims undef inDims found := by
  unfold StaticGraph.resolveDims StaticGraph.walkScales StaticGraph.laterScales
  rw [hgiven, if_pos hfound]
  show StaticGraph.outputDims undef inDims (if _ then found else _) = _
  rw [if_pos hfound]

theorem outputDims_scales {inDims : List Int} {values : List Num}
    (hlength : values.length = inDims.length) :
    StaticGraph.outputDims undef inDims { scales := values } =
      List.zipWith (StaticGraph.scaledDim undef) inDims values :=
  if_pos ⟨rfl, hlength⟩

/-- Whichever way scales are given, they are what the dimensions are multiplied with. -/
theorem resolveDims_scales (undef : ResizeUndefined) {inDims : List Int} {values : List Num}
    (hne : inDims ≠ [])
    (h : Given sg s node inDims.length (.scales values)) :
    values.length = inDims.length ∧ (sg.resolveDims undef s node inDims).2 =
      List.zipWith (StaticGraph.scaledDim undef) inDims values := by
  have hsome : ∀ {l : List Num}, l.length = inDims.length → l ≠ [] := by
    rintro l hl rfl
    exact hne (List.length_eq_zero_iff.1 hl.symm)
  cases h with
  | fromAttribute hop hinputs hlength =>
    refine ⟨hlength, ?_⟩
    have hgiven : sg.givenOperand undef s node inDims.length =
        { scales := getAttributeFloats node "scales" } := by
      unfold StaticGraph.givenOperand
      simp only [hop, hinputs, and_self, if_true, ne_eq, hsome hlength, not_false_eq_true]
    rw [resolveDims_of_given hgiven (Or.inl (hsome hlength)), outputDims_scales hlength]
  | @fromInitializer name c bits hinput hfind hdata hlength =>
    have hmap : (bits.map fun b => FloatFormat.float32.decode b.toNat).length = inDims.length :=
      (List.length_map _).trans hlength
    refine ⟨hmap, ?_⟩
    have hgiven : sg.givenOperand undef s node inDims.length =
        { scales := bits.map fun b => FloatFormat.float32.decode b.toNat } := by
      rw [givenOperand_scales hinput, StaticGraph.readScales]
      rw [getInitializerFloats_float hfind hdata hlength, if_pos (hsome hmap)]
    rw [resolveDims_of_given hgiven (Or.inl (hsome hmap)), outputDims_scales hmap]
  | @fromFolding name values hinput hfind hvalues hlength =>
    refine ⟨hlength, ?_⟩
    have hread : sg.readScales undef s name inDims.length =
        StaticGraph.resolvedScales s name inDims.length := by
      unfold StaticGraph.readScales StaticGraph.getInitializerFloats
      rw [hfind]
      rfl
    cases hknown : s.resolvedValues name with
    | some known =>
      -- the value is there before the walk, which is none then
      have hstay : sg.backwardWalk s name = s := by
        unfold StaticGraph.backwardWalk StaticGraph.evalStack
        rw [hknown]
        rfl
      rw [hstay, hknown] at hvalues
      cases hvalues
      have hgiven : sg.givenOperand undef s node inDims.length = { scales := values } := by
        rw [givenOperand_scales hinput, hread, StaticGraph.resolvedScales, hknown]
        simp only [hlength, if_true]
      rw [resolveDims_of_given hgiven (Or.inl (hsome hlength)), outputDims_scales hlength]
    | none =>
      have hgiven : sg.givenOperand undef s node inDims.length = {} := by
        rw [givenOperand_scales hinput, hread, StaticGraph.resolvedScales, hknown]
      have hwalk : (sg.walkScales s node inDims.length {}).2 = { scales := values } := by
        unfold StaticGraph.walkScales
        rw [if_neg (by simp), input_of_inputName (scalesInput_spec hinput).1]
        dsimp only
        rw [StaticGraph.resolvedScales, walkStep_fst]
        have hbehind : (sg.evalStack s 5 name).reverse.foldl
            (fun s pending => s.record pending.2 (s.walkNode pending.1)) s =
              sg.backwardWalk s name := rfl
        rw [hbehind, hvalues]
        simp only [hlength, if_true]
      unfold StaticGraph.resolveDims StaticGraph.laterScales
      rw [hgiven]
      show StaticGraph.outputDims undef inDims (if _ then _ else _) = _
      rw [hwalk, if_pos (Or.inl (hsome hlength)), outputDims_scales hlength]

/-! ### Sizes -/

/-- The word that the reader takes for the `i`-th size. -/
def sizeWord (values : List Int64) (i : Nat) : Nat :=
  if i % 2 = 0 then (values.getD (i / 2) 0).toUInt64.toNat % 2 ^ 32
  else (values.getD (i / 2) 0).toUInt64.toNat / 2 ^ 32

/-- The words of 64-bit elements, two for each. -/
theorem words_getElem? (values : List Int64) {i : Nat} (hi : i / 2 < values.length) :
    (InitializerData.int64 values).words[i]? = some (sizeWord values i) := by
  show (values.flatMap fun v => splitWords v.toUInt64)[i]? = _
  induction values generalizing i with
  | nil => exact absurd hi (Nat.not_lt_zero _)
  | cons v values ih =>
    rw [List.flatMap_cons]
    by_cases hfirst : i < 2
    · obtain rfl | rfl : i = 0 ∨ i = 1 := by omega
      · rfl
      · rfl
    · obtain ⟨i, rfl⟩ := Nat.exists_eq_add_of_le' (Nat.le_of_not_lt hfirst)
      have hhalf : (i + 2) / 2 = i / 2 + 1 := by omega
      have hparity : (i + 2) % 2 = i % 2 := by omega
      rw [hhalf, List.length_cons] at hi
      have hword : sizeWord (v :: values) (i + 2) = sizeWord values i := by
        unfold sizeWord
        rw [hhalf, hparity, List.getD_cons_succ]
      rw [hword, ← ih (by omega)]
      rfl

theorem getInitializerFloats_int64 (undef : ResizeUndefined) {values : List Int64}
    (hfind : sg.initializers.find? (fun c => c.name == name) = some c)
    (hdata : c.data = .int64 values) (hlength : values.length = rank) :
    sg.getInitializerFloats undef name rank =
      (List.range rank).map fun i => FloatFormat.float32.decode (sizeWord values i) := by
  unfold StaticGraph.getInitializerFloats
  have hcount : c.data.count = rank := by rw [hdata]; exact hlength
  simp only [hfind, hcount, ne_eq, not_true_eq_false, if_false]
  refine List.map_congr_left fun i hi => ?_
  rw [List.mem_range] at hi
  rw [hdata, words_getElem? values (by omega)]

/-- Sizes are cut out of the words of their memory. -/
theorem resolveDims_sizes (undef : ResizeUndefined) {inDims : List Int} {values : List Int64}
    (hne : inDims ≠ [])
    (h : Given sg s node inDims.length (.sizes values)) :
    values.length = inDims.length ∧ (sg.resolveDims undef s node inDims).2 =
      (List.range values.length).map fun i =>
        castInt64 undef (FloatFormat.float32.decode (sizeWord values i)) := by
  cases h with
  | @fromSizes name c values hop hinputs hinput hfind hdata hlength =>
    refine ⟨hlength, ?_⟩
    have hsizes : (((StaticGraph.sizesIdx node).bind (StaticGraph.inputName node)).map
        fun name => sg.getInitializerFloats undef name inDims.length).getD [] =
        (List.range values.length).map fun i =>
          FloatFormat.float32.decode (sizeWord values i) := by
      rw [StaticGraph.sizesIdx, if_pos ⟨hop, hinputs⟩, Option.bind_some, hinput, hlength]
      exact getInitializerFloats_int64 undef hfind hdata hlength
    have hsome : ((List.range values.length).map fun i =>
        FloatFormat.float32.decode (sizeWord values i)) ≠ [] := by
      intro hnil
      rw [List.map_eq_nil_iff, List.range_eq_nil, hlength, List.length_eq_zero_iff] at hnil
      exact hne hnil
    have hgiven : sg.givenOperand undef s node inDims.length =
        { outDims := ((List.range values.length).map fun i =>
            FloatFormat.float32.decode (sizeWord values i)).map (castInt64 undef) } := by
      have hattribute : ¬(node.opType = "Upsample" ∧ node.inputs.length = 1) := by
        rw [hop]
        exact fun habs => absurd habs.1 (by decide)
      unfold StaticGraph.givenOperand
      rw [if_neg hattribute, hsizes]
      exact (if_neg fun habs => habs rfl).trans (if_pos hsome)
    have hout : ((List.range values.length).map fun i =>
        FloatFormat.float32.decode (sizeWord values i)).map (castInt64 undef) ≠ [] :=
      fun hnil => hsome (List.map_eq_nil_iff.1 hnil)
    rw [resolveDims_of_given hgiven (Or.inr hout), StaticGraph.outputDims,
      if_neg fun habs => hout habs.1, List.map_map]
    rfl

/-- Folded sizes are not looked at. -/
theorem resolveDims_foldedSizes (undef : ResizeUndefined) {inDims : List Int} {values : List Num}
    (hne : inDims ≠ []) (h : Given sg s node inDims.length (.foldedSizes values)) :
    sg.resolveDims undef s node inDims = ((s, false), []) := by
  have hrank : ([] : List Num).length ≠ inDims.length := fun hnil =>
    hne (List.length_eq_zero_iff.1 hnil.symm)
  cases h with
  | @fromFoldedSizes name values hop hinputs hscales hinput hfind hvalues hlength =>
    have hnot : ¬(node.opType = "Upsample" ∨ node.inputs.length = 2) := by
      rw [hop]
      rintro (habs | habs)
      · exact absurd habs (by decide)
      · omega
    have hidx : StaticGraph.scalesIdx node = 2 := if_neg hnot
    have hnone : StaticGraph.inputName node 2 = none := by
      rw [StaticGraph.inputName, getNodeInputNames, List.getElem?_map,
        List.getElem?_eq_getElem (show 2 < node.inputs.length by omega)]
      rw [List.getElem?_eq_getElem (show 2 < node.inputs.length by omega), Option.join_some]
        at hscales
      rw [hscales]
      rfl
    have hgiven : sg.givenOperand undef s node inDims.length = {} := by
      have hattribute : ¬(node.opType = "Upsample" ∧ node.inputs.length = 1) :=
        fun habs => hnot (Or.inl habs.1)
      have hsizes : (((StaticGraph.sizesIdx node).bind (StaticGraph.inputName node)).map
          fun name => sg.getInitializerFloats undef name inDims.length).getD [] = [] := by
        rw [StaticGraph.sizesIdx, if_pos ⟨hop, hinputs⟩, Option.bind_some, hinput]
        show sg.getInitializerFloats undef name inDims.length = []
        rw [StaticGraph.getInitializerFloats, hfind]
      unfold StaticGraph.givenOperand
      rw [if_neg hattribute, hidx, hnone, hsizes]
      rfl
    have hwalk : sg.walkScales s node inDims.length {} = ((s, false), {}) := by
      unfold StaticGraph.walkScales
      rw [if_neg (by simp), hidx, hscales]
    have hlater : sg.laterScales undef s node inDims.length {} = {} := by
      unfold StaticGraph.laterScales
      rw [if_neg (by simp), hnone]
      split <;> rfl
    unfold StaticGraph.resolveDims
    rw [hgiven, hwalk]
    dsimp only
    rw [hlater, StaticGraph.outputDims, if_neg fun habs => hrank habs.2]

/-! ### What is right -/

/-- Undefined conversions that all give one number. -/
def givingInt (z : Int) : ResizeUndefined where
  toInt := fun _ => 0
  read := fun _ _ => .nan
  toInt64 := fun _ => z
  rawFloat := fun _ _ => .nan

/-- A conversion that gives one number whatever is undefined is defined. -/
theorem castInt64_defined {x : Num} {z : Int} (h : ∀ undef, castInt64 undef x = z) :
    ∃ q, x = .fin q ∧ truncate q = z ∧ -2 ^ 63 ≤ z ∧ z < 2 ^ 63 := by
  have hundefined : ¬ ∀ undef : ResizeUndefined, undef.toInt64 x = z := by
    intro hall
    have h0 : (0 : Int) = z := hall (givingInt 0)
    have h1 : (1 : Int) = z := hall (givingInt 1)
    omega
  cases x with
  | inf negative => exact absurd h hundefined
  | nan => exact absurd h hundefined
  | fin q =>
    by_cases hrange : -2 ^ 63 ≤ truncate q ∧ truncate q < 2 ^ 63
    · have hz := h (givingInt 0)
      rw [castInt64, if_pos hrange] at hz
      exact ⟨q, rfl, hz, hz ▸ hrange⟩
    · refine absurd (fun undef => ?_) hundefined
      have hz := h undef
      rwa [castInt64, if_neg hrange] at hz

theorem floorKept_iff {dim : Int} {scale : Num} :
    (∀ undef, some (StaticGraph.scaledDim undef dim scale) = floorDim dim scale) ↔
      FloorKept dim scale := by
  constructor
  · intro h
    cases scale with
    | inf negative => cases h (givingInt 0)
    | nan => cases h (givingInt 0)
    | fin q =>
      obtain ⟨p, hp, hfloor, hlow, hhigh⟩ :=
        castInt64_defined fun undef => Option.some.inj (h undef)
      exact ⟨q, p, rfl, hp, hfloor, hfloor ▸ hlow, hfloor ▸ hhigh⟩
  · rintro ⟨q, p, rfl, hp, hfloor, hlow, hhigh⟩ undef
    rw [StaticGraph.scaledDim, hp, castInt64, if_pos ⟨hlow, hhigh⟩, hfloor]
    rfl

theorem zipWith_eq_iff {α β γ : Type} {f g : α → β → γ} {xs : List α} {ys : List β}
    (h : ys.length = xs.length) :
    List.zipWith f xs ys = List.zipWith g xs ys ↔
      List.Forall₂ (fun x y => f x y = g x y) xs ys := by
  induction xs generalizing ys with
  | nil =>
    rw [List.length_nil, List.length_eq_zero_iff] at h
    subst h
    exact iff_of_true rfl .nil
  | cons x xs ih =>
    cases ys with
    | nil => cases h
    | cons y ys =>
      rw [List.zipWith_cons_cons, List.zipWith_cons_cons, List.cons.injEq, List.forall₂_cons,
        ih (Nat.succ.inj h)]

theorem forall_forall₂ {ι α β : Type} [Nonempty ι] {r : ι → α → β → Prop} {xs : List α}
    {ys : List β} :
    (∀ i, List.Forall₂ (r i) xs ys) ↔ List.Forall₂ (fun x y => ∀ i, r i x y) xs ys := by
  induction xs generalizing ys with
  | nil =>
    cases ys with
    | nil => exact iff_of_true (fun _ => .nil) .nil
    | cons y ys => exact iff_of_false (fun h => nomatch h (Classical.arbitrary ι)) nofun
  | cons x xs ih =>
    cases ys with
    | nil => exact iff_of_false (fun h => nomatch h (Classical.arbitrary ι)) nofun
    | cons y ys =>
      simp only [List.forall₂_cons, ← ih]
      exact forall_and

theorem low_word (v : Int64) : ((v.toUInt64.toNat % 2 ^ 32 : Nat) : Int) = v.toInt % 2 ^ 32 := by
  have hnat : v.toUInt64.toNat = v.toBitVec.toNat := rfl
  have hint : v.toInt = v.toBitVec.toInt := rfl
  rw [hnat, hint, BitVec.toInt_eq_toNat_cond]
  have := v.toBitVec.isLt
  split <;> omega

/-- The reader gives a size for its own low word only when it is zero. -/
theorem eq_zero_of_read {v : Int64}
    (h : ∀ undef : ResizeUndefined,
      castInt64 undef (FloatFormat.float32.decode (v.toUInt64.toNat % 2 ^ 32)) = v.toInt) :
    v = 0 := by
  obtain ⟨q, hq, hvalue, hlow, hhigh⟩ := castInt64_defined h
  generalize hword : v.toUInt64.toNat % 2 ^ 32 = w at hq
  have hmod := low_word v
  rw [hword] at hmod
  have hw : w < 2 ^ 32 := hword ▸ Nat.mod_lt _ (Nat.two_pow_pos 32)
  have hsign : w / 2 ^ 31 = if w.testBit 31 = true then 1 else 0 := by
    rw [Nat.testBit_eq_decide_div_mod_eq]
    split <;> rename_i hbit <;> rw [decide_eq_true_eq] at hbit <;> omega
  have hexp : w / 2 ^ 23 % 2 ^ 8 ≠ 2 ^ FloatFormat.float32.exponentBits - 1 := by
    intro hspecial
    rw [FloatFormat.decode] at hq
    have hdecode : FloatFormat.float32.decodeFields (w.testBit 31) (w / 2 ^ 23 % 2 ^ 8)
        (w % 2 ^ 23) = .fin q := hq
    rw [hspecial, FloatFormat.decodeFields_special] at hdecode
    split at hdecode <;> cases hdecode
  have hfin : (if w.testBit 31 = true then (-1 : ℚ) else 1) *
      FloatFormat.float32.magnitude (w / 2 ^ 23 % 2 ^ 8) (w % 2 ^ 23) = q :=
    Num.fin.inj ((FloatFormat.decodeFields_fin hexp _ _).symm.trans hq)
  have hless : w / 2 ^ 23 % 2 ^ 8 < 255 :=
    lt_of_le_of_ne (Nat.le_of_lt_succ (Nat.mod_lt _ (Nat.two_pow_pos 8))) hexp
  refine Int64.toInt_inj.1 ((eq_zero_of_low_word (Nat.mod_lt w (Nat.two_pow_pos 23)) hless
    ⟨hlow, hhigh⟩ ?_ (hvalue.symm.trans (by rw [hfin]))).trans rfl)
  rw [← hmod]
  cases hbit : w.testBit 31 with
  | false =>
    rw [hbit, if_neg (by decide)] at hsign
    rw [if_neg (by decide)]
    omega
  | true =>
    rw [hbit, if_pos rfl] at hsign
    rw [if_pos rfl]
    omega

theorem castInt64_zero (undef : ResizeUndefined) :
    castInt64 undef (FloatFormat.float32.decode 0) = 0 := by
  have hzero : FloatFormat.float32.decode 0 = .fin 0 := by
    simp [FloatFormat.decode, FloatFormat.decodeFields, FloatFormat.magnitude, FloatFormat.float32]
  rw [hzero, castInt64, if_pos (by decide)]
  rfl

theorem map_range_getD (values : List Int64) :
    (List.range values.length).map (fun i => (values.getD i 0).toInt) =
      values.map Int64.toInt := by
  refine List.ext_getElem (by rw [List.length_map, List.length_range, List.length_map])
    fun i hi hi' => ?_
  rw [List.length_map] at hi'
  rw [List.getElem_map, List.getElem_range, List.getElem_map, List.getD_eq_getElem _ _ hi']

/-- Sizes come back only when all of them are zero: the first one is read from its own low word,
and every other one from the words of one before it. -/
theorem sizes_iff {values : List Int64} :
    (∀ undef, ((List.range values.length).map fun i =>
        castInt64 undef (FloatFormat.float32.decode (sizeWord values i))) =
          values.map Int64.toInt) ↔ ∀ v ∈ values, v = 0 := by
  have hword : ∀ i, values.getD (i / 2) 0 = 0 → sizeWord values i = 0 := by
    intro i hzero
    rw [sizeWord, hzero]
    split <;> rfl
  constructor
  · intro h
    have hread : ∀ i < values.length, ∀ undef,
        castInt64 undef (FloatFormat.float32.decode (sizeWord values i)) =
          (values.getD i 0).toInt := by
      intro i hi undef
      have heq := (h undef).trans (map_range_getD values).symm
      exact List.map_inj_left.1 heq i (List.mem_range.2 hi)
    have hall : ∀ i < values.length, values.getD i 0 = 0 := by
      intro i
      induction i using Nat.strong_induction_on with
      | _ i ih =>
        intro hi
        by_cases hfirst : i = 0
        · subst hfirst
          exact eq_zero_of_read (hread 0 hi)
        · have hbefore := hread i hi (givingInt 0)
          rw [hword i (ih (i / 2) (by omega) (by omega)), castInt64_zero] at hbefore
          exact Int64.toInt_inj.1 (hbefore.symm.trans rfl)
    intro v hv
    obtain ⟨i, hi, rfl⟩ := List.getElem_of_mem hv
    rw [← List.getD_eq_getElem _ 0 hi]
    exact hall i hi
  · intro h undef
    have hzero : ∀ i, values.getD i 0 = 0 := by
      intro i
      by_cases hi : i < values.length
      · rw [List.getD_eq_getElem _ _ hi]
        exact h _ (List.getElem_mem hi)
      · exact List.getD_eq_default _ _ (Nat.le_of_not_lt hi)
    rw [← map_range_getD]
    refine List.map_congr_left fun i _ => ?_
    rw [hword i (hzero _), castInt64_zero, hzero]
    rfl

/-- A visit comes to the resolution of its node. -/
theorem visitNode_resolves (undef : ResizeUndefined) (r : ResizeVisit) :
    r.sg.visitNode undef r.s r.node r.ports =
      if (r.sg.resolveDims undef r.s r.node r.inDims).2 = [] then
        (r.sg.resolveDims undef r.s r.node r.inDims).1
      else
        ((r.sg.resolveDims undef r.s r.node r.inDims).1.1.writeShapes
          (r.sg.writtenShapes r.node (r.sg.resolveDims undef r.s r.node r.inDims).2), true) := by
  have hop : r.node.opType = "Upsample" ∨ r.node.opType = "Resize" := by
    have hgiven := r.given
    generalize r.operand = operand at hgiven
    cases hgiven with
    | fromAttribute hop => exact Or.inl hop
    | fromSizes hop => exact Or.inr hop
    | fromFoldedSizes hop => exact Or.inr hop
    | fromInitializer hinput =>
      rcases hinput with ⟨⟨hop, -⟩ | ⟨hop, -⟩, -⟩ | ⟨hop, -⟩
      · exact Or.inl hop
      · exact Or.inr hop
      · exact Or.inr hop
    | fromFolding hinput =>
      rcases hinput with ⟨⟨hop, -⟩ | ⟨hop, -⟩, -⟩ | ⟨hop, -⟩
      · exact Or.inl hop
      · exact Or.inr hop
      · exact Or.inr hop
  have houtputs : r.node.outputs ≠ [] := by
    intro hnil
    have hhead := r.isOutput
    rw [hnil] at hhead
    cases hhead
  have hhead : r.node.outputs.head?.join = some r.output := by
    rw [r.isOutput]
    rfl
  have hskip : ¬ r.sg.shouldEvaluate r.s r.node = true := Bool.eq_false_iff.1 r.skipped
  unfold StaticGraph.visitNode
  rw [if_neg houtputs, if_neg hskip, hhead, r.dynamic, if_neg (by decide), if_pos hop]
  show (if r.inDims = [] then _ else _ : EvalState × Bool) = _
  rw [if_neg (show r.inDims ≠ [] from r.static)]
  rfl

/-- The dimensions that are found for a node are recorded for its output. -/
theorem visit_records (undef : ResizeUndefined) (r : ResizeVisit)
    (hdims : (r.sg.resolveDims undef r.s r.node r.inDims).2 ≠ []) :
    (r.sg.visitNode undef r.s r.node r.ports).1.resolvedShapes r.output =
      some (r.sg.resolveDims undef r.s r.node r.inDims).2 := by
  have hhead : r.node.outputs.head?.join = some r.output := by
    rw [r.isOutput]
    rfl
  rw [visitNode_resolves, if_neg hdims]
  show (EvalState.writeShapes _ _).resolvedShapes r.output = _
  have hmem : r.output ∈ (some r.output).toList ++ ((r.sg.castBehind
      ((getNodeOutputNames r.node).headD "")).map Node.outputNames).getD [] :=
    List.mem_append_left _ (List.mem_singleton_self _)
  rw [writtenShapes_eq, resolvedShapes_writeShapes, hhead, if_pos hmem]

/-- An output without a known shape has none recorded. -/
theorem unrecorded (r : ResizeVisit) : r.s.resolvedShapes r.output = none := by
  by_contra hsome
  have hdynamic := r.dynamic
  unfold EvalState.hasDynamicShape at hdynamic
  dsimp only at hdynamic
  rw [if_pos ⟨r.named, Option.isSome_iff_ne_none.2 hsome⟩] at hdynamic
  cases hdynamic

end ResizedShapesLemmas

/-! ## The exact condition -/

open ResizedShapesLemmas

/-- A `Resize` of one channel of two by two elements to the sizes of an initializer. -/
def resizedToSizes : ResizeVisit where
  sg :=
    { graph := Graph.ofNodes
        [{ id := 0, opType := "Resize", inputs := [some "x", none, none, some "sizes"],
           outputs := [some "y"] }]
        ["x"] ["y"] (by decide) (by decide) (by decide) (by decide)
      initializers :=
        [{ name := "sizes", dims := [4], data := .int64 [1, 1, 8, 8], count_eq := rfl }]
      cpuPreferredNodes := fun _ => false }
  s := {}
  node :=
    { id := 0, opType := "Resize", inputs := [some "x", none, none, some "sizes"],
      outputs := [some "y"] }
  ports := { input := some [1, 1, 2, 2], output := none }
  output := "y"
  operand := .sizes [1, 1, 8, 8]
  named := by decide
  isOutput := rfl
  skipped := by decide
  dynamic := by decide
  static := by decide
  given := .fromSizes rfl (by decide)
    (show StaticGraph.inputName _ 3 = some "sizes" by decide) rfl rfl rfl

/-- A scale that is the `float` nearest to 0.7, which is below it. -/
def scaleTensor : ConstantTensor where
  name := "scales"
  dims := [1]
  data := .float [0x3F333333]
  count_eq := rfl

def upsampleNode : Node where
  id := 0
  opType := "Upsample"
  inputs := [some "x", some "scales"]
  outputs := [some "y"]

/-- An `Upsample` of ten elements. -/
def upsampledByScale : ResizeVisit where
  sg :=
    { graph := Graph.ofNodes [upsampleNode] ["x"] ["y"] (by decide) (by decide) (by decide)
        (by decide)
      initializers := [scaleTensor]
      cpuPreferredNodes := fun _ => false }
  s := {}
  node := upsampleNode
  ports := { input := some [10], output := none }
  output := "y"
  operand := .scales (List.map (fun b => FloatFormat.float32.decode b.toNat)
    ([0x3F333333] : List UInt32))
  named := by decide
  isOutput := rfl
  skipped := by decide
  dynamic := by decide
  static := by decide
  given := by
    have hinput : StaticGraph.inputName upsampleNode 1 = some "scales" := by decide
    have hdata : scaleTensor.data = .float [0x3F333333] := rfl
    exact .fromInitializer (Or.inl ⟨Or.inl ⟨rfl, rfl⟩, hinput⟩) rfl hdata (by decide)

end AmdGpuEp.DirectML
