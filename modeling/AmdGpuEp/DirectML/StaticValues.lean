import AmdGpuEp.DirectML.StaticEval

/-!
# What the static evaluator may record

A recorded vector stands for the elements of a tensor in every run of the model.
The evaluator reads neither shapes nor axes nor steps, and computes in single
precision whatever the type of the elements is.

Results:
1. `halfToFloat_decode_iff`, `seeds_eq_elems_iff`: the initializers that are
   seeded with their elements.
2. `evalNode_sound`: what is recorded for a node is its output where the node
   needs nothing that the evaluator does not read.
3. `recorded_values`: so it is in every state, when every recording is of this kind.
-/

namespace AmdGpuEp.DirectML

open FloatFormat

/-! ## Initializers -/

namespace InitializerData

/-- The elements as ONNX reads them. -/
def elems : InitializerData → Option (List Num)
  | .float bits => some (bits.map fun b => float32.decode b.toNat)
  | .int64 values => some (values.map fun v => .fin v.toInt)
  | .int32 values => some (values.map fun v => .fin v.toInt)
  | .float16 bits => some (bits.map fun h => FloatFormat.float16.decode h.toNat)
  | .double bits => some (bits.map fun b => float64.decode b.toNat)
  | .other _ _ => none

/-- A subnormal half that is not zero. -/
def Subnormal (h : UInt16) : Prop :=
  h.toNat / 2 ^ 10 % 2 ^ 5 = 0 ∧ h.toNat % 2 ^ 10 ≠ 0

/-- Integers and doubles are single-precision numbers, and halves are not subnormal. -/
def Exact : InitializerData → Prop
  | .float _ => True
  | .int64 values => ∀ v ∈ values, float32.Holds v.toInt
  | .int32 values => ∀ v ∈ values, float32.Holds v.toInt
  | .float16 bits => ∀ h ∈ bits, ¬ Subnormal h
  | .double bits => ∀ b ∈ bits, ∀ q, float64.decode b.toNat = .fin q → float32.Holds q
  | .other _ _ => True

theorem halfToFloat_fields (h : UInt16) :
    halfToFloat h =
      let sign := (h.toNat.testBit 15).toNat
      let exp := h.toNat / 2 ^ 10 % 2 ^ 5
      let man := h.toNat % 2 ^ 10
      if exp = 0 then
        if man = 0 then sign <<< 31 ||| (0 <<< 23 ||| 0)
        else sign <<< 31 ||| (112 <<< 23 ||| man <<< 13)
      else if exp = 31 then sign <<< 31 ||| (255 <<< 23 ||| man <<< 13)
      else sign <<< 31 ||| ((exp + 112) <<< 23 ||| man <<< 13) := by
  have hsign : (h.toNat >>> 15) &&& 1 = (h.toNat.testBit 15).toNat := by
    rw [Nat.toNat_testBit, Nat.shiftRight_eq_div_pow, Nat.and_one_is_mod]
  have hexp : (h.toNat >>> 10) &&& 0x1F = h.toNat / 2 ^ 10 % 2 ^ 5 := by
    rw [Nat.shiftRight_eq_div_pow]
    exact Nat.and_two_pow_sub_one_eq_mod _ 5
  have hman : h.toNat &&& 0x3FF = h.toNat % 2 ^ 10 := Nat.and_two_pow_sub_one_eq_mod _ 10
  unfold halfToFloat
  dsimp only
  rw [hsign, hexp, hman]
  split
  · by_cases hzero : h.toNat % 2 ^ 10 = 0
    · rw [if_neg (not_not.2 hzero), if_pos hzero]
      rfl
    · rw [if_pos hzero, if_neg hzero, Nat.or_comm (_ <<< 13)]
      rfl
  · split
    · rw [Nat.or_assoc]
      rfl
    · rw [Nat.or_assoc]

theorem decode_half (h : UInt16) :
    FloatFormat.float16.decode h.toNat = FloatFormat.float16.decodeFields (h.toNat.testBit 15)
      (h.toNat / 2 ^ 10 % 2 ^ 5) (h.toNat % 2 ^ 10) := rfl

theorem decode_single (negative : Bool) {exp man : Nat} (hexp : exp < 2 ^ 8)
    (hman : man < 2 ^ 23) :
    float32.decode (negative.toNat <<< 31 ||| (exp <<< 23 ||| man)) =
      float32.decodeFields negative exp man :=
  decode_fields float32 negative hexp hman

/-- A normal half has 13 more digits as a single. -/
theorem magnitude_normal {exp : Nat} (hexp : exp ≠ 0) (man : Nat) :
    float32.magnitude (exp + 112) (man <<< 13) = FloatFormat.float16.magnitude exp man := by
  have hpow : (2 : ℚ) ^ (-24 + (exp : Int) - 1) =
      2 ^ 13 * 2 ^ (-149 + ((exp + 112 : Nat) : Int) - 1) := by
    rw [← zpow_natCast, ← zpow_add₀ two_ne_zero]
    congr 1
    push_cast
    ring
  unfold magnitude
  rw [if_neg hexp, if_neg (by omega), Nat.shiftLeft_eq]
  show ((2 : ℚ) ^ 23 + (man * 2 ^ 13 : Nat)) * 2 ^ (-149 + ((exp + 112 : Nat) : Int) - 1) =
    (2 ^ 10 + man) * 2 ^ (-24 + (exp : Int) - 1)
  rw [hpow]
  push_cast
  ring

/-- A subnormal half would have to have 1024 more digits. -/
theorem magnitude_subnormal {man : Nat} (hman : man < 2 ^ 10) :
    float32.magnitude 112 (man <<< 13) ≠ FloatFormat.float16.magnitude 0 man := by
  unfold magnitude
  rw [if_neg (by decide), if_pos rfl, Nat.shiftLeft_eq]
  show ((2 : ℚ) ^ 23 + (man * 2 ^ 13 : Nat)) * 2 ^ (-149 + (112 : Int) - 1) ≠ man * 2 ^ (-24 : Int)
  have hpow : (2 : ℚ) ^ (-24 : Int) = 2 ^ 14 * 2 ^ (-149 + (112 : Int) - 1) := by
    rw [← zpow_natCast, ← zpow_add₀ two_ne_zero]
    rfl
  rw [hpow, ← mul_assoc]
  intro heq
  have hdigits := mul_right_cancel₀ (zpow_ne_zero _ two_ne_zero) heq
  have hnat : 2 ^ 23 + man * 2 ^ 13 = man * 2 ^ 14 := by exact_mod_cast hdigits
  omega

/-- The bits that are put together are those of the half, unless it is subnormal. -/
theorem halfToFloat_decode_iff (h : UInt16) :
    float32.decode (halfToFloat h) = FloatFormat.float16.decode h.toNat ↔ ¬ Subnormal h := by
  rw [decode_half, halfToFloat_fields]
  unfold Subnormal
  generalize h.toNat.testBit 15 = negative
  have hexp : h.toNat / 2 ^ 10 % 2 ^ 5 < 2 ^ 5 := Nat.mod_lt _ (Nat.two_pow_pos 5)
  have hman : h.toNat % 2 ^ 10 < 2 ^ 10 := Nat.mod_lt _ (Nat.two_pow_pos 10)
  generalize h.toNat / 2 ^ 10 % 2 ^ 5 = exp at hexp
  generalize h.toNat % 2 ^ 10 = man at hman
  dsimp only
  have hshift : man <<< 13 < 2 ^ 23 := by
    rw [Nat.shiftLeft_eq]
    omega
  by_cases hzero : exp = 0
  · subst hzero
    rw [if_pos rfl]
    by_cases hm : man = 0
    · subst hm
      rw [if_pos rfl, decode_single negative (by decide) (by decide)]
      refine iff_of_true ?_ fun hsub => hsub.2 rfl
      simp [decodeFields, magnitude, float32, FloatFormat.float16]
    · rw [if_neg hm, decode_single negative (by decide) hshift]
      refine iff_of_false (fun heq => ?_) fun hnormal => hnormal ⟨rfl, hm⟩
      rw [decodeFields_fin (by decide), decodeFields_fin (by decide)] at heq
      have hsign : (if negative then (-1 : ℚ) else 1) ≠ 0 := by split <;> norm_num
      exact magnitude_subnormal hman (mul_left_cancel₀ hsign (Num.fin.inj heq))
  · refine iff_of_true ?_ fun hsub => hzero hsub.1
    rw [if_neg hzero]
    by_cases hmax : exp = 31
    · subst hmax
      rw [if_pos rfl, decode_single negative (by decide) hshift]
      have hiff : man <<< 13 = 0 ↔ man = 0 := by
        rw [Nat.shiftLeft_eq]
        omega
      have hsingle := decodeFields_special float32 negative (man <<< 13)
      have hhalf := decodeFields_special FloatFormat.float16 negative man
      simp only [hiff] at hsingle
      exact hsingle.trans hhalf.symm
    · rw [if_neg hmax, decode_single negative (by omega) hshift]
      have hsingle : exp + 112 ≠ 2 ^ float32.exponentBits - 1 := by
        show exp + 112 ≠ 255
        omega
      have hhalf : exp ≠ 2 ^ FloatFormat.float16.exponentBits - 1 := hmax
      rw [decodeFields_fin hsingle, decodeFields_fin hhalf, magnitude_normal hzero]

theorem convert_eq_iff {f : FloatFormat} {x : Num} :
    f.convert x = x ↔ ∀ q, x = .fin q → f.Holds q := by
  cases x with
  | fin q =>
    show f.round q = .fin q ↔ _
    rw [round_eq_fin_iff]
    exact ⟨fun h _ hq => Num.fin.inj hq ▸ h, fun h => h q rfl⟩
  | inf s => exact iff_of_true rfl nofun
  | nan => exact iff_of_true rfl nofun

/-- The initializers that are seeded with their elements, exactly. -/
theorem seeds_eq_elems_iff (data : InitializerData) : data.seeds = data.elems ↔ data.Exact := by
  cases data with
  | float bits => exact iff_of_true rfl trivial
  | int64 values =>
    show some _ = some _ ↔ ∀ v ∈ values, _
    rw [Option.some.injEq, List.map_inj_left]
    exact forall₂_congr fun v _ => round_eq_fin_iff
  | int32 values =>
    show some _ = some _ ↔ ∀ v ∈ values, _
    rw [Option.some.injEq, List.map_inj_left]
    exact forall₂_congr fun v _ => round_eq_fin_iff
  | float16 bits =>
    show some _ = some _ ↔ ∀ h ∈ bits, _
    rw [Option.some.injEq, List.map_inj_left]
    exact forall₂_congr fun h _ => halfToFloat_decode_iff h
  | double bits =>
    show some _ = some _ ↔ ∀ b ∈ bits, _
    rw [Option.some.injEq, List.map_inj_left]
    exact forall₂_congr fun b _ => convert_eq_iff
  | other elemType n => exact iff_of_true rfl trivial

end InitializerData

/-! ## What a node must not need -/

def IsInt32 (k : Int) : Prop :=
  -2 ^ 31 ≤ k ∧ k < 2 ^ 31

/-- The axis is the only one that is not 1, and a C++ `int` counts it. -/
def OnlyAxis (x : OnnxTensor) (axis : Nat) : Prop :=
  (x.dims.take axis).prod = 1 ∧ (x.dims.drop (axis + 1)).prod = 1 ∧ x.elems.length < 2 ^ 31

/-- The static dimensions are those of the run, and all are asked for. -/
def ShapeExact (node : Node) (dims : List Int) (x : OnnxTensor) : Prop :=
  dims = x.dims.map Int.ofNat ∧ (∀ d ∈ x.dims, float32.Holds d) ∧
    shapeRange node x.dims.length = (0, x.dims.length)

/-- The cast changes no element. -/
def CastExact (x y : OnnxTensor) : Prop :=
  ∀ e ∈ x.elems, y.elemType.castElem e = some e

/-- One axis is sliced, the only one that is not 1, in steps of 1, and not from before its first
element. -/
def SliceExact (node : Node) (b : SliceBounds) (x : OnnxTensor) : Prop :=
  ∃ e, b.entries = [e] ∧ OnlyAxis x (fromEnd x.dims.length e.axis).toNat ∧ e.step = 1 ∧
    IsInt32 e.start ∧ IsInt32 e.stop ∧ -(x.elems.length : Int) ≤ e.start ∧
    (node.sinceVersion < 10 → float32.Holds e.start ∧ float32.Holds e.stop)

/-- One operand is repeated whole, and single precision gives what the element type gives. -/
def BinaryExact (op : Num → Num → Option Num) (value : Num → Num → Num) (x y : OnnxTensor) : Prop :=
  (EndsIn x.dims y.dims ∨ EndsIn y.dims x.dims) ∧
    ∀ p ∈ cyclicPairs x.elems y.elems, op p.1 p.2 = some (value p.1 p.2)

/-- There is nothing before the axis, or one operand. -/
def ConcatExact (node : Node) (xs : List OnnxTensor) (y : OnnxTensor) : Prop :=
  (y.dims.take (nodeAxis node 1 y.dims.length)).prod = 1 ∨ xs.length = 1

/-- In the run, the node needs nothing that its case does not read. -/
structure EvalState.Reproduces (s : EvalState) (ρ : TensorRun) (node : Node)
    (typeDims : Option (List Int)) : Prop where
  onnx : node.domain = ""
  shape : node.opType = "Shape" → ∀ name x, node.inputs = [some name] → ρ name = some x →
    ShapeExact node (s.getStaticDims name typeDims) x
  gather : node.opType = "Gather" → ∀ data indices, ρ.At node.inputs [data, indices] →
    OnlyAxis data (nodeAxis node 0 data.dims.length)
  cast : node.opType = "Cast" → ∀ x y, ρ.At node.inputs [x] → ρ.At node.outputs [y] →
    CastExact x y
  slice : node.opType = "Slice" → ∀ x, ∀ b : SliceBounds, node.inputs.head?.join.bind ρ = some x →
    b.Of ρ node → SliceExact node b x
  mul : node.opType = "Mul" → ∀ x y, ρ.At node.inputs [x, y] →
    BinaryExact x.elemType.mulElem mulValue x y
  div : node.opType = "Div" → ∀ x y, ρ.At node.inputs [x, y] →
    BinaryExact x.elemType.divElem divValue x y
  concat : node.opType = "Concat" → ∀ xs y, ρ.At node.inputs xs → ρ.At node.outputs [y] →
    ConcatExact node xs y

/-- The recorded vectors are the elements of the tensors of the run. -/
def EvalState.Faithful (ρ : TensorRun) (s : EvalState) : Prop :=
  ∀ name values, s.resolvedValues name = some values →
    values ≠ [] ∧ ∀ t, ρ name = some t → t.elems = values

namespace StaticValuesLemmas

variable {undef : Undefined} {s : EvalState} {ρ : TensorRun} {node : Node}

theorem names_of_single {a : String} (h : node.inputs = [some a]) :
    getNodeInputNames node = [a] := by
  unfold getNodeInputNames
  rw [h]
  rfl

theorem names_of_pair {a b : String} (h : node.inputs = [some a, some b]) :
    getNodeInputNames node = [a, b] := by
  unfold getNodeInputNames
  rw [h]
  rfl

theorem nonEmpty_eq_some {values out : List Num} :
    nonEmpty values = some out ↔ values = out ∧ out ≠ [] := by
  unfold nonEmpty
  split
  · next hne =>
    rw [Option.some.injEq]
    constructor
    · rintro rfl
      exact ⟨rfl, hne⟩
    · exact And.left
  · next hnil =>
    refine iff_of_false nofun ?_
    rintro ⟨rfl, hne⟩
    exact hnil hne

theorem castInt_intCast {k : Int} (hk : IsInt32 k) : castInt undef (.fin k) = k := by
  show (if -2 ^ 31 ≤ truncate k ∧ truncate k < 2 ^ 31 then truncate k else _) = k
  rw [truncate_intCast]
  exact if_pos hk

theorem sizeInt_eq {n : Nat} (hn : n < 2 ^ 31) : sizeInt n = n := by
  unfold sizeInt
  refine Int.bmod_eq_of_le ?_ ?_
  · omega
  · omega

theorem getStaticDims_sound {input : String} {typeDims : Option (List Int)} {x y : OnnxTensor}
    (hshape : IsShape node x y) (hexact : ShapeExact node (s.getStaticDims input typeDims) x) :
    y.elems = (s.getStaticDims input typeDims).map fun (d : Int) => float32.round d := by
  obtain ⟨hdims, hholds, hrange⟩ := hexact
  obtain ⟨-, -, hints⟩ := hshape
  unfold OnnxTensor.Ints at hints
  rw [hints, hrange, hdims, List.take_length, List.drop_zero, List.map_map, List.map_map]
  refine List.map_congr_left fun d hd => ?_
  have hround := round_eq_fin_iff.2 (hholds d hd)
  show Num.fin ((d : Int) : ℚ) = float32.round ((Int.ofNat d : Int) : ℚ)
  exact hround.symm

theorem gatherValues_sound {data indices y : OnnxTensor} (h : IsGather node data indices y)
    (hexact : OnlyAxis data (nodeAxis node 0 data.dims.length)) :
    y.elems = gatherValues undef data.elems indices.elems := by
  obtain ⟨haxis, -, -, ks, hints, hrange, helems⟩ := h
  obtain ⟨houter, hinner, hsmall⟩ := hexact
  have hlen : data.dims.getD (nodeAxis node 0 data.dims.length) 1 = data.elems.length := by
    rw [data.length_elems, prod_only haxis houter hinner]
  rw [hlen] at hrange helems
  unfold OnnxTensor.Ints at hints
  unfold gatherValues
  rw [helems, takeAxis_only houter hinner, hints, List.map_map, List.filterMap_map,
    ← List.filterMap_eq_map]
  refine List.filterMap_congr fun k hk => ?_
  obtain ⟨hlow, hhigh⟩ := hrange k hk
  have hcast : castInt undef (.fin k) = k := castInt_intCast ⟨by omega, by omega⟩
  show some _ = if _ then _ else _
  rw [hcast, sizeInt_eq hsmall]
  have hpos : 0 ≤ fromEnd data.elems.length k ∧
      fromEnd data.elems.length k < data.elems.length := by
    unfold fromEnd
    split <;> omega
  exact (if_pos hpos).symm

/-- One axis, in steps of 1. -/
theorem slicePositions_one {n : Nat} {e : SliceEntry} (hstep : e.step = 1)
    (hstart : -(n : Int) ≤ e.start) :
    let s := fromEnd n e.start
    let stop := min (fromEnd n e.stop) n
    slicePositions n e = (List.range (stop - s).toNat).map fun (i : Nat) => (s + i).toNat := by
  have hs : 0 ≤ fromEnd n e.start := by
    unfold fromEnd
    split <;> omega
  dsimp only
  unfold slicePositions
  simp only [hstep, zero_lt_one, if_true, mul_one, Int.ediv_one]
  generalize fromEnd n e.start = s at hs
  generalize fromEnd n e.stop = stop
  have hcount : (max 0 (min stop n) - max 0 (min s n) + 1 - 1).toNat = (min stop n - s).toNat := by
    omega
  rw [hcount]
  refine List.map_congr_left fun i hi => ?_
  have := List.mem_range.1 hi
  congr 2
  omega

/-- A read that is in range is one. -/
theorem readAt_eq {data : List Num} {i : Int} (hlow : 0 ≤ i) (hhigh : i < data.length) :
    readAt undef data i = data.getD i.toNat .nan :=
  if_pos ⟨hlow, hhigh⟩

theorem sliceValues_sound {x y : OnnxTensor} {b : SliceBounds} {e : SliceEntry}
    (h : IsSlice b x y) (hentries : b.entries = [e])
    (honly : OnlyAxis x (fromEnd x.dims.length e.axis).toNat) (hstep : e.step = 1)
    (hstart : IsInt32 e.start) (hstop : IsInt32 e.stop)
    (hfirst : -(x.elems.length : Int) ≤ e.start) :
    y.elems = sliceValues undef x.elems (.fin e.start) (.fin e.stop) := by
  obtain ⟨-, -, -, haxis, -, hy⟩ := h
  obtain ⟨houter, hinner, hsmall⟩ := honly
  have hvalid : (fromEnd x.dims.length e.axis).toNat < x.dims.length := by
    have hmem : e.axis ∈ b.axes := by
      have he : e ∈ b.entries := by rw [hentries]; exact List.mem_singleton_self e
      obtain ⟨p, hp, rfl⟩ := List.mem_map.1 he
      exact (List.of_mem_zip hp).1
    obtain ⟨hlow, hhigh⟩ := haxis _ hmem
    unfold fromEnd
    split <;> omega
  have hlen : x.dims.getD (fromEnd x.dims.length e.axis).toNat 1 = x.elems.length := by
    rw [x.length_elems, prod_only hvalid houter hinner]
  rw [hentries, List.foldl_cons, List.foldl_nil] at hy
  have helems : y.elems = takeAxis x.dims (fromEnd x.dims.length e.axis).toNat
      (slicePositions x.elems.length e) x.elems := by
    rw [← hlen]
    exact congrArg Prod.snd hy
  have hs : 0 ≤ fromEnd x.elems.length e.start := by
    unfold fromEnd
    split <;> omega
  unfold sliceValues
  rw [helems, takeAxis_only houter hinner, slicePositions_one hstep hfirst, List.map_map,
    castInt_intCast hstart, castInt_intCast hstop, sizeInt_eq hsmall]
  show _ = (List.range ((if (x.elems.length : Int) < fromEnd x.elems.length e.stop then
    (x.elems.length : Int) else fromEnd x.elems.length e.stop) -
      fromEnd x.elems.length e.start).toNat).map fun (i : Nat) =>
        readAt undef x.elems (fromEnd x.elems.length e.start + i)
  generalize fromEnd x.elems.length e.start = s at hs
  generalize fromEnd x.elems.length e.stop = stop
  have hmin : (if (x.elems.length : Int) < stop then (x.elems.length : Int) else stop) =
      min stop x.elems.length := by
    split <;> omega
  rw [hmin]
  refine List.map_congr_left fun i hi => ?_
  have := List.mem_range.1 hi
  exact (readAt_eq (by omega) (by omega)).symm

theorem cyclicPairs_length (xs ys : List Num) :
    (cyclicPairs xs ys).length = max xs.length ys.length := by
  unfold cyclicPairs
  rw [List.length_map, List.length_range]

/-- An operand that is repeated whole. -/
theorem binary_elems {op : Num → Num → Option Num} {value : Num → Num → Num} {x y z : OnnxTensor}
    (h : IsBinary op x y z) (hexact : BinaryExact op value x y) (hx : x.elems ≠ [])
    (hy : y.elems ≠ []) :
    z.elems = (cyclicPairs x.elems y.elems).map fun p => value p.1 p.2 := by
  obtain ⟨-, -, hdims, helems⟩ := h
  obtain ⟨hends, hvalue⟩ := hexact
  have hxpos := List.length_pos_iff.2 hx
  have hypos := List.length_pos_iff.2 hy
  -- the larger operand gives the size of the result, and the other one divides it
  have hindex : z.elems.length = max x.elems.length y.elems.length ∧ ∀ i,
      operandIndex z.dims.reverse x.dims.reverse i = i % x.elems.length ∧
        operandIndex z.dims.reverse y.dims.reverse i = i % y.elems.length := by
    rw [z.length_elems, x.length_elems, y.length_elems] at *
    rcases hends with hends | hends
    · rw [broadcastDims_comm] at hdims
      obtain ⟨hprod, hdvd, hboth⟩ := broadcast_suffix hends hdims
      refine ⟨?_, fun i => ⟨(hboth i).2, (hboth i).1⟩⟩
      rw [hprod, Nat.max_eq_right (Nat.le_of_dvd hypos hdvd)]
    · obtain ⟨hprod, hdvd, hboth⟩ := broadcast_suffix hends hdims
      refine ⟨?_, hboth⟩
      rw [hprod, Nat.max_eq_left (Nat.le_of_dvd hxpos hdvd)]
  obtain ⟨hlen, hindex⟩ := hindex
  refine List.ext_getElem ?_ fun i hi hi' => ?_
  · rw [List.length_map, cyclicPairs_length, hlen]
  · have hmem : (x.elems.getD (i % x.elems.length) .nan, y.elems.getD (i % y.elems.length) .nan) ∈
        cyclicPairs x.elems y.elems :=
      List.mem_map.2 ⟨i, List.mem_range.2 (hlen ▸ hi), rfl⟩
    have hi := helems i hi
    rw [(hindex i).1, (hindex i).2] at hi
    have hget := hi _ (hvalue _ hmem)
    rw [List.getD_eq_getElem _ _ ‹_›] at hget
    rw [hget]
    unfold cyclicPairs
    simp

theorem castExact_elems {x y : OnnxTensor} (h : IsCast x y) (hexact : CastExact x y) :
    y.elems = x.elems := by
  obtain ⟨-, helems⟩ := h
  unfold CastExact at hexact
  revert hexact helems
  generalize x.elems = xs
  generalize y.elems = ys
  intro hexact helems
  induction helems with
  | nil => rfl
  | cons hhead _ ih =>
    obtain rfl := hhead _ (hexact _ (List.mem_cons_self ..))
    rw [ih fun e he => hexact e (List.mem_cons_of_mem _ he)]

theorem concat_elems {xs : List OnnxTensor} {y : OnnxTensor} (h : IsConcat node xs y)
    (hexact : ConcatExact node xs y) : y.elems = xs.flatMap OnnxTensor.elems := by
  obtain ⟨-, hxs, -, helems⟩ := h
  rcases hexact with houter | hone
  · rw [helems, houter]
    refine concatElems_outer fun x hx => ?_
    rw [(hxs x hx).2.2.1, houter]
  · obtain ⟨x, rfl⟩ := List.length_eq_one_iff.1 hone
    rw [helems, ← (hxs x (List.mem_singleton_self x)).2.2.1, concatElems_single]
    simp

/-! One node at a time -/

theorem elems_of_faithful (hs : s.Faithful ρ) {name : String} {values : List Num} {t : OnnxTensor}
    (hvalues : s.resolvedValues name = some values) (ht : ρ name = some t) :
    t.elems = values ∧ values ≠ [] :=
  ⟨(hs name values hvalues).2 t ht, (hs name values hvalues).1⟩

theorem entries_single {b : SliceBounds} {e : SliceEntry} (hends : b.ends.length = b.starts.length)
    (haxes : b.axes.length = b.starts.length) (hsteps : b.steps.length = b.starts.length)
    (h : b.entries = [e]) : b.starts = [e.start] ∧ b.ends = [e.stop] := by
  have hlen : b.starts.length = 1 := by
    have hone := congrArg List.length h
    unfold SliceBounds.entries at hone
    rw [List.length_map, List.length_zip, List.length_zip, List.length_zip, haxes, hends, hsteps,
      List.length_singleton] at hone
    omega
  obtain ⟨starts, ends, axes, steps⟩ := b
  obtain ⟨start, rfl⟩ := List.length_eq_one_iff.1 hlen
  obtain ⟨stop, rfl⟩ := List.length_eq_one_iff.1 (hends.trans hlen)
  obtain ⟨axis, rfl⟩ := List.length_eq_one_iff.1 (haxes.trans hlen)
  obtain ⟨step, rfl⟩ := List.length_eq_one_iff.1 (hsteps.trans hlen)
  obtain rfl := (List.cons.inj h).1
  exact ⟨rfl, rfl⟩

/-- The bounds that the evaluator finds are the first ones of the run. -/
theorem sliceOperands_sound (hs : s.Faithful ρ) {b : SliceBounds} (hb : b.Of ρ node)
    {k k' : Int} (hstarts : b.starts = [k]) (hends : b.ends = [k'])
    (hholds : node.sinceVersion < 10 → float32.Holds k ∧ float32.Holds k')
    {operands : List Num × List Num} (h : s.sliceOperands node = some operands) :
    operands = ([.fin k], [.fin k']) := by
  unfold SliceBounds.Of at hb
  unfold EvalState.sliceOperands at h
  split at hb
  · next hversion =>
    obtain ⟨hlen, hstartsAttr, hendsAttr, -, -⟩ := hb
    obtain ⟨input, hinput⟩ := List.length_eq_one_iff.1 hlen
    obtain ⟨hk, hk'⟩ := hholds hversion
    rw [hstarts] at hstartsAttr
    rw [hends] at hendsAttr
    have hnames : getNodeInputNames node = [input.getD ""] := by
      unfold getNodeInputNames
      rw [hinput]
      rfl
    rw [hnames, ← hstartsAttr, ← hendsAttr] at h
    simp only [ne_eq, reduceCtorEq, not_false_eq_true, and_self, if_true, List.map_cons,
      List.map_nil, round_eq_fin_iff.2 hk, round_eq_fin_iff.2 hk', Option.some.injEq] at h
    exact h.symm
  · obtain ⟨hattr, data, starts, ends, rest, hinputs, hin, hin', -, -⟩ := hb
    have hnames : getNodeInputNames node = data.getD "" :: starts :: ends ::
        rest.map fun input => input.getD "" := by
      unfold getNodeInputNames
      rw [hinputs]
      rfl
    obtain ⟨t, ht, hints⟩ := hin
    obtain ⟨t', ht', hints'⟩ := hin'
    rw [hnames, hattr] at h
    unfold OnnxTensor.Ints at hints hints'
    rw [hstarts] at hints
    rw [hends] at hints'
    cases hvalues : s.resolvedValues starts with
    | none => simp [hvalues] at h
    | some values =>
      cases hvalues' : s.resolvedValues ends with
      | none => simp [hvalues'] at h
      | some values' =>
        simp only [hvalues, hvalues', Option.some.injEq] at h
        rw [← h, ← (elems_of_faithful hs hvalues ht).1, ← (elems_of_faithful hs hvalues' ht').1,
          hints, hints']
        rfl

theorem evalBinary_sound (hs : s.Faithful ρ) {op : Num → Num → Option Num}
    {value : Num → Num → Num} {x y z : OnnxTensor} (hin : ρ.At node.inputs [x, y])
    (h : IsBinary op x y z) (hexact : BinaryExact op value x y) {out : List Num}
    (hout : s.evalBinary value (getNodeInputNames node) = some out) :
    z.elems = out ∧ out ≠ [] := by
  obtain ⟨a, b, hinputs, ha, hb⟩ := hin.pair
  rw [names_of_pair hinputs] at hout
  unfold EvalState.evalBinary at hout
  dsimp only at hout
  split at hout
  · next xs ys hxs hys =>
    obtain ⟨hx, hxne⟩ := elems_of_faithful hs hxs ha
    obtain ⟨hy, hyne⟩ := elems_of_faithful hs hys hb
    rw [← hx] at hxne hout
    rw [← hy] at hyne hout
    have hz := binary_elems h hexact hxne hyne
    obtain rfl := Option.some.inj hout
    refine ⟨hz, fun hnil => ?_⟩
    have hlen := congrArg List.length hnil
    rw [List.length_map, cyclicPairs_length, List.length_nil] at hlen
    have := List.length_pos_iff.2 hxne
    omega
  · cases hout

theorem mapM_resolved (hs : s.Faithful ρ) {slots : List (Option String)} {xs : List OnnxTensor}
    (hin : ρ.At slots xs) {parts : List (List Num)}
    (hparts : (slots.map fun slot => slot.getD "").mapM s.resolvedValues = some parts) :
    parts = xs.map OnnxTensor.elems := by
  induction hin generalizing parts with
  | nil =>
    obtain rfl := Option.some.inj hparts
    rfl
  | cons hslot _ ih =>
    obtain ⟨name, rfl, hx⟩ := Option.bind_eq_some_iff.1 hslot
    rw [List.map_cons, List.mapM_cons, Option.bind_eq_bind, Option.bind_eq_some_iff] at hparts
    obtain ⟨values, hvalues, hrest⟩ := hparts
    rw [Option.bind_eq_bind, Option.bind_eq_some_iff] at hrest
    obtain ⟨rest, hrest, heq⟩ := hrest
    obtain rfl := Option.some.inj heq
    rw [ih hrest, List.map_cons, (elems_of_faithful hs hvalues hx).1]

theorem evalConcat_sound (hs : s.Faithful ρ) {xs : List OnnxTensor} {y : OnnxTensor}
    (hin : ρ.At node.inputs xs) (h : IsConcat node xs y) (hexact : ConcatExact node xs y)
    {out : List Num} (hout : s.evalConcat (getNodeInputNames node) = some out) :
    y.elems = out ∧ out ≠ [] := by
  obtain ⟨parts, hparts, hne⟩ := Option.bind_eq_some_iff.1 hout
  obtain ⟨rfl, hne⟩ := nonEmpty_eq_some.1 hne
  refine ⟨?_, hne⟩
  rw [concat_elems h hexact, mapM_resolved hs hin hparts]
  rfl

theorem evalGather_sound (hs : s.Faithful ρ) {data indices y : OnnxTensor}
    (hin : ρ.At node.inputs [data, indices]) (h : IsGather node data indices y)
    (hexact : OnlyAxis data (nodeAxis node 0 data.dims.length)) {out : List Num}
    (hout : s.evalGather undef (getNodeInputNames node) = some out) : y.elems = out ∧ out ≠ [] := by
  obtain ⟨a, b, hinputs, ha, hb⟩ := hin.pair
  rw [names_of_pair hinputs] at hout
  unfold EvalState.evalGather at hout
  dsimp only at hout
  split at hout
  · next values indexValues hvalues hindexValues =>
    obtain ⟨rfl, hne⟩ := nonEmpty_eq_some.1 hout
    rw [← (elems_of_faithful hs hvalues ha).1, ← (elems_of_faithful hs hindexValues hb).1] at hne ⊢
    exact ⟨gatherValues_sound h hexact, hne⟩
  · cases hout

theorem evalCast_sound (hs : s.Faithful ρ) {x y : OnnxTensor} (hin : ρ.At node.inputs [x])
    (h : IsCast x y) (hexact : CastExact x y) {out : List Num}
    (hout : s.evalCast (getNodeInputNames node) = some out) : y.elems = out ∧ out ≠ [] := by
  obtain ⟨a, hinputs, ha⟩ := hin.single
  rw [names_of_single hinputs] at hout
  rw [castExact_elems h hexact]
  exact elems_of_faithful hs hout ha

theorem evalSlice_sound (hs : s.Faithful ρ) {x y : OnnxTensor} {b : SliceBounds}
    (hin : node.inputs.head?.join.bind ρ = some x) (hb : b.Of ρ node) (h : IsSlice b x y)
    (hexact : SliceExact node b x) {out : List Num} (hout : s.evalSlice undef node = some out) :
    y.elems = out ∧ out ≠ [] := by
  obtain ⟨e, hentries, honly, hstep, hstart, hstop, hfirst, hholds⟩ := hexact
  obtain ⟨hstarts, hends⟩ := entries_single h.1 h.2.1 h.2.2.1 hentries
  obtain ⟨a, hhead, ha⟩ := Option.bind_eq_some_iff.1 hin
  obtain ⟨rest, hnames⟩ : ∃ rest, getNodeInputNames node = a :: rest := by
    unfold getNodeInputNames
    cases hinputs : node.inputs with
    | nil =>
      rw [hinputs] at hhead
      cases hhead
    | cons slot slots =>
      rw [hinputs] at hhead
      change slot = some a at hhead
      subst hhead
      exact ⟨slots.map fun input => input.getD "", rfl⟩
  unfold EvalState.evalSlice at hout
  rw [hnames] at hout
  dsimp only at hout
  split at hout
  · next data start starts stop stops hdata hoperands =>
    have hfound := sliceOperands_sound hs hb hstarts hends hholds hoperands
    obtain ⟨hl, hr⟩ := Prod.mk.inj hfound
    obtain rfl := (List.cons.inj hl).1
    obtain rfl := (List.cons.inj hr).1
    obtain ⟨rfl, hne⟩ := nonEmpty_eq_some.1 hout
    rw [← (elems_of_faithful hs hdata ha).1] at hne ⊢
    exact ⟨sliceValues_sound h hentries honly hstep hstart hstop hfirst, hne⟩
  · cases hout

/-- What is recorded for a node that needs nothing else is its output. -/
theorem evalNode_sound (hs : s.Faithful ρ) (hnode : node.domain = "" → ρ.Follows node)
    {typeDims : Option (List Int)} (hrep : s.Reproduces ρ node typeDims) {out : List Num}
    (hout : s.evalNode undef node typeDims = some out) :
    ∃ name y, node.outputs = [some name] ∧ ρ name = some y ∧ y.elems = out ∧ out ≠ [] := by
  have hfollows := hnode hrep.onnx
  have hresult : ∃ y, ρ.At node.outputs [y] ∧ y.elems = out ∧ out ≠ [] := by
    unfold EvalState.evalNode at hout
    dsimp only at hout
    by_cases hshape : node.opType = "Shape"
    · obtain ⟨x, y, hin, hy, his⟩ := hfollows.shape hshape
      obtain ⟨a, hinputs, ha⟩ := hin.single
      rw [if_pos hshape, names_of_single hinputs] at hout
      obtain ⟨rfl, hne⟩ := nonEmpty_eq_some.1 hout
      exact ⟨y, hy, getStaticDims_sound his (hrep.shape hshape a x hinputs ha), hne⟩
    rw [if_neg hshape] at hout
    by_cases hgather : node.opType = "Gather"
    · obtain ⟨data, indices, y, hin, hy, his⟩ := hfollows.gather hgather
      rw [if_pos hgather] at hout
      exact ⟨y, hy, evalGather_sound hs hin his (hrep.gather hgather data indices hin) hout⟩
    rw [if_neg hgather] at hout
    by_cases hcast : node.opType = "Cast"
    · obtain ⟨x, y, hin, hy, his⟩ := hfollows.cast hcast
      rw [if_pos hcast] at hout
      exact ⟨y, hy, evalCast_sound hs hin his (hrep.cast hcast x y hin hy) hout⟩
    rw [if_neg hcast] at hout
    by_cases hslice : node.opType = "Slice"
    · obtain ⟨x, y, b, hin, hy, hb, his⟩ := hfollows.slice hslice
      rw [if_pos hslice] at hout
      exact ⟨y, hy, evalSlice_sound hs hin hb his (hrep.slice hslice x b hin hb) hout⟩
    rw [if_neg hslice] at hout
    by_cases hmul : node.opType = "Mul"
    · obtain ⟨x, x', y, hin, hy, his⟩ := hfollows.mul hmul
      rw [if_pos hmul] at hout
      exact ⟨y, hy, evalBinary_sound hs hin his (hrep.mul hmul x x' hin) hout⟩
    rw [if_neg hmul] at hout
    by_cases hdiv : node.opType = "Div"
    · obtain ⟨x, x', y, hin, hy, his⟩ := hfollows.div hdiv
      rw [if_pos hdiv] at hout
      exact ⟨y, hy, evalBinary_sound hs hin his (hrep.div hdiv x x' hin) hout⟩
    rw [if_neg hdiv] at hout
    by_cases hconcat : node.opType = "Concat"
    · obtain ⟨xs, y, hin, hy, his⟩ := hfollows.concat hconcat
      rw [if_pos hconcat] at hout
      exact ⟨y, hy, evalConcat_sound hs hin his (hrep.concat hconcat xs y hin hy) hout⟩
    rw [if_neg hconcat] at hout
    cases hout
  obtain ⟨y, hy, helems⟩ := hresult
  obtain ⟨name, houtputs, hname⟩ := hy.single
  exact ⟨name, y, houtputs, hname, helems⟩

/-- The backward walk evaluates as the passes do. -/
theorem evalNode_of_walkNode {typeDims : Option (List Int)} {out : List Num}
    (h : s.walkNode node = some out) : s.evalNode undef node typeDims = some out := by
  unfold EvalState.walkNode at h
  unfold EvalState.evalNode
  dsimp only at h ⊢
  by_cases hcast : node.opType = "Cast"
  · simpa [hcast] using h
  · by_cases hconcat : node.opType = "Concat"
    · simpa [hconcat] using h
    · by_cases hdiv : node.opType = "Div"
      · simpa [hdiv] using h
      · simp [hcast, hconcat, hdiv] at h

end StaticValuesLemmas

open StaticValuesLemmas

/-! ## Runs -/

/-- The tensors are those of a run of the model, for some inputs: initializers that are not graph
inputs keep their elements, and nodes of ONNX compute what ONNX says. -/
structure StaticGraph.RunsAs (sg : StaticGraph) (ρ : TensorRun) : Prop where
  constants : ∀ c ∈ sg.initializers, c.name ∉ sg.graph.inputs → ∀ elems, c.data.elems = some elems →
    ∃ t, ρ c.name = some t ∧ t.dims = c.dims ∧ t.elems = elems
  nodes : ∀ n ∈ sg.graph.nodes, n.domain = "" → ρ.Follows n

/-- The recording of the step, if there is one, reproduces the run. -/
def EvalState.Sound (undef : Undefined) {sg : StaticGraph} (ρ : TensorRun) (s : EvalState) :
    EvalStep sg → Prop
  | .seed c _ => 0 < c.data.count → c.data.count ≤ 64 → c.data.seeds ≠ none →
      c.name ∉ sg.graph.inputs ∧ c.data.Exact
  | .evaluate node _ typeDims => s.evalNode undef node typeDims ≠ none →
      s.Reproduces ρ node typeDims
  | .walk node _ _ => s.walkNode node ≠ none → s.Reproduces ρ node none
  | .resolve _ _ => True

namespace StaticValuesLemmas

variable {undef : Undefined} {sg : StaticGraph} {ρ : TensorRun} {s : EvalState}

theorem record_faithful (hs : s.Faithful ρ) {name : String} {values : Option (List Num)}
    (h : ∀ out, values = some out → out ≠ [] ∧ ∀ t, ρ name = some t → t.elems = out) :
    (s.record name values).Faithful ρ := by
  cases values with
  | none => exact hs
  | some out =>
    intro name' out' hout'
    change Function.update s.resolvedValues name (some out) name' = some out' at hout'
    by_cases heq : name' = name
    · subst heq
      rw [Function.update_self] at hout'
      obtain rfl := Option.some.inj hout'
      exact h out rfl
    · rw [Function.update_of_ne heq] at hout'
      exact hs name' out' hout'

theorem seed_faithful (hs : s.Faithful ρ) (hrun : sg.RunsAs ρ) {c : ConstantTensor}
    (hc : c ∈ sg.initializers) (hsound : s.Sound undef ρ (.seed c hc)) :
    (s.seed c).Faithful ρ := by
  unfold EvalState.seed
  split
  · exact hs
  · next hcount =>
    obtain ⟨hpos, hmax⟩ := not_or.1 hcount
    refine record_faithful hs fun out hout => ?_
    obtain ⟨hinput, hexact⟩ := hsound (Nat.pos_of_ne_zero hpos) (Nat.le_of_not_lt hmax)
      (by rw [hout]; exact Option.some_ne_none out)
    have helems := ((InitializerData.seeds_eq_elems_iff c.data).2 hexact).symm.trans hout
    obtain ⟨t, ht, hdims, hvalues⟩ := hrun.constants c hc hinput out helems
    refine ⟨fun hnil => hpos ?_, fun t' ht' => ?_⟩
    · rw [c.count_eq, ← hdims, ← t.length_elems, hvalues, hnil]
      rfl
    · rw [ht] at ht'
      obtain rfl := Option.some.inj ht'
      exact hvalues

/-- What one step keeps. -/
theorem step_faithful (hs : s.Faithful ρ) (hrun : sg.RunsAs ρ) {c : EvalStep sg}
    (hsound : s.Sound undef ρ c) : (s.step undef c).Faithful ρ := by
  cases c with
  | seed c hc => exact seed_faithful hs hrun hc hsound
  | evaluate node hnode typeDims =>
    refine record_faithful hs fun out hout => ?_
    have hrep := hsound (by rw [hout]; exact Option.some_ne_none out)
    obtain ⟨name, y, houtputs, hy, helems, hne⟩ :=
      evalNode_sound hs (hrun.nodes node hnode) hrep hout
    refine ⟨hne, fun t ht => ?_⟩
    have hname : (getNodeOutputNames node).headD "" = name := by
      unfold getNodeOutputNames
      rw [houtputs]
      rfl
    rw [hname, hy] at ht
    obtain rfl := Option.some.inj ht
    exact helems
  | walk node name hproducer =>
    refine record_faithful hs fun out hout => ?_
    have hrep := hsound (by rw [hout]; exact Option.some_ne_none out)
    obtain ⟨name', y, houtputs, hy, helems, hne⟩ :=
      evalNode_sound hs (hrun.nodes node (List.mem_of_find?_eq_some hproducer)) hrep
        (evalNode_of_walkNode hout : s.evalNode undef node none = some out)
    refine ⟨hne, fun t ht => ?_⟩
    have hmem : name ∈ node.outputNames := by simpa using List.find?_some hproducer
    rw [Node.mem_outputNames, houtputs, List.mem_singleton] at hmem
    obtain rfl := Option.some.inj hmem
    rw [hy] at ht
    obtain rfl := Option.some.inj ht
    exact helems
  | resolve name dims => exact hs

end StaticValuesLemmas

/-- In every state of a run of the evaluator whose recordings all reproduce the run of the model,
every recorded vector is the elements of its tensor. -/
theorem recorded_values (undef : Undefined) {sg : StaticGraph} {ρ : TensorRun}
    (hrun : sg.RunsAs ρ) (steps : List (EvalStep sg))
    (hsteps : (sg.machine undef).Every (fun s c _ _ => s.Sound undef ρ c) {} steps) :
    (sg.machine undef).Every
      (fun _ _ s' _ => ∀ name values, s'.resolvedValues name = some values →
        ∀ t, ρ name = some t → t.elems = values) {} steps := by
  have hempty : EvalState.Faithful ρ {} := by
    intro name values hvalues
    cases hvalues
  refine Machine.Every.of_invariant (EvalState.Faithful ρ) ?_ hempty hsteps
  intro s c s' o hs hstep hsound
  obtain rfl : s.step undef c = s' := congrArg Prod.fst (Option.some.inj hstep)
  have hs' := step_faithful hs hrun hsound
  exact ⟨hs', fun name values hvalues => (hs' name values hvalues).2⟩

/-! ## The size of a tensor along one axis -/

/-- A vector of integers. -/
def intTensor (elemType : OnnxDataType) (ks : List Int) : OnnxTensor where
  elemType := elemType
  dims := [ks.length]
  elems := ks.map fun k => .fin k
  length_elems := by simp

/-- `y` is the second dimension of `x`, as a `float`. -/
def sizeNodes : List Node :=
  [{ id := 0, opType := "Shape", inputs := [some "x"], outputs := [some "s"] },
    { id := 1, opType := "Gather", inputs := [some "s", some "index"], outputs := [some "d"] },
    { id := 2, opType := "Cast", inputs := [some "d"], outputs := [some "y"],
      attributes := [("to", .int 1)] }]

def sizeIndex : ConstantTensor where
  name := "index"
  dims := [1]
  data := .int64 [1]
  count_eq := rfl

def sizeGraph : StaticGraph where
  graph := Graph.ofNodes sizeNodes ["x"] ["y"] (by decide) (by decide) (by decide) (by decide)
  initializers := [sizeIndex]
  cpuPreferredNodes := fun _ => false

def sizeInput : OnnxTensor where
  elemType := .float
  dims := [2, 3]
  elems := List.replicate 6 (.fin 0)
  length_elems := rfl

def sizeRun : TensorRun := fun name =>
  if name = "x" then some sizeInput
  else if name = "index" then some (intTensor .int64 [1])
  else if name = "s" then some (intTensor .int64 [2, 3])
  else if name = "d" then some (intTensor .int64 [3])
  else if name = "y" then some (intTensor .float [3])
  else none

def sizeSteps : List (EvalStep sizeGraph) :=
  [.seed sizeIndex (List.mem_singleton_self _),
    .evaluate sizeNodes[0] (List.getElem_mem _) (some [2, 3]),
    .evaluate sizeNodes[1] (List.getElem_mem _) none,
    .evaluate sizeNodes[2] (List.getElem_mem _) none]

theorem holds_small {z : Int} (hz : |z| < 2 ^ 24) : float32.Holds z :=
  holds_intCast hz (by decide) (by decide)

theorem round_small {z : Int} (hz : |z| < 2 ^ 24) : float32.round z = .fin z :=
  round_eq_fin_iff.2 (holds_small hz)

theorem castElem_small {z : Int} (hz : |z| < 2 ^ 24) :
    OnnxDataType.float.castElem (.fin z) = some (.fin z) := by
  show some (float32.round z) = _
  rw [round_small hz]

theorem at_single {ρ : TensorRun} {name : String} {x : OnnxTensor} (h : ρ name = some x) :
    ρ.At [some name] [x] :=
  .cons h .nil

theorem at_pair {ρ : TensorRun} {a b : String} {x y : OnnxTensor} (hx : ρ a = some x)
    (hy : ρ b = some y) : ρ.At [some a, some b] [x, y] :=
  .cons hx (.cons hy .nil)

theorem sizeRun_runsAs : sizeGraph.RunsAs sizeRun where
  constants := by
    intro c hc _ elems helems
    obtain rfl := List.mem_singleton.1 hc
    obtain rfl := Option.some.inj helems
    exact ⟨intTensor .int64 [1], rfl, rfl, rfl⟩
  nodes := by
    intro n hn _
    have hn : n ∈ sizeNodes := hn
    simp only [sizeNodes, List.mem_cons, List.not_mem_nil, or_false] at hn
    rcases hn with rfl | rfl | rfl
    · constructor
      case shape =>
        exact fun _ => ⟨sizeInput, intTensor .int64 [2, 3], at_single rfl, at_single rfl, rfl, rfl,
          rfl⟩
      all_goals exact fun h => absurd h (by decide)
    · constructor
      case gather =>
        exact fun _ => ⟨intTensor .int64 [2, 3], intTensor .int64 [1], intTensor .int64 [3],
          at_pair rfl rfl, at_single rfl, by decide, rfl, rfl, [1], rfl, by decide, rfl⟩
      all_goals exact fun h => absurd h (by decide)
    · constructor
      case cast =>
        refine fun _ => ⟨intTensor .int64 [3], intTensor .float [3], at_single rfl, at_single rfl,
          rfl, .cons (fun v hv => ?_) .nil⟩
        have hthree := castElem_small (z := 3) (by decide)
        exact Option.some.inj (hthree.symm.trans hv)
      all_goals exact fun h => absurd h (by decide)

theorem sizeGraph_reproduces (undef : Undefined) : (sizeGraph.machine undef).Every
    (fun s c _ _ => s.Sound undef sizeRun c) {} sizeSteps := by
  refine ⟨fun _ _ _ => ⟨by decide, ?_⟩, fun _ => ?_, fun _ => ?_, fun _ => ?_, trivial⟩
  · intro v hv
    obtain rfl := List.mem_singleton.1 hv
    exact holds_small (z := 1) (by decide)
  · constructor
    case onnx => rfl
    case shape =>
      intro _ name x hin hx
      obtain rfl : "x" = name := Option.some.inj (List.cons.inj hin).1
      obtain rfl := Option.some.inj hx
      refine ⟨rfl, fun d hd => ?_, rfl⟩
      have hd : d = 2 ∨ d = 3 := by simpa [sizeInput] using hd
      rcases hd with rfl | rfl
      · exact holds_small (z := 2) (by decide)
      · exact holds_small (z := 3) (by decide)
    all_goals exact fun h => absurd h (by decide)
  · constructor
    case onnx => rfl
    case gather =>
      intro _ data indices hin
      obtain ⟨a, b, hnames, ha, hb⟩ := hin.pair
      obtain rfl : "s" = a := Option.some.inj (List.cons.inj hnames).1
      obtain rfl := Option.some.inj ha
      exact ⟨rfl, rfl, by decide⟩
    all_goals exact fun h => absurd h (by decide)
  · constructor
    case onnx => rfl
    case cast =>
      intro _ x y hin hout
      obtain ⟨a, hnames, ha⟩ := hin.single
      obtain ⟨b, hnames', hb⟩ := hout.single
      obtain rfl : "d" = a := Option.some.inj (List.cons.inj hnames).1
      obtain rfl : "y" = b := Option.some.inj (List.cons.inj hnames').1
      obtain rfl := Option.some.inj ha
      obtain rfl := Option.some.inj hb
      intro e he
      obtain rfl := List.mem_singleton.1 he
      exact castElem_small (z := 3) (by decide)
    all_goals exact fun h => absurd h (by decide)

/-- What the conversion instruction of x86 returns out of range, and a read of cleared memory. -/
def Undefined.x86 : Undefined where
  toInt _ := -2147483648
  read _ _ := .fin 0

/-- The evaluator finds the size. -/
theorem sizeGraph_recorded : (sizeGraph.machine .x86).Every
    (fun _ _ s' _ => ∀ name values, s'.resolvedValues name = some values →
      ∀ t, sizeRun name = some t → t.elems = values) {} sizeSteps :=
  recorded_values .x86 sizeRun_runsAs sizeSteps (sizeGraph_reproduces .x86)

/-! ## An integer division -/

def quotientInit (name : String) (k : Int64) : ConstantTensor where
  name := name
  dims := [1]
  data := .int64 [k]
  count_eq := rfl

def quotientNodes : List Node :=
  [{ id := 0, opType := "Div", inputs := [some "a", some "b"], outputs := [some "q"] }]

/-- Two constants of type `int64`. -/
def quotientGraph : StaticGraph where
  graph := Graph.ofNodes quotientNodes [] ["q"] (by decide) (by decide) (by decide) (by decide)
  initializers := [quotientInit "a" 7, quotientInit "b" 2]
  cpuPreferredNodes := fun _ => false

def quotientRun : TensorRun := fun name =>
  if name = "a" then some (intTensor .int64 [7])
  else if name = "b" then some (intTensor .int64 [2])
  else if name = "q" then some (intTensor .int64 [3])
  else none

def quotientSteps : List (EvalStep quotientGraph) :=
  [.seed (quotientInit "a" 7) (by simp [quotientGraph]),
    .seed (quotientInit "b" 2) (by simp [quotientGraph]),
    .evaluate quotientNodes[0] (List.getElem_mem _) none]

theorem quotient_recorded (undef : Undefined) :
    (EvalState.run undef {} quotientSteps).resolvedValues "q" = some [.fin (7 / 2)] := by
  have hhalf : float32.round (7 / 2) = .fin (7 / 2) := by
    refine round_eq_fin_iff.2 ⟨?_, 7, -1, by decide, by decide, ?_⟩
    · rw [abs_of_pos (by norm_num)]
      show (7 / 2 : ℚ) < 2 ^ (128 : Int)
      norm_num
    · norm_num
  show some [divValue (float32.round ((7 : Int) : ℚ)) (float32.round ((2 : Int) : ℚ))] = _
  rw [round_small (by decide), round_small (by decide)]
  show some [if Num.fin ((2 : Int) : ℚ) ≠ .fin 0 then
    float32.round (((7 : Int) : ℚ) / ((2 : Int) : ℚ)) else .fin 0] = _
  rw [if_pos (by simp)]
  push_cast
  rw [hhalf]

/-- 7 / 2 is 3 in every run, and 3.5 for the evaluator. -/
theorem quotient_fraction : quotientGraph.RunsAs quotientRun ∧ ∀ undef : Undefined,
    ¬ (quotientGraph.machine undef).Every
      (fun _ _ s' _ => ∀ name values, s'.resolvedValues name = some values →
        ∀ t, quotientRun name = some t → t.elems = values) {} quotientSteps := by
  refine ⟨⟨?_, ?_⟩, fun undef hevery => ?_⟩
  · intro c hc _ elems helems
    simp only [quotientGraph, List.mem_cons, List.not_mem_nil, or_false] at hc
    rcases hc with rfl | rfl
    · obtain rfl := Option.some.inj helems
      exact ⟨intTensor .int64 [7], rfl, rfl, rfl⟩
    · obtain rfl := Option.some.inj helems
      exact ⟨intTensor .int64 [2], rfl, rfl, rfl⟩
  · intro n hn _
    obtain rfl := List.mem_singleton.1 hn
    constructor
    case div =>
      refine fun _ => ⟨intTensor .int64 [7], intTensor .int64 [2], intTensor .int64 [3],
        at_pair rfl rfl, at_single rfl, rfl, rfl, rfl, fun i hi v hv => ?_⟩
      obtain rfl : i = 0 := Nat.lt_one_iff.1 hi
      have hdiv : OnnxDataType.int64.divElem (.fin ((7 : Int) : ℚ)) (.fin ((2 : Int) : ℚ)) =
          some (.fin ((3 : Int) : ℚ)) := by
        decide +kernel
      exact Option.some.inj (hdiv.symm.trans hv)
    all_goals exact fun h => absurd h (by decide)
  · obtain ⟨-, -, hlast, -⟩ := hevery
    have helems := hlast "q" _ (quotient_recorded undef) (intTensor .int64 [3]) rfl
    have hfraction : ((3 : Int) : ℚ) = 7 / 2 := Num.fin.inj (List.cons.inj helems).1
    norm_num at hfraction

end AmdGpuEp.DirectML
