import AmdGpuEp.DirectML.Pad

/-!
# Windows of a slice

`TranslateSlice` gives every dimension an offset, a size and a stride.
`DML_OPERATOR_SLICE1` takes the size for the number of input elements that the window
covers, and gives out one of every `|stride|`; with a negative stride it begins at
the end of the window. The translator puts the number of output elements there, and
the start of the slice for the offset, whichever way the slice goes.

Results:
1. `windowOf_exact_iff`: which entries of a slice are translated rightly.
2. `slice_iff`: when a slice selects the ONNX elements.
3. `everySecond_misread`: every second of five elements.
-/

namespace AmdGpuEp.DirectML

/-! ## Selections -/

/-- The elements of a dimension that `DML_OPERATOR_SLICE1` gives out. -/
def dmlSelect (offset size : Nat) (stride : Int) : List Int :=
  (List.range ((size + stride.natAbs - 1) / stride.natAbs)).map fun (k : Nat) =>
    if 0 < stride then offset + k * stride else offset + size - 1 + k * stride

/-- A bound of a slice counts from the end when it is negative. -/
def boundAt (dim bound : Int) : Int :=
  if bound < 0 then bound + dim else bound

def clamp (low high x : Int) : Int :=
  max low (min x high)

/-- The elements of a dimension that ONNX `Slice` selects. -/
def onnxSelect (dim start stop step : Int) : List Int :=
  let low := if 0 < step then 0 else -1
  let high := if 0 < step then dim else dim - 1
  let start := clamp 0 high (boundAt dim start)
  let stop := clamp low high (boundAt dim stop)
  let count := if 0 < step then (stop - start + step - 1) / step
    else (start - stop + -step - 1) / -step
  (List.range count.toNat).map fun (k : Nat) => start + k * step

/-- Offset, size and stride of one dimension. -/
structure Window where
  offset : Nat
  size : Nat
  stride : Int
  deriving DecidableEq, Repr

/-- What a turn of the window loop writes. -/
def windowOf (dim start stop step : Int) : Window :=
  let start := clamp 0 dim (boundAt dim start)
  let stop := clamp 0 dim (boundAt dim stop)
  let size :=
    if 0 < step then if stop ≤ start then 0 else (stop - start + step - 1) / step
    else if start ≤ stop then 0 else (start - stop + -step - 1) / -step
  { offset := toUInt32 start, size := toUInt32 size, stride := toInt32 step }

/-- The sums that a turn computes on the way. -/
def windowSums (dim start stop step : Int) : List Int :=
  let start' := clamp 0 dim (boundAt dim start)
  let stop' := clamp 0 dim (boundAt dim stop)
  [boundAt dim start, boundAt dim stop] ++
    if 0 < step then
      if stop' ≤ start' then []
      else [stop' - start', stop' - start' + step, stop' - start' + step - 1]
    else if start' ≤ stop' then []
    else [-step, start' - stop', start' - stop' + -step, start' - stop' + -step - 1]

def InInt64 (x : Int) : Prop :=
  -2 ^ 63 ≤ x ∧ x < 2 ^ 63

instance (x : Int) : Decidable (InInt64 x) :=
  inferInstanceAs (Decidable (_ ∧ _))

/-- The window lies in the dimension and gives out the elements that ONNX selects. -/
structure Window.Exact (w : Window) (dim : Nat) (selected : List Int) : Prop where
  stride : w.stride ≠ 0
  inside : w.offset + w.size ≤ dim
  selects : dmlSelect w.offset w.size w.stride = selected

/-- An entry of a slice that is translated rightly: it selects one element at most, or all from start
to stop in order; a backward one starts within the dimension, or stops behind it, and does not run
past the first element from there; and neither the stride nor a sum wraps. -/
structure Sliceable (dim start stop step : Int) : Prop where
  stride : step % 2 ^ 32 ≠ 0
  forward : 0 < step → step = 1 ∨ (onnxSelect dim start stop step).length ≤ 1
  backward : step < 0 → (onnxSelect dim start stop step).length ≤ 1 ∧
    (boundAt dim start < dim ∨ dim ≤ boundAt dim stop) ∧
    (0 < boundAt dim start ∨ 0 ≤ boundAt dim stop)
  fits : ∀ x ∈ windowSums dim start stop step, InInt64 x

namespace SliceLemmas

/-- Lists of elements at equal distances. -/
theorem progressions_eq_iff {m n : Nat} {a b c d : Int} :
    (List.range m).map (fun (k : Nat) => a + k * c) = (List.range n).map (fun (k : Nat) => b + k * d) ↔
      m = n ∧ (0 < m → a = b) ∧ (1 < m → c = d) := by
  constructor
  · intro h
    have hlen : m = n := by simpa using congrArg List.length h
    subst hlen
    have hat : ∀ k, k < m → a + k * c = b + k * d := by
      intro k hk
      have hk' := congrArg (·[k]?) h
      simpa [hk] using hk'
    refine ⟨rfl, fun hpos => ?_, fun hone => ?_⟩
    · simpa using hat 0 hpos
    · have hfirst := hat 0 (by omega)
      have hsecond := hat 1 hone
      push_cast at hfirst hsecond
      omega
  · rintro ⟨rfl, hfirst, hstep⟩
    refine List.map_congr_left fun k hk => ?_
    have hk : k < m := List.mem_range.1 hk
    rcases Nat.lt_or_ge 1 m with hlt | hle
    · rw [hfirst (by omega), hstep hlt]
    · obtain rfl : k = 0 := by omega
      simpa using hfirst (by omega)

theorem ceilDiv_le {n s : Nat} (hs : 0 < s) : (n + s - 1) / s ≤ n := by
  obtain ⟨k, rfl⟩ : ∃ k, s = k + 1 := ⟨s - 1, by omega⟩
  rw [Nat.div_le_iff_le_mul_add_pred hs]
  have hmul : (k + 1) * n = n + k * n := by ring
  omega

/-- As many as the window has, when its stride is 1; less otherwise. -/
theorem ceilDiv_eq_iff {n s : Nat} (hs : 0 < s) :
    (n + s - 1) / s = n ↔ n ≤ 1 ∨ s = 1 := by
  constructor
  · intro h
    by_contra hnot
    obtain ⟨hn, hone⟩ := not_or.1 hnot
    rw [not_le] at hn
    have hle : n * s ≤ n + s - 1 := by
      have hdiv := Nat.div_mul_le_self (n + s - 1) s
      rwa [h] at hdiv
    have hs2 : 2 ≤ s := by omega
    have hmul : n * 2 + (s - 2) * 2 ≤ n * s := by
      calc n * 2 + (s - 2) * 2 ≤ n * 2 + (s - 2) * n := by
            have := Nat.mul_le_mul_left (s - 2) hn
            omega
        _ = n * s := by
            obtain ⟨k, rfl⟩ := Nat.exists_eq_add_of_le hs2
            simp only [Nat.add_sub_cancel_left]
            ring
    omega
  · rintro (hle | rfl)
    · rcases Nat.le_one_iff_eq_zero_or_eq_one.1 hle with rfl | rfl
      · exact Nat.div_eq_of_lt (by omega)
      · rw [Nat.add_comm, Nat.add_sub_cancel, Nat.div_self hs]
    · simp

/-- How many steps of `m` a distance takes, rounded up. -/
theorem ceil_bounds {d m : Int} (hm : 0 < m) :
    (d ≤ 0 → (d + m - 1) / m ≤ 0) ∧ (0 < d → 1 ≤ (d + m - 1) / m ∧ (d + m - 1) / m ≤ d) ∧
      (d ≤ m → (d + m - 1) / m ≤ 1) := by
  refine ⟨fun hd => ?_, fun hd => ⟨?_, ?_⟩, fun hd => ?_⟩
  · exact Int.lt_add_one_iff.1 (Int.ediv_lt_of_lt_mul hm (by omega))
  · exact Int.le_ediv_of_mul_le hm (by omega)
  · refine Int.lt_add_one_iff.1 (Int.ediv_lt_of_lt_mul hm ?_)
    have hmul : 0 ≤ d * (m - 1) := Int.mul_nonneg (by omega) (by omega)
    have hsplit : (d + 1) * m = d * (m - 1) + d + m := by ring
    omega
  · exact Int.lt_add_one_iff.1 (Int.ediv_lt_of_lt_mul hm (by omega))

theorem toInt32_eq_zero {x : Int} : toInt32 x = 0 ↔ x % 2 ^ 32 = 0 := by
  unfold toInt32
  rw [BitVec.toInt_ofInt, Int.bmod_def]
  split <;> omega

/-- What SLICE1 gives out of a window of `n` elements at `s`, against `k` elements from `t` on. -/
theorem dmlSelect_eq_iff {s n k : Nat} {stride t step : Int} :
    dmlSelect s n stride = (List.range k).map (fun (i : Nat) => t + i * step) ↔
      (n + stride.natAbs - 1) / stride.natAbs = k ∧
        (0 < k → (if 0 < stride then (s : Int) else s + n - 1) = t) ∧ (1 < k → stride = step) := by
  unfold dmlSelect
  by_cases hpos : 0 < stride
  · simp only [if_pos hpos]
    rw [progressions_eq_iff]
    refine and_congr_right fun hk => ?_
    rw [hk]
  · simp only [if_neg hpos]
    rw [progressions_eq_iff]
    refine and_congr_right fun hk => ?_
    rw [hk]

theorem clamp_bounds {low high x : Int} (h : low ≤ high) : low ≤ clamp low high x ∧
    clamp low high x ≤ high := by
  unfold clamp
  omega

section

variable {dim : Nat} {start stop step : Int}

/-- A forward entry: a single element, or a window whose elements are all selected. -/
theorem forward_iff (hdim : dim < 2 ^ 32) (hstep : 0 < step) :
    (windowOf dim start stop step).Exact dim (onnxSelect dim start stop step) ↔
      step % 2 ^ 32 ≠ 0 ∧ (step = 1 ∨ (onnxSelect dim start stop step).length ≤ 1) := by
  obtain ⟨s, hs⟩ : ∃ s, s = clamp 0 dim (boundAt dim start) := ⟨_, rfl⟩
  obtain ⟨e, he⟩ : ∃ e, e = clamp 0 dim (boundAt dim stop) := ⟨_, rfl⟩
  have hsb : 0 ≤ s ∧ s ≤ dim := hs ▸ clamp_bounds (by omega)
  have heb : 0 ≤ e ∧ e ≤ dim := he ▸ clamp_bounds (by omega)
  obtain ⟨hempty, hsome, -⟩ := ceil_bounds (d := e - s) hstep
  have honnx : onnxSelect dim start stop step =
      (List.range ((e - s + step - 1) / step).toNat).map fun (k : Nat) => s + k * step := by
    simp only [onnxSelect, if_pos hstep, ← hs, ← he]
  obtain ⟨n, hn⟩ : ∃ n, n = ((e - s + step - 1) / step).toNat := ⟨_, rfl⟩
  have hwindow : windowOf dim start stop step = ⟨s.toNat, n, toInt32 step⟩ := by
    have hoffset : toUInt32 s = s.toNat := by
      unfold toUInt32
      omega
    have hsize : toUInt32 (if e ≤ s then 0 else (e - s + step - 1) / step) = n := by
      unfold toUInt32
      split <;> omega
    simp only [windowOf, if_pos hstep, ← hs, ← he, hoffset, hsize]
  rw [← hn] at honnx
  have hlen : (onnxSelect dim start stop step).length = n := by simp [honnx]
  rw [hlen, hwindow, honnx]
  have hcast : (s.toNat : Int) = s := Int.toNat_of_nonneg hsb.1
  constructor
  · rintro ⟨hstride, -, hselect⟩
    refine ⟨fun hzero => hstride (toInt32_eq_zero.2 hzero), ?_⟩
    obtain ⟨hcount, -, hsame⟩ := dmlSelect_eq_iff.1 hselect
    rcases (ceilDiv_eq_iff (Int.natAbs_pos.2 hstride)).1 hcount with hle | hone
    · exact Or.inr hle
    · rcases Nat.lt_or_ge 1 n with hlt | hle
      · have hstride' := hsame hlt
        rw [hstride'] at hone
        exact Or.inl (by omega)
      · exact Or.inr hle
  · rintro ⟨hwrap, hcase⟩
    have hstride : toInt32 step ≠ 0 := fun hzero => hwrap (toInt32_eq_zero.1 hzero)
    have hinside : s.toNat + n ≤ dim := by
      rcases le_or_gt (e - s) 0 with hle | hgt
      · have := hempty hle
        omega
      · have := hsome hgt
        omega
    refine ⟨hstride, hinside, dmlSelect_eq_iff.2 ?_⟩
    rcases hcase with rfl | hle
    · have hone : toInt32 1 = 1 := by decide
      simp [hone, hcast]
    · refine ⟨(ceilDiv_eq_iff (Int.natAbs_pos.2 hstride)).2 (Or.inl hle), fun hpos => ?_,
        fun hlt => absurd hle (Nat.not_le.2 hlt)⟩
      have hn1 : n = 1 := by omega
      rw [hcast, hn1]
      split <;> push_cast <;> omega

/-- Where a backward slice begins: the code does not stop at the last element. -/
theorem start_cases (dim : Nat) (a : Int) :
    a ≤ 0 ∧ clamp 0 dim a = 0 ∧ clamp 0 (dim - 1) a = max 0 (min 0 (dim - 1 : Int)) ∨
      0 < a ∧ a < dim ∧ clamp 0 dim a = a ∧ clamp 0 (dim - 1) a = a ∨
      0 < a ∧ dim ≤ a ∧ clamp 0 dim a = dim ∧ clamp 0 (dim - 1) a = max 0 (dim - 1 : Int) := by
  unfold clamp
  omega

/-- Where it ends: the code cannot go past the first element. -/
theorem stop_cases (dim : Nat) (b : Int) :
    b < 0 ∧ clamp 0 dim b = 0 ∧ clamp (-1) (dim - 1) b = -1 ∨
      0 ≤ b ∧ b < dim ∧ clamp 0 dim b = b ∧ clamp (-1) (dim - 1) b = b ∨
      dim ≤ b ∧ clamp 0 dim b = dim ∧ clamp (-1) (dim - 1) b = dim - 1 := by
  unfold clamp
  omega

/-- Where the entry is translated rightly, code and ONNX count the same, from the same element. -/
theorem backward_counts {a b m : Int} {n n' : Nat} (hpos : 0 < dim) (hm : 0 < m)
    (hn : n = ((clamp 0 dim a - clamp 0 dim b + m - 1) / m).toNat)
    (hn' : n' = ((clamp 0 (dim - 1) a - clamp (-1) (dim - 1) b + m - 1) / m).toNat)
    (hle : n' ≤ 1) (hwithin : a < dim ∨ dim ≤ b) (hpast : 0 < a ∨ 0 ≤ b) :
    n = n' ∧ (n' = 1 → clamp 0 dim a = clamp 0 (dim - 1) a ∧ clamp 0 dim a < dim) := by
  obtain ⟨hempty, hsome, hone⟩ := ceil_bounds (d := clamp 0 dim a - clamp 0 dim b) hm
  obtain ⟨hempty', hsome', -⟩ :=
    ceil_bounds (d := clamp 0 (dim - 1) a - clamp (-1) (dim - 1) b) hm
  have hmany : clamp 0 (dim - 1) a - clamp (-1) (dim - 1) b ≤ m ∨
      2 ≤ (clamp 0 (dim - 1) a - clamp (-1) (dim - 1) b + m - 1) / m := by
    rcases le_or_gt (clamp 0 (dim - 1) a - clamp (-1) (dim - 1) b) m with hle | hgt
    · exact Or.inl hle
    · exact Or.inr (Int.le_ediv_of_mul_le hm (by omega))
  rcases start_cases dim a with ⟨ha, hs, hs'⟩ | ⟨ha, ha', hs, hs'⟩ | ⟨ha, ha', hs, hs'⟩
  all_goals
    rcases stop_cases dim b with ⟨hb, he, he'⟩ | ⟨hb, hb', he, he'⟩ | ⟨hb, he, he'⟩
    all_goals
      rw [hs, he] at hn hempty hsome hone
      rw [hs', he'] at hn' hempty' hsome' hmany
      rw [hs, hs']
      omega

/-- A backward entry: a single element, which the offset names. -/
theorem backward_iff (hpos : 0 < dim) (hdim : dim < 2 ^ 32) (hstep : step < 0) :
    (windowOf dim start stop step).Exact dim (onnxSelect dim start stop step) ↔
      step % 2 ^ 32 ≠ 0 ∧ (onnxSelect dim start stop step).length ≤ 1 ∧
        (boundAt dim start < dim ∨ dim ≤ boundAt dim stop) ∧
        (0 < boundAt dim start ∨ 0 ≤ boundAt dim stop) := by
  have hnot : ¬ 0 < step := by omega
  have hm : 0 < -step := by omega
  obtain ⟨a, ha⟩ : ∃ a, a = boundAt dim start := ⟨_, rfl⟩
  obtain ⟨b, hb⟩ : ∃ b, b = boundAt dim stop := ⟨_, rfl⟩
  obtain ⟨n, hn⟩ : ∃ n, n = ((clamp 0 dim a - clamp 0 dim b + -step - 1) / -step).toNat := ⟨_, rfl⟩
  obtain ⟨n', hn'⟩ : ∃ n', n' = ((clamp 0 (dim - 1) a - clamp (-1) (dim - 1) b + -step - 1) /
    -step).toNat := ⟨_, rfl⟩
  have honnx : onnxSelect dim start stop step =
      (List.range n').map fun (k : Nat) => clamp 0 (dim - 1) a + k * step := by
    simp only [onnxSelect, if_neg hnot, ← ha, ← hb, hn']
  obtain ⟨hempty, hsome, -⟩ := ceil_bounds (d := clamp 0 dim a - clamp 0 dim b) hm
  have hsb : 0 ≤ clamp 0 dim a ∧ clamp 0 dim a ≤ dim := clamp_bounds (by omega)
  have heb : 0 ≤ clamp 0 dim b ∧ clamp 0 dim b ≤ dim := clamp_bounds (by omega)
  have hwindow : windowOf dim start stop step =
      ⟨(clamp 0 dim a).toNat, n, toInt32 step⟩ := by
    have hoffset : toUInt32 (clamp 0 dim a) = (clamp 0 dim a).toNat := by
      unfold toUInt32
      omega
    have hsize : toUInt32 (if clamp 0 dim a ≤ clamp 0 dim b then 0
        else (clamp 0 dim a - clamp 0 dim b + -step - 1) / -step) = n := by
      unfold toUInt32
      split <;> omega
    simp only [windowOf, if_neg hnot, ← ha, ← hb, hoffset, hsize]
  have hlen : (onnxSelect dim start stop step).length = n' := by simp [honnx]
  rw [hlen, hwindow, honnx, ← ha, ← hb]
  constructor
  · rintro ⟨hstride, hinside, hselect⟩
    dsimp only at hstride hinside hselect
    refine ⟨fun hzero => hstride (toInt32_eq_zero.2 hzero), ?_⟩
    obtain ⟨hcount, hfirst, hsame⟩ := dmlSelect_eq_iff.1 hselect
    have hdiv : n' ≤ n := hcount ▸ ceilDiv_le (Int.natAbs_pos.2 hstride)
    have hcases := start_cases dim a
    refine ⟨?_, ?_, ?_⟩
    · by_contra hlt
      have hlt : 1 < n' := Nat.not_le.1 hlt
      have hback := hsame hlt
      have hstart := hfirst (by omega)
      rw [hback, if_neg hnot] at hstart
      omega
    · by_contra hout
      have hlast := stop_cases dim b
      have hsgt : 0 < clamp 0 dim a - clamp 0 dim b := by omega
      have := hsome hsgt
      omega
    · by_contra hpast
      have hlast := stop_cases dim b
      obtain ⟨-, hsome', hone'⟩ :=
        ceil_bounds (d := clamp 0 (dim - 1) a - clamp (-1) (dim - 1) b) hm
      have hzero : n = 0 := by
        have := hempty (by omega)
        omega
      have hone : n' = 1 := by
        have h1 := hsome' (by omega)
        omega
      omega
  · rintro ⟨hwrap, hle, hwithin, hpast⟩
    have hstride : toInt32 step ≠ 0 := fun hzero => hwrap (toInt32_eq_zero.1 hzero)
    obtain ⟨hsame, hfrom⟩ := backward_counts hpos hm hn hn' hle hwithin hpast
    clear hn hn' honnx hwindow hempty hsome heb
    have hinside : (clamp 0 dim a).toNat + n ≤ dim := by omega
    refine ⟨hstride, hinside, dmlSelect_eq_iff.2 ⟨?_, fun hpos => ?_,
      fun hlt => absurd hle (Nat.not_le.2 hlt)⟩⟩
    · rw [(ceilDiv_eq_iff (Int.natAbs_pos.2 hstride)).2 (Or.inl (hsame ▸ hle)), hsame]
    · have hn1 : n' = 1 := by omega
      obtain ⟨hs, -⟩ := hfrom hn1
      rw [hsame, hn1, Int.toNat_of_nonneg hsb.1, hs]
      split <;> push_cast <;> omega

end

end SliceLemmas

open SliceLemmas

/-- The window of an entry is that of ONNX, and no sum wraps, when the entry is one of these. -/
theorem windowOf_exact_iff {dim : Nat} {start stop step : Int} (hpos : 0 < dim)
    (hdim : dim < 2 ^ 32) (hstep : step ≠ 0) :
    (windowOf dim start stop step).Exact dim (onnxSelect dim start stop step) ∧
        (∀ x ∈ windowSums dim start stop step, InInt64 x) ↔
      Sliceable dim start stop step := by
  rcases Int.lt_or_gt_of_ne hstep with hneg | hpos'
  · rw [backward_iff hpos hdim hneg]
    constructor
    · rintro ⟨⟨hwrap, hback⟩, hfits⟩
      exact ⟨hwrap, fun h => absurd h (by omega), fun _ => hback, hfits⟩
    · intro h
      exact ⟨⟨h.stride, h.backward hneg⟩, h.fits⟩
  · rw [forward_iff hdim hpos']
    constructor
    · rintro ⟨⟨hwrap, hforward⟩, hfits⟩
      exact ⟨hwrap, fun _ => hforward, fun h => absurd h (by omega), hfits⟩
    · intro h
      exact ⟨⟨h.stride, h.forward hpos'⟩, h.fits⟩

/-! ## Slices -/

structure AxisSlice where
  start : Int
  stop : Int
  axis : Int
  step : Int
  deriving DecidableEq, Repr

def sliceEntries (starts stops axes steps : List Int) : List AxisSlice :=
  (List.range starts.length).map fun i =>
    { start := starts.getD i 0, stop := stops.getD i 0, axis := axes.getD i 0,
      step := steps.getD i 0 }

/-- An input that is absent, or a constant of this type with these values. -/
def ConstantList (node : Node) (initializers : String → Option Initializer) (dtype : DmlDataType)
    (slot : Nat) : Option (List Int) → Prop
  | none => presentInput node slot = none
  | some values => ∃ init data, constantInput initializers node slot = some (init, data) ∧
      init.dataType = dtype ∧ (dtype = .int64 → ∀ beyond, readInt64s beyond (init, data) = values)

/-- What a node says: its lists, which are constants of one type or attributes. -/
structure SliceNode (node : Node) (initializers : String → Option Initializer) (rank : Nat)
    (dtype : DmlDataType) (starts stops : List Int) (axes steps : Option (List Int)) : Prop where
  fromInputs : 3 ≤ (getNodeInputNames node).length →
    ConstantList node initializers dtype 1 (some starts) ∧
      ConstantList node initializers dtype 2 (some stops) ∧
      ConstantList node initializers dtype 3 axes ∧ ConstantList node initializers dtype 4 steps
  fromAttributes : (getNodeInputNames node).length < 3 → dtype = .int64 ∧
    getAttributeInts node "starts" = starts ∧ getAttributeInts node "ends" = stops ∧
    getAttributeInts node "axes" = axes.getD [] ∧ steps = none
  type : dtype = .int32 ∨ dtype = .int64
  lengths : stops.length = starts.length ∧ (∀ given, axes = some given →
    given.length = starts.length) ∧ ∀ given, steps = some given → given.length = starts.length

/-- The entries of a node: all axes in order when none are given, and every element when there are
no steps. -/
def onnxEntries (starts stops : List Int) (axes steps : Option (List Int)) : List AxisSlice :=
  sliceEntries starts stops (axes.getD ((List.range starts.length).map Int.ofNat))
    (steps.getD (List.replicate starts.length 1))

/-- Each axis is one of the tensor, and is there once; no step is 0; and the values are those of
64-bit numbers. -/
structure ValidEntries (rank : Nat) (entries : List AxisSlice) : Prop where
  axes : ∀ e ∈ entries, ValidAxis rank e.axis
  once : (entries.map fun e => paddedPlace rank e.axis).Nodup
  steps : ∀ e ∈ entries, e.step ≠ 0
  rank : rank < 2 ^ 62
  values : ∀ e ∈ entries, InInt64 e.start ∧ InInt64 e.stop ∧ InInt64 e.axis

/-- The elements that ONNX selects along a padded dimension. -/
def selectedAt (shape : List Nat) (entries : List AxisSlice) (d : Nat) : List Int :=
  match entries.find? fun e => paddedPlace shape.length e.axis = d with
  | some e => onnxSelect ((padToMinDims shape 4).getD d 0) e.start e.stop e.step
  | none => (List.range ((padToMinDims shape 4).getD d 0)).map fun (k : Nat) => (k : Int)

/-- Every window gives out the elements that ONNX selects. -/
def SlicesAs (shape : List Nat) (entries : List AxisSlice) (desc : ValueOpDesc) : Prop :=
  ∃ offsets sizes strides, desc = .slice offsets sizes strides ∧
    ∀ d < max 4 shape.length,
      Window.Exact ⟨offsets.getD d 0, sizes.getD d 0, strides.getD d 0⟩
        ((padToMinDims shape 4).getD d 0) (selectedAt shape entries d)

/-- The sums of a turn of the loop, the axis first. -/
def entrySums (shape : List Nat) (e : AxisSlice) : List Int :=
  let axis := if e.axis < 0 then e.axis + shape.length else e.axis
  [axis, axis + (4 - shape.length : Nat)] ++
    windowSums ((padToMinDims shape 4).getD (paddedPlace shape.length e.axis) 0) e.start e.stop e.step

namespace SliceLemmas

/-! ## The loop -/

/-- What is written for one dimension. -/
def write (w : SliceWindow) (d : Nat) (window : Window) : SliceWindow where
  offsets := w.offsets.set d window.offset
  sizes := w.sizes.set d window.size
  strides := w.strides.set d window.stride

/-- What is written there. -/
def windowAt (w : SliceWindow) (d : Nat) : Window where
  offset := w.offsets.getD d 0
  size := w.sizes.getD d 0
  stride := w.strides.getD d 0

/-- What the loop starts with: every dimension as a whole. -/
def wholeWindow (sizes : List Nat) : SliceWindow where
  offsets := List.replicate sizes.length 0
  sizes := sizes
  strides := List.replicate sizes.length 1

theorem windowAt_whole {sizes : List Nat} {d : Nat} (hd : d < sizes.length) :
    windowAt (wholeWindow sizes) d = ⟨0, sizes.getD d 0, 1⟩ := by
  simp [windowAt, wholeWindow, hd]

/-- The lists have an entry for every dimension. -/
def Sized (n : Nat) (w : SliceWindow) : Prop :=
  w.offsets.length = n ∧ w.sizes.length = n ∧ w.strides.length = n

theorem sized_write {n d : Nat} {w : SliceWindow} (h : Sized n w) (window : Window) :
    Sized n (write w d window) := by
  simpa [Sized, write] using h

theorem windowAt_write {n d d' : Nat} {w : SliceWindow} (h : Sized n w) (hd : d < n)
    (window : Window) :
    windowAt (write w d window) d' = if d = d' then window else windowAt w d' := by
  obtain ⟨hoffsets, hsizes, hstrides⟩ := h
  by_cases heq : d = d'
  · subst heq
    simp [windowAt, write, hoffsets, hsizes, hstrides, hd]
  · simp [windowAt, write, heq]

section

variable {info : DmlTensorInfo} {shape : List Nat}

theorem paddedPlace_lt {rank : Nat} {axis : Int} (h : ValidAxis rank axis) :
    paddedPlace rank axis < max 4 rank := by
  obtain ⟨hlow, hhigh⟩ := h
  unfold paddedPlace placeOfAxis
  split <;> omega

theorem sliceAxis_eq (hinfo : info.sizes = padToMinDims shape 4) (hrank : info.rank = shape.length)
    {e : AxisSlice} (haxis : ValidAxis shape.length e.axis) (hstep : e.step ≠ 0)
    (w : SliceWindow) :
    sliceAxis info w e.start e.stop e.axis e.step =
      some (write w (paddedPlace shape.length e.axis)
        (windowOf ((padToMinDims shape 4).getD (paddedPlace shape.length e.axis) 0) e.start e.stop
          e.step)) := by
  have hlen : info.sizes.length = max 4 shape.length := by
    rw [hinfo, BroadcastingLemmas.length_padToMinDims]
  have hlt := paddedPlace_lt haxis
  have hplace : (if e.axis < 0 then e.axis + (info.rank : Int) else e.axis) +
      ((info.sizes.length : Int) - info.rank) = paddedPlace shape.length e.axis := by
    obtain ⟨hlow, hhigh⟩ := haxis
    rw [hrank, hlen]
    unfold paddedPlace placeOfAxis
    split <;> omega
  have hvalid : ¬ ((paddedPlace shape.length e.axis : Int) < 0 ∨
      (info.sizes.length : Int) ≤ paddedPlace shape.length e.axis ∨ e.step = 0) := by
    rw [hlen]
    omega
  simp only [sliceAxis, hplace, if_neg hvalid, Int.toNat_natCast]
  rw [hinfo]
  rfl

/-- The windows after the loop: of the entry for the dimension, or as they were. -/
theorem foldlM_sliceAxis (hinfo : info.sizes = padToMinDims shape 4)
    (hrank : info.rank = shape.length) {entries : List AxisSlice}
    (haxes : ∀ e ∈ entries, ValidAxis shape.length e.axis) (hsteps : ∀ e ∈ entries, e.step ≠ 0)
    (honce : (entries.map fun e => paddedPlace shape.length e.axis).Nodup)
    {w : SliceWindow} (hw : Sized (max 4 shape.length) w) :
    ∃ w', entries.foldlM (fun w e => sliceAxis info w e.start e.stop e.axis e.step) w = some w' ∧
      ∀ d, windowAt w' d =
        match entries.find? fun e => paddedPlace shape.length e.axis = d with
        | some e => windowOf ((padToMinDims shape 4).getD d 0) e.start e.stop e.step
        | none => windowAt w d := by
  induction entries generalizing w with
  | nil => exact ⟨w, rfl, fun d => rfl⟩
  | cons e entries ih =>
    have haxis := haxes e List.mem_cons_self
    rw [List.map_cons, List.nodup_cons] at honce
    obtain ⟨w', hfold, hread⟩ := ih (fun e' he' => haxes e' (List.mem_cons_of_mem e he'))
      (fun e' he' => hsteps e' (List.mem_cons_of_mem e he')) honce.2
      (sized_write hw (windowOf ((padToMinDims shape 4).getD (paddedPlace shape.length e.axis) 0)
        e.start e.stop e.step))
    refine ⟨w', ?_, fun d => ?_⟩
    · rw [List.foldlM_cons, sliceAxis_eq hinfo hrank haxis (hsteps e List.mem_cons_self)]
      exact hfold
    · rw [hread d, List.find?_cons]
      by_cases hd : paddedPlace shape.length e.axis = d
      · have hrest : entries.find? (fun e' => paddedPlace shape.length e'.axis = d) = none := by
          refine List.find?_eq_none.2 fun e' he' hplace => honce.1 ?_
          rw [hd, ← of_decide_eq_true hplace]
          exact List.mem_map_of_mem he'
        rw [hrest]
        simp only [hd, decide_true]
        rw [windowAt_write hw (hd ▸ paddedPlace_lt haxis), if_pos rfl]
      · simp only [hd, decide_false]
        rw [windowAt_write hw (paddedPlace_lt haxis), if_neg hd]

/-! ## What is read -/

variable {node : Node} {shapes : ValueShapes} {initializers : String → Option Initializer}
  {starts stops : List Int} {axes steps : Option (List Int)} {dtype : DmlDataType}

theorem readInt64Init_eq {slot : Nat} {values : Option (List Int)}
    (h : ConstantList node initializers .int64 slot values) (beyond : Nat → UInt8) :
    readInt64Init beyond node initializers slot = values.getD [] := by
  cases values with
  | none =>
    have hnone : presentInput node slot = none := h
    simp [readInt64Init, constantInput, hnone]
  | some values =>
    obtain ⟨init, data, hconst, htype, hread⟩ := h
    simp [readInt64Init, hconst, htype, hread rfl beyond]

theorem readInt64Init_of_type {slot : Nat} {values : List Int}
    (h : ConstantList node initializers dtype slot (some values)) (htype : dtype ≠ .int64)
    (beyond : Nat → UInt8) : readInt64Init beyond node initializers slot = [] := by
  obtain ⟨init, data, hconst, heq, -⟩ := h
  simp [readInt64Init, hconst, heq, htype]

theorem sliceInputs_eq {rank : Nat}
    (h : SliceNode node initializers rank .int64 starts stops axes steps) (beyond : Nat → UInt8) :
    sliceInputs beyond node initializers = (starts, stops, axes.getD [], steps.getD []) := by
  unfold sliceInputs
  split
  · next hinputs =>
    obtain ⟨hstarts, hstops, haxes, hsteps⟩ := h.fromInputs hinputs
    simp only [readInt64Init_eq hstarts, readInt64Init_eq hstops, readInt64Init_eq haxes,
      readInt64Init_eq hsteps, Option.getD_some]
  · next hinputs =>
    obtain ⟨-, hstarts, hstops, haxes, hsteps⟩ := h.fromAttributes (Nat.lt_of_not_le hinputs)
    rw [hstarts, hstops, haxes, hsteps, Option.getD_none]

theorem translateSlice_of_type {rank : Nat}
    (h : SliceNode node initializers rank dtype starts stops axes steps) (htype : dtype ≠ .int64)
    (beyond : Nat → UInt8) : translateSlice beyond node shapes initializers = none := by
  have hinputs : 3 ≤ (getNodeInputNames node).length := by
    by_contra hless
    exact htype (h.fromAttributes (Nat.lt_of_not_le hless)).1
  have hempty : (sliceInputs beyond node initializers).1 = [] := by
    rw [sliceInputs, if_pos hinputs]
    exact readInt64Init_of_type (h.fromInputs hinputs).1 htype beyond
  exact ValueInputsLemmas.translateSlice_eq_none.2 fun _ _ => Or.inl hempty

/-- The translator runs the loop over the entries. -/
theorem translateSlice_eq (hbegins : Begins node shapes info)
    (h : SliceNode node initializers shape.length .int64 starts stops axes steps)
    (hne : starts ≠ []) (beyond : Nat → UInt8) :
    (translateSlice beyond node shapes initializers).map TranslatedOp.opDesc =
      ((onnxEntries starts stops axes steps).foldlM
        (fun w e => sliceAxis info w e.start e.stop e.axis e.step) (wholeWindow info.sizes)).map
        fun w => .slice w.offsets w.sizes w.strides := by
  obtain ⟨outEdge, hedge⟩ := ValueInputsLemmas.withShapes_of_begins hbegins
  obtain ⟨hstops, haxes, hsteps⟩ := h.lengths
  have hpos : 0 < starts.length := List.length_pos_iff.2 hne
  have hstops' : stops ≠ [] := List.length_pos_iff.1 (hstops ▸ hpos)
  have haxes' : (if axes.getD [] = [] then (List.range starts.length).map Int.ofNat
      else axes.getD []) = axes.getD ((List.range starts.length).map Int.ofNat) := by
    cases axes with
    | none => rfl
    | some given =>
      have hgiven : given ≠ [] := List.length_pos_iff.1 (haxes given rfl ▸ hpos)
      simp [hgiven]
  have hsteps' : (if steps.getD [] = [] then List.replicate starts.length 1
      else steps.getD []) = steps.getD (List.replicate starts.length 1) := by
    cases steps with
    | none => rfl
    | some given =>
      have hgiven : given ≠ [] := List.length_pos_iff.1 (hsteps given rfl ▸ hpos)
      simp [hgiven]
  simp only [translateSlice, hedge, sliceInputs_eq h beyond, hne, hstops', or_self, if_false,
    haxes', hsteps', sliceWindow, onnxEntries, sliceEntries, List.foldlM_map, Option.map_map]
  rfl

theorem find?_of_nodup {α β : Type*} [DecidableEq β] {f : α → β} {l : List α} (h : (l.map f).Nodup)
    {x : α} (hx : x ∈ l) : l.find? (fun y => f y = f x) = some x := by
  induction l with
  | nil => cases hx
  | cons y l ih =>
    rw [List.map_cons, List.nodup_cons] at h
    rw [List.find?_cons]
    rcases List.mem_cons.1 hx with rfl | hx
    · simp
    · have hne : f y ≠ f x := fun heq => h.1 (heq ▸ List.mem_map_of_mem hx)
      simp only [hne, decide_false]
      exact ih h.2 hx

/-- A dimension that no entry names is kept as a whole. -/
theorem whole_exact {dim : Nat} :
    (Window.mk 0 dim 1).Exact dim ((List.range dim).map fun (k : Nat) => (k : Int)) where
  stride := Int.one_ne_zero
  inside := (Nat.zero_add dim).le
  selects := by simp [dmlSelect]

theorem axisSums_fit {e : AxisSlice} (haxis : ValidAxis shape.length e.axis)
    (hrank : shape.length < 2 ^ 62) :
    (∀ x ∈ entrySums shape e, InInt64 x) ↔
      ∀ x ∈ windowSums ((padToMinDims shape 4).getD (paddedPlace shape.length e.axis) 0) e.start
        e.stop e.step, InInt64 x := by
  obtain ⟨hlow, hhigh⟩ := haxis
  unfold entrySums
  simp only [List.forall_mem_append, List.forall_mem_cons]
  refine and_iff_right ⟨?_, ?_, by simp⟩
  · unfold InInt64
    split <;> omega
  · unfold InInt64
    split <;> omega

theorem entries_nil {starts stops : List Int} {axes steps : Option (List Int)} :
    onnxEntries starts stops axes steps = [] ↔ starts = [] := by
  simp [onnxEntries, sliceEntries]

end

end SliceLemmas

open SliceLemmas

/-- A slice selects the ONNX elements, without a sum that wraps, when all its entries are of those
that are translated rightly; lists of 32-bit numbers are refused. -/
theorem slice_iff {node : Node} {shapes : ValueShapes}
    {initializers : String → Option Initializer} {info : DmlTensorInfo} {shape : List Nat}
    {dtype : DmlDataType} {starts stops : List Int} {axes steps : Option (List Int)}
    (hbegins : Begins node shapes info) (hinfo : info.sizes = padToMinDims shape 4)
    (hrank : info.rank = shape.length) (hpos : ∀ d ∈ shape, 0 < d ∧ d < 2 ^ 32)
    (h : SliceNode node initializers shape.length dtype starts stops axes steps)
    (hvalid : ValidEntries shape.length (onnxEntries starts stops axes steps)) :
    (∀ beyond t, translateSlice beyond node shapes initializers = some t →
        SlicesAs shape (onnxEntries starts stops axes steps) t.opDesc ∧
          ∀ e ∈ onnxEntries starts stops axes steps, ∀ x ∈ entrySums shape e, InInt64 x) ↔
      (dtype = .int64 → ∀ e ∈ onnxEntries starts stops axes steps,
        Sliceable ((padToMinDims shape 4).getD (paddedPlace shape.length e.axis) 0) e.start e.stop
          e.step) := by
  by_cases htype : dtype = .int64
  · subst htype
    rw [forall_prop_of_true rfl]
    by_cases hne : starts = []
    · -- no entries, and the node is refused
      have hnone : onnxEntries starts stops axes steps = [] := entries_nil.2 hne
      have hrefused : ∀ beyond, translateSlice beyond node shapes initializers = none :=
        fun beyond => ValueInputsLemmas.translateSlice_eq_none.2 fun _ _ =>
          Or.inl (by rw [sliceInputs_eq h beyond, hne])
      refine iff_of_true (fun beyond t ht => ?_) (fun e he => ?_)
      · rw [hrefused beyond] at ht
        cases ht
      · rw [hnone] at he
        cases he
    · obtain ⟨w, hfold, hread⟩ := foldlM_sliceAxis hinfo hrank hvalid.axes hvalid.steps hvalid.once
        (w := wholeWindow info.sizes)
        (by simp [Sized, wholeWindow, hinfo, BroadcastingLemmas.length_padToMinDims])
      have hdesc : ∀ beyond, (translateSlice beyond node shapes initializers).map
          TranslatedOp.opDesc = some (.slice w.offsets w.sizes w.strides) := by
        intro beyond
        rw [translateSlice_eq hbegins h hne beyond, hfold]
        rfl
      have hdims : ∀ d < max 4 shape.length, 0 < (padToMinDims shape 4).getD d 0 ∧
          (padToMinDims shape 4).getD d 0 < 2 ^ 32 := by
        intro d hd
        have hlt : d < (padToMinDims shape 4).length := by
          rwa [BroadcastingLemmas.length_padToMinDims]
        rw [List.getD_eq_getElem _ _ hlt]
        rcases List.mem_append.1 (List.getElem_mem hlt) with hone | hmem
        · rw [List.eq_of_mem_replicate hone]
          decide
        · exact hpos _ hmem
      have hentry : ∀ e ∈ onnxEntries starts stops axes steps,
          (∀ x ∈ entrySums shape e, InInt64 x) ∧ (windowAt w (paddedPlace shape.length e.axis)).Exact
              ((padToMinDims shape 4).getD (paddedPlace shape.length e.axis) 0)
              (selectedAt shape (onnxEntries starts stops axes steps)
                (paddedPlace shape.length e.axis)) ↔
            Sliceable ((padToMinDims shape 4).getD (paddedPlace shape.length e.axis) 0) e.start
              e.stop e.step := by
        intro e he
        have haxis := hvalid.axes e he
        have hdim := hdims _ (paddedPlace_lt haxis)
        have hfind := find?_of_nodup hvalid.once he
        rw [axisSums_fit haxis hvalid.rank, hread, selectedAt, hfind, and_comm,
          windowOf_exact_iff hdim.1 hdim.2 (hvalid.steps e he)]
      constructor
      · intro hall e he
        obtain ⟨t, ht, hop⟩ := Option.map_eq_some_iff.1 (hdesc fun _ => 0)
        obtain ⟨⟨_, _, _, hslice, hexact⟩, hsums⟩ := hall _ t ht
        rw [hop] at hslice
        cases hslice
        exact (hentry e he).1 ⟨hsums e he, hexact _ (paddedPlace_lt (hvalid.axes e he))⟩
      · intro hall beyond t ht
        have hop := hdesc beyond
        rw [ht] at hop
        refine ⟨⟨_, _, _, Option.some.inj hop, fun d hd => ?_⟩,
          fun e he => ((hentry e he).2 (hall e he)).1⟩
        show (windowAt w d).Exact _ _
        cases hfind : (onnxEntries starts stops axes steps).find? fun e =>
            paddedPlace shape.length e.axis = d with
        | some e =>
          have hplace : paddedPlace shape.length e.axis = d := by simpa using List.find?_some hfind
          have he := List.mem_of_find?_eq_some hfind
          exact hplace ▸ ((hentry e he).2 (hall e he)).2
        | none =>
          have hlt : d < info.sizes.length := by
            rwa [hinfo, BroadcastingLemmas.length_padToMinDims]
          rw [hread, selectedAt, hfind, windowAt_whole hlt, hinfo]
          exact whole_exact
  · refine iff_of_true (fun beyond t ht => ?_) (fun heq => absurd heq htype)
    rw [translateSlice_of_type h htype beyond] at ht
    cases ht

/-! ## Five elements -/

def sliceNode : Node :=
  { id := 0, opType := "Slice",
    inputs := [some "x", some "starts", some "ends", some "axes", some "steps"],
    outputs := [some "y"] }

def fiveElements : ValueShapes := fun name =>
  if name = "x" then some { makeTensorInfo [5] .float32 with originalRank := 1 } else none

/-- One entry for the one axis. -/
def sliceInitializers (start stop step : Nat) : String → Option Initializer := fun name =>
  if name = "starts" then some (int64Init [start])
  else if name = "ends" then some (int64Init [stop])
  else if name = "axes" then some (int64Init [0])
  else if name = "steps" then some (int64Init [step])
  else none

theorem sliceNode_given {start stop step : Nat}
    (hread : ∀ v ∈ [start, stop, 0, step],
      readInt64s (fun _ => 0) (int64Init [v], int64Bytes [v]) = [(v : Int)]) :
    SliceNode sliceNode (sliceInitializers start stop step) 1 .int64 [(start : Int)] [(stop : Int)]
      (some [0]) (some [(step : Int)]) where
  fromInputs := by
    have hall : ∀ v ∈ [start, stop, 0, step], ∀ beyond,
        readInt64s beyond (int64Init [v], int64Bytes [v]) = [(v : Int)] :=
      fun v hv => readInt64s_int64Init (hread v hv)
    exact fun _ => ⟨⟨_, _, rfl, rfl, fun _ => hall start (by simp)⟩,
      ⟨_, _, rfl, rfl, fun _ => hall stop (by simp)⟩, ⟨_, _, rfl, rfl, fun _ => hall 0 (by simp)⟩,
      _, _, rfl, rfl, fun _ => hall step (by simp)⟩
  fromAttributes := fun hless => absurd hless (by decide)
  type := Or.inr rfl
  lengths := by
    refine ⟨rfl, ?_, ?_⟩
    · rintro _ ⟨⟩
      rfl
    · rintro _ ⟨⟩
      rfl

/-- Of every second element the last is missing: the window has the three elements that are to be
given out, and not the five that they are taken from. -/
theorem everySecond_misread :
    SliceNode sliceNode (sliceInitializers 0 5 2) 1 .int64 [0] [5] (some [0]) (some [2]) ∧
      ValidEntries 1 (onnxEntries [0] [5] (some [0]) (some [2])) ∧
      ∃ t, translateSlice (fun _ => 0) sliceNode fiveElements (sliceInitializers 0 5 2) = some t ∧
        t.opDesc = .slice [0, 0, 0, 0] [1, 1, 1, 3] [1, 1, 1, 2] ∧
        dmlSelect 0 3 2 = [0, 2] ∧
        ¬ SlicesAs [5] (onnxEntries [0] [5] (some [0]) (some [2])) t.opDesc := by
  refine ⟨sliceNode_given (by decide),
    ⟨by decide, by decide, by decide, by decide, by decide⟩, _, rfl, by decide, by decide, ?_⟩
  rintro ⟨_, _, _, ⟨⟩, hexact⟩
  exact absurd (hexact 3 (by decide)).selects (by decide)

/-- Three elements in a row are right. -/
theorem inARow_selected :
    SlicesAs [5] (onnxEntries [1] [4] (some [0]) (some [1]))
      (.slice [0, 0, 0, 1] [1, 1, 1, 3] [1, 1, 1, 1]) := by
  have hsays : SliceNode sliceNode (sliceInitializers 1 4 1) 1 .int64 [1] [4] (some [0]) (some [1]) :=
    sliceNode_given (by decide)
  have hbegins : Begins sliceNode fiveElements
      { makeTensorInfo [5] .float32 with originalRank := 1 } := ⟨by decide, by decide⟩
  have hpos : ∀ d ∈ [5], 0 < d ∧ d < 2 ^ 32 := by decide
  have h := (slice_iff hbegins (by decide) (by decide) hpos hsays
    ⟨by decide, by decide, by decide, by decide, by decide⟩).2 ?_
  · exact (h (fun _ => 0) _ rfl).1
  · rintro - e he
    obtain rfl := List.mem_singleton.1 he
    exact ⟨by decide, fun _ => Or.inl rfl, fun hneg => absurd hneg (by decide), by decide⟩

end AmdGpuEp.DirectML
