import AmdGpuEp.Lib.DiscreteFourier
import Mathlib.Analysis.SpecialFunctions.Trigonometric.Basic
import Mathlib.Data.Complex.Basic

/-!
# The shader of the DFT operator and its passes

`StockhamFFT` of `plugin_DmlDFT.h` dispatches the shader `stockham.hlsl` once for each pass. A pass
reads one resource and writes another; between the first and the last pass two resources take
turns. The arithmetic of the shader is that of real numbers here.

Results:
1. `threads_eq`: the dispatches of one pass run one thread for every element.
2. `stockhamFFT_spec`: with any order of the threads of each pass, the last resource holds the
   transform, scaled and weighted as the last pass does it, and the resources that are not
   written keep what they hold.
-/

namespace AmdGpuEp.DirectML.Dft

/-- A number of 32 bits. -/
def u32 (n : ℕ) : ℕ :=
  n % 2 ^ 32

theorem u32_of_lt {n : ℕ} (h : n < 2 ^ 32) : u32 n = n :=
  Nat.mod_eq_of_lt h

/-! ## Resources -/

/-- Sizes or strides: before the axis of the transform, on it, behind it, and those of the real and
the imaginary part. -/
structure Dims4 where
  before : ℕ
  axis : ℕ
  after : ℕ
  complex : ℕ
  deriving DecidableEq, Repr

/-- `ComputeElementCountFromDimensions` -/
def Dims4.elementCount (sizes : Dims4) : ℕ :=
  u32 (sizes.before * sizes.axis * sizes.after * sizes.complex)

/-- The loop of `PrepareStockhamFFTParams`, and `GetDescendingPackedStrides`. -/
def Dims4.packedStrides (sizes : Dims4) : Dims4 :=
  let after := sizes.complex
  let axis := u32 (sizes.after * after)
  ⟨u32 (sizes.axis * axis), axis, after, 1⟩

/-- The elements of all resources. -/
abbrev Memory := ℕ → ℕ → ℝ

structure ResourceDesc where
  resource : ℕ
  sizes : Dims4
  strides : Dims4

/-- A window, which may be absent. -/
structure WindowDesc where
  resource : Option ℕ
  sizes : Dims4
  strides : Dims4

/-! ## The shader -/

/-- The constants of the shader but its first element. -/
structure DFTShaderConstants where
  elementCount : ℕ
  dftIteration : ℕ
  isInverse : Bool
  inputSizes : Dims4
  inputStrides : Dims4
  outputSizes : Dims4
  outputStrides : Dims4
  windowSizes : Dims4
  windowStrides : Dims4
  hasWindow : Bool
  chirpLength : ℝ
  scale : ℝ
  dftLength : ℕ

/-- `float2(cos(theta), sin(theta))` -/
noncomputable def rotation (theta : ℝ) : ℂ :=
  ⟨Real.cos theta, Real.sin theta⟩

/-- `ReadSourceValue` -/
noncomputable def readSourceValue (c : DFTShaderConstants) (src window : ℕ → ℝ) (x y z : ℕ) : ℂ :=
  let windowValue : ℂ :=
    if c.hasWindow ∧ y < c.windowSizes.after then
      let real := u32 (y * c.windowStrides.after)
      ⟨window real,
        if c.windowSizes.complex = 2 then window (u32 (real + c.windowStrides.complex)) else 0⟩
    else 1
  let value : ℂ :=
    if y < c.inputSizes.axis then
      let real :=
        u32 (x * c.inputStrides.before + y * c.inputStrides.axis + z * c.inputStrides.after)
      ⟨src real,
        if c.inputSizes.complex = 2 then src (u32 (real + c.inputStrides.complex)) else 0⟩
    else 0
  value * windowValue

/-- `CalculateChirp` of the shader of the passes. -/
noncomputable def calculateChirp (n : ℕ) (N : ℝ) : ℂ :=
  if N = 0 then 1 else rotation (Real.pi * n * n / N)

/-- The angle of `w(k, N)`. -/
noncomputable def angle (isInverse : Bool) (k N : ℕ) : ℝ :=
  (if isInverse then 1 else -1) * (Real.pi * (2 : ℕ)) * k / N

/-- What the thread of an element computes. -/
noncomputable def dftValue (c : DFTShaderConstants) (src window : ℕ → ℝ) (index : ℕ) : ℂ :=
  let plane := u32 (c.outputSizes.axis * c.outputSizes.after)
  let x := index / plane
  let y := index % plane / c.outputSizes.after
  let z := index % plane % c.outputSizes.after
  let N := 2 ^ c.dftIteration
  let halfN := 2 ^ (c.dftIteration - 1)
  let even := y / N * halfN + y % halfN
  let odd := even + c.dftLength / 2
  let k := y % N
  let w := rotation (angle c.isInverse k N)
  let unweighted := c.scale *
    (readSourceValue c src window x even z + w * readSourceValue c src window x odd z)
  if c.chirpLength = 0 then unweighted else unweighted * calculateChirp k c.chirpLength

/-- The two stores of a thread, at `ComputeDestIndex`. -/
noncomputable def store (afterStride complexStride index : ℕ) (v : ℂ) (dst : ℕ → ℝ) : ℕ → ℝ :=
  let real := u32 (index * afterStride)
  Function.update (Function.update dst real v.re) (u32 (real + complexStride)) v.im

/-- The shader, for the thread of an element. -/
noncomputable def dftThread (c : DFTShaderConstants) (input output window index : ℕ)
    (mem : Memory) : Memory :=
  Function.update mem output
    (store c.outputStrides.after c.outputStrides.complex index
      (dftValue c (mem input) (mem window) index) (mem output))

/-! ## Dispatches -/

/-- `CeilDivide` -/
def ceilDivide (dividend divisor : ℕ) : ℕ :=
  u32 ((dividend + divisor - 1) / divisor)

/-- `GetNextDispatchSize` for one element a thread and groups of 64 threads: the number of groups
and the elements that are left. -/
def getNextDispatchSize (elementCount : ℕ) : ℕ × ℕ :=
  let maxThreadsPerDispatch := 64 * 65535
  let dispatch := ceilDivide (min elementCount maxThreadsPerDispatch) 64
  let dispatched := u32 (dispatch * 64)
  (dispatch, if dispatched < elementCount then elementCount - dispatched else 0)

theorem getNextDispatchSize_eq (pending : ℕ) :
    getNextDispatchSize pending =
      ((min pending 4194240 + 63) / 64, pending - (min pending 4194240 + 63) / 64 * 64) := by
  have hgroups : (min pending 4194240 + 63) / 64 * 64 < 2 ^ 32 := by omega
  rw [getNextDispatchSize, ceilDivide]
  simp only [Nat.reduceMul, Nat.add_sub_assoc, Nat.reduceSub, Nat.reduceLeDiff]
  rw [u32_of_lt (n := (min pending 4194240 + 63) / 64) (by omega), u32_of_lt hgroups]
  refine Prod.ext rfl ?_
  split <;> omega

theorem getNextDispatchSize_lt {pending : ℕ} (h : 0 < pending) :
    (getNextDispatchSize pending).2 < pending := by
  rw [getNextDispatchSize_eq]
  omega

/-- The threads of `Dispatch`. A thread past the last element does nothing. -/
def threadsFrom (elementCount pending : ℕ) : List ℕ :=
  if 0 < pending then
    let start := elementCount - pending
    let next := getNextDispatchSize pending
    ((List.range (next.1 * 64)).map (start + ·)).filter (· < elementCount) ++
      threadsFrom elementCount next.2
  else []
termination_by pending
decreasing_by exact getNextDispatchSize_lt ‹_›

def threads (elementCount : ℕ) : List ℕ :=
  threadsFrom elementCount elementCount

/-- The memory, and how many times there was a dispatch. -/
structure Gpu where
  mem : Memory
  dispatches : ℕ

/-- The order in which the threads of each dispatch take effect. -/
structure Schedule where
  order : ℕ → List ℕ → List ℕ
  perm : ∀ n l, (order n l).Perm l

/-- `Dispatch` -/
def dispatch (schedule : Schedule) (elementCount : ℕ) (thread : ℕ → Memory → Memory) (g : Gpu) :
    Gpu where
  mem := (schedule.order g.dispatches (threads elementCount)).foldl (fun mem i => thread i mem) g.mem
  dispatches := g.dispatches + 1

/-! ## The passes -/

/-- `LoopRangeCalculator` -/
structure LoopRange where
  left : ℕ
  right : ℕ
  last : ℕ

/-- `CalculateIndex` -/
def LoopRange.calculateIndex (r : LoopRange) (index : ℕ) : ℕ :=
  if 0 < index ∧ index < r.last then r.left + (index - 1) % (r.right - r.left + 1)
  else if index = r.last then r.right + 1
  else index

structure StockhamParameters where
  window : WindowDesc
  resourceLoopList : List ResourceDesc
  loopRange : LoopRange
  outputIndex : ℕ
  numberOfPasses : ℕ

/-- The constants of a pass. -/
noncomputable def passConstants (params : StockhamParameters) (dftLength : ℕ) (isInverse : Bool)
    (chirpLength scale : ℝ) (index : ℕ) (input output : ResourceDesc) : DFTShaderConstants :=
  let isLastPass := index + 1 = params.numberOfPasses
  { elementCount := output.sizes.elementCount / output.sizes.complex
    dftIteration := index + 1
    isInverse
    inputSizes := input.sizes
    inputStrides := input.strides
    outputSizes := output.sizes
    outputStrides := output.strides
    windowSizes := params.window.sizes
    windowStrides := params.window.strides
    hasWindow := index = 0 ∧ params.window.resource.isSome
    chirpLength := if isLastPass then chirpLength else 0
    scale := if isLastPass ∧ isInverse then scale / (2 ^ params.numberOfPasses : ℕ) else 1
    dftLength }

/-- One turn of the loop of `StockhamFFT`. A resource past the end of the list is undefined
behaviour. -/
noncomputable def stockhamPass (schedule : Schedule) (params : StockhamParameters)
    (dftLength : ℕ) (isInverse : Bool) (chirpLength scale : ℝ) (g : Gpu) (index : ℕ) :
    Option Gpu := do
  let input ← params.resourceLoopList[params.loopRange.calculateIndex index]?
  let output ← params.resourceLoopList[params.loopRange.calculateIndex (index + 1)]?
  let c := passConstants params dftLength isInverse chirpLength scale index input output
  let window := if c.hasWindow then params.window.resource.getD output.resource else output.resource
  some (dispatch schedule c.elementCount (dftThread c input.resource output.resource window) g)

/-- `StockhamFFT` -/
noncomputable def stockhamFFT (schedule : Schedule) (params : StockhamParameters)
    (dftLength : ℕ) (isInverse : Bool) (chirpLength scale : ℝ) (g : Gpu) : Option Gpu :=
  (List.range params.numberOfPasses).foldlM
    (stockhamPass schedule params dftLength isInverse chirpLength scale) g

/-! ## What a dispatch does -/

theorem filter_lt_range' (start count bound : ℕ) :
    (List.range' start count).filter (· < bound) = List.range' start (min count (bound - start)) := by
  obtain ⟨rest, hrest⟩ := Nat.exists_eq_add_of_le (Nat.min_le_left count (bound - start))
  have hin : (List.range' start (min count (bound - start))).filter (· < bound) =
      List.range' start (min count (bound - start)) := by
    refine List.filter_eq_self.2 fun x hx => ?_
    rw [List.mem_range'_1] at hx
    exact decide_eq_true (by omega)
  have hout : (List.range' (start + min count (bound - start)) rest).filter (· < bound) = [] := by
    refine List.filter_eq_nil_iff.2 fun x hx => ?_
    rw [List.mem_range'_1] at hx
    rw [decide_eq_true_eq]
    omega
  conv_lhs => rw [hrest]
  rw [← List.range'_append_1, List.filter_append, hin, hout, List.append_nil]

theorem threadsFrom_eq (elementCount pending : ℕ) (h : pending ≤ elementCount) :
    threadsFrom elementCount pending = List.range' (elementCount - pending) pending := by
  induction pending using Nat.strong_induction_on with
  | _ pending ih =>
    rw [threadsFrom]
    split
    next hpos =>
      have hlt : (getNextDispatchSize pending).2 < pending := getNextDispatchSize_lt hpos
      have hrest := ih _ hlt (by omega)
      simp only [getNextDispatchSize_eq, List.range_eq_range', List.map_add_range',
        filter_lt_range', Nat.add_zero] at hrest ⊢
      set groups := (min pending 4194240 + 63) / 64
      rw [hrest, show elementCount - (elementCount - pending) = pending by omega,
        show elementCount - (pending - groups * 64) =
          elementCount - pending + min (groups * 64) pending by omega,
        List.range'_append_1, show min (groups * 64) pending + (pending - groups * 64) = pending by
          omega]
    next hzero =>
      obtain rfl : pending = 0 := by omega
      rfl

/-- Every element has one thread. -/
theorem threads_eq (elementCount : ℕ) : threads elementCount = List.range elementCount := by
  rw [threads, threadsFrom_eq _ _ le_rfl, Nat.sub_self, List.range_eq_range']

/-- The complex number that the elements `2 * i` and `2 * i + 1` hold. -/
def pairAt (buf : ℕ → ℝ) (i : ℕ) : ℂ :=
  ⟨buf (2 * i), buf (2 * i + 1)⟩

/-- After the threads `l` each stored a value in the resource `output`. -/
structure Stored (output : ℕ) (value : ℕ → ℂ) (l : List ℕ) (mem mem' : Memory) : Prop where
  pair : ∀ i ∈ l, pairAt (mem' output) i = value i
  outside : ∀ i ∉ l, pairAt (mem' output) i = pairAt (mem output) i
  other : ∀ r ≠ output, mem' r = mem r

theorem pairAt_store {i : ℕ} (hi : 2 * i + 1 < 2 ^ 32) (v : ℂ) (dst : ℕ → ℝ) (j : ℕ) :
    pairAt (store 2 1 i v dst) j = if j = i then v else pairAt dst j := by
  rw [store, Nat.mul_comm i, u32_of_lt (by omega), u32_of_lt hi]
  split
  next h =>
    subst h
    refine Complex.ext ?_ ?_
    · rw [pairAt, Function.update_of_ne (by omega), Function.update_self]
    · rw [pairAt, Function.update_self]
  next h =>
    rw [pairAt, pairAt]
    congr 1 <;> rw [Function.update_of_ne (by omega), Function.update_of_ne (by omega)]

theorem stored_foldl {output : ℕ} {value : Memory → ℕ → ℂ}
    (hvalue : ∀ (mem mem' : Memory), (∀ r ≠ output, mem' r = mem r) → value mem' = value mem)
    (l : List ℕ) (hnodup : l.Nodup) (hfit : ∀ i ∈ l, 2 * i + 1 < 2 ^ 32) (mem : Memory) :
    Stored output (value mem) l mem (l.foldl (fun mem i =>
      Function.update mem output (store 2 1 i (value mem i) (mem output))) mem) := by
  induction l generalizing mem with
  | nil => exact ⟨fun _ h => absurd h List.not_mem_nil, fun _ _ => rfl, fun _ _ => rfl⟩
  | cons i l ih =>
    obtain ⟨hnotin, hnodup⟩ := List.nodup_cons.1 hnodup
    set mem' := Function.update mem output (store 2 1 i (value mem i) (mem output)) with hmem'
    have hother (r : ℕ) (hr : r ≠ output) : mem' r = mem r := Function.update_of_ne hr _ _
    have hpair (j : ℕ) :
        pairAt (mem' output) j = if j = i then value mem i else pairAt (mem output) j := by
      rw [hmem', Function.update_self, pairAt_store (hfit i List.mem_cons_self)]
    have hrest := ih hnodup (fun j hj => hfit j (List.mem_cons_of_mem _ hj)) mem'
    rw [hvalue mem mem' hother] at hrest
    rw [List.foldl_cons]
    refine ⟨fun j hj => ?_, fun j hj => ?_, fun r hr => (hrest.other r hr).trans (hother r hr)⟩
    · rcases List.mem_cons.1 hj with rfl | hj
      · rw [hrest.outside j hnotin, hpair, if_pos rfl]
      · exact hrest.pair j hj
    · rw [hrest.outside j fun h => hj (List.mem_cons_of_mem _ h), hpair,
        if_neg fun (h : j = i) => hj (h ▸ List.mem_cons_self)]

theorem dftValue_congr {c : DFTShaderConstants} {src window window' : ℕ → ℝ}
    (h : c.hasWindow → window' = window) : dftValue c src window' = dftValue c src window := by
  cases hw : c.hasWindow with
  | true => rw [h hw]
  | false =>
    have hread : readSourceValue c src window' = readSourceValue c src window := by
      funext x y z
      simp only [readSourceValue, hw, Bool.false_eq_true, false_and, if_false]
    funext index
    rw [dftValue, dftValue, hread]

/-- A dispatch of the shader, whatever the order of its threads. -/
theorem stored_dispatch (schedule : Schedule) {c : DFTShaderConstants} {input output window : ℕ}
    (hstrides : c.outputStrides.after = 2 ∧ c.outputStrides.complex = 1)
    (hfit : 2 * c.elementCount ≤ 2 ^ 32) (hinput : input ≠ output)
    (hwindow : c.hasWindow → window ≠ output) (g : Gpu) :
    Stored output (dftValue c (g.mem input) (g.mem window)) (List.range c.elementCount) g.mem
      (dispatch schedule c.elementCount (dftThread c input output window) g).mem := by
  have hperm := schedule.perm g.dispatches (threads c.elementCount)
  rw [threads_eq] at hperm
  have hfold := @stored_foldl output (fun mem => dftValue c (mem input) (mem window))
    (fun mem mem' h => by
      rw [h input hinput]
      exact dftValue_congr fun hw => h window (hwindow hw))
    _ (hperm.nodup_iff.2 List.nodup_range)
    (fun i hi => by
      have := List.mem_range.1 (hperm.mem_iff.1 hi)
      omega) g.mem
  obtain ⟨hpair, houtside, hother⟩ := hfold
  rw [dispatch, threads_eq]
  simp only [dftThread, hstrides]
  exact ⟨fun i hi => hpair i (hperm.mem_iff.2 hi), fun i hi => houtside i (mt hperm.mem_iff.1 hi),
    hother⟩

/-! ## Places of a packed tensor -/

/-- The element of a packed tensor of complex numbers at coordinates. -/
def place (axis after x y z : ℕ) : ℕ :=
  (x * axis + y) * after + z

theorem place_lt {before axis after x y z : ℕ} (hx : x < before) (hy : y < axis) (hz : z < after) :
    place axis after x y z < before * axis * after := by
  have hrow : x * axis + y < before * axis := by
    have hle : (x + 1) * axis ≤ before * axis := Nat.mul_le_mul_right _ hx
    rw [Nat.succ_mul] at hle
    omega
  have hle : (x * axis + y + 1) * after ≤ before * axis * after := Nat.mul_le_mul_right _ hrow
  rw [Nat.succ_mul] at hle
  rw [place]
  omega

theorem place_div {axis after x y z : ℕ} (hy : y < axis) (hz : z < after) :
    place axis after x y z / (axis * after) = x := by
  have hrest : y * after + z < axis * after := by
    have hle : (y + 1) * after ≤ axis * after := Nat.mul_le_mul_right _ hy
    rw [Nat.succ_mul] at hle
    omega
  rw [place, Nat.add_mul, Nat.mul_assoc, Nat.add_assoc, Nat.mul_comm x,
    Nat.mul_add_div (by omega), Nat.div_eq_of_lt hrest, Nat.add_zero]

theorem place_mod {axis after x y z : ℕ} (hy : y < axis) (hz : z < after) :
    place axis after x y z % (axis * after) = y * after + z := by
  have hrest : y * after + z < axis * after := by
    have hle : (y + 1) * after ≤ axis * after := Nat.mul_le_mul_right _ hy
    rw [Nat.succ_mul] at hle
    omega
  rw [place, Nat.add_mul, Nat.mul_assoc, Nat.add_assoc, Nat.mul_comm x, Nat.mul_add_mod,
    Nat.mod_eq_of_lt hrest]

theorem packedStrides_eq {sizes : Dims4}
    (hfit : sizes.axis * sizes.after * sizes.complex < 2 ^ 32) (haxis : 0 < sizes.axis) :
    sizes.packedStrides =
      ⟨sizes.axis * sizes.after * sizes.complex, sizes.after * sizes.complex, sizes.complex, 1⟩ := by
  have hafter : sizes.after * sizes.complex < 2 ^ 32 := by
    refine lt_of_le_of_lt ?_ hfit
    rw [Nat.mul_assoc]
    exact Nat.le_mul_of_pos_left _ haxis
  rw [Dims4.packedStrides]
  simp only [u32_of_lt hafter, ← Nat.mul_assoc, u32_of_lt hfit]

/-- The thread of a place. -/
theorem dftValue_place (c : DFTShaderConstants) (src window : ℕ → ℝ) {x y z : ℕ}
    (hplane : c.outputSizes.axis * c.outputSizes.after < 2 ^ 32)
    (hy : y < c.outputSizes.axis) (hz : z < c.outputSizes.after) {i : ℕ}
    (hi : c.dftIteration = i + 1) :
    dftValue c src window (place c.outputSizes.axis c.outputSizes.after x y z) =
      let N := 2 ^ (i + 1)
      let unweighted := c.scale *
        (readSourceValue c src window x (evenPlace i y) z +
          rotation (angle c.isInverse (y % N) N) *
            readSourceValue c src window x (evenPlace i y + c.dftLength / 2) z)
      if c.chirpLength = 0 then unweighted
      else unweighted * calculateChirp (y % N) c.chirpLength := by
  have hzy : (y * c.outputSizes.after + z) / c.outputSizes.after = y := by
    rw [Nat.mul_comm, Nat.mul_add_div (by omega), Nat.div_eq_of_lt hz, Nat.add_zero]
  have hzz : (y * c.outputSizes.after + z) % c.outputSizes.after = z := by
    rw [Nat.mul_comm, Nat.mul_add_mod, Nat.mod_eq_of_lt hz]
  rw [dftValue, u32_of_lt hplane]
  simp only [place_div hy hz, place_mod hy hz, hzy, hzz, hi, Nat.add_sub_cancel, evenPlace]

/-- A read of a packed tensor of complex numbers, without a window. -/
theorem readSourceValue_pair (c : DFTShaderConstants) (src window : ℕ → ℝ) {x y z : ℕ}
    (hwindow : c.hasWindow = false) (hcomplex : c.inputSizes.complex = 2)
    (hstrides : c.inputStrides = c.inputSizes.packedStrides)
    (hfit : c.inputSizes.before * c.inputSizes.axis * c.inputSizes.after * 2 < 2 ^ 32)
    (hx : x < c.inputSizes.before) (hy : y < c.inputSizes.axis) (hz : z < c.inputSizes.after) :
    readSourceValue c src window x y z =
      pairAt src (place c.inputSizes.axis c.inputSizes.after x y z) := by
  have hplane : c.inputSizes.axis * c.inputSizes.after * 2 < 2 ^ 32 := by
    refine lt_of_le_of_lt ?_ hfit
    rw [Nat.mul_assoc c.inputSizes.before]
    exact Nat.mul_le_mul_right _ (Nat.le_mul_of_pos_left _ (by omega))
  have hplace := place_lt hx hy hz
  have haddress : x * (c.inputSizes.axis * c.inputSizes.after * 2) + y * (c.inputSizes.after * 2) +
      z * 2 = 2 * place c.inputSizes.axis c.inputSizes.after x y z := by
    rw [place]
    ring
  rw [readSourceValue, hstrides, packedStrides_eq (by rwa [hcomplex]) (by omega)]
  simp only [hwindow, Bool.false_eq_true, false_and, if_false, mul_one, hy, if_true, hcomplex,
    haddress]
  rw [u32_of_lt (by omega), u32_of_lt (by omega), pairAt]

/-! ## The roots of unity -/

theorem rotation_zero : rotation 0 = 1 := by
  refine Complex.ext ?_ ?_ <;> simp [rotation]

theorem rotation_add (a b : ℝ) : rotation (a + b) = rotation a * rotation b := by
  refine Complex.ext ?_ ?_
  · rw [Complex.mul_re, rotation, rotation, rotation, Real.cos_add]
  · rw [Complex.mul_im, rotation, rotation, rotation, Real.sin_add]
    ring

theorem rotation_half (isInverse : Bool) {N : ℕ} (h : 0 < N) :
    rotation (angle isInverse N (2 * N)) = -1 := by
  have hN : (N : ℝ) ≠ 0 := Nat.cast_ne_zero.2 h.ne'
  have hangle : angle isInverse N (2 * N) = (if isInverse then 1 else -1) * Real.pi := by
    rw [angle, Nat.cast_mul, Nat.cast_ofNat]
    field_simp
  rw [hangle]
  cases isInverse <;> refine Complex.ext ?_ ?_ <;> simp [rotation]

/-- The coefficients `w(k, N)` of the shader. -/
noncomputable def twiddle (isInverse : Bool) : Twiddle ℂ where
  w k N := rotation (angle isInverse k N)
  zero N := by rw [angle, Nat.cast_zero, mul_zero, zero_div, rotation_zero]
  add a b N := by rw [← rotation_add, angle, angle, angle, Nat.cast_add, mul_add, add_div]
  scale a N h := by
    rw [angle, angle, Nat.cast_mul, Nat.cast_mul, mul_left_comm,
      mul_div_mul_left _ _ (Nat.cast_ne_zero.2 h.ne')]
  half h := rotation_half _ h

theorem twiddle_inverse (isInverse : Bool) :
    (twiddle isInverse).Inverse (twiddle (!isInverse)) := by
  intro a N
  have hopposite : angle isInverse a N + angle (!isInverse) a N = 0 := by
    cases isInverse <;> rw [angle, angle] <;> simp only [Bool.not_false, Bool.not_true, if_true,
      Bool.false_eq_true, if_false] <;> ring
  change rotation _ * rotation _ = 1
  rw [← rotation_add, hopposite, rotation_zero]

/-! ## The whole loop -/

/-- What the passes compute from the values of the first read. -/
noncomputable def passValues (isInverse : Bool) (L : ℕ) (x : ℕ → ℂ) : ℕ → ℕ → ℂ
  | 0 => x
  | i + 1 => fourierPass (twiddle isInverse) L i (passValues isInverse L x i)

/-- The resources that the passes of a loop read and write one after the other. -/
structure PassResources (params : StockhamParameters) (rs : ℕ → ResourceDesc)
    (before outputAxis after : ℕ) : Prop where
  passes : 0 < params.numberOfPasses
  listed : ∀ i ≤ params.numberOfPasses,
    params.resourceLoopList[params.loopRange.calculateIndex i]? = some (rs i)
  apart : ∀ i < params.numberOfPasses, (rs i).resource ≠ (rs (i + 1)).resource
  inner : ∀ i, 0 < i → i < params.numberOfPasses →
    (rs i).sizes = ⟨before, 2 ^ params.numberOfPasses, after, 2⟩
  last : (rs params.numberOfPasses).sizes = ⟨before, outputAxis, after, 2⟩
  packed : ∀ i, 0 < i → i ≤ params.numberOfPasses → (rs i).strides = (rs i).sizes.packedStrides
  short : outputAxis ≤ 2 ^ params.numberOfPasses
  fits : before * 2 ^ params.numberOfPasses * after * 2 < 2 ^ 32
  window : ∀ w, params.window.resource = some w → w ≠ (rs 1).resource

section

variable {params : StockhamParameters} {rs : ℕ → ResourceDesc} {before outputAxis after : ℕ}

/-- The length on the axis of the resource that pass `i` writes. -/
theorem PassResources.sizes (h : PassResources params rs before outputAxis after) {i : ℕ}
    (hi : i < params.numberOfPasses) :
    (rs (i + 1)).sizes = ⟨before,
      if i + 1 = params.numberOfPasses then outputAxis else 2 ^ params.numberOfPasses, after, 2⟩ := by
  split
  next hlast => rw [hlast, h.last]
  next hinner => exact h.inner (i + 1) (by omega) (by omega)

/-- One pass. -/
theorem stockhamPass_spec (h : PassResources params rs before outputAxis after)
    (schedule : Schedule) (isInverse : Bool) (chirpLength scale : ℝ) (g : Gpu) {i : ℕ}
    (hi : i < params.numberOfPasses) {values : ℕ → ℕ → ℕ → ℂ}
    (hread : ∀ x < before, ∀ y < 2 ^ params.numberOfPasses, ∀ z < after,
      readSourceValue (passConstants params (2 ^ params.numberOfPasses) isInverse chirpLength scale i
        (rs i) (rs (i + 1))) (g.mem (rs i).resource)
        (g.mem (if i = 0 ∧ params.window.resource.isSome then
          params.window.resource.getD (rs (i + 1)).resource else (rs (i + 1)).resource)) x y z =
        values x z y) :
    ∃ g', stockhamPass schedule params (2 ^ params.numberOfPasses) isInverse chirpLength scale g i =
        some g' ∧
      (∀ r ≠ (rs (i + 1)).resource, g'.mem r = g.mem r) ∧
      ∀ x < before, ∀ y < (rs (i + 1)).sizes.axis, ∀ z < after,
        pairAt (g'.mem (rs (i + 1)).resource) (place (rs (i + 1)).sizes.axis after x y z) =
          (if i + 1 = params.numberOfPasses ∧ isInverse then
            scale / (2 ^ params.numberOfPasses : ℕ) else 1 : ℝ) *
          fourierPass (twiddle isInverse) (2 ^ params.numberOfPasses) i (values x z) y *
          if i + 1 = params.numberOfPasses ∧ chirpLength ≠ 0 then
            calculateChirp (y % 2 ^ (i + 1)) chirpLength else 1 := by
  set L := 2 ^ params.numberOfPasses with hL
  have hsizes := h.sizes hi
  set Y := if i + 1 = params.numberOfPasses then outputAxis else L with hY
  have hYL : Y ≤ L := by
    rw [hY]
    split
    · exact h.short
    · exact le_rfl
  have hfit : before * Y * after * 2 < 2 ^ 32 :=
    lt_of_le_of_lt (Nat.mul_le_mul_right _ (Nat.mul_le_mul_right _ (Nat.mul_le_mul_left _ hYL)))
      h.fits
  set c := passConstants params L isInverse chirpLength scale i (rs i) (rs (i + 1)) with hc
  set window := if i = 0 ∧ params.window.resource.isSome then
    params.window.resource.getD (rs (i + 1)).resource else (rs (i + 1)).resource with hwindow
  have hcount : c.elementCount = before * Y * after := by
    rw [hc, passConstants]
    simp only [hsizes, Dims4.elementCount]
    rw [u32_of_lt hfit, Nat.mul_div_cancel _ two_pos]
  have hrun : stockhamPass schedule params L isInverse chirpLength scale g i =
      some (dispatch schedule c.elementCount
        (dftThread c (rs i).resource (rs (i + 1)).resource window) g) := by
    rw [stockhamPass, h.listed i hi.le, h.listed (i + 1) hi]
    simp only [Option.bind_eq_bind, Option.bind_some, passConstants, decide_eq_true_eq, hwindow, hc]
  have hstrides : c.outputStrides.after = 2 ∧ c.outputStrides.complex = 1 := by
    rw [hc, passConstants]
    simp only [h.packed (i + 1) (by omega) hi, hsizes, Dims4.packedStrides]
    trivial
  have hapart : c.hasWindow → window ≠ (rs (i + 1)).resource := by
    intro hhas
    rw [hc, passConstants] at hhas
    obtain ⟨rfl, hsome⟩ := of_decide_eq_true hhas
    obtain ⟨w, hw⟩ := Option.isSome_iff_exists.1 hsome
    rw [hwindow, if_pos ⟨rfl, hsome⟩, hw]
    exact h.window w hw
  obtain ⟨hpair, -, hother⟩ :=
    stored_dispatch schedule (g := g) hstrides (by omega) (h.apart i hi) hapart
  refine ⟨_, hrun, hother, fun x hx y hy z hz => ?_⟩
  rw [hsizes] at hy ⊢
  have hplace : place Y after x y z ∈ List.range c.elementCount := by
    rw [hcount]
    exact List.mem_range.2 (place_lt hx hy hz)
  have hout : c.outputSizes = ⟨before, Y, after, 2⟩ := hsizes
  have hplane : c.outputSizes.axis * c.outputSizes.after < 2 ^ 32 := by
    rw [hout]
    refine lt_of_le_of_lt ?_ hfit
    rw [Nat.mul_assoc before, Nat.mul_right_comm]
    exact Nat.le_mul_of_pos_left _ (by omega)
  have hplaces : evenPlace i y + L / 2 < L := evenPlace_lt hi (hy.trans_le hYL)
  have hvalue := dftValue_place c (g.mem (rs i).resource) (g.mem window) (x := x) (y := y) (z := z)
    hplane (by rwa [hout]) (by rwa [hout]) rfl
  rw [hout] at hvalue
  rw [hpair _ hplace, hvalue]
  simp only [hread x hx _ (show evenPlace i y < L by omega) z hz,
    show c.dftLength = L from rfl, hread x hx _ hplaces z hz]
  have hchirp : c.chirpLength = if i + 1 = params.numberOfPasses then chirpLength else 0 := rfl
  have hscale : c.scale = if i + 1 = params.numberOfPasses ∧ isInverse then
      scale / (2 ^ params.numberOfPasses : ℕ) else 1 := rfl
  have hinverse : c.isInverse = isInverse := rfl
  have hcoefficient : rotation (angle isInverse (y % 2 ^ (i + 1)) (2 ^ (i + 1))) =
      (twiddle isInverse).w (y % 2 ^ (i + 1)) (2 ^ (i + 1)) := rfl
  rw [hchirp, hscale, hinverse, hcoefficient, fourierPass]
  by_cases hlast : i + 1 = params.numberOfPasses
  · by_cases hnone : chirpLength = 0
    · have hplain : ¬ (i + 1 = params.numberOfPasses ∧ chirpLength ≠ 0) := fun h => h.2 hnone
      rw [if_pos hlast, if_pos hnone, if_neg hplain, mul_one]
    · have hweighted : i + 1 = params.numberOfPasses ∧ chirpLength ≠ 0 := ⟨hlast, hnone⟩
      rw [if_pos hlast, if_neg hnone, if_pos hweighted]
  · have hplain : ¬ (i + 1 = params.numberOfPasses ∧ chirpLength ≠ 0) := fun h => hlast h.1
    rw [if_neg hlast, if_pos rfl, if_neg hplain, mul_one]

/-- The resources that are written. -/
def PassResources.Written (_ : PassResources params rs before outputAxis after) (r : ℕ) : Prop :=
  ∃ i, 0 < i ∧ i ≤ params.numberOfPasses ∧ r = (rs i).resource

/-- The first read of a loop, through its window. -/
noncomputable def firstRead (params : StockhamParameters) (rs : ℕ → ResourceDesc) (mem : Memory)
    (x z y : ℕ) : ℂ :=
  readSourceValue (passConstants params (2 ^ params.numberOfPasses) false 0 1 0 (rs 0) (rs 1))
    (mem (rs 0).resource) (mem (params.window.resource.getD (rs 1).resource)) x y z

/-- The loop as far as pass `i`. -/
theorem passes_spec (h : PassResources params rs before outputAxis after) (schedule : Schedule)
    (isInverse : Bool) (chirpLength scale : ℝ) (g : Gpu) {i : ℕ} (hi : i < params.numberOfPasses) :
    ∃ g', (List.range i).foldlM (stockhamPass schedule params (2 ^ params.numberOfPasses) isInverse
        chirpLength scale) g = some g' ∧
      (∀ r, ¬ h.Written r → g'.mem r = g.mem r) ∧
      ∀ x < before, ∀ y < 2 ^ params.numberOfPasses, ∀ z < after,
        readSourceValue (passConstants params (2 ^ params.numberOfPasses) isInverse chirpLength scale
          i (rs i) (rs (i + 1))) (g'.mem (rs i).resource)
          (g'.mem (if i = 0 ∧ params.window.resource.isSome then
            params.window.resource.getD (rs (i + 1)).resource else (rs (i + 1)).resource)) x y z =
        passValues isInverse (2 ^ params.numberOfPasses) (firstRead params rs g.mem x z) i y := by
  induction i with
  | zero =>
    refine ⟨g, rfl, fun _ _ => rfl, fun x _ y _ z _ => ?_⟩
    cases hw : params.window.resource with
    | none => simp [firstRead, passValues, passConstants, readSourceValue, hw]
    | some w => simp [firstRead, passValues, passConstants, readSourceValue, hw]
  | succ i ih =>
    obtain ⟨g', hrun, hframe, hread⟩ := ih (by omega)
    obtain ⟨g'', hpass, hother, hpair⟩ :=
      stockhamPass_spec h schedule isInverse chirpLength scale g' (by omega) hread
    refine ⟨g'', ?_, fun r hr => ?_, fun x hx y hy z hz => ?_⟩
    · rw [List.range_succ, List.foldlM_append, hrun]
      simp [hpass]
    · rw [hother r fun he => hr ⟨i + 1, by omega, hi.le, he⟩, hframe r hr]
    · have hsizes : (rs (i + 1)).sizes = ⟨before, 2 ^ params.numberOfPasses, after, 2⟩ :=
        h.inner _ (by omega) hi
      have hinner : i + 1 ≠ params.numberOfPasses := by omega
      have hvalue := hpair x hx y (by rwa [hsizes]) z hz
      rw [if_neg (fun he => hinner he.1), if_neg (fun he => hinner he.1), Complex.ofReal_one, one_mul,
        mul_one, hsizes] at hvalue
      set c := passConstants params (2 ^ params.numberOfPasses) isInverse chirpLength scale (i + 1)
        (rs (i + 1)) (rs (i + 1 + 1)) with hc
      have hinput : c.inputSizes = ⟨before, 2 ^ params.numberOfPasses, after, 2⟩ := hsizes
      have hwindow : c.hasWindow = false := by simp [hc, passConstants]
      have hpacked : c.inputStrides = c.inputSizes.packedStrides := h.packed _ (by omega) hi.le
      rw [passValues, ← hvalue, readSourceValue_pair c _ _ hwindow (by rw [hinput]) hpacked
        (by rw [hinput]; exact h.fits) (by rwa [hinput]) (by rwa [hinput]) (by rwa [hinput]), hinput]

/-- The whole loop. Its last resource holds the transform of what is read first. -/
theorem stockhamFFT_spec (h : PassResources params rs before outputAxis after)
    (schedule : Schedule) (isInverse : Bool) (chirpLength scale : ℝ) (g : Gpu) :
    ∃ g', stockhamFFT schedule params (2 ^ params.numberOfPasses) isInverse chirpLength scale g =
        some g' ∧
      (∀ r, ¬ h.Written r → g'.mem r = g.mem r) ∧
      ∀ x < before, ∀ k < outputAxis, ∀ z < after,
        pairAt (g'.mem (rs params.numberOfPasses).resource) (place outputAxis after x k z) =
          (if isInverse then scale / (2 ^ params.numberOfPasses : ℕ) else 1 : ℝ) *
          dft (twiddle isInverse) (2 ^ params.numberOfPasses) (firstRead params rs g.mem x z) k *
          if chirpLength ≠ 0 then calculateChirp k chirpLength else 1 := by
  obtain ⟨i, hi⟩ : ∃ i, params.numberOfPasses = i + 1 := Nat.exists_eq_succ_of_ne_zero h.passes.ne'
  obtain ⟨g', hrun, hframe, hread⟩ :=
    passes_spec h schedule isInverse chirpLength scale g (i := i) (by omega)
  obtain ⟨g'', hpass, hother, hpair⟩ :=
    stockhamPass_spec h schedule isInverse chirpLength scale g' (by omega) hread
  refine ⟨g'', ?_, fun r hr => ?_, fun x hx k hk z hz => ?_⟩
  · rw [stockhamFFT]
    conv_lhs => rw [hi, List.range_succ, List.foldlM_append]
    rw [← hi, hrun]
    simp [hpass]
  · rw [hother r fun he => hr ⟨i + 1, by omega, hi.ge, he⟩, hframe r hr]
  · have hlast := h.last
    have hkL : k < 2 ^ params.numberOfPasses := hk.trans_le h.short
    have hvalue := hpair x hx k (by rwa [← hi, hlast]) z hz
    rw [← hi, hlast, Nat.mod_eq_of_lt hkL] at hvalue
    simp only [true_and] at hvalue
    rw [hvalue]
    congr 2
    have hdft : passValues isInverse (2 ^ params.numberOfPasses) (firstRead params rs g.mem x z)
        params.numberOfPasses k = dft (twiddle isInverse) (2 ^ params.numberOfPasses)
          (passValues isInverse (2 ^ params.numberOfPasses) (firstRead params rs g.mem x z) 0) k :=
      passes_eq_dft (twiddle isInverse) (fun _ _ _ _ => rfl) hkL
    rw [← show passValues isInverse (2 ^ params.numberOfPasses) (firstRead params rs g.mem x z) 0 =
      firstRead params rs g.mem x z from rfl, ← hdft, hi]
    rfl

end

end AmdGpuEp.DirectML.Dft
