import AmdGpuEp.DirectML.ChirpZTransform

/-!
# The STFT kernel

`PluginDmlSTFTOperator` cuts the signals into frames with one elementwise operator over strided
views, and gives the frames to the DFT kernel as a batch.

Results:
1. `framed_place`: the element of a frame.
2. `signalDesc_inside`: the strided view stays inside the signals.
3. `stft_iff`: when the output holds the transform of every frame.
-/

namespace AmdGpuEp.DirectML.Dft

/-! ## Parameters -/

/-- The inputs of the node that are read before it runs: the dimensions of the signal and of the
window, and the values of the constant scalars. -/
structure StftNode where
  isOnesided : Bool
  signalDims : List ℕ
  frameStep : ℤ
  window : Option (List ℕ)
  frameLength : Option ℤ

/-- `PluginDmlSTFTParameters` -/
structure StftParameters where
  batchSize : ℕ
  signalSize : ℕ
  frameStep : ℕ
  frameSize : ℕ
  frameCount : ℕ
  frameDftElementCount : ℕ
  isOnesided : Bool
  hasWindowTensor : Bool

/-- `gsl::narrow<uint32_t>` -/
def narrow (v : ℤ) : Option ℕ :=
  if 0 ≤ v ∧ v < 2 ^ 32 then some v.toNat else none

/-- The sizes of the signals: a batch of real signals. -/
def StftNode.signal (node : StftNode) : Option (ℕ × ℕ) :=
  match node.signalDims with
  | [batchSize, signalSize] => some (batchSize, signalSize)
  | [batchSize, signalSize, 1] => some (batchSize, signalSize)
  | _ => none

/-- The frame size that a window gives, 0 without one. -/
def StftNode.windowSize (node : StftNode) (signalSize : ℕ) : Option ℕ :=
  match node.window with
  | some [frameSize] => if frameSize ≤ signalSize then some frameSize else none
  | some _ => none
  | none => some 0

/-- The frame size, which `frame_length` gives if it is there. -/
def StftNode.frameSize (node : StftNode) (signalSize : ℕ) : Option ℕ := do
  let frameSize ← node.windowSize signalSize
  match node.frameLength with
  | some frameLength =>
    let frameLength ← narrow frameLength
    if (frameSize = 0 ∨ frameSize = frameLength) ∧ frameLength ≤ signalSize then some frameLength
    else none
  | none => some frameSize

/-- The constructor of `PluginDmlSTFTParameters` -/
def StftNode.parameters (node : StftNode) : Option StftParameters := do
  let (batchSize, signalSize) ← node.signal
  let frameStep ← narrow node.frameStep
  if frameStep = 0 then none
  let frameSize ← node.frameSize signalSize
  if frameSize = 0 then none
  some
    { batchSize
      signalSize
      frameStep
      frameSize
      frameCount := u32 ((signalSize - frameSize) / frameStep + 1)
      frameDftElementCount := if node.isOnesided then frameSize / 2 + 1 else frameSize
      isOnesided := node.isOnesided
      hasWindowTensor := node.window.isSome }

/-- `InferOutputShapes` of `PluginSTFTShapeInferrer` -/
def StftNode.inferOutputShapes (node : StftNode) : Option (List ℕ) := do
  let params ← node.parameters
  some [params.batchSize, params.frameCount, params.frameDftElementCount, 2]

/-! ## Frames -/

/-- `signalDesc` of `CompileAndInitFramingOperator` -/
def StftParameters.signalDesc (params : StftParameters) : List Dim :=
  [⟨params.batchSize, params.signalSize⟩, ⟨params.frameCount, params.frameStep⟩,
    ⟨params.frameSize, 1⟩]

/-- `windowDesc` of `CompileAndInitFramingOperator` -/
def StftParameters.windowDesc (params : StftParameters) : List Dim :=
  [⟨params.batchSize, 0⟩, ⟨params.frameCount, 0⟩, ⟨params.frameSize, 1⟩]

/-- The index of an element of the packed output of the framing operator. -/
def StftParameters.index (params : StftParameters) (e : ℕ) : List ℕ :=
  [e / (params.frameCount * params.frameSize), e / params.frameSize % params.frameCount,
    e % params.frameSize]

/-- The framing operator: the product of both views, or the view of the signals. -/
def StftParameters.framed (params : StftParameters) (signal window : ℕ → ℝ) (e : ℕ) : ℝ :=
  if params.hasWindowTensor then
    signal (address params.signalDesc (params.index e)) *
      window (address params.windowDesc (params.index e))
  else signal (address params.signalDesc (params.index e))

/-- `DispatchFramingOperator` -/
def StftParameters.dispatchFraming (params : StftParameters) (signal window output : ℕ)
    (mem : Memory) : Memory :=
  Function.update mem output fun e =>
    if e < params.batchSize * params.frameCount * params.frameSize then
      params.framed (mem signal) (mem window) e
    else mem output e

/-- `Compute` -/
noncomputable def StftParameters.compute (params : StftParameters) (schedule : Schedule)
    (signal window output next : ℕ) (g : Gpu) : Option Gpu :=
  let frames := u32 (params.batchSize * params.frameCount)
  Dft.compute params.isOnesided false schedule next [frames, params.frameSize, 1] output
    [frames, params.frameDftElementCount, 2] params.frameSize 1 (next + 1)
    { g with mem := params.dispatchFraming signal window next g.mem }

/-! ## What the constructor accepts -/

/-- What the checks of the constructor leave. -/
structure StftParameters.Checked (params : StftParameters) : Prop where
  step : 0 < params.frameStep
  size : 0 < params.frameSize
  inside : params.frameSize ≤ params.signalSize
  count : params.frameCount = (params.signalSize - params.frameSize) / params.frameStep + 1
  length : params.frameDftElementCount =
    if params.isOnesided then params.frameSize / 2 + 1 else params.frameSize

theorem windowSize_le {node : StftNode} {signalSize frameSize : ℕ}
    (h : node.windowSize signalSize = some frameSize) : frameSize ≤ signalSize := by
  unfold StftNode.windowSize at h
  split at h
  · split at h
    next hle => exact Option.some.inj h ▸ hle
    next => cases h
  · cases h
  · exact Option.some.inj h ▸ Nat.zero_le _

theorem frameSize_le {node : StftNode} {signalSize frameSize : ℕ}
    (h : node.frameSize signalSize = some frameSize) : frameSize ≤ signalSize := by
  rw [StftNode.frameSize, Option.bind_eq_bind, Option.bind_eq_some_iff] at h
  obtain ⟨windowSize, hwindow, h⟩ := h
  split at h
  · rw [Option.bind_eq_some_iff] at h
    obtain ⟨frameLength, -, h⟩ := h
    split at h
    next hchecks => exact Option.some.inj h ▸ hchecks.2
    next => cases h
  · exact Option.some.inj h ▸ windowSize_le hwindow

theorem signal_mem {node : StftNode} {batchSize signalSize : ℕ}
    (h : node.signal = some (batchSize, signalSize)) : signalSize ∈ node.signalDims := by
  unfold StftNode.signal at h
  split at h
  next hdims =>
    cases h
    simp [hdims]
  next hdims =>
    cases h
    simp [hdims]
  next => cases h

theorem checked_of_parameters {node : StftNode} {params : StftParameters}
    (hdims : ∀ d ∈ node.signalDims, d < 2 ^ 32) (h : node.parameters = some params) :
    params.Checked := by
  rw [StftNode.parameters, Option.bind_eq_bind, Option.bind_eq_some_iff] at h
  obtain ⟨⟨batchSize, signalSize⟩, hsignal, h⟩ := h
  simp only [Option.bind_eq_bind, Option.bind_eq_some_iff] at h
  obtain ⟨frameStep, -, h⟩ := h
  split at h
  · cases h
  next hstep =>
    simp only [Option.bind_eq_some_iff] at h
    obtain ⟨frameSize, hframe, h⟩ := h
    split at h
    · cases h
    next hsize =>
      have hle := frameSize_le hframe
      have hsignal := hdims _ (signal_mem hsignal)
      have hcount : (signalSize - frameSize) / frameStep ≤ signalSize - frameSize :=
        Nat.div_le_self _ _
      cases h
      exact ⟨Nat.pos_of_ne_zero hstep, Nat.pos_of_ne_zero hsize, hle, u32_of_lt (by omega), rfl⟩

/-! ## What the frames hold -/

section

variable {params : StftParameters}

theorem index_place {b f i : ℕ} (hf : f < params.frameCount) (hi : i < params.frameSize) :
    params.index (place params.frameCount params.frameSize b f i) = [b, f, i] := by
  have hrow : (b * params.frameCount + f) * params.frameSize + i =
      params.frameSize * (b * params.frameCount + f) + i := by rw [Nat.mul_comm]
  have hframe : (params.frameSize * (b * params.frameCount + f) + i) / params.frameSize %
      params.frameCount = f := by
    rw [Nat.mul_add_div (by omega), Nat.div_eq_of_lt hi, Nat.add_zero, Nat.mul_comm b,
      Nat.mul_add_mod, Nat.mod_eq_of_lt hf]
  rw [StftParameters.index, place_div hf hi, place, hrow, hframe, Nat.mul_add_mod,
    Nat.mod_eq_of_lt hi]

/-- Element `i` of frame `f` of signal `b`. -/
theorem framed_place (signal window : ℕ → ℝ) {b f i : ℕ} (hf : f < params.frameCount)
    (hi : i < params.frameSize) :
    params.framed signal window (place params.frameCount params.frameSize b f i) =
      signal (b * params.signalSize + f * params.frameStep + i) *
        if params.hasWindowTensor then window i else 1 := by
  have hsignal : address params.signalDesc [b, f, i] =
      b * params.signalSize + f * params.frameStep + i := by
    simp only [StftParameters.signalDesc, address]
    ring
  have hwindow : address params.windowDesc [b, f, i] = i := by
    simp only [StftParameters.windowDesc, address]
    ring
  rw [StftParameters.framed, index_place hf hi, hsignal, hwindow]
  split
  · rfl
  · rw [mul_one]

/-- The view of the signals stays inside them. -/
theorem signalDesc_inside (h : params.Checked) {idx : List ℕ}
    (hidx : InBounds idx [params.batchSize, params.frameCount, params.frameSize]) :
    address params.signalDesc idx < params.batchSize * params.signalSize := by
  obtain ⟨b, f, i, rfl⟩ : ∃ b f i, idx = [b, f, i] := by
    have hlength := hidx.length_eq
    match idx, hlength with
    | [b, f, i], _ => exact ⟨b, f, i, rfl⟩
  simp only [InBounds, List.forall₂_cons, List.forall₂_nil_left_iff, and_true] at hidx
  obtain ⟨hb, hf, hi⟩ := hidx
  have hstep : f * params.frameStep ≤ params.signalSize - params.frameSize := by
    rw [h.count] at hf
    exact (Nat.le_div_iff_mul_le h.step).1 (by omega)
  have hbatch : (b + 1) * params.signalSize ≤ params.batchSize * params.signalSize :=
    Nat.mul_le_mul_right _ hb
  have hinside := h.inside
  rw [Nat.succ_mul] at hbatch
  simp only [StftParameters.signalDesc, address, Nat.one_mul, Nat.add_zero]
  rw [Nat.mul_comm params.signalSize, Nat.mul_comm params.frameStep]
  omega

/-! ## The whole kernel -/

/-- The output is the transform of every frame. -/
def StftParameters.Transforms (params : StftParameters) (signal window dst : ℕ → ℝ) : Prop :=
  ∀ b < params.batchSize, ∀ f < params.frameCount, ∀ k < params.frameDftElementCount,
    pairAt dst (place params.frameCount params.frameDftElementCount b f k) =
      ∑ i ∈ Finset.range params.frameSize,
        ((signal (b * params.signalSize + f * params.frameStep + i) *
          if params.hasWindowTensor then window i else 1 : ℝ) : ℂ) *
        (twiddle false).w (i * k) params.frameSize

/-- The DFT that the kernel runs on its frames, as a node. -/
def StftParameters.dftNode (params : StftParameters) : DftNode :=
  ⟨params.isOnesided, false, 1, none⟩

/-- The frames of all signals are the batch of the DFT. -/
theorem transforms_frames_iff (h : params.Checked) {signal window frames dst : ℕ → ℝ}
    (hframes : ∀ e < params.batchSize * params.frameCount * params.frameSize,
      frames e = params.framed signal window e) :
    params.dftNode.Transforms [params.batchSize * params.frameCount] params.frameSize [] 1
        params.frameSize frames dst ↔
      params.Transforms signal window dst := by
  have hlength : params.dftNode.outputLength params.frameSize = params.frameDftElementCount := by
    rw [h.length]
    rfl
  have hsignal {b f : ℕ} (hb : b < params.batchSize) (hf : f < params.frameCount) {i : ℕ}
      (hi : i < params.frameSize) :
      AmdGpuEp.DirectML.Dft.signal params.frameSize 1 1 frames (b * params.frameCount + f) 0 i =
        ((signal (b * params.signalSize + f * params.frameStep + i) *
          if params.hasWindowTensor then window i else 1 : ℝ) : ℂ) := by
    have hplace : place params.frameSize 1 (b * params.frameCount + f) i 0 =
        place params.frameCount params.frameSize b f i := by
      rw [place, place, Nat.mul_one, Nat.add_zero]
    rw [Dft.signal, if_pos hi, complexAt, hplace, Nat.mul_one,
      hframes _ (place_lt hb hf hi), framed_place _ _ hf hi]
    rfl
  have hvalue {b f : ℕ} (hb : b < params.batchSize) (hf : f < params.frameCount) (k : ℕ) :
      (if params.dftNode.isInverse then 1 / (params.frameSize : ℝ) else 1 : ℝ) *
        dft (twiddle params.dftNode.isInverse) params.frameSize
          (Dft.signal params.frameSize 1 1 frames (b * params.frameCount + f) 0) k =
        ∑ i ∈ Finset.range params.frameSize,
          ((signal (b * params.signalSize + f * params.frameStep + i) *
            if params.hasWindowTensor then window i else 1 : ℝ) : ℂ) *
          (twiddle false).w (i * k) params.frameSize := by
    have hforward : params.dftNode.isInverse = false := rfl
    rw [hforward, if_neg Bool.false_ne_true, Complex.ofReal_one, one_mul, dft]
    exact Finset.sum_congr rfl fun i hi => by rw [hsignal hb hf (Finset.mem_range.1 hi)]
  have hplace (b f k : ℕ) : place params.frameDftElementCount 1 (b * params.frameCount + f) k 0 =
      place params.frameCount params.frameDftElementCount b f k := by
    rw [place, place, Nat.mul_one, Nat.add_zero]
  rw [DftNode.Transforms, StftParameters.Transforms, hlength, List.prod_singleton, List.prod_nil]
  constructor
  · intro hall b hb f hf k hk
    have hrow : b * params.frameCount + f < params.batchSize * params.frameCount := by
      have hle : (b + 1) * params.frameCount ≤ params.batchSize * params.frameCount :=
        Nat.mul_le_mul_right _ hb
      rw [Nat.succ_mul] at hle
      omega
    rw [← hplace, hall _ hrow k hk 0 one_pos, hvalue hb hf]
  · intro hall x hx k hk z hz
    obtain rfl : z = 0 := by omega
    have hcount : 0 < params.frameCount := Nat.pos_of_ne_zero fun h0 => by
      rw [h0, Nat.mul_zero] at hx
      omega
    have hb : x / params.frameCount < params.batchSize :=
      (Nat.div_lt_iff_lt_mul hcount).2 hx
    have hf : x % params.frameCount < params.frameCount := Nat.mod_lt _ hcount
    rw [← Nat.div_add_mod' x params.frameCount, hplace, hall _ hb _ hf k hk, hvalue hb hf]

/-- The length of the passes for the frames. -/
def passLength (S : ℕ) : ℕ :=
  Nat.clog 2 (if isPowerOfTwo S then S else 2 * S - 1)

theorem StftParameters.dftNode_fits (h : params.Checked) {p output next : ℕ}
    (hbatch : 0 < params.batchSize)
    (hfits : params.batchSize * params.frameCount * 2 ^ p * 2 < 2 ^ 32)
    (hp : params.frameSize ≤ 2 ^ p) (houtput : output < next) :
    params.dftNode.Fits [params.batchSize * params.frameCount] params.frameSize [] 1
      params.frameSize p
      [params.batchSize * params.frameCount, params.frameDftElementCount, 2] next output
      (next + 1) where
  axis := by rfl
  length := rfl
  shape := by
    rw [h.length]
    cases hone : params.isOnesided <;> simp [DftNode.inferOutputShapes, StftParameters.dftNode,
      tensorDims, handleNegativeAxis, DftNode.length, hone]
  positive := by
    have hcount : 0 < params.frameCount := h.count ▸ Nat.succ_pos _
    rw [List.prod_singleton]
    exact ⟨Nat.mul_pos hbatch hcount, one_pos⟩
  complex := .inl rfl
  inputFits := by
    rw [List.prod_singleton, List.prod_nil, Nat.mul_one, Nat.mul_one]
    have hle : params.batchSize * params.frameCount * params.frameSize ≤
        params.batchSize * params.frameCount * 2 ^ p := Nat.mul_le_mul_left _ hp
    omega
  passesFit := by rwa [List.prod_singleton, List.prod_nil, Nat.mul_one]
  resources := by omega

theorem passLength_two_pow (q : ℕ) : passLength (2 ^ q) = q := by
  rw [passLength, if_pos ((isPowerOfTwo_iff _).2 ⟨q, rfl⟩), Nat.clog_pow 2 q one_lt_two]

theorem le_two_pow_passLength (S : ℕ) : S ≤ 2 ^ passLength S := by
  rw [passLength]
  split
  · exact Nat.le_pow_clog one_lt_two S
  · have hle : 2 * S - 1 ≤ 2 ^ Nat.clog 2 (2 * S - 1) := Nat.le_pow_clog one_lt_two _
    have hpos : 0 < 2 ^ Nat.clog 2 (2 * S - 1) := Nat.two_pow_pos _
    omega

/-- The memory after the framing. -/
theorem StftParameters.compute_eq (h : params.Checked) {p signal window output next : ℕ}
    (hbatch : 0 < params.batchSize)
    (hfits : params.batchSize * params.frameCount * 2 ^ p * 2 < 2 ^ 32)
    (hp : params.frameSize ≤ 2 ^ p) (houtput : output < next) (schedule : Schedule) (g : Gpu) :
    params.compute schedule signal window output next g =
      params.dftNode.compute schedule next
        (tensorDims [params.batchSize * params.frameCount] params.frameSize [] 1) output
        [params.batchSize * params.frameCount, params.frameDftElementCount, 2] (next + 1)
        { g with mem := params.dispatchFraming signal window next g.mem } := by
  have hbatches : params.batchSize * params.frameCount < 2 ^ 32 := by
    refine lt_of_le_of_lt ?_ hfits
    rw [Nat.mul_assoc]
    exact Nat.le_mul_of_pos_right _ (by positivity)
  have hlength : params.dftNode.outputLength params.frameSize = params.frameDftElementCount := by
    rw [h.length]
    rfl
  rw [(params.dftNode_fits h hbatch hfits hp houtput).compute_eq, hlength, StftParameters.compute,
    u32_of_lt hbatches]
  rfl

theorem StftParameters.transforms (h : params.Checked) {signal window output next : ℕ} {g g' : Gpu}
    (hnode : params.dftNode.Transforms [params.batchSize * params.frameCount] params.frameSize [] 1
      params.frameSize (params.dispatchFraming signal window next g.mem next) (g'.mem output)) :
    params.Transforms (g.mem signal) (g.mem window) (g'.mem output) := by
  refine (transforms_frames_iff h fun e he => ?_).1 hnode
  rw [StftParameters.dispatchFraming, Function.update_self, if_pos he]

/-- For any order of the threads and any contents of the memory, the output is the transform of
every frame, but for frames of length 1 and halves of the transforms of frames of length 2. -/
theorem stft_iff {node : StftNode} {signal window output next : ℕ}
    (hdims : ∀ d ∈ node.signalDims, d < 2 ^ 32) (hparams : node.parameters = some params)
    (hbatch : 0 < params.batchSize)
    (hfits : params.batchSize * params.frameCount * 2 ^ passLength params.frameSize * 2 < 2 ^ 32)
    (houtput : output < next) :
    (∀ schedule g, ∃ g', params.compute schedule signal window output next g = some g' ∧
      (∀ r < next, r ≠ output → g'.mem r = g.mem r) ∧
      params.Transforms (g.mem signal) (g.mem window) (g'.mem output)) ↔
      params.frameSize ≠ 1 ∧ ¬ (params.frameSize = 2 ∧ params.isOnesided) := by
  have h := checked_of_parameters hdims hparams
  have hp := le_two_pow_passLength params.frameSize
  have hnode := params.dftNode_fits h hbatch hfits hp houtput
  simp only [params.compute_eq h hbatch hfits hp houtput]
  constructor
  · intro hall
    refine ⟨fun hone => ?_, ?_⟩
    · obtain ⟨g', hrun, -, hvalue⟩ :=
        hall .inOrder ⟨fun r _ => if r = output then 1 else 0, 0⟩
      rw [hone, show passLength 1 = 0 from passLength_two_pow 0] at hnode
      rw [hone, hnode.compute_power rfl, stockhamFFT_one] at hrun
      obtain rfl := Option.some.inj hrun
      have hlength : 0 < params.frameDftElementCount := by
        rw [h.length, hone]
        split <;> decide
      have hcount : 0 < params.frameCount := h.count ▸ Nat.succ_pos _
      -- the output keeps an imaginary part, which no frame of one element has
      have hreal := hvalue 0 hbatch 0 hcount 0 hlength
      rw [hone, Finset.sum_range_one, Nat.mul_zero, (twiddle false).zero, mul_one] at hreal
      have him := congrArg Complex.im hreal
      simp only [Complex.ofReal_im, pairAt, StftParameters.dispatchFraming,
        Function.update_of_ne houtput.ne, if_true] at him
      exact one_ne_zero him
    · rintro ⟨htwo, hone⟩
      obtain ⟨g', hrun, -⟩ := hall .inOrder ⟨fun _ _ => 0, 0⟩
      rw [htwo, show passLength 2 = 1 from passLength_two_pow 1] at hnode
      rw [htwo, hnode.compute_power rfl,
        show params.dftNode.isOnesided = true from hone, stockhamFFT_half] at hrun
      exact absurd hrun (by simp)
  · rintro ⟨hone, htwo⟩ schedule g
    have hrun : ∃ g', params.dftNode.compute schedule next
        (tensorDims [params.batchSize * params.frameCount] params.frameSize [] 1) output
        [params.batchSize * params.frameCount, params.frameDftElementCount, 2] (next + 1)
        { g with mem := params.dispatchFraming signal window next g.mem } = some g' ∧
        (∀ r < next + 1, r ≠ output →
          g'.mem r = params.dispatchFraming signal window next g.mem r) ∧
        params.dftNode.Transforms [params.batchSize * params.frameCount] params.frameSize [] 1
          params.frameSize (params.dispatchFraming signal window next g.mem next)
          (g'.mem output) := by
      by_cases hpower : ∃ q, params.frameSize = 2 ^ q
      · obtain ⟨q, hq⟩ := hpower
        rw [hq, passLength_two_pow] at hnode
        rw [hq] at hone htwo ⊢
        exact hnode.transforms_power (Nat.pos_of_ne_zero fun h0 => hone (by rw [h0, pow_zero]))
          (fun h1 => htwo ⟨by rw [h1.1, pow_one], h1.2⟩) schedule _
      · have hpower' : isPowerOfTwo params.frameSize = false := by
          rw [← Bool.not_eq_true, isPowerOfTwo_iff]
          exact hpower
        rw [passLength, hpower', if_neg Bool.false_ne_true] at hnode
        exact hnode.transforms_chirps (fun q hq => hpower ⟨q, hq⟩) h.size le_rfl schedule _
    obtain ⟨g', hrun, hframe, hvalue⟩ := hrun
    refine ⟨g', hrun, fun r hr hne => ?_, params.transforms h hvalue⟩
    rw [hframe r (by omega) hne, StftParameters.dispatchFraming, Function.update_of_ne (by omega)]

end

/-- Frames of three out of a batch of two signals, with a window. -/
def threeSamples : StftNode :=
  ⟨true, [2, 8, 1], 2, some [3], some 3⟩

theorem stft_threeSamples :
    ∃ g', (StftParameters.mk 2 8 2 3 3 2 true true).compute .inOrder 0 1 2 3 countingBuffers =
        some g' ∧
      (∀ r < 3, r ≠ 2 → g'.mem r = countingBuffers.mem r) ∧
      (StftParameters.mk 2 8 2 3 3 2 true true).Transforms (countingBuffers.mem 0)
        (countingBuffers.mem 1) (g'.mem 2) :=
  (stft_iff (show ∀ d ∈ threeSamples.signalDims, d < 2 ^ 32 by decide) (by rfl) (by decide)
    (by rw [show passLength 3 = 3 by decide]; decide) (by decide)).2 (by decide)
    Schedule.inOrder countingBuffers

end AmdGpuEp.DirectML.Dft
