import AmdGpuEp.DirectML.DftKernel

/-!
# Transforms of any length

For a length that is not a power of two the DFT kernel weights the signal with chirps, and runs the
passes three times on a length that is: for the signal, for the mirrored chirps, and back for the
product.

Results:
1. `nextPowerOf2_eq`: where the loop of `NextPowerOf2` ends.
2. `bluestein_iff`: the output holds the transform if and only if the signal is not longer than the
   transform.
-/

namespace AmdGpuEp.DirectML.Dft

/-! ## The length of the passes -/

theorem nextPowerOf2From_eq {input turns q p : ℕ} (hq : q ≤ p) (hturns : p < q + turns)
    (hp : p < 32) (hlower : ∀ j < p, 2 ^ j ≤ input) (hupper : input < 2 ^ p) :
    nextPowerOf2From input turns (2 ^ q) = some (2 ^ p) := by
  induction turns generalizing q with
  | zero => omega
  | succ turns ih =>
    rw [nextPowerOf2From]
    rcases hq.eq_or_lt with rfl | hlt
    · rw [if_neg (by omega)]
    · have hdouble : u32 (2 ^ q * 2) = 2 ^ (q + 1) := by
        rw [← pow_succ, u32_of_lt (Nat.pow_lt_pow_right one_lt_two (by omega))]
      rw [if_pos (hlower q hlt), hdouble]
      exact ih hlt (by omega)

theorem nextPowerOf2_eq {x : ℕ} (hpos : 0 < x) (hx : x ≤ 2 ^ 31) :
    nextPowerOf2 x = some (2 ^ Nat.clog 2 x) := by
  have hless : u32 (x + (2 ^ 32 - 1)) = x - 1 := by
    rw [u32, show x + (2 ^ 32 - 1) = x - 1 + 2 ^ 32 by omega, Nat.add_mod_right,
      Nat.mod_eq_of_lt (by omega)]
  have hclog : Nat.clog 2 x ≤ 31 := Nat.clog_le_of_le_pow hx
  rw [nextPowerOf2, hless]
  refine nextPowerOf2From_eq (q := 0) (Nat.zero_le _) (by omega) (by omega) (fun j hj => ?_) ?_
  · have hlt : ¬ x ≤ 2 ^ j := fun hle => absurd (Nat.clog_le_of_le_pow hle) (by omega)
    omega
  · have hle : x ≤ 2 ^ Nat.clog 2 x := Nat.le_pow_clog one_lt_two x
    omega

/-- The length 0 wraps around, and the loop does not end. -/
theorem nextPowerOf2_wrapped : nextPowerOf2 (2 ^ 32 - 1) = none := by
  decide

/-! ## Chirps -/

theorem rotation_neg (theta : ℝ) : rotation (-theta) = conj (rotation theta) := by
  rw [rotation, Real.cos_neg, Real.sin_neg]
  rfl

theorem calculateZChirp_eq (isInverse : Bool) {N : ℕ} (hN : 0 < N) (n : ℕ) :
    calculateZChirp n N isInverse = chirp (twiddle isInverse) N n := by
  have hN' : (N : ℝ) ≠ 0 := Nat.cast_ne_zero.2 hN.ne'
  change _ = rotation (angle isInverse (n * n) (2 * N))
  rw [calculateZChirp, angle, Nat.cast_mul, Nat.cast_mul, Nat.cast_ofNat]
  congr 1
  field_simp

theorem conj_calculateZChirp (isInverse : Bool) {N : ℕ} (hN : 0 < N) (n : ℕ) :
    conj (calculateZChirp n N isInverse) = chirp (twiddle (!isInverse)) N n := by
  rw [← calculateZChirp_eq _ hN, calculateZChirp, calculateZChirp, ← rotation_neg]
  congr 1
  cases isInverse <;> simp only [Bool.not_true, Bool.not_false, if_true, Bool.false_eq_true,
    if_false] <;> ring

/-- The chirp of the last pass is that of the first shader. -/
theorem calculateChirp_eq (isInverse : Bool) {N : ℕ} (hN : 0 < N) (k : ℕ) :
    calculateChirp k (N * if isInverse then 1 else -1) = chirp (twiddle isInverse) N k := by
  have hN' : (N : ℝ) ≠ 0 := Nat.cast_ne_zero.2 hN.ne'
  rw [← calculateZChirp_eq _ hN, calculateChirp, calculateZChirp]
  cases isInverse with
  | true =>
    simp only [if_true, mul_one, hN', if_false]
    congr 1
    ring
  | false =>
    simp only [Bool.false_eq_true, if_false, mul_neg, mul_one, neg_eq_zero, hN']
    congr 1
    ring

theorem reflectedChirp_eq (isInverse : Bool) {N : ℕ} (hN : 0 < N) (M n : ℕ) :
    reflectedChirp N M isInverse n = mirroredChirp (twiddle (!isInverse)) M N n := by
  rw [reflectedChirp, mirroredChirp, conj_calculateZChirp _ hN, conj_calculateZChirp _ hN]

/-- After the threads `l` of the first shader. -/
structure ChirpsStored (N M : ℕ) (isInverse : Bool) (zChirp b : ℕ) (l : List ℕ)
    (mem mem' : Memory) : Prop where
  chirps : ∀ i, pairAt (mem' zChirp) i =
    if i ∈ l ∧ i < N then chirp (twiddle isInverse) N i else pairAt (mem zChirp) i
  mirrored : ∀ i, pairAt (mem' b) i =
    if i ∈ l then mirroredChirp (twiddle (!isInverse)) M N i else pairAt (mem b) i
  other : ∀ r, r ≠ zChirp → r ≠ b → mem' r = mem r

section

variable {N M zChirp b : ℕ} {isInverse : Bool}

theorem chirpsStored_thread (hN : 0 < N) (hM : nextPowerOf2 (u32 (2 * N + (2 ^ 32 - 1))) = some M)
    (hne : zChirp ≠ b) {i : ℕ} (hi : 2 * i + 1 < 2 ^ 32) (mem : Memory) :
    ChirpsStored N M isInverse zChirp b [i] mem (chirpThread N isInverse zChirp b i mem) := by
  simp only [chirpThread, hM, Option.getD_some, calculateZChirp_eq isInverse hN,
    reflectedChirp_eq isInverse hN]
  refine ⟨fun j => ?_, fun j => ?_, fun r hz hb => ?_⟩
  · rw [Function.update_of_ne hne]
    split
    next hlt =>
      rw [Function.update_self, pairAt_store hi]
      simp only [List.mem_singleton]
      by_cases hj : j = i
      · subst hj
        rw [if_pos rfl, if_pos ⟨rfl, hlt⟩]
      · rw [if_neg hj, if_neg fun h => hj h.1]
    next hge =>
      rw [if_neg]
      rintro ⟨hj, hlt⟩
      exact hge (List.mem_singleton.1 hj ▸ hlt)
  · have hkeep : (if i < N then Function.update mem zChirp
        (store 2 1 i (chirp (twiddle isInverse) N i) (mem zChirp)) else mem) b = mem b := by
      split
      · exact Function.update_of_ne hne.symm _ _
      · rfl
    rw [Function.update_self, hkeep, pairAt_store hi]
    simp only [List.mem_singleton]
    split
    next hj => rw [hj]
    next => rfl
  · rw [Function.update_of_ne hb]
    split
    · exact Function.update_of_ne hz _ _
    · rfl

theorem ChirpsStored.append {l l' : List ℕ} {mem mem' mem'' : Memory}
    (h : ChirpsStored N M isInverse zChirp b l mem mem')
    (h' : ChirpsStored N M isInverse zChirp b l' mem' mem'') :
    ChirpsStored N M isInverse zChirp b (l ++ l') mem mem'' := by
  refine ⟨fun i => ?_, fun i => ?_, fun r hz hb => (h'.other r hz hb).trans (h.other r hz hb)⟩
  · rw [h'.chirps, h.chirps]
    by_cases hi' : i ∈ l' <;> by_cases hi : i ∈ l <;> by_cases hN : i < N <;> simp [hi', hi, hN]
  · rw [h'.mirrored, h.mirrored]
    by_cases hi' : i ∈ l' <;> by_cases hi : i ∈ l <;> simp [hi', hi]

/-- The first shader, whatever the order of its threads. -/
theorem chirpsStored_dispatch (schedule : Schedule) (hN : 0 < N)
    (hM : nextPowerOf2 (u32 (2 * N + (2 ^ 32 - 1))) = some M) (hne : zChirp ≠ b) {count : ℕ}
    (hcount : 2 * count ≤ 2 ^ 32) (g : Gpu) :
    ChirpsStored N M isInverse zChirp b (List.range count) g.mem
      (dispatch schedule count (chirpThread N isInverse zChirp b) g).mem := by
  have hrun (l : List ℕ) (hl : ∀ i ∈ l, i < count) (mem : Memory) :
      ChirpsStored N M isInverse zChirp b l mem
        (l.foldl (fun mem i => chirpThread N isInverse zChirp b i mem) mem) := by
    induction l generalizing mem with
    | nil => exact ⟨by simp, by simp, fun _ _ _ => rfl⟩
    | cons i l ih =>
      have hi : i < count := hl i List.mem_cons_self
      exact (chirpsStored_thread hN hM hne (by omega) mem).append
        (ih (fun j hj => hl j (List.mem_cons_of_mem _ hj)) _)
  have hperm := schedule.perm g.dispatches (threads count)
  rw [threads_eq] at hperm
  obtain ⟨hchirps, hmirrored, hother⟩ :=
    hrun _ (fun i hi => List.mem_range.1 (hperm.mem_iff.1 hi)) g.mem
  rw [dispatch, threads_eq]
  simp only [hperm.mem_iff] at hchirps hmirrored
  exact ⟨hchirps, hmirrored, hother⟩

end

/-! ## The three runs -/

/-- The weighted signal, as the passes for it read it. -/
noncomputable def weighted (isInverse : Bool) (L : ℕ) (x : ℕ → ℂ) (y : ℕ) : ℂ :=
  x y * if y < L then chirp (twiddle isInverse) L y else 1

theorem complexAt_two (buf : ℕ → ℝ) (i : ℕ) : complexAt 2 buf i = pairAt buf i := by
  rw [complexAt, pairAt, if_pos rfl, Nat.mul_comm]

/-- The chirps or their transform as a window. -/
def pairWindow (resource length : ℕ) : WindowDesc :=
  ⟨some resource, ⟨1, 1, length, 2⟩, ⟨u32 (length * 2), u32 (length * 2), 2, 1⟩⟩

theorem pairWindow_pairs {resource length : ℕ} (h : 2 * length < 2 ^ 32) :
    (pairWindow resource length).Pairs :=
  ⟨fun _ => rfl, fun _ => ⟨rfl, rfl⟩, fun _ => h⟩

theorem weight_pairWindow (resource length : ℕ) (mem : Memory) (y : ℕ) :
    weight (pairWindow resource length) mem y =
      if y < length then pairAt (mem resource) y else 1 :=
  rfl

/-- The parameters of the three loops, which have the resources from `next` on for themselves. -/
structure BluesteinPrepared (params : BluesteinZChirpParameters)
    (input output p next before n m after c L : ℕ) : Prop where
  sizes : params.aFFT.sizes.axis = 2 ^ p ∧ params.b.sizes = ⟨1, 1, 2 ^ p, 2⟩ ∧
    params.zChirp.sizes.after = L
  zChirp : params.zChirp.resource = next
  b : params.b.resource = next + 2
  loops : ∃ A I B, A.1 = params.aFFTParams ∧ I.1 = params.aFFTInverseParams ∧
    B.1 = params.bFFTParams ∧
    Prepared A (pairWindow next L) input (next + 1) p (next + 4) before n (2 ^ p) after c ∧
    Prepared I (pairWindow (next + 3) (2 ^ p)) (next + 1) output p A.2 before (2 ^ p) m after 2 ∧
    Prepared B noWindow (next + 2) (next + 3) p I.2 1 (2 ^ p) (2 ^ p) 1 2

section

variable {params : BluesteinZChirpParameters} {input output p next before n m after c L : ℕ}

/-- What the last pass leaves in the output. -/
theorem BluesteinPrepared.run
    (h : BluesteinPrepared params input output p next before n m after c L)
    (hinput : input < next)
    (hfits : before * n * after * c < 2 ^ 32) (hpasses : before * 2 ^ p * after * 2 < 2 ^ 32)
    (hshort : 2 ^ p * 2 < 2 ^ 32) (hL : 0 < L) (hLM : L ≤ 2 ^ p)
    (hM : nextPowerOf2 (u32 (2 * L + (2 ^ 32 - 1))) = some (2 ^ p)) (isInverse : Bool)
    (schedule : Schedule) (g : Gpu) :
    ∃ g', bluesteinZChirp schedule params L isInverse g = some g' ∧
      (∀ r < next, r ≠ output → g'.mem r = g.mem r) ∧
      ∀ x < before, ∀ k < m, ∀ z < after,
        pairAt (g'.mem output) (place m after x k z) =
          ((if isInverse then 1 / (L : ℝ) else 1) / (2 ^ p : ℕ) : ℝ) *
          (∑ j ∈ Finset.range (2 ^ p),
            dft (twiddle false) (2 ^ p) (weighted isInverse L
              (signal n after c (g.mem input) x z)) j *
            dft (twiddle false) (2 ^ p) (mirroredChirp (twiddle (!isInverse)) (2 ^ p) L) j *
            (twiddle true).w (j * k) (2 ^ p)) *
          chirp (twiddle isInverse) L k := by
  obtain ⟨⟨hM', hsizes, hlength⟩, hz, hb, A, I, B, hA', hI', hB', hA, hI, hB⟩ := h
  have hlater := hA.later
  have hlater' := hI.later
  have hcount : params.b.sizes.elementCount / params.b.sizes.complex = 2 ^ p := by
    rw [hsizes, Dims4.elementCount]
    simp only [Nat.one_mul]
    rw [u32_of_lt hshort, Nat.mul_div_cancel _ two_pos]
  -- the chirps
  have hchirp : ChirpsStored L (2 ^ p) isInverse next (next + 2) (List.range (2 ^ p)) g.mem
      (dispatch schedule (2 ^ p) (chirpThread L isInverse next (next + 2)) g).mem :=
    chirpsStored_dispatch schedule hL hM (by omega) (by omega) g
  set g₁ := dispatch schedule (2 ^ p) (chirpThread L isInverse next (next + 2)) g
  -- the transform of the mirrored chirps
  obtain ⟨g₂, hrun₂, hframe₂, hvalue₂⟩ :=
    hB.run (by simpa using hshort) noWindow_pairs schedule false 0 1 g₁
  have hbFFT (j : ℕ) (hj : j < 2 ^ p) : pairAt (g₂.mem (next + 3)) j =
      dft (twiddle false) (2 ^ p) (mirroredChirp (twiddle (!isInverse)) (2 ^ p) L) j := by
    have hvalue := hvalue₂ 0 one_pos j hj 0 one_pos
    simp only [place, Nat.zero_mul, Nat.zero_add, Nat.add_zero, ne_eq,
      not_true_eq_false, if_false, mul_one, Bool.false_eq_true, Complex.ofReal_one, one_mul] at hvalue
    rw [hvalue]
    refine dft_congr _ (fun y hy => ?_) j
    rw [signal, if_pos hy, weight, complexAt_two]
    simp only [place, Nat.zero_mul, Nat.zero_add, Nat.add_zero, noWindow, mul_one]
    rw [hchirp.mirrored, if_pos (List.mem_range.2 hy)]
  -- the transform of the weighted signals
  obtain ⟨g₃, hrun₃, hframe₃, hvalue₃⟩ :=
    hA.run hfits (pairWindow_pairs (by omega)) schedule false 0 1 g₂
  have haFFT (x : ℕ) (hx : x < before) (z : ℕ) (hz : z < after) (j : ℕ) (hj : j < 2 ^ p) :
      pairAt (g₃.mem (next + 1)) (place (2 ^ p) after x j z) = dft (twiddle false) (2 ^ p)
        (weighted isInverse L (signal n after c (g.mem input) x z)) j := by
    have hvalue := hvalue₃ x hx j hj z hz
    simp only [ne_eq, not_true_eq_false, if_false, mul_one, Bool.false_eq_true,
      Complex.ofReal_one, one_mul] at hvalue
    rw [hvalue]
    refine dft_congr _ (fun y hy => ?_) j
    rw [weighted, hframe₂ input (by omega) (.inl (by omega)),
      hchirp.other input (by omega) (by omega), weight_pairWindow]
    refine congrArg _ ?_
    rcases lt_or_ge y L with hyL | hyL
    · rw [if_pos hyL, if_pos hyL, hframe₂ next (by omega) (.inl (by omega)), hchirp.chirps,
        if_pos ⟨List.mem_range.2 hy, hyL⟩]
    · rw [if_neg (not_lt.2 hyL), if_neg (not_lt.2 hyL)]
  -- the product, and back
  obtain ⟨g₄, hrun₄, hframe₄, hvalue₄⟩ :=
    hI.run hpasses (pairWindow_pairs (by omega)) schedule true (L * if isInverse then 1 else -1)
      (if isInverse then 1 / L else 1) g₃
  have hsign : (L * if isInverse then 1 else -1 : ℝ) ≠ 0 := by
    have hL' : (L : ℝ) ≠ 0 := Nat.cast_ne_zero.2 hL.ne'
    cases isInverse <;> simpa using hL'
  refine ⟨g₄, ?_, fun r hr hne => ?_, fun x hx k hk z hz => ?_⟩
  · rw [bluesteinZChirp, hcount, hM', hz, hb, hlength, ← hA', ← hI', ← hB']
    change (stockhamFFT schedule B.1 (2 ^ p) false 0 1 g₁).bind _ = _
    rw [hrun₂]
    change (stockhamFFT schedule A.1 (2 ^ p) false 0 1 g₂).bind _ = _
    rw [hrun₃]
    exact hrun₄
  · rw [hframe₄ r hne (.inl (by omega)), hframe₃ r (by omega) (.inl (by omega)),
      hframe₂ r (by omega) (.inl (by omega)), hchirp.other r (by omega) (by omega)]
  · rw [hvalue₄ x hx k hk z hz, if_pos hsign, if_pos rfl, calculateChirp_eq isInverse hL, dft]
    refine congrArg (· * _) (congrArg _ (Finset.sum_congr rfl fun j hj => ?_))
    have hj := Finset.mem_range.1 hj
    rw [signal, if_pos hj, complexAt_two, haFFT x hx z hz j hj, weight_pairWindow, if_pos hj,
      hframe₃ (next + 3) (by omega) (.inl (by omega)), hbFFT j hj]

end

section

variable {node : DftNode} {outer inner outputDims : List ℕ} {n c L p input output next : ℕ}

theorem DftNode.Fits.bluesteinPrepared
    (h : node.Fits outer n inner c L p outputDims input output next) (hp : 1 < p)
    (hlength : node.outputLength L ≤ 2 ^ p) :
    BluesteinPrepared (prepareBluestein node.isOnesided input
        (tensorDims outer n inner c) output (tensorDims outer (node.outputLength L) inner 2) L
        outer.length (2 ^ p) next)
      input output p next outer.prod n (node.outputLength L) inner.prod c L := by
  obtain ⟨houter, hinner, hn⟩ := h.bounds
  obtain ⟨hne, hinput, houtput⟩ := h.resources
  obtain ⟨hpos, hpos'⟩ := h.positive
  have hpasses : 2 ^ p * 2 < 2 ^ 32 := by
    refine lt_of_le_of_lt ?_ h.passesFit
    exact Nat.mul_le_mul_right _ ((Nat.le_mul_of_pos_left _ hpos).trans
      (Nat.le_mul_of_pos_right _ hpos'))
  have hone : p = 1 → node.isOnesided = false ∧ node.outputLength L = 2 := by omega
  have hbefore : (getReshapedDimensions (tensorDims outer n inner c) outer.length).before =
      outer.prod := by
    rw [tensorDims, getReshapedDimensions_eq]
    exact u32_of_lt houter
  have hafter : (getReshapedDimensions (tensorDims outer n inner c) outer.length).after =
      inner.prod := by
    rw [tensorDims, getReshapedDimensions_eq]
    exact u32_of_lt hinner
  have hin := reshapedSizes_eq outer n inner c hn houter hinner
  have hout := reshapedSizes_eq outer (node.outputLength L) inner 2 (by omega) houter hinner
  have haFFT := reshapedSizes_eq [outer.prod] (2 ^ p) [inner.prod] 2 (by omega)
    (by simpa using houter) (by simpa using hinner)
  have hb := reshapedSizes_eq [1, 1] (2 ^ p) [] 2 (by omega) (by decide) (by decide)
  simp only [List.prod_singleton] at haFFT
  -- the three loops
  obtain ⟨A, hAdef⟩ : ∃ A, A = prepareStockhamFFTParams node.isOnesided input
      (tensorDims outer n inner c) (next + 1) [outer.prod, 2 ^ p, inner.prod, 2] (2 ^ p)
      outer.length 1 (pairWindow next L) (next + 4) := ⟨_, rfl⟩
  obtain ⟨I, hIdef⟩ : ∃ I, I = prepareStockhamFFTParams node.isOnesided (next + 1)
      [outer.prod, 2 ^ p, inner.prod, 2] output (tensorDims outer (node.outputLength L) inner 2)
      (2 ^ p) 1 outer.length (pairWindow (next + 3) (2 ^ p)) A.2 := ⟨_, rfl⟩
  obtain ⟨B, hBdef⟩ : ∃ B, B = prepareStockhamFFTParams node.isOnesided (next + 2)
      [1, 1, 2 ^ p, 2] (next + 3) [1, 1, 2 ^ p, 2] (2 ^ p) 2 2 noWindow I.2 := ⟨_, rfl⟩
  have hA : Prepared A (pairWindow next L) input (next + 1) p (next + 4) outer.prod n (2 ^ p)
      inner.prod c := by
    rw [hAdef]
    refine prepareStockhamFFTParams_spec hin haFFT (by omega) (by omega) le_rfl h.passesFit
      (by omega) (by omega) (by omega) ?_
    rintro w hw
    obtain rfl := Option.some.inj hw
    omega
  have hlater := hA.later
  have hI : Prepared I (pairWindow (next + 3) (2 ^ p)) (next + 1) output p A.2 outer.prod (2 ^ p)
      (node.outputLength L) inner.prod 2 := by
    rw [hIdef]
    refine prepareStockhamFFTParams_spec haFFT hout (by omega) hone hlength h.passesFit (by omega)
      (by omega) (by omega) ?_
    rintro w hw
    obtain rfl := Option.some.inj hw
    omega
  have hlater' := hI.later
  have hB : Prepared B noWindow (next + 2) (next + 3) p I.2 1 (2 ^ p) (2 ^ p) 1 2 := by
    rw [hBdef]
    exact prepareStockhamFFTParams_spec hb hb (by omega) (by omega) le_rfl (by simpa using hpasses)
      (by omega) (by omega) (by omega) fun w hw => absurd hw.symm (Option.some_ne_none w)
  have hparams : prepareBluestein node.isOnesided input (tensorDims outer n inner c) output
      (tensorDims outer (node.outputLength L) inner 2) L outer.length (2 ^ p) next =
      { zChirp := ⟨next, ⟨1, 1, L, 2⟩, (pairWindow next L).strides⟩
        aFFT := ⟨next + 1, ⟨outer.prod, 2 ^ p, inner.prod, 2⟩,
          Dims4.packedStrides ⟨outer.prod, 2 ^ p, inner.prod, 2⟩⟩
        b := ⟨next + 2, ⟨1, 1, 2 ^ p, 2⟩, (pairWindow (next + 3) (2 ^ p)).strides⟩
        bFFT := ⟨next + 3, ⟨1, 1, 2 ^ p, 2⟩, (pairWindow (next + 3) (2 ^ p)).strides⟩
        aFFTParams := A.1
        aFFTInverseParams := I.1
        bFFTParams := B.1 } := by
    simp only [prepareBluestein, hbefore, hafter, Dims4.toList, pairWindow, hAdef, hIdef, hBdef]
  rw [hparams]
  exact ⟨⟨rfl, rfl, rfl⟩, rfl, rfl, A, I, B, rfl, rfl, rfl, hA, hI, hB⟩

/-! ## The whole kernel -/

theorem not_isPowerOfTwo (hL : ∀ q, L ≠ 2 ^ q) : isPowerOfTwo L = false := by
  rw [← Bool.not_eq_true, isPowerOfTwo_iff]
  rintro ⟨q, hq⟩
  exact hL q hq

/-- The node runs the three loops. -/
theorem DftNode.Fits.chirp_run (hL : ∀ q, L ≠ 2 ^ q) (hpos : 0 < L)
    (hp : p = Nat.clog 2 (2 * L - 1))
    (h : node.Fits outer n inner c L p outputDims input output next) (schedule : Schedule)
    (g : Gpu) :
    ∃ g', node.compute schedule input (tensorDims outer n inner c) output outputDims next g =
        some g' ∧
      (∀ r < next, r ≠ output → g'.mem r = g.mem r) ∧
      ∀ x < outer.prod, ∀ k < node.outputLength L, ∀ z < inner.prod,
        pairAt (g'.mem output) (place (node.outputLength L) inner.prod x k z) =
          ((if node.isInverse then 1 / (L : ℝ) else 1) / (2 ^ p : ℕ) : ℝ) *
          (∑ j ∈ Finset.range (2 ^ p),
            dft (twiddle false) (2 ^ p) (weighted node.isInverse L
              (signal n inner.prod c (g.mem input) x z)) j *
            dft (twiddle false) (2 ^ p) (mirroredChirp (twiddle (!node.isInverse)) (2 ^ p) L) j *
            (twiddle true).w (j * k) (2 ^ p)) *
          chirp (twiddle node.isInverse) L k := by
  have hle : 2 * L - 1 ≤ 2 ^ p := hp ▸ Nat.le_pow_clog one_lt_two _
  obtain ⟨-, hinput, -⟩ := h.resources
  obtain ⟨houter, hinner⟩ := h.positive
  have hshort : 2 ^ p * 2 < 2 ^ 32 := by
    refine lt_of_le_of_lt ?_ h.passesFit
    exact Nat.mul_le_mul_right _ ((Nat.le_mul_of_pos_left _ houter).trans
      (Nat.le_mul_of_pos_right _ hinner))
  have hthree : 3 ≤ L := by
    have hone := hL 0
    have htwo := hL 1
    omega
  have hlarge : 1 < p := hp ▸ (Nat.lt_clog_iff_pow_lt one_lt_two).2 (by omega)
  have hlength : node.outputLength L ≤ 2 ^ p := by
    rw [DftNode.outputLength]
    split <;> omega
  have hwrap : u32 (2 * L + (2 ^ 32 - 1)) = 2 * L - 1 := by
    rw [u32, show 2 * L + (2 ^ 32 - 1) = 2 * L - 1 + 2 ^ 32 by omega, Nat.add_mod_right,
      Nat.mod_eq_of_lt (by omega)]
  have hM : nextPowerOf2 (u32 (2 * L + (2 ^ 32 - 1))) = some (2 ^ p) := by
    rw [hwrap, nextPowerOf2_eq (by omega) (by omega), hp]
  rw [h.compute_eq]
  simp only [Dft.compute, prepareDFT, not_isPowerOfTwo hL, Bool.false_eq_true, if_false,
    Option.bind_eq_bind, Option.bind_some, hM]
  exact (h.bluesteinPrepared hlarge hlength).run hinput h.inputFits h.passesFit hshort hpos
    (by omega) hM node.isInverse schedule g

/-- A signal with one entry, the first beyond the length of the transform. -/
noncomputable def overhang (n after c : ℕ) (L : ℕ) (i : ℕ) : ℝ :=
  if i = place n after 0 L 0 * c then 1 else 0

theorem signal_overhang {after : ℕ} (hc : c = 1 ∨ c = 2) (hafter : 0 < after) (hLn : L < n) (y : ℕ) :
    signal n after c (overhang n after c L) 0 0 y = if y = L then 1 else 0 := by
  have hplace (y : ℕ) : place n after 0 y 0 = y * after := by
    rw [place, Nat.zero_mul, Nat.zero_add, Nat.add_zero]
  have hcancel : y * after * c = L * after * c ↔ y = L := by
    rw [Nat.mul_assoc, Nat.mul_assoc]
    refine Nat.mul_left_inj (Nat.mul_ne_zero hafter.ne' ?_)
    rcases hc with rfl | rfl <;> decide
  rw [signal, complexAt]
  simp only [overhang, hplace, hcancel]
  split
  next hy =>
    refine Complex.ext ?_ ?_
    · split <;> simp
    · have hzero : (if c = 2 then (if y * after * c + 1 = L * after * c then (1 : ℝ) else 0) else 0) =
          0 := by
        split
        next htwo =>
          subst htwo
          exact if_neg (by omega)
        next => rfl
      rw [hzero]
      split <;> simp
  next hy => rw [if_neg (by omega)]

/-- The entry beyond the length is not weighted, and the passes carry it around to the output. -/
theorem spilled_ne_zero (isInverse : Bool) (hpos : 1 < L) (hL : L < 2 ^ p)
    (hLp : 2 * L ≤ 2 ^ p + 1) {a : ℕ → ℂ} (ha : ∀ y, a y = if y = L then 1 else 0) :
    ∑ j ∈ Finset.range (2 ^ p), dft (twiddle false) (2 ^ p) a j *
      dft (twiddle false) (2 ^ p) (mirroredChirp (twiddle (!isInverse)) (2 ^ p) L) j *
      (twiddle true).w (j * 1) (2 ^ p) ≠ 0 := by
  have hconvolved := sum_dft_mul_dft (twiddle_inverse false) a
    (mirroredChirp (twiddle (!isInverse)) (2 ^ p) L) (p := p) (k := 1) (by omega)
  simp only [Bool.not_false] at hconvolved
  simp only [hconvolved, ha, ite_mul, one_mul, zero_mul, Finset.sum_ite_eq', Finset.mem_range, hL,
    if_true]
  have hplace : (1 + (2 ^ p - L)) % 2 ^ p = 2 ^ p - L + 1 := by
    rw [Nat.add_comm, Nat.mod_eq_of_lt (by omega)]
  rw [hplace, mirroredChirp, if_neg (by omega), if_pos (by omega)]
  refine mul_ne_zero (pow_ne_zero _ two_ne_zero) ?_
  exact left_ne_zero_of_mul_eq_one (chirp_mul_inverse (twiddle_inverse _) _ _)

/-- A signal that is not longer than the transform is weighted as a whole. -/
theorem DftNode.Fits.transforms_chirps (hL : ∀ q, L ≠ 2 ^ q) (hpos : 0 < L) (hLn : n ≤ L)
    (h : node.Fits outer n inner c L (Nat.clog 2 (2 * L - 1)) outputDims input output next)
    (schedule : Schedule) (g : Gpu) :
    ∃ g', node.compute schedule input (tensorDims outer n inner c) output outputDims next g =
        some g' ∧
      (∀ r < next, r ≠ output → g'.mem r = g.mem r) ∧
      node.Transforms outer n inner c L (g.mem input) (g'.mem output) := by
  have hle : 2 * L - 1 ≤ 2 ^ Nat.clog 2 (2 * L - 1) := Nat.le_pow_clog one_lt_two _
  obtain ⟨g', hrun, hframe, hvalue⟩ := h.chirp_run hL hpos rfl schedule g
  refine ⟨g', hrun, hframe, fun x hx k hk z hz => ?_⟩
  have hkL : k < L := by
    rw [DftNode.outputLength] at hk
    have htwo := hL 1
    have hone := hL 0
    split at hk <;> omega
  have hM : ((2 ^ Nat.clog 2 (2 * L - 1) : ℕ) : ℂ) ≠ 0 :=
    Nat.cast_ne_zero.2 (Nat.two_pow_pos _).ne'
  have hweighted (y : ℕ) : weighted node.isInverse L (signal n inner.prod c (g.mem input) x z) y =
      if y < L then signal n inner.prod c (g.mem input) x z y * chirp (twiddle node.isInverse) L y
      else 0 := by
    rw [weighted]
    split
    next => rfl
    next hy => rw [signal, if_neg (by omega), zero_mul]
  have hconvolved := bluestein (twiddle_inverse false) (twiddle_inverse node.isInverse)
    (p := Nat.clog 2 (2 * L - 1)) (N := L) (by omega) (fun y _ => hweighted y) hkL
  rw [hvalue x hx k hk z hz, mul_assoc, mul_comm _ (chirp _ _ _)]
  simp only [Bool.not_false] at hconvolved
  rw [hconvolved, Complex.ofReal_div, Complex.ofReal_natCast]
  rw [Nat.cast_pow, Nat.cast_ofNat] at hM ⊢
  rw [div_mul_eq_mul_div, mul_left_comm, mul_div_cancel_left₀ _ hM]

/-- A node whose length is not a power of two computes the transform, for any order of the threads
and any contents of the memory, if and only if the signal is not longer than the transform. -/
theorem bluestein_iff (hL : ∀ q, L ≠ 2 ^ q)
    (h : node.Fits outer n inner c L (Nat.clog 2 (2 * L - 1)) outputDims input output next) :
    (∀ schedule g, ∃ g',
      node.compute schedule input (tensorDims outer n inner c) output outputDims next g = some g' ∧
        (∀ r < next, r ≠ output → g'.mem r = g.mem r) ∧
        node.Transforms outer n inner c L (g.mem input) (g'.mem output)) ↔
      0 < L ∧ n ≤ L := by
  have hle : 2 * L - 1 ≤ 2 ^ Nat.clog 2 (2 * L - 1) := Nat.le_pow_clog one_lt_two _
  constructor
  · intro hall
    have hpos : 0 < L := by
      rw [Nat.pos_iff_ne_zero]
      rintro rfl
      obtain ⟨g', hrun, -⟩ := hall .inOrder ⟨fun _ _ => 0, 0⟩
      rw [h.compute_eq] at hrun
      simp only [Dft.compute, prepareDFT, not_isPowerOfTwo hL, Bool.false_eq_true, if_false] at hrun
      rw [show u32 (2 * 0 + (2 ^ 32 - 1)) = 2 ^ 32 - 1 from rfl, nextPowerOf2_wrapped] at hrun
      exact absurd hrun (by simp)
    refine ⟨hpos, ?_⟩
    by_contra hLn
    obtain ⟨houter, hinner⟩ := h.positive
    let g : Gpu := ⟨fun _ => overhang n inner.prod c L, 0⟩
    obtain ⟨g', hrun, -, hvalue⟩ := hall .inOrder g
    obtain ⟨g'', hrun', -, hvalue'⟩ := h.chirp_run hL hpos rfl .inOrder g
    obtain rfl := Option.some.inj (hrun.symm.trans hrun')
    have hone : 1 < node.outputLength L := by
      have hpower := hL 0
      have hpower' := hL 1
      rw [DftNode.outputLength]
      split <;> omega
    have hlost : dft (twiddle node.isInverse) L (signal n inner.prod c (g.mem input) 0 0) 1 = 0 := by
      refine Finset.sum_eq_zero fun y hy => ?_
      have hy := Finset.mem_range.1 hy
      rw [signal_overhang h.complex hinner (by omega), if_neg hy.ne, zero_mul]
    have hweighted (y : ℕ) : weighted node.isInverse L (signal n inner.prod c (g.mem input) 0 0) y =
        if y = L then 1 else 0 := by
      rw [weighted, signal_overhang h.complex hinner (by omega)]
      split
      next hy => rw [if_neg (by omega), mul_one]
      next => rw [zero_mul]
    have hspilled := spilled_ne_zero node.isInverse
      (show 1 < L from lt_of_le_of_ne hpos (hL 0).symm)
      (lt_of_le_of_ne (by omega) (hL (Nat.clog 2 (2 * L - 1)))) (by omega) hweighted
    have hscale : ((if node.isInverse then 1 / (L : ℝ) else 1) /
        (2 ^ Nat.clog 2 (2 * L - 1) : ℕ) : ℝ) ≠ 0 := by
      refine div_ne_zero ?_ (Nat.cast_ne_zero.2 (Nat.two_pow_pos _).ne')
      split
      · exact one_div_ne_zero (Nat.cast_ne_zero.2 hpos.ne')
      · exact one_ne_zero
    have hchirp : chirp (twiddle node.isInverse) L 1 ≠ 0 :=
      left_ne_zero_of_mul_eq_one (chirp_mul_inverse (twiddle_inverse node.isInverse) L 1)
    have hexpected := hvalue 0 houter 1 hone 0 hinner
    rw [hlost, mul_zero, hvalue' 0 houter 1 hone 0 hinner] at hexpected
    exact mul_ne_zero (mul_ne_zero (Complex.ofReal_ne_zero.2 hscale) hspilled) hchirp hexpected
  · rintro ⟨hpos, hLn⟩ schedule g
    exact h.transforms_chirps hL hpos hLn schedule g

end

/-- The first half of the transforms of five complex numbers, filled up to six. -/
def sixPoints : DftNode :=
  ⟨true, false, 0, some 6⟩

theorem sixPoints_fits :
    sixPoints.Fits [] 5 [2] 2 6 (Nat.clog 2 (2 * 6 - 1)) [4, 2, 2] 0 1 2 where
  axis := by decide
  length := by decide
  shape := by decide
  positive := by decide
  complex := by decide
  inputFits := by decide
  passesFit := by rw [show Nat.clog 2 (2 * 6 - 1) = 4 by decide]; decide
  resources := by decide

theorem bluestein_sixPoints :
    ∃ g', sixPoints.compute .inOrder 0 [5, 2, 2] 1 [4, 2, 2] 2 countingBuffers = some g' ∧
      (∀ r < 2, r ≠ 1 → g'.mem r = countingBuffers.mem r) ∧
      sixPoints.Transforms [] 5 [2] 2 6 (countingBuffers.mem 0) (g'.mem 1) :=
  (bluestein_iff (fun q hq => by
    have hlt : q < 3 := (Nat.pow_lt_pow_iff_right one_lt_two).1 (by omega)
    interval_cases q <;> omega) sixPoints_fits).2 (by decide) Schedule.inOrder countingBuffers

end AmdGpuEp.DirectML.Dft
