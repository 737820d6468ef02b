import Mathlib.Algebra.BigOperators.Intervals
import Mathlib.Algebra.BigOperators.Ring.Finset
import Mathlib.Algebra.Ring.Parity
import Mathlib.Tactic.Abel
import Mathlib.Tactic.IntervalCases
import Mathlib.Tactic.Ring

/-!
# Discrete Fourier transforms over a commutative ring

The roots of unity of all orders are one family, so that a root of order `N` is
the square of one of order `2 * N`. Nothing but that is asked of the ring.

Results:
1. `passes_eq_dft`: passes that each combine the entries of index `e` and
   `e + L / 2` compute the transform of a length `L = 2 ^ p` in order.
2. `sum_w_eq_zero`: the powers of a root of order `2 ^ p` sum to zero.
3. `sum_dft_mul_dft`: the product of two transforms, transformed back, is the
   circular convolution.
4. `bluestein`: a transform of any length as a circular convolution of a length
   `2 ^ p`.
-/

namespace AmdGpuEp

open Finset

/-- Roots of unity of every order: `w a N` is the power `a` of a root of order `N`. -/
structure Twiddle (R : Type*) [CommRing R] where
  w : ℕ → ℕ → R
  zero : ∀ N, w 0 N = 1
  add : ∀ a b N, w (a + b) N = w a N * w b N
  scale : ∀ {c : ℕ} (a N : ℕ), 0 < c → w (c * a) (c * N) = w a N
  half : ∀ {N : ℕ}, 0 < N → w N (2 * N) = -1

namespace Twiddle

variable {R : Type*} [CommRing R] (T : Twiddle R)

/-- The other direction of rotation. -/
def Inverse (T T' : Twiddle R) : Prop :=
  ∀ a N, T.w a N * T'.w a N = 1

theorem w_self {N : ℕ} (h : 0 < N) : T.w N N = 1 := by
  have hsq : T.w (2 * N) (2 * N) = T.w N (2 * N) * T.w N (2 * N) := by
    rw [Nat.two_mul, T.add]
  rw [T.scale _ _ two_pos, T.half h] at hsq
  rw [hsq]
  ring

theorem w_mul_self {N : ℕ} (h : 0 < N) (a : ℕ) : T.w (a * N) N = 1 := by
  induction a with
  | zero => rw [Nat.zero_mul, T.zero]
  | succ a ih => rw [Nat.succ_mul, T.add, ih, T.w_self h, one_mul]

theorem w_add_mul {N : ℕ} (h : 0 < N) (a b : ℕ) : T.w (a + b * N) N = T.w a N := by
  rw [T.add, T.w_mul_self h, mul_one]

theorem w_mod {N : ℕ} (h : 0 < N) (a : ℕ) : T.w (a % N) N = T.w a N := by
  conv_rhs => rw [← Nat.mod_add_div a N, Nat.mul_comm N]
  exact (T.w_add_mul h _ _).symm

theorem w_mul_mod {N : ℕ} (h : 0 < N) (a b : ℕ) : T.w (a * (b % N)) N = T.w (a * b) N := by
  rw [← T.w_mod h (a * (b % N)), ← T.w_mod h (a * b), Nat.mul_mod_mod]

end Twiddle

section

variable {R : Type*} [CommRing R] (T : Twiddle R)

/-- The transform of the first `N` entries. -/
def dft (N : ℕ) (x : ℕ → R) (k : ℕ) : R :=
  ∑ n ∈ range N, x n * T.w (n * k) N

theorem dft_congr {N : ℕ} {x y : ℕ → R} (h : ∀ n < N, x n = y n) (k : ℕ) :
    dft T N x k = dft T N y k :=
  sum_congr rfl fun n hn => by rw [h n (mem_range.1 hn)]

theorem sum_range_even_odd {M : Type*} [AddCommMonoid M] (f : ℕ → M) (m : ℕ) :
    ∑ n ∈ range (2 * m), f n = ∑ n ∈ range m, f (2 * n) + ∑ n ∈ range m, f (2 * n + 1) := by
  induction m with
  | zero => simp
  | succ m ih =>
    rw [Nat.mul_succ, sum_range_succ, sum_range_succ, ih, sum_range_succ, sum_range_succ]
    abel

/-! ## Passes over a length that is a power of two -/

/-- The place of the first entry that pass `i` combines for the place `y`. -/
def evenPlace (i y : ℕ) : ℕ :=
  y / 2 ^ (i + 1) * 2 ^ i + y % 2 ^ i

/-- One pass, the first of index 0. -/
def fourierPass (L i : ℕ) (x : ℕ → R) (y : ℕ) : R :=
  x (evenPlace i y) + T.w (y % 2 ^ (i + 1)) (2 ^ (i + 1)) * x (evenPlace i y + L / 2)

/-- What is reached before pass `i`: transforms of length `2 ^ i` of the entries
that lie `L / 2 ^ i` apart, interleaved. -/
def partialDft (L i : ℕ) (x : ℕ → R) (y : ℕ) : R :=
  ∑ n ∈ range (2 ^ i), x (y / 2 ^ i + n * (L / 2 ^ i)) * T.w (n * (y % 2 ^ i)) (2 ^ i)

theorem partialDft_zero (L : ℕ) (x : ℕ → R) (y : ℕ) : partialDft T L 0 x y = x y := by
  simp [partialDft, T.zero]

theorem evenPlace_lt {p i y : ℕ} (hi : i < p) (hy : y < 2 ^ p) :
    evenPlace i y + 2 ^ p / 2 < 2 ^ p := by
  obtain ⟨m, rfl⟩ : ∃ m, p = i + 1 + m := ⟨p - (i + 1), by omega⟩
  have hhalf : 2 ^ (i + 1 + m) / 2 = 2 ^ i * 2 ^ m := by
    rw [← pow_add, show i + 1 + m = (i + m) + 1 by omega, pow_succ, Nat.mul_div_cancel _ two_pos]
  have hwhole : 2 ^ (i + 1 + m) = 2 ^ i * 2 ^ m * 2 := by
    rw [pow_add, pow_add, pow_one]
    ring
  have hq : y / 2 ^ (i + 1) < 2 ^ m := by
    rw [Nat.div_lt_iff_lt_mul (Nat.two_pow_pos _)]
    rwa [pow_add, mul_comm] at hy
  have hr : y % 2 ^ i < 2 ^ i := Nat.mod_lt _ (Nat.two_pow_pos _)
  have hle : (y / 2 ^ (i + 1) + 1) * 2 ^ i ≤ 2 ^ m * 2 ^ i := Nat.mul_le_mul_right _ hq
  rw [evenPlace, hhalf, hwhole, mul_comm (2 ^ i) (2 ^ m)]
  rw [Nat.succ_mul] at hle
  omega

private theorem evenPlace_div (i y : ℕ) : evenPlace i y / 2 ^ i = y / 2 ^ (i + 1) := by
  have hpos : 0 < 2 ^ i := Nat.two_pow_pos i
  rw [evenPlace, mul_comm, Nat.mul_add_div hpos, Nat.div_eq_of_lt (Nat.mod_lt _ hpos), add_zero]

private theorem evenPlace_mod (i y : ℕ) : evenPlace i y % 2 ^ i = y % 2 ^ i := by
  rw [evenPlace, mul_comm, Nat.mul_add_mod, Nat.mod_mod]

/-- The transform at an even place of the entries twice as dense. -/
private theorem w_even (i n k : ℕ) :
    T.w (2 * n * (k % 2 ^ (i + 1))) (2 ^ (i + 1)) = T.w (n * (k % 2 ^ i)) (2 ^ i) := by
  have hpos : 0 < 2 ^ i := Nat.two_pow_pos i
  have hpos' : 0 < 2 ^ (i + 1) := Nat.two_pow_pos _
  rw [T.w_mul_mod hpos', T.w_mul_mod hpos, pow_succ, mul_comm (2 ^ i), mul_assoc,
    T.scale _ _ two_pos]

/-- Pass `i` doubles the length of the interleaved transforms. -/
theorem fourierPass_partialDft {p i : ℕ} (hi : i < p) (x : ℕ → R) (y : ℕ) :
    fourierPass T (2 ^ p) i (partialDft T (2 ^ p) i x) y = partialDft T (2 ^ p) (i + 1) x y := by
  obtain ⟨m, rfl⟩ : ∃ m, p = i + 1 + m := ⟨p - (i + 1), by omega⟩
  have hhalf : 2 ^ (i + 1 + m) / 2 = 2 ^ i * 2 ^ m := by
    rw [← pow_add, show i + 1 + m = (i + m) + 1 by omega, pow_succ, Nat.mul_div_cancel _ two_pos]
  have hstep : 2 ^ (i + 1 + m) / 2 ^ i = 2 * 2 ^ m := by
    rw [show i + 1 + m = i + (m + 1) by omega, pow_add, Nat.mul_div_cancel_left _ (Nat.two_pow_pos _),
      pow_succ, mul_comm]
  have hstep' : 2 ^ (i + 1 + m) / 2 ^ (i + 1) = 2 ^ m := by
    rw [pow_add, Nat.mul_div_cancel_left _ (Nat.two_pow_pos _)]
  have hoddDiv : (evenPlace i y + 2 ^ i * 2 ^ m) / 2 ^ i = y / 2 ^ (i + 1) + 2 ^ m := by
    rw [Nat.add_mul_div_left _ _ (Nat.two_pow_pos _), evenPlace_div]
  have hoddMod : (evenPlace i y + 2 ^ i * 2 ^ m) % 2 ^ i = y % 2 ^ i := by
    rw [Nat.add_mul_mod_self_left, evenPlace_mod]
  rw [fourierPass, partialDft, partialDft, partialDft, hhalf, hstep, hstep', evenPlace_div,
    evenPlace_mod, hoddDiv, hoddMod, show 2 ^ (i + 1) = 2 * 2 ^ i from pow_succ' 2 i,
    sum_range_even_odd, mul_sum, ← pow_succ' 2 i]
  congr 1
  · refine sum_congr rfl fun n _ => ?_
    rw [w_even, mul_assoc, Nat.mul_left_comm]
  · refine sum_congr rfl fun n _ => ?_
    rw [Nat.add_mul (2 * n) 1 (y % 2 ^ (i + 1)), T.add, w_even, one_mul, Nat.add_mul, one_mul,
      Nat.add_assoc, Nat.add_comm (2 ^ m), Nat.mul_assoc 2 n, Nat.mul_left_comm]
    ring

/-- Passes that agree with `fourierPass` below the length compute the transform. -/
theorem passes_eq_dft {p : ℕ} {buf : ℕ → ℕ → R}
    (hpass : ∀ i < p, ∀ y < 2 ^ p, buf (i + 1) y = fourierPass T (2 ^ p) i (buf i) y)
    {k : ℕ} (hk : k < 2 ^ p) : buf p k = dft T (2 ^ p) (buf 0) k := by
  have hrun : ∀ i ≤ p, ∀ y < 2 ^ p, buf i y = partialDft T (2 ^ p) i (buf 0) y := by
    intro i
    induction i with
    | zero => exact fun _ y _ => (partialDft_zero T _ _ y).symm
    | succ i ih =>
      intro hi y hy
      have hplace : evenPlace i y + 2 ^ p / 2 < 2 ^ p := evenPlace_lt hi hy
      rw [hpass i hi y hy, ← fourierPass_partialDft T hi, fourierPass, fourierPass,
        ih (by omega) _ hplace, ih (by omega) _ (by omega)]
  rw [hrun p le_rfl k hk, partialDft, dft]
  refine sum_congr rfl fun n _ => ?_
  rw [Nat.div_eq_of_lt hk, Nat.mod_eq_of_lt hk, Nat.div_self (Nat.two_pow_pos p), zero_add, mul_one]

/-! ## Convolution -/

theorem w_half_mul (p d : ℕ) : T.w (2 ^ p * d) (2 ^ (p + 1)) = (-1) ^ d := by
  induction d with
  | zero => rw [Nat.mul_zero, T.zero, pow_zero]
  | succ d ih =>
    rw [Nat.mul_succ, T.add, ih, pow_succ' 2 p, T.half (Nat.two_pow_pos p), pow_succ]

/-- The powers of a root of unity of order `2 ^ p` cancel out. -/
theorem sum_w_eq_zero {p d : ℕ} (h : ¬ 2 ^ p ∣ d) :
    ∑ k ∈ range (2 ^ p), T.w (k * d) (2 ^ p) = 0 := by
  induction p generalizing d with
  | zero => exact absurd (one_dvd d) h
  | succ p ih =>
    rw [show 2 ^ (p + 1) = 2 ^ p + 2 ^ p by rw [pow_succ]; omega, sum_range_add, ← Nat.two_mul,
      ← pow_succ']
    rcases Nat.even_or_odd' d with ⟨e, rfl | rfl⟩
    · have hdvd : ¬ 2 ^ p ∣ e := by
        rw [pow_succ'] at h
        exact fun he => h (Nat.mul_dvd_mul_left 2 he)
      have hfold (k : ℕ) : T.w (k * (2 * e)) (2 ^ (p + 1)) = T.w (k * e) (2 ^ p) := by
        rw [pow_succ', Nat.mul_left_comm, T.scale _ _ two_pos]
      have hshift (k : ℕ) : T.w ((2 ^ p + k) * e) (2 ^ p) = T.w (k * e) (2 ^ p) := by
        rw [Nat.add_mul, Nat.add_comm, Nat.mul_comm (2 ^ p), T.w_add_mul (Nat.two_pow_pos p)]
      simp only [hfold, hshift, ih hdvd, add_zero]
    · rw [← sum_add_distrib]
      refine sum_eq_zero fun k _ => ?_
      rw [Nat.add_mul (2 ^ p) k, T.add, w_half_mul, Odd.neg_one_pow ⟨e, rfl⟩, neg_one_mul,
        add_neg_cancel]

/-- The transform of the other direction, read at `k`, is the one at `M - k`. -/
theorem Twiddle.Inverse.w_eq {T T' : Twiddle R} (h : T.Inverse T') {M k : ℕ} (hM : 0 < M)
    (hk : k ≤ M) (j : ℕ) : T'.w (j * k) M = T.w (j * (M - k)) M := by
  have hone : T.w (j * k) M * T.w (j * (M - k)) M = 1 := by
    rw [← T.add, ← Nat.mul_add, Nat.add_sub_cancel' hk, T.w_mul_self hM]
  calc T'.w (j * k) M = T.w (j * k) M * T.w (j * (M - k)) M * T'.w (j * k) M := by rw [hone, one_mul]
    _ = T.w (j * k) M * T'.w (j * k) M * T.w (j * (M - k)) M := by ring
    _ = T.w (j * (M - k)) M := by rw [h, one_mul]

theorem dvd_wrapped_iff {M n m k : ℕ} (hn : n < M) (hm : m < M) (hk : k < M) :
    M ∣ n + m + (M - k) ↔ m = (k + (M - n)) % M := by
  have hM : 0 < M := by omega
  rcases le_or_gt n k with hle | hlt
  · rw [show k + (M - n) = k - n + M by omega, Nat.add_mod_right, Nat.mod_eq_of_lt (by omega)]
    constructor
    · rintro ⟨c, hc⟩
      have hlo : M * c < M * 3 := by omega
      have hc3 : c < 3 := Nat.lt_of_mul_lt_mul_left hlo
      interval_cases c <;> omega
    · rintro rfl
      exact ⟨1, by omega⟩
  · rw [Nat.mod_eq_of_lt (by omega)]
    constructor
    · rintro ⟨c, hc⟩
      have hlo : M * c < M * 3 := by omega
      have hc3 : c < 3 := Nat.lt_of_mul_lt_mul_left hlo
      interval_cases c <;> omega
    · rintro rfl
      exact ⟨2, by omega⟩

/-- The product of two transforms, transformed back. -/
theorem sum_dft_mul_dft {T T' : Twiddle R} (h : T.Inverse T') {p : ℕ} (a b : ℕ → R) {k : ℕ}
    (hk : k < 2 ^ p) :
    ∑ j ∈ range (2 ^ p), dft T (2 ^ p) a j * dft T (2 ^ p) b j * T'.w (j * k) (2 ^ p) =
      2 ^ p * ∑ n ∈ range (2 ^ p), a n * b ((k + (2 ^ p - n)) % 2 ^ p) := by
  have hM : 0 < 2 ^ p := Nat.two_pow_pos p
  have hterm (j : ℕ) :
      dft T (2 ^ p) a j * dft T (2 ^ p) b j * T'.w (j * k) (2 ^ p) =
        ∑ n ∈ range (2 ^ p), ∑ m ∈ range (2 ^ p),
          a n * b m * T.w (j * (n + m + (2 ^ p - k))) (2 ^ p) := by
    rw [dft, dft, sum_mul_sum, sum_mul]
    refine sum_congr rfl fun n _ => ?_
    rw [sum_mul]
    refine sum_congr rfl fun m _ => ?_
    rw [h.w_eq hM hk.le, Nat.mul_add, Nat.mul_add, T.add, T.add, Nat.mul_comm n, Nat.mul_comm m]
    ring
  simp only [hterm]
  rw [sum_comm, mul_sum]
  refine sum_congr rfl fun n hn => ?_
  rw [sum_comm]
  have hkn : (k + (2 ^ p - n)) % 2 ^ p < 2 ^ p := Nat.mod_lt _ hM
  rw [sum_eq_single_of_mem _ (mem_range.2 hkn)]
  · have hone (j : ℕ) :
        T.w (j * (n + (k + (2 ^ p - n)) % 2 ^ p + (2 ^ p - k))) (2 ^ p) = 1 := by
      obtain ⟨c, hc⟩ := (dvd_wrapped_iff (mem_range.1 hn) hkn hk).2 rfl
      rw [hc, Nat.mul_left_comm, Nat.mul_comm, T.w_mul_self hM]
    simp only [hone, mul_one, sum_const, card_range, nsmul_eq_mul, Nat.cast_pow, Nat.cast_ofNat]
  · intro m hm hne
    rw [← mul_sum, sum_w_eq_zero T, mul_zero]
    rwa [dvd_wrapped_iff (mem_range.1 hn) (mem_range.1 hm) hk]

/-! ## Transforms of any length -/

/-- The weight of entry `n`, a root of order `2 * N`. -/
def chirp (N n : ℕ) : R :=
  T.w (n * n) (2 * N)

theorem chirp_mul_inverse {T T' : Twiddle R} (h : T.Inverse T') (N n : ℕ) :
    chirp T N n * chirp T' N n = 1 :=
  h _ _

/-- The circular sequence of the weights of the other direction. -/
def mirroredChirp (M N n : ℕ) : R :=
  if n < N then chirp T N n
  else if M - N + 1 ≤ n ∧ n < M then chirp T N (M - n)
  else 0

/-- `n * k` is half of `n * n + k * k - (n - k) * (n - k)`. -/
theorem w_eq_chirps {T T' : Twiddle R} (h : T.Inverse T') (N n k : ℕ) :
    T.w (n * k) N =
      chirp T N n * chirp T N k * chirp T' N (if n ≤ k then k - n else n - k) := by
  set d := if n ≤ k then k - n else n - k with hd
  have hsq : n * n + k * k = 2 * (n * k) + d * d := by
    rcases le_or_gt n k with hle | hlt
    · obtain ⟨e, rfl⟩ := Nat.exists_eq_add_of_le hle
      rw [if_pos hle, Nat.add_sub_cancel_left] at hd
      rw [hd]
      ring
    · obtain ⟨e, rfl⟩ := Nat.exists_eq_add_of_lt hlt
      rw [if_neg (by omega), show k + e + 1 - k = e + 1 by omega] at hd
      rw [hd]
      ring
  have hprod : chirp T N n * chirp T N k = T.w (n * k) N * chirp T N d := by
    rw [chirp, chirp, chirp, ← T.add, hsq, T.add, T.scale _ _ two_pos]
  rw [hprod, mul_assoc, chirp_mul_inverse h, mul_one]

/-- A transform of length `N` through two of a length `M = 2 ^ p` and one back. -/
theorem bluestein {F F' T T' : Twiddle R} (hF : F.Inverse F') (hT : T.Inverse T') {p N : ℕ}
    (hM : 2 * N ≤ 2 ^ p + 1) {a : ℕ → R} {x : ℕ → R}
    (ha : ∀ n < 2 ^ p, a n = if n < N then x n * chirp T N n else 0) {k : ℕ} (hk : k < N) :
    chirp T N k * ∑ j ∈ range (2 ^ p), dft F (2 ^ p) a j *
        dft F (2 ^ p) (mirroredChirp T' (2 ^ p) N) j * F'.w (j * k) (2 ^ p) =
      2 ^ p * dft T N x k := by
  have hNM : N ≤ 2 ^ p := by omega
  rw [sum_dft_mul_dft hF _ _ (by omega), mul_left_comm]
  congr 1
  have hzero (n : ℕ) (hn : n ∈ range (2 ^ p)) (hout : n ∉ range N) :
      a n * mirroredChirp T' (2 ^ p) N ((k + (2 ^ p - n)) % 2 ^ p) = 0 := by
    rw [ha n (mem_range.1 hn), if_neg (mt mem_range.2 hout), zero_mul]
  rw [← sum_subset (range_mono hNM) hzero, mul_sum, dft]
  refine sum_congr rfl fun n hn => ?_
  have hn : n < N := mem_range.1 hn
  rw [ha n (by omega), if_pos hn, w_eq_chirps hT]
  have hplace : mirroredChirp T' (2 ^ p) N ((k + (2 ^ p - n)) % 2 ^ p) =
      chirp T' N (if n ≤ k then k - n else n - k) := by
    rcases le_or_gt n k with hle | hlt
    · rw [show k + (2 ^ p - n) = k - n + 2 ^ p by omega, Nat.add_mod_right,
        Nat.mod_eq_of_lt (by omega), mirroredChirp, if_pos (by omega), if_pos hle]
    · rw [Nat.mod_eq_of_lt (by omega), mirroredChirp, if_neg (by omega), if_pos (by omega),
        if_neg (by omega), show 2 ^ p - (k + (2 ^ p - n)) = n - k by omega]
  rw [hplace]
  ring

end

end AmdGpuEp
