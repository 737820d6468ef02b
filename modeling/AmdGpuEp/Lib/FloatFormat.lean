import Mathlib.Data.Int.Log
import Mathlib.Data.Rat.Floor
import Mathlib.Tactic.Linarith
import Mathlib.Tactic.Positivity
import Mathlib.Tactic.Ring

/-!
# Binary floating-point formats

A finite number of a format is the rational it stands for. The two zeros are
one, so a division by zero has no meaning here.

Results:
1. `FloatFormat.round_eq_fin_iff`, `FloatFormat.exists_round`: the numbers that rounding leaves
   alone, and how far it moves the others.
2. `FloatFormat.decode_fields`: what a number put together from bits is.
3. `FloatFormat.holds_intCast`: integers up to the precision are among them.
-/

namespace AmdGpuEp

/-- A number as the element of a tensor. -/
inductive Num
  | fin (q : ℚ)
  | inf (negative : Bool)
  | nan
  deriving DecidableEq, Repr

/-- Towards zero. -/
def truncate (q : ℚ) : Int :=
  q.num.tdiv q.den

/-- The nearest integer, the even one of two. -/
def roundHalfEven (x : ℚ) : Int :=
  let rest := x - ⌊x⌋
  if rest < 1 / 2 then ⌊x⌋
  else if 1 / 2 < rest then ⌊x⌋ + 1
  else if 2 ∣ ⌊x⌋ then ⌊x⌋
  else ⌊x⌋ + 1

@[simp] theorem truncate_intCast (z : Int) : truncate z = z := by
  show (z : ℚ).num.tdiv ((z : ℚ).den : Int) = z
  rw [Rat.num_intCast, Rat.den_intCast]
  exact Int.tdiv_one z

theorem abs_truncate_lt {q : ℚ} {n : Nat} (h : |q| < n) : |truncate q| < n := by
  have hden : (0 : ℚ) < q.den := by exact_mod_cast q.den_pos
  have hnum : q.num.natAbs < n * q.den := by
    have hq : |q| = (q.num.natAbs : ℚ) / q.den := by
      conv_lhs => rw [← Rat.num_div_den q]
      rw [abs_div, abs_of_pos hden, Nat.cast_natAbs, Int.cast_abs]
    rw [hq, div_lt_iff₀ hden] at h
    exact_mod_cast h
  rw [truncate, Int.abs_eq_natAbs, Int.natAbs_tdiv]
  have hdiv := Nat.div_lt_of_lt_mul (Nat.mul_comm n _ ▸ hnum)
  exact_mod_cast hdiv

@[simp] theorem roundHalfEven_intCast (z : Int) : roundHalfEven z = z := by
  unfold roundHalfEven
  rw [Int.floor_intCast]
  simp

theorem abs_roundHalfEven_sub_le (x : ℚ) : |(roundHalfEven x : ℚ) - x| ≤ 1 / 2 := by
  have hlow := Int.floor_le x
  have hhigh := Int.lt_floor_add_one x
  unfold roundHalfEven
  rw [abs_le]
  dsimp only
  split
  · constructor <;> linarith
  · split
    · push_cast
      constructor <;> linarith
    · split
      · constructor <;> linarith
      · push_cast
        constructor <;> linarith

/-- Halfway between two integers the even one is taken. -/
theorem two_dvd_roundHalfEven {x : ℚ} (h : |(roundHalfEven x : ℚ) - x| = 1 / 2) :
    2 ∣ roundHalfEven x := by
  have hlow := Int.floor_le x
  have hhigh := Int.lt_floor_add_one x
  unfold roundHalfEven at h ⊢
  dsimp only at h ⊢
  split at h
  · rw [abs_eq (by norm_num)] at h
    rcases h with h | h <;> linarith
  · next hhalf =>
    rw [if_neg hhalf]
    split at h
    · push_cast at h
      rw [abs_eq (by norm_num)] at h
      rcases h with h | h <;> linarith
    · next hover =>
      rw [if_neg hover]
      split
      · next heven => exact heven
      · next hodd => omega

/-- The precision counts the leading digit, which is not stored. -/
structure FloatFormat where
  precision : Nat
  exponentBits : Nat
  deriving DecidableEq, Repr

namespace FloatFormat

def float16 : FloatFormat := ⟨11, 5⟩

def float32 : FloatFormat := ⟨24, 8⟩

def float64 : FloatFormat := ⟨53, 11⟩

section

variable (f : FloatFormat)

def bias : Nat :=
  2 ^ (f.exponentBits - 1) - 1

/-- The exponent of the least positive number. -/
def minExp : Int :=
  2 - f.bias - f.precision

/-- Numbers are below this power of two. -/
def maxExp : Int :=
  f.bias + 1

/-! ## Rounding -/

/-- The exponent of the last digit that is kept of a number. -/
def lastDigit (q : ℚ) : Int :=
  max (Int.log 2 |q| + 1 - f.precision) f.minExp

def round (q : ℚ) : Num :=
  let r : ℚ := roundHalfEven (q / 2 ^ f.lastDigit q) * 2 ^ f.lastDigit q
  if |r| < 2 ^ f.maxExp then .fin r else .inf (decide (q < 0))

def mul : Num → Num → Num
  | .fin a, .fin b => f.round (a * b)
  | .inf s, .inf t => .inf (s != t)
  | .inf s, .fin b => if b = 0 then .nan else .inf (s != decide (b < 0))
  | .fin a, .inf t => if a = 0 then .nan else .inf (t != decide (a < 0))
  | .nan, _ => .nan
  | _, .nan => .nan

/-- Division by a number other than zero. -/
def div : Num → Num → Num
  | .fin a, .fin b => f.round (a / b)
  | .inf s, .fin b => .inf (s != decide (b < 0))
  | .fin _, .inf _ => .fin 0
  | .inf _, .inf _ => .nan
  | .nan, _ => .nan
  | _, .nan => .nan

/-- A number of another format, brought into this one. -/
def convert : Num → Num
  | .fin q => f.round q
  | .inf s => .inf s
  | .nan => .nan

/-! ## Bits -/

def magnitude (exp man : Nat) : ℚ :=
  if exp = 0 then man * 2 ^ f.minExp
  else (2 ^ (f.precision - 1) + man) * 2 ^ (f.minExp + exp - 1)

/-- The number of sign, exponent and mantissa. -/
def decodeFields (negative : Bool) (exp man : Nat) : Num :=
  if exp = 2 ^ f.exponentBits - 1 then
    if man = 0 then .inf negative else .nan
  else .fin ((if negative then -1 else 1) * f.magnitude exp man)

def decode (bits : Nat) : Num :=
  f.decodeFields (bits.testBit (f.precision - 1 + f.exponentBits))
    (bits / 2 ^ (f.precision - 1) % 2 ^ f.exponentBits) (bits % 2 ^ (f.precision - 1))

/-- The format has this number. -/
def Holds (q : ℚ) : Prop :=
  |q| < 2 ^ f.maxExp ∧ ∃ m k : Int, |m| < 2 ^ f.precision ∧ f.minExp ≤ k ∧ q = m * 2 ^ k

end

variable {f : FloatFormat} {q : ℚ}

theorem abs_lt_lastDigit (f : FloatFormat) (q : ℚ) : |q| < 2 ^ (f.precision + f.lastDigit q) := by
  have hlog : |q| < (2 : ℚ) ^ (Int.log 2 |q| + 1) :=
    Int.lt_zpow_succ_log_self (b := 2) (by decide) |q|
  have hexp : Int.log 2 |q| + 1 ≤ f.precision + f.lastDigit q := by
    have := le_max_left (Int.log 2 |q| + 1 - f.precision) f.minExp
    unfold lastDigit
    omega
  exact hlog.trans_le (zpow_le_zpow_right₀ (by norm_num) hexp)

theorem lastDigit_le {m k : Int} (hm : |m| < 2 ^ f.precision) (hk : f.minExp ≤ k)
    (hq : q = m * 2 ^ k) (hne : q ≠ 0) : f.lastDigit q ≤ k := by
  refine max_le ?_ hk
  have habs : |q| < (2 : ℚ) ^ (f.precision + k) := by
    have hm' : |(m : ℚ)| < 2 ^ f.precision := by exact_mod_cast hm
    rw [hq, abs_mul, abs_of_pos (zpow_pos two_pos k : (0 : ℚ) < 2 ^ k),
      zpow_add₀ two_ne_zero, zpow_natCast]
    exact mul_lt_mul_of_pos_right hm' (zpow_pos two_pos k)
  have hlog := (Int.lt_zpow_iff_log_lt (b := 2) (by decide) (abs_pos.2 hne)).1 habs
  omega

/-- Scaled by its last digit, a number of the format is an integer. -/
theorem exists_scaled {m k : Int} (hm : |m| < 2 ^ f.precision) (hk : f.minExp ≤ k)
    (hq : q = m * 2 ^ k) (hne : q ≠ 0) : ∃ z : Int, q / 2 ^ f.lastDigit q = z := by
  have hle := lastDigit_le hm hk hq hne
  obtain ⟨d, hd⟩ := Int.eq_ofNat_of_zero_le (sub_nonneg.2 hle)
  refine ⟨m * 2 ^ d, ?_⟩
  have hpow : (2 : ℚ) ^ k = 2 ^ d * 2 ^ f.lastDigit q := by
    rw [← zpow_natCast, ← zpow_add₀ two_ne_zero, ← hd]
    congr 1
    omega
  rw [div_eq_iff (zpow_ne_zero _ two_ne_zero)]
  calc q = m * 2 ^ k := hq
    _ = m * (2 ^ d * 2 ^ f.lastDigit q) := by rw [hpow]
    _ = (m * 2 ^ d : Int) * 2 ^ f.lastDigit q := by push_cast; ring

theorem round_zero (f : FloatFormat) : f.round 0 = .fin 0 := by
  have hround : roundHalfEven (0 / 2 ^ f.lastDigit 0) = 0 := by
    rw [zero_div]
    exact roundHalfEven_intCast 0
  unfold round
  simp only [hround, Int.cast_zero, zero_mul, abs_zero]
  exact if_pos (zpow_pos two_pos _)

/-- Rounding leaves the numbers of the format alone, and no others. -/
theorem round_eq_fin_iff : f.round q = .fin q ↔ f.Holds q := by
  by_cases hne : q = 0
  · subst hne
    refine iff_of_true (round_zero f) ⟨?_, 0, f.minExp, ?_, le_rfl, ?_⟩
    · rw [abs_zero]
      exact zpow_pos two_pos _
    · rw [abs_zero]
      exact pow_pos two_pos _
    · simp
  constructor
  · intro h
    have hr : (roundHalfEven (q / 2 ^ f.lastDigit q) : ℚ) * 2 ^ f.lastDigit q = q ∧
        |q| < 2 ^ f.maxExp := by
      unfold round at h
      dsimp only at h
      split at h
      · next hlt =>
        have heq := Num.fin.inj h
        exact ⟨heq, heq ▸ hlt⟩
      · cases h
    refine ⟨hr.2, roundHalfEven (q / 2 ^ f.lastDigit q), f.lastDigit q, ?_, le_max_right _ _,
      hr.1.symm⟩
    generalize roundHalfEven (q / 2 ^ f.lastDigit q) = m at hr
    have hlt := abs_lt_lastDigit f q
    nth_rewrite 1 [← hr.1] at hlt
    rw [abs_mul, abs_of_pos (zpow_pos two_pos _ : (0 : ℚ) < 2 ^ f.lastDigit q),
      zpow_add₀ two_ne_zero, zpow_natCast] at hlt
    have hm := lt_of_mul_lt_mul_right hlt (zpow_pos two_pos _).le
    exact_mod_cast hm
  · rintro ⟨hmax, m, k, hm, hk, hq⟩
    obtain ⟨z, hz⟩ := exists_scaled hm hk hq hne
    have hback : (z : ℚ) * 2 ^ f.lastDigit q = q := by
      rw [← hz]
      exact div_mul_cancel₀ q (zpow_ne_zero _ two_ne_zero)
    unfold round
    simp only [hz, roundHalfEven_intCast, hback]
    exact if_pos hmax

/-- Small numbers have a small last digit. -/
theorem lastDigit_le_of_abs_lt {k : Int} (hlt : |q| < 2 ^ (k + f.precision)) (hk : f.minExp ≤ k)
    (hne : q ≠ 0) : f.lastDigit q ≤ k := by
  have hlog := (Int.lt_zpow_iff_log_lt (b := 2) (by decide) (abs_pos.2 hne)).1 hlt
  refine max_le ?_ hk
  omega

theorem abs_scaled_sub_le (q : ℚ) (d : Int) :
    |(roundHalfEven (q / 2 ^ d) : ℚ) * 2 ^ d - q| ≤ 2 ^ d / 2 := by
  have hpos : (0 : ℚ) < 2 ^ d := zpow_pos two_pos _
  have hscaled : (roundHalfEven (q / 2 ^ d) : ℚ) * 2 ^ d - q =
      (roundHalfEven (q / 2 ^ d) - q / 2 ^ d) * 2 ^ d := by
    rw [sub_mul, div_mul_cancel₀ q hpos.ne']
  rw [hscaled, abs_mul, abs_of_pos hpos]
  calc |(roundHalfEven (q / 2 ^ d) : ℚ) - q / 2 ^ d| * 2 ^ d
      ≤ 1 / 2 * 2 ^ d := mul_le_mul_of_nonneg_right (abs_roundHalfEven_sub_le _) hpos.le
    _ = 2 ^ d / 2 := by ring

/-- A number that is not too large is moved by half of its last digit at most. -/
theorem exists_round {k : Int} (hlt : |q| < 2 ^ (k + f.precision)) (hk : f.minExp ≤ k)
    (hmax : k + f.precision < f.maxExp) :
    f.round q = .fin (roundHalfEven (q / 2 ^ f.lastDigit q) * 2 ^ f.lastDigit q) ∧
      |(roundHalfEven (q / 2 ^ f.lastDigit q) : ℚ) * 2 ^ f.lastDigit q - q| ≤ 2 ^ k / 2 := by
  by_cases hne : q = 0
  · subst hne
    have hround : roundHalfEven (0 / 2 ^ f.lastDigit 0) = 0 := by
      rw [zero_div]
      exact roundHalfEven_intCast 0
    rw [round_zero, hround, Int.cast_zero, zero_mul, sub_zero, abs_zero]
    exact ⟨rfl, (div_pos (zpow_pos two_pos k) two_pos).le⟩
  have hle : (2 : ℚ) ^ f.lastDigit q ≤ 2 ^ k :=
    zpow_le_zpow_right₀ (by norm_num) (lastDigit_le_of_abs_lt hlt hk hne)
  have hnear : |(roundHalfEven (q / 2 ^ f.lastDigit q) : ℚ) * 2 ^ f.lastDigit q - q| ≤ 2 ^ k / 2 :=
    (abs_scaled_sub_le q _).trans (by linarith)
  refine ⟨if_pos ?_, hnear⟩
  have hwide : (2 : ℚ) ^ k ≤ 2 ^ (k + f.precision) :=
    zpow_le_zpow_right₀ (by norm_num) (by omega)
  have hdouble : (2 : ℚ) ^ (k + f.precision + 1) = 2 ^ (k + f.precision) * 2 :=
    zpow_add_one₀ two_ne_zero _
  have hpos : (0 : ℚ) < 2 ^ k := zpow_pos two_pos _
  generalize (roundHalfEven (q / 2 ^ f.lastDigit q) : ℚ) * 2 ^ f.lastDigit q = r at hnear
  have htriangle : |r| ≤ |r - q| + |q| := by
    calc |r| = |r - q + q| := by rw [sub_add_cancel]
      _ ≤ |r - q| + |q| := abs_add_le _ _
  calc |r| < 2 ^ (k + f.precision + 1) := by linarith
    _ ≤ 2 ^ f.maxExp := zpow_le_zpow_right₀ (by norm_num) (by omega)

/-- Below the normal numbers the last digit is the same for all. -/
theorem round_subnormal (hlt : |q| < 2 ^ (f.minExp + f.precision))
    (hmax : f.minExp + f.precision < f.maxExp) (hne : q ≠ 0) :
    f.round q = .fin (roundHalfEven (q / 2 ^ f.minExp) * 2 ^ f.minExp) := by
  have hlast : f.lastDigit q = f.minExp :=
    le_antisymm (lastDigit_le_of_abs_lt hlt le_rfl hne) (le_max_right _ _)
  rw [(exists_round hlt le_rfl hmax).1, hlast]

theorem decodeFields_fin {exp : Nat} (hexp : exp ≠ 2 ^ f.exponentBits - 1) (negative : Bool)
    (man : Nat) : f.decodeFields negative exp man =
      .fin ((if negative then -1 else 1) * f.magnitude exp man) :=
  if_neg hexp

theorem decodeFields_special (f : FloatFormat) (negative : Bool) (man : Nat) :
    f.decodeFields negative (2 ^ f.exponentBits - 1) man =
      if man = 0 then .inf negative else .nan :=
  if_pos rfl

/-- Sign, exponent and mantissa put together. -/
theorem decode_fields (f : FloatFormat) (negative : Bool) {exp man : Nat}
    (hexp : exp < 2 ^ f.exponentBits) (hman : man < 2 ^ (f.precision - 1)) :
    f.decode (negative.toNat <<< (f.precision - 1 + f.exponentBits) |||
      (exp <<< (f.precision - 1) ||| man)) = f.decodeFields negative exp man := by
  have hlow : exp <<< (f.precision - 1) + man < 2 ^ (f.precision - 1 + f.exponentBits) := by
    rw [Nat.shiftLeft_eq, Nat.pow_add]
    calc exp * 2 ^ (f.precision - 1) + man
        < exp * 2 ^ (f.precision - 1) + 2 ^ (f.precision - 1) := Nat.add_lt_add_left hman _
      _ = (exp + 1) * 2 ^ (f.precision - 1) := (Nat.succ_mul _ _).symm
      _ ≤ 2 ^ f.exponentBits * 2 ^ (f.precision - 1) := Nat.mul_le_mul_right _ hexp
      _ = _ := Nat.mul_comm _ _
  have hsplit : negative.toNat <<< (f.precision - 1 + f.exponentBits) +
      (exp <<< (f.precision - 1) + man) =
      man + 2 ^ (f.precision - 1) * (exp + 2 ^ f.exponentBits * negative.toNat) := by
    rw [Nat.shiftLeft_eq, Nat.shiftLeft_eq, Nat.pow_add]
    ring
  rw [← Nat.shiftLeft_add_eq_or_of_lt hman, ← Nat.shiftLeft_add_eq_or_of_lt hlow]
  unfold decode
  congr 1
  · rw [Nat.shiftLeft_add_eq_or_of_lt hlow, Nat.testBit_or, Nat.testBit_lt_two_pow hlow,
      Bool.or_false, Nat.testBit_shiftLeft]
    cases negative with
    | false => simp
    | true => simp
  · rw [hsplit, Nat.add_mul_div_left _ _ (Nat.two_pow_pos _), Nat.div_eq_of_lt hman, Nat.zero_add,
      Nat.add_mul_mod_self_left, Nat.mod_eq_of_lt hexp]
  · rw [hsplit, Nat.add_mul_mod_self_left, Nat.mod_eq_of_lt hman]

/-- Integers up to the precision. -/
theorem holds_intCast {z : Int} (hz : |z| < 2 ^ f.precision) (hmin : f.minExp ≤ 0)
    (hmax : (f.precision : Int) ≤ f.maxExp) : f.Holds z := by
  refine ⟨?_, z, 0, hz, hmin, by rw [zpow_zero, mul_one]⟩
  have hz' : |(z : ℚ)| < 2 ^ f.precision := by exact_mod_cast hz
  refine hz'.trans_le ?_
  rw [← zpow_natCast]
  exact zpow_le_zpow_right₀ (by norm_num) hmax

end FloatFormat

end AmdGpuEp
