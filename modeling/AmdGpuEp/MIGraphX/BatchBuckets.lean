import AmdGpuEp.MIGraphX.DynamicBatch
import Mathlib.Data.Nat.Log
import Mathlib.Data.Nat.Digits.Defs
import Mathlib.Order.Bounds.Basic
import Mathlib.Tactic.IntervalCases

/-!
# Buckets of dynamic batching

The sizes are the numbers that `compile_batches` lists, or the powers of two up to the maximum.
The loops that write the powers double words: above `2 ^ 62` the last power is `2 ^ 63`, or there is
none, and a doubling gives 0, which stays 0.

Results:
1. `generateCompiledBatchSizes_eq_some_iff`: 65 rounds are enough for loops that end.
2. `buckets_iff`: when the loops end, and that the buckets are then the right ones.
3. `buckets_endless`: a maximum above `2 ^ 62`.
-/

namespace AmdGpuEp.MIGraphX

/-! ## What the buckets are for -/

/-- A decimal numeral. -/
def Numeral (token : List Char) (n : Nat) : Prop :=
  ∃ digits : List Nat, digits ≠ [] ∧ (∀ d ∈ digits, d < 10) ∧ token = digits.map Nat.digitChar ∧
    n = Nat.ofDigits 10 digits.reverse

/-- The string lists the number: between commas, or at an end. -/
def Listed (spec : String) (n : Nat) : Prop :=
  0 < n ∧ n < sizeMod ∧ ∃ token ∈ spec.toList.splitOn ',', Numeral token n

/-- The computation of the sizes ends, after any number of rounds. -/
def Generates (maxBatchSize : Nat) (spec : String) (sizes : List Nat) : Prop :=
  if parseCompileBatches spec = [] then
    if maxBatchSize = 0 then sizes = []
    else
      ∃ fuel target, raiseTarget maxBatchSize fuel 1 = some target ∧
        powersUpTo target fuel 1 = some sizes
  else sizes = parseCompileBatches spec

/-- There is a maximum, and the string lists nothing: the sizes are generated. -/
def Generated (maxBatchSize : Nat) (spec : String) : Prop :=
  0 < maxBatchSize ∧ ¬ ∃ n, Listed spec n

/-- The sizes that dynamic batching needs. -/
structure Buckets (maxBatchSize : Nat) (spec : String) (sizes : List Nat) : Prop where
  increasing : sizes.Pairwise (· < ·)
  positive : 0 ∉ sizes
  listed : (∃ n, Listed spec n) → ∀ n, n ∈ sizes ↔ Listed spec n
  powers : Generated maxBatchSize spec →
    ∀ n, n ∈ sizes ↔ ∃ k, n = 2 ^ k ∧ ∀ j < k, 2 ^ j < maxBatchSize
  enough : Generated maxBatchSize spec → ∃ n ∈ sizes, maxBatchSize ≤ n
  none : ∀ b, findNearestCompiledBatchSize b sizes = 0 ↔ ∀ n ∈ sizes, n < b
  nearest : ∀ b, (∃ n ∈ sizes, b ≤ n) →
    IsLeast {n | n ∈ sizes ∧ b ≤ n} (findNearestCompiledBatchSize b sizes)

namespace BatchBucketsLemmas

/-! ## The numbers of the string -/

theorem exists_digit {c : Char} (h : c.isDigit) : ∃ d < 10, c = Nat.digitChar d := by
  have hrange : 48 ≤ c.toNat ∧ c.toNat ≤ 57 := by
    simp only [Char.isDigit, Bool.and_eq_true, decide_eq_true_eq] at h
    exact h
  obtain ⟨hlow, hhigh⟩ := hrange
  refine ⟨c.toNat - 48, by omega, ?_⟩
  have hchar := Char.ofNat_toNat c
  generalize c.toNat = n at *
  subst hchar
  interval_cases n <;> rfl

theorem digitChar_isDigit {d : Nat} (h : d < 10) :
    (Nat.digitChar d).isDigit ∧ (Nat.digitChar d).toNat - '0'.toNat = d := by
  interval_cases d <;> decide

theorem foldl_digits (digits : List Nat) (hlt : ∀ d ∈ digits, d < 10) (n : Nat) :
    (digits.map Nat.digitChar).foldl (fun n c => 10 * n + (c.toNat - '0'.toNat)) n =
      Nat.ofDigits 10 (digits.reverse ++ [n]) := by
  induction digits generalizing n with
  | nil =>
    rw [List.map_nil, List.foldl_nil, List.reverse_nil, List.nil_append, Nat.ofDigits_singleton]
  | cons d digits ih =>
    have hd : d < 10 := hlt d List.mem_cons_self
    have hrest : ∀ d ∈ digits, d < 10 := fun d h => hlt d (List.mem_cons_of_mem _ h)
    rw [List.map_cons, List.foldl_cons, (digitChar_isDigit hd).2, ih hrest, List.reverse_cons,
      List.append_assoc, Nat.ofDigits_append, Nat.ofDigits_append, Nat.ofDigits_singleton,
      List.singleton_append, Nat.ofDigits_cons, Nat.ofDigits_singleton]
    ring

theorem numeral_iff {token : List Char} {n : Nat} :
    Numeral token n ↔ (token ≠ [] ∧ token.all Char.isDigit) ∧
      token.foldl (fun n c => 10 * n + (c.toNat - '0'.toNat)) 0 = n := by
  constructor
  · rintro ⟨digits, hne, hlt, rfl, rfl⟩
    refine ⟨⟨fun h => hne (List.map_eq_nil_iff.1 h), ?_⟩, ?_⟩
    · rw [List.all_map, List.all_eq_true]
      exact fun d hd => (digitChar_isDigit (hlt d hd)).1
    · rw [foldl_digits digits hlt, Nat.ofDigits_append, Nat.ofDigits_singleton, Nat.mul_zero,
        Nat.add_zero]
  · rintro ⟨⟨hne, hall⟩, rfl⟩
    obtain ⟨digits, hdigits⟩ : ∃ digits : List Nat,
        (∀ d ∈ digits, d < 10) ∧ token = digits.map Nat.digitChar := by
      clear hne
      induction token with
      | nil => exact ⟨[], fun d h => (List.not_mem_nil h).elim, rfl⟩
      | cons c token ih =>
        rw [List.all_cons, Bool.and_eq_true] at hall
        obtain ⟨digits, hlt, rfl⟩ := ih hall.2
        obtain ⟨d, hd, rfl⟩ := exists_digit hall.1
        exact ⟨d :: digits, List.forall_mem_cons.2 ⟨hd, hlt⟩, rfl⟩
    obtain ⟨hlt, rfl⟩ := hdigits
    refine ⟨digits, fun h => hne (h ▸ rfl), hlt, rfl, ?_⟩
    rw [foldl_digits digits hlt, Nat.ofDigits_append, Nat.ofDigits_singleton, Nat.mul_zero,
      Nat.add_zero]

theorem parseBatch_eq_some_iff {token : List Char} {n : Nat} :
    parseBatch token = some n ↔ 0 < n ∧ n < sizeMod ∧ Numeral token n := by
  rw [numeral_iff]
  unfold parseBatch
  dsimp only
  constructor
  · intro h
    split at h
    · next hdigits =>
      split at h
      · next hfits =>
        obtain rfl := Option.some.inj h
        exact ⟨Nat.pos_of_ne_zero hfits.1, hfits.2, hdigits, rfl⟩
      · cases h
    · cases h
  · rintro ⟨hpos, hlt, hdigits, rfl⟩
    rw [if_pos hdigits, if_pos ⟨hpos.ne', hlt⟩]

theorem mem_parseCompileBatches {spec : String} {n : Nat} :
    n ∈ parseCompileBatches spec ↔ Listed spec n := by
  unfold parseCompileBatches Listed
  rw [List.mem_dedup, List.mem_insertionSort, List.mem_filterMap]
  constructor
  · rintro ⟨token, htoken, hparse⟩
    obtain ⟨hpos, hlt, hnumeral⟩ := parseBatch_eq_some_iff.1 hparse
    exact ⟨hpos, hlt, token, htoken, hnumeral⟩
  · rintro ⟨hpos, hlt, token, htoken, hnumeral⟩
    exact ⟨token, htoken, parseBatch_eq_some_iff.2 ⟨hpos, hlt, hnumeral⟩⟩

theorem parseCompileBatches_eq_nil_iff {spec : String} :
    parseCompileBatches spec = [] ↔ ¬ ∃ n, Listed spec n := by
  rw [List.eq_nil_iff_forall_not_mem]
  simp only [mem_parseCompileBatches, not_exists]

theorem parseCompileBatches_increasing (spec : String) :
    (parseCompileBatches spec).Pairwise (· < ·) := by
  have hsorted : (parseCompileBatches spec).Pairwise (· ≤ ·) :=
    (List.pairwise_insertionSort (· ≤ ·) _).sublist (List.dedup_sublist _)
  have hnodup : (parseCompileBatches spec).Nodup := List.nodup_dedup _
  exact (hsorted.and hnodup).imp fun ⟨hle, hne⟩ => Nat.lt_of_le_of_ne hle hne

/-! ## The loops -/

theorem double_mod (k : Nat) : 2 ^ k % sizeMod * 2 % sizeMod = 2 ^ (k + 1) % sizeMod := by
  rw [Nat.mod_mul_mod, pow_succ]

theorem pow_mod_of_lt {k : Nat} (h : k < 64) : 2 ^ k % sizeMod = 2 ^ k :=
  Nat.mod_eq_of_lt (Nat.pow_lt_pow_right (by decide) h)

/-- A target that has wrapped to 0 stays there. -/
theorem raiseTarget_zero {maxBatchSize : Nat} (h : 0 < maxBatchSize) (fuel : Nat) :
    raiseTarget maxBatchSize fuel 0 = Option.none := by
  induction fuel with
  | zero => rfl
  | succ fuel ih =>
    unfold raiseTarget
    rw [if_pos h]
    exact ih

theorem raiseTarget_eq_some_iff {maxBatchSize fuel k target : Nat} (hpos : 0 < maxBatchSize)
    (hk : k ≤ Nat.clog 2 maxBatchSize) :
    raiseTarget maxBatchSize fuel (2 ^ k % sizeMod) = some target ↔
      maxBatchSize ≤ 2 ^ 63 ∧ Nat.clog 2 maxBatchSize < k + fuel ∧
        target = 2 ^ Nat.clog 2 maxBatchSize := by
  have htop : maxBatchSize ≤ 2 ^ 63 ↔ Nat.clog 2 maxBatchSize ≤ 63 :=
    (Nat.clog_le_iff_le_pow Nat.one_lt_two).symm
  rw [htop]
  induction fuel generalizing k with
  | zero =>
    refine iff_of_false (fun h => by cases h) fun h => ?_
    omega
  | succ fuel ih =>
    unfold raiseTarget
    rw [double_mod]
    by_cases hword : k < 64
    · rw [pow_mod_of_lt hword]
      by_cases hlt : 2 ^ k < maxBatchSize
      · have hnext : k < Nat.clog 2 maxBatchSize := (Nat.lt_clog_iff_pow_lt Nat.one_lt_two).2 hlt
        rw [if_pos hlt]
        refine (ih (k := k + 1) hnext).trans ?_
        omega
      · have hlast : Nat.clog 2 maxBatchSize = k :=
          Nat.le_antisymm (Nat.clog_le_of_le_pow (Nat.le_of_not_lt hlt)) hk
        rw [if_neg hlt, hlast, Option.some_inj]
        omega
    · have hwrap : 2 ^ k % sizeMod = 0 :=
        Nat.mod_eq_zero_of_dvd (Nat.pow_dvd_pow 2 (Nat.le_of_not_lt hword))
      have hwrap' : 2 ^ (k + 1) % sizeMod = 0 :=
        Nat.mod_eq_zero_of_dvd (Nat.pow_dvd_pow 2 (by omega))
      rw [hwrap, if_pos hpos, hwrap', raiseTarget_zero hpos]
      refine iff_of_false (fun h => by cases h) fun h => ?_
      omega

/-- A size that has wrapped to 0 is below every target. -/
theorem powersUpTo_zero (target fuel : Nat) : powersUpTo target fuel 0 = Option.none := by
  induction fuel with
  | zero => rfl
  | succ fuel ih =>
    unfold powersUpTo
    rw [if_pos (Nat.zero_le _)]
    show (powersUpTo target fuel 0).map _ = Option.none
    rw [ih]
    rfl

theorem powersUpTo_eq_some_iff {K fuel k : Nat} {sizes : List Nat} (hK : K ≤ 63)
    (hk : k ≤ K + 1) :
    powersUpTo (2 ^ K) fuel (2 ^ k % sizeMod) = some sizes ↔
      K ≤ 62 ∧ K + 1 < k + fuel ∧ sizes = (List.range' k (K + 1 - k)).map (2 ^ ·) := by
  induction fuel generalizing k sizes with
  | zero =>
    refine iff_of_false (fun h => by cases h) fun h => ?_
    omega
  | succ fuel ih =>
    unfold powersUpTo
    rw [double_mod]
    rcases Nat.lt_or_eq_of_le hk with hlt | rfl
    · have hle : k ≤ K := Nat.le_of_lt_succ hlt
      have hstep : List.range' k (K + 1 - k) = k :: List.range' (k + 1) (K + 1 - (k + 1)) := by
        rw [← List.range'_succ]
        congr 1
        omega
      rw [pow_mod_of_lt (by omega), if_pos (Nat.pow_le_pow_right Nat.two_pos hle), hstep,
        List.map_cons, Option.map_eq_some_iff]
      constructor
      · rintro ⟨rest, hrest, rfl⟩
        obtain ⟨htop, hfuel, rfl⟩ := (ih (Nat.succ_le_succ hle)).1 hrest
        exact ⟨htop, by omega, rfl⟩
      · rintro ⟨htop, hfuel, rfl⟩
        exact ⟨_, (ih (Nat.succ_le_succ hle)).2 ⟨htop, by omega, rfl⟩, rfl⟩
    · rcases Nat.lt_or_eq_of_le hK with htop | rfl
      · rw [pow_mod_of_lt (by omega),
          if_neg (Nat.not_le.2 (Nat.pow_lt_pow_right Nat.one_lt_two (Nat.lt_succ_self K))),
          Nat.sub_self, List.range'_zero, List.map_nil, Option.some_inj]
        refine ⟨fun h => ⟨by omega, by omega, h.symm⟩, fun h => h.2.2.symm⟩
      · rw [show 2 ^ (63 + 1) % sizeMod = 0 from rfl, if_pos (Nat.zero_le _),
          show 2 ^ (63 + 1 + 1) % sizeMod = 0 from rfl, powersUpTo_zero]
        refine iff_of_false (fun h => by cases h) fun h => ?_
        omega

/-- The sizes that the loops write. -/
def powersFor (maxBatchSize : Nat) : List Nat :=
  (List.range (Nat.clog 2 maxBatchSize + 1)).map (2 ^ ·)

theorem loops_eq_some_iff {maxBatchSize fuel : Nat} {sizes : List Nat} (hpos : 0 < maxBatchSize) :
    (∃ target, raiseTarget maxBatchSize fuel 1 = some target ∧
      powersUpTo target fuel 1 = some sizes) ↔
    maxBatchSize ≤ 2 ^ 62 ∧ Nat.clog 2 maxBatchSize + 1 < fuel ∧
      sizes = powersFor maxBatchSize := by
  have htop : maxBatchSize ≤ 2 ^ 62 ↔ Nat.clog 2 maxBatchSize ≤ 62 :=
    (Nat.clog_le_iff_le_pow Nat.one_lt_two).symm
  have htop' : maxBatchSize ≤ 2 ^ 63 ↔ Nat.clog 2 maxBatchSize ≤ 63 :=
    (Nat.clog_le_iff_le_pow Nat.one_lt_two).symm
  have hraise : ∀ target, raiseTarget maxBatchSize fuel 1 = some target ↔ _ := fun target =>
    raiseTarget_eq_some_iff (k := 0) hpos (Nat.zero_le _)
  rw [htop]
  unfold powersFor
  rw [List.range_eq_range']
  constructor
  · rintro ⟨target, htarget, hsizes⟩
    obtain ⟨hfits, hrounds, rfl⟩ := (hraise target).1 htarget
    obtain ⟨hle, hfuel, rfl⟩ :=
      (powersUpTo_eq_some_iff (k := 0) (htop'.1 hfits) (Nat.zero_le _)).1 hsizes
    exact ⟨hle, by omega, rfl⟩
  · rintro ⟨hle, hfuel, rfl⟩
    have hle' : Nat.clog 2 maxBatchSize ≤ 63 := Nat.le_succ_of_le hle
    exact ⟨_, (hraise _).2 ⟨htop'.2 hle', by omega, rfl⟩,
      (powersUpTo_eq_some_iff (k := 0) hle' (Nat.zero_le _)).2 ⟨hle, by omega, rfl⟩⟩

theorem mem_powersFor {maxBatchSize n : Nat} :
    n ∈ powersFor maxBatchSize ↔ ∃ k, n = 2 ^ k ∧ ∀ j < k, 2 ^ j < maxBatchSize := by
  unfold powersFor
  rw [List.mem_map]
  constructor
  · rintro ⟨k, hk, rfl⟩
    refine ⟨k, rfl, fun j hj => (Nat.lt_clog_iff_pow_lt Nat.one_lt_two).1 ?_⟩
    exact Nat.lt_of_lt_of_le hj (Nat.le_of_lt_succ (List.mem_range.1 hk))
  · rintro ⟨k, rfl, hbelow⟩
    refine ⟨k, List.mem_range.2 (Nat.lt_succ_of_le ?_), rfl⟩
    by_contra hgt
    have hlast := hbelow (Nat.clog 2 maxBatchSize) (Nat.lt_of_not_le hgt)
    exact Nat.lt_irrefl _ (Nat.lt_of_lt_of_le hlast (Nat.le_pow_clog Nat.one_lt_two _))

theorem powersFor_increasing (maxBatchSize : Nat) :
    (powersFor maxBatchSize).Pairwise (· < ·) :=
  List.pairwise_map.2 (List.pairwise_lt_range.imp fun h => Nat.pow_lt_pow_right Nat.one_lt_two h)

/-! ## The search -/

theorem findNearest_eq_zero_iff {sizes : List Nat} (hpos : 0 ∉ sizes) (b : Nat) :
    findNearestCompiledBatchSize b sizes = 0 ↔ ∀ n ∈ sizes, n < b := by
  induction sizes with
  | nil => exact iff_of_true rfl fun n h => (List.not_mem_nil h).elim
  | cons bs sizes ih =>
    rw [List.mem_cons, not_or] at hpos
    rw [findNearestCompiledBatchSize, List.forall_mem_cons]
    by_cases hle : b ≤ bs
    · rw [if_pos hle]
      exact iff_of_false (Ne.symm hpos.1) fun h => Nat.not_lt.2 hle h.1
    · rw [if_neg hle, ih hpos.2]
      exact ⟨fun h => ⟨Nat.lt_of_not_le hle, h⟩, fun h => h.2⟩

theorem findNearest_isLeast {sizes : List Nat} (hsorted : sizes.Pairwise (· < ·)) {b : Nat}
    (h : ∃ n ∈ sizes, b ≤ n) :
    IsLeast {n | n ∈ sizes ∧ b ≤ n} (findNearestCompiledBatchSize b sizes) := by
  induction sizes with
  | nil =>
    obtain ⟨n, hn, -⟩ := h
    cases hn
  | cons bs sizes ih =>
    rw [List.pairwise_cons] at hsorted
    rw [findNearestCompiledBatchSize]
    by_cases hle : b ≤ bs
    · rw [if_pos hle]
      refine ⟨⟨List.mem_cons_self, hle⟩, fun n hn => ?_⟩
      rcases List.mem_cons.1 hn.1 with rfl | hmem
      · exact Nat.le_refl _
      · exact Nat.le_of_lt (hsorted.1 n hmem)
    · rw [if_neg hle]
      have hrest : ∀ n, (n ∈ bs :: sizes ∧ b ≤ n) ↔ (n ∈ sizes ∧ b ≤ n) := by
        intro n
        refine and_congr_left fun hn => ⟨fun hmem => ?_, List.mem_cons_of_mem _⟩
        rcases List.mem_cons.1 hmem with rfl | hmem
        · exact absurd hn hle
        · exact hmem
      simp only [hrest]
      obtain ⟨n, hn⟩ := h
      exact ih hsorted.2 ⟨n, (hrest n).1 hn⟩

end BatchBucketsLemmas

open BatchBucketsLemmas

/-! ## The buckets -/

theorem generates_iff {maxBatchSize : Nat} {spec : String} {sizes : List Nat}
    (h : Generated maxBatchSize spec) :
    Generates maxBatchSize spec sizes ↔
      maxBatchSize ≤ 2 ^ 62 ∧ sizes = powersFor maxBatchSize := by
  obtain ⟨hpos, hnone⟩ := h
  unfold Generates
  rw [if_pos (parseCompileBatches_eq_nil_iff.2 hnone), if_neg hpos.ne']
  constructor
  · rintro ⟨fuel, hloops⟩
    obtain ⟨hle, -, hsizes⟩ := (loops_eq_some_iff hpos).1 hloops
    exact ⟨hle, hsizes⟩
  · rintro ⟨hle, hsizes⟩
    exact ⟨Nat.clog 2 maxBatchSize + 2, (loops_eq_some_iff hpos).2 ⟨hle, by omega, hsizes⟩⟩

/-- 65 rounds of each loop are enough when the loops end at all. -/
theorem generateCompiledBatchSizes_eq_some_iff {maxBatchSize : Nat} {spec : String}
    {sizes : List Nat} :
    generateCompiledBatchSizes maxBatchSize spec = some sizes ↔
      Generates maxBatchSize spec sizes := by
  unfold generateCompiledBatchSizes
  by_cases hnil : parseCompileBatches spec = []
  · rw [hnil]
    show generatePowerOfTwoBatchSizes maxBatchSize = some sizes ↔ _
    unfold generatePowerOfTwoBatchSizes
    by_cases hzero : maxBatchSize = 0
    · rw [if_pos hzero, Generates, if_pos hnil, if_pos hzero, Option.some_inj, eq_comm]
    · have hpos := Nat.pos_of_ne_zero hzero
      have hgenerated : Generated maxBatchSize spec :=
        ⟨hpos, parseCompileBatches_eq_nil_iff.1 hnil⟩
      rw [if_neg hzero, Option.bind_eq_some_iff, loops_eq_some_iff hpos,
        generates_iff hgenerated]
      refine ⟨fun h => ⟨h.1, h.2.2⟩, fun h => ⟨h.1, ?_, h.2⟩⟩
      have hclog := (Nat.clog_le_iff_le_pow Nat.one_lt_two).2 h.1
      omega
  · obtain ⟨n, rest, hsizes⟩ := List.exists_cons_of_ne_nil hnil
    rw [Generates, if_neg hnil, hsizes]
    show some (n :: rest) = some sizes ↔ _
    rw [Option.some_inj, eq_comm]

/-- Buckets that are in order and have no 0 are searched as they should be. -/
theorem Buckets.of_increasing {maxBatchSize : Nat} {spec : String} {sizes : List Nat}
    (hincreasing : sizes.Pairwise (· < ·)) (hpos : 0 ∉ sizes)
    (hlisted : (∃ n, Listed spec n) → ∀ n, n ∈ sizes ↔ Listed spec n)
    (hgenerated : Generated maxBatchSize spec → sizes = powersFor maxBatchSize) :
    Buckets maxBatchSize spec sizes where
  increasing := hincreasing
  positive := hpos
  listed := hlisted
  powers h n := by rw [hgenerated h, mem_powersFor]
  enough h := by
    rw [hgenerated h]
    exact ⟨2 ^ Nat.clog 2 maxBatchSize,
      List.mem_map_of_mem (List.mem_range.2 (Nat.lt_succ_self _)),
      Nat.le_pow_clog Nat.one_lt_two _⟩
  none := findNearest_eq_zero_iff hpos
  nearest _ := findNearest_isLeast hincreasing

/-- The sizes are computed, and they are the right ones, exactly when the string lists a number or
the maximum is at most `2 ^ 62`. -/
theorem buckets_iff (maxBatchSize : Nat) (spec : String) :
    (∃ sizes, Generates maxBatchSize spec sizes ∧ Buckets maxBatchSize spec sizes) ↔
      maxBatchSize ≤ 2 ^ 62 ∨ ∃ n, Listed spec n := by
  by_cases hlisted : ∃ n, Listed spec n
  · refine iff_of_true ⟨parseCompileBatches spec, ?_, .of_increasing
      (parseCompileBatches_increasing spec)
      (fun h => Nat.lt_irrefl 0 (mem_parseCompileBatches.1 h).1)
      (fun _ n => mem_parseCompileBatches) (fun h => absurd hlisted h.2)⟩ (.inr hlisted)
    unfold Generates
    rw [if_neg fun h => parseCompileBatches_eq_nil_iff.1 h hlisted]
  · rw [or_iff_left hlisted]
    rcases Nat.eq_zero_or_pos maxBatchSize with rfl | hpos
    · refine iff_of_true ⟨[], ?_, .of_increasing List.Pairwise.nil List.not_mem_nil
        (fun h => absurd h hlisted) (fun h => absurd h.1 (Nat.lt_irrefl 0))⟩ (Nat.zero_le _)
      unfold Generates
      rw [if_pos (parseCompileBatches_eq_nil_iff.2 hlisted), if_pos rfl]
    · have hgenerated : Generated maxBatchSize spec := ⟨hpos, hlisted⟩
      constructor
      · rintro ⟨sizes, hgenerates, -⟩
        exact ((generates_iff hgenerated).1 hgenerates).1
      · intro hle
        refine ⟨powersFor maxBatchSize, (generates_iff hgenerated).2 ⟨hle, rfl⟩,
          .of_increasing (powersFor_increasing _) (fun hzero => ?_)
            (fun h => absurd h hlisted) (fun _ => rfl)⟩
        obtain ⟨k, hk, -⟩ := mem_powersFor.1 hzero
        exact absurd hk.symm (Nat.two_pow_pos k).ne'

/-- Above `2 ^ 62` the loop over the powers never ends. -/
theorem buckets_endless : ¬ ∃ sizes,
    Generates (2 ^ 62 + 1) "" sizes ∧ Buckets (2 ^ 62 + 1) "" sizes := by
  rintro ⟨sizes, hgenerates, -⟩
  have hgenerated : Generated (2 ^ 62 + 1) "" :=
    ⟨Nat.succ_pos _, parseCompileBatches_eq_nil_iff.1 (by decide)⟩
  exact Nat.not_succ_le_self _ ((generates_iff hgenerated).1 hgenerates).1

end AmdGpuEp.MIGraphX
