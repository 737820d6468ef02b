import AmdGpuEp.MIGraphX.Outputs
import Mathlib.Data.List.TakeWhile

/-!
# Reading the number of an output

The staging path reads the number behind `#output_` with `ComputeOutputIndex`, the path
without staging with `Trim` and `ToInteger`. The first takes the digits that stand at the
start, and does not look at what `std::from_chars` says of them; the second skips what stands
in front of the first digit, and throws where there is no number.

Results:
1. `stagedOutputIndex_eq`, `directOutputIndex_eq`: what each of them reads.
2. `readAlike_iff`: the names of which both read the same number, or none.
3. `overflowing_misread`: a number that is no `int`.
-/

namespace AmdGpuEp.MIGraphX

/-! ## The property, and when it holds -/

/-- The output that a name stands for on the staging path, where -1 says that it stands for none. -/
def stagedOutputIndex (name : String) : Option Nat :=
  if computeOutputIndex name = -1 then none else some (computeOutputIndex name).toNat

/-- The number that digits stand for. -/
def digitsValue (digits : List Char) : Nat :=
  digits.foldl (fun n c => 10 * n + (c.toNat - '0'.toNat)) 0

/-- What follows `#output_` is a number, and one that is an `int`. -/
structure Numbered (suffix : List Char) : Prop where
  ne_nil : suffix ≠ []
  digits : suffix.all Char.isDigit = true
  value_lt : digitsValue suffix < 2 ^ 31

/-- Both paths bind the name to the same output, or to none, and to none when it is not numbered. -/
structure ReadAlike (name : String) : Prop where
  agree : stagedOutputIndex name = directOutputIndex name
  rejects : ∀ suffix ∈ outputSuffix name.toList, ¬ Numbered suffix →
    stagedOutputIndex name = none ∧ directOutputIndex name = none

/-- The digits that follow what is no digit. -/
def firstDigits (suffix : List Char) : List Char :=
  (suffix.dropWhile fun c => !c.isDigit).takeWhile Char.isDigit

/-- What follows `#output_` does not begin with a digit, and the first digits behind that, if there
are any, are too many for a `size_t`. -/
def Unreadable (suffix : List Char) : Prop :=
  suffix.takeWhile Char.isDigit = [] ∧
    (firstDigits suffix = [] ∨ sizeMod ≤ digitsValue (firstDigits suffix))

namespace OutputNamesLemmas

variable {name : String} {suffix : List Char}

theorem takeWhile_trimDigits (suffix : List Char) :
    (trimDigits suffix).takeWhile Char.isDigit = firstDigits suffix :=
  takeWhile_dropWhile_reverse _ _

/-- Digits at the start are the first ones. -/
theorem firstDigits_of_start (h : suffix.takeWhile Char.isDigit ≠ []) :
    firstDigits suffix = suffix.takeWhile Char.isDigit := by
  cases suffix with
  | nil => rfl
  | cons c cs =>
    have hc : c.isDigit = true := by
      by_contra hc
      exact h (List.takeWhile_cons_of_neg hc)
    rw [firstDigits, List.dropWhile_cons_of_neg (by simp [hc])]

/-- What the staging path reads: the digits at the start, and 0 when they are too many. -/
theorem stagedOutputIndex_eq (h : outputSuffix name.toList = some suffix) :
    stagedOutputIndex name =
      if suffix.takeWhile Char.isDigit = [] then none
      else if digitsValue (suffix.takeWhile Char.isDigit) < 2 ^ 31 then
        some (digitsValue (suffix.takeWhile Char.isDigit))
      else some 0 := by
  have hdigits : outputDigits name.toList = some (suffix.takeWhile Char.isDigit) := by
    rw [outputDigits_eq, h, Option.map_some]
  unfold stagedOutputIndex computeOutputIndex
  rw [hdigits]
  cases suffix.takeWhile Char.isDigit with
  | nil => rfl
  | cons c cs =>
    rw [if_neg (List.cons_ne_nil c cs)]
    change (if (if digitsValue (c :: cs) < 2 ^ 31 then (digitsValue (c :: cs) : Int) else 0) = -1
      then none else some (if digitsValue (c :: cs) < 2 ^ 31 then (digitsValue (c :: cs) : Int)
        else 0).toNat) = _
    by_cases hsmall : digitsValue (c :: cs) < 2 ^ 31
    · have hne : (digitsValue (c :: cs) : Int) ≠ -1 := fun h => by cases h
      rw [if_pos hsmall, if_pos hsmall, if_neg hne, Int.toNat_natCast]
    · rw [if_neg hsmall, if_neg hsmall]
      rfl

/-- What the path without staging reads: the first digits, when they are a `size_t`. -/
theorem directOutputIndex_eq (h : outputSuffix name.toList = some suffix) :
    directOutputIndex name =
      if firstDigits suffix = [] ∨ sizeMod ≤ digitsValue (firstDigits suffix) then none
      else some (digitsValue (firstDigits suffix)) := by
  unfold directOutputIndex
  rw [h, Option.bind_some, toInteger, takeWhile_trimDigits]
  rfl

theorem staged_of_no_suffix (h : outputSuffix name.toList = none) :
    stagedOutputIndex name = none := by
  have hdigits : outputDigits name.toList = none := by
    rw [outputDigits_eq, h, Option.map_none]
  unfold stagedOutputIndex computeOutputIndex
  rw [hdigits]
  rfl

theorem direct_of_no_suffix (h : outputSuffix name.toList = none) :
    directOutputIndex name = none := by
  rw [directOutputIndex, h, Option.bind_none]

/-- Both paths find nothing exactly where the name is unreadable. -/
theorem none_iff (h : outputSuffix name.toList = some suffix) :
    stagedOutputIndex name = none ∧ directOutputIndex name = none ↔ Unreadable suffix := by
  rw [stagedOutputIndex_eq h, directOutputIndex_eq h, Unreadable]
  refine and_congr ?_ (by rw [ite_eq_left_iff]; simp [or_iff_not_imp_left])
  by_cases hstart : suffix.takeWhile Char.isDigit = []
  · simp [hstart]
  · rw [if_neg hstart]
    split <;> simp [hstart]

theorem takeWhile_of_all (h : suffix.all Char.isDigit = true) :
    suffix.takeWhile Char.isDigit = suffix :=
  List.takeWhile_eq_self_iff.2 (List.all_eq_true.1 h)

end OutputNamesLemmas

open OutputNamesLemmas

/-- Both paths read the name alike exactly when it has no `#output_`, when what follows is the
number of an `int`, or when neither of them can read it. -/
theorem readAlike_iff (name : String) :
    ReadAlike name ↔
      ∀ suffix ∈ outputSuffix name.toList, Numbered suffix ∨ Unreadable suffix := by
  cases h : outputSuffix name.toList with
  | none =>
    refine iff_of_true ⟨?_, ?_⟩ fun suffix hsuffix => by cases hsuffix
    · rw [staged_of_no_suffix h, direct_of_no_suffix h]
    · rw [h]
      exact fun suffix hsuffix => by cases hsuffix
  | some suffix =>
    have hmem : ∀ P : List Char → Prop, (∀ x ∈ some suffix, P x) ↔ P suffix := by simp
    rw [hmem]
    constructor
    · rintro ⟨-, hrejects⟩
      rw [h, hmem] at hrejects
      by_cases hnumbered : Numbered suffix
      · exact Or.inl hnumbered
      · exact Or.inr ((none_iff h).1 (hrejects hnumbered))
    · rintro (hnumbered | hunreadable)
      · refine ⟨?_, ?_⟩
        · have hall := takeWhile_of_all hnumbered.digits
          have hstart : suffix.takeWhile Char.isDigit ≠ [] := by
            rw [hall]
            exact hnumbered.ne_nil
          have hfirst := (firstDigits_of_start hstart).trans hall
          have hsize : ¬ sizeMod ≤ digitsValue suffix :=
            Nat.not_le.2 (hnumbered.value_lt.trans (by unfold sizeMod; decide))
          rw [stagedOutputIndex_eq h, directOutputIndex_eq h, hfirst, hall,
            if_neg hnumbered.ne_nil, if_pos hnumbered.value_lt,
            if_neg (not_or.2 ⟨hnumbered.ne_nil, hsize⟩)]
        · rw [h, hmem]
          exact fun hnot => absurd hnumbered hnot
      · have hnone := (none_iff h).2 hunreadable
        refine ⟨hnone.1.trans hnone.2.symm, ?_⟩
        rw [h, hmem]
        exact fun _ => hnone

/-- The staging path takes the number for 0, and binds the first output. -/
theorem overflowing_misread : ¬ ReadAlike "main:#output_4294967296" := by
  intro h
  exact absurd h.agree (by decide +kernel)

end AmdGpuEp.MIGraphX
