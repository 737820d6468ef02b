import Mathlib.Algebra.Order.Ring.Nat
import Mathlib.Data.List.TakeWhile
import Mathlib.Tactic.Common

/-!
# Values that are read from strings

`TryParseStringWithClassicLocale` of `parse_string.h`: a value is extracted from a stream over
the text, which must not begin with white space, and nothing may be left of the text. What an
extraction takes depends on the type: integers take a sign and digits, and a path takes a
word, or what stands between quotes.

Results:
1. `tryParseInt_printed`, `tryParseBool_printed`: what is printed is read back.
2. `tryParsePath_word`: the texts that are taken for a path as they stand.
-/

namespace AmdGpuEp

/-! ## Extractions -/

/-- `std::isspace` in the classic locale. -/
def isSpace (c : Char) : Bool :=
  c == ' ' || ('\t'.toNat ≤ c.toNat && c.toNat ≤ '\r'.toNat)

/-- The sign that `std::num_get` takes, and whether it is a minus. -/
def takeSign : List Char → Bool × List Char
  | '-' :: cs => (true, cs)
  | '+' :: cs => (false, cs)
  | cs => (false, cs)

/-- `is >> value` for an integer between `least` and `greatest`: none when the stream fails. -/
def extractInteger (least greatest : Int) (cs : List Char) : Option (Int × List Char) :=
  let (negative, cs) := takeSign cs
  let digits := cs.takeWhile Char.isDigit
  let magnitude := Nat.ofDigitChars 10 digits 0
  let value : Int := if negative then -magnitude else magnitude
  if digits = [] ∨ value < least ∨ greatest < value then none
  else some (value, cs.dropWhile Char.isDigit)

/-- What `std::quoted` takes behind the first quote. -/
def extractQuoted : List Char → Option (List Char × List Char)
  | [] => none
  | '"' :: cs => some ([], cs)
  | ['\\'] => none
  | '\\' :: c :: cs => (extractQuoted cs).map fun (text, rest) => (c :: text, rest)
  | c :: cs => (extractQuoted cs).map fun (text, rest) => (c :: text, rest)

/-- `is >> value` for an `fs::path`, which is told by its text. -/
def extractPath : List Char → Option (String × List Char)
  | [] => none
  | '"' :: cs => (extractQuoted cs).map fun (text, rest) => (String.ofList text, rest)
  | cs => some (String.ofList (cs.takeWhile (!isSpace ·)), cs.dropWhile (!isSpace ·))

/-! ## Parsing -/

variable {α : Type}

/-- `TryParseStringWithClassicLocale` for a type that is extracted from a stream. -/
def tryParseWith (extract : List Char → Option (α × List Char)) (str : String) : Option α :=
  if str.toList.head?.any isSpace then none
  else
    match extract str.toList with
    | some (value, []) => some value
    | _ => none

/-- `TryParseStringWithClassicLocale<int>` -/
def tryParseInt (str : String) : Option Int :=
  tryParseWith (extractInteger (-2 ^ 31) (2 ^ 31 - 1)) str

/-- `TryParseStringWithClassicLocale<std::size_t>` -/
def tryParseSize (str : String) : Option Nat :=
  if str.toList.head? = some '-' then none
  else (tryParseWith (extractInteger 0 (2 ^ 64 - 1)) str).map Int.toNat

/-- `TryParseStringWithClassicLocale<fs::path>` -/
def tryParsePath (str : String) : Option String :=
  tryParseWith extractPath str

/-- The text in lower case, by `::tolower`. -/
def lowerCase (str : String) : String :=
  String.ofList (str.toList.map Char.toLower)

/-- `TryParseStringWithClassicLocale` for `bool` -/
def tryParseBool (str : String) : Option Bool :=
  let str := lowerCase str
  if ["0", "false", "off", "disable", "disabled"].contains str then some false
  else if ["1", "true", "on", "enable", "enabled"].contains str then some true
  else none

/-- `std::to_string` for an `int` -/
def printInt (value : Int) : String :=
  String.ofList ((if value < 0 then ['-'] else []) ++ Nat.toDigits 10 value.natAbs)

/-- `std::to_string` for a `bool` -/
def printBool (value : Bool) : String :=
  if value then "1" else "0"

/-! ## What is printed is read back -/

namespace ParseStringLemmas

theorem isSpace_of_isDigit {c : Char} (h : c.isDigit = true) : isSpace c = false := by
  have hc := Char.isDigit_iff_toNat.1 h
  have hne : c ≠ ' ' := by
    rintro rfl
    exact absurd h (by decide)
  have htab : ¬ c.toNat ≤ '\r'.toNat := Nat.not_le.2 (Nat.lt_of_lt_of_le (by decide) hc.1)
  rw [isSpace, decide_eq_false htab, Bool.and_false, Bool.or_false]
  exact beq_eq_false_iff_ne.2 hne

theorem takeSign_digit {c : Char} {cs : List Char} (h : c.isDigit = true) :
    takeSign (c :: cs) = (false, c :: cs) := by
  unfold takeSign
  split
  · next heq =>
    rw [(List.cons.inj heq).1] at h
    exact absurd h (by decide)
  · next heq =>
    rw [(List.cons.inj heq).1] at h
    exact absurd h (by decide)
  · rfl

/-- The digits of a number, behind a sign. -/
theorem extractInteger_digits (least greatest : Int) {cs : List Char} {negative : Bool} {n : Nat}
    (hsign : takeSign cs = (negative, Nat.toDigits 10 n))
    (hleast : least ≤ if negative then -(n : Int) else n)
    (hgreatest : (if negative then -(n : Int) else n) ≤ greatest) :
    extractInteger least greatest cs = some (if negative then -(n : Int) else n, []) := by
  have hdigits : ∀ c ∈ Nat.toDigits 10 n, c.isDigit = true :=
    fun c hc => Nat.isDigit_of_mem_toDigits (by decide) (by decide) hc
  have htake : (Nat.toDigits 10 n).takeWhile Char.isDigit = Nat.toDigits 10 n :=
    List.takeWhile_eq_self_iff.2 hdigits
  have hdrop : (Nat.toDigits 10 n).dropWhile Char.isDigit = [] :=
    List.dropWhile_eq_nil_iff.2 hdigits
  unfold extractInteger
  rw [hsign]
  dsimp only
  rw [htake, hdrop, Nat.ofDigitChars_toDigits (by decide) (by decide)]
  exact if_neg (not_or.2 ⟨Nat.toDigits_ne_nil,
    not_or.2 ⟨Int.not_lt.2 hleast, Int.not_lt.2 hgreatest⟩⟩)

theorem tryParseWith_eq_some {extract : List Char → Option (α × List Char)} {str : String}
    {value : α} :
    tryParseWith extract str = some value ↔
      (∀ c ∈ str.toList.head?, isSpace c = false) ∧ extract str.toList = some (value, []) := by
  unfold tryParseWith
  have hhead : str.toList.head?.any isSpace = false ↔
      ∀ c ∈ str.toList.head?, isSpace c = false := by
    cases str.toList.head? <;> simp
  by_cases hspace : str.toList.head?.any isSpace = true
  · rw [if_pos hspace]
    refine iff_of_false (fun h => by cases h) fun h => ?_
    exact Bool.false_ne_true ((hhead.2 h.1).symm.trans hspace)
  · rw [if_neg hspace, and_iff_right (hhead.1 (Bool.eq_false_iff.2 hspace))]
    split
    · next v heq => rw [heq]; simp
    · next hne => exact iff_of_false (fun h => by cases h) fun h => hne value h

/-! ## Paths -/

theorem length_extractQuoted {cs text rest : List Char}
    (h : extractQuoted cs = some (text, rest)) : text.length < cs.length := by
  fun_induction extractQuoted cs generalizing text rest with
  | case1 => cases h
  | case2 cs =>
    obtain ⟨rfl, rfl⟩ := Prod.mk.inj (Option.some.inj h)
    exact Nat.succ_pos _
  | case3 => cases h
  | case4 c cs ih =>
    obtain ⟨⟨text', rest'⟩, hcs, heq⟩ := Option.map_eq_some_iff.1 h
    obtain ⟨rfl, rfl⟩ := Prod.mk.inj heq
    exact Nat.succ_lt_succ ((ih hcs).trans (Nat.lt_succ_self _))
  | case5 c cs hquote hescape hlast ih =>
    obtain ⟨⟨text', rest'⟩, hcs, heq⟩ := Option.map_eq_some_iff.1 h
    obtain ⟨rfl, rfl⟩ := Prod.mk.inj heq
    exact Nat.succ_lt_succ (ih hcs)

theorem extractPath_word {c : Char} {cs : List Char} (h : c ≠ '"') :
    extractPath (c :: cs) = some (String.ofList ((c :: cs).takeWhile (!isSpace ·)),
      (c :: cs).dropWhile (!isSpace ·)) := by
  unfold extractPath
  split
  · next heq => cases heq
  · next heq => exact absurd (List.cons.inj heq).1 h
  · rfl

end ParseStringLemmas

open ParseStringLemmas

/-- An `int` that is printed is read back. -/
theorem tryParseInt_printed {value : Int} (hleast : -2 ^ 31 ≤ value)
    (hgreatest : value ≤ 2 ^ 31 - 1) : tryParseInt (printInt value) = some value := by
  obtain ⟨c, cs, hdigits⟩ := List.exists_cons_of_ne_nil
    (Nat.toDigits_ne_nil (n := value.natAbs) (b := 10))
  have hc : c.isDigit = true :=
    Nat.isDigit_of_mem_toDigits (by decide) (by decide) (hdigits ▸ List.mem_cons_self)
  refine tryParseWith_eq_some.2 ?_
  unfold printInt
  rw [String.toList_ofList]
  by_cases hneg : value < 0
  · have hvalue : -(value.natAbs : Int) = value := by omega
    rw [if_pos hneg]
    refine ⟨fun d hd => ?_, ?_⟩
    · obtain rfl := Option.some.inj hd
      decide
    · have hsign : takeSign (['-'] ++ Nat.toDigits 10 value.natAbs) =
          (true, Nat.toDigits 10 value.natAbs) := rfl
      have hextract := extractInteger_digits (-2 ^ 31) (2 ^ 31 - 1) hsign
      rw [if_pos rfl, hvalue] at hextract
      exact hextract hleast hgreatest
  · have hvalue : (value.natAbs : Int) = value := by omega
    rw [if_neg hneg, List.nil_append]
    refine ⟨fun d hd => ?_, ?_⟩
    · rw [hdigits] at hd
      obtain rfl := Option.some.inj hd
      exact isSpace_of_isDigit hc
    · have hsign : takeSign (Nat.toDigits 10 value.natAbs) =
          (false, Nat.toDigits 10 value.natAbs) := by
        rw [hdigits]
        exact takeSign_digit hc
      have hextract := extractInteger_digits (-2 ^ 31) (2 ^ 31 - 1) hsign
      rw [if_neg Bool.false_ne_true, hvalue] at hextract
      exact hextract hleast hgreatest

/-- What is read as an `int` is one. -/
theorem bounds_of_tryParseInt {str : String} {value : Int} (h : tryParseInt str = some value) :
    -2 ^ 31 ≤ value ∧ value ≤ 2 ^ 31 - 1 := by
  have hextract := (tryParseWith_eq_some.1 h).2
  unfold extractInteger at hextract
  dsimp only at hextract
  rw [Option.ite_none_left_eq_some, not_or, not_or, Int.not_lt, Int.not_lt] at hextract
  obtain ⟨⟨-, hbounds⟩, heq⟩ := hextract
  rw [← (Prod.mk.inj (Option.some.inj heq)).1]
  exact hbounds

/-- A `bool` that is printed is read back. -/
theorem tryParseBool_printed (value : Bool) : tryParseBool (printBool value) = some value := by
  cases value <;> decide

/-- A text is taken for a path as it stands exactly when it is a word that does not begin with a
quote. -/
theorem tryParsePath_word (str : String) :
    tryParsePath str = some str ↔
      str ≠ "" ∧ str.toList.head? ≠ some '"' ∧ ∀ c ∈ str.toList, isSpace c = false := by
  rw [tryParsePath, tryParseWith_eq_some]
  have hempty : str = "" ↔ str.toList = [] := by
    rw [← String.toList_inj, String.toList_empty]
  rw [Ne, hempty]
  have hstr : str = String.ofList str.toList := String.ofList_toList.symm
  generalize str.toList = cs at hstr
  rw [hstr]
  cases cs with
  | nil => simp [extractPath]
  | cons c cs =>
    by_cases hquote : c = '"'
    · rw [hquote]
      refine iff_of_false ?_ fun h => h.2.1 rfl
      rintro ⟨-, h⟩
      obtain ⟨⟨text, rest⟩, htext, heq⟩ := Option.map_eq_some_iff.1 h
      have hlen := length_extractQuoted htext
      have htexteq := String.ofList_injective (Prod.mk.inj heq).1
      rw [htexteq] at hlen
      exact absurd hlen (Nat.not_lt.2 (Nat.le_succ _))
    · rw [extractPath_word hquote, Option.some_inj, Prod.mk.injEq, String.ofList_inj,
        List.takeWhile_eq_self_iff, List.dropWhile_eq_nil_iff]
      have hhead : (c :: cs).head? ≠ some '"' := fun h => hquote (Option.some.inj h)
      simp only [Bool.not_eq_true', and_self, hhead, List.cons_ne_nil, not_false_eq_true,
        true_and, ne_eq]
      refine and_iff_right_of_imp fun h d hd => ?_
      exact h d (List.mem_of_head? hd)

end AmdGpuEp
