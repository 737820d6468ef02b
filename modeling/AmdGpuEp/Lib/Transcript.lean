import Mathlib.Data.List.Basic
import Mathlib.Data.List.Flatten
import Mathlib.Data.List.Induction
import Mathlib.Tactic.Common
import Mathlib.Tactic.Ring

/-!
# Byte transcripts and ideal digests

A cache key is a digest of the byte strings that are fed to a hash one after
the other. Here the hash is ideal: different inputs never collide. What a key
identifies is then decided by the transcript alone.

Results:
1. `leBytes_inj`: little-endian words of a fixed width are read back.
2. `IdealHash.digest_inj`: equal digests come from equal transcripts.
3. `split_at_first`: a transcript splits in one way at the first item that has
   a given property.
-/

namespace AmdGpuEp

/-! ## Words and strings as bytes -/

/-- The `w` low bytes of `n`, least significant first. -/
def leBytes : Nat → Nat → List UInt8
  | 0, _ => []
  | w + 1, n => UInt8.ofNat n :: leBytes w (n / 256)

@[simp] theorem length_leBytes (w n : Nat) : (leBytes w n).length = w := by
  induction w generalizing n with
  | zero => rfl
  | succ w ih => rw [leBytes, List.length_cons, ih]

theorem leBytes_inj {w n m : Nat} (hn : n < 256 ^ w) (hm : m < 256 ^ w)
    (h : leBytes w n = leBytes w m) : n = m := by
  induction w generalizing n m with
  | zero => simp only [Nat.pow_zero] at hn hm; omega
  | succ w ih =>
    rw [leBytes, leBytes] at h
    obtain ⟨hlow, hhigh⟩ := List.cons.inj h
    have hmod : n % 256 = m % 256 := by
      simpa using congrArg UInt8.toNat hlow
    have hdiv : n / 256 = m / 256 := by
      refine ih ?_ ?_ hhigh
      · rw [Nat.div_lt_iff_lt_mul (by decide)]
        rwa [Nat.pow_succ] at hn
      · rw [Nat.div_lt_iff_lt_mul (by decide)]
        rwa [Nat.pow_succ] at hm
    omega

/-- A word that does not fill its width has a zero byte. -/
theorem zero_mem_leBytes {w n : Nat} (hn : n < 256 ^ w) : 0 ∈ leBytes (w + 1) n := by
  induction w generalizing n with
  | zero =>
    obtain rfl : n = 0 := by simpa using hn
    decide
  | succ w ih =>
    have hdiv : n / 256 < 256 ^ w := by
      rw [Nat.div_lt_iff_lt_mul (by decide)]
      rwa [Nat.pow_succ] at hn
    rw [leBytes]
    exact List.mem_cons_of_mem _ (ih hdiv)

/-- The bytes of a string. -/
def strBytes (s : String) : List UInt8 :=
  s.toByteArray.data.toList

theorem strBytes_inj {s t : String} (h : strBytes s = strBytes t) : s = t := by
  refine String.toByteArray_inj.1 ?_
  refine ByteArray.ext ?_
  exact Array.toList_inj.1 h

theorem strBytes_append (s t : String) : strBytes (s ++ t) = strBytes s ++ strBytes t := by
  simp [strBytes]

/-- A list of 64-bit words, as the memory of a `std::vector<int64_t>`. -/
def wordsBytes (ws : List Int64) : List UInt8 :=
  ws.flatMap fun w => leBytes 8 w.toBitVec.toNat

theorem wordsBytes_inj {ws vs : List Int64} (h : wordsBytes ws = wordsBytes vs) : ws = vs := by
  induction ws generalizing vs with
  | nil =>
    cases vs with
    | nil => rfl
    | cons v vs =>
      have hlen := congrArg List.length h
      simp [wordsBytes] at hlen
      omega
  | cons w ws ih =>
    cases vs with
    | nil =>
      have hlen := congrArg List.length h
      simp [wordsBytes] at hlen
    | cons v vs =>
      rw [wordsBytes, wordsBytes, List.flatMap_cons, List.flatMap_cons] at h
      obtain ⟨hhead, htail⟩ := List.append_inj h (by simp)
      have hw : w.toBitVec.toNat = v.toBitVec.toNat :=
        leBytes_inj w.toBitVec.isLt v.toBitVec.isLt hhead
      rw [Int64.toBitVec_inj.1 (BitVec.eq_of_toNat_eq hw), ih htail]

/-! ## Ideal digests -/

/-- A chained hash that never collides: a step determines the digest before it and the bytes it
was fed, and no step leads back to the start. -/
structure IdealHash (D : Type*) where
  init : D
  mix : D → List UInt8 → D
  mix_inj : ∀ {a b : D} {x y : List UInt8}, mix a x = mix b y → a = b ∧ x = y
  mix_ne_init : ∀ (a : D) (x : List UInt8), mix a x ≠ init

namespace IdealHash

/-- The digest that is its own transcript. -/
def free : IdealHash (List (List UInt8)) where
  init := []
  mix := fun d x => d ++ [x]
  mix_inj := by
    intro a b x y h
    obtain ⟨hd, hx⟩ := List.append_inj' h rfl
    exact ⟨hd, List.singleton_inj.1 hx⟩
  mix_ne_init := by simp

variable {D : Type*} (H : IdealHash D)

/-- The digest of a transcript. -/
def digest (items : List (List UInt8)) : D :=
  items.foldl H.mix H.init

theorem digest_inj {xs ys : List (List UInt8)} (h : H.digest xs = H.digest ys) : xs = ys := by
  induction xs using List.reverseRecOn generalizing ys with
  | nil =>
    rcases List.eq_nil_or_concat ys with rfl | ⟨ys, y, rfl⟩
    · rfl
    · simp only [digest, List.concat_eq_append, List.foldl_append, List.foldl_nil,
        List.foldl_cons] at h
      exact absurd h.symm (H.mix_ne_init _ _)
  | append_singleton xs x ih =>
    rcases List.eq_nil_or_concat ys with rfl | ⟨ys, y, rfl⟩
    · simp only [digest, List.foldl_append, List.foldl_nil, List.foldl_cons] at h
      exact absurd h (H.mix_ne_init _ _)
    · simp only [digest, List.concat_eq_append, List.foldl_append, List.foldl_nil,
        List.foldl_cons] at h
      obtain ⟨hd, hx⟩ := H.mix_inj h
      rw [ih hd, hx, List.concat_eq_append]

end IdealHash

/-! ## Reading a transcript back -/

/-- Two lists that agree are cut at the same place, before the first item with property `q`. -/
theorem split_at_first {α : Type*} {q : α → Prop} {xs ys r s : List α} {a b : α}
    (hxs : ∀ x ∈ xs, ¬ q x) (hys : ∀ y ∈ ys, ¬ q y) (ha : q a) (hb : q b)
    (h : xs ++ a :: r = ys ++ b :: s) : xs = ys ∧ a = b ∧ r = s := by
  induction xs generalizing ys with
  | nil =>
    cases ys with
    | nil => exact ⟨rfl, List.cons.inj h⟩
    | cons y ys =>
      obtain rfl : a = y := (List.cons.inj h).1
      exact absurd ha (hys a (List.mem_cons_self ..))
  | cons x xs ih =>
    cases ys with
    | nil =>
      obtain rfl : x = b := (List.cons.inj h).1
      exact absurd hb (hxs x (List.mem_cons_self ..))
    | cons y ys =>
      obtain ⟨hxy, ht⟩ := List.cons.inj h
      obtain ⟨hl, hrest⟩ := ih (fun z hz => hxs z (List.mem_cons_of_mem _ hz))
        (fun z hz => hys z (List.mem_cons_of_mem _ hz)) ht
      exact ⟨by rw [hxy, hl], hrest⟩

end AmdGpuEp
