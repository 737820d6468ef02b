import Mathlib.Data.List.Rotate
import Mathlib.Data.List.Forall2
import Mathlib.Data.List.Zip
import Mathlib.Algebra.BigOperators.Group.List.Basic
import Mathlib.Tactic.Ring

/-!
# Strided views of a buffer

A view of a buffer gives every dimension a size and a stride; the element at an
index lies at the sum of the strides. Sizes and strides that are permuted
together denote a transposed tensor, and a stride of zero repeats one slice.

Results:
1. `address_packed`: a packed view addresses in row-major order.
2. `address_perm`: an address does not depend on the order of the dimensions, so
   moving them together with the index leaves it (`address_rotateFront`).
3. `address_alignRight`: leading dimensions of stride zero are not seen.
4. `broadcastShapes_eq_some_iff`: when two shapes have a common shape, and which.
5. `repeats_iff`: which strides repeat a view along its dimensions of size 1.
6. `addresses_eq_iff`: when two views in the same sizes are one.
7. `address_permute`: dimensions in another order, with their index.
-/

namespace AmdGpuEp

/-- One dimension of a view. -/
structure Dim where
  size : Nat
  stride : Nat
  deriving DecidableEq, Repr

/-! ## Addresses -/

/-- The place of the element at an index. -/
def address : List Dim → List Nat → Nat
  | d :: view, i :: idx => d.stride * i + address view idx
  | _, _ => 0

/-- The place of the element at an index in row-major order. -/
def rowMajor : List Nat → List Nat → Nat
  | _ :: sizes, i :: idx => sizes.prod * i + rowMajor sizes idx
  | _, _ => 0

/-- An index of a tensor of these sizes. -/
def InBounds (idx sizes : List Nat) : Prop :=
  List.Forall₂ (· < ·) idx sizes

instance (idx sizes : List Nat) : Decidable (InBounds idx sizes) :=
  inferInstanceAs (Decidable (List.Forall₂ _ idx sizes))

/-- The dimensions of a buffer in row-major order. -/
def packed : List Nat → List Dim
  | [] => []
  | size :: sizes => ⟨size, sizes.prod⟩ :: packed sizes

@[simp] theorem length_packed (sizes : List Nat) : (packed sizes).length = sizes.length := by
  induction sizes with
  | nil => rfl
  | cons size sizes ih => simp [packed, ih]

@[simp] theorem map_size_packed (sizes : List Nat) : (packed sizes).map Dim.size = sizes := by
  induction sizes with
  | nil => rfl
  | cons size sizes ih => simp [packed, ih]

theorem address_packed (sizes idx : List Nat) : address (packed sizes) idx = rowMajor sizes idx := by
  induction sizes generalizing idx with
  | nil => rfl
  | cons size sizes ih =>
    cases idx with
    | nil => rfl
    | cons i idx => simp [packed, address, rowMajor, ih]

theorem address_append {v w : List Dim} {i j : List Nat} (h : v.length = i.length) :
    address (v ++ w) (i ++ j) = address v i + address w j := by
  induction v generalizing i with
  | nil =>
    obtain rfl := List.length_eq_zero_iff.1 h.symm
    exact (Nat.zero_add _).symm
  | cons d v ih =>
    cases i with
    | nil => cases h
    | cons k i =>
      rw [List.length_cons, List.length_cons, Nat.succ.injEq] at h
      simp only [List.cons_append, address, ih h, Nat.add_assoc]

theorem address_eq_sum (v : List Dim) (i : List Nat) :
    address v i = ((v.zip i).map fun p => p.1.stride * p.2).sum := by
  induction v generalizing i with
  | nil => rfl
  | cons d v ih =>
    cases i with
    | nil => rfl
    | cons k i => simp [address, ih]

/-- An address does not depend on the order of the dimensions. -/
theorem address_perm {p q : List (Dim × Nat)} (h : p.Perm q) :
    address (p.map Prod.fst) (p.map Prod.snd) = address (q.map Prod.fst) (q.map Prod.snd) := by
  simp only [address_eq_sum, List.zip_map', List.map_map]
  exact (h.map _).sum_eq

/-! ## Moving dimensions -/

section

variable {α β : Type*}

/-- The first element goes behind all others but the last. -/
def rotateFront (l : List α) : List α :=
  l.dropLast.rotate 1 ++ l.drop (l.length - 1)

def swapLast (l : List α) : List α :=
  l.take (l.length - 2) ++ (l.drop (l.length - 2)).reverse

theorem rotateFront_concat (l : List α) (x : α) : rotateFront (l ++ [x]) = l.rotate 1 ++ [x] := by
  simp [rotateFront]

theorem swapLast_append_pair (l : List α) (x y : α) : swapLast (l ++ [x, y]) = l ++ [y, x] := by
  simp [swapLast]

theorem map_rotateFront (f : α → β) (l : List α) :
    (rotateFront l).map f = rotateFront (l.map f) := by
  simp [rotateFront, List.map_rotate, List.map_dropLast, List.map_drop]

theorem map_swapLast (f : α → β) (l : List α) : (swapLast l).map f = swapLast (l.map f) := by
  simp [swapLast, List.map_take, List.map_drop]

theorem rotateFront_perm (l : List α) : (rotateFront l).Perm l := by
  induction l using List.reverseRecOn with
  | nil => exact .refl _
  | append_singleton l x =>
    rw [rotateFront_concat]
    exact (List.rotate_perm l 1).append_right [x]

theorem swapLast_perm (l : List α) : (swapLast l).Perm l := by
  conv_rhs => rw [← List.take_append_drop (l.length - 2) l]
  exact (List.reverse_perm _).append_left _

theorem swapLast_swapLast (l : List α) : swapLast (swapLast l) = l := by
  have hlen : (l.take (l.length - 2)).length = l.length - 2 := by simp
  have hall : (swapLast l).length = l.length := (swapLast_perm l).length_eq
  rw [swapLast, hall]
  conv_lhs => rw [swapLast]
  rw [List.take_left' hlen, List.drop_left' hlen, List.reverse_reverse, List.take_append_drop]

/-- Every list is a rotated one. -/
theorem exists_rotateFront (l : List α) : ∃ k, rotateFront k = l := by
  induction l using List.reverseRecOn with
  | nil => exact ⟨[], rfl⟩
  | append_singleton l x =>
    refine ⟨l.rotate (l.length - 1) ++ [x], ?_⟩
    rw [rotateFront_concat, List.rotate_rotate]
    cases l with
    | nil => rfl
    | cons y l => rw [List.length_cons, Nat.succ_sub_one, ← List.length_cons, List.rotate_length]

theorem rotateFront_injective : Function.Injective (rotateFront : List α → List α) := by
  intro k l h
  have hlen : k.length = l.length := by
    rw [← (rotateFront_perm k).length_eq, h, (rotateFront_perm l).length_eq]
  induction k using List.reverseRecOn with
  | nil => exact (List.length_eq_zero_iff.1 hlen.symm).symm
  | append_singleton k x =>
    induction l using List.reverseRecOn with
    | nil => simp at hlen
    | append_singleton l y =>
      rw [rotateFront_concat, rotateFront_concat] at h
      obtain ⟨hinit, hlast⟩ := List.append_inj' h rfl
      rw [List.rotate_injective 1 hinit, hlast]

end

/-- Dimensions that are moved together with the index. -/
theorem address_rotateFront {v : List Dim} {i : List Nat} (h : v.length = i.length) :
    address (rotateFront v) (rotateFront i) = address v i := by
  obtain ⟨p, rfl, rfl⟩ : ∃ p : List (Dim × Nat), p.map Prod.fst = v ∧ p.map Prod.snd = i :=
    ⟨v.zip i, List.map_fst_zip h.le, List.map_snd_zip h.ge⟩
  rw [← map_rotateFront, ← map_rotateFront]
  exact address_perm (rotateFront_perm p)

theorem inBounds_pairs {p : List (Nat × Nat)} :
    InBounds (p.map Prod.fst) (p.map Prod.snd) ↔ ∀ x ∈ p, x.1 < x.2 := by
  simp [InBounds, List.forall₂_map_left_iff, List.forall₂_map_right_iff, List.forall₂_same]

theorem exists_pairs {idx sizes : List Nat} (h : idx.length = sizes.length) :
    ∃ p : List (Nat × Nat), p.map Prod.fst = idx ∧ p.map Prod.snd = sizes :=
  ⟨idx.zip sizes, List.map_fst_zip h.le, List.map_snd_zip h.ge⟩

theorem inBounds_rotateFront {idx sizes : List Nat} (h : idx.length = sizes.length) :
    InBounds (rotateFront idx) (rotateFront sizes) ↔ InBounds idx sizes := by
  obtain ⟨p, rfl, rfl⟩ := exists_pairs h
  rw [← map_rotateFront, ← map_rotateFront, inBounds_pairs, inBounds_pairs]
  simp only [(rotateFront_perm p).mem_iff]

theorem inBounds_swapLast {idx sizes : List Nat} (h : idx.length = sizes.length) :
    InBounds (swapLast idx) (swapLast sizes) ↔ InBounds idx sizes := by
  obtain ⟨p, rfl, rfl⟩ := exists_pairs h
  rw [← map_swapLast, ← map_swapLast, inBounds_pairs, inBounds_pairs]
  simp only [(swapLast_perm p).mem_iff]

theorem InBounds.length_eq {idx sizes : List Nat} (h : InBounds idx sizes) :
    idx.length = sizes.length :=
  List.Forall₂.length_eq h

theorem InBounds.getD_lt {idx sizes : List Nat} {k : Nat} (h : InBounds idx sizes)
    (hk : k < sizes.length) : idx.getD k 0 < sizes.getD k 0 := by
  have hk' : k < idx.length := by rwa [h.length_eq]
  have hlt := h.get hk' hk
  simpa [List.getD_eq_getElem?_getD, hk, hk'] using hlt

/-! ## Leading dimensions -/

section

variable {α β : Type*}

/-- `l` at the end of a list of length `n`, behind copies of `x`. -/
def alignRight (x : α) (n : Nat) (l : List α) : List α :=
  List.replicate (n - l.length) x ++ l

theorem length_alignRight (x : α) (n : Nat) (l : List α) :
    (alignRight x n l).length = max n l.length := by
  simp only [alignRight, List.length_append, List.length_replicate]
  omega

theorem alignRight_append (x : α) (n : Nat) (l k : List α) :
    alignRight x (n + k.length) (l ++ k) = alignRight x n l ++ k := by
  simp [alignRight, Nat.add_sub_add_right]

theorem map_alignRight (f : α → β) (x : α) (n : Nat) (l : List α) :
    (alignRight x n l).map f = alignRight (f x) n (l.map f) := by
  simp [alignRight]

end

theorem address_replicate_zero (k size : Nat) (i : List Nat) :
    address (List.replicate k ⟨size, 0⟩) i = 0 := by
  induction k generalizing i with
  | zero => rfl
  | succ k ih =>
    cases i with
    | nil => rfl
    | cons j i => simp [List.replicate_succ, address, ih]

/-- Leading dimensions of stride zero are not seen. -/
theorem address_alignRight (size n : Nat) {v : List Dim} {i : List Nat}
    (h : i.length = max n v.length) :
    address (alignRight ⟨size, 0⟩ n v) i = address v (i.drop (i.length - v.length)) := by
  have hsplit : i = i.take (i.length - v.length) ++ i.drop (i.length - v.length) :=
    (List.take_append_drop _ _).symm
  have hk : n - v.length = i.length - v.length := by omega
  rw [alignRight]
  conv_lhs => rw [hsplit]
  rw [address_append (by simp [hk]), address_replicate_zero, Nat.zero_add]

theorem drop_alignRight {α : Type*} (x : α) (n : Nat) (l : List α) :
    (alignRight x n l).drop (n - l.length) = l := by
  rw [alignRight, List.drop_left' (by simp)]

theorem alignRight_inj {α : Type*} {x : α} {n : Nat} {k l : List α} (hlen : k.length = l.length) :
    alignRight x n k = alignRight x n l ↔ k = l := by
  unfold alignRight
  rw [hlen, List.append_cancel_left_eq]

/-! ## The last two dimensions -/

theorem exists_append_pair {α : Type*} {l : List α} (h : 2 ≤ l.length) :
    ∃ front x y, l = front ++ [x, y] := by
  refine ⟨l.take (l.length - 2), l[l.length - 2], l[l.length - 1], ?_⟩
  conv_lhs => rw [← List.take_append_drop (l.length - 2) l]
  rw [List.drop_eq_getElem_cons (by omega), List.drop_eq_getElem_cons (by omega),
    List.drop_of_length_le (by omega)]
  congr
  omega

theorem inBounds_append_pair {i sizes : List Nat} {row col m n : Nat} :
    InBounds (i ++ [row, col]) (sizes ++ [m, n]) ↔ InBounds i sizes ∧ row < m ∧ col < n := by
  constructor
  · intro h
    have hlen : i.length = sizes.length := by simpa using h.length_eq
    have htake := List.forall₂_take i.length h
    have hdrop := List.forall₂_drop i.length h
    rw [List.take_left, hlen, List.take_left] at htake
    rw [List.drop_left, hlen, List.drop_left] at hdrop
    simp only [List.forall₂_cons, List.Forall₂.nil, and_true] at hdrop
    exact ⟨htake, hdrop⟩
  · rintro ⟨hi, hrow, hcol⟩
    exact List.rel_append hi (.cons hrow (.cons hcol .nil))

/-! ## Broadcasting -/

/-- The common size of two dimensions: equal ones, or one that is 1. -/
def broadcastSize (a b : Nat) : Option Nat :=
  if a = b then some a else if a = 1 then some b else if b = 1 then some a else none

/-- The common shape of two shapes, aligned at their ends. -/
def broadcastShapes (a b : List Nat) : Option (List Nat) :=
  ((alignRight 1 (max a.length b.length) a).zip (alignRight 1 (max a.length b.length) b)).mapM
    fun p => broadcastSize p.1 p.2

/-- The index of a tensor of shape `sizes` that is repeated to the shape of `idx`. -/
def restrictTo (sizes idx : List Nat) : List Nat :=
  List.zipWith (fun size i => if size = 1 then 0 else i) sizes
    (idx.drop (idx.length - sizes.length))

theorem broadcastSize_comm (a b : Nat) : broadcastSize a b = broadcastSize b a := by
  unfold broadcastSize
  grind

theorem broadcastSize_cases {a b c : Nat} (h : broadcastSize a b = some c) :
    a = c ∧ (b = c ∨ b = 1) ∨ a = 1 ∧ b = c := by
  unfold broadcastSize at h
  grind

theorem mapM_eq_some_iff {α β : Type*} {f : α → Option β} {l : List α} {k : List β} :
    l.mapM f = some k ↔ List.Forall₂ (fun x y => f x = some y) l k := by
  induction l generalizing k with
  | nil => simp [eq_comm]
  | cons x l ih =>
    rw [List.mapM_cons]
    cases k with
    | nil => simp [Option.bind_eq_some_iff]
    | cons y k => simp [Option.bind_eq_some_iff, ih]

/-- Along an aligned shape the dimensions are those of the common shape, or 1. -/
theorem stretches_aligned {a b c : List Nat} (h : broadcastShapes a b = some c) :
    List.Forall₂ (fun d e => d = e ∨ d = 1) (alignRight 1 (max a.length b.length) a) c := by
  rw [broadcastShapes, mapM_eq_some_iff] at h
  have hlen : (alignRight 1 (max a.length b.length) a).length =
      (alignRight 1 (max a.length b.length) b).length := by
    simp [length_alignRight]
  rw [← List.map_fst_zip hlen.le, List.forall₂_map_left_iff]
  refine h.imp fun p e hp => ?_
  rcases broadcastSize_cases hp with ⟨ha, -⟩ | ⟨ha, -⟩
  · exact Or.inl ha
  · exact Or.inr ha

theorem length_of_broadcastShapes {a b c : List Nat} (h : broadcastShapes a b = some c) :
    c.length = max a.length b.length := by
  rw [← (stretches_aligned h).length_eq, length_alignRight]
  omega

theorem broadcastShapes_comm {a b c : List Nat} (h : broadcastShapes a b = some c) :
    broadcastShapes b a = some c := by
  rw [broadcastShapes, mapM_eq_some_iff] at h ⊢
  rw [max_comm, ← List.zip_swap, List.forall₂_map_left_iff]
  exact h.imp fun p e hp => (broadcastSize_comm p.2 p.1).trans hp

theorem stretches_drop {a b c : List Nat} (h : broadcastShapes a b = some c) :
    List.Forall₂ (fun d e => d = e ∨ d = 1) a (c.drop (c.length - a.length)) := by
  have hdrop := List.forall₂_drop (c.length - a.length) (stretches_aligned h)
  have hlen := length_of_broadcastShapes h
  rwa [← hlen, drop_alignRight] at hdrop

/-- A dimension of the common shape is one of the two shapes, or 1. -/
theorem mem_broadcastShapes {a b c : List Nat} {d : Nat} (h : broadcastShapes a b = some c)
    (hd : d ∈ c) : d = 1 ∨ d ∈ a ∨ d ∈ b := by
  rw [broadcastShapes, mapM_eq_some_iff] at h
  obtain ⟨i, hi, rfl⟩ := List.mem_iff_getElem.1 hd
  have hsize := h.get (i := i) (by rw [h.length_eq]; exact hi) hi
  have haligned : ∀ (l : List Nat) (n e : Nat), e ∈ alignRight 1 n l → e = 1 ∨ e ∈ l := by
    intro l n e he
    rcases List.mem_append.1 he with hpad | hl
    · exact Or.inl (List.eq_of_mem_replicate hpad)
    · exact Or.inr hl
  simp only [List.get_eq_getElem, List.getElem_zip] at hsize
  rcases broadcastSize_cases hsize with ⟨ha, -⟩ | ⟨-, hb⟩
  · rw [← ha]
    rcases haligned _ _ _ (List.getElem_mem _) with h1 | hmem
    · exact Or.inl h1
    · exact Or.inr (Or.inl hmem)
  · rw [← hb]
    rcases haligned _ _ _ (List.getElem_mem _) with h1 | hmem
    · exact Or.inl h1
    · exact Or.inr (Or.inr hmem)

/-- Reading a dimension of size 1 at 0 stays in bounds. -/
theorem inBounds_zipWith {a c j : List Nat} (h : List.Forall₂ (fun d e => d = e ∨ d = 1) a c)
    (hj : InBounds j c) :
    InBounds (List.zipWith (fun size k => if size = 1 then 0 else k) a j) a := by
  induction h generalizing j with
  | nil => exact .nil
  | cons hd _ ih =>
    cases hj with
    | cons hk hrest =>
      refine .cons ?_ (ih hrest)
      dsimp only
      split
      · next hone => omega
      · next hne => omega

theorem inBounds_restrictTo {a b c i : List Nat} (h : broadcastShapes a b = some c)
    (hi : InBounds i c) : InBounds (restrictTo a i) a := by
  rw [restrictTo, hi.length_eq]
  exact inBounds_zipWith (stretches_drop h) (List.forall₂_drop _ hi)

theorem zipWith_of_inBounds {a i : List Nat} (hi : InBounds i a) :
    List.zipWith (fun size k => if size = 1 then 0 else k) a i = i := by
  induction hi with
  | nil => rfl
  | @cons k size _ _ hk _ ih =>
    rw [List.zipWith_cons_cons, ih]
    split
    · next hone =>
      obtain rfl : k = 0 := by omega
      rfl
    · rfl

theorem inBounds_stretched {a c i : List Nat} (h : List.Forall₂ (fun d e => d = e ∨ d = 1) a c)
    (hpos : ∀ e ∈ c, 0 < e) (hi : InBounds i a) : InBounds i c := by
  induction h generalizing i with
  | nil => exact hi
  | cons hd _ ih =>
    cases hi with
    | cons hk hrest =>
      have hfirst := hpos _ List.mem_cons_self
      exact .cons (by omega) (ih (fun e he => hpos e (List.mem_cons_of_mem _ he)) hrest)

theorem inBounds_replicate_zero {c : List Nat} (hpos : ∀ e ∈ c, 0 < e) :
    InBounds (List.replicate c.length 0) c := by
  induction c with
  | nil => exact .nil
  | cons e c ih =>
    exact .cons (hpos e List.mem_cons_self) (ih fun d hd => hpos d (List.mem_cons_of_mem e hd))

/-- Every index of the smaller shape is the restriction of one of the common shape. -/
theorem exists_restrictTo {a b c i : List Nat} (h : broadcastShapes a b = some c)
    (hpos : ∀ d ∈ c, 0 < d) (hi : InBounds i a) : ∃ j, InBounds j c ∧ restrictTo a j = i := by
  have hlen : a.length ≤ c.length := by
    rw [length_of_broadcastShapes h]
    exact le_max_left _ _
  have hi' := hi.length_eq
  refine ⟨alignRight 0 c.length i, ?_, ?_⟩
  · have hzero := inBounds_replicate_zero fun e he =>
      hpos e (List.mem_of_mem_take (i := c.length - a.length) he)
    rw [List.length_take, Nat.min_eq_left (Nat.sub_le _ _), ← hi'] at hzero
    rw [alignRight]
    conv_rhs => rw [← List.take_append_drop (c.length - a.length) c]
    refine List.rel_append ?_ ?_
    · rwa [hi'] at hzero ⊢
    · exact inBounds_stretched (stretches_drop h)
        (fun e he => hpos e (List.mem_of_mem_drop he)) hi
  · rw [restrictTo, length_alignRight, hi', Nat.max_eq_left hlen, ← hi', drop_alignRight,
      zipWith_of_inBounds hi]

/-! ## Common shapes -/

/-- `c` is the common size of two dimensions: theirs, or that of one when the other is 1. -/
def CommonSize (a b c : Nat) : Prop :=
  a = c ∧ b = c ∨ a = 1 ∧ b = c ∨ a = c ∧ b = 1

/-- `c` is the common shape of `a` and `b`: aligned at their ends, with 1 for the dimensions that one
of them lacks, they have it dimension by dimension. -/
def IsBroadcast (a b c : List Nat) : Prop :=
  List.Forall₂ (fun p d => CommonSize p.1 p.2 d)
    ((alignRight 1 (max a.length b.length) a).zip (alignRight 1 (max a.length b.length) b)) c

theorem broadcastSize_eq_some_iff {a b c : Nat} :
    broadcastSize a b = some c ↔ CommonSize a b c := by
  unfold broadcastSize CommonSize
  grind

theorem broadcastShapes_eq_some_iff {a b c : List Nat} :
    broadcastShapes a b = some c ↔ IsBroadcast a b c := by
  rw [broadcastShapes, mapM_eq_some_iff, IsBroadcast]
  simp only [broadcastSize_eq_some_iff]

/-! ## Repeated views -/

/-- The index of a shape that is repeated along its dimensions of size 1. -/
def restrict (sizes idx : List Nat) : List Nat :=
  List.zipWith (fun size i => if size = 1 then 0 else i) sizes idx

@[simp] theorem restrict_cons (size i : Nat) (sizes idx : List Nat) :
    restrict (size :: sizes) (i :: idx) = (if size = 1 then 0 else i) :: restrict sizes idx :=
  rfl

/-- `w` reads the view `v`, repeated along its dimensions of size 1. -/
def Repeats (v w : List Dim) : Prop :=
  ∀ idx, InBounds idx (w.map Dim.size) →
    address w idx = address v (restrict (v.map Dim.size) idx)

/-- The dimension `e` goes along `d`, or repeats it when its size is 1. -/
def Along (d e : Dim) : Prop :=
  e.size = 1 ∨ e.stride = if d.size = 1 then 0 else d.stride

instance (d e : Dim) : Decidable (Along d e) :=
  inferInstanceAs (Decidable (_ ∨ _))

theorem along_iff {d e : Dim} (hpos : 0 < e.size) :
    (∀ i < e.size, e.stride * i = d.stride * if d.size = 1 then 0 else i) ↔ Along d e := by
  constructor
  · intro h
    rcases Nat.lt_or_ge 1 e.size with hlt | hle
    · have hone := h 1 hlt
      refine Or.inr ?_
      split at hone
      · next hd => rw [if_pos hd, ← Nat.mul_one e.stride, hone, Nat.mul_zero]
      · next hd => rw [if_neg hd, ← Nat.mul_one e.stride, hone, Nat.mul_one]
    · exact Or.inl (by omega)
  · intro h i hi
    rcases h with hone | hstride
    · obtain rfl : i = 0 := by omega
      simp
    · rw [hstride]
      split <;> simp

theorem address_zeros (v : List Dim) (n : Nat) : address v (List.replicate n 0) = 0 := by
  induction v generalizing n with
  | nil => cases n <;> rfl
  | cons d v ih =>
    cases n with
    | zero => rfl
    | succ n => simp [List.replicate_succ, address, ih]

theorem rowMajor_zeros (sizes : List Nat) (n : Nat) : rowMajor sizes (List.replicate n 0) = 0 := by
  rw [← address_packed, address_zeros]

theorem restrict_zeros (sizes : List Nat) (n : Nat) :
    restrict sizes (List.replicate n 0) = List.replicate (min sizes.length n) 0 := by
  induction sizes generalizing n with
  | nil => simp [restrict]
  | cons size sizes ih =>
    cases n with
    | zero => rfl
    | succ n =>
      rw [List.replicate_succ, restrict_cons, ite_self, ih, List.length_cons, Nat.succ_min_succ,
        List.replicate_succ]

/-- One dimension after the other. -/
theorem repeats_cons {d e : Dim} {v w : List Dim} (hpos : ∀ e' ∈ e :: w, 0 < e'.size) :
    Repeats (d :: v) (e :: w) ↔ Along d e ∧ Repeats v w := by
  have hzeros : InBounds (List.replicate w.length 0) (w.map Dim.size) := by
    have hall := inBounds_replicate_zero (c := w.map Dim.size) fun n hn => by
      obtain ⟨e', he', rfl⟩ := List.mem_map.1 hn
      exact hpos e' (List.mem_cons_of_mem e he')
    rwa [List.length_map] at hall
  have hfirst := hpos e List.mem_cons_self
  rw [← along_iff hfirst]
  constructor
  · intro h
    refine ⟨fun i hi => ?_, fun idx hidx => ?_⟩
    · have hi := h (i :: List.replicate w.length 0) (.cons hi hzeros)
      simpa [address, restrict_zeros, address_zeros] using hi
    · have hidx := h (0 :: idx) (.cons hfirst hidx)
      simpa [address] using hidx
  · rintro ⟨hdim, hrest⟩ idx hidx
    cases hidx with
    | cons hi hidx =>
      simp only [List.map_cons, restrict_cons, address, hdim _ hi, hrest _ hidx]

theorem repeats_iff {v w : List Dim} (hlen : v.length = w.length) (hpos : ∀ e ∈ w, 0 < e.size) :
    Repeats v w ↔ List.Forall₂ Along v w := by
  induction v generalizing w with
  | nil =>
    obtain rfl := List.length_eq_zero_iff.1 hlen.symm
    refine iff_of_true (fun idx hidx => ?_) .nil
    cases hidx
    rfl
  | cons d v ih =>
    cases w with
    | nil => cases hlen
    | cons e w =>
      rw [repeats_cons hpos, List.forall₂_cons,
        ih (Nat.succ.inj hlen) fun e' he' => hpos e' (List.mem_cons_of_mem e he')]

theorem rowMajor_lt {sizes idx : List Nat} (h : InBounds idx sizes) :
    rowMajor sizes idx < sizes.prod := by
  induction h with
  | nil => exact Nat.one_pos
  | @cons i size idx sizes hi _ ih =>
    rw [rowMajor, List.prod_cons]
    calc sizes.prod * i + rowMajor sizes idx < sizes.prod * i + sizes.prod := by omega
      _ = (i + 1) * sizes.prod := by ring
      _ ≤ size * sizes.prod := Nat.mul_le_mul_right _ hi

/-- The leading dimensions of size 1 are not seen. -/
theorem rowMajor_restrict_ones (k : Nat) (sizes idx : List Nat) :
    rowMajor (List.replicate k 1 ++ sizes) (restrict (List.replicate k 1 ++ sizes) idx) =
      rowMajor sizes (restrict sizes (idx.drop k)) := by
  induction k generalizing idx with
  | zero => rfl
  | succ k ih =>
    cases idx with
    | nil =>
      cases sizes <;> simp [List.replicate_succ, restrict, rowMajor]
    | cons i idx =>
      simp only [List.replicate_succ, List.cons_append, restrict_cons, if_true, rowMajor,
        Nat.mul_zero, Nat.zero_add, List.drop_succ_cons, ih]

/-- The element of a shape that an index of a longer one is restricted to. -/
theorem rowMajor_restrictTo (sizes idx : List Nat) :
    address (packed (alignRight 1 idx.length sizes))
      (restrict (alignRight 1 idx.length sizes) idx) = rowMajor sizes (restrictTo sizes idx) := by
  rw [address_packed, alignRight, rowMajor_restrict_ones]
  rfl

/-! ## Aligned indices -/

theorem inBounds_ones {k : Nat} {idx sizes : List Nat} :
    InBounds idx (List.replicate k 1 ++ sizes) ↔
      ∃ i, InBounds i sizes ∧ idx = List.replicate k 0 ++ i := by
  induction k generalizing idx with
  | zero => simp
  | succ k ih =>
    rw [List.replicate_succ, List.cons_append, InBounds, List.forall₂_cons_right_iff]
    constructor
    · rintro ⟨x, rest, hx, hrest, rfl⟩
      obtain ⟨i, hi, rfl⟩ := ih.1 hrest
      obtain rfl : x = 0 := by omega
      exact ⟨i, hi, rfl⟩
    · rintro ⟨i, hi, rfl⟩
      exact ⟨0, List.replicate k 0 ++ i, Nat.one_pos, ih.2 ⟨i, hi, rfl⟩, rfl⟩

/-- The dimensions before a shape are of size 1. -/
theorem inBounds_alignRight {n : Nat} {idx sizes : List Nat} :
    InBounds idx (alignRight 1 n sizes) ↔ ∃ i, InBounds i sizes ∧ idx = alignRight 0 n i := by
  rw [alignRight, inBounds_ones]
  refine exists_congr fun i => and_congr_right fun hi => ?_
  rw [alignRight, hi.length_eq]

theorem restrictTo_alignRight {n : Nat} {idx sizes : List Nat} (h : sizes.length ≤ idx.length) :
    restrictTo sizes (alignRight 0 n idx) = restrictTo sizes idx := by
  have hdrop : (alignRight 0 n idx).length - sizes.length =
      (n - idx.length) + (idx.length - sizes.length) := by
    rw [length_alignRight]
    omega
  rw [restrictTo, restrictTo, hdrop, ← List.drop_drop, drop_alignRight]

theorem pair_inj {l k : List Nat} {x y u v : Nat} (h : l ++ [x, y] = k ++ [u, v]) :
    l = k ∧ x = u ∧ y = v := by
  have hlen : l.length = k.length := by simpa using congrArg List.length h
  obtain ⟨hl, hpair⟩ := List.append_inj h hlen
  simp only [List.cons.injEq, and_true] at hpair
  exact ⟨hl, hpair⟩

/-- The leading dimensions of size 1 are not seen. -/
theorem rowMajor_alignRight {n : Nat} {sizes idx : List Nat} (h : idx.length = sizes.length) :
    rowMajor (alignRight 1 n sizes) (alignRight 0 n idx) = rowMajor sizes idx := by
  rw [alignRight, alignRight, h]
  generalize n - sizes.length = k
  induction k with
  | zero => rfl
  | succ k ih => simp only [List.replicate_succ, List.cons_append, rowMajor, Nat.mul_zero, ih,
      Nat.zero_add]

/-! ## Views of one slice -/

/-- Dimensions of size 1 or of stride zero do not move the place. -/
theorem address_eq_zero {v : List Dim} {i : List Nat} (h : ∀ d ∈ v, d.size = 1 ∨ d.stride = 0)
    (hi : InBounds i (v.map Dim.size)) : address v i = 0 := by
  induction v generalizing i with
  | nil => rfl
  | cons d v ih =>
    cases hi with
    | @cons k _ i _ hk hrest =>
      rw [address, ih (fun e he => h e (List.mem_cons_of_mem d he)) hrest, Nat.add_zero]
      rcases h d List.mem_cons_self with hone | hstride
      · obtain rfl : k = 0 := by omega
        exact Nat.mul_zero _
      · rw [hstride, Nat.zero_mul]

/-! ## Equal views -/

/-- Two views in the same sizes address the same places when their strides agree along every
dimension that is longer than 1. -/
theorem addresses_eq_iff {v w : List Dim} (hsizes : v.map Dim.size = w.map Dim.size)
    (hpos : ∀ d ∈ v, 0 < d.size) :
    (∀ idx, InBounds idx (v.map Dim.size) → address v idx = address w idx) ↔
      List.Forall₂ (fun d e => d.size = 1 ∨ d.stride = e.stride) v w := by
  induction v generalizing w with
  | nil =>
    obtain rfl : w = [] := by simpa using hsizes.symm
    refine iff_of_true (fun idx hidx => ?_) .nil
    cases hidx
    rfl
  | cons d v ih =>
    cases w with
    | nil => cases hsizes
    | cons e w =>
      rw [List.map_cons, List.map_cons, List.cons.injEq] at hsizes
      have hrest := fun d' hd' => hpos d' (List.mem_cons_of_mem d hd')
      have hfirst := hpos d List.mem_cons_self
      rw [List.forall₂_cons, ← ih hsizes.2 hrest]
      constructor
      · intro h
        refine ⟨?_, fun idx hidx => ?_⟩
        · rcases Nat.lt_or_ge 1 d.size with hlt | hle
          · have hzeros : InBounds (List.replicate v.length 0) (v.map Dim.size) := by
              have hall := inBounds_replicate_zero (c := v.map Dim.size) fun n hn => by
                obtain ⟨d', hd', rfl⟩ := List.mem_map.1 hn
                exact hrest d' hd'
              rwa [List.length_map] at hall
            have hunit := h (1 :: List.replicate v.length 0) (.cons hlt hzeros)
            exact Or.inr (by simpa [address, address_zeros] using hunit)
          · exact Or.inl (by omega)
        · have hidx := h (0 :: idx) (.cons hfirst hidx)
          simpa [address] using hidx
      · rintro ⟨hdim, hall⟩ idx hidx
        cases hidx with
        | @cons i _ idx _ hi hidx =>
          rcases hdim with hone | hstride
          · obtain rfl : i = 0 := by omega
            simp [address, hall idx hidx]
          · simp [address, hstride, hall idx hidx]

/-! ## Buffers -/

/-- A buffer can have any values, since no two indices have one place. -/
theorem exists_buffer {V : Type*} (sizes : List Nat) (value : List Nat → V) :
    ∃ out : Nat → V, ∀ idx, InBounds idx sizes → out (rowMajor sizes idx) = value idx := by
  induction sizes generalizing value with
  | nil =>
    refine ⟨fun _ => value [], fun idx hidx => ?_⟩
    cases hidx
    rfl
  | cons size sizes ih =>
    choose part hpart using fun i => ih fun idx => value (i :: idx)
    refine ⟨fun p => part (p / sizes.prod) (p % sizes.prod), fun idx hidx => ?_⟩
    cases hidx with
    | @cons i _ idx _ hi hidx =>
      have hlt := rowMajor_lt hidx
      have hpos : 0 < sizes.prod := by omega
      have hplace : rowMajor (size :: sizes) (i :: idx) =
          sizes.prod * i + rowMajor sizes idx := rfl
      rw [hplace]
      dsimp only
      rw [Nat.mul_add_div hpos, Nat.div_eq_of_lt hlt, Nat.add_zero, Nat.mul_add_mod,
        Nat.mod_eq_of_lt hlt]
      exact hpart i idx hidx

/-- The last index has the last place. -/
theorem rowMajor_last {sizes : List Nat} (h : ∀ d ∈ sizes, 0 < d) :
    rowMajor sizes (sizes.map (· - 1)) + 1 = sizes.prod := by
  induction sizes with
  | nil => rfl
  | cons size sizes ih =>
    have hrest := ih fun d hd => h d (List.mem_cons_of_mem size hd)
    obtain ⟨k, rfl⟩ : ∃ k, size = k + 1 := ⟨size - 1, by have := h size List.mem_cons_self; omega⟩
    rw [List.map_cons, rowMajor, List.prod_cons, Nat.add_sub_cancel, Nat.add_assoc, hrest]
    ring

/-- A range of rows, one after the other. -/
theorem map_range_mul {α : Type*} (rows cols : Nat) (f : Nat → α) :
    (List.range (rows * cols)).map f =
      (List.range rows).flatMap fun i => (List.range cols).map fun j => f (i * cols + j) := by
  induction rows with
  | zero => simp
  | succ rows ih =>
    rw [Nat.succ_mul, List.range_add, List.map_append, ih, List.range_succ, List.flatMap_append,
      List.flatMap_singleton, List.map_map]
    rfl

/-! ## Permuted dimensions -/

section

variable {α β : Type*}

/-- The entry at each place is the one that the permutation names there. -/
def permute (perm : List Nat) (x : α) (l : List α) : List α :=
  perm.map fun p => l.getD p x

/-- Each entry goes back to the place that the permutation has taken it from. -/
def unpermute (perm : List Nat) (x : α) (l : List α) : List α :=
  (List.range perm.length).map fun k => l.getD (perm.idxOf k) x

@[simp] theorem length_permute (perm : List Nat) (x : α) (l : List α) :
    (permute perm x l).length = perm.length := by
  simp [permute]

@[simp] theorem length_unpermute (perm : List Nat) (x : α) (l : List α) :
    (unpermute perm x l).length = perm.length := by
  simp [unpermute]

theorem map_permute (f : α → β) (perm : List Nat) (x : α) (l : List α) :
    (permute perm x l).map f = permute perm (f x) (l.map f) := by
  simp only [permute, List.map_map]
  refine List.map_congr_left fun p _ => ?_
  cases hp : l[p]? with
  | none => simp [List.getD_eq_getElem?_getD, hp]
  | some y => simp [List.getD_eq_getElem?_getD, hp]

theorem map_getD_range (x : α) (l : List α) :
    (List.range l.length).map (fun k => l.getD k x) = l := by
  refine List.ext_getElem (by simp) fun k hk hk' => ?_
  simp [hk']

variable {perm : List Nat} {n : Nat}

theorem unpermute_permute (hperm : perm.Perm (List.range n)) (x : α) {l : List α}
    (hl : l.length = n) : unpermute perm x (permute perm x l) = l := by
  have hlen : perm.length = n := by simpa using hperm.length_eq
  conv_rhs => rw [← map_getD_range x l, hl, ← hlen]
  refine List.map_congr_left fun k hk => ?_
  have hmem : k ∈ perm := hperm.mem_iff.2 (hlen ▸ hk)
  have hidx := List.idxOf_lt_length_iff.2 hmem
  simp [permute, List.getD_eq_getElem?_getD, hidx]

theorem permute_unpermute (hperm : perm.Perm (List.range n)) (x : α) {l : List α}
    (hl : l.length = n) : permute perm x (unpermute perm x l) = l := by
  have hlen : perm.length = n := by simpa using hperm.length_eq
  have hnodup : perm.Nodup := hperm.nodup_iff.2 List.nodup_range
  refine List.ext_getElem (by simp [hlen, hl]) fun k hk hk' => ?_
  have hkp : k < perm.length := by simpa using hk
  have hp : perm[k] < perm.length := by
    have hmem := hperm.mem_iff.1 (List.getElem_mem hkp)
    rw [List.mem_range] at hmem
    omega
  simp [permute, unpermute, hp, hnodup.idxOf_getElem, hk']

/-- Dimensions that are permuted together with the index. -/
theorem address_permute {v : List Dim} (hperm : perm.Perm (List.range v.length)) (d : Dim)
    {i : List Nat} (hi : i.length = v.length) :
    address (permute perm d v) (permute perm 0 i) = address v i := by
  have hpairs := address_perm (hperm.map fun p => (v.getD p d, i.getD p 0))
  simp only [List.map_map, Function.comp_def] at hpairs
  rw [map_getD_range, ← hi, map_getD_range] at hpairs
  exact hpairs

theorem inBounds_permute {i sizes : List Nat} (hperm : perm.Perm (List.range sizes.length))
    (hi : i.length = sizes.length) :
    InBounds (permute perm 0 i) (permute perm 0 sizes) ↔ InBounds i sizes := by
  have hpairs : ∀ l : List Nat, InBounds (l.map fun p => i.getD p 0) (l.map fun p => sizes.getD p 0) ↔
      ∀ p ∈ l, i.getD p 0 < sizes.getD p 0 := by
    intro l
    simp [InBounds, List.forall₂_map_left_iff, List.forall₂_map_right_iff, List.forall₂_same]
  have hrange := hpairs (List.range sizes.length)
  rw [map_getD_range, ← hi, map_getD_range] at hrange
  rw [hrange, hi, permute, permute, hpairs]
  simp only [hperm.mem_iff]

end

end AmdGpuEp
