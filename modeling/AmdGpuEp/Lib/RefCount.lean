import Mathlib.Data.List.Basic
import Mathlib.Data.List.Count
import Mathlib.Data.List.Nodup
import Mathlib.Data.List.Perm.Subperm
import Mathlib.Data.Fintype.Card
import Mathlib.Algebra.Order.BigOperators.Group.List
import Mathlib.Algebra.Order.Ring.Nat
import Mathlib.Logic.Function.Basic
import Mathlib.Logic.Function.Iterate
import Mathlib.Tactic.Common

/-!
# Elimination by reference counts

Vertices `0 .. n - 1` read each other: `uses d` lists the vertex behind each slot
of `d`. A work queue removes the vertices whose count is 0; a removed vertex
releases what its slots read, one by one. The counts `refs` are given, and need
not be the number of slots that read a vertex.

Results:
1. `mem_sweep_iff`: the queue removes exactly the starved vertices: those whose
   count is used up by slots of starved vertices. The order of the queue does
   not matter.
2. `eliminable_iff`: all vertices of a list with every starved vertex are starved
   exactly when the list has an order in which each count is used up by the
   vertices before it.
-/

namespace AmdGpuEp

namespace RefCount

/-! ## Definitions -/

/-- The number of slots of the vertices `dead` that read `i`. -/
def readsOf (uses : Nat → List Nat) (dead : List Nat) (i : Nat) : Nat :=
  (dead.map fun d => (uses d).count i).sum

/-- The slots of starved vertices alone use up the count of the vertex. -/
inductive Starved (uses : Nat → List Nat) (refs : Nat → Nat) (n : Nat) : Nat → Prop
  | intro {i : Nat} (dead : List Nat) (hi : i < n) (hnodup : dead.Nodup)
      (hdead : ∀ d ∈ dead, Starved uses refs n d) (hreads : refs i ≤ readsOf uses dead i) :
      Starved uses refs n i

/-- The list, last vertex first, is an order of removal: the slots of the vertices removed before
use up each count. -/
def Unwinds (uses : Nat → List Nat) (refs : Nat → Nat) : List Nat → Prop
  | [] => True
  | i :: dead => refs i ≤ readsOf uses dead i ∧ Unwinds uses refs dead

def Eliminable (uses : Nat → List Nat) (refs : Nat → Nat) (l : List Nat) : Prop :=
  ∃ order, order.Perm l ∧ Unwinds uses refs order

structure Sweep where
  removed : List Nat := []
  queue : List Nat
  count : Nat → Nat

/-- A slot of a removed vertex lets go of `i`. Only a count of 1 reaches 0. -/
def release (s : Sweep) (i : Nat) : Sweep :=
  if i ∈ s.removed then s
  else { s with
    count := Function.update s.count i (s.count i - 1)
    queue := if s.count i = 1 then s.queue ++ [i] else s.queue }

/-- Removes the first vertex of the queue. -/
def sweepStep (uses : Nat → List Nat) (s : Sweep) : Sweep :=
  match s.queue with
  | [] => s
  | d :: rest => (uses d).foldl release { s with removed := d :: s.removed, queue := rest }

def sweepInit (refs : Nat → Nat) (n : Nat) : Sweep where
  queue := (List.range n).filter fun i => refs i == 0
  count := refs

/-- The state when the queue is empty: every turn removes a vertex, so `n` turns are enough. -/
def sweep (uses : Nat → List Nat) (refs : Nat → Nat) (n : Nat) : Sweep :=
  (sweepStep uses)^[n] (sweepInit refs n)

/-! ## The invariant of the queue -/

theorem readsOf_cons (uses : Nat → List Nat) (d : Nat) (dead : List Nat) (i : Nat) :
    readsOf uses (d :: dead) i = readsOf uses dead i + (uses d).count i := by
  simp [readsOf, Nat.add_comm]

theorem readsOf_le {uses : Nat → List Nat} {l l' : List Nat} (hl : l.Nodup) (h : l ⊆ l')
    (i : Nat) : readsOf uses l i ≤ readsOf uses l' i := by
  obtain ⟨k, hk, hkl⟩ := List.subperm_of_subset hl h
  have hperm : readsOf uses k i = readsOf uses l i := (hk.map _).sum_eq
  rw [← hperm]
  exact (hkl.map _).sum_le_sum (by simp)

variable {uses : Nat → List Nat} {refs r : Nat → Nat} {n : Nat} {s : Sweep}

/-- `r` counts the slots let go so far. What is not removed is in the queue exactly when its count
is used up. -/
structure Inv (refs : Nat → Nat) (n : Nat) (r : Nat → Nat) (s : Sweep) : Prop where
  nodup : (s.removed ++ s.queue).Nodup
  lt : ∀ i ∈ s.removed ++ s.queue, i < n
  count : ∀ i, i ∉ s.removed → s.count i = refs i - r i
  queued : ∀ i, i < n → i ∉ s.removed → (i ∈ s.queue ↔ refs i ≤ r i)

theorem inv_release (h : Inv refs n r s) {i : Nat} (hi : i < n) :
    Inv refs n (Function.update r i (r i + 1)) (release s i) := by
  unfold release
  split
  · next hrem =>
    have hne : ∀ j, j ∉ s.removed → Function.update r i (r i + 1) j = r j := by
      rintro j hj
      refine Function.update_of_ne ?_ _ _
      rintro rfl
      exact hj hrem
    refine ⟨h.nodup, h.lt, fun j hj => ?_, fun j hjn hj => ?_⟩
    · rw [hne j hj]
      exact h.count j hj
    · rw [hne j hj]
      exact h.queued j hjn hj
  · next hrem =>
    have hcount := h.count i hrem
    have hqueued := h.queued i hi hrem
    refine ⟨?_, ?_, fun j hj => ?_, fun j hjn hj => ?_⟩
    · split
      · next hone =>
        have hnot : i ∉ s.removed ++ s.queue := by
          rw [List.mem_append, hqueued, or_iff_right hrem, ← Nat.sub_eq_zero_iff_le, ← hcount,
            hone]
          exact Nat.one_ne_zero
        rw [← List.append_assoc]
        exact List.nodup_append_comm.1 (List.nodup_cons.2 ⟨hnot, h.nodup⟩)
      · exact h.nodup
    · intro j hj
      split at hj
      · rw [← List.append_assoc] at hj
        rcases List.mem_append.1 hj with hj | hj
        · exact h.lt j hj
        · rw [List.mem_singleton.1 hj]
          exact hi
      · exact h.lt j hj
    · show Function.update s.count i (s.count i - 1) j = _
      by_cases hji : j = i
      · subst hji
        simp only [Function.update_self]
        omega
      · rw [Function.update_of_ne hji, Function.update_of_ne hji]
        exact h.count j hj
    · by_cases hji : j = i
      · subst hji
        rw [Function.update_self]
        split
        · simp only [List.mem_append, List.mem_singleton, or_true, true_iff]
          omega
        · rw [hqueued]
          omega
      · rw [Function.update_of_ne hji]
        split
        · simp only [List.mem_append, List.mem_singleton, hji, or_false]
          exact h.queued j hjn hj
        · exact h.queued j hjn hj

@[simp] theorem removed_release (s : Sweep) (i : Nat) : (release s i).removed = s.removed := by
  unfold release
  split <;> rfl

@[simp] theorem removed_foldl_release (slots : List Nat) (s : Sweep) :
    (slots.foldl release s).removed = s.removed := by
  induction slots generalizing s with
  | nil => rfl
  | cons i slots ih => rw [List.foldl_cons, ih, removed_release]

theorem inv_foldl_release {slots : List Nat} (hslots : ∀ i ∈ slots, i < n)
    (h : Inv refs n r s) :
    Inv refs n (fun i => r i + slots.count i) (slots.foldl release s) := by
  induction slots generalizing r s with
  | nil => simpa using h
  | cons i slots ih =>
    rw [List.foldl_cons]
    have hrest := ih (fun j hj => hslots j (List.mem_cons_of_mem _ hj))
      (inv_release h (hslots i List.mem_cons_self))
    have heq : (fun j => Function.update r i (r i + 1) j + slots.count j) =
        fun j => r j + (i :: slots).count j := by
      funext j
      by_cases hji : j = i
      · subst hji
        simp only [Function.update_self, List.count_cons_self]
        omega
      · rw [Function.update_of_ne hji, List.count_cons_of_ne (Ne.symm hji)]
    rwa [heq] at hrest

/-- What holds between two turns: the slots let go are those of the removed vertices, and these
are starved. -/
structure Swept (uses : Nat → List Nat) (refs : Nat → Nat) (n : Nat) (s : Sweep) : Prop where
  inv : Inv refs n (readsOf uses s.removed) s
  starved : ∀ i ∈ s.removed, Starved uses refs n i

theorem swept_init : Swept uses refs n (sweepInit refs n) := by
  refine ⟨⟨?_, ?_, ?_, ?_⟩, by simp [sweepInit]⟩
  · exact List.nodup_range.filter _
  · intro i hi
    exact List.mem_range.1 (List.mem_filter.1 hi).1
  · simp [sweepInit, readsOf]
  · intro i hi _
    simp [sweepInit, readsOf, hi]

theorem starved_of_queued (h : Swept uses refs n s) {i : Nat} (hi : i ∈ s.queue) :
    Starved uses refs n i := by
  have hlt := h.inv.lt i (List.mem_append_right _ hi)
  have hnot : i ∉ s.removed := fun hr => List.disjoint_of_nodup_append h.inv.nodup hr hi
  exact .intro s.removed hlt h.inv.nodup.of_append_left h.starved
    ((h.inv.queued i hlt hnot).1 hi)

theorem swept_step (huses : ∀ d, ∀ i ∈ uses d, i < n) (h : Swept uses refs n s) :
    Swept uses refs n (sweepStep uses s) := by
  unfold sweepStep
  split
  · exact h
  · next d rest hqueue =>
    have hd : Starved uses refs n d := starved_of_queued h (hqueue ▸ List.mem_cons_self)
    have hperm : (d :: s.removed ++ rest).Perm (s.removed ++ s.queue) := by
      rw [hqueue]
      exact List.perm_middle.symm
    have hstart : Inv refs n (readsOf uses s.removed)
        { s with removed := d :: s.removed, queue := rest } := by
      refine ⟨hperm.nodup_iff.2 h.inv.nodup, fun i hi => h.inv.lt i (hperm.mem_iff.1 hi),
        fun i hi => h.inv.count i (mt (List.mem_cons_of_mem d) hi), fun i hin hi => ?_⟩
      obtain ⟨hne, hi⟩ := not_or.1 (mt List.mem_cons.2 hi)
      rw [← h.inv.queued i hin hi, hqueue, List.mem_cons]
      exact (or_iff_right hne).symm
    refine ⟨?_, ?_⟩
    · have hend := inv_foldl_release (huses d) hstart
      have hreads : readsOf uses (d :: s.removed) =
          fun i => readsOf uses s.removed i + (uses d).count i :=
        funext fun i => readsOf_cons uses d s.removed i
      rwa [removed_foldl_release, hreads]
    · rw [removed_foldl_release]
      intro i hi
      rcases List.mem_cons.1 hi with rfl | hi
      · exact hd
      · exact h.starved i hi

/-! ## The end of the queue -/

theorem swept_iterate (huses : ∀ d, ∀ i ∈ uses d, i < n) (k : Nat) :
    Swept uses refs n ((sweepStep uses)^[k] (sweepInit refs n)) := by
  induction k with
  | zero => exact swept_init
  | succ k ih =>
    rw [Function.iterate_succ_apply']
    exact swept_step huses ih

theorem progress (uses : Nat → List Nat) (refs : Nat → Nat) (n k : Nat) :
    ((sweepStep uses)^[k] (sweepInit refs n)).queue = [] ∨
      ((sweepStep uses)^[k] (sweepInit refs n)).removed.length = k := by
  induction k with
  | zero => exact Or.inr rfl
  | succ k ih =>
    rw [Function.iterate_succ_apply']
    generalize (sweepStep uses)^[k] (sweepInit refs n) = s at ih
    cases hqueue : s.queue with
    | nil =>
      left
      simp [sweepStep, hqueue]
    | cons d rest =>
      right
      rw [hqueue] at ih
      simp [sweepStep, hqueue, ih.resolve_left]

theorem queue_sweep (huses : ∀ d, ∀ i ∈ uses d, i < n) : (sweep uses refs n).queue = [] := by
  have h : Swept uses refs n (sweep uses refs n) := swept_iterate huses n
  rcases progress uses refs n n with hempty | hfull
  · exact hempty
  · have hle := (List.subperm_of_subset h.inv.nodup fun i hi =>
      List.mem_range.2 (h.inv.lt i hi)).length_le
    have hremoved : (sweep uses refs n).removed.length = n := hfull
    rw [List.length_append, hremoved, List.length_range] at hle
    exact List.eq_nil_of_length_eq_zero (by omega)

/-- The queue removes exactly the starved vertices. -/
theorem mem_sweep_iff (huses : ∀ d, ∀ i ∈ uses d, i < n) {i : Nat} :
    i ∈ (sweep uses refs n).removed ↔ Starved uses refs n i := by
  have h : Swept uses refs n (sweep uses refs n) := swept_iterate huses n
  constructor
  · exact h.starved i
  · intro hi
    induction hi with
    | @intro i dead hin hnodup _ hreads ih =>
      by_contra hnot
      have hle := Nat.le_trans hreads (readsOf_le hnodup ih i)
      have hqueue := (h.inv.queued i hin hnot).2 hle
      rw [queue_sweep huses] at hqueue
      cases hqueue

/-! ## Orders of removal -/

theorem starved_of_unwinds {order : List Nat} (hnodup : order.Nodup) (hlt : ∀ i ∈ order, i < n)
    (h : Unwinds uses refs order) : ∀ i ∈ order, Starved uses refs n i := by
  induction order with
  | nil => simp
  | cons i dead ih =>
    obtain ⟨hi, hdead⟩ := List.forall_mem_cons.1 hlt
    have hstarved := ih hnodup.of_cons hdead h.2
    exact List.forall_mem_cons.2 ⟨.intro dead hi hnodup.of_cons hstarved h.1, hstarved⟩

/-- As long as a starved vertex is left, one can be removed next. -/
theorem exists_next {l dead : List Nat} (hall : ∀ i, Starved uses refs n i → i ∈ l)
    (hl : ∀ i ∈ l, Starved uses refs n i) (hleft : ∃ i ∈ l, i ∉ dead) :
    ∃ i ∈ l, i ∉ dead ∧ refs i ≤ readsOf uses dead i := by
  by_contra hnone
  push Not at hnone
  have hdone : ∀ i, Starved uses refs n i → i ∈ dead := by
    intro i hi
    induction hi with
    | @intro i front hin hnodup hfront hreads ih =>
      by_contra hnot
      have hmem : i ∈ l := hall i (.intro front hin hnodup hfront hreads)
      have hle : refs i ≤ readsOf uses dead i := Nat.le_trans hreads (readsOf_le hnodup ih i)
      exact Nat.not_lt_of_le hle (hnone i hmem hnot)
  obtain ⟨i, hi, hnot⟩ := hleft
  exact hnot (hdone i (hl i hi))

/-- An order of removal of some starved vertices goes on to one of all. -/
theorem exists_unwinds {l : List Nat} (hnodup : l.Nodup)
    (hall : ∀ i, Starved uses refs n i → i ∈ l) (hl : ∀ i ∈ l, Starved uses refs n i) (k : Nat)
    (dead : List Nat) (hdead : dead.Nodup) (hsub : dead ⊆ l) (h : Unwinds uses refs dead)
    (hk : dead.length + k = l.length) : Eliminable uses refs l := by
  induction k generalizing dead with
  | zero =>
    have hsubperm := List.subperm_of_subset hdead hsub
    exact ⟨dead, hsubperm.perm_of_length_le (Nat.le_of_eq hk.symm), h⟩
  | succ k ih =>
    have hleft : ∃ i ∈ l, i ∉ dead := by
      by_contra hnone
      push Not at hnone
      have hle := (List.subperm_of_subset hnodup hnone).length_le
      omega
    obtain ⟨i, hi, hnot, hreads⟩ := exists_next hall hl hleft
    refine ih (i :: dead) (List.nodup_cons.2 ⟨hnot, hdead⟩) (List.cons_subset.2 ⟨hi, hsub⟩)
      ⟨hreads, h⟩ ?_
    rw [List.length_cons]
    omega

theorem eliminable_iff {l : List Nat} (hnodup : l.Nodup) (hlt : ∀ i ∈ l, i < n)
    (hall : ∀ i, Starved uses refs n i → i ∈ l) :
    Eliminable uses refs l ↔ ∀ i ∈ l, Starved uses refs n i := by
  constructor
  · rintro ⟨order, hperm, horder⟩ i hi
    exact starved_of_unwinds (hperm.nodup_iff.2 hnodup)
      (fun j hj => hlt j (hperm.mem_iff.1 hj)) horder i (hperm.mem_iff.2 hi)
  · intro hl
    exact exists_unwinds hnodup hall hl l.length [] List.nodup_nil (List.nil_subset l) trivial
      (Nat.zero_add _)

/-- A list in which the vertices behind each one use up its count is unwound from its end. -/
theorem unwinds_of_sorted {l : List Nat} (hsorted : l.Pairwise (· < ·))
    (h : ∀ i ∈ l, refs i ≤ readsOf uses (l.filter (i < ·)) i) : Unwinds uses refs l := by
  induction l with
  | nil => trivial
  | cons i l ih =>
    obtain ⟨hi, hrest⟩ := List.pairwise_cons.1 hsorted
    obtain ⟨hhead, htail⟩ := List.forall_mem_cons.1 h
    constructor
    · rwa [List.filter_cons_of_neg (by simp),
        List.filter_eq_self.2 fun j hj => decide_eq_true (hi j hj)] at hhead
    · refine ih hrest fun j hj => ?_
      have hreads := htail j hj
      rwa [List.filter_cons_of_neg (by simpa using Nat.le_of_lt (hi j hj))] at hreads

end RefCount

end AmdGpuEp
