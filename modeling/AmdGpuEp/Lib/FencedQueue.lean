import Mathlib.Data.List.Infix
import Mathlib.Data.List.Pairwise

/-!
# Queues with a fence

A device executes batches of commands in the order in which they are submitted. Behind
each batch it sets a fence to the number of the batch. A value of the fence promises
that commands are completed: those of the batches up to it, and for a value that is not
yet submitted also those that are recorded for the next batch.

Results:
1. `FencedQueue.Covers.completed`: what a value covers is completed once the fence has it.
2. `FencedQueue.Promises.record`, `FencedQueue.Promises.submit`: a promise is kept
   when more is recorded, and when all that is recorded is submitted.
3. `FencedQueue.Later`: the states that a queue comes to keep all promises.
-/

namespace AmdGpuEp

universe u

structure Batch (C : Type u) where
  commands : List C
  value : Nat
  deriving DecidableEq, Repr

/-- The batches that are submitted, how many of them are done, and the last value. -/
structure FencedQueue (C : Type u) where
  batches : List (Batch C) := []
  done : Nat := 0
  last : Nat := 0
  deriving DecidableEq, Repr

namespace FencedQueue

variable {C : Type u}

/-- A further batch, with the next value. -/
def submit (q : FencedQueue C) (commands : List C) : FencedQueue C :=
  { q with
    batches := q.batches ++ [{ commands, value := q.last + 1 }]
    last := q.last + 1 }

/-- The device has done `n` batches by now, or more. -/
def advance (q : FencedQueue C) (n : Nat) : FencedQueue C :=
  { q with done := max q.done (min n q.batches.length) }

/-- The value of the fence: 0 at first, then that of the last batch that is done. -/
def fenceValue (q : FencedQueue C) : Nat :=
  (0 :: q.batches.map Batch.value).getD q.done 0

def submitted (q : FencedQueue C) : List C :=
  q.batches.flatMap Batch.commands

def completed (q : FencedQueue C) : List C :=
  (q.batches.take q.done).flatMap Batch.commands

/-- The values increase. -/
structure InOrder (q : FencedQueue C) : Prop where
  done_le : q.done ≤ q.batches.length
  sorted : (0 :: q.batches.map Batch.value).Pairwise (· < ·)
  le_last : ∀ b ∈ q.batches, b.value ≤ q.last

/-- The commands `l` are in batches up to the value `v`. -/
def Covers (q : FencedQueue C) (v : Nat) (l : List C) : Prop :=
  ∃ front, front <+: q.batches ∧ l <+: front.flatMap Batch.commands ∧ ∀ b ∈ front, b.value ≤ v

/-- The value `v` covers `l`, or it is not submitted and `l` is recorded. -/
def Promises (q : FencedQueue C) (recorded : List C) (v : Nat) (l : List C) : Prop :=
  q.Covers v l ∨ q.last < v ∧ l <+: recorded

variable {q : FencedQueue C} {recorded commands l : List C} {v n : Nat}

theorem prefix_flatMap {front batches : List (Batch C)} (h : front <+: batches) :
    front.flatMap Batch.commands <+: batches.flatMap Batch.commands := by
  obtain ⟨rest, rfl⟩ := h
  rw [List.flatMap_append]
  exact List.prefix_append _ _

theorem inOrder_empty : (({} : FencedQueue C)).InOrder where
  done_le := Nat.le_refl 0
  sorted := List.pairwise_singleton _ _
  le_last := fun _ h => absurd h List.not_mem_nil

theorem InOrder.submit (h : q.InOrder) (commands : List C) : (q.submit commands).InOrder where
  done_le := by
    show q.done ≤ (q.batches ++ _).length
    rw [List.length_append]
    exact Nat.le_add_right_of_le h.done_le
  sorted := by
    show (0 :: (q.batches ++ _).map Batch.value).Pairwise (· < ·)
    rw [List.map_append, ← List.cons_append, List.pairwise_append]
    refine ⟨h.sorted, List.pairwise_singleton _ _, fun a ha b hb => ?_⟩
    obtain rfl := List.mem_singleton.1 hb
    rcases List.mem_cons.1 ha with rfl | hmem
    · exact Nat.succ_pos _
    · obtain ⟨batch, hbatch, rfl⟩ := List.mem_map.1 hmem
      exact Nat.lt_succ_of_le (h.le_last batch hbatch)
  le_last := by
    intro b hb
    rcases List.mem_append.1 hb with hold | hnew
    · exact Nat.le_succ_of_le (h.le_last b hold)
    · obtain rfl := List.mem_singleton.1 hnew
      exact Nat.le_refl _

theorem InOrder.advance (h : q.InOrder) (n : Nat) : (q.advance n).InOrder where
  done_le := Nat.max_le.2 ⟨h.done_le, Nat.min_le_right _ _⟩
  sorted := h.sorted
  le_last := h.le_last

/-- What a value covers is completed once the fence has it. -/
theorem Covers.completed (h : q.Covers v l) (hq : q.InOrder) (hv : v ≤ q.fenceValue) :
    l <+: q.completed := by
  obtain ⟨front, hfront, hl, hle⟩ := h
  refine hl.trans (prefix_flatMap ?_)
  rw [List.prefix_take_iff]
  refine ⟨hfront, Nat.le_of_not_lt fun hlt => ?_⟩
  -- the first batch that is not done would be covered, but its value is above the fence
  have hbatches : q.done < q.batches.length := Nat.lt_of_lt_of_le hlt hfront.length_le
  have hmem : q.batches[q.done] ∈ front := by
    rw [← hfront.getElem hlt]
    exact List.getElem_mem hlt
  have habove := List.pairwise_iff_getElem.1 hq.sorted q.done (q.done + 1)
    (by simp; omega) (by simpa using hbatches) (Nat.lt_succ_self _)
  have hvalue : q.fenceValue =
      (0 :: q.batches.map Batch.value).get ⟨q.done, by simp; omega⟩ := by
    rw [fenceValue, List.getD_eq_getElem?_getD, List.getElem?_eq_getElem]
    rfl
  have hcovered := hle _ hmem
  rw [List.get_eq_getElem] at hvalue
  rw [← hvalue, List.getElem_cons_succ, List.getElem_map] at habove
  omega

theorem Covers.advance (h : q.Covers v l) (n : Nat) : (q.advance n).Covers v l :=
  h

theorem Covers.submit (h : q.Covers v l) (commands : List C) : (q.submit commands).Covers v l := by
  obtain ⟨front, hfront, hl, hle⟩ := h
  exact ⟨front, hfront.trans (List.prefix_append _ _), hl, hle⟩

/-- The last value covers what is submitted. -/
theorem covers_last (h : q.InOrder) (hv : q.last ≤ v) : q.Covers v q.submitted :=
  ⟨q.batches, List.prefix_rfl, List.prefix_rfl,
    fun b hb => Nat.le_trans (h.le_last b hb) hv⟩

theorem submitted_submit (q : FencedQueue C) (commands : List C) :
    (q.submit commands).submitted = q.submitted ++ commands := by
  simp [submit, submitted]

theorem completed_prefix_submitted (q : FencedQueue C) : q.completed <+: q.submitted :=
  prefix_flatMap (List.take_prefix _ _)

theorem covers_nil (q : FencedQueue C) (v : Nat) : q.Covers v [] :=
  ⟨[], List.nil_prefix, List.prefix_rfl, fun _ h => absurd h List.not_mem_nil⟩

namespace Promises

theorem record (h : q.Promises recorded v l) (commands : List C) :
    q.Promises (recorded ++ commands) v l :=
  h.imp_right fun hnext => ⟨hnext.1, hnext.2.trans (List.prefix_append _ _)⟩

/-- When all that is recorded is submitted, the value of the batch promises it. -/
theorem submit (h : q.Promises recorded v l) (hq : q.InOrder)
    (hall : q.submitted ++ commands = recorded) :
    (q.submit commands).Promises recorded v l := by
  rcases h with hcovers | ⟨hlast, hl⟩
  · exact Or.inl (hcovers.submit commands)
  · refine Or.inl ?_
    obtain ⟨front, hfront, hsub, hle⟩ := covers_last (hq.submit commands) (v := v) hlast
    rw [submitted_submit, hall] at hsub
    exact ⟨front, hfront, hl.trans hsub, hle⟩

theorem advance (h : q.Promises recorded v l) (n : Nat) : (q.advance n).Promises recorded v l :=
  h

/-- A promise is kept. -/
theorem completed (h : q.Promises recorded v l) (hq : q.InOrder) (hv : v ≤ q.fenceValue) :
    l <+: q.completed := by
  rcases h with hcovers | ⟨hlast, -⟩
  · exact hcovers.completed hq hv
  · -- the fence has no value that is not submitted
    have hle : q.fenceValue ≤ q.last := by
      rw [fenceValue, List.getD_eq_getElem?_getD]
      cases hval : (0 :: q.batches.map Batch.value)[q.done]? with
      | none => exact Nat.zero_le _
      | some w =>
        rcases List.mem_cons.1 (List.mem_of_getElem? hval) with rfl | hmem
        · exact Nat.zero_le _
        · obtain ⟨b, hb, rfl⟩ := List.mem_map.1 hmem
          exact hq.le_last b hb
    omega

end Promises

/-! ## Later states -/

/-- A later state of a queue with what is recorded for it: what was promised still is. -/
structure Later (q : FencedQueue C) (recorded : List C) (q' : FencedQueue C)
    (recorded' : List C) : Prop where
  promises : ∀ {v : Nat} {l : List C}, q.Promises recorded v l → q'.Promises recorded' v l
  last : q.last ≤ q'.last
  completed : q.completed <+: q'.completed

namespace Later

theorem refl (q : FencedQueue C) (recorded : List C) : Later q recorded q recorded :=
  ⟨id, Nat.le_refl _, List.prefix_rfl⟩

theorem trans {q q' q'' : FencedQueue C} {recorded recorded' recorded'' : List C}
    (h : Later q recorded q' recorded') (h' : Later q' recorded' q'' recorded'') :
    Later q recorded q'' recorded'' :=
  ⟨fun hl => h'.promises (h.promises hl), Nat.le_trans h.last h'.last,
    h.completed.trans h'.completed⟩

theorem advance (q : FencedQueue C) (recorded : List C) (n : Nat) :
    Later q recorded (q.advance n) recorded :=
  ⟨fun hl => hl.advance n, Nat.le_refl _,
    prefix_flatMap (List.take_prefix_take_left (Nat.le_max_left _ _))⟩

theorem record (q : FencedQueue C) (recorded commands : List C) :
    Later q recorded q (recorded ++ commands) :=
  ⟨fun hl => hl.record commands, Nat.le_refl _, List.prefix_rfl⟩

theorem submit (hq : q.InOrder) (hall : q.submitted ++ commands = recorded) :
    Later q recorded (q.submit commands) recorded := by
  refine ⟨fun hl => hl.submit hq hall, Nat.le_succ _, ?_⟩
  show (q.batches.take q.done).flatMap Batch.commands <+:
    ((q.batches ++ _).take q.done).flatMap Batch.commands
  rw [List.take_append_of_le_length hq.done_le]

end Later

end FencedQueue

end AmdGpuEp
