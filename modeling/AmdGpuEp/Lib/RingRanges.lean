import Mathlib.Data.List.Infix
import Mathlib.Data.List.Pairwise
import Mathlib.Order.MinMax

/-!
# Ranges in a ring

Ranges are taken out of a space one behind the other, and from its bottom again when the top is
reached. They are given back in the order in which they were taken. In the order of their age they
are then two ascending runs, of which the newer one lies below the older one.

Where there is only one run, the first range does not start above the last one. So the two cases are
told apart by these two ranges, as long as no range starts where the first one starts.

Results:
1. `Ring.pairwise`: the ranges do not overlap.
2. `Ring.suffix`: the oldest ranges can be given back.
3. `Ring.push_after`, `Ring.push_below`, `Ring.push_between`: the places where a range can be taken.
-/

namespace AmdGpuEp

variable {α : Type*} [LinearOrder α]

/-- A range, without its stop. -/
structure Span (α : Type*) [LinearOrder α] where
  start : α
  stop : α
  start_le : start ≤ stop

namespace Span

/-- There is something in both. -/
def Overlaps (a b : Span α) : Prop :=
  max a.start b.start < min a.stop b.stop

instance (a b : Span α) : Decidable (a.Overlaps b) :=
  inferInstanceAs (Decidable (_ < _))

def Before (a b : Span α) : Prop :=
  a.stop ≤ b.start

variable {a b : Span α}

theorem Before.not_overlaps (h : a.Before b) : ¬ a.Overlaps b := fun hlt =>
  absurd ((le_max_right _ _).trans_lt (hlt.trans_le (min_le_left _ _))) h.not_gt

theorem Before.not_overlaps' (h : a.Before b) : ¬ b.Overlaps a := fun hlt =>
  absurd ((le_max_left _ _).trans_lt (hlt.trans_le (min_le_right _ _))) h.not_gt

/-- In a range that is empty there is nothing. -/
theorem not_overlaps_empty (h : b.start = b.stop) : ¬ a.Overlaps b := fun hlt =>
  absurd ((le_max_right _ _).trans_lt (hlt.trans_le (min_le_right _ _))) (h ▸ lt_irrefl _)

end Span

/-! ## Ascending runs -/

variable {spans : List (Span α)} {first last r : Span α} {top : α}

theorem start_le_of_head (h : spans.Pairwise Span.Before) (hfirst : spans.head? = some first) :
    ∀ a ∈ spans, first.start ≤ a.start := by
  obtain ⟨rest, rfl⟩ := List.head?_eq_some_iff.1 hfirst
  intro a ha
  obtain rfl | ha := List.mem_cons.1 ha
  · exact le_rfl
  · exact first.start_le.trans ((List.pairwise_cons.1 h).1 a ha)

theorem stop_le_of_last (h : spans.Pairwise Span.Before) (hlast : spans.getLast? = some last) :
    ∀ a ∈ spans, a.stop ≤ last.stop := by
  obtain ⟨rest, rfl⟩ := List.getLast?_eq_some_iff.1 hlast
  intro a ha
  obtain ha | ha := List.mem_append.1 ha
  · have hbefore := (List.pairwise_append.1 h).2.2 a ha last (List.mem_singleton_self last)
    exact le_trans hbefore last.start_le
  · rw [List.mem_singleton.1 ha]

/-! ## Rings -/

/-- The two runs: the older ranges, and the newer ones below them. -/
structure RingRuns (top : α) (upper lower : List (Span α)) : Prop where
  upper_sorted : upper.Pairwise Span.Before
  lower_sorted : lower.Pairwise Span.Before
  below : ∀ a ∈ lower, ∀ b ∈ upper, a.Before b ∧ a.start < b.start
  le_top : ∀ a ∈ upper ++ lower, a.stop ≤ top

/-- The ranges in the order of their age. -/
def Ring (top : α) (spans : List (Span α)) : Prop :=
  ∃ upper lower, spans = upper ++ lower ∧ RingRuns top upper lower

namespace Ring

theorem of_sorted (h : spans.Pairwise Span.Before) (htop : ∀ a ∈ spans, a.stop ≤ top) :
    Ring top spans :=
  ⟨spans, [], (List.append_nil spans).symm, h, List.Pairwise.nil, (fun _ ha => nomatch ha),
    by rwa [List.append_nil]⟩

theorem le_top (h : Ring top spans) : ∀ a ∈ spans, a.stop ≤ top := by
  obtain ⟨upper, lower, rfl, hruns⟩ := h
  exact hruns.le_top

/-- No two ranges of a ring overlap. -/
theorem pairwise (h : Ring top spans) : spans.Pairwise fun a b => ¬ a.Overlaps b := by
  obtain ⟨upper, lower, rfl, hruns⟩ := h
  refine List.pairwise_append.2
    ⟨hruns.upper_sorted.imp Span.Before.not_overlaps,
      hruns.lower_sorted.imp Span.Before.not_overlaps, fun b hb a ha => ?_⟩
  exact (hruns.below a ha b hb).1.not_overlaps'

theorem tail (h : Ring top (r :: spans)) : Ring top spans := by
  obtain ⟨upper, lower, heq, hruns⟩ := h
  cases upper with
  | nil =>
    rw [List.nil_append] at heq
    subst heq
    exact of_sorted (List.pairwise_cons.1 hruns.lower_sorted).2
      fun a ha => hruns.le_top a (List.mem_cons_of_mem _ ha)
  | cons b upper =>
    rw [List.cons_append, List.cons.injEq] at heq
    obtain ⟨rfl, rfl⟩ := heq
    exact ⟨upper, lower, rfl, (List.pairwise_cons.1 hruns.upper_sorted).2, hruns.lower_sorted,
      fun a ha b hb => hruns.below a ha b (List.mem_cons_of_mem _ hb),
      fun a ha => hruns.le_top a (List.mem_cons_of_mem _ ha)⟩

/-- The oldest ranges are given back. -/
theorem suffix (h : Ring top spans) {rest : List (Span α)} (hsuffix : rest <:+ spans) :
    Ring top rest := by
  obtain ⟨front, rfl⟩ := hsuffix
  induction front with
  | nil => exact h
  | cons a front ih => exact ih h.tail

/-- Where the first range does not start above the last one, there is one run. -/
theorem sorted (h : Ring top spans) (hfirst : spans.head? = some first)
    (hlast : spans.getLast? = some last) (hle : first.start ≤ last.start) :
    spans.Pairwise Span.Before := by
  obtain ⟨upper, lower, rfl, hruns⟩ := h
  cases upper with
  | nil => exact hruns.lower_sorted
  | cons b upper =>
    obtain rfl : b = first := Option.some.inj hfirst
    rcases List.eq_nil_or_concat' lower with rfl | ⟨front, a, rfl⟩
    · rw [List.append_nil]
      exact hruns.upper_sorted
    · rw [← List.append_assoc, List.getLast?_concat, Option.some.injEq] at hlast
      subst hlast
      have hlt := (hruns.below a (by simp) b List.mem_cons_self).2
      exact absurd hlt hle.not_gt

/-- Where it does, there are two. -/
theorem runs (h : Ring top spans) (hfirst : spans.head? = some first)
    (hlast : spans.getLast? = some last) (hlt : last.start < first.start) :
    ∃ upper lower, spans = upper ++ lower ∧ RingRuns top upper lower ∧
      upper.head? = some first ∧ lower.getLast? = some last := by
  have hnot : ¬ spans.Pairwise Span.Before := fun hsorted =>
    (start_le_of_head hsorted hfirst last (List.mem_of_getLast? hlast)).not_gt hlt
  obtain ⟨upper, lower, rfl, hruns⟩ := h
  refine ⟨upper, lower, rfl, hruns, ?_, ?_⟩
  · cases upper with
    | nil => exact absurd hruns.lower_sorted hnot
    | cons b upper => exact hfirst
  · rcases List.eq_nil_or_concat' lower with rfl | ⟨front, a, rfl⟩
    · rw [List.append_nil] at hnot
      exact absurd hruns.upper_sorted hnot
    · rw [← List.append_assoc, List.getLast?_concat] at hlast
      rwa [List.getLast?_concat]

/-- A range behind the only run. -/
theorem push_after (h : Ring top spans) (hfirst : spans.head? = some first)
    (hlast : spans.getLast? = some last) (hle : first.start ≤ last.start)
    (hstart : last.stop ≤ r.start) (hstop : r.stop ≤ top) : Ring top (spans ++ [r]) := by
  have hsorted := h.sorted hfirst hlast hle
  refine of_sorted (List.pairwise_append.2 ⟨hsorted, List.pairwise_singleton _ _, ?_⟩) ?_
  · intro a ha b hb
    rw [List.mem_singleton.1 hb]
    exact (stop_le_of_last hsorted hlast a ha).trans hstart
  · intro a ha
    obtain ha | ha := List.mem_append.1 ha
    · exact h.le_top a ha
    · rwa [List.mem_singleton.1 ha]

/-- A range below the only run, with which the second one begins. -/
theorem push_below (h : Ring top spans) (hfirst : spans.head? = some first)
    (hlast : spans.getLast? = some last) (hle : first.start ≤ last.start)
    (hstop : r.stop ≤ first.start) (hstart : r.start < first.start) :
    Ring top (spans ++ [r]) := by
  have hsorted := h.sorted hfirst hlast hle
  have habove := start_le_of_head hsorted hfirst
  have hmem : first ∈ spans := List.mem_of_head? hfirst
  refine ⟨spans, [r], rfl, hsorted, List.pairwise_singleton _ _, ?_, ?_⟩
  · intro a ha b hb
    rw [List.mem_singleton.1 ha]
    exact ⟨hstop.trans (habove b hb), hstart.trans_le (habove b hb)⟩
  · intro a ha
    obtain ha | ha := List.mem_append.1 ha
    · exact h.le_top a ha
    · rw [List.mem_singleton.1 ha]
      exact hstop.trans (first.start_le.trans (h.le_top first hmem))

/-- A range behind the second run. -/
theorem push_between (h : Ring top spans) (hfirst : spans.head? = some first)
    (hlast : spans.getLast? = some last) (hlt : last.start < first.start)
    (hstart : last.stop ≤ r.start) (hstop : r.stop ≤ first.start)
    (hne : r.start < first.start) : Ring top (spans ++ [r]) := by
  obtain ⟨upper, lower, rfl, hruns, hupper, hlower⟩ := h.runs hfirst hlast hlt
  have habove := start_le_of_head hruns.upper_sorted hupper
  have hmem : first ∈ upper := List.mem_of_head? hupper
  refine ⟨upper, lower ++ [r], List.append_assoc _ _ _, hruns.upper_sorted,
    List.pairwise_append.2 ⟨hruns.lower_sorted, List.pairwise_singleton _ _, ?_⟩, ?_, ?_⟩
  · intro a ha b hb
    rw [List.mem_singleton.1 hb]
    exact (stop_le_of_last hruns.lower_sorted hlower a ha).trans hstart
  · intro a ha b hb
    obtain ha | ha := List.mem_append.1 ha
    · exact hruns.below a ha b hb
    · rw [List.mem_singleton.1 ha]
      exact ⟨hstop.trans (habove b hb), hne.trans_le (habove b hb)⟩
  · intro a ha
    rw [← List.append_assoc] at ha
    obtain ha | ha := List.mem_append.1 ha
    · exact hruns.le_top a ha
    · rw [List.mem_singleton.1 ha]
      exact hstop.trans (first.start_le.trans
        (hruns.le_top first (List.mem_append_left _ hmem)))

end Ring

end AmdGpuEp
