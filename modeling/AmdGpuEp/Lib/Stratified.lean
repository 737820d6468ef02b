import Mathlib.Order.WellFounded
import Mathlib.Data.Set.Basic

/-!
# Sets that are defined in terms of themselves

A condition on the members of a set may ask about the set itself. When it asks only about what
stands below in a well-founded relation, there is exactly one set that satisfies it.

Results:
1. `exists_solves`: there is such a set.
2. `Solves.unique`: there is only one.
-/

namespace AmdGpuEp

variable {α : Type*} {r : α → α → Prop} {Φ : Set α → α → Prop}

/-- What the condition says of an element depends only on the members below it. -/
def LooksBelow (r : α → α → Prop) (Φ : Set α → α → Prop) : Prop :=
  ∀ ⦃s t : Set α⦄ ⦃a : α⦄, (∀ b, r b a → (b ∈ s ↔ b ∈ t)) → (Φ s a ↔ Φ t a)

/-- The members of the set are those that satisfy the condition. -/
def Solves (Φ : Set α → α → Prop) (s : Set α) : Prop :=
  ∀ a, a ∈ s ↔ Φ s a

theorem exists_solves (hr : WellFounded r) (h : LooksBelow r Φ) : ∃ s, Solves Φ s := by
  let member : α → Prop := hr.fix fun a below => Φ {b | ∃ hb : r b a, below b hb} a
  refine ⟨{a | member a}, fun a => ?_⟩
  have hmember : member a = Φ {b | ∃ _ : r b a, member b} a := hr.fix_eq _ a
  refine (iff_of_eq hmember).trans (h fun b hb => ?_)
  exact ⟨fun ⟨_, hmem⟩ => hmem, fun hmem => ⟨hb, hmem⟩⟩

theorem Solves.unique (hr : WellFounded r) (h : LooksBelow r Φ) {s t : Set α} (hs : Solves Φ s)
    (ht : Solves Φ t) : s = t := by
  ext a
  induction a using hr.induction with
  | _ a ih => exact (hs a).trans ((h ih).trans (ht a).symm)

end AmdGpuEp
