import Mathlib.Logic.Function.Basic
import Mathlib.Data.List.Nodup
import Mathlib.Data.List.Pairwise

/-!
# Values of instructions that read each other

Every instruction writes one variable, and its value depends on the variables
that it reads. The instructions are a list in single assignment form, or the nodes
of a graph without an order.

Results:
1. `exists_evaluation`: a list in which nothing is read before it is written has a
   run from any values of the other variables.
2. `solution_unique`: the nodes of a graph have one value at most when what a node
   reads stands below it.
-/

namespace AmdGpuEp

variable {N V A : Type*} [DecidableEq V]

theorem exists_evaluation (writes : N → V) (reads : N → List V) (f : N → (V → A) → A)
    (hf : ∀ n ρ ρ', (∀ v ∈ reads n, ρ v = ρ' v) → f n ρ = f n ρ') {l : List N}
    (hnodup : (l.map writes).Nodup) (hself : ∀ n ∈ l, writes n ∉ reads n)
    (horder : l.Pairwise fun p n => writes n ∉ reads p) (ρ₀ : V → A) :
    ∃ ρ : V → A, (∀ n ∈ l, ρ (writes n) = f n ρ) ∧ ∀ v ∉ l.map writes, ρ v = ρ₀ v := by
  induction l generalizing ρ₀ with
  | nil => exact ⟨ρ₀, by simp, fun _ _ => rfl⟩
  | cons n l ih =>
    obtain ⟨hnew, hnodup⟩ := List.nodup_cons.1 hnodup
    obtain ⟨hlater, horder⟩ := List.pairwise_cons.1 horder
    obtain ⟨ρ, hρ, hframe⟩ := ih hnodup (fun m hm => hself m (List.mem_cons_of_mem n hm)) horder
      (Function.update ρ₀ (writes n) (f n ρ₀))
    -- the rest of the list leaves what `n` reads and writes alone
    have hreads : ∀ v ∈ reads n, ρ v = ρ₀ v := by
      intro v hv
      have hout : v ∉ l.map writes := by
        intro hmem
        obtain ⟨m, hm, rfl⟩ := List.mem_map.1 hmem
        exact hlater m hm hv
      have hne : v ≠ writes n := fun heq => hself n List.mem_cons_self (heq ▸ hv)
      rw [hframe v hout, Function.update_of_ne hne]
    refine ⟨ρ, fun m hm => ?_, fun v hv => ?_⟩
    · cases hm with
      | head => rw [hframe _ hnew, Function.update_self, hf n ρ ρ₀ hreads]
      | tail _ hm => exact hρ m hm
    · rw [List.map_cons, List.mem_cons, not_or] at hv
      rw [hframe v hv.2, Function.update_of_ne hv.1]

/-- The value of a node is fixed by the values of the nodes below it. -/
theorem solution_unique {B : Type*} (node : N → Prop) (rank : N → Nat) (f : N → (N → B) → B)
    (hf : ∀ n, node n → ∀ ρ ρ' : N → B, (∀ m, node m → rank m < rank n → ρ m = ρ' m) →
      f n ρ = f n ρ')
    {ρ ρ' : N → B} (hρ : ∀ n, node n → ρ n = f n ρ) (hρ' : ∀ n, node n → ρ' n = f n ρ') :
    ∀ n, node n → ρ n = ρ' n := by
  have hbelow : ∀ k n, rank n < k → node n → ρ n = ρ' n := by
    intro k
    induction k with
    | zero => exact fun n hlt => absurd hlt (Nat.not_lt_zero _)
    | succ k ih =>
      intro n hlt hn
      rw [hρ n hn, hρ' n hn]
      exact hf n hn ρ ρ' fun m hm hrank =>
        ih m (Nat.lt_of_lt_of_le hrank (Nat.le_of_lt_succ hlt)) hm
  exact fun n hn => hbelow (rank n + 1) n (Nat.lt_succ_self _) hn

end AmdGpuEp
