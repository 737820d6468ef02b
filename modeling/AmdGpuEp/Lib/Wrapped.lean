import Mathlib.Algebra.Order.Ring.Nat
import Mathlib.Tactic.Common

/-!
# Sums and products that wrap

A loop adds or multiplies numbers of a machine, and each of its results wraps. At its end there
is the sum or the product, wrapped once.

Results:
1. `foldl_add_wrapped`, `foldl_mul_wrapped`: the loops.
2. `foldl_mul_of_lt`: a product that is small enough.
-/

namespace AmdGpuEp

variable {m : Nat}

theorem foldl_add_wrapped_from (sizes : List Nat) {total : Nat} (h : total < m) :
    sizes.foldl (fun total size => (total + size) % m) total = (total + sizes.sum) % m := by
  induction sizes generalizing total with
  | nil => exact (Nat.mod_eq_of_lt h).symm
  | cons size sizes ih =>
    rw [List.foldl_cons, ih (Nat.mod_lt _ (Nat.zero_lt_of_lt h)), Nat.mod_add_mod, List.sum_cons,
      Nat.add_assoc]

theorem foldl_mul_wrapped_from (sizes : List Nat) {count : Nat} (h : count < m) :
    sizes.foldl (fun count size => count * size % m) count = count * sizes.prod % m := by
  induction sizes generalizing count with
  | nil => rw [List.foldl_nil, List.prod_nil, Nat.mul_one, Nat.mod_eq_of_lt h]
  | cons size sizes ih =>
    rw [List.foldl_cons, ih (Nat.mod_lt _ (Nat.zero_lt_of_lt h)), Nat.mod_mul_mod, List.prod_cons,
      Nat.mul_assoc]

/-- The loop that adds numbers up. -/
theorem foldl_add_wrapped (sizes : List Nat) (hm : 0 < m) :
    sizes.foldl (fun total size => (total + size) % m) 0 = sizes.sum % m := by
  rw [foldl_add_wrapped_from sizes hm, Nat.zero_add]

/-- The loop that multiplies them. -/
theorem foldl_mul_wrapped (sizes : List Nat) (hm : 1 < m) :
    sizes.foldl (fun count size => count * size % m) 1 = sizes.prod % m := by
  rw [foldl_mul_wrapped_from sizes hm, Nat.one_mul]

/-- A product that does not reach the bound. -/
theorem foldl_mul_of_lt {sizes : List Nat} (hm : 1 < m) (h : sizes.prod < m) :
    sizes.foldl (fun count size => count * size % m) 1 = sizes.prod := by
  rw [foldl_mul_wrapped sizes hm, Nat.mod_eq_of_lt h]

end AmdGpuEp
