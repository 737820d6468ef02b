import Mathlib.Data.List.Forall2

/-!
# Computations that can fail

Results:
1. `bind_eq_ok`: a sequence succeeds when both parts do.
2. `mapM_eq_ok`, `exists_mapM_ok`: a loop gives one result for each element, and
   succeeds when every turn does.
-/

namespace AmdGpuEp.Fallible

universe u

variable {ε α β : Type u}

theorem bind_eq_ok {x : Except ε α} {f : α → Except ε β} {b : β} :
    x >>= f = .ok b ↔ ∃ a, x = .ok a ∧ f a = .ok b := by
  cases x with
  | error e => exact ⟨nofun, nofun⟩
  | ok a => exact ⟨fun h => ⟨a, rfl, h⟩, fun ⟨_, ha, hf⟩ => by cases ha; exact hf⟩

theorem pure_eq_ok {a b : α} : (pure a : Except ε α) = .ok b ↔ a = b :=
  ⟨fun h => Except.ok.inj h, fun h => h ▸ rfl⟩

theorem mapM_eq_ok {f : α → Except ε β} {l : List α} {l' : List β} :
    l.mapM f = .ok l' ↔ List.Forall₂ (fun a b => f a = .ok b) l l' := by
  induction l generalizing l' with
  | nil => rw [List.mapM_nil, pure_eq_ok, List.forall₂_nil_left_iff, eq_comm]
  | cons a l ih =>
    simp only [List.mapM_cons, bind_eq_ok, pure_eq_ok, List.forall₂_cons_left_iff, ih]
    constructor
    · rintro ⟨b, hb, bs, hbs, rfl⟩
      exact ⟨b, bs, hb, hbs, rfl⟩
    · rintro ⟨b, bs, hb, hbs, rfl⟩
      exact ⟨b, hb, bs, hbs, rfl⟩

theorem exists_mapM_ok {f : α → Except ε β} {l : List α} :
    (∃ l', l.mapM f = .ok l') ↔ ∀ a ∈ l, ∃ b, f a = .ok b := by
  induction l with
  | nil => simp [List.mapM_nil, pure_eq_ok]
  | cons a l ih =>
    rw [List.forall_mem_cons, ← ih]
    simp only [List.mapM_cons, bind_eq_ok, pure_eq_ok]
    constructor
    · rintro ⟨_, b, hb, bs, hbs, -⟩
      exact ⟨⟨b, hb⟩, bs, hbs⟩
    · rintro ⟨⟨b, hb⟩, bs, hbs⟩
      exact ⟨b :: bs, b, hb, bs, hbs, rfl⟩

/-- A property of the results that the arguments decide. -/
theorem map_of_mapM_ok {γ : Type*} {f : α → Except ε β} {g : β → γ} {h : α → γ} {l : List α}
    {l' : List β} (hok : l.mapM f = .ok l') (hgh : ∀ a b, f a = .ok b → g b = h a) :
    l'.map g = l.map h := by
  induction mapM_eq_ok.1 hok with
  | nil => rfl
  | cons hab _ ih =>
    rw [List.map_cons, List.map_cons, hgh _ _ hab, ih (mapM_eq_ok.2 ‹_›)]

end AmdGpuEp.Fallible
