import Mathlib.Tactic.Common

/-!
# Runs of a machine that is called again and again

A machine takes one call after the other and keeps its state in between. A call
may never return; then the run ends there. A property of the calls is proved
from an invariant of the states between them.

Results:
1. `Machine.Every.of_invariant`: what each call gives when the invariant holds
   before it, every call of a run gives.
2. `Machine.Every.congr_of_invariant`: two properties of calls that agree under
   an invariant hold in the same runs.
3. `Machine.Every.inv_iff`: the calls that keep an invariant, exactly.
4. `Machine.every_withHistory`: a history variable does not change what the
   machine does.
-/

namespace AmdGpuEp

/-- A state machine with calls `C` that answer with an observation `O`. -/
structure Machine (S C O : Type*) where
  step : S → C → Option (S × O)

namespace Machine

variable {S C O H : Type*}

/-- `Q` holds at every call of the run of `calls` from `s`. -/
def Every (m : Machine S C O) (Q : S → C → S → O → Prop) : S → List C → Prop
  | _, [] => True
  | s, c :: cs =>
    match m.step s c with
    | none => True
    | some (s', o) => Q s c s' o ∧ m.Every Q s' cs

instance Every.decidable (m : Machine S C O) (Q : S → C → S → O → Prop)
    [∀ s c s' o, Decidable (Q s c s' o)] : ∀ s cs, Decidable (m.Every Q s cs)
  | _, [] => inferInstanceAs (Decidable True)
  | s, c :: cs =>
    match h : m.step s c with
    | none => isTrue (by rw [Every, h]; trivial)
    | some (s', o) =>
      have : Decidable (m.Every Q s' cs) := Every.decidable m Q s' cs
      decidable_of_iff (Q s c s' o ∧ m.Every Q s' cs) (by rw [Every, h])

variable {m : Machine S C O}

theorem Every.of_none {Q : S → C → S → O → Prop} {s : S} {c : C} {cs : List C}
    (hstep : m.step s c = none) : m.Every Q s (c :: cs) := by
  rw [Every, hstep]
  trivial

theorem Every.cons {Q : S → C → S → O → Prop} {s s' : S} {c : C} {o : O} {cs : List C}
    (hstep : m.step s c = some (s', o)) :
    m.Every Q s (c :: cs) ↔ Q s c s' o ∧ m.Every Q s' cs := by
  rw [Every, hstep]

/-- The run rule. The invariant is kept by the calls that meet `Q`, and gives `R` at each of
them; so a run whose calls all meet `Q` has `R` at every call. -/
theorem Every.of_invariant (Inv : S → Prop) {Q R : S → C → S → O → Prop}
    (hcall : ∀ s c s' o, Inv s → m.step s c = some (s', o) → Q s c s' o →
      Inv s' ∧ R s c s' o)
    {s : S} {cs : List C} (hs : Inv s) (hQ : m.Every Q s cs) : m.Every R s cs := by
  induction cs generalizing s with
  | nil => trivial
  | cons c cs ih =>
    cases hstep : m.step s c with
    | none => exact Every.of_none hstep
    | some r =>
      obtain ⟨s', o⟩ := r
      obtain ⟨hq, hrest⟩ := (Every.cons hstep).1 hQ
      obtain ⟨hs', hr⟩ := hcall s c s' o hs hstep hq
      exact (Every.cons hstep).2 ⟨hr, ih hs' hrest⟩

theorem Every.true (s : S) (cs : List C) : m.Every (fun _ _ _ _ => True) s cs := by
  induction cs generalizing s with
  | nil => trivial
  | cons c cs ih =>
    cases hstep : m.step s c with
    | none => exact Every.of_none hstep
    | some r => exact (Every.cons hstep).2 ⟨trivial, ih r.1⟩

/-- The run rule for an invariant that every call keeps. -/
theorem Every.of_kept (Inv : S → Prop) {R : S → C → S → O → Prop}
    (hcall : ∀ s c s' o, Inv s → m.step s c = some (s', o) → Inv s' ∧ R s c s' o)
    {s : S} (hs : Inv s) (cs : List C) : m.Every R s cs :=
  Every.of_invariant Inv (fun s c s' o hs hstep _ => hcall s c s' o hs hstep) hs (Every.true s cs)

/-- Where an invariant decides between two properties of a call, and is kept by the calls that have
them, they hold in the same runs. -/
theorem Every.congr_of_invariant (Inv : S → Prop) {Q R : S → C → S → O → Prop}
    (hcall : ∀ s c s' o, Inv s → m.step s c = some (s', o) →
      (Q s c s' o ↔ R s c s' o) ∧ (R s c s' o → Inv s'))
    {s : S} (hs : Inv s) (cs : List C) : m.Every Q s cs ↔ m.Every R s cs := by
  induction cs generalizing s with
  | nil => exact Iff.rfl
  | cons c cs ih =>
    cases hstep : m.step s c with
    | none => exact iff_of_true (Every.of_none hstep) (Every.of_none hstep)
    | some r =>
      obtain ⟨s', o⟩ := r
      obtain ⟨hiff, hkept⟩ := hcall s c s' o hs hstep
      rw [Every.cons hstep, Every.cons hstep, hiff]
      exact and_congr_right fun hr => ih (hkept hr)

/-- The same for an invariant that every call keeps. -/
theorem Every.congr_of_kept (Inv : S → Prop) {Q R : S → C → S → O → Prop}
    (hcall : ∀ s c s' o, Inv s → m.step s c = some (s', o) →
      Inv s' ∧ (Q s c s' o ↔ R s c s' o))
    {s : S} (hs : Inv s) (cs : List C) : m.Every Q s cs ↔ m.Every R s cs :=
  Every.congr_of_invariant Inv
    (fun s c s' o hs hstep =>
      have ⟨hs', hiff⟩ := hcall s c s' o hs hstep
      ⟨hiff, fun _ => hs'⟩)
    hs cs

/-- Where a call from a state with the invariant decides whether the invariant holds behind it, all
states of a run have the invariant exactly when all its calls meet the condition. -/
theorem Every.inv_iff (Inv : S → Prop) {Q : S → C → S → O → Prop}
    (hcall : ∀ s c s' o, Inv s → m.step s c = some (s', o) → (Inv s' ↔ Q s c s' o))
    {s : S} (hs : Inv s) (cs : List C) :
    m.Every (fun _ _ s' _ => Inv s') s cs ↔ m.Every Q s cs :=
  Every.congr_of_invariant Inv
    (fun s c s' o hs hstep =>
      have hiff := hcall s c s' o hs hstep
      ⟨hiff, hiff.2⟩)
    hs cs

/-! ## History variables -/

/-- The machine with a record of the calls that the machine itself does not read. -/
def withHistory (m : Machine S C O) (next : H → S → C → S → O → H) : Machine (S × H) C O where
  step := fun (s, h) c => (m.step s c).map fun (s', o) => ((s', next h s c s' o), o)

theorem withHistory_step {next : H → S → C → S → O → H} {s s' : S} {h h' : H} {c : C} {o : O} :
    (m.withHistory next).step (s, h) c = some ((s', h'), o) ↔
      m.step s c = some (s', o) ∧ h' = next h s c s' o := by
  show (m.step s c).map _ = _ ↔ _
  cases m.step s c with
  | none => simp
  | some r =>
    obtain ⟨t, p⟩ := r
    simp only [Option.map_some, Option.some.injEq, Prod.mk.injEq]
    constructor
    · rintro ⟨⟨rfl, rfl⟩, rfl⟩
      exact ⟨⟨rfl, rfl⟩, rfl⟩
    · rintro ⟨⟨rfl, rfl⟩, rfl⟩
      exact ⟨⟨rfl, rfl⟩, rfl⟩

theorem every_withHistory (next : H → S → C → S → O → H) {Q : S → C → S → O → Prop}
    {s : S} {h : H} {cs : List C} :
    (m.withHistory next).Every (fun sh c sh' o => Q sh.1 c sh'.1 o) (s, h) cs ↔
      m.Every Q s cs := by
  induction cs generalizing s h with
  | nil => exact Iff.rfl
  | cons c cs ih =>
    cases hstep : m.step s c with
    | none =>
      have hstep' : (m.withHistory next).step (s, h) c = none := by
        show (m.step s c).map _ = none
        rw [hstep]
        rfl
      exact iff_of_true (Every.of_none hstep') (Every.of_none hstep)
    | some r =>
      obtain ⟨s', o⟩ := r
      rw [Every.cons hstep, Every.cons (withHistory_step.2 ⟨hstep, rfl⟩), ih]

end Machine

end AmdGpuEp
