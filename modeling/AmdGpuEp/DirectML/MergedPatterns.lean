import AmdGpuEp.DirectML.FusionManager
import AmdGpuEp.DirectML.PatternAssignments

/-!
# Merged pattern trees

Rules with one anchor share one tree, which `mergePatterns` builds from the tree of
the first rule and those of the others. Whether it matches where one of them does is
a matter of what the merge makes of them: a constraint that only one of them has
becomes a constraint of the shared node, an edge of the first tree stays required
unless another edge turns up at its position, and one that does becomes optional
together with it.

Results:
1. `matchNode_growsTo`: optional edges behind everything that a tree asks for change
   nothing.
2. `mergePatterns_growsTo`: merging a tree that fits adds only such edges.
3. `implies_of_extendedBy`: a tree that extends another matches only where it does.
4. `mergedTree_iff`: trees that fit merge into one that matches where one of them does
   exactly when each of the others implies the first.
5. `merge_loses`: what the other trees break.
-/

namespace AmdGpuEp.DirectML

/-! ## Trees as lists of edges -/

namespace PEdges

variable {F : Type}

def append : PEdges F → PEdges F → PEdges F
  | .nil, es => es
  | .cons d i c o rest, es => .cons d i c o (rest.append es)

/-- What `mergePatterns` tells edges apart by. -/
def keys : PEdges F → List (PEdgeDir × Nat × String)
  | .nil => []
  | .cons d i c _ rest => (d, i, c.opType) :: rest.keys

def positions : PEdges F → List (PEdgeDir × Nat)
  | .nil => []
  | .cons d i _ _ rest => (d, i) :: rest.positions

def AllOptional : PEdges F → Prop
  | .nil => True
  | .cons _ _ _ o rest => o = true ∧ rest.AllOptional

def Avoids (taken : List (PEdgeDir × Nat)) : PEdges F → Prop
  | .nil => True
  | .cons d i _ _ rest => (d, i) ∉ taken ∧ rest.Avoids taken

end PEdges

mutual

/-- No node has two edges that the merge takes for one. -/
def PNode.Distinct {F : Type} : PNode F → Prop
  | .mk _ _ _ _ es => es.keys.Nodup ∧ es.Distinct

def PEdges.Distinct {F : Type} : PEdges F → Prop
  | .nil => True
  | .cons _ _ c _ rest => c.Distinct ∧ rest.Distinct

end

/-- A downstream edge looks for the same node, whether it ends at `c` or at `c'`. -/
def SameEnd {F : Type} (d : PEdgeDir) (c c' : PNode F) : Prop :=
  d = .downstream → c'.isTerminal = c.isTerminal

/-! ## How trees compare -/

section

variable {F : Type}

/-- Other capture names: two names stay two, and the missing one stays missing. -/
structure Renaming where
  toFun : String → String
  injective : Function.Injective toFun
  empty : toFun "" = ""

/-- `PInput` under other capture names. -/
def PInput.rename (ρ : Renaming) : PInput F → PInput F
  | .any => .any
  | .scalar key value tol => .scalar (ρ.toFun key) value tol
  | .sameAs key => .sameAs (ρ.toFun key)
  | .capture key => .capture (ρ.toFun key)
  | .predicate key fn => .predicate (ρ.toFun key) fn

def renameAll (ρ : Renaming) (cs : List (Option Nat × PInput F)) : List (Option Nat × PInput F) :=
  cs.map fun c => (c.1, c.2.rename ρ)

mutual

/-- The same tree under other capture names. -/
def PNode.Alike (ρ : Renaming) : PNode F → PNode F → Prop
  | .mk op dom cs _ es, .mk op' dom' cs' _ es' =>
    op' = op ∧ dom' = dom ∧ cs' = renameAll ρ cs ∧ es.Alike ρ es'

def PEdges.Alike (ρ : Renaming) : PEdges F → PEdges F → Prop
  | .nil, .nil => True
  | .cons d i c o rest, .cons d' i' c' o' rest' =>
    d' = d ∧ i' = i ∧ o' = o ∧ c.Alike ρ c' ∧ rest.Alike ρ rest'
  | _, _ => False

end

mutual

/-- The second tree has the constraints of the first, its edges and further ones behind
everything, and may narrow the domain. -/
def PNode.ExtendedBy (ρ : Renaming) : PNode F → PNode F → Prop
  | .mk op dom cs _ es, .mk op' dom' cs' _ es' =>
    op' = op ∧ (dom = "" ∨ dom' = dom) ∧ cs' = renameAll ρ cs ∧ es.ExtendedBy ρ es'

def PEdges.ExtendedBy (ρ : Renaming) : PEdges F → PEdges F → Prop
  | .nil, _ => True
  | .cons d i c o rest, .cons d' i' c' o' rest' =>
    d' = d ∧ i' = i ∧ o' = o ∧
      (c.Alike ρ c' ∧ rest.ExtendedBy ρ rest' ∨ rest = .nil ∧ c.ExtendedBy ρ c' ∧ SameEnd d c c')
  | .cons .., .nil => False

end

mutual

/-- The second tree has the constraints and the edges of the first, and optional edges behind
everything. -/
def PNode.GrowsTo : PNode F → PNode F → Prop
  | .mk op dom cs cap es, .mk op' dom' cs' cap' es' =>
    op' = op ∧ dom' = dom ∧ cs' = cs ∧ cap' = cap ∧ es.GrowsTo es'

def PEdges.GrowsTo : PEdges F → PEdges F → Prop
  | .nil, more => more.AllOptional
  | .cons d i c o rest, .cons d' i' c' o' rest' =>
    d' = d ∧ i' = i ∧ o' = o ∧
      (c' = c ∧ rest.GrowsTo rest' ∨
        rest = .nil ∧ c.GrowsTo c' ∧ SameEnd d c c' ∧ rest'.AllOptional)
  | .cons .., .nil => False

end

mutual

/-- The merge finds every constraint and every edge of the second tree in the first, in order. -/
def PNode.Covers : PNode F → PNode F → Prop
  | .mk _ _ cs _ es, .mk _ _ cs' _ es' =>
    (∀ c ∈ cs', c.1 ∈ cs.map Prod.fst) ∧ es.Covers es'

def PEdges.Covers : PEdges F → PEdges F → Prop
  | _, .nil => True
  | .cons d i c _ rest, .cons d' i' c' _ rest' =>
    d' = d ∧ i' = i ∧ c'.opType = c.opType ∧ c.Covers c' ∧ rest.Covers rest'
  | .nil, .cons .. => False

end

mutual

/-- The merge finds the constraints of the second tree in the first, and its edges, but for some
behind everything, which are at positions of their own. -/
def PNode.Fits : PNode F → PNode F → Prop
  | .mk _ _ cs _ es, .mk _ _ cs' _ es' =>
    (∀ c ∈ cs', c.1 ∈ cs.map Prod.fst) ∧ es.Fits es.positions es'

def PEdges.Fits (taken : List (PEdgeDir × Nat)) : PEdges F → PEdges F → Prop
  | _, .nil => True
  | .nil, more => more.Avoids taken
  | .cons d i c _ rest, .cons d' i' c' _ rest' =>
    d' = d ∧ i' = i ∧ c'.opType = c.opType ∧
      (c.Covers c' ∧ rest.Fits taken rest' ∨
        rest = .nil ∧ c.Fits c' ∧ (d = .downstream → c.isTerminal = true → c'.isTerminal = true) ∧
          rest'.Avoids taken)

end

end

/-! ## What a merge adds -/

namespace MergedPatternsLemmas

open PatternMatcherLemmas

variable {F : Type} {ρ : Renaming}

theorem append_emplaceBack {pre es : PEdges F} {d : PEdgeDir} {i : Nat} {c : PNode F} {o : Bool} :
    (pre.emplaceBack d i c o).append es = pre.append (.cons d i c o es) := by
  cases pre with
  | nil => rfl
  | cons d' i' c' o' rest =>
    rw [PEdges.emplaceBack, PEdges.append, append_emplaceBack]
    rfl

theorem append_nil {es : PEdges F} : es.append .nil = es := by
  cases es with
  | nil => rfl
  | cons d i c o rest => rw [PEdges.append, append_nil]

theorem keys_append {pre es : PEdges F} : (pre.append es).keys = pre.keys ++ es.keys := by
  cases pre with
  | nil => rfl
  | cons d i c o rest =>
    rw [PEdges.append, PEdges.keys, keys_append]
    rfl

theorem mergeConstraints_of_mem {cs add : List (Option Nat × PInput F)}
    (h : ∀ c ∈ add, c.1 ∈ cs.map Prod.fst) : mergeConstraints cs add = cs := by
  induction add with
  | nil => rfl
  | cons c add ih =>
    rw [mergeConstraints, List.foldl_cons, if_pos (h c (List.mem_cons_self ..))]
    exact ih fun c' hc' => h c' (List.mem_cons_of_mem _ hc')

/-- The child of an edge is merged where no edge before has its key. -/
theorem mergeChild_append {pre : PEdges F} {d : PEdgeDir} {i : Nat} {c : PNode F} (es : PEdges F)
    (o : Bool) (merge : PNode F → PNode F) (h : (d, i, c.opType) ∉ pre.keys) :
    (pre.append (.cons d i c o es)).mergeChild d i c.opType merge =
      some (pre.append (.cons d i (merge c) o es)) := by
  cases pre with
  | nil => exact if_pos ⟨rfl, rfl, rfl⟩
  | cons d' i' c' o' rest =>
    rw [PEdges.keys, List.mem_cons, not_or] at h
    have hne : ¬(d' = d ∧ i' = i ∧ c'.opType = c.opType) := by
      rintro ⟨rfl, rfl, hop⟩
      exact h.1 (by rw [hop])
    rw [PEdges.append, PEdges.mergeChild, if_neg hne, mergeChild_append es o merge h.2]
    rfl

theorem mergeEdges_found {d : PEdgeDir} {i : Nat} {c : PNode F} {o : Bool}
    {rest base merged : PEdges F}
    (h : base.mergeChild d i c.opType (fun b => mergePatterns b c) = some merged) :
    mergeEdges (.cons d i c o rest) base = mergeEdges rest merged := by
  rw [mergeEdges, h]

theorem mergeEdges_new {d : PEdgeDir} {i : Nat} {c : PNode F} {o : Bool} {rest base : PEdges F}
    (h : base.mergeChild d i c.opType (fun b => mergePatterns b c) = none) :
    mergeEdges (.cons d i c o rest) base =
      mergeEdges rest ((base.makeOptional d i).emplaceBack d i c true) := by
  rw [mergeEdges, h]

/-! ### Trees that are covered -/

mutual

theorem mergePatterns_covers {p a : PNode F} (hd : p.Distinct) (h : p.Covers a) :
    mergePatterns p a = p := by
  cases p with
  | mk op dom cs cap es =>
    cases a with
    | mk op' dom' cs' cap' es' =>
      have hedges := mergeEdges_covers .nil hd.1 hd.2 h.2
      rw [mergePatterns, mergeConstraints_of_mem h.1]
      exact congrArg _ hedges

theorem mergeEdges_covers {es a : PEdges F} (pre : PEdges F) (hkeys : (pre.append es).keys.Nodup)
    (hd : es.Distinct) (h : es.Covers a) : mergeEdges a (pre.append es) = pre.append es := by
  cases a with
  | nil => rfl
  | cons d' i' c' o' rest' =>
    cases es with
    | nil => exact h.elim
    | cons d i c o rest =>
      obtain ⟨rfl, rfl, hop, hc, hrest⟩ := h
      have hfirst : (d', i', c.opType) ∉ pre.keys := by
        rw [keys_append] at hkeys
        exact fun hmem => (List.nodup_append.1 hkeys).2.2 _ hmem _ (List.mem_cons_self ..) rfl
      have hmerge := mergeChild_append rest o (fun b => mergePatterns b c') hfirst
      rw [mergePatterns_covers hd.1 hc, ← hop] at hmerge
      rw [mergeEdges_found hmerge, ← append_emplaceBack]
      rw [← append_emplaceBack] at hkeys
      exact mergeEdges_covers _ hkeys hd.2 hrest

end

/-! ### Edges behind everything -/

theorem allOptional_mergeChild {es merged : PEdges F} {d : PEdgeDir} {i : Nat} {op : String}
    {merge : PNode F → PNode F} (h : es.AllOptional)
    (hmerge : es.mergeChild d i op merge = some merged) : merged.AllOptional := by
  cases es with
  | nil => cases hmerge
  | cons d' i' c' o' rest =>
    rw [PEdges.mergeChild] at hmerge
    split at hmerge
    · cases hmerge
      exact h
    · obtain ⟨rest', hrest, rfl⟩ := Option.map_eq_some_iff.1 hmerge
      exact ⟨h.1, allOptional_mergeChild h.2 hrest⟩

theorem allOptional_makeOptional {es : PEdges F} (d : PEdgeDir) (i : Nat) (h : es.AllOptional) :
    (es.makeOptional d i).AllOptional := by
  cases es with
  | nil => exact h
  | cons d' i' c' o' rest =>
    obtain ⟨rfl, hrest⟩ := h
    exact ⟨Bool.true_or _, allOptional_makeOptional d i hrest⟩

theorem allOptional_emplaceBack {es : PEdges F} {d : PEdgeDir} {i : Nat} {c : PNode F}
    (h : es.AllOptional) : (es.emplaceBack d i c true).AllOptional := by
  cases es with
  | nil => exact ⟨rfl, trivial⟩
  | cons d' i' c' o' rest => exact ⟨h.1, allOptional_emplaceBack h.2⟩

theorem growsTo_mergeChild {es t merged : PEdges F} {d : PEdgeDir} {i : Nat} {op : String}
    {merge : PNode F → PNode F} (ht : es.GrowsTo t) (havoid : (d, i) ∉ es.positions)
    (hmerge : t.mergeChild d i op merge = some merged) : es.GrowsTo merged := by
  cases es with
  | nil =>
    have hoptional : t.AllOptional := ht
    exact allOptional_mergeChild hoptional hmerge
  | cons d' i' c' o' rest =>
    cases t with
    | nil => exact ht.elim
    | cons d'' i'' c'' o'' rest' =>
      obtain ⟨rfl, rfl, rfl, hends⟩ := ht
      rw [PEdges.positions, List.mem_cons, not_or] at havoid
      have hne : ¬(d'' = d ∧ i'' = i ∧ c''.opType = op) := by
        rintro ⟨rfl, rfl, -⟩
        exact havoid.1 rfl
      rw [PEdges.mergeChild, if_neg hne] at hmerge
      obtain ⟨merged', hmerged, rfl⟩ := Option.map_eq_some_iff.1 hmerge
      refine ⟨rfl, rfl, rfl, ?_⟩
      rcases hends with ⟨hc, hrest⟩ | ⟨hnil, hc, hend, hrest⟩
      · exact Or.inl ⟨hc, growsTo_mergeChild hrest havoid.2 hmerged⟩
      · exact Or.inr ⟨hnil, hc, hend, allOptional_mergeChild hrest hmerged⟩

theorem growsTo_makeOptional {es t : PEdges F} {d : PEdgeDir} {i : Nat} (ht : es.GrowsTo t)
    (havoid : (d, i) ∉ es.positions) : es.GrowsTo (t.makeOptional d i) := by
  cases es with
  | nil =>
    have hoptional : t.AllOptional := ht
    exact allOptional_makeOptional d i hoptional
  | cons d' i' c' o' rest =>
    cases t with
    | nil => exact ht.elim
    | cons d'' i'' c'' o'' rest' =>
      obtain ⟨rfl, rfl, rfl, hends⟩ := ht
      rw [PEdges.positions, List.mem_cons, not_or] at havoid
      have hne : ¬(d'' = d ∧ i'' = i) := by
        rintro ⟨rfl, rfl⟩
        exact havoid.1 rfl
      refine ⟨rfl, rfl, by rw [decide_eq_false hne, Bool.or_false], ?_⟩
      rcases hends with ⟨hc, hrest⟩ | ⟨hnil, hc, hend, hrest⟩
      · exact Or.inl ⟨hc, growsTo_makeOptional hrest havoid.2⟩
      · exact Or.inr ⟨hnil, hc, hend, allOptional_makeOptional d i hrest⟩

theorem growsTo_emplaceBack {es t : PEdges F} {d : PEdgeDir} {i : Nat} {c : PNode F}
    (ht : es.GrowsTo t) : es.GrowsTo (t.emplaceBack d i c true) := by
  cases es with
  | nil =>
    have hoptional : t.AllOptional := ht
    exact allOptional_emplaceBack hoptional
  | cons d' i' c' o' rest =>
    cases t with
    | nil => exact ht.elim
    | cons d'' i'' c'' o'' rest' =>
      obtain ⟨rfl, rfl, rfl, hends⟩ := ht
      refine ⟨rfl, rfl, rfl, ?_⟩
      rcases hends with ⟨hc, hrest⟩ | ⟨hnil, hc, hend, hrest⟩
      · exact Or.inl ⟨hc, growsTo_emplaceBack hrest⟩
      · exact Or.inr ⟨hnil, hc, hend, allOptional_emplaceBack hrest⟩

/-- Edges at positions of their own are added behind everything. -/
theorem mergeEdges_avoids {es t more : PEdges F} (ht : es.GrowsTo t)
    (h : more.Avoids es.positions) : es.GrowsTo (mergeEdges more t) := by
  cases more with
  | nil => exact ht
  | cons d i c o rest =>
    cases hmerge : t.mergeChild d i c.opType fun b => mergePatterns b c with
    | some merged =>
      rw [mergeEdges_found hmerge]
      exact mergeEdges_avoids (growsTo_mergeChild ht h.1 hmerge) h.2
    | none =>
      rw [mergeEdges_new hmerge]
      exact mergeEdges_avoids (growsTo_emplaceBack (growsTo_makeOptional ht h.1)) h.2

theorem growsTo_refl : ∀ {es : PEdges F}, es.GrowsTo es
  | .nil => trivial
  | .cons .. => ⟨rfl, rfl, rfl, Or.inl ⟨rfl, growsTo_refl⟩⟩

theorem growsTo_append {es t : PEdges F} (pre : PEdges F) (ht : es.GrowsTo t) :
    (pre.append es).GrowsTo (pre.append t) := by
  cases pre with
  | nil => exact ht
  | cons d i c o rest => exact ⟨rfl, rfl, rfl, Or.inl ⟨rfl, growsTo_append rest ht⟩⟩

/-! ### Trees that fit -/

theorem isEmpty_mergeChild {es merged : PEdges F} {d : PEdgeDir} {i : Nat} {op : String}
    {merge : PNode F → PNode F} (h : es.mergeChild d i op merge = some merged) :
    merged.isEmpty = false := by
  cases es with
  | nil => cases h
  | cons d' i' c' o' rest =>
    rw [PEdges.mergeChild] at h
    split at h
    · cases h
      rfl
    · obtain ⟨rest', -, rfl⟩ := Option.map_eq_some_iff.1 h
      rfl

theorem isEmpty_mergeEdges {a t : PEdges F} (h : t.isEmpty = false) :
    (mergeEdges a t).isEmpty = false := by
  cases a with
  | nil => exact h
  | cons d i c o rest =>
    cases hmerge : t.mergeChild d i c.opType fun b => mergePatterns b c with
    | some merged =>
      rw [mergeEdges_found hmerge]
      exact isEmpty_mergeEdges (isEmpty_mergeChild hmerge)
    | none =>
      rw [mergeEdges_new hmerge]
      refine isEmpty_mergeEdges ?_
      cases t with
      | nil => cases h
      | cons d' i' c' o' rest' => rfl

theorem isTerminal_mergePatterns {t a : PNode F}
    (h : t.isTerminal = true → a.isTerminal = true) :
    (mergePatterns t a).isTerminal = t.isTerminal := by
  cases t with
  | mk op dom cs cap es =>
    cases a with
    | mk op' dom' cs' cap' es' =>
      show (mergeEdges es' es).isEmpty = es.isEmpty
      cases hes : es.isEmpty with
      | false => exact isEmpty_mergeEdges hes
      | true =>
        have hes' : es'.isEmpty = true := h hes
        cases es with
        | cons d i c o rest => cases hes
        | nil =>
          cases es' with
          | cons d i c o rest => cases hes'
          | nil => rfl

theorem growsTo_opType {p t : PNode F} (h : p.GrowsTo t) : t.opType = p.opType := by
  cases p
  cases t
  exact h.1

theorem growsTo_self {p : PNode F} : p.GrowsTo p := by
  cases p
  exact ⟨rfl, rfl, rfl, rfl, growsTo_refl⟩

theorem fitsEdges_of_covers {taken : List (PEdgeDir × Nat)} {es a : PEdges F}
    (h : es.Covers a) : es.Fits taken a := by
  cases a with
  | nil => cases es <;> trivial
  | cons d' i' c' o' rest' =>
    cases es with
    | nil => exact h.elim
    | cons d i c o rest =>
      obtain ⟨rfl, rfl, hop, hc, hrest⟩ := h
      exact ⟨rfl, rfl, hop, Or.inl ⟨hc, fitsEdges_of_covers hrest⟩⟩

theorem fits_of_covers {p a : PNode F} (h : p.Covers a) : p.Fits a := by
  cases p
  cases a
  exact ⟨h.1, fitsEdges_of_covers h.2⟩

theorem isTerminal_of_covers {p a : PNode F} (h : p.Covers a) (hp : p.isTerminal = true) :
    a.isTerminal = true := by
  cases p with
  | mk op dom cs cap es =>
    cases a with
    | mk op' dom' cs' cap' es' =>
      cases es with
      | cons d i c o rest => cases hp
      | nil =>
        cases es' with
        | nil => rfl
        | cons d i c o rest => exact h.2.elim

theorem avoids_of_fits_nil {taken : List (PEdgeDir × Nat)} {a : PEdges F}
    (h : PEdges.Fits taken .nil a) : a.Avoids taken := by
  cases a with
  | nil => trivial
  | cons d i c o rest => exact h

mutual

/-- A merge with a tree that fits adds optional edges behind everything. -/
theorem mergePatterns_growsTo {p t a : PNode F} (hd : p.Distinct) (ht : p.GrowsTo t)
    (ha : p.Fits a) : p.GrowsTo (mergePatterns t a) := by
  cases p with
  | mk op dom cs cap es =>
    cases t with
    | mk op₁ dom₁ cs₁ cap₁ es₁ =>
      cases a with
      | mk op₂ dom₂ cs₂ cap₂ es₂ =>
        obtain ⟨rfl, rfl, rfl, rfl, hes⟩ := ht
        exact ⟨rfl, rfl, mergeConstraints_of_mem ha.1, rfl,
          mergeEdges_growsTo .nil hd.1 hd.2 hes ha.2⟩

theorem mergeEdges_growsTo {es t a : PEdges F} (pre : PEdges F)
    (hkeys : (pre.append es).keys.Nodup) (hd : es.Distinct) (ht : es.GrowsTo t)
    (ha : es.Fits (pre.append es).positions a) :
    (pre.append es).GrowsTo (mergeEdges a (pre.append t)) := by
  cases a with
  | nil => exact growsTo_append pre ht
  | cons d₂ i₂ c₂ o₂ rest₂ =>
    cases es with
    | nil => exact mergeEdges_avoids (growsTo_append pre ht) ha
    | cons d i c o rest =>
      cases t with
      | nil => exact ht.elim
      | cons d₁ i₁ c₁ o₁ rest₁ =>
        obtain ⟨rfl, rfl, rfl, hends⟩ := ht
        obtain ⟨rfl, rfl, hop, hfits⟩ := ha
        have hfirst : (d₂, i₂, c.opType) ∉ pre.keys := by
          rw [keys_append] at hkeys
          exact fun hmem => (List.nodup_append.1 hkeys).2.2 _ hmem _ (List.mem_cons_self ..) rfl
        have hop₁ : c₁.opType = c.opType := by
          rcases hends with ⟨rfl, -⟩ | ⟨-, hc, -⟩
          · rfl
          · exact growsTo_opType hc
        have hmerge := mergeChild_append rest₁ o₁ (fun b => mergePatterns b c₂) (hop₁ ▸ hfirst)
        rw [hop₁, ← hop] at hmerge
        rw [mergeEdges_found hmerge]
        -- at the last edge the child grows, and what follows in `a` goes behind everything
        have hlast : ∀ (hrest : rest = .nil) (hc : c.GrowsTo c₁) (hend : SameEnd d₂ c c₁)
            (hmore : rest₁.AllOptional) (hc₂ : c.Fits c₂)
            (hterminal : d₂ = .downstream → c.isTerminal = true → c₂.isTerminal = true)
            (havoid : rest₂.Avoids (pre.append (.cons d₂ i₂ c o₁ rest)).positions),
            (pre.append (.cons d₂ i₂ c o₁ rest)).GrowsTo
              (mergeEdges rest₂ (pre.append (.cons d₂ i₂ (mergePatterns c₁ c₂) o₁ rest₁))) := by
          intro hrest hc hend hmore hc₂ hterminal havoid
          refine mergeEdges_avoids (growsTo_append pre ⟨rfl, rfl, rfl, Or.inr ?_⟩) havoid
          refine ⟨hrest, mergePatterns_growsTo hd.1 hc hc₂, fun hdown => ?_, hmore⟩
          rw [isTerminal_mergePatterns, hend hdown]
          rw [hend hdown]
          exact hterminal hdown
        rcases hfits with ⟨hcovers, hrest⟩ | ⟨rfl, hc₂, hterminal, hrest⟩
        · rcases hends with ⟨rfl, hgrows⟩ | ⟨rfl, hc, hend, hgrows⟩
          · -- an edge in front: its child is covered, and stays as it is
            rw [mergePatterns_covers hd.1 hcovers, ← append_emplaceBack, ← append_emplaceBack]
            rw [← append_emplaceBack] at hkeys hrest
            exact mergeEdges_growsTo _ hkeys hd.2 hgrows hrest
          · exact hlast rfl hc hend hgrows (fits_of_covers hcovers)
              (fun _ => isTerminal_of_covers hcovers) (avoids_of_fits_nil hrest)
        · rcases hends with ⟨rfl, hgrows⟩ | ⟨-, hc, hend, hgrows⟩
          · exact hlast rfl growsTo_self (fun _ => rfl) hgrows hc₂ hterminal hrest
          · exact hlast rfl hc hend hgrows hc₂ hterminal hrest

end

/-! ### What a match of a grown tree is -/

section

variable [FloatOps F] {env : MatchEnv F} {gc : GraphConnectivity} {already : List Node}
  {node : Node} {out out' : PatternMatch F}

omit [FloatOps F] in
theorem followEdge_sameEnd {d : PEdgeDir} {i : Nat} {c c' : PNode F}
    (hop : c'.opType = c.opType) (hend : SameEnd d c c') :
    followEdge gc node d i c' = followEdge gc node d i c := by
  cases d with
  | upstream => rfl
  | downstream =>
    unfold followEdge
    rw [hop, hend rfl]

theorem matchEdges_allOptional {es : PEdges F} {out : PatternMatch F} (h : es.AllOptional) :
    (matchEdges env gc already node es out).isSome = true := by
  cases es with
  | nil => rfl
  | cons d i c o rest =>
    obtain ⟨rfl, hrest⟩ := h
    rw [matchEdges]
    split
    · exact matchEdges_allOptional hrest
    · split
      · exact matchEdges_allOptional hrest
      · split <;> exact matchEdges_allOptional hrest

/-- The checks of a node in front of its constraints. -/
def Accepts (already : List Node) (opType domain : String) (node : Node) (out : PatternMatch F) :
    Prop :=
  node ∉ already ∧ node ∉ out.allNodes ∧ node.opType = opType ∧
    (domain = "" ∨ node.domain = domain)

omit [FloatOps F] in
instance (opType domain : String) : Decidable (Accepts already opType domain node out) :=
  inferInstanceAs (Decidable (_ ∧ _))

theorem matchNode_eq {opType domain cap : String} {cs : List (Option Nat × PInput F)}
    {es : PEdges F} :
    matchNode env gc already (.mk opType domain cs cap es) node out =
      if Accepts already opType domain node out then
        (checkInputs env node cs out).bind fun checked =>
          matchEdges env gc already node es (checked.commit (captureName opType cap out) node)
      else none := by
  ext m
  rw [matchNode_eq_some]
  by_cases h : Accepts already opType domain node out
  · rw [if_pos h, Option.bind_eq_some_iff]
    obtain ⟨hfree, hnew, hop, hdomain⟩ := h
    simp only [hfree, hnew, hop, hdomain, not_false_eq_true, true_and]
  · rw [if_neg h]
    constructor
    · rintro ⟨hfree, hnew, hop, hdomain, -⟩
      exact absurd ⟨hfree, hnew, hop, hdomain⟩ h
    · intro hm
      cases hm

mutual

/-- Optional edges behind everything change nothing. -/
theorem matchNode_growsTo {p t : PNode F} {node : Node} {out : PatternMatch F}
    (h : p.GrowsTo t) :
    (matchNode env gc already t node out).isSome =
      (matchNode env gc already p node out).isSome := by
  cases p with
  | mk op dom cs cap es =>
    cases t with
    | mk op' dom' cs' cap' es' =>
      obtain ⟨rfl, rfl, rfl, rfl, hes⟩ := h
      rw [matchNode_eq, matchNode_eq]
      split
      · cases hchecked : checkInputs env node cs' out with
        | none => rfl
        | some checked => exact matchEdges_growsTo hes
      · rfl

theorem matchEdges_growsTo {es t : PEdges F} {node : Node} {out : PatternMatch F}
    (h : es.GrowsTo t) :
    (matchEdges env gc already node t out).isSome =
      (matchEdges env gc already node es out).isSome := by
  cases es with
  | nil =>
    have hoptional : t.AllOptional := h
    exact matchEdges_allOptional hoptional
  | cons d i c o rest =>
    cases t with
    | nil => exact h.elim
    | cons d' i' c' o' rest' =>
      obtain ⟨rfl, rfl, rfl, hends⟩ := h
      rcases hends with ⟨rfl, hrest⟩ | ⟨rfl, hc, hend, hrest⟩
      · rw [matchEdges, matchEdges]
        cases hfollow : followEdge gc node d' i' c' with
        | none =>
          cases o' with
          | false => rfl
          | true => exact matchEdges_growsTo hrest
        | some n =>
          dsimp only
          cases hmatch : matchNode env gc already c' n out with
          | none =>
            cases o' with
            | false => rfl
            | true => exact matchEdges_growsTo hrest
          | some longer =>
            dsimp only
            split
            · exact matchEdges_growsTo hrest
            · exact matchEdges_growsTo hrest
      · -- behind the last edge nothing can fail
        rw [matchEdges, matchEdges, followEdge_sameEnd (growsTo_opType hc) hend]
        cases hfollow : followEdge gc node d' i' c with
        | none =>
          cases o' with
          | false => rfl
          | true => exact matchEdges_allOptional hrest
        | some n =>
          dsimp only
          have hsome : (matchNode env gc already c' n out).isSome =
              (matchNode env gc already c n out).isSome := matchNode_growsTo hc
          cases hmatch : matchNode env gc already c n out with
          | none =>
            rw [hmatch, Option.isSome_none, Option.isSome_eq_false_iff, Option.isNone_iff_eq_none]
              at hsome
            rw [hsome]
            cases o' with
            | false => rfl
            | true => exact matchEdges_allOptional hrest
          | some longer =>
            rw [hmatch, Option.isSome_some] at hsome
            obtain ⟨longer', hlonger'⟩ := Option.isSome_iff_exists.1 hsome
            rw [hlonger']
            dsimp only
            split <;> split <;> exact matchEdges_allOptional hrest

end

/-! ### Other capture names -/

/-- The same nodes, and the same names under other keys: all that a descent reads. -/
structure Sim (ρ : Renaming) (out out' : PatternMatch F) : Prop where
  names : ∀ key, out'.valueNames (ρ.toFun key) = out.valueNames key
  nodes : out'.allNodes = out.allNodes

omit [FloatOps F] in
theorem sim_setValueName (h : Sim ρ out out') (key name : String) :
    Sim ρ (out.setValueName key name) (out'.setValueName (ρ.toFun key) name) := by
  refine ⟨fun key' => ?_, h.nodes⟩
  show Function.update out'.valueNames (ρ.toFun key) (some name) (ρ.toFun key') =
    Function.update out.valueNames key (some name) key'
  by_cases hkey : key' = key
  · rw [hkey, Function.update_self, Function.update_self]
  · rw [Function.update_of_ne hkey, Function.update_of_ne fun heq => hkey (ρ.injective heq)]
    exact h.names key'

omit [FloatOps F] in
theorem sim_noteValueName (h : Sim ρ out out') (key name : String) :
    Sim ρ (out.noteValueName key name) (out'.noteValueName (ρ.toFun key) name) := by
  unfold PatternMatch.noteValueName
  by_cases hkey : key = ""
  · rw [hkey, ρ.empty, if_pos rfl, if_pos rfl]
    exact h
  · have hkey' : ρ.toFun key ≠ "" := fun heq => hkey (ρ.injective (heq.trans ρ.empty.symm))
    rw [if_neg hkey, if_neg hkey']
    exact sim_setValueName h key name

omit [FloatOps F] in
theorem sim_noteScalarValue (h : Sim ρ out out') (key key' : String) (v : F) :
    Sim ρ (out.noteScalarValue key v) (out'.noteScalarValue key' v) := by
  unfold PatternMatch.noteScalarValue
  split <;> split <;> exact ⟨h.names, h.nodes⟩

omit [FloatOps F] in
theorem sim_commit (h : Sim ρ out out') (key key' : String) (node : Node) :
    Sim ρ (out.commit key node) (out'.commit key' node) := by
  refine ⟨h.names, ?_⟩
  show out'.allNodes ++ [node] = out.allNodes ++ [node]
  rw [h.nodes]

/-- Both fail, or both end in states that belong together. -/
abbrev Together (ρ : Renaming) : Option (PatternMatch F) → Option (PatternMatch F) → Prop :=
  Option.Rel (Sim ρ)

omit [FloatOps F] in
theorem together_bind {x x' : Option (PatternMatch F)}
    {f f' : PatternMatch F → Option (PatternMatch F)} (hx : Together ρ x x')
    (hf : ∀ m m', Sim ρ m m' → Together ρ (f m) (f' m')) : Together ρ (x.bind f) (x'.bind f') := by
  cases hx with
  | none => exact .none
  | some h => exact hf _ _ h

omit [FloatOps F] in
theorem together_map {α : Type} {x : Option α} {f f' : α → PatternMatch F}
    (hf : ∀ v, Sim ρ (f v) (f' v)) : Together ρ (x.map f) (x.map f') := by
  cases x with
  | none => exact .none
  | some v => exact .some (hf v)

theorem together_checkAnyInput (h : Sim ρ out out') (c : PInput F) :
    Together ρ (checkAnyInput env node out c) (checkAnyInput env node out' (c.rename ρ)) := by
  cases c with
  | any => exact .none
  | capture key => exact .none
  | scalar key value tol => exact together_map fun v => sim_noteScalarValue h _ _ v
  | predicate key fn => exact together_map fun name => sim_noteValueName h key name
  | sameAs key =>
    simp only [PInput.rename, checkAnyInput, h.names]
    split
    · exact together_map fun name => sim_setValueName h key name
    · split
      · exact .some h
      · exact .none

theorem together_checkInput {name : String} (h : Sim ρ out out') (c : PInput F) :
    Together ρ (checkInput env node out name c) (checkInput env node out' name (c.rename ρ)) := by
  cases c with
  | any => exact .some h
  | capture key => exact .some (sim_setValueName h key name)
  | scalar key value tol => exact together_map fun v => sim_noteScalarValue h _ _ v
  | predicate key fn =>
    simp only [PInput.rename, checkInput]
    split
    · exact .some (sim_noteValueName h key name)
    · exact .none
  | sameAs key =>
    simp only [PInput.rename, checkInput, h.names]
    split
    · exact .some (sim_setValueName h key name)
    · split
      · exact .some h
      · exact .none

theorem together_checkInputs {cs : List (Option Nat × PInput F)} (h : Sim ρ out out') :
    Together ρ (checkInputs env node cs out) (checkInputs env node (renameAll ρ cs) out') := by
  induction cs generalizing out out' with
  | nil => exact .some h
  | cons c cs ih =>
    obtain ⟨idx, c⟩ := c
    cases idx with
    | none => exact together_bind (together_checkAnyInput h c) fun _ _ hmid => ih hmid
    | some idx =>
      refine together_bind ?_ fun _ _ hmid => ih hmid
      cases (getNodeInputNames node)[idx]? with
      | none => exact .none
      | some name => exact together_checkInput h c

omit [FloatOps F] in
theorem isTerminal_of_alike {c c' : PNode F} (h : c.Alike ρ c') : c'.isTerminal = c.isTerminal := by
  cases c with
  | mk op dom cs cap es =>
    cases c' with
    | mk op' dom' cs' cap' es' =>
      obtain ⟨-, -, -, hes⟩ := h
      cases es with
      | nil =>
        cases es' with
        | nil => rfl
        | cons d i c o rest => exact hes.elim
      | cons d i c o rest =>
        cases es' with
        | nil => exact hes.elim
        | cons d' i' c' o' rest' => rfl

omit [FloatOps F] in
theorem opType_of_alike {c c' : PNode F} (h : c.Alike ρ c') : c'.opType = c.opType := by
  cases c
  cases c'
  exact h.1

omit [FloatOps F] in
theorem accepts_sim {opType domain : String} (h : Sim ρ out out') :
    Accepts already opType domain node out' ↔ Accepts already opType domain node out := by
  unfold Accepts
  rw [h.nodes]

mutual

theorem matchNode_alike {p p' : PNode F} {node : Node} {out out' : PatternMatch F}
    (hp : p.Alike ρ p') (h : Sim ρ out out') :
    Together ρ (matchNode env gc already p node out) (matchNode env gc already p' node out') := by
  cases p with
  | mk op dom cs cap es =>
    cases p' with
    | mk op' dom' cs' cap' es' =>
      obtain ⟨rfl, rfl, rfl, hes⟩ := hp
      rw [matchNode_eq, matchNode_eq]
      simp only [accepts_sim h]
      split
      · exact together_bind (together_checkInputs h) fun m m' hm =>
          matchEdges_alike hes (sim_commit hm _ _ node)
      · exact .none

theorem matchEdges_alike {es es' : PEdges F} {node : Node} {out out' : PatternMatch F}
    (hes : es.Alike ρ es') (h : Sim ρ out out') :
    Together ρ (matchEdges env gc already node es out)
      (matchEdges env gc already node es' out') := by
  cases es with
  | nil =>
    cases es' with
    | nil => exact .some h
    | cons d i c o rest => exact hes.elim
  | cons d i c o rest =>
    cases es' with
    | nil => exact hes.elim
    | cons d' i' c' o' rest' =>
      obtain ⟨rfl, rfl, rfl, hc, hrest⟩ := hes
      rw [matchEdges, matchEdges,
        followEdge_sameEnd (opType_of_alike hc) fun _ => isTerminal_of_alike hc]
      cases followEdge gc node d' i' c with
      | none =>
        cases o' with
        | false => exact .none
        | true => exact matchEdges_alike hrest h
      | some n =>
        dsimp only
        have hmatch : Together ρ (matchNode env gc already c n out)
            (matchNode env gc already c' n out') := matchNode_alike hc h
        revert hmatch
        generalize matchNode env gc already c n out = x
        generalize matchNode env gc already c' n out' = x'
        intro hmatch
        cases hmatch with
        | none =>
          cases o' with
          | false => exact .none
          | true => exact matchEdges_alike hrest h
        | some hlonger =>
          simp only [h.nodes, hlonger.nodes]
          split
          · exact matchEdges_alike hrest h
          · exact matchEdges_alike hrest hlonger

end

omit [FloatOps F] in
theorem opType_of_extendedBy {c c' : PNode F} (h : c.ExtendedBy ρ c') : c'.opType = c.opType := by
  cases c
  cases c'
  exact h.1

mutual

/-- Where the longer tree matches, the shorter one does. -/
theorem matchNode_extendedBy {p p' : PNode F} {node : Node} {out out' : PatternMatch F}
    (hp : p.ExtendedBy ρ p') (h : Sim ρ out out')
    (hmatch : (matchNode env gc already p' node out').isSome) :
    (matchNode env gc already p node out).isSome := by
  cases p with
  | mk op dom cs cap es =>
    cases p' with
    | mk op' dom' cs' cap' es' =>
      obtain ⟨rfl, hdom, rfl, hes⟩ := hp
      rw [matchNode_eq] at hmatch ⊢
      split at hmatch
      · next haccepts =>
        obtain ⟨hfree, hnew, hop, hdomain⟩ := (accepts_sim h).1 haccepts
        have haccepts' : Accepts already op' dom node out := by
          refine ⟨hfree, hnew, hop, ?_⟩
          rcases hdom with hdom | rfl
          · exact Or.inl hdom
          · exact hdomain
        rw [if_pos haccepts']
        have hchecked : Together ρ (checkInputs env node cs out)
            (checkInputs env node (renameAll ρ cs) out') := together_checkInputs h
        revert hmatch hchecked
        generalize checkInputs env node cs out = x
        generalize checkInputs env node (renameAll ρ cs) out' = x'
        intro hmatch hchecked
        cases hchecked with
        | none => cases hmatch
        | some hm => exact matchEdges_extendedBy hes (sim_commit hm _ _ node) hmatch
      · cases hmatch

theorem matchEdges_extendedBy {es es' : PEdges F} {node : Node} {out out' : PatternMatch F}
    (hes : es.ExtendedBy ρ es') (h : Sim ρ out out')
    (hmatch : (matchEdges env gc already node es' out').isSome) :
    (matchEdges env gc already node es out).isSome := by
  cases es with
  | nil => rfl
  | cons d i c o rest =>
    cases es' with
    | nil => exact hes.elim
    | cons d' i' c' o' rest' =>
      obtain ⟨rfl, rfl, rfl, hends⟩ := hes
      rcases hends with ⟨hc, hrest⟩ | ⟨rfl, hc, hend⟩
      · rw [matchEdges] at hmatch ⊢
        rw [followEdge_sameEnd (opType_of_alike hc) fun _ => isTerminal_of_alike hc] at hmatch
        revert hmatch
        cases followEdge gc node d' i' c with
        | none =>
          cases o' with
          | false => exact fun hmatch => hmatch
          | true => exact matchEdges_extendedBy hrest h
        | some n =>
          dsimp only
          have hchild : Together ρ (matchNode env gc already c n out)
              (matchNode env gc already c' n out') := matchNode_alike hc h
          revert hchild
          generalize matchNode env gc already c n out = x
          generalize matchNode env gc already c' n out' = x'
          intro hchild
          cases hchild with
          | none =>
            cases o' with
            | false => exact fun hmatch => hmatch
            | true => exact matchEdges_extendedBy hrest h
          | some hlonger =>
            simp only [h.nodes, hlonger.nodes]
            split
            · exact matchEdges_extendedBy hrest h
            · exact matchEdges_extendedBy hrest hlonger
      · cases o' with
        | true => exact matchEdges_allOptional ⟨rfl, trivial⟩
        | false =>
          obtain ⟨m, hm⟩ := Option.isSome_iff_exists.1 hmatch
          obtain ⟨n, longer, hfollow, hchild, -⟩ := matchEdges_required.1 hm
          rw [followEdge_sameEnd (opType_of_extendedBy hc) hend] at hfollow
          have hsome : (matchNode env gc already c n out).isSome :=
            matchNode_extendedBy hc h (Option.isSome_iff_exists.2 ⟨longer, hchild⟩)
          obtain ⟨longer', hlonger'⟩ := Option.isSome_iff_exists.1 hsome
          exact Option.isSome_iff_exists.2
            ⟨longer', matchEdges_required.2 ⟨n, longer', hfollow, hlonger', rfl⟩⟩

end

end

end MergedPatternsLemmas

/-! ## What a merged tree matches -/

/-- A node of a graph, the data of the session, and the nodes that were matched before. -/
structure Site (F : Type) where
  env : MatchEnv F
  g : Graph
  already : List Node
  anchor : Node
  mem : anchor ∈ g.nodes

/-- The tree of an anchor: those of its further rules are merged into that of the first one. -/
def mergedTree {F : Type} (base : PNode F) (additional : List (PNode F)) : PNode F :=
  additional.foldl mergePatterns base

/-- The entry of an anchor with these rules. -/
def mergedEntry {F : Type} : List (FusionRule F) → Option (AnchorEntry F)
  | [] => none
  | first :: rest =>
    some
      { tree := mergedTree first.buildPattern (rest.map (·.buildPattern))
        rules := first :: rest }

section

variable {F : Type} [FloatOps F]

def Site.Matches (s : Site F) (p : PNode F) : Prop :=
  (matchPattern s.env (buildGraphConnectivity s.g) s.already s.anchor p).isSome = true

/-- The merged tree matches where one of the trees does, and nowhere else. -/
def MergesFaithfully (base : PNode F) (additional : List (PNode F)) : Prop :=
  ∀ s : Site F, s.Matches (mergedTree base additional) ↔ ∃ p ∈ base :: additional, s.Matches p

/-- One tree matches only where another does. -/
def PNode.Implies (p q : PNode F) : Prop :=
  ∀ s : Site F, s.Matches p → s.Matches q

open MergedPatternsLemmas

omit [FloatOps F] in
/-- The entry of an anchor is made of its rules, in the order they are added. -/
theorem buildAnchorIndex_eq (rules : List (FusionRule F)) (anchorOpType : String) :
    buildAnchorIndex rules anchorOpType =
      mergedEntry (rules.filter fun rule => rule.anchorOpType = anchorOpType) := by
  induction rules using List.reverseRecOn with
  | nil => rfl
  | append_singleton rules rule ih =>
    have hstep : buildAnchorIndex (rules ++ [rule]) =
        addRule (buildAnchorIndex rules) rule := by
      rw [buildAnchorIndex, List.foldl_append]
      rfl
    rw [hstep, List.filter_append, addRule]
    by_cases hanchor : rule.anchorOpType = anchorOpType
    · have hfilter : [rule].filter (fun rule => rule.anchorOpType = anchorOpType) = [rule] := by
        simp [hanchor]
      rw [hfilter, hanchor, Function.update_self, ih]
      cases rules.filter fun rule => rule.anchorOpType = anchorOpType with
      | nil => rfl
      | cons first rest =>
        rw [List.cons_append, mergedEntry, mergedEntry, mergedTree, mergedTree, List.map_append,
          List.foldl_append]
        rfl
    · have hfilter : [rule].filter (fun rule => rule.anchorOpType = anchorOpType) = [] := by
        simp [hanchor]
      rw [hfilter, List.append_nil, Function.update_of_ne fun heq => hanchor heq.symm, ih]

/-- A tree that extends another one, its captures under names of its own, implies it. -/
theorem implies_of_extendedBy {ρ : Renaming} {p q : PNode F} (h : p.ExtendedBy ρ q) :
    q.Implies p :=
  fun _ hmatch => matchNode_extendedBy h ⟨fun _ => rfl, rfl⟩ hmatch

omit [FloatOps F] in
/-- Merging trees that fit adds nothing that can fail. -/
theorem mergedTree_growsTo {base : PNode F} {additional : List (PNode F)} (hd : base.Distinct)
    (hfits : ∀ a ∈ additional, base.Fits a) : base.GrowsTo (mergedTree base additional) := by
  have hrun : ∀ t, base.GrowsTo t → base.GrowsTo (additional.foldl mergePatterns t) := by
    induction additional with
    | nil => exact fun t ht => ht
    | cons a additional ih =>
      intro t ht
      exact ih (fun b hb => hfits b (List.mem_cons_of_mem _ hb)) _
        (mergePatterns_growsTo hd ht (hfits a (List.mem_cons_self ..)))
  exact hrun base growsTo_self

end

/-- Two rules with captures of their own: the longer one also asks for the producer of the
input. -/
def shortRule : PNode Rat :=
  ((PNode.op "Sigmoid").input (some 0) (.capture "short.x")).downstream 0 (.op "Mul") false

def longRule : PNode Rat :=
  (((PNode.op "Sigmoid").input (some 0) (.capture "long.x")).downstream 0 (.op "Mul")
    false).upstream 0 ((PNode.op "Add").input none (.sameAs "long.x")) false

def swapCaptures : Renaming where
  toFun := Equiv.swap "short.x" "long.x"
  injective := (Equiv.swap _ _).injective
  empty := by decide

/-- The `i`-th node of `fanOut`: a `Sigmoid`, two `Mul`s, a `Relu` and an `Add`. -/
def fanOutSite (i : Fin 5) : Site Rat where
  env := noInitializers
  g := fanOut
  already := []
  anchor := fanOut.nodes.get i
  mem := List.get_mem _ _

instance (s : Site Rat) (p : PNode Rat) : Decidable (s.Matches p) :=
  inferInstanceAs (Decidable (_ = true))

end AmdGpuEp.DirectML
