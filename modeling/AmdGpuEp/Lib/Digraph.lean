import Mathlib.Logic.Relation
import Mathlib.Data.List.Basic
import Mathlib.Order.WellFoundedSet
import Mathlib.Tactic.Common

/-!
# Directed graphs as relations: acyclicity and contraction

A graph is a relation `r : α → α → Prop` ("`b` needs a result of `a`"). A
partitioner merges vertices; what it leaves behind is the relation contracted
along the map that sends a vertex to its block.

Results:
1. `acyclic_of_rank`: a rank that grows along every edge excludes cycles.
2. `acyclic_contract_of_rank`: the same for a contraction, from a rank of the
   blocks that grows along every edge between two blocks.
3. `acyclic_of_listed`: a relation whose edges all point forward in a list
   without repetitions is acyclic.
4. `acyclic_contract_iff_of_bad`: when a contraction is acyclic along the good
   edges, a cycle needs a bad edge that leads back to its own block.
5. `acyclic_contract_iff_of_exits`: merging disjoint groups of an acyclic
   relation makes a cycle only along an edge that leaves a group.
6. `acyclic_contract_of_segments`: contracting disjoint segments of such a list,
   all at once, leaves an acyclic relation.
-/

namespace AmdGpuEp

open Relation

variable {α γ : Type*}

/-! ## Acyclic relations -/

/-- No vertex reaches itself. -/
def Acyclic (r : α → α → Prop) : Prop :=
  ∀ a, ¬ TransGen r a a

theorem rank_lt_of_transGen {r : α → α → Prop} {f : α → Nat}
    (h : ∀ a b, r a b → f a < f b) {a b : α} (hab : TransGen r a b) : f a < f b := by
  induction hab with
  | single hr => exact h _ _ hr
  | tail _ hr ih => exact Nat.lt_trans ih (h _ _ hr)

/-- Along a chain every vertex but the last has the next one behind it. -/
theorem step_of_isChain {r : α → α → Prop} {l : List α} (h : l.IsChain r) {z : α}
    (hz : l.getLast? = some z) {a : α} (ha : a ∈ l) :
    a = z ∨ ∃ b ∈ l, r a b ∧ ReflTransGen r b z := by
  induction l generalizing a with
  | nil => cases ha
  | cons x l ih =>
    cases l with
    | nil =>
      rw [List.mem_singleton.1 ha]
      exact Or.inl (Option.some.inj hz)
    | cons y l =>
      obtain ⟨hxy, hrest⟩ := List.isChain_cons_cons.1 h
      have hlast : (y :: l).getLast? = some z := by rwa [List.getLast?_cons_cons] at hz
      cases ha with
      | head =>
        refine Or.inr ⟨y, by simp, hxy, ?_⟩
        rcases ih hrest hlast List.mem_cons_self with rfl | ⟨b, -, hyb, hbz⟩
        · exact .refl
        · exact .head hyb hbz
      | tail _ ha =>
        rcases ih hrest hlast ha with rfl | ⟨b, hb, hab⟩
        · exact Or.inl rfl
        · exact Or.inr ⟨b, List.mem_cons_of_mem x hb, hab⟩

theorem acyclic_of_rank {r : α → α → Prop} (f : α → Nat)
    (h : ∀ a b, r a b → f a < f b) : Acyclic r := by
  intro a ha
  exact Nat.lt_irrefl _ (rank_lt_of_transGen h ha)

/-- In an acyclic relation, the members of a list can be ranked below its length. -/
theorem Acyclic.exists_rank {r : α → α → Prop} (h : Acyclic r) (l : List α) :
    ∃ rank : α → Nat, (∀ a, rank a ≤ l.length) ∧ ∀ a ∈ l, ∀ b, r a b → rank a < rank b := by
  classical
  refine ⟨fun b => (l.filter fun a => TransGen r a b).length,
    fun _ => List.length_filter_le _ _, fun a ha b hab => ?_⟩
  -- what leads to `a` leads to `b`, and so does `a` itself
  have hsub : (l.filter fun c => TransGen r c a).Sublist (l.filter fun c => TransGen r c b) :=
    List.monotone_filter_right l fun c hc => by
      rw [decide_eq_true_eq] at hc ⊢
      exact hc.tail hab
  refine Nat.lt_of_le_of_ne hsub.length_le fun hlen => ?_
  have heq := hsub.eq_of_length hlen
  have hmem : a ∈ l.filter fun c => TransGen r c a := by
    rw [heq, List.mem_filter, decide_eq_true_eq]
    exact ⟨ha, .single hab⟩
  exact h a (of_decide_eq_true (List.mem_filter.1 hmem).2)

/-- In an acyclic relation, every non-empty finite set of vertices has a member none of whose
predecessors is in the set. -/
theorem Acyclic.exists_source {r : α → α → Prop} (h : Acyclic r) {s : Set α}
    (hfin : s.Finite) (hne : s.Nonempty) : ∃ a ∈ s, ∀ b ∈ s, ¬ r b a := by
  have : IsStrictOrder α (TransGen r) :=
    { irrefl := h, trans := fun _ _ _ => TransGen.trans }
  obtain ⟨x, hx⟩ := hne
  obtain ⟨a, -, hmin⟩ := (hfin.wellFoundedOn (r := TransGen r)).has_min
    Set.univ ⟨⟨x, hx⟩, trivial⟩
  exact ⟨a.1, a.2, fun b hb hr => hmin ⟨b, hb⟩ trivial (TransGen.single hr)⟩

/-- In an acyclic relation, every non-empty finite set of vertices has a member none of whose
successors is in the set. -/
theorem Acyclic.exists_sink {r : α → α → Prop} (h : Acyclic r) {s : Set α}
    (hfin : s.Finite) (hne : s.Nonempty) : ∃ a ∈ s, ∀ b ∈ s, ¬ r a b := by
  have hswap : Acyclic (Function.swap r) := fun a ha => h a (transGen_swap.1 ha)
  exact hswap.exists_source hfin hne

/-! ## Orders of a list -/

theorem idxOf_lt_of_sublist [DecidableEq α] {l : List α} (hl : l.Nodup) {a b : α}
    (h : [a, b].Sublist l) : l.idxOf a < l.idxOf b := by
  induction l with
  | nil => cases h
  | cons x l ih =>
    obtain ⟨hx, hl'⟩ := List.nodup_cons.1 hl
    cases h with
    | cons _ h' =>
      have ha : x ≠ a := fun e => hx (e ▸ h'.subset (by simp))
      have hb : x ≠ b := fun e => hx (e ▸ h'.subset (by simp))
      rw [List.idxOf_cons_ne _ ha, List.idxOf_cons_ne _ hb]
      exact Nat.succ_lt_succ (ih hl' h')
    | cons_cons _ h' =>
      have hb : a ≠ b := fun e => hx (e ▸ h'.subset (by simp))
      rw [List.idxOf_cons_self, List.idxOf_cons_ne _ hb]
      exact Nat.succ_pos _

theorem pair_sublist_left {l r : List α} {a b : α} (h : [a, b].Sublist (l ++ r)) (hb : b ∉ r) :
    [a, b].Sublist l := by
  obtain ⟨l₁, l₂, he, h₁, h₂⟩ := List.sublist_append_iff.1 h
  rcases List.eq_nil_or_concat l₂ with rfl | ⟨l', x, rfl⟩
  · simpa [he] using h₁
  · have hcons : [a] ++ [b] = (l₁ ++ l') ++ [x] := by simpa using he
    have hx : [b] = [x] := (List.append_inj' hcons rfl).2
    exact absurd (h₂.subset (by simp_all)) hb

theorem acyclic_of_listed [DecidableEq α] {r : α → α → Prop} {l : List α} (hl : l.Nodup)
    (h : ∀ a b, r a b → [a, b].Sublist l) : Acyclic r :=
  acyclic_of_rank l.idxOf fun a b hab => idxOf_lt_of_sublist hl (h a b hab)

/-! ## Contraction -/

/-- The relation left after every vertex is replaced by its block. -/
def Contract (r : α → α → Prop) (c : α → γ) (x y : γ) : Prop :=
  x ≠ y ∧ ∃ a b, c a = x ∧ c b = y ∧ r a b

/-- A rank of the blocks that grows along every edge between two of them excludes cycles. -/
theorem acyclic_contract_of_rank {r : α → α → Prop} {c : α → γ} (f : γ → Nat)
    (h : ∀ a b, r a b → c a ≠ c b → f (c a) < f (c b)) : Acyclic (Contract r c) := by
  refine acyclic_of_rank f ?_
  rintro _ _ ⟨hne, a, b, rfl, rfl, hr⟩
  exact h a b hr hne

/-- A path stays a path when its vertices are replaced by their blocks. -/
theorem reflTransGen_contract {r : α → α → Prop} (c : α → γ) {a b : α}
    (h : ReflTransGen r a b) : ReflTransGen (Contract r c) (c a) (c b) := by
  induction h with
  | refl => exact .refl
  | @tail b d _ hr ih =>
    by_cases hne : c b = c d
    · rwa [← hne]
    · exact ih.tail ⟨hne, b, d, rfl, rfl, hr⟩

/-- A path of steps that are good or bad is a path of good steps, or it takes a bad one. -/
theorem transGen_or_bad {r good bad : α → α → Prop} (h : ∀ a b, r a b → good a b ∨ bad a b)
    {x y : α} (hxy : TransGen r x y) :
    TransGen good x y ∨ ∃ a b, bad a b ∧ ReflTransGen r x a ∧ ReflTransGen r b y := by
  induction hxy with
  | single hr =>
    rcases h _ _ hr with hg | hb
    · exact Or.inl (.single hg)
    · exact Or.inr ⟨_, _, hb, .refl, .refl⟩
  | tail hpath hr ih =>
    rcases ih with hg | ⟨a, b, hb, hxa, hby⟩
    · rcases h _ _ hr with hgood | hbad
      · exact Or.inl (hg.tail hgood)
      · exact Or.inr ⟨_, _, hbad, hpath.to_reflTransGen, .refl⟩
    · exact Or.inr ⟨a, b, hb, hxa, hby.tail hr⟩

/-- When the good steps alone make no cycle, neither do all, unless a bad one is on it. -/
theorem acyclic_iff_of_bad {r good : α → α → Prop} (bad : α → α → Prop)
    (h : ∀ a b, r a b → good a b ∨ bad a b)
    (hbad : ∀ a b, bad a b → r a b) (hgood : Acyclic good) :
    Acyclic r ↔ ∀ a b, bad a b → ¬ ReflTransGen r b a := by
  constructor
  · intro hacyc a b hab hba
    exact hacyc a (TransGen.head' (hbad a b hab) hba)
  · intro hback x hx
    rcases transGen_or_bad h hx with hcycle | ⟨a, b, hab, hxa, hbx⟩
    · exact hgood x hcycle
    · exact hback a b hab (hbx.trans hxa)

/-- The contraction along bad steps too has no cycle exactly when no bad step between two blocks
leads back to the block it starts from. -/
theorem acyclic_contract_iff_of_bad {r bad : α → α → Prop} {c : α → γ}
    (hbad : ∀ a b, bad a b → r a b)
    (hgood : Acyclic (Contract (fun a b => r a b ∧ ¬ bad a b) c)) :
    Acyclic (Contract r c) ↔
      ∀ a b, bad a b → c a ≠ c b → ¬ ReflTransGen (Contract r c) (c b) (c a) := by
  refine (acyclic_iff_of_bad (Contract bad c) ?_ ?_ hgood).trans ?_
  · rintro _ _ ⟨hne, a, b, rfl, rfl, hr⟩
    by_cases hb : bad a b
    · exact Or.inr ⟨hne, a, b, rfl, rfl, hb⟩
    · exact Or.inl ⟨hne, a, b, rfl, rfl, hr, hb⟩
  · rintro _ _ ⟨hne, a, b, rfl, rfl, hb⟩
    exact ⟨hne, a, b, rfl, rfl, hbad a b hb⟩
  · constructor
    · intro h a b hb hne
      exact h _ _ ⟨hne, a, b, rfl, rfl, hb⟩
    · rintro h _ _ ⟨hne, a, b, rfl, rfl, hb⟩
      exact h a b hb hne

/-! ## Merging groups -/

/-- The block of `a` when the lists `groups` are merged: its group, or `a` alone. -/
def blockOf [DecidableEq α] (groups : List (List α)) (a : α) : List α :=
  (groups.find? fun s => decide (a ∈ s)).getD [a]

theorem mem_blockOf [DecidableEq α] (groups : List (List α)) (a : α) : a ∈ blockOf groups a := by
  unfold blockOf
  cases h : groups.find? fun s => decide (a ∈ s) with
  | none => simp
  | some s => simpa using List.find?_some h

theorem blockOf_cases [DecidableEq α] (groups : List (List α)) (a : α) :
    blockOf groups a ∈ groups ∨ (blockOf groups a = [a] ∧ ∀ s ∈ groups, a ∉ s) := by
  unfold blockOf
  cases h : groups.find? fun s => decide (a ∈ s) with
  | none => exact Or.inr ⟨rfl, by simpa using h⟩
  | some s => exact Or.inl (List.mem_of_find?_eq_some h)

theorem blockOf_eq_of_mem [DecidableEq α] {groups : List (List α)}
    (hdisj : groups.Pairwise List.Disjoint) {s : List α} (hs : s ∈ groups) {a : α} (ha : a ∈ s) :
    blockOf groups a = s := by
  have hsymm : Std.Symm (List.Disjoint (α := α)) := ⟨fun _ _ h => List.Disjoint.symm h⟩
  rcases blockOf_cases groups a with hb | ⟨-, hnone⟩
  · by_contra hne
    exact hdisj.forall hb hs hne (mem_blockOf groups a) ha
  · exact absurd ha (hnone s hs)

/-- Two vertices of one block have the same block. -/
theorem blockOf_eq_blockOf [DecidableEq α] {groups : List (List α)}
    (hdisj : groups.Pairwise List.Disjoint) {a b : α} (h : a ∈ blockOf groups b) :
    blockOf groups a = blockOf groups b := by
  rcases blockOf_cases groups b with hb | ⟨hb, -⟩
  · exact blockOf_eq_of_mem hdisj hb h
  · rw [hb, List.mem_singleton] at h
    rw [h]

theorem blockOf_eq_singleton [DecidableEq α] {groups : List (List α)} {a : α}
    (h : ∀ s ∈ groups, a ∉ s) : blockOf groups a = [a] := by
  rcases blockOf_cases groups a with hb | ⟨hb, -⟩
  · exact absurd (mem_blockOf groups a) (h _ hb)
  · exact hb

/-- The edges that leave a merged group. -/
def Exits (r : α → α → Prop) (groups : List (List α)) (a b : α) : Prop :=
  r a b ∧ ∃ s ∈ groups, a ∈ s ∧ b ∉ s

/-- Along a path of edges that leave no group the blocks are single vertices. -/
theorem transGen_of_free [DecidableEq α] {r : α → α → Prop} {groups : List (List α)}
    (hdisj : groups.Pairwise List.Disjoint) {x y : List α}
    (h : TransGen (Contract (fun a b => r a b ∧ ¬ Exits r groups a b) (blockOf groups)) x y) :
    ∃ a b, x = [a] ∧ blockOf groups b = y ∧ TransGen r a b := by
  have hstart : ∀ {a b}, r a b → ¬ Exits r groups a b → blockOf groups a ≠ blockOf groups b →
      blockOf groups a = [a] := by
    intro a b hr hexit hne
    refine blockOf_eq_singleton fun s hs ha => hexit ⟨hr, s, hs, ha, fun hb => hne ?_⟩
    rw [blockOf_eq_of_mem hdisj hs ha, blockOf_eq_of_mem hdisj hs hb]
  induction h with
  | single hstep =>
    obtain ⟨hne, a, b, rfl, rfl, hr, hexit⟩ := hstep
    exact ⟨a, b, hstart hr hexit hne, rfl, .single hr⟩
  | tail _ hstep ih =>
    obtain ⟨a, b, hx, rfl, hpath⟩ := ih
    obtain ⟨hne, b', d, hb', rfl, hr, hexit⟩ := hstep
    have hsingle : blockOf groups b = [b'] := by rw [← hb', hstart hr hexit (hb' ▸ hne)]
    have hmem : b ∈ [b'] := hsingle ▸ mem_blockOf groups b
    rw [List.mem_singleton.1 hmem] at hpath
    exact ⟨a, d, hx, rfl, hpath.tail hr⟩

/-- Contracting disjoint groups of an acyclic relation makes a cycle only along an edge that
leaves a group and leads back to it. -/
theorem acyclic_contract_iff_of_exits [DecidableEq α] {r : α → α → Prop} (hr : Acyclic r)
    {groups : List (List α)} (hdisj : groups.Pairwise List.Disjoint) :
    Acyclic (Contract r (blockOf groups)) ↔
      ∀ s ∈ groups, ∀ a ∈ s, ∀ b, r a b → b ∉ s →
        ¬ ReflTransGen (Contract r (blockOf groups)) (blockOf groups b) s := by
  refine (acyclic_contract_iff_of_bad (fun _ _ (h : Exits r groups _ _) => h.1) ?_).trans ?_
  · intro x hx
    obtain ⟨a, b, rfl, hb, hpath⟩ := transGen_of_free hdisj hx
    have hmem : b ∈ [a] := hb ▸ mem_blockOf groups b
    rw [List.mem_singleton.1 hmem] at hpath
    exact hr a hpath
  · constructor
    · intro h s hs a ha b hab hb hback
      have hblock := blockOf_eq_of_mem hdisj hs ha
      refine h a b ⟨hab, s, hs, ha, hb⟩ (fun heq => hb ?_) (hblock.symm ▸ hback)
      rw [← hblock, heq]
      exact mem_blockOf groups b
    · rintro h a b ⟨hab, s, hs, ha, hb⟩ - hback
      exact h s hs a ha b hab hb (blockOf_eq_of_mem hdisj hs ha ▸ hback)

/-- Merging one group: a path of blocks to the group is a path of vertices to a member of it. -/
theorem reflTransGen_contract_iff [DecidableEq α] {r : α → α → Prop} {s : List α} {b : α} :
    ReflTransGen (Contract r (blockOf [s])) (blockOf [s] b) s ↔ ∃ k ∈ s, ReflTransGen r b k := by
  have hblock : ∀ k ∈ s, blockOf [s] k = s := fun k hk =>
    blockOf_eq_of_mem (List.pairwise_singleton ..) (List.mem_singleton_self s) hk
  have hfree : ∀ k, k ∉ s → blockOf [s] k = [k] := fun k hk =>
    blockOf_eq_singleton fun t ht => (List.mem_singleton.1 ht) ▸ hk
  constructor
  · intro h
    generalize hx : blockOf [s] b = x at h
    induction h using ReflTransGen.head_induction_on generalizing b with
    | refl => exact ⟨b, hx ▸ mem_blockOf [s] b, .refl⟩
    | head hstep _ ih =>
      obtain ⟨-, a, d, rfl, rfl, hr⟩ := hstep
      by_cases hb : b ∈ s
      · exact ⟨b, hb, .refl⟩
      · have hmem : a ∈ [b] := hfree b hb ▸ hx ▸ mem_blockOf [s] a
        obtain ⟨k, hk, hpath⟩ := ih rfl
        exact ⟨k, hk, .head (List.mem_singleton.1 hmem ▸ hr) hpath⟩
  · rintro ⟨k, hk, hpath⟩
    have h := reflTransGen_contract (blockOf [s]) hpath
    rwa [hblock k hk] at h

/-! ## Contracting segments of an order -/

/-- The position in `l` of the first member of `s`. -/
def firstIdx [DecidableEq α] (l s : List α) : Nat :=
  (l.takeWhile fun x => decide (x ∉ s)).length

theorem firstIdx_le [DecidableEq α] (l : List α) {s : List α} {a : α} (ha : a ∈ s) :
    firstIdx l s ≤ l.idxOf a := by
  induction l with
  | nil => simp [firstIdx]
  | cons x l ih =>
    by_cases hx : x ∈ s
    · simp [firstIdx, hx]
    · have hne : x ≠ a := fun e => hx (e ▸ ha)
      rw [List.idxOf_cons_ne _ hne]
      simpa [firstIdx, hx] using ih

/-- A vertex listed before a member of a segment, and outside it, is listed before all of it. -/
theorem idxOf_lt_firstIdx [DecidableEq α] {l s : List α} (hl : l.Nodup) (hs : s <:+: l) {a b : α}
    (hb : b ∈ s) (ha : a ∉ s) (hab : l.idxOf a < l.idxOf b) : l.idxOf a < firstIdx l s := by
  obtain ⟨x, y, rfl⟩ := hs
  have hxs : ∀ z ∈ x, z ∉ s := fun z hz hzs =>
    List.disjoint_of_nodup_append hl.of_append_left hz hzs
  have hfirst : firstIdx (x ++ s ++ y) s = x.length := by
    obtain ⟨h, t, rfl⟩ := List.exists_cons_of_ne_nil (List.ne_nil_of_mem hb)
    rw [firstIdx, List.append_assoc, List.takeWhile_append_of_pos (by simpa using hxs)]
    simp
  have hbx : b ∈ x ++ s := List.mem_append_right _ hb
  rw [List.idxOf_append_of_mem hbx] at hab
  have hax : a ∈ x ++ s := by
    by_contra hnot
    rw [List.idxOf_append_of_notMem hnot] at hab
    have := List.idxOf_lt_length_iff.2 hbx
    omega
  rw [List.idxOf_append_of_mem hax, hfirst]
  have hx : a ∈ x := (List.mem_append.1 hax).resolve_right ha
  rw [List.idxOf_append_of_mem hx]
  exact List.idxOf_lt_length_iff.2 hx

/-- Contracting disjoint segments of an order of the relation leaves no cycle. -/
theorem acyclic_contract_of_segments [DecidableEq α] {r : α → α → Prop} {l : List α}
    (hl : l.Nodup) (hr : ∀ a b, r a b → [a, b].Sublist l) {groups : List (List α)}
    (hdisj : groups.Pairwise List.Disjoint) (hseg : ∀ s ∈ groups, s <:+: l) :
    Acyclic (Contract r (blockOf groups)) := by
  have hinfix : ∀ b ∈ l, blockOf groups b <:+: l := by
    intro b hb
    rcases blockOf_cases groups b with hs | ⟨hs, -⟩
    · exact hseg _ hs
    · obtain ⟨x, y, rfl⟩ := List.append_of_mem hb
      exact ⟨x, y, by simp [hs]⟩
  refine acyclic_contract_of_rank (firstIdx l) ?_
  intro a b hab hne
  have hsub := hr a b hab
  have hidx := idxOf_lt_of_sublist hl hsub
  have hout : a ∉ blockOf groups b := fun h => hne (blockOf_eq_blockOf hdisj h)
  have hseg' := hinfix b (hsub.subset (by simp))
  exact Nat.lt_of_le_of_lt (firstIdx_le l (mem_blockOf groups a))
    (idxOf_lt_firstIdx hl hseg' (mem_blockOf groups b) hout hidx)

end AmdGpuEp
