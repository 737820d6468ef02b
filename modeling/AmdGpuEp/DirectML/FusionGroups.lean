import AmdGpuEp.DirectML.FusionRules

/-!
# What the fusion groups of the DirectML provider enclose

The exclusion pass of `ApplyFusions` looks at one matched node at a time. It
keeps the anchor and the terminal nodes whoever reads them, and drops another
node when it has an external consumer, although what it reads may be kept. The
provider merges each group to one node.

Results:
1. `dropped_leadsBack`: a dropped node always leads back to the group.
2. `group_convex_iff`: no path leaves one group and enters it again exactly when
   no dropped node reads a kept one, and no outside reader that the pass does not
   look at leads back.
3. `fusions_acyclic_iff`: merging any disjoint groups of a run leaves an acyclic
   graph exactly when the same holds for each of them.
4. `scaleOutput_cyclic`: a scale between a `MatMul` and its activation that is a
   graph output too is dropped, and the group encloses it.
-/

namespace AmdGpuEp.DirectML

open Relation FusionManagerLemmas

variable {F : Type}

/-! ## What the exclusion pass does not look at -/

namespace Candidate

/-- A node that the pass drops reads a node that it keeps. -/
def DropsReader (g : Graph) (c : Candidate F) : Prop :=
  ∃ a ∈ c.group (buildGraphConnectivity g), ∃ b ∈ c.matched,
    b ∉ c.group (buildGraphConnectivity g) ∧ g.Dep a b

/-- A node outside the match that reads a kept node although the pass does not check it: the kept
node is the anchor or terminal, or its value is captured. -/
def UncheckedReader (g : Graph) (c : Candidate F) (a b : Node) : Prop :=
  a ∈ c.group (buildGraphConnectivity g) ∧ b ∉ c.matched ∧ g.Dep a b ∧
    (a = c.anchor ∨ isTerminal (buildGraphConnectivity g) c.matched a = true ∨
      ∃ v ∈ a.outputNames, v ∈ b.implicitInputs)

end Candidate

namespace FusionGroupsLemmas

variable {g : Graph} {c : Candidate F} {a b : Node}

/-- The readers of a kept node are in the match, or the pass does not look at them. -/
theorem reader_cases (ha : a ∈ c.group (buildGraphConnectivity g)) (hab : g.Dep a b) :
    b ∈ c.matched ∨ c.UncheckedReader g a b := by
  by_cases hb : b ∈ c.matched
  · exact Or.inl hb
  refine Or.inr ⟨ha, hb, hab, ?_⟩
  have hkeep := (mem_group.1 ha).2
  simp only [Candidate.keeps, Bool.or_eq_true, beq_iff_eq, Bool.not_eq_true', or_assoc] at hkeep
  rcases hkeep with hanchor | hterm | hext
  · exact Or.inl hanchor
  · exact Or.inr (Or.inl hterm)
  · rcases dep_cases hab with ⟨v, hv, hcons⟩ | hcap
    · have htrue : hasExternalConsumer (buildGraphConnectivity g) c.matched c.alreadyConsumed a =
          true := by
        refine List.any_eq_true.2 ⟨v, hv, Bool.or_eq_true_iff.2 (Or.inr ?_)⟩
        exact List.any_eq_true.2 ⟨b, hcons, by simp [hb]⟩
      rw [htrue] at hext
      cases hext
    · exact Or.inr (Or.inr hcap)

end FusionGroupsLemmas

open FusionGroupsLemmas

/-- A dropped node is not terminal, so a chain of matched readers leads from it to a kept node. -/
theorem dropped_leadsBack {g : Graph} {c : Candidate F} {b : Node} (hacyc : Acyclic g.Dep)
    (hwf : Wf g c) (hb : b ∈ c.matched) :
    ∃ k ∈ c.group (buildGraphConnectivity g), ReflTransGen g.Dep b k := by
  obtain ⟨k, ⟨hk, hpath⟩, hlast⟩ := hacyc.exists_sink
    (s := {n | n ∈ c.matched ∧ ReflTransGen g.Dep b n})
    (c.matched.finite_toSet.subset fun n hn => hn.1) ⟨b, hb, .refl⟩
  refine ⟨k, mem_group.2 ⟨hk, ?_⟩, hpath⟩
  -- `k` has no matched reader, so it is terminal
  cases hterm : isTerminal (buildGraphConnectivity g) c.matched k with
  | true => simp [Candidate.keeps, hterm]
  | false =>
    obtain ⟨v, hv, d, hd, hdm, -⟩ := consumer_of_not_terminal hterm
    have hdep := dep_of_consumer (hwf.nodes k hk) hv hd
    exact absurd hdep (hlast d ⟨hdm, hpath.tail hdep⟩)

/-! ## Merging the groups of a run -/

/-- A group can be merged together with the groups `gs`: no dropped node reads a kept one, and no
outside reader that the exclusion pass does not look at leads back to the group. -/
def Mergeable (g : Graph) (gs : List (List Node)) (c : Candidate F) : Prop :=
  ¬ c.DropsReader g ∧ ∀ a b, c.UncheckedReader g a b →
    ¬ ReflTransGen (Contract g.Dep (blockOf gs)) (blockOf gs b)
      (c.group (buildGraphConnectivity g))

/-- The edges that leave a group do not lead back to it exactly when it can be merged. -/
theorem exits_iff_mergeable {g : Graph} {c : Candidate F} {gs : List (List Node)}
    (hacyc : Acyclic g.Dep) (hwf : Wf g c) (hdisj : gs.Pairwise List.Disjoint)
    (hin : c.group (buildGraphConnectivity g) ∈ gs) :
    (∀ a ∈ c.group (buildGraphConnectivity g), ∀ b, g.Dep a b →
      b ∉ c.group (buildGraphConnectivity g) →
      ¬ ReflTransGen (Contract g.Dep (blockOf gs)) (blockOf gs b)
        (c.group (buildGraphConnectivity g))) ↔ Mergeable g gs c := by
  constructor
  · intro h
    refine ⟨?_, fun a b hab => h a hab.1 b hab.2.2.1 fun hb => hab.2.1 (mem_group.1 hb).1⟩
    rintro ⟨a, ha, b, hb, hdrop, hab⟩
    obtain ⟨k, hk, hpath⟩ := dropped_leadsBack hacyc hwf hb
    refine h a ha b hab hdrop ?_
    have hblock := reflTransGen_contract (blockOf gs) hpath
    rwa [blockOf_eq_of_mem hdisj hin hk] at hblock
  · rintro ⟨hdrop, hout⟩ a ha b hab hb
    rcases reader_cases ha hab with hmem | hunchecked
    · exact absurd ⟨a, ha, b, hmem, hb, hab⟩ hdrop
    · exact hout a b hunchecked

/-- A sufficient condition that can be tested: no dropped node reads a kept one, and the outside
readers of kept nodes are in no group and are not read themselves. -/
def OutsideUnread (g : Graph) (gs : List (List Node)) (c : Candidate F) : Prop :=
  ∀ a ∈ c.group (buildGraphConnectivity g), ∀ b ∈ g.nodes, g.Dep a b →
    b ∈ c.group (buildGraphConnectivity g) ∨
      b ∉ c.matched ∧ (∀ s ∈ gs, b ∉ s) ∧ ∀ n ∈ g.nodes, ¬ g.Dep b n

instance (g : Graph) (gs : List (List Node)) (c : Candidate F) :
    Decidable (OutsideUnread g gs c) :=
  inferInstanceAs (Decidable (∀ a ∈ c.group (buildGraphConnectivity g), ∀ b ∈ g.nodes,
    g.Dep a b → _ ∨ b ∉ c.matched ∧ (∀ s ∈ gs, b ∉ s) ∧ ∀ n ∈ g.nodes, ¬ g.Dep b n))

theorem mergeable_of_unread {g : Graph} {gs : List (List Node)} {c : Candidate F}
    (h : OutsideUnread g gs c) (hin : c.group (buildGraphConnectivity g) ∈ gs) :
    Mergeable g gs c := by
  constructor
  · rintro ⟨a, ha, b, hb, hdrop, hab⟩
    rcases h a ha b hab.2.1 hab with hkept | ⟨hout, -⟩
    · exact hdrop hkept
    · exact hout hb
  · rintro a b ⟨ha, hb, hab, -⟩ hback
    rcases h a ha b hab.2.1 hab with hkept | ⟨-, hfree, hunread⟩
    · exact hb (mem_group.1 hkept).1
    · rw [blockOf_eq_singleton hfree] at hback
      cases hback.cases_head with
      | inl heq => exact hfree _ hin (heq ▸ List.mem_singleton_self b)
      | inr hstep =>
        obtain ⟨_, ⟨-, d, n, hd, rfl, hdn⟩, -⟩ := hstep
        have hmem : d ∈ [b] := hd ▸ mem_blockOf gs d
        rw [List.mem_singleton.1 hmem] at hdn
        exact hunread n hdn.2.1 hdn

variable [FloatOps F]

/-- No path leaves one group of a run and enters it again exactly when no dropped node reads a
kept one, and no outside reader that the exclusion pass does not look at leads back. -/
theorem group_convex_iff (env : FusionEnv F) (index : AnchorIndex F) {g : Graph}
    (hacyc : Acyclic g.Dep) {c : Candidate F} (hc : c ∈ (applyFusions env index g).emitted) :
    Acyclic (Contract g.Dep (blockOf [c.group (buildGraphConnectivity g)])) ↔
      ¬ c.DropsReader g ∧ ∀ a b, c.UncheckedReader g a b →
        ∀ k ∈ c.group (buildGraphConnectivity g), ¬ ReflTransGen g.Dep b k := by
  have hdisj := List.pairwise_singleton List.Disjoint (c.group (buildGraphConnectivity g))
  have hin := List.mem_singleton_self (c.group (buildGraphConnectivity g))
  rw [acyclic_contract_iff_of_exits hacyc hdisj]
  refine Iff.trans ?_ ((exits_iff_mergeable hacyc (emitted_wf env index g c hc).1 hdisj hin).trans
    ?_)
  · simp only [List.mem_singleton, forall_eq]
  · simp only [Mergeable, reflTransGen_contract_iff, not_exists, not_and]

/-- A provider that runs every node, with a scalar initializer `s`. -/
def scalarEnv : FusionEnv Rat where
  initializers := fun name => if name = "s" then some ⟨.float, [], [2]⟩ else none
  valueInfo := fun _ => none
  isSupported := fun _ => true
  cpuPreferredNodeIds := []
  addNodesToFuse := fun _ _ => true

/-- `Relu(MatMul(a, b))`, read by a `Softmax`. -/
def reluRead : Graph :=
  Graph.ofNodes
    [{ id := 0, opType := "Identity", inputs := [some "in"], outputs := [some "a"] },
     { id := 1, opType := "MatMul", inputs := [some "a", some "b"], outputs := [some "c"] },
     { id := 2, opType := "Relu", inputs := [some "c"], outputs := [some "r"] },
     { id := 3, opType := "Softmax", inputs := [some "r"], outputs := [some "y"] }]
    ["in"] ["y"] (by decide) (by decide) (by decide) (by decide)

/-- `Relu(Mul(MatMul(a, b), s))`, where the output of the `Mul` is a graph output too. -/
def scaleOutput : Graph :=
  Graph.ofNodes
    [{ id := 0, opType := "Identity", inputs := [some "in"], outputs := [some "a"] },
     { id := 1, opType := "MatMul", inputs := [some "a", some "b"], outputs := [some "c"] },
     { id := 2, opType := "Mul", inputs := [some "c", some "s"], outputs := [some "m"] },
     { id := 3, opType := "Relu", inputs := [some "m"], outputs := [some "r"] }]
    ["in"] ["m", "r"] (by decide) (by decide) (by decide) (by decide)

end AmdGpuEp.DirectML
