import AmdGpuEp.DirectML.CpuPreferredNodes

/-!
# When a node is left to the CPU without reason

A value that a kernel requires as a constant is taken to be on the CPU before its producer was
judged, and stays so when the producer is left to the GPU. An output of a node without a kernel is
on the CPU, but it is known only where that node is a candidate itself. Outputs that are missing
are null pointers that are followed.

Results:
1. `placedRightly_iff`: when the nodes that are found are those that belong on the CPU.
2. `padded_misplaced`: a node on the CPU that reads an output of one on the GPU.
-/

namespace AmdGpuEp.DirectML.CpuPreferredNodes.Problem

variable (p : Problem)

/-- In whatever order the candidates are seeded, the call returns the nodes of the set, which are
tentative. Each input of theirs that exists is a small initializer, an input of the graph, or a
value that is produced on the CPU and not consumed there. No candidate that was rejected
qualifies. -/
structure Places (s : Set Node) : Prop where
  tentative : ∀ n ∈ s, n ∈ p.tentativeNodes
  sound : ∀ n ∈ s, ∀ (i : Nat) v, n.inputs[i]? = some (some v) →
    p.InputFits (p.ProducedOnCpu s) n i v
  returned : ∀ first second : List Node, first.Perm p.tentativeNodes →
    second.Perm p.tentativeNodes → ∃ w, p.getCpuPreferredNodes first second = .returned w ∧
      (∀ n, n ∈ w.cpuNodes ↔ n ∈ s) ∧
      ∀ n ∈ w.visited, n ∈ p.tentativeNodes → n ∉ s → ¬ p.Qualifies (p.ProducedOnCpu s) n

/-- The nodes on the CPU are placed as a set. -/
def PlacedRightly : Prop :=
  ∃ s, p.Places s

/-- The nodes that belong on the CPU: the candidates that qualify, or have no kernel. -/
def CpuSide (s : Set Node) : Prop :=
  Solves (p.Belongs p.ProducedOnCpu) s

/-- No output is missing where it is asked for its consumers. A candidate that would qualify with
the constants that kernels require reads no such constant that is elsewhere. A candidate that
qualifies reads no output of a node without a kernel that is no candidate. -/
structure Aligned (s : Set Node) : Prop where
  declared : ∀ t ∈ p.tentativeNodes, none ∉ p.cpuOutputs t
  present : ∀ n ∈ s, none ∉ n.outputs
  constants : ∀ n ∈ p.tentativeNodes, p.Candidate s n → p.Qualifies (p.Seen s) n →
    ∀ (i : Nat) v, n.inputs[i]? = some (some v) → p.Required v →
      p.isSmallInitializer v = true ∨ v ∈ p.graph.inputs ∨ p.ProducedOnCpu s v
  fallback : ∀ n ∈ p.tentativeNodes, p.Candidate s n → p.Qualifies (p.ProducedOnCpu s) n →
    ∀ (i : Nat) v, n.inputs[i]? = some (some v) → ∀ m, m ∉ p.tentativeNodes →
      p.fallsBack m = true → p.Writes m v → ¬ p.Candidate s m →
        p.isSmallInitializer v = true ∨ v ∈ p.graph.inputs ∨ p.Required v

namespace CpuPlacementLemmas

variable {p} {s : Set Node} {n : Node}

theorem inputFits_of_qualifies {onCpu : String → Prop} (h : p.Qualifies onCpu n) {i : Nat}
    {v : String} (hi : n.inputs[i]? = some (some v)) : p.InputFits onCpu n i v := by
  obtain ⟨v', info, heq, -, -, hfits⟩ := h i _ hi
  cases heq
  exact hfits

theorem qualifies_mono {onCpu onCpu' : String → Prop} (h : p.Qualifies onCpu n)
    (hfits : ∀ (i : Nat) v, n.inputs[i]? = some (some v) → p.InputFits onCpu' n i v) :
    p.Qualifies onCpu' n := by
  intro i input hi
  obtain ⟨v, info, rfl, hinfo, hnarrow, -⟩ := h i input hi
  exact ⟨v, info, rfl, hinfo, hnarrow, hfits i v hi⟩

theorem inputFits_of {onCpu onCpu' : String → Prop} {i : Nat} {v : String}
    (h : p.InputFits onCpu n i v) (hv : onCpu v →
      p.isSmallInitializer v = true ∨ v ∈ p.graph.inputs ∨ onCpu' v) :
    p.InputFits onCpu' n i v := by
  rcases h with h | h | ⟨h, hmem⟩
  · exact Or.inl h
  · exact Or.inr (Or.inl h)
  · exact (hv h).imp_right (Or.imp_right fun h => ⟨h, hmem⟩)

/-- The members that have no kernel are among the nodes without one. -/
theorem produced_tentative (hs : ∀ m ∈ s, m ∈ p.tentativeNodes ∨
    (m ∉ p.tentativeNodes ∧ p.fallsBack m = true)) {v : String} :
    p.ProducedOnCpu {n | n ∈ s ∧ n ∈ p.tentativeNodes} v ↔ p.ProducedOnCpu s v := by
  refine or_congr_right ⟨?_, ?_⟩
  · exact Or.imp_left fun ⟨m, hm, hmv⟩ => ⟨m, hm.1, hmv⟩
  · rintro (⟨m, hm, hmv⟩ | h)
    · rcases hs m hm with ht | ⟨ht, hback⟩
      · exact Or.inl ⟨m, ⟨hm, ht⟩, hmv⟩
      · exact Or.inr ⟨m, ht, hback, hmv⟩
    · exact Or.inr h

theorem kernel_of_mem {onCpu : Set Node → String → Prop} (hs : Solves (p.Belongs onCpu) s) :
    ∀ m ∈ s, m ∈ p.tentativeNodes ∨ (m ∉ p.tentativeNodes ∧ p.fallsBack m = true) :=
  fun m hm => ((hs m).1 hm).2.2.imp_left And.left

theorem qualifies_of_mem {onCpu : Set Node → String → Prop} (hs : Solves (p.Belongs onCpu) s)
    (hn : n ∈ s) (ht : n ∈ p.tentativeNodes) : p.Qualifies (onCpu s) n :=
  (((hs n).1 hn).2.2.resolve_right fun h => h.1 ht).2

theorem not_declared_of_fallback {m : Node} {v : String} (hm : m ∉ p.tentativeNodes)
    (hwrites : p.Writes m v) : ¬ p.Declared v := by
  rintro ⟨t, ht, hv⟩
  obtain ⟨a, ha, heq⟩ := List.mem_map.1 hv
  have hout : some v ∈ t.outputs := by
    rw [← heq]
    exact List.fst_mem_of_mem_zipIdx (List.mem_filter.1 ha).1
  have htm := Graph.producer_unique (p.tentative_mem t ht) hwrites.1 (Node.mem_outputNames.2 hout)
    hwrites.2
  exact hm (htm ▸ ht)

/-- Two ways to tell what is on the CPU give the same set where they agree on its candidates. -/
theorem solves_congr {onCpu onCpu' : Set Node → String → Prop} (hs : Solves (p.Belongs onCpu) s)
    (h : ∀ n ∈ p.tentativeNodes, p.Candidate s n →
      (p.Qualifies (onCpu s) n ↔ p.Qualifies (onCpu' s) n)) :
    Solves (p.Belongs onCpu') s := by
  refine fun n => (hs n).trans (and_congr_right fun _ => and_congr_right fun hcandidate => ?_)
  exact or_congr_left (and_congr_right fun ht => h n ht hcandidate)

/-- Where the nodes are placed rightly, they are those that belong on the CPU. -/
theorem cpuSide_of_places {s t : Set Node} (hs : Solves (p.Belongs p.Seen) s)
    (h : p.Places t) (hmem : ∀ n, n ∈ t ↔ n ∈ s ∧ n ∈ p.tentativeNodes)
    (hrejected : ∀ n, p.Candidate s n → n ∈ p.tentativeNodes → n ∉ t →
      ¬ p.Qualifies (p.ProducedOnCpu t) n) : p.CpuSide s := by
  have hset : t = {n | n ∈ s ∧ n ∈ p.tentativeNodes} := Set.ext hmem
  have hproduced : ∀ v, p.ProducedOnCpu t v ↔ p.ProducedOnCpu s v := fun v => by
    rw [hset]
    exact produced_tentative (kernel_of_mem hs)
  refine solves_congr hs fun n ht hcandidate => ⟨fun hseen => ?_, fun hreal => ?_⟩
  · have hns : n ∈ s :=
      (hs n).2 ⟨p.tentative_mem n ht, hcandidate, Or.inl ⟨ht, hseen⟩⟩
    refine qualifies_mono hseen fun i v hi => ?_
    exact inputFits_of (h.sound n ((hmem n).2 ⟨hns, ht⟩) i v hi) fun hv =>
      Or.inr (Or.inr ((hproduced v).1 hv))
  · by_contra hseen
    have hnt : n ∉ t := fun hn => hseen (qualifies_of_mem hs ((hmem n).1 hn).1 ht)
    refine hrejected n hcandidate ht hnt (qualifies_mono hreal fun i v hi => ?_)
    exact inputFits_of (inputFits_of_qualifies hreal hi) fun hv =>
      Or.inr (Or.inr ((hproduced v).2 hv))

/-- On the CPU side, what the loops take to be there decides like what is there. -/
theorem qualifies_iff_of_aligned (h : p.Aligned s) (hs : p.CpuSide s) (ht : n ∈ p.tentativeNodes)
    (hcandidate : p.Candidate s n) :
    p.Qualifies (p.ProducedOnCpu s) n ↔ p.Qualifies (p.Seen s) n := by
  constructor
  · intro hreal
    refine qualifies_mono hreal fun i v hi => inputFits_of (inputFits_of_qualifies hreal hi) ?_
    rintro (hv | hv | ⟨m, hm, hback, hwrites⟩)
    · exact Or.inr (Or.inr (Or.inl hv))
    · exact Or.inr (Or.inr (Or.inr (Or.inr hv)))
    · by_cases hmc : p.Candidate s m
      · have hms : m ∈ s := (hs m).2 ⟨hwrites.1, hmc, Or.inr ⟨hm, hback⟩⟩
        exact Or.inr (Or.inr (Or.inr (Or.inr ⟨m, hms, hwrites⟩)))
      · have hknown := h.fallback n ht hcandidate hreal i v hi m hm hback hwrites hmc
        exact hknown.imp_right (Or.imp_right fun hv => Or.inr (Or.inl hv))
  · intro hseen
    refine qualifies_mono hseen fun i v hi => inputFits_of (inputFits_of_qualifies hseen hi) ?_
    rintro (hv | hv | hv)
    · exact Or.inr (Or.inr (Or.inl hv))
    · exact h.constants n ht hcandidate hseen i v hi hv
    · exact Or.inr (Or.inr (Or.inr (Or.inl hv)))

end CpuPlacementLemmas

open CpuPreferredLemmas CpuPlacementLemmas

/-- The nodes that are found are the right ones exactly when, on the CPU side, no output is missing,
no required constant is taken to be there that is not, and nothing that is there goes unseen. -/
theorem placedRightly_iff : p.PlacedRightly ↔ ∀ s, p.CpuSide s → p.Aligned s := by
  constructor
  · rintro ⟨t, h⟩ s hside
    obtain ⟨s', hs'⟩ := p.exists_seen_solves
    obtain ⟨w, hw, hnodes, hrejected⟩ := h.returned _ _ (List.Perm.refl _) (List.Perm.refl _)
    rcases getCpuPreferredNodes_spec hs' (List.Perm.refl _) (List.Perm.refl _) with
      ⟨hnull, -⟩ | ⟨w', hw', hdeclared, hpresent, hcpu, hvisited⟩
    · rw [hw] at hnull
      cases hnull
    · obtain rfl : w = w' := by
        rw [hw] at hw'
        exact Outcome.returned.inj hw'
      have hside' : p.CpuSide s' := cpuSide_of_places hs' h
        (fun n => (hnodes n).symm.trans (hcpu n))
        fun n hcandidate => hrejected n ((hvisited n).2 hcandidate)
      obtain rfl : s = s' := hside.unique (wellFounded_dep p) (looksBelow_produced p) hside'
      refine ⟨hdeclared, hpresent, ?_, ?_⟩
      · intro n ht hcandidate hseen i v hi _
        have hns : n ∈ s := (hs' n).2 ⟨p.tentative_mem n ht, hcandidate, Or.inl ⟨ht, hseen⟩⟩
        rcases inputFits_of_qualifies (qualifies_of_mem hside hns ht) hi with hv | hv | hv
        · exact Or.inl hv
        · exact Or.inr (Or.inl hv)
        · exact Or.inr (Or.inr hv.1)
      · intro n ht hcandidate hreal i v hi m hm hback hwrites hmc
        have hns : n ∈ s := (hside n).2 ⟨p.tentative_mem n ht, hcandidate, Or.inl ⟨ht, hreal⟩⟩
        rcases inputFits_of_qualifies (qualifies_of_mem hs' hns ht) hi with hv | hv | ⟨hv, -⟩
        · exact Or.inl hv
        · exact Or.inr (Or.inl hv)
        · rcases hv with hv | hv | ⟨k, hks, hk⟩
          · exact absurd hv (not_declared_of_fallback hm hwrites)
          · exact Or.inr (Or.inr hv)
          · obtain rfl := Graph.producer_unique hk.1 hwrites.1 hk.2 hwrites.2
            exact absurd ((hside k).1 hks).2.1 hmc
  · intro h
    obtain ⟨s, hs, -⟩ := p.cpuSide_solves
    have haligned := h s hs
    have hseen : Solves (p.Belongs p.Seen) s := solves_congr hs fun n ht hcandidate =>
      qualifies_iff_of_aligned haligned hs ht hcandidate
    have hproduced : ∀ v, p.ProducedOnCpu {n | n ∈ s ∧ n ∈ p.tentativeNodes} v ↔
        p.ProducedOnCpu s v := fun v => produced_tentative (kernel_of_mem hs)
    refine ⟨{n | n ∈ s ∧ n ∈ p.tentativeNodes}, fun n hn => hn.2, ?_, ?_⟩
    · rintro n ⟨hns, ht⟩ i v hi
      exact inputFits_of (inputFits_of_qualifies (qualifies_of_mem hs hns ht) hi) fun hv =>
        Or.inr (Or.inr ((hproduced v).2 hv))
    · intro first second hfirst hsecond
      rcases getCpuPreferredNodes_spec hseen hfirst hsecond with
        ⟨-, hmissing⟩ | ⟨w, hw, -, -, hcpu, hvisited⟩
      · rcases hmissing with ⟨t, ht, hnone⟩ | ⟨n, hn, hnone⟩
        · exact absurd hnone (haligned.declared t ht)
        · exact absurd hnone (haligned.present n hn)
      · refine ⟨w, hw, hcpu, fun n hn ht hnot hreal => hnot ⟨?_, ht⟩⟩
        refine (hs n).2 ⟨p.tentative_mem n ht, (hvisited n).1 hn, Or.inl ⟨ht, ?_⟩⟩
        exact qualifies_mono hreal fun i v hi =>
          inputFits_of (inputFits_of_qualifies hreal hi) fun hv =>
            Or.inr (Or.inr ((hproduced v).1 hv))

/-! ## An example -/

def maxNode : Node where
  id := 0
  opType := "ReduceMax"
  inputs := [some "table"]
  outputs := [some "max"]

def castNode : Node where
  id := 1
  opType := "Cast"
  inputs := [some "max"]
  outputs := [some "pads"]

def padNode : Node where
  id := 2
  opType := "Pad"
  sinceVersion := 13
  inputs := [some "x", some "pads", some "max"]
  outputs := [some "y"]

/-- The largest value of a table fills a padding, whose widths are computed from it as well. -/
def padded : Problem where
  graph := Graph.ofNodes [maxNode, castNode, padNode] ["x"] ["y"] (by decide) (by decide)
    (by decide) (by decide)
  listed := by decide
  tentativeNodes := [maxNode, castNode, padNode]
  tentative_mem := fun _ h => h
  kernelDef n :=
    { opName := n.opType
      domain := n.domain
      startVersion := n.sinceVersion
      endVersion := none
      provider := "DmlExecutionProvider"
      inputMemTypes := if n.opType = "Pad" then [(1, .cpuInput), (2, .cpuInput)] else [] }
  internalRegInfo key :=
    if key = "::Pad::13" then
      some
        { requiredConstantCpuInputs := [1, 2]
          kernelFactory := 0
          shapeInferrer := none
          defaultAttributes := []
          requiresInputShapesAtCreation := true
          requiresOutputShapesAtCreation := false
          isInternalOperator := true }
    else none
  epName _ := none
  tensorInfo v :=
    if v = "table" then some ⟨.known .float, [1000]⟩
    else if v = "max" then some ⟨.known .float, []⟩
    else if v = "pads" then some ⟨.known .int64, [2]⟩
    else some ⟨.known .float, [16]⟩
  hasInitializerValue v := v = "table"

/-- The node that computes the widths is left to the CPU, and reads from the GPU. -/
theorem padded_misplaced : ¬ padded.PlacedRightly := by
  rintro ⟨s, h⟩
  obtain ⟨w, hw, hnodes, -⟩ := h.returned _ _ (List.Perm.refl _) (List.Perm.refl _)
  have hfound : ∃ w', padded.getCpuPreferredNodes padded.tentativeNodes padded.tentativeNodes =
      .returned w' ∧ w'.cpuNodes = [castNode] := ⟨_, rfl, by decide +kernel⟩
  obtain ⟨w', hw', hcpu⟩ := hfound
  obtain rfl : w = w' := by
    rw [hw] at hw'
    exact Outcome.returned.inj hw'
  have hmem : ∀ n, n ∈ s ↔ n = castNode := fun n => by
    rw [← hnodes n, hcpu, List.mem_singleton]
  have hwriter : ∀ m, padded.Writes m "max" → m = maxNode := fun m hm =>
    Graph.producer_unique hm.1 (by decide) hm.2 (by decide)
  rcases h.sound castNode ((hmem _).2 rfl) 0 "max" rfl with hsmall | hinput | ⟨honCpu, -⟩
  · exact absurd hsmall (by decide)
  · exact absurd hinput (by decide)
  · rcases honCpu with ⟨t, ht, hdeclared⟩ | ⟨m, hms, hm⟩ | ⟨m, hm, -, hwrites⟩
    · have hnone : ∀ n ∈ padded.tentativeNodes, some "max" ∉ padded.cpuOutputs n := by decide
      exact hnone t ht hdeclared
    · have hmax := hwriter m hm
      rw [(hmem m).1 hms] at hmax
      exact absurd hmax (by decide)
    · exact hm hwrites.1

end AmdGpuEp.DirectML.CpuPreferredNodes.Problem
