import AmdGpuEp.MIGraphX.Capability

/-!
# The kernels of the MIGraphX provider and the nodes it claims one by one

`mgx_kernel_reg.cc` and the registrations of `memcpy.cc`: the provider has two
kernels, both of which copy memory. A fused group goes to `Compile`; a node that
`GetCapability` claims by itself needs a kernel.

Results:
1. `singleton_mem_iff`: the pieces of one node are the supported nodes whose
   neighbours in the order are not.
2. `claims_executable_iff`: when everything that `GetCapability` claims can be
   run.
3. `loneRelu_claimed`: a supported node between two unsupported ones is claimed
   without a kernel.
-/

namespace AmdGpuEp.MIGraphX

/-! ## The registry -/

/-- `OrtKernelDef`, without its type constraints. -/
structure KernelDef where
  opType : String
  domain : String
  startVersion : Nat
  endVersion : Nat
  deriving DecidableEq, Repr

/-- `ONNX_OPERATOR_KERNEL_EX`: the version is the first and the last one. -/
def onnxOperatorKernel (name domain : String) (version : Nat) : KernelDef :=
  ⟨name, domain, version, version⟩

/-- `migraphx_build_kernel_create_info_fn`. -/
def kernelRegistry : List KernelDef :=
  [onnxOperatorKernel "MemcpyFromHost" kOnnxDomain 1,
   onnxOperatorKernel "MemcpyToHost" kOnnxDomain 1]

/-- The lookup of ORT. `typesMatch` is the test of the type constraints. -/
def KernelDef.isFor (typesMatch : KernelDef → Node → Bool) (kernel : KernelDef) (node : Node) :
    Bool :=
  kernel.opType == node.opType && kernel.domain == node.domain &&
    decide (kernel.startVersion ≤ node.sinceVersion) &&
    decide (node.sinceVersion ≤ kernel.endVersion) && typesMatch kernel node

def hasKernel (typesMatch : KernelDef → Node → Bool) (node : Node) : Bool :=
  kernelRegistry.any fun kernel => kernel.isFor typesMatch node

/-- A fused group is handed to `Compile`; a single node is run by its kernel. -/
def Claim.Executable (typesMatch : KernelDef → Node → Bool) : Claim → Prop
  | .fuse _ => True
  | .single node => hasKernel typesMatch node = true

/-- All claims can be run. A failed call claims nothing. -/
def ClaimsExecutable (typesMatch : KernelDef → Node → Bool) :
    Option (Except String (List Claim)) → Prop
  | some (.ok claims) => ∀ claim ∈ claims, claim.Executable typesMatch
  | _ => True

/-- Only memory copies have a kernel. -/
theorem opType_of_hasKernel {typesMatch : KernelDef → Node → Bool} {node : Node}
    (h : hasKernel typesMatch node = true) :
    node.opType = "MemcpyFromHost" ∨ node.opType = "MemcpyToHost" := by
  obtain ⟨kernel, hkernel, hfor⟩ := List.any_eq_true.1 h
  simp only [KernelDef.isFor, Bool.and_eq_true, beq_iff_eq] at hfor
  obtain ⟨⟨⟨⟨hop, -⟩, -⟩, -⟩, -⟩ := hfor
  rw [← hop]
  simp only [kernelRegistry, List.mem_cons, List.not_mem_nil, or_false] at hkernel
  rcases hkernel with rfl | rfl
  · exact Or.inl rfl
  · exact Or.inr rfl

/-! ## Pieces of one node -/

section

variable {env : Support} {g : Graph} {typesMatch : KernelDef → Node → Bool} {l : List Node}

/-- A piece that is a single node, and a single node whose neighbours are cut away, are the
same. -/
theorem singleton_mem_iff (q : Node → Bool) (h : (l.map Node.id).Nodup) (n : Node) :
    [n] ∈ getPartitionedSubgraphs l (l.filter q) ↔
      IsMaximalRun (fun n => q n = false) l [n] := by
  constructor
  · exact CapabilityLemmas.run_of_mem q h
  · rintro ⟨-, hn, a, b, rfl, ha, hb⟩
    have hnodup : (a ++ [n] ++ b).Nodup := h.of_map
    have hflat : n ∈ (getPartitionedSubgraphs (a ++ [n] ++ b)
        ((a ++ [n] ++ b).filter q)).flatten := by
      rw [CapabilityLemmas.flatten_eq q h]
      exact List.mem_filter.2 ⟨by simp, by simpa using hn n (List.mem_singleton_self n)⟩
    obtain ⟨r, hr, hnr⟩ := List.mem_flatten.1 hflat
    obtain ⟨-, hall, a', b', hl, -⟩ := CapabilityLemmas.run_of_mem q h hr
    obtain ⟨r₁, r₂, rfl⟩ := List.append_of_mem hnr
    -- both runs stand around the one place of `n`
    have hnot : n ∉ a ∧ n ∉ b := by
      rw [List.append_assoc] at hnodup
      have hdisj := List.disjoint_of_nodup_append hnodup
      exact ⟨fun hna => hdisj hna List.mem_cons_self,
        (List.nodup_cons.1 hnodup.of_append_right).1⟩
    have hsplit : a ++ n :: b = (a' ++ r₁) ++ n :: (r₂ ++ b') := by
      simpa using hl
    obtain ⟨rfl, -, rfl⟩ := (List.append_cons_inj_of_notMem hnot.1 hnot.2).1 hsplit
    have hr₁ : r₁ = [] := by
      rcases List.eq_nil_or_concat r₁ with hnil | ⟨r, m, rfl⟩
      · exact hnil
      · exact absurd (hall m (by simp)) (ha m (by simp))
    have hr₂ : r₂ = [] := by
      cases r₂ with
      | nil => rfl
      | cons m r => exact absurd (hall m (by simp)) (hb m (by simp))
    subst hr₁ hr₂
    exact hr

/-! ## What is claimed -/

/-- Where the order holds unsupported nodes, every supported node between two of them (or between
one and an end of the order) has a kernel. -/
def NoLoneNode (typesMatch : KernelDef → Node → Bool) (env : Support) (g : Graph)
    (order : List Node) : Prop :=
  (∃ u ∈ order, isUnsupported env g u = true) →
    ∀ n, IsMaximalRun (fun n => isUnsupported env g n = false) order [n] →
      hasKernel typesMatch n = true

theorem claimSorted_executable_iff (hids : (l.map Node.id).Nodup) :
    (∀ claim ∈ claimSorted env g l, claim.Executable typesMatch) ↔
      NoLoneNode typesMatch env g l := by
  unfold claimSorted NoLoneNode
  dsimp only
  split
  · next hnone =>
    refine iff_of_true ?_ ?_
    · intro claim hclaim
      rw [List.mem_singleton.1 hclaim]
      trivial
    · rintro ⟨u, hu, hunsupported⟩
      exact absurd (hnone ▸ List.mem_filter.2 ⟨hu, hunsupported⟩) List.not_mem_nil
  · next hsome =>
    obtain ⟨u, hu⟩ := List.exists_mem_of_ne_nil _ hsome
    obtain ⟨hu, hunsupported⟩ := List.mem_filter.1 hu
    rw [forall_prop_of_true ⟨u, hu, hunsupported⟩]
    simp only [← singleton_mem_iff _ hids, List.forall_mem_map]
    constructor
    · intro hall n hn
      exact hall [n] hn
    · intro hall r hr
      split
      · next n => exact hall n hr
      · trivial

/-- When everything that `GetCapability` claims can be run: on the branch that cuts the order, no
piece is a single node without a kernel. -/
theorem claims_executable_iff (typesMatch : KernelDef → Node → Bool) (env : Support)
    (parentOp : Option String) (g : Graph) :
    ClaimsExecutable typesMatch (getCapability env parentOp g) ↔
      isControlFlowBody parentOp = true ∨ g.nodes.filter isContextNode ≠ [] ∨
        ∀ order, getKahnsVariantTopologicalSortedNodes g = some (.ok order) →
          NoLoneNode typesMatch env g order := by
  obtain ⟨r, hr, hperm⟩ := kahn_terminates g
  unfold getCapability
  split
  · next hnil =>
    refine iff_of_true (by simp [ClaimsExecutable]) (Or.inr (Or.inr ?_))
    rintro order horder ⟨u, hu, -⟩
    have hmem := (hperm order (Option.some.inj (hr.symm.trans horder))).mem_iff.1 hu
    rw [hnil] at hmem
    cases hmem
  · split
    · next hbody => exact iff_of_true (by simp [ClaimsExecutable]) (Or.inl hbody)
    · next hbody =>
      rw [or_iff_right hbody]
      dsimp only
      split
      · next hctx => exact iff_of_true (by simp [ClaimsExecutable, Claim.Executable]) (Or.inl hctx)
      · next hctx =>
        rw [or_iff_right hctx, hr]
        cases r with
        | error message =>
          refine iff_of_true trivial fun order horder => ?_
          cases horder
        | ok order =>
          have hids := ((hperm order rfl).map Node.id).nodup_iff.2 g.ids_nodup
          simp only [Option.some.injEq, Except.ok.injEq, forall_eq']
          exact claimSorted_executable_iff hids

end

/-- `Custom`, `Relu`, `Custom` in a chain. -/
def loneRelu : Graph :=
  Graph.ofNodes
    [{ id := 0, opType := "Custom", inputs := [some "in"], outputs := [some "a"] },
     { id := 1, opType := "Relu", inputs := [some "a"], outputs := [some "b"] },
     { id := 2, opType := "Custom", inputs := [some "b"], outputs := [some "y"] }]
    ["in"] ["y"] (by decide) (by decide) (by decide) (by decide)

/-- The `Relu` is claimed as a single node, whatever types the kernels take. -/
theorem loneRelu_claimed :
    getCapability reluIfSupport none loneRelu = some (.ok [.single loneRelu.nodes[1]]) ∧
      ∀ typesMatch, ¬ ClaimsExecutable typesMatch (getCapability reluIfSupport none loneRelu) := by
  have hclaims :
      getCapability reluIfSupport none loneRelu = some (.ok [.single loneRelu.nodes[1]]) := rfl
  refine ⟨hclaims, fun typesMatch h => ?_⟩
  rw [hclaims] at h
  rcases opType_of_hasKernel (h _ (List.mem_singleton_self _)) with hop | hop <;>
    exact absurd hop (by decide)

end AmdGpuEp.MIGraphX
