import AmdGpuEp.DirectML.FusedMatMulRefines

/-!
# An initializer as an operand of a FusedMatMul group

An operand that is no input of the fused graph is taken for an initializer, and is
uploaded by the name that the `MatMul` has for it. The dims of the GEMM that
`Compile` makes at once are read from the inputs at the two resolved places, also
for that operand.

Results:
1. `compile_binds`, `compile_eager`: what a kernel binds, and the sizes of its GEMM.
2. `prepares_iff`: the groups with an initializer whose GEMM is prepared from the
   dims of its operands.
3. `narrow_misread`: an initializer of other dims than the input.
-/

namespace AmdGpuEp.DirectML.FusedMatMul

open FusionManagerLemmas

/-! ## What is prepared and what is bound -/

/-- `get_dims`. -/
def declaredDims (env : MatchEnv Rat) (name : String) : List Int :=
  ((env.valueInfo name).map TensorInfo.dims).getD []

/-- All dims are known, and there are two of them. -/
def known (dims : List Int) : Bool :=
  decide (2 ≤ dims.length) && dims.all fun d => 0 < d

/-- `a_sizes` and `b_sizes`. -/
def sizesOf (dims : List Int) : List Nat :=
  dims.map fun d => d.toNat % 2 ^ 32

namespace FusedGraph

/-- `a_dims` and `b_dims`. -/
def operandDims (env : MatchEnv Rat) (s : FusedGraph) (m : PatternMatch Rat) (i : Input) :
    List Int :=
  ((s.inputs[(s.resolve m).1 i]?.bind env.valueInfo).map TensorInfo.dims).getD []

/-- The sizes that `CompileFusedMatMulDml` gets from `Compile`, unless it is left to `Compute`. -/
def eagerSizes (env : MatchEnv Rat) (s : FusedGraph) (m : PatternMatch Rat) :
    Option (Input → List Nat) :=
  if known (s.operandDims env m .a) && known (s.operandDims env m .b) then
    some fun i => sizesOf (s.operandDims env m i)
  else none

/-- What `Compute` binds: the initializer that was uploaded, or else the input at the place. -/
def boundValue (env : MatchEnv Rat) (s : FusedGraph) (m : PatternMatch Rat) (i : Input) :
    Option String :=
  if (s.resolve m).2 = some i then
    (env.initializers (s.matmulInput i)).map fun _ => s.matmulInput i
  else s.inputs[(s.resolve m).1 i]?

/-- The input at the place that is left to an operand which is not found. -/
def fallback (s : FusedGraph) : Input → Option String
  | .a => s.inputs[0]?
  | .b => s.inputs[if 2 ≤ s.inputs.length then 1 else 0]?

end FusedGraph

/-- The dims of the tensor that is read: an input is declared with them, and any other initializer
is stored with them. -/
def actualDims (env : MatchEnv Rat) (s : FusedGraph) (name : String) : List Int :=
  if name ∈ s.inputs then declaredDims env name
  else ((env.initializers name).map fun val => val.dims.map Int.ofNat).getD []

/-- A GEMM that is made at once has the sizes of the operands of the `MatMul`, and `Compute` binds
these operands. -/
structure Prepares (env : MatchEnv Rat) (group : List Node) (matmul : Node) (s : FusedGraph)
    (m : PatternMatch Rat) : Prop where
  sizes : ∀ sizes, s.eagerSizes env m = some sizes → ∀ i v t, Operates group matmul i v t →
    sizes i = sizesOf (actualDims env s v)
  binds : ∀ i v t, Operates group matmul i v t → s.boundValue env m i = some v

section

variable {decode : UInt32 → Rat} {env : MatchEnv Rat} {s : FusedGraph} {m : PatternMatch Rat}
  {k : KernelState} {i : Input} {idx : Nat}

/-- The kernel binds these values. -/
theorem compile_binds (h : compile decode env s m = some k) (i : Input) :
    k.operand s i = s.boundValue env m i := by
  obtain ⟨-, -, -, -, hidx, hinitializer, hfound⟩ := compile_spec h
  rw [KernelState.operand, FusedGraph.boundValue, hinitializer, hidx]
  cases hside : (s.resolve m).2 with
  | none => rfl
  | some j =>
    obtain ⟨val, hval⟩ := Option.isSome_iff_exists.1 (hfound j hside)
    by_cases hj : j = i
    · subst hj
      simp [hval]
    · simp [hj]

theorem eagerFails_eq (infoA infoB : TransposeInfo) :
    eagerFails (s.operandDims env m .a) (s.operandDims env m .b) infoA infoB =
      (s.eagerSizes env m).any fun sizes =>
        (prepareGemmShapes (sizes .a) (sizes .b) infoA infoB).isNone := by
  unfold eagerFails FusedGraph.eagerSizes known
  rw [List.all_append]
  split
  · next h =>
    simp only [Bool.and_eq_true] at h
    simp [h.1.1, h.1.2, h.2.1, h.2.2, sizesOf]
  · next h =>
    simp only [Bool.and_eq_true, not_and, Bool.not_eq_true] at h
    rw [Option.any_none]
    grind

/-- A kernel is only made when the GEMM of these sizes is valid. -/
theorem compile_eager (h : compile decode env s m = some k) {sizes : Input → List Nat}
    (hsizes : s.eagerSizes env m = some sizes) :
    (prepareGemmShapes (sizes .a) (sizes .b) (k.transposes .a) (k.transposes .b)).isSome := by
  unfold compile at h
  dsimp only at h
  simp only [Option.ite_none_left_eq_some, Option.some.injEq] at h
  obtain ⟨-, -, -, heager, rfl⟩ := h
  have hfits : ((s.eagerSizes env m).any fun sizes =>
      (prepareGemmShapes (sizes .a) (sizes .b) _ _).isNone) = false :=
    (eagerFails_eq _ _).symm.trans ((Bool.not_eq_true _).mp heager)
  rw [hsizes, Option.any_some, Option.isNone_eq_false_iff] at hfits
  exact hfits

/-! ## The places -/

theorem resolve_of_found {idx : Input → Nat} (h : ∀ i, s.operandIdx m i = some (idx i)) (i : Input) :
    (s.resolve m).1 i = idx i ∧ (s.resolve m).2 = none := by
  rw [FusedGraph.resolve, h .a, h .b]
  cases i <;> exact ⟨rfl, rfl⟩

theorem resolve_of_missing (hi : s.operandIdx m i = none) (ho : s.operandIdx m i.other = some idx) :
    (s.resolve m).2 = some i ∧ s.inputs[(s.resolve m).1 i]? = s.fallback i ∧
      (s.resolve m).1 i.other = idx := by
  rw [FusedGraph.resolve]
  cases i with
  | a =>
    rw [hi, show s.operandIdx m .b = some idx from ho]
    exact ⟨rfl, rfl, rfl⟩
  | b =>
    rw [hi, show s.operandIdx m .a = some idx from ho]
    exact ⟨rfl, rfl, rfl⟩

theorem operandDims_of_input {name : String} (h : s.inputs[(s.resolve m).1 i]? = some name) :
    s.operandDims env m i = declaredDims env name := by
  rw [FusedGraph.operandDims, h]
  rfl

theorem eagerSizes_eq_some {sizes : Input → List Nat} :
    s.eagerSizes env m = some sizes ↔
      (∀ i, known (s.operandDims env m i) = true) ∧
        (fun i => sizesOf (s.operandDims env m i)) = sizes := by
  have hall : (∀ i, known (s.operandDims env m i) = true) ↔
      (known (s.operandDims env m .a) && known (s.operandDims env m .b)) = true := by
    rw [Bool.and_eq_true]
    refine ⟨fun h => ⟨h .a, h .b⟩, fun h i => ?_⟩
    cases i
    · exact h.1
    · exact h.2
  rw [FusedGraph.eagerSizes, Option.ite_none_right_eq_some, Option.some.injEq, hall]

theorem actualDims_of_mem {name : String} (h : name ∈ s.inputs) :
    actualDims env s name = declaredDims env name := if_pos h

theorem Input.eq_or_other (i j : Input) : j = i ∨ j = i.other := by
  cases i <;> cases j <;> first | exact Or.inl rfl | exact Or.inr rfl

end

namespace Setting

variable {env : MatchEnv Rat} {g : Graph} {c : Candidate Rat} {b : Branches}
  {trans : Input → Option Node} {acts : List (String × Node)} {v : Input → String} {y : String}
  {i : Input} {t : Option Node} {w : String} {s : FusedGraph}

/-- An operand is found exactly when it is an input. -/
theorem operandIdx_iff (h : Setting env g c b trans acts v y)
    (hs : s.Of env (c.group (buildGraphConnectivity g)))
    (hw : Operates (c.group (buildGraphConnectivity g)) b.matmul i w t) :
    (∃ idx, s.operandIdx c.found i = some idx ∧ s.inputs[idx]? = some w) ∧ w ∈ s.inputs ∨
      s.operandIdx c.found i = none ∧ w ∉ s.inputs := by
  obtain ⟨w', t', hoper, hres, hcase⟩ := h.operand_cases hs i
  obtain ⟨rfl, rfl⟩ := h.operates_unique hw hoper
  rcases hres with ⟨idx, hidx, hinput⟩ | ⟨hnone, -⟩
  · exact Or.inl ⟨⟨idx, hidx, hinput⟩, List.mem_of_getElem? hinput⟩
  · refine Or.inr ⟨hnone, fun hmem => ?_⟩
    rw [FusedGraph.operandIdx, h.matmulInput_eq hs i] at hnone
    cases hfind : s.findGraphInput (v i) with
    | some idx =>
      rw [hfind] at hnone
      cases hnone
    | none =>
      rw [hfind] at hnone
      dsimp only at hnone
      rcases hcase with ⟨-, rfl, -⟩ | ⟨t', -, ht, -, hin⟩
      · exact findGraphInput_eq_none.1 hfind hmem
      · have hsource : c.found.valueName i.side.sourceKey = w := by
          rw [PatternMatch.valueName, h.found.source, ht]
          simp [getNodeInputNames, hin]
        have hname : w ≠ "" := fun hempty => hs.inputs_named (hempty ▸ hmem)
        rw [hsource, if_neg hname] at hnone
        exact findGraphInput_eq_none.1 hnone hmem

/-- The operand on the other side of an initializer is an input. -/
theorem other_input (h : Setting env g c b trans acts v y)
    (hs : s.Of env (c.group (buildGraphConnectivity g)))
    (hw : Operates (c.group (buildGraphConnectivity g)) b.matmul i w t)
    (hinit : (env.initializers w).isSome) :
    ∃ x, Operates (c.group (buildGraphConnectivity g)) b.matmul i.other x none ∧ x ∈ s.inputs := by
  obtain ⟨r, hr, hruntime⟩ := h.exists_runtime
  have hdirect := h.direct fun t ht => nomatch hr.symm.trans ht
  have hne : r ≠ i := by
    rintro rfl
    have hv := (h.operates_unique hw (.direct (h.input_eq r) hdirect)).1
    exact hruntime (hv ▸ hinit)
  obtain rfl : r = i.other := by
    cases i <;> cases r <;> first | rfl | exact absurd rfl hne
  refine ⟨v i.other, .direct (h.input_eq i.other) hdirect, ?_⟩
  by_contra hout
  exact hruntime (initializer_of_not_input hs h.matmul_kept
    (List.mem_of_getElem? (h.input_eq i.other)) hdirect hout)

/-- What is bound for an initializer that is no input. -/
theorem boundValue_missing (h : Setting env g c b trans acts v y)
    (hs : s.Of env (c.group (buildGraphConnectivity g)))
    (hw : Operates (c.group (buildGraphConnectivity g)) b.matmul i w t)
    (hinit : (env.initializers w).isSome) (hside : (s.resolve c.found).2 = some i) :
    s.boundValue env c.found i = some w ↔ t = none := by
  rw [FusedGraph.boundValue, if_pos hside, h.matmulInput_eq hs i]
  cases hw with
  | direct hv =>
    obtain rfl : v i = _ := Option.some.inj (Option.some.inj ((h.input_eq i).symm.trans hv))
    obtain ⟨val, hval⟩ := Option.isSome_iff_exists.1 hinit
    simp [hval]
  | transposed hv hgroup _ _ hwrites =>
    obtain rfl : v i = _ := Option.some.inj (Option.some.inj ((h.input_eq i).symm.trans hv))
    have hnone := h.not_initializer (h.wf.nodes _ (group_sub hgroup)) hwrites
    rw [Option.isSome_iff_ne_none, not_not] at hnone
    simp [hnone]

/-- Operands that are inputs are prepared right. -/
theorem prepares_of_inputs (h : Setting env g c b trans acts v y)
    (hs : s.Of env (c.group (buildGraphConnectivity g)))
    (hinputs : ∀ i, ∃ w t, Operates (c.group (buildGraphConnectivity g)) b.matmul i w t ∧
      w ∈ s.inputs) :
    Prepares env (c.group (buildGraphConnectivity g)) b.matmul s c.found := by
  choose w t hw hmem using hinputs
  have hfound : ∀ i, ∃ idx, s.operandIdx c.found i = some idx ∧ s.inputs[idx]? = some (w i) := by
    intro i
    rcases h.operandIdx_iff hs (hw i) with ⟨hidx, -⟩ | ⟨-, hout⟩
    · exact hidx
    · exact absurd (hmem i) hout
  choose idx hidx hinput using hfound
  have hplace : ∀ i, s.inputs[(s.resolve c.found).1 i]? = some (w i) := fun i =>
    (resolve_of_found hidx i).1 ▸ hinput i
  constructor
  · intro sizes hsizes i v' t' hv
    obtain rfl := (h.operates_unique hv (hw i)).1
    obtain ⟨-, rfl⟩ := eagerSizes_eq_some.1 hsizes
    dsimp only
    rw [operandDims_of_input (hplace i), actualDims_of_mem (hmem i)]
  · intro i v' t' hv
    obtain rfl := (h.operates_unique hv (hw i)).1
    rw [FusedGraph.boundValue, (resolve_of_found hidx i).2, if_neg (Option.some_ne_none i).symm]
    exact hplace i

/-- An initializer that is no input is prepared right when it needs no transpose and has the sizes
of the input at the place that is left. -/
theorem prepares_of_missing (h : Setting env g c b trans acts v y)
    (hs : s.Of env (c.group (buildGraphConnectivity g)))
    (hw : Operates (c.group (buildGraphConnectivity g)) b.matmul i w t)
    (hinit : (env.initializers w).isSome) (hout : w ∉ s.inputs) :
    Prepares env (c.group (buildGraphConnectivity g)) b.matmul s c.found ↔
      t = none ∧ ∀ x u, Operates (c.group (buildGraphConnectivity g)) b.matmul i.other x u →
        ∀ z, s.fallback i = some z → known (declaredDims env x) = true →
          known (declaredDims env z) = true →
            sizesOf (declaredDims env z) = sizesOf (actualDims env s w) := by
  obtain ⟨x, hx, hxmem⟩ := h.other_input hs hw hinit
  have hnone : s.operandIdx c.found i = none :=
    ((h.operandIdx_iff hs hw).resolve_left fun hmem => hout hmem.2).1
  obtain ⟨idx, hidx, hinput⟩ :=
    ((h.operandIdx_iff hs hx).resolve_right fun hmem => hmem.2 hxmem).1
  obtain ⟨hside, hplace, hother⟩ := resolve_of_missing hnone hidx
  have hplaceOther : s.inputs[(s.resolve c.found).1 i.other]? = some x := hother ▸ hinput
  have hne : some i ≠ some i.other := by cases i <;> simp [Input.other]
  constructor
  · rintro ⟨hsizes, hbinds⟩
    refine ⟨(h.boundValue_missing hs hw hinit hside).1 (hbinds i w t hw), ?_⟩
    intro x' u hx' z hz hknown hknownZ
    obtain rfl := (h.operates_unique hx' hx).1
    have hdims : s.operandDims env c.found i = declaredDims env z :=
      operandDims_of_input (hplace.trans hz)
    have heager : s.eagerSizes env c.found =
        some fun j => sizesOf (s.operandDims env c.found j) := by
      refine eagerSizes_eq_some.2 ⟨fun j => ?_, rfl⟩
      rcases Input.eq_or_other i j with rfl | rfl
      · rw [hdims]
        exact hknownZ
      · rw [operandDims_of_input hplaceOther]
        exact hknown
    rw [← hdims]
    exact hsizes _ heager i w t hw
  · rintro ⟨htrans, hsame⟩
    constructor
    · intro sizes hsizes j v' t' hv
      obtain ⟨hknown, rfl⟩ := eagerSizes_eq_some.1 hsizes
      rcases Input.eq_or_other i j with rfl | rfl
      · obtain rfl := (h.operates_unique hv hw).1
        have hknownOther := hknown j.other
        rw [operandDims_of_input hplaceOther] at hknownOther
        cases hz : s.fallback j with
        | none =>
          have hempty := hknown j
          rw [FusedGraph.operandDims, hplace, hz] at hempty
          cases hempty
        | some z =>
          have hdims : s.operandDims env c.found j = declaredDims env z :=
            operandDims_of_input (hplace.trans hz)
          have hknownZ := hknown j
          dsimp only
          rw [hdims] at hknownZ ⊢
          exact hsame x none hx z hz hknownOther hknownZ
      · obtain rfl := (h.operates_unique hv hx).1
        dsimp only
        rw [operandDims_of_input hplaceOther, actualDims_of_mem hxmem]
    · intro j v' t' hv
      rcases Input.eq_or_other i j with rfl | rfl
      · obtain ⟨rfl, rfl⟩ := h.operates_unique hv hw
        exact (h.boundValue_missing hs hw hinit hside).2 htrans
      · obtain rfl := (h.operates_unique hv hx).1
        rw [FusedGraph.boundValue, hside, if_neg hne]
        exact hplaceOther

end Setting

/-! ## The whole group -/

/-- The group of an emitted candidate with an initializer as an operand, in whatever order its fused
graph has the inputs. -/
theorem prepares_iff {env : FusionEnv Rat} {g : Graph} {c : Candidate Rat} {s : FusedGraph}
    (hg : MatMulGraph env.toMatchEnv g)
    (hc : c ∈ (applyFusions env (buildAnchorIndex allRules) g).emitted)
    (hop : c.anchor.opType = "MatMul")
    (hs : s.Of env.toMatchEnv (c.group (buildGraphConnectivity g))) {i : Input} {w : String}
    {t : Option Node} (hw : Operates (c.group (buildGraphConnectivity g)) c.anchor i w t)
    (hinit : (env.initializers w).isSome) :
    Prepares env.toMatchEnv (c.group (buildGraphConnectivity g)) c.anchor s
        { c.found with allNodes := c.group (buildGraphConnectivity g) } ↔
      w ∈ s.inputs ∨
        t = none ∧ ∀ x u, Operates (c.group (buildGraphConnectivity g)) c.anchor i.other x u →
          ∀ z, s.fallback i = some z → known (declaredDims env.toMatchEnv x) = true →
            known (declaredDims env.toMatchEnv z) = true →
              sizesOf (declaredDims env.toMatchEnv z) =
                sizesOf (actualDims env.toMatchEnv s w) := by
  obtain ⟨b, trans, acts, v, y, h⟩ := exists_setting hg hc hop
  rw [h.anchor] at hw ⊢
  -- the places do not depend on the nodes that are left
  have hfound : Prepares env.toMatchEnv (c.group (buildGraphConnectivity g)) b.matmul s
        { c.found with allNodes := c.group (buildGraphConnectivity g) } ↔
      Prepares env.toMatchEnv (c.group (buildGraphConnectivity g)) b.matmul s c.found :=
    ⟨fun hp => ⟨hp.sizes, hp.binds⟩, fun hp => ⟨hp.sizes, hp.binds⟩⟩
  rw [hfound]
  by_cases hmem : w ∈ s.inputs
  · refine iff_of_true (h.prepares_of_inputs hs fun j => ?_) (Or.inl hmem)
    rcases Input.eq_or_other i j with rfl | rfl
    · exact ⟨w, t, hw, hmem⟩
    · obtain ⟨x, hx, hxmem⟩ := h.other_input hs hw hinit
      exact ⟨x, none, hx, hxmem⟩
  · exact (h.prepares_of_missing hs hw hinit hmem).trans (or_iff_right hmem).symm

/-! ## A weight behind a runtime input -/

/-- `Relu(MatMul(a, w))`. -/
def denseNodes : List Node :=
  [{ id := 0, opType := "Identity", inputs := [some "in"], outputs := [some "a"] },
   { id := 1, opType := "MatMul", inputs := [some "a", some "w"], outputs := [some "c"] },
   { id := 2, opType := "Relu", inputs := [some "c"], outputs := [some "y"] }]

def dense : Graph :=
  Graph.ofNodes denseNodes ["in"] ["y"] (by decide) (by decide) (by decide) (by decide)

/-- A provider that runs every node, with a matrix `a` of these dims and an initializer `w`. -/
def denseEnv (aDims : List Int) (wDims : List Nat) : FusionEnv Rat where
  initializers name := if name = "w" then some ⟨.float, wDims, []⟩ else none
  valueInfo name := if name = "a" then some ⟨.float, aDims⟩ else none
  isSupported _ := true
  cpuPreferredNodeIds := []
  addNodesToFuse _ _ := true

theorem dense_model (aDims : List Int) (wDims : List Nat) :
    MatMulGraph (denseEnv aDims wDims).toMatchEnv dense where
  acyclic := Graph.acyclic_of_ids (by
    show ∀ p ∈ denseNodes, ∀ n ∈ denseNodes, _
    decide)
  schema n hn := by
    simp only [dense, Graph.ofNodes, denseNodes, List.mem_cons, List.not_mem_nil, or_false] at hn
    rcases hn with rfl | rfl | rfl
    · exact ⟨fun _ => ⟨_, _, rfl, rfl⟩, fun hmem => absurd hmem (by decide)⟩
    · exact ⟨fun hmem => absurd hmem (by decide), fun _ => ⟨_, _, _, rfl, rfl⟩⟩
    · exact ⟨fun _ => ⟨_, _, rfl, rfl⟩, fun hmem => absurd hmem (by decide)⟩
  unwritten v hinit hmem := by
    have hname : v = "w" := by
      by_contra hne
      simp [denseEnv, hne] at hinit
    have hwritten : "w" ∉ dense.written := by decide
    exact hwritten (hname ▸ hmem)
  transposes n hn hop := by
    simp only [dense, Graph.ofNodes, denseNodes, List.mem_cons, List.not_mem_nil, or_false] at hn
    rcases hn with rfl | rfl | rfl <;> exact absurd hop (by decide)
  named := rfl

/-- The only candidate. -/
def denseCandidate (aDims : List Int) (wDims : List Nat) : Option (Candidate Rat) :=
  (applyFusions (denseEnv aDims wDims) (buildAnchorIndex allRules) dense).emitted.head?

/-- A square weight of the sizes of the input is prepared right. -/
theorem square_prepared :
    ∃ c ∈ (applyFusions (denseEnv [2, 2] [2, 2]) (buildAnchorIndex allRules) dense).emitted,
      Prepares (denseEnv [2, 2] [2, 2]).toMatchEnv (c.group (buildGraphConnectivity dense)) c.anchor
        ⟨c.group (buildGraphConnectivity dense), ["a"]⟩
        { c.found with allNodes := c.group (buildGraphConnectivity dense) } := by
  have hcheck : ∃ c, denseCandidate [2, 2] [2, 2] = some c :=
    Option.isSome_iff_exists.1 (by decide +kernel)
  obtain ⟨c, hc⟩ := hcheck
  have hfacts : (denseCandidate [2, 2] [2, 2]).all (fun c =>
      c.anchor = ⟨1, "", "MatMul", "", 1, [some "a", some "w"], [], [some "c"], []⟩ ∧
      c.group (buildGraphConnectivity dense) = denseNodes.drop 1) = true := by
    decide +kernel
  rw [hc, Option.all_some, decide_eq_true_eq] at hfacts
  obtain ⟨hanchor, hgroup⟩ := hfacts
  have hof : FusedGraph.Of ⟨c.group (buildGraphConnectivity dense), ["a"]⟩
      (denseEnv [2, 2] [2, 2]).toMatchEnv (c.group (buildGraphConnectivity dense)) := by
    rw [hgroup]
    exact FusedGraph.of_slots (by decide) (by decide) (by decide)
  have hw : Operates (c.group (buildGraphConnectivity dense)) c.anchor .b "w" none := by
    rw [hgroup, hanchor]
    exact .direct rfl (by decide)
  refine ⟨c, List.mem_of_head? hc, (prepares_iff (dense_model _ _) (List.mem_of_head? hc)
    (by rw [hanchor]) hof hw rfl).2 (Or.inr ⟨rfl, fun x u hx z hz _ _ => ?_⟩)⟩
  obtain rfl : "a" = z := Option.some.inj hz
  rfl

/-- A weight of other sizes: the GEMM is prepared for the sizes of the input on both sides, which
do not fit. -/
theorem narrow_misread :
    ∃ c ∈ (applyFusions (denseEnv [2, 3] [3, 4]) (buildAnchorIndex allRules) dense).emitted,
      FusedGraph.Of ⟨c.group (buildGraphConnectivity dense), ["a"]⟩
          (denseEnv [2, 3] [3, 4]).toMatchEnv (c.group (buildGraphConnectivity dense)) ∧
        compile (fun _ => 0) (denseEnv [2, 3] [3, 4]).toMatchEnv
            ⟨c.group (buildGraphConnectivity dense), ["a"]⟩
            { c.found with allNodes := c.group (buildGraphConnectivity dense) } = none ∧
          ¬ Prepares (denseEnv [2, 3] [3, 4]).toMatchEnv (c.group (buildGraphConnectivity dense))
            c.anchor ⟨c.group (buildGraphConnectivity dense), ["a"]⟩
            { c.found with allNodes := c.group (buildGraphConnectivity dense) } := by
  have hcheck : ∃ c, denseCandidate [2, 3] [3, 4] = some c :=
    Option.isSome_iff_exists.1 (by decide +kernel)
  obtain ⟨c, hc⟩ := hcheck
  have hfacts : (denseCandidate [2, 3] [3, 4]).all (fun c =>
      c.anchor = ⟨1, "", "MatMul", "", 1, [some "a", some "w"], [], [some "c"], []⟩ ∧
      c.group (buildGraphConnectivity dense) = denseNodes.drop 1 ∧
      (compile (fun _ => 0) (denseEnv [2, 3] [3, 4]).toMatchEnv
        ⟨denseNodes.drop 1, ["a"]⟩ c.found).isNone ∧
      ((FusedGraph.eagerSizes (denseEnv [2, 3] [3, 4]).toMatchEnv ⟨denseNodes.drop 1, ["a"]⟩
        c.found).map fun sizes => sizes .b) = some [2, 3]) = true := by
    decide +kernel
  rw [hc, Option.all_some, decide_eq_true_eq] at hfacts
  obtain ⟨hanchor, hgroup, hcompile, hsizes⟩ := hfacts
  refine ⟨c, List.mem_of_head? hc, ?_, ?_, fun hprepares => ?_⟩
  · rw [hgroup]
    exact FusedGraph.of_slots (by decide) (by decide) (by decide)
  · rw [hgroup]
    exact Option.isNone_iff_eq_none.1 hcompile
  · rw [hgroup, hanchor] at hprepares
    obtain ⟨sizes, heager, hb⟩ := Option.map_eq_some_iff.1 hsizes
    have hread := hprepares.sizes sizes heager .b "w" none (.direct rfl (by decide))
    exact absurd (hb.symm.trans hread) (by decide)

end AmdGpuEp.DirectML.FusedMatMul
