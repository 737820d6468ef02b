import AmdGpuEp.DirectML.FusedMatMulGroup

/-!
# The operands of a FusedMatMul kernel

`Compile` looks the operands of the `MatMul` up among the inputs of the fused
graph, by the names of the group and by the sources that were captured of its
transposes. The flags are those of the transposes in front of the exclusion pass.

Results:
1. `kernel_operands`: each operand is bound to the value that the group reads.
2. `operands_iff`: its axes are in the order of the group exactly when no transpose
   is lost and none is carried out twice.
-/

namespace AmdGpuEp.DirectML.FusedMatMul

open FusionManagerLemmas GemmShapesLemmas

/-! ## The axes of an operand -/

/-- The last two axes behind the permutation of the flags. -/
theorem apply_range {info : TransposeInfo} {r : Nat} (hr : 2 ≤ r)
    (hbatch : info.isTransBatch = true → 3 ≤ r) :
    ∃ front, info.apply (List.range r) =
      front ++ if info.isTrans then [r - 1, if info.isTransBatch then 0 else r - 2]
        else [if info.isTransBatch then 0 else r - 2, r - 1] := by
  obtain ⟨n, rfl⟩ := Nat.exists_eq_add_of_le' hr
  obtain ⟨front, hmoved⟩ : ∃ front, info.moveBatch (List.range (n + 2)) =
      front ++ [if info.isTransBatch then 0 else n, n + 1] := by
    rw [TransposeInfo.moveBatch, List.range_succ]
    cases hb : info.isTransBatch with
    | false => exact ⟨List.range n, by simp [List.range_succ]⟩
    | true =>
      rw [if_pos rfl, rotateFront_concat, List.range_succ_eq_map]
      exact ⟨(List.range n).map Nat.succ, by simp⟩
  refine ⟨front, ?_⟩
  rw [TransposeInfo.apply, hmoved]
  cases info.isTrans with
  | false => rfl
  | true => exact swapLast_append_pair ..

/-- Different flags stand for different permutations. -/
theorem apply_range_inj {info info' : TransposeInfo} {r : Nat} (hr : 2 ≤ r)
    (hbatch : info.isTransBatch = true → 3 ≤ r) (hbatch' : info'.isTransBatch = true → 3 ≤ r)
    (h : info.apply (List.range r) = info'.apply (List.range r)) : info = info' := by
  obtain ⟨front, hfront⟩ := apply_range hr hbatch
  obtain ⟨front', hfront'⟩ := apply_range hr hbatch'
  rw [hfront, hfront'] at h
  obtain ⟨-, hlast⟩ := List.append_inj' h (by cases info.isTrans <;> cases info'.isTrans <;> rfl)
  obtain ⟨trans, batch⟩ := info
  obtain ⟨trans', batch'⟩ := info'
  cases trans <;> cases batch <;> cases trans' <;> cases batch' <;>
    simp at hlast hbatch hbatch' ⊢ <;> omega

/-- The order of the axes behind a transpose of the group is that of its flags. -/
theorem axes_eq {env : MatchEnv Rat} {gc : GraphConnectivity} {matmul t : Node} {i : Nat}
    {w : String} {r : Nat} (ht : TransposeTaken env gc matmul i t)
    (hinfo : capturedInfo (getAttributeInts t "perm") = some (transposeInfoOf t))
    (hin : t.inputs = [some w]) (hr : CanHaveRank env w (some t) r) :
    axes (some t) r = ((transposeInfoOf t).apply (List.range r)).map Int.ofNat ∧ 2 ≤ r ∧
      (getAttributeInts t "perm" ≠ [] → (getAttributeInts t "perm").length = r) ∧
      ((transposeInfoOf t).isTransBatch = true → 3 ≤ r ∧ getAttributeInts t "perm" ≠ []) := by
  obtain ⟨name, hname, hpredicate⟩ := ht.predicate
  rw [getNodeInputNames, hin] at hname
  obtain rfl : w = name := by simpa using hname
  have habsorbed : Operand.Absorbed ⟨List.replicate r 1, some t⟩ := by
    intro node hnode
    cases hnode
    refine ⟨⟨env.inputInfo t w, fun info hi => ?_, hpredicate⟩, by simp [hinfo], ?_⟩
    · have hrank : env.rank w = info.dims.length := by
        rw [MatchEnv.inputInfo, if_pos (by simp [hin])] at hi
        simp [MatchEnv.rank, hi]
      rw [List.length_replicate, ← hrank, ← List.length_eq_zero_iff, ← hrank]
      exact hr.1
    · rw [List.length_replicate]
      exact hr.2
  have hrange : (List.replicate r 1).length = r := List.length_replicate
  rcases absorbed_cases habsorbed rfl with ⟨hperm, htwo, hflags⟩ | ⟨p, hp, hperm, hne, hanalyze⟩
  · have htrans : transposeInfoOf t = { isTrans := true } := hflags
    obtain rfl : r = 2 := hrange.symm.trans htwo
    rw [htrans, axes, hperm]
    exact ⟨rfl, le_rfl, fun hne => absurd rfl hne, nofun⟩
  · rw [hrange] at hp
    obtain ⟨htwo, -, hbatch, -⟩ := analyze_checks hanalyze
    rw [List.length_map, hp.length_eq, List.length_range] at htwo hbatch
    have horder : p = (transposeInfoOf t).apply (List.range r) := perm_eq_apply hp hanalyze
    rw [axes, hperm, ← horder]
    refine ⟨by simp [fullPerm, hne], htwo, fun _ => ?_, fun h => ⟨hbatch h, by simpa using hne⟩⟩
    rw [List.length_map, hp.length_eq, List.length_range]

/-! ## Resolving the operands -/

theorem findGraphInput_eq_some {s : FusedGraph} {name : String} {idx : Nat}
    (h : s.findGraphInput name = some idx) : s.inputs[idx]? = some name := by
  obtain ⟨hlt, hname, -⟩ := List.findIdx?_eq_some_iff_getElem.1 h
  rw [List.getElem?_eq_getElem hlt, beq_iff_eq.1 hname]

theorem findGraphInput_eq_none {s : FusedGraph} {name : String} :
    s.findGraphInput name = none ↔ name ∉ s.inputs := by
  rw [FusedGraph.findGraphInput, List.findIdx?_eq_none_iff]
  simp only [beq_eq_false_iff_ne]
  exact ⟨fun h hmem => h name hmem rfl, fun h w hw heq => h (heq ▸ hw)⟩

/-- The operand is found among the inputs, or it is an initializer that is none of them. -/
def Resolves (env : MatchEnv Rat) (s : FusedGraph) (m : PatternMatch Rat) (i : Input)
    (w : String) : Prop :=
  (∃ idx, s.operandIdx m i = some idx ∧ s.inputs[idx]? = some w) ∨
    s.operandIdx m i = none ∧ (env.initializers w).isSome

namespace Setting

variable {env : MatchEnv Rat} {g : Graph} {c : Candidate Rat} {b : Branches}
  {trans : Input → Option Node} {acts : List (String × Node)} {v : Input → String} {y : String}
  {i j : Input} {n t : Node} {s : FusedGraph}

/-- No node of the match writes what a node in front of the last one reads. -/
theorem not_written (h : Setting env g c b trans acts v y) {d : Node} {w : String}
    (hd : d ∈ g.nodes) (hpath : Relation.ReflTransGen g.Dep d b.matmul) (hin : some w ∈ d.inputs)
    (hother : ∀ i, trans i = some n → w ∉ n.outputNames) (hn : n ∈ c.matched) :
    w ∉ n.outputNames := by
  intro hw
  have hnode := h.wf.nodes n hn
  have hdep : g.Dep n d := ⟨hnode, hd, w, hw, Node.uses_pos.2 (Or.inl hin)⟩
  have hcycle : ¬ Relation.ReflTransGen g.Dep b.matmul n := fun hreach =>
    h.model.acyclic d (.trans_right hpath (.trans_right hreach (.single hdep)))
  rcases h.mem_matched.1 hn with rfl | ⟨i, ht⟩ | ⟨s, hs, rfl⟩ | ⟨key, hact⟩
  · exact hcycle .refl
  · exact hother i ht hw
  · exact hcycle (.single (h.matmul_feeds hs).dep)
  · exact hcycle (.tail h.matmul_last (h.last_feeds hact).dep)

/-- At most one transpose is left in a match that is validated. -/
theorem trans_unique (h : Setting env g c b trans acts v y) {t' : Node} (ht : trans i = some t)
    (ht' : trans j = some t') : i = j := by
  obtain ⟨k, p, hp, hout⟩ := h.runtime
  have hnone : ∀ l q, trans l = some q → l ≠ k := by
    rintro l q hl rfl
    obtain ⟨hmem, -, hwrites, -⟩ := h.trans_spec hl
    have hpq : p = q := Graph.producer_unique (mem_nodes_of_producer hp) hmem
      (mem_outputNames_of_producer hp) (Node.mem_outputNames.2 (by simp [hwrites]))
    exact hout (h.mem_matched.2 (Or.inr (Or.inl ⟨l, hpq ▸ hl⟩)))
  have hi := hnone i t ht
  have hj := hnone j t' ht'
  cases i <;> cases j <;> cases k <;> first | rfl | exact absurd rfl hi | exact absurd rfl hj

/-- Without a transpose in the group an input of the `MatMul` comes from outside. -/
theorem direct (h : Setting env g c b trans acts v y)
    (ht : ∀ t, trans i = some t → t ∉ c.group (buildGraphConnectivity g)) :
    ∀ p ∈ c.group (buildGraphConnectivity g), v i ∉ p.outputNames := by
  intro p hp
  refine h.not_written h.matmul_mem .refl (List.mem_of_getElem? (h.input_eq i)) ?_ (group_sub hp)
  intro j hj hw
  obtain ⟨-, -, hout, -⟩ := h.trans_spec hj
  rw [Node.mem_outputNames, hout, List.mem_singleton, Option.some.injEq] at hw
  have hij : i = j := by
    have hne := h.distinct
    cases i <;> cases j <;> first | rfl | exact absurd hw hne | exact absurd hw.symm hne
  exact ht p (hij ▸ hj) hp

/-- So does the source of a transpose. -/
theorem source_outside (h : Setting env g c b trans acts v y) {w : String}
    (ht : trans i = some t) (hin : t.inputs = [some w]) :
    ∀ p ∈ c.group (buildGraphConnectivity g), w ∉ p.outputNames := by
  intro p hp
  obtain ⟨hmem, -⟩ := h.trans_spec ht
  refine h.not_written hmem (.single (h.trans_feeds ht).dep) (by simp [hin]) ?_ (group_sub hp)
  intro j hj hw
  obtain rfl := h.trans_unique hj ht
  obtain rfl : p = t := Option.some.inj (hj.symm.trans ht)
  exact h.model.acyclic p (.single ⟨hmem, hmem, w, hw, Node.uses_pos.2 (Or.inl (by simp [hin]))⟩)

/-- The name that `Compile` has for an input of the `MatMul`. -/
theorem matmulInput_eq (h : Setting env g c b trans acts v y)
    (hs : s.Of env (c.group (buildGraphConnectivity g))) (i : Input) : s.matmulInput i = v i := by
  have hfind : (s.nodes.find? fun n => n.opType == "MatMul") = some b.matmul := by
    have hmem : b.matmul ∈ s.nodes := hs.nodes.mem_iff.2 h.matmul_kept
    have hsome : (s.nodes.find? fun n => n.opType == "MatMul").isSome :=
      List.find?_isSome.2 ⟨b.matmul, hmem, beq_iff_eq.2 h.found.taken.op⟩
    obtain ⟨n, hn⟩ := Option.isSome_iff_exists.1 hsome
    have hop : n.opType = "MatMul" := by simpa using List.find?_some hn
    have hgroup := hs.nodes.mem_iff.1 (List.mem_of_find?_eq_some hn)
    rcases h.mem_matched.1 (group_sub hgroup) with rfl | ⟨j, ht⟩ | ⟨s', hs', rfl⟩ | ⟨key, hact⟩
    · exact hn
    · rw [(h.trans_spec ht).2.1] at hop
      exact absurd hop (by decide)
    · rw [(h.scale_spec hs').2.1] at hop
      exact absurd hop (by cases s'.isDiv <;> decide)
    · obtain ⟨-, z, hz⟩ := h.exists_last_output
      obtain ⟨k, -, hk, -⟩ := h.activation_spec hz hact
      rw [hk] at hop
      exact absurd hop (by cases k <;> decide)
  rw [FusedGraph.matmulInput, hfind, Option.bind_some, getNodeInputNames, List.getElem?_map,
    h.input_eq]
  rfl

/-- What the group reads from outside is an input of the fused graph, or an initializer. -/
theorem initializer_of_not_input
    (hs : s.Of env (c.group (buildGraphConnectivity g))) {w : String}
    (hn : n ∈ c.group (buildGraphConnectivity g)) (hin : some w ∈ n.inputs)
    (hout : ∀ p ∈ c.group (buildGraphConnectivity g), w ∉ p.outputNames) (hw : w ∉ s.inputs) :
    (env.initializers w).isSome := by
  cases hinit : env.initializers w with
  | none => exact absurd (hs.mem_inputs n hn w hin hout hinit) hw
  | some val => rfl

/-- The operand of an input without a transpose in the group. -/
theorem resolves_direct (h : Setting env g c b trans acts v y)
    (hs : s.Of env (c.group (buildGraphConnectivity g)))
    (ht : ∀ t, trans i = some t → t ∉ c.group (buildGraphConnectivity g)) :
    Resolves env s c.found i (v i) := by
  rw [Resolves, FusedGraph.operandIdx, h.matmulInput_eq hs i]
  cases hfind : s.findGraphInput (v i) with
  | some idx => exact Or.inl ⟨idx, rfl, findGraphInput_eq_some hfind⟩
  | none =>
    have hinit := initializer_of_not_input hs h.matmul_kept
      (List.mem_of_getElem? (h.input_eq i)) (h.direct ht) (findGraphInput_eq_none.1 hfind)
    refine Or.inr ⟨?_, hinit⟩
    have hnone : trans i = none := by
      rw [Option.eq_none_iff_forall_not_mem]
      intro t ht'
      obtain ⟨hmem, -, hout, -⟩ := h.trans_spec ht'
      exact h.model.unwritten _ hinit (mem_written hmem hout)
    have hsource : c.found.valueName i.side.sourceKey = "" := by
      rw [PatternMatch.valueName, h.found.source, hnone]
      rfl
    exact if_pos hsource

/-- The operand of an input with a transpose in the group. -/
theorem resolves_transposed (h : Setting env g c b trans acts v y)
    (hs : s.Of env (c.group (buildGraphConnectivity g))) {w : String} (ht : trans i = some t)
    (hgroup : t ∈ c.group (buildGraphConnectivity g)) (hin : t.inputs = [some w]) :
    Resolves env s c.found i w := by
  obtain ⟨-, -, hout, -⟩ := h.trans_spec ht
  have hinner : s.findGraphInput (v i) = none :=
    findGraphInput_eq_none.2 fun hv =>
      (hs.inputs_read _ hv).2 t hgroup (Node.mem_outputNames.2 (by simp [hout]))
  have hsource : c.found.valueName i.side.sourceKey = w := by
    rw [PatternMatch.valueName, h.found.source, ht]
    simp [getNodeInputNames, hin]
  have hmem : some w ∈ t.inputs := by simp [hin]
  have hname : w ≠ "" := by
    rintro rfl
    exact hs.inputs_named (hs.mem_inputs t hgroup "" hmem (h.source_outside ht hin) h.model.named)
  have hidx : s.operandIdx c.found i = s.findGraphInput w := by
    rw [FusedGraph.operandIdx, h.matmulInput_eq hs i, hinner]
    dsimp only
    rw [hsource, if_neg hname]
  rw [Resolves, hidx]
  cases hfind : s.findGraphInput w with
  | some idx => exact Or.inl ⟨idx, rfl, findGraphInput_eq_some hfind⟩
  | none =>
    exact Or.inr ⟨rfl, initializer_of_not_input hs hgroup hmem (h.source_outside ht hin)
      (findGraphInput_eq_none.1 hfind)⟩

end Setting

/-! ## The compiled kernel -/

/-- The rank that `Compile` reads for an operand. -/
def inputRank (env : MatchEnv Rat) (s : FusedGraph) (m : PatternMatch Rat) (i : Input) : Nat :=
  (((s.inputs[(s.resolve m).1 i]?.bind env.valueInfo).map TensorInfo.dims).getD []).length

theorem compile_spec {decode : UInt32 → Rat} {env : MatchEnv Rat} {s : FusedGraph}
    {m : PatternMatch Rat} {k : KernelState} (h : compile decode env s m = some k) :
    (∀ i, k.transposes i = { transposeFlags m i.side with
      isTransBatch := (transposeFlags m i.side).isTransBatch &&
        !(((transposeFlags m Input.a.side).isTransBatch ||
          (transposeFlags m Input.b.side).isTransBatch) &&
            batchDisabled (inputRank env s m)) }) ∧
      k.alpha = scaleAlpha env m ∧ k.activation = detectActivation m ∧
      k.attrs = s.nodes.foldl (readActivationAttrs decode) {} ∧
      k.graphInputIdx = (s.resolve m).1 ∧
      k.initializer = (s.resolve m).2.map (fun i => (i, s.matmulInput i)) ∧
      ∀ i, (s.resolve m).2 = some i → (env.initializers (s.matmulInput i)).isSome := by
  unfold compile at h
  dsimp only at h
  simp only [Option.ite_none_left_eq_some, Option.some.injEq] at h
  obtain ⟨-, -, hinit, -, rfl⟩ := h
  refine ⟨fun i => rfl, rfl, rfl, rfl, rfl, rfl, fun i hi => ?_⟩
  rw [hi] at hinit
  simpa [Option.isSome_iff_ne_none] using hinit

/-- A fused graph in which both operands resolve, and not both to initializers that are no inputs,
binds them. An operand that is an input has its rank read. -/
theorem operand_of_resolves {decode : UInt32 → Rat} {env : MatchEnv Rat} {s : FusedGraph}
    {m : PatternMatch Rat} {k : KernelState} (h : compile decode env s m = some k)
    {w : Input → String} (hw : ∀ i, Resolves env s m i (w i))
    (hone : ∃ i, s.operandIdx m i ≠ none)
    (hinit : ∀ i, s.operandIdx m i = none → (env.initializers (s.matmulInput i)).isSome →
      s.matmulInput i = w i) (i : Input) :
    k.operand s i = some (w i) ∧
      (s.operandIdx m i ≠ none → inputRank env s m i = env.rank (w i)) ∧
      (s.operandIdx m i = none → (env.initializers (s.matmulInput i)).isSome) := by
  obtain ⟨-, -, -, -, hidx, hinitializer, hfound⟩ := compile_spec h
  have hrank : ∀ idx, (s.resolve m).1 i = idx → s.inputs[idx]? = some (w i) →
      inputRank env s m i = env.rank (w i) := by
    rintro idx rfl hinput
    rw [inputRank, hinput, Option.bind_some, MatchEnv.rank]
    cases env.valueInfo (w i) <;> rfl
  rcases hw .a with ⟨idxA, hidxA, hinputA⟩ | ⟨hidxA, -⟩
  · rcases hw .b with ⟨idxB, hidxB, hinputB⟩ | ⟨hidxB, -⟩
    · have hresolve : s.resolve m = (Input.pick idxA idxB, none) := by
        rw [FusedGraph.resolve, hidxA, hidxB]
      rw [hresolve] at hidx hinitializer hrank
      rw [KernelState.operand, hinitializer, hidx]
      cases i with
      | a =>
        exact ⟨hinputA, fun _ => hrank idxA rfl hinputA,
          fun hnone => nomatch hidxA.symm.trans hnone⟩
      | b =>
        exact ⟨hinputB, fun _ => hrank idxB rfl hinputB,
          fun hnone => nomatch hidxB.symm.trans hnone⟩
    · have hresolve : s.resolve m =
          (Input.pick idxA (if 2 ≤ s.inputs.length then 1 else 0), some .b) := by
        rw [FusedGraph.resolve, hidxA, hidxB]
      rw [hresolve] at hidx hinitializer hrank hfound
      rw [KernelState.operand, hinitializer, hidx]
      cases i with
      | a =>
        exact ⟨hinputA, fun _ => hrank idxA rfl hinputA,
          fun hnone => nomatch hidxA.symm.trans hnone⟩
      | b => exact ⟨congrArg some (hinit .b hidxB (hfound .b rfl)), fun hne => absurd hidxB hne,
        fun _ => hfound .b rfl⟩
  · rcases hw .b with ⟨idxB, hidxB, hinputB⟩ | ⟨hidxB, -⟩
    · have hresolve : s.resolve m = (Input.pick 0 idxB, some .a) := by
        rw [FusedGraph.resolve, hidxA, hidxB]
      rw [hresolve] at hidx hinitializer hrank hfound
      rw [KernelState.operand, hinitializer, hidx]
      cases i with
      | a => exact ⟨congrArg some (hinit .a hidxA (hfound .a rfl)), fun hne => absurd hidxA hne,
        fun _ => hfound .a rfl⟩
      | b =>
        exact ⟨hinputB, fun _ => hrank idxB rfl hinputB,
          fun hnone => nomatch hidxB.symm.trans hnone⟩
    · obtain ⟨j, hj⟩ := hone
      cases j with
      | a => exact absurd hidxA hj
      | b => exact absurd hidxB hj

/-- The flags that are left of those of a transpose, when its operand has this rank. -/
def usedInfo (t : Node) (rank : Nat) : TransposeInfo :=
  { transposeInfoOf t with
    isTransBatch := (transposeInfoOf t).isTransBatch &&
      decide (rank = (getAttributeInts t "perm").length) }

def Input.other : Input → Input
  | .a => .b
  | .b => .a

theorem batchDisabled_eq {rank : Input → Nat} {i : Input} {r : Nat} (hother : rank i.other = r)
    (hr : 3 ≤ r) : batchDisabled rank = !decide (rank i = r) := by
  have hiff : (rank .a < 3 ∨ rank .a ≠ rank .b) ↔ ¬ rank i = r := by
    cases i with
    | a =>
      have hb : rank .b = r := hother
      omega
    | b =>
      have ha : rank .a = r := hother
      omega
  rw [batchDisabled, ← decide_not]
  exact decide_eq_decide.2 hiff

namespace Setting

variable {env : MatchEnv Rat} {g : Graph} {c : Candidate Rat} {b : Branches}
  {trans : Input → Option Node} {acts : List (String × Node)} {v : Input → String} {y : String}
  {i : Input} {t : Node} {s : FusedGraph} {decode : UInt32 → Rat} {k : KernelState}

/-- What a batch transpose that is recorded knows of the other input. -/
theorem other_rank (h : Setting env g c b trans acts v y) (ht : trans i = some t)
    (hbatch : (transposeInfoOf t).isTransBatch = true) :
    env.rank (v i.other) = (getAttributeInts t "perm").length ∧
      3 ≤ (getAttributeInts t "perm").length := by
  have hrefuses := h.found.trans_rank i t ht hbatch
  have hslot : b.matmul.inputs[i.side.otherSide]? = some (some (v i.other)) := by
    rw [← h.input_eq i.other]
    cases i <;> rfl
  rw [refusesBatch, hslot] at hrefuses
  simp only [Option.map_some, Option.getD_some, decide_eq_false_iff_not, not_or, not_not]
    at hrefuses
  omega

/-- The two ways in which an input of the `MatMul` is read. -/
theorem operand_cases (h : Setting env g c b trans acts v y)
    (hs : s.Of env (c.group (buildGraphConnectivity g))) (i : Input) :
    ∃ w t, Operates (c.group (buildGraphConnectivity g)) b.matmul i w t ∧
      Resolves env s c.found i w ∧
      ((t = none ∧ w = v i ∧
          ∀ t', trans i = some t' → t' ∉ c.group (buildGraphConnectivity g)) ∨
        ∃ t', t = some t' ∧ trans i = some t' ∧ t' ∈ c.group (buildGraphConnectivity g) ∧
          t'.inputs = [some w]) := by
  cases Classical.em (∃ t, trans i = some t ∧ t ∈ c.group (buildGraphConnectivity g)) with
  | inl hin =>
    obtain ⟨t, ht, hgroup⟩ := hin
    obtain ⟨-, hop, hout, w, hw⟩ := h.trans_spec ht
    exact ⟨w, some t, .transposed (h.input_eq i) hgroup hop hw hout (h.source_outside ht hw),
      h.resolves_transposed hs ht hgroup hw, Or.inr ⟨t, rfl, ht, hgroup, hw⟩⟩
  | inr hout =>
    have hnot : ∀ t, trans i = some t → t ∉ c.group (buildGraphConnectivity g) :=
      fun t ht hgroup => hout ⟨t, ht, hgroup⟩
    exact ⟨v i, none, .direct (h.input_eq i) (h.direct hnot), h.resolves_direct hs hnot,
      Or.inl ⟨rfl, rfl, hnot⟩⟩

/-- A value that is written is no initializer. -/
theorem not_initializer (h : Setting env g c b trans acts v y) {n : Node} {w : String}
    (hn : n ∈ g.nodes) (hout : n.outputs = [some w]) : ¬ (env.initializers w).isSome := fun hinit =>
  h.model.unwritten w hinit (mem_written hn hout)

/-- The input that a node outside the match produces. -/
theorem exists_runtime (h : Setting env g c b trans acts v y) :
    ∃ i, trans i = none ∧ ¬ (env.initializers (v i)).isSome := by
  obtain ⟨i, p, hp, hout⟩ := h.runtime
  refine ⟨i, ?_, fun hinit => ?_⟩
  · rw [Option.eq_none_iff_forall_not_mem]
    intro t ht
    obtain ⟨hmem, -, hwrites, -⟩ := h.trans_spec ht
    have hpt : p = t := Graph.producer_unique (mem_nodes_of_producer hp) hmem
      (mem_outputNames_of_producer hp) (Node.mem_outputNames.2 (by simp [hwrites]))
    exact hout (h.mem_matched.2 (Or.inr (Or.inl ⟨i, hpt ▸ ht⟩)))
  · exact h.model.unwritten _ hinit (List.mem_flatMap.2
      ⟨p, mem_nodes_of_producer hp, mem_outputNames_of_producer hp⟩)

theorem kernel_operands (h : Setting env g c b trans acts v y)
    (hs : s.Of env (c.group (buildGraphConnectivity g)))
    (hk : compile decode env s c.found = some k) :
    ∃ (w : Input → String) (t : Input → Option Node), ∀ i,
      Operates (c.group (buildGraphConnectivity g)) b.matmul i (w i) (t i) ∧
      k.operand s i = some (w i) ∧
      ((t i = none ∧ w i = v i ∧
          ∀ t', trans i = some t' → t' ∉ c.group (buildGraphConnectivity g)) ∨
        ∃ t', t i = some t' ∧ trans i = some t' ∧ t' ∈ c.group (buildGraphConnectivity g) ∧
          t'.inputs = [some (w i)]) ∧
      (trans i = none → k.transposes i = {}) ∧
      ∀ t', trans i = some t' → k.transposes i = usedInfo t' (env.rank (w i)) := by
  choose w t hoper hres hcase using h.operand_cases hs
  have hdirect : ∀ i, trans i = none → w i = v i := by
    intro i hi
    rcases hcase i with ⟨-, hw, -⟩ | ⟨t', -, ht', -⟩
    · exact hw
    · exact nomatch hi.symm.trans ht'
  obtain ⟨r, hr, hruntime⟩ := h.exists_runtime
  have hone : s.operandIdx c.found r ≠ none := by
    intro hnone
    rcases hres r with ⟨idx, hidx, -⟩ | ⟨-, hinit⟩
    · exact nomatch hidx.symm.trans hnone
    · exact hruntime (hdirect r hr ▸ hinit)
  have hinit : ∀ i, s.operandIdx c.found i = none →
      (env.initializers (s.matmulInput i)).isSome → s.matmulInput i = w i := by
    intro i _ hinit
    rw [h.matmulInput_eq hs i] at hinit ⊢
    rcases hcase i with ⟨-, hw, -⟩ | ⟨t', -, ht', -⟩
    · exact hw.symm
    · obtain ⟨hmem, -, hout, -⟩ := h.trans_spec ht'
      exact absurd hinit (h.not_initializer hmem hout)
  have hkernel := operand_of_resolves hk hres ⟨r, hone⟩ hinit
  refine ⟨w, t, fun i => ⟨hoper i, (hkernel i).1, hcase i, fun hnone => ?_, fun t' ht' => ?_⟩⟩
  · rw [(compile_spec hk).1 i, h.found.flags i, hnone]
    rfl
  · have hother : trans i.other = none := by
      rw [Option.eq_none_iff_forall_not_mem]
      intro t'' ht''
      have heq := h.trans_unique ht' ht''
      cases i <;> cases heq
    obtain rfl : r = i.other := by
      cases i <;> cases r <;> first | rfl | exact nomatch hr.symm.trans ht'
    have hflags : ((transposeFlags c.found Input.a.side).isTransBatch ||
        (transposeFlags c.found Input.b.side).isTransBatch) =
          (transposeInfoOf t').isTransBatch := by
      have hown := h.found.flags i
      have hnone := h.found.flags i.other
      rw [ht'] at hown
      rw [hother] at hnone
      cases i with
      | a =>
        rw [hown, show transposeFlags c.found Input.b.side = {} from hnone]
        exact Bool.or_false _
      | b =>
        rw [hown, show transposeFlags c.found Input.a.side = {} from hnone]
        exact Bool.false_or _
    rw [(compile_spec hk).1 i, hflags, h.found.flags i, ht', usedInfo]
    cases hbatch : (transposeInfoOf t').isTransBatch with
    | false => simp [hbatch]
    | true =>
      obtain ⟨hrank, hthree⟩ := h.other_rank ht' hbatch
      have hown : s.operandIdx c.found i ≠ none := by
        intro hnone
        have hinit := (hkernel i).2.2 hnone
        obtain ⟨hmem, -, hout, -⟩ := h.trans_spec ht'
        rw [h.matmulInput_eq hs i] at hinit
        exact h.not_initializer hmem hout hinit
      have hreadOther : inputRank env s c.found i.other = (getAttributeInts t' "perm").length := by
        rw [(hkernel i.other).2.1 hone, hdirect _ hother, hrank]
      rw [batchDisabled_eq hreadOther hthree, (hkernel i).2.1 hown]
      simp [hbatch]

/-- The rank that the model gives to the values of a transpose. -/
theorem exists_rank (h : Setting env g c b trans acts v y) {w : String} (ht : trans i = some t)
    (hin : t.inputs = [some w]) :
    ∃ r, CanHaveRank env w (some t) r ∧ (env.rank (v i) = 0 ∨ env.rank (v i) = r) := by
  obtain ⟨hmem, hop, hout, -⟩ := h.trans_spec ht
  obtain ⟨r, hperm, hrank⟩ := h.model.transposes t hmem hop
  exact ⟨r, ⟨hrank w (Or.inl (by simp [hin])), hperm⟩, hrank (v i) (Or.inr (by simp [hout]))⟩

/-- A transpose of the group is carried out unless its batch part is switched off. -/
theorem absorbed_iff (h : Setting env g c b trans acts v y) {w : String} (ht : trans i = some t)
    (hin : t.inputs = [some w]) :
    (∀ r, CanHaveRank env w (some t) r →
        ((usedInfo t (env.rank w)).apply (List.range r)).map Int.ofNat = axes (some t) r) ↔
      ((transposeInfoOf t).isTransBatch = true → env.rank w ≠ 0) := by
  have htaken := h.found.taken.trans i (h.found.trans_taken i t ht)
  have hinfo := h.found.trans_info i t ht
  constructor
  · intro hperm hbatch hzero
    obtain ⟨r, hr, -⟩ := h.exists_rank ht hin
    obtain ⟨haxes, htwo, hlength, hthree⟩ := axes_eq htaken hinfo hin hr
    have happly := hperm r hr
    rw [haxes] at happly
    have hused := apply_range_inj htwo (fun _ => (hthree hbatch).1) (fun _ => (hthree hbatch).1)
      (Int.ofNat_injective.list_map happly)
    have hflag := congrArg TransposeInfo.isTransBatch hused
    rw [usedInfo, hbatch, hzero, hlength (hthree hbatch).2] at hflag
    have hpos : 0 = r := by simpa using hflag
    omega
  · intro hrank r hr
    obtain ⟨haxes, -, hlength, hthree⟩ := axes_eq htaken hinfo hin hr
    have hused : usedInfo t (env.rank w) = transposeInfoOf t := by
      rw [usedInfo]
      cases hbatch : (transposeInfoOf t).isTransBatch with
      | false => rw [Bool.false_and, ← hbatch]
      | true =>
        have hknown := hr.1.resolve_left (hrank hbatch)
        rw [hknown, hlength (hthree hbatch).2, decide_eq_true rfl, Bool.and_true, ← hbatch]
    rw [hused, haxes]

/-- A transpose in front of the group is carried out again, as far as its batch part is not switched
off. -/
theorem excluded_iff (h : Setting env g c b trans acts v y) {w : String} (ht : trans i = some t)
    (hin : t.inputs = [some w]) :
    (∀ r, CanHaveRank env (v i) none r →
        ((usedInfo t (env.rank (v i))).apply (List.range r)).map Int.ofNat = axes none r) ↔
      (transposeInfoOf t).isTrans = false ∧
        ((transposeInfoOf t).isTransBatch = true → env.rank (v i) = 0) := by
  have htaken := h.found.taken.trans i (h.found.trans_taken i t ht)
  have hinfo := h.found.trans_info i t ht
  constructor
  · intro hperm
    obtain ⟨r, hr, hrank⟩ := h.exists_rank ht hin
    obtain ⟨-, htwo, hlength, hthree⟩ := axes_eq htaken hinfo hin hr
    have happly := Int.ofNat_injective.list_map (hperm r ⟨hrank, .refl _⟩)
    have hused : usedInfo t (env.rank (v i)) = {} := by
      refine apply_range_inj htwo (fun hbatch => (hthree ?_).1) nofun happly
      exact (Bool.and_eq_true_iff.1 hbatch).1
    refine ⟨congrArg TransposeInfo.isTrans hused, fun hbatch => ?_⟩
    have hflag := congrArg TransposeInfo.isTransBatch hused
    rw [usedInfo, hbatch, hlength (hthree hbatch).2] at hflag
    exact hrank.resolve_right (by simpa using hflag)
  · rintro ⟨htrans, hbatch⟩ r -
    have hused : usedInfo t (env.rank (v i)) = {} := by
      rw [usedInfo, htrans]
      cases hflag : (transposeInfoOf t).isTransBatch with
      | false => rfl
      | true =>
        obtain ⟨-, hthree⟩ := h.other_rank ht hflag
        rw [hbatch hflag, decide_eq_false (by omega), Bool.and_false]
    rw [hused]
    rfl

/-- An input is read in one way. -/
theorem operates_unique (h : Setting env g c b trans acts v y) {w w' : String}
    {t t' : Option Node} (hw : Operates (c.group (buildGraphConnectivity g)) b.matmul i w t)
    (hw' : Operates (c.group (buildGraphConnectivity g)) b.matmul i w' t') : w = w' ∧ t = t' := by
  have hnode : ∀ n ∈ c.group (buildGraphConnectivity g), n ∈ g.nodes := fun n hn =>
    h.wf.nodes n (group_sub hn)
  cases hw with
  | direct hv hout =>
    cases hw' with
    | direct hv' hout' =>
      obtain rfl := Option.some.inj (Option.some.inj (hv.symm.trans hv'))
      exact ⟨rfl, rfl⟩
    | transposed hv' hgroup' hop' hin' hwrites' hout' =>
      obtain rfl := Option.some.inj (Option.some.inj (hv.symm.trans hv'))
      exact absurd (Node.mem_outputNames.2 (by simp [hwrites'])) (hout _ hgroup')
  | transposed hv hgroup hop hin hwrites hout =>
    cases hw' with
    | direct hv' hout' =>
      obtain rfl := Option.some.inj (Option.some.inj (hv.symm.trans hv'))
      exact absurd (Node.mem_outputNames.2 (by simp [hwrites])) (hout' _ hgroup)
    | transposed hv' hgroup' hop' hin' hwrites' hout' =>
      obtain rfl := Option.some.inj (Option.some.inj (hv.symm.trans hv'))
      obtain rfl := producer_of_outputs (hnode _ hgroup) (hnode _ hgroup') hwrites hwrites'
      obtain rfl : w = w' := by simpa [hin] using hin'
      exact ⟨rfl, rfl⟩

/-- The kernel reads its operands where the `MatMul` reads them, in the same order of the axes,
exactly when no transpose is lost and none is carried out twice. -/
theorem operands_iff (h : Setting env g c b trans acts v y)
    (hs : s.Of env (c.group (buildGraphConnectivity g)))
    (hk : compile decode env s c.found = some k) :
    (∀ i, ∃ w t, Operates (c.group (buildGraphConnectivity g)) b.matmul i w t ∧
        k.operand s i = some w ∧ ∀ r, CanHaveRank env w t r →
          ((k.transposes i).apply (List.range r)).map Int.ofNat = axes t r) ↔
      (∀ (i : Input) (t : Node), c.found.nodeIndices i.side.idxKey = some t →
        t ∈ c.group (buildGraphConnectivity g) → (transposeInfoOf t).isTransBatch = true →
          ∀ w, t.inputs = [some w] → env.rank w ≠ 0) ∧
      ∀ (i : Input) (t : Node), c.found.nodeIndices i.side.idxKey = some t →
        t ∉ c.group (buildGraphConnectivity g) → (transposeInfoOf t).isTrans = false ∧
          ((transposeInfoOf t).isTransBatch = true →
            ∀ v, t.outputs = [some v] → env.rank v = 0) := by
  obtain ⟨w, t, hkernel⟩ := h.kernel_operands hs hk
  have hunique : (∀ i, ∃ w t, Operates (c.group (buildGraphConnectivity g)) b.matmul i w t ∧
      k.operand s i = some w ∧ ∀ r, CanHaveRank env w t r →
        ((k.transposes i).apply (List.range r)).map Int.ofNat = axes t r) ↔
      ∀ i r, CanHaveRank env (w i) (t i) r →
        ((k.transposes i).apply (List.range r)).map Int.ofNat = axes (t i) r := by
    refine forall_congr' fun i =>
      ⟨?_, fun hperm => ⟨w i, t i, (hkernel i).1, (hkernel i).2.1, hperm⟩⟩
    rintro ⟨w', t', hoper, -, hperm⟩
    obtain ⟨rfl, rfl⟩ := h.operates_unique hoper (hkernel i).1
    exact hperm
  rw [hunique]
  simp only [h.found.trans_node]
  constructor
  · intro hperm
    refine ⟨fun i t' ht hgroup => ?_, fun i t' ht hout => ?_⟩
    · obtain ⟨-, -, hcase, -, hused⟩ := hkernel i
      have hperm := hperm i
      rw [hused t' ht] at hperm
      rcases hcase with ⟨-, -, hnot⟩ | ⟨t'', ht'', hcaptured, -, hin⟩
      · exact absurd hgroup (hnot t' ht)
      · obtain rfl : t' = t'' := Option.some.inj (ht.symm.trans hcaptured)
        rw [ht''] at hperm
        intro hbatch w' hw'
        obtain rfl : w i = w' := by simpa [hin] using hw'
        exact (h.absorbed_iff ht hin).1 hperm hbatch
    · obtain ⟨-, -, hcase, -, hused⟩ := hkernel i
      have hperm := hperm i
      rw [hused t' ht] at hperm
      obtain ⟨-, -, hwrites, w', hin⟩ := h.trans_spec ht
      rcases hcase with ⟨hnone, hw, -⟩ | ⟨t'', -, hcaptured, hgroup, -⟩
      · rw [hnone, hw] at hperm
        obtain ⟨htrans, hbatch⟩ := (h.excluded_iff ht hin).1 hperm
        refine ⟨htrans, fun hflag v' hv' => ?_⟩
        obtain rfl : v i = v' := by simpa [hwrites] using hv'
        exact hbatch hflag
      · exact absurd (Option.some.inj (ht.symm.trans hcaptured) ▸ hgroup) hout
  · rintro ⟨habsorbed, hexcluded⟩ i
    obtain ⟨-, -, hcase, hnone, hused⟩ := hkernel i
    rcases hcase with ⟨htnone, hw, hnot⟩ | ⟨t', ht', hcaptured, hgroup, hin⟩
    · rw [htnone, hw]
      cases ht : trans i with
      | none =>
        intro r _
        rw [hnone ht]
        rfl
      | some t' =>
        obtain ⟨-, -, hwrites, w', hin⟩ := h.trans_spec ht
        obtain ⟨htrans, hbatch⟩ := hexcluded i t' ht (hnot t' ht)
        rw [hused t' ht, hw]
        exact (h.excluded_iff ht hin).2 ⟨htrans, fun hflag => hbatch hflag _ hwrites⟩
    · rw [ht', hused t' hcaptured]
      exact (h.absorbed_iff hcaptured hin).2 fun hbatch =>
        habsorbed i t' hcaptured hgroup hbatch _ hin

end Setting

end AmdGpuEp.DirectML.FusedMatMul
