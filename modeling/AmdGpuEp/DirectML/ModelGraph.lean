import AmdGpuEp.DirectML.FusionManager
import AmdGpuEp.Lib.Dataflow

/-!
# What a model gives to the fusion rules

A pattern looks at the slots of single nodes. That a node with an operator has
the inputs and outputs of the operator, and that an initializer is written by no
node, is given by the model.

Results:
1. `producer_of_outputs`, `outputs_of_producer`: a value and the node that writes it.
2. `onlyConsumer_spec`: the single consumer of a node reads it.
3. `isTerminal_eq_false`, `terminal_of_leads`: a node that a matched node reads is not
   terminal, and one that all of them lead to is.
4. `exists_run_of_chain`: nodes that feed one another run on any values of the others.
-/

namespace AmdGpuEp.DirectML

variable {F : Type}

/-- The arities that ONNX gives to operators with one input, and to operators with two. -/
structure HasSchema (unaryOps binaryOps : List String) (n : Node) : Prop where
  unary : n.opType ∈ unaryOps → ∃ a o, n.inputs = [some a] ∧ n.outputs = [some o]
  binary : n.opType ∈ binaryOps → ∃ a b o, n.inputs = [some a, some b] ∧ n.outputs = [some o]

/-- What a model gives to the provider: no cycle, nodes with the arities of their operators, and
initializers that no node writes. -/
structure ModelGraph (unaryOps binaryOps : List String) (env : MatchEnv F) (g : Graph) : Prop where
  acyclic : Acyclic g.Dep
  schema : ∀ n ∈ g.nodes, HasSchema unaryOps binaryOps n
  unwritten : ∀ v, (env.initializers v).isSome → v ∉ g.written

theorem isSome_of_read {env : MatchEnv F} {v : F} {name : String}
    (h : (env.initializers name).bind tryReadScalarFloat = some v) :
    (env.initializers name).isSome := by
  obtain ⟨val, hval, -⟩ := Option.bind_eq_some_iff.1 h
  rw [hval]
  rfl

/-- `n` reads `v` and `w`, in one order or the other. -/
def Reads (n : Node) (v w : String) : Prop :=
  n.inputs = [some v, some w] ∨ n.inputs = [some w, some v]

theorem reads_of_mem {n : Node} {a b v w : String} (hin : n.inputs = [some a, some b])
    (hv : some v ∈ n.inputs) (hw : some w ∈ n.inputs) (hne : v ≠ w) : Reads n v w := by
  rw [hin] at hv hw
  simp only [List.mem_cons, Option.some.injEq, List.not_mem_nil, or_false] at hv hw
  rcases hv with rfl | rfl
  · rcases hw with rfl | rfl
    · exact absurd rfl hne
    · exact Or.inl hin
  · rcases hw with rfl | rfl
    · exact Or.inr hin
    · exact absurd rfl hne

section

variable {g : Graph}

/-! ## Values and their producers -/

theorem mem_written {n : Node} {v : String} (hn : n ∈ g.nodes) (hv : n.outputs = [some v]) :
    v ∈ g.written :=
  List.mem_flatMap.2 ⟨n, hn, Node.mem_outputNames.2 (by simp [hv])⟩

theorem ne_empty_of_outputs {n : Node} {v : String} (hn : n ∈ g.nodes)
    (hv : n.outputs = [some v]) : v ≠ "" :=
  ne_empty_of_output hn (Node.mem_outputNames.2 (by simp [hv]))

theorem producer_of_outputs {p n : Node} {v : String} (hp : p ∈ g.nodes) (hn : n ∈ g.nodes)
    (hpv : p.outputs = [some v]) (hnv : n.outputs = [some v]) : p = n :=
  Graph.producer_unique (v := v) hp hn (Node.mem_outputNames.2 (by simp [hpv]))
    (Node.mem_outputNames.2 (by simp [hnv]))

/-- The producer of a listed value, when it has one output. -/
theorem outputs_of_producer {n : Node} {v o : String}
    (h : (buildGraphConnectivity g).producerMap v = some n) (hout : n.outputs = [some o]) :
    n.outputs = [some v] := by
  have hmem := Node.mem_outputNames.1 (mem_outputNames_of_producer h)
  rw [hout, List.mem_singleton] at hmem
  rw [hout, hmem]

/-! ## Readers -/

/-- `n` reads the only output of `p`. -/
def Feeds (g : Graph) (p n : Node) : Prop :=
  p ∈ g.nodes ∧ n ∈ g.nodes ∧ ∃ v, p.outputs = [some v] ∧ some v ∈ n.inputs

theorem Feeds.dep {p n : Node} (h : Feeds g p n) : g.Dep p n := by
  obtain ⟨hp, hn, v, hpv, hin⟩ := h
  exact ⟨hp, hn, v, Node.mem_outputNames.2 (by simp [hpv]), Node.uses_pos.2 (Or.inl hin)⟩

theorem dep_of_slots {p n : Node} {v : String} (hp : p ∈ g.nodes) (hn : n ∈ g.nodes)
    (hpv : p.outputs = [some v]) (hin : some v ∈ n.inputs) : g.Dep p n :=
  Feeds.dep ⟨hp, hn, v, hpv, hin⟩

/-- The only listed consumer of the first output of a node. -/
def onlyConsumer (gc : GraphConnectivity) (n : Node) : Option Node :=
  (getNodeOutputNames n)[0]?.bind fun v =>
    if gc.hasSingleConsumer v then (gc.consumerMap v).head? else none

/-- It reads the output of a node with one output. -/
theorem onlyConsumer_spec {n c : Node} {o : String} (hout : n.outputs = [some o])
    (h : onlyConsumer (buildGraphConnectivity g) n = some c) :
    c ∈ g.nodes ∧ some o ∈ c.inputs := by
  have hv : (getNodeOutputNames n)[0]? = some o := by simp [getNodeOutputNames, hout]
  rw [onlyConsumer, hv, Option.bind_some] at h
  split at h
  · obtain ⟨hne, hc, hin⟩ := mem_consumerMap.1 (List.mem_of_mem_head? h)
    exact ⟨hc, (mem_getNodeInputNames hne).1 hin⟩
  · cases h

/-- There is no other one. -/
theorem eq_of_onlyConsumer {n c d : Node} {o : String} (hout : n.outputs = [some o])
    (h : onlyConsumer (buildGraphConnectivity g) n = some c)
    (hd : d ∈ (buildGraphConnectivity g).consumerMap o) : d = c := by
  have hv : (getNodeOutputNames n)[0]? = some o := by simp [getNodeOutputNames, hout]
  rw [onlyConsumer, hv, Option.bind_some] at h
  split at h
  · next hone =>
    rw [GraphConnectivity.hasSingleConsumer, Bool.and_eq_true, beq_iff_eq] at hone
    obtain ⟨c', hc'⟩ := List.length_eq_one_iff.1 hone.2
    rw [hc'] at h hd
    rw [List.mem_singleton.1 hd]
    exact Option.some.inj h
  · cases h

/-- A node that every node of `matched` leads to is terminal. -/
theorem terminal_of_leads (hacyclic : Acyclic g.Dep) {matched : List Node} {n : Node}
    (hn : n ∈ g.nodes) (hleads : ∀ d ∈ matched, Relation.ReflTransGen g.Dep d n) :
    isTerminal (buildGraphConnectivity g) matched n = true := by
  by_contra hterm
  obtain ⟨w, hw, d, hd, hdm, -⟩ := FusionManagerLemmas.consumer_of_not_terminal
    (Bool.eq_false_of_not_eq_true hterm)
  exact hacyclic n (.head' (dep_of_consumer hn hw hd) (hleads d hdm))

theorem isTerminal_eq_false (hacyclic : Acyclic g.Dep) {matched : List Node} {p n : Node}
    (h : Feeds g p n) (hmem : n ∈ matched) :
    isTerminal (buildGraphConnectivity g) matched p = false := by
  have hne : n ≠ p := by
    rintro rfl
    exact hacyclic n (.single h.dep)
  obtain ⟨hp, hn, v, hpv, hin⟩ := h
  have hv := ne_empty_of_outputs hp hpv
  have hcons : n ∈ (buildGraphConnectivity g).consumerMap v :=
    mem_consumerMap.2 ⟨hv, hn, (mem_getNodeInputNames hv).2 hin⟩
  rw [isTerminal, List.all_eq_false]
  refine ⟨v, by simp [getNodeOutputNames, hpv], ?_⟩
  rw [Bool.not_eq_true, List.all_eq_false]
  exact ⟨n, hcons, by simp [hmem, hne]⟩

/-! ## Runs -/

/-- Nodes with one output each, every one of which feeds the next, have a run from any values of the
other values. -/
theorem exists_run_of_chain {A : Type*} (hacyclic : Acyclic g.Dep) {l : List Node}
    (hchain : l.IsChain (Feeds g)) (hnodup : l.Nodup)
    (houtputs : ∀ n ∈ l, n ∈ g.nodes ∧ ∃ o, n.outputs = [some o])
    (f : Node → (String → A) → A)
    (hf : ∀ n ρ ρ', (∀ v ∈ n.inputs.reduceOption, ρ v = ρ' v) → f n ρ = f n ρ')
    (ρ₀ : String → A) :
    ∃ ρ : String → A, (∀ n ∈ l, ∀ o, n.outputs = [some o] → ρ o = f n ρ) ∧
      ∀ v, (∀ n ∈ l, n.outputs ≠ [some v]) → ρ v = ρ₀ v := by
  have hwrites : ∀ (n : Node) o, n.outputs = [some o] → n.outputNames.headD "" = o := by
    intro n o hout
    simp [Node.outputNames, hout, List.reduceOption]
  have hdep : ∀ p n, p ∈ l → n ∈ l →
      p.outputNames.headD "" ∈ n.inputs.reduceOption → g.Dep p n := by
    intro p n hp hn hin
    obtain ⟨hpMem, o, hout⟩ := houtputs p hp
    rw [hwrites p o hout, List.reduceOption_mem_iff] at hin
    exact dep_of_slots hpMem (houtputs n hn).1 hout hin
  have horder : l.Pairwise fun p n => n.outputNames.headD "" ∉ p.inputs.reduceOption := by
    have htrans : l.IsChain (Relation.TransGen g.Dep) := hchain.imp fun _ _ h => .single h.dep
    refine (List.isChain_iff_pairwise.1 htrans).imp_of_mem fun hp hn hpath hin => ?_
    exact hacyclic _ (hpath.tail (hdep _ _ hn hp hin))
  have hdistinct : (l.map fun n => n.outputNames.headD "").Nodup := by
    have hflat := Graph.written_nodup hnodup fun n hn => (houtputs n hn).1
    rw [← List.flatMap_pure_eq_map]
    convert hflat using 1
    refine List.flatMap_congr fun n hn => ?_
    obtain ⟨-, o, hout⟩ := houtputs n hn
    simp [Node.outputNames, hout, List.reduceOption]
  obtain ⟨ρ, hρ, hframe⟩ := exists_evaluation (fun n : Node => n.outputNames.headD "")
    (fun n => n.inputs.reduceOption) f hf hdistinct
    (fun n hn hin => hacyclic n (.single (hdep n n hn hn hin))) horder ρ₀
  refine ⟨ρ, fun n hn o hout => ?_, fun v hv => hframe v ?_⟩
  · rw [← hρ n hn, hwrites n o hout]
  · intro hmem
    obtain ⟨n, hn, rfl⟩ := List.mem_map.1 hmem
    obtain ⟨-, o, hout⟩ := houtputs n hn
    exact hv n hn (by rw [hwrites n o hout, hout])

end

end AmdGpuEp.DirectML
