import AmdGpuEp.DirectML.GraphWellFormed
import AmdGpuEp.Lib.Dataflow
import Mathlib.Logic.Function.Basic

/-!
# What a compiled DML graph computes

`Compile` replaces a group of ONNX nodes by one DML graph: nodes are expanded into
parts, elided or dropped, names are resolved behind their aliases and become edges,
small initializers become constants. Here the graph is executed, over any tensors
and any meaning of the operators, and compared with the nodes of the group run one
after the other.

Results:
1. `computed_walk`: when every translation computes its node, the maps of the walk
   are true of the tensors that the group writes.
2. `executes_unique`: a well-formed DML graph has at most one execution.
3. `compiled_computes`: the compiled graph of a connectable group has an execution
   and writes what the group writes.
-/

namespace AmdGpuEp.DirectML

open FullGraphLemmas

variable {D V : Type}

/-! ## Executions of a DML graph -/

/-- What DirectML does: the outputs of an operator for the tensors in its input slots, and the
tensor of a constant node. -/
structure DmlSemantics (D V : Type) where
  run : D → (Nat → Option V) → Nat → V
  constant : List UInt8 → V

def DmlSemantics.nodeValue (sem : DmlSemantics D V) (slots : Nat → Option V) :
    DmlNode D → Nat → V
  | .operator desc => sem.run desc slots
  | .constant data => fun _ => sem.constant data

/-- The tensor at the start of an edge. -/
def EdgeSource.value (inputs : Nat → V) (val : Nat → Nat → V) : EdgeSource → V
  | .graphInput index => inputs index
  | .node index output => val index output

namespace DmlGraphDesc

/-- The tensor in an input slot of a node. -/
def slotValue (desc : DmlGraphDesc D) (inputs : Nat → V) (val : Nat → Nat → V) (idx slot : Nat) :
    Option V :=
  (desc.edges.find? fun e => e.toNode == idx && e.toInput == slot).map fun e =>
    e.source.value inputs val

/-- Every node has written what it computes from its slots. -/
def Executes (sem : DmlSemantics D V) (desc : DmlGraphDesc D) (inputs : Nat → V)
    (val : Nat → Nat → V) : Prop :=
  ∀ idx node, desc.nodes[idx]? = some node →
    val idx = sem.nodeValue (desc.slotValue inputs val idx) node

/-- What a node writes when the nodes have written `val`. -/
def nodeStep (sem : DmlSemantics D V) (desc : DmlGraphDesc D) (inputs : Nat → V) (idx : Nat)
    (val : Nat → Nat → V) : Nat → V :=
  match desc.nodes[idx]? with
  | some node => sem.nodeValue (desc.slotValue inputs val idx) node
  | none => val idx

theorem Executes.eq_nodeStep {sem : DmlSemantics D V} {desc : DmlGraphDesc D} {inputs : Nat → V}
    {val : Nat → Nat → V} (hval : desc.Executes sem inputs val) (idx : Nat)
    (hidx : idx < desc.nodes.length) : val idx = desc.nodeStep sem inputs idx val := by
  simp only [nodeStep, List.getElem?_eq_getElem hidx]
  exact hval idx _ (List.getElem?_eq_getElem hidx)

/-- The tensor of a graph output. -/
def output (desc : DmlGraphDesc D) (val : Nat → Nat → V) (index : Nat) : Option V :=
  (desc.outputEdges.find? fun o => o.graphOutput == index).map fun o => val o.fromNode o.fromOutput

end DmlGraphDesc

/-! ## A compiled node on its own -/

namespace CompiledNode

/-- The operators of a compiled node, part by part. -/
def partDescs (cn : CompiledNode D) : List D :=
  cn.translated.opDesc :: cn.translated.subNodes.map SubNode.opDesc

/-- The tensor that a slot is given, from the tensors of the ONNX names and what the parts have
written. -/
def slotTensor (env : String → V) (parts : List (Nat → V)) : SlotValue → Option V
  | .named name => some (env name)
  | .inner part output => parts[part]?.map (· output)

def partInput (cn : CompiledNode D) (env : String → V) (parts : List (Nat → V))
    (part slot : Nat) : Option V :=
  (cn.requiredSlots.find? fun w => w.part == part && w.input == slot).bind fun w =>
    slotTensor env parts w.value

/-- The next part runs behind the parts that have run. -/
def runPart (sem : DmlSemantics D V) (cn : CompiledNode D) (env : String → V)
    (parts : List (Nat → V)) (desc : D) : List (Nat → V) :=
  parts ++ [sem.run desc (cn.partInput env parts parts.length)]

/-- What the parts write. -/
def runParts (sem : DmlSemantics D V) (cn : CompiledNode D) (env : String → V) : List (Nat → V) :=
  cn.partDescs.foldl (cn.runPart sem env) []

def outputTensor (sem : DmlSemantics D V) (cn : CompiledNode D) (env : String → V) (slot : Nat) :
    Option V :=
  ((cn.runParts sem env)[(cn.writer slot).1]?).map (· (cn.writer slot).2)

/-- A part reads parts before it only. -/
def PartsInOrder (cn : CompiledNode D) : Prop :=
  ∀ w ∈ cn.requiredSlots, ∀ part output, w.value = .inner part output → part < w.part

instance (cn : CompiledNode D) : Decidable cn.PartsInOrder :=
  decidable_of_iff
    (∀ w ∈ cn.requiredSlots, (match w.value with
      | .named _ => true
      | .inner part _ => decide (part < w.part)) = true)
    (forall₂_congr fun w _ => by cases w.value <;> simp)

end CompiledNode

/-! ## The group, node by node -/

/-- What an ONNX node computes: an output from the inputs, `none` for an omitted one. -/
abbrev NodeMeaning (V : Type) := Node → List (Option V) → Nat → V

def inputTensors (env : String → V) (node : Node) : List (Option V) :=
  (getNodeInputNames node).map fun name => if name = "" then none else some (env name)

/-- The outputs of a node are written. -/
def evalNode (meaning : NodeMeaning V) (env : String → V) (node : Node) : String → V :=
  (getNodeOutputNames node).zipIdx.foldl
    (fun env' entry =>
      if entry.1 = "" then env'
      else Function.update env' entry.1 (meaning node (inputTensors env node) entry.2))
    env

/-- The nodes run one after the other. -/
def evalNodes (meaning : NodeMeaning V) (env : String → V) (nodes : List Node) : String → V :=
  nodes.foldl (evalNode meaning) env

/-! ## Translations that compute their node -/

/-- The compiled node of a translation. -/
def compiledNode (node : Node) (translated : TranslatedOp D) : CompiledNode D where
  translated := translated
  inputNames := getNodeInputNames node
  outputNames := getNodeOutputNames node
  opType := node.opType

/-- The operators of the translation compute the outputs of the node from the tensors `env`; the
outputs of an elided node are its first input. -/
structure Implements (sem : DmlSemantics D V) (meaning : NodeMeaning V) (env : String → V)
    (node : Node) (translated : TranslatedOp D) : Prop where
  elided : translated.passthrough → ∃ src, (getNodeInputNames node).head? = some src ∧
    ∀ slot name, (getNodeOutputNames node)[slot]? = some name → name ≠ "" →
      meaning node (inputTensors env node) slot = env src
  computed : translated.passthrough = false → (compiledNode node translated).PartsInOrder ∧
    ∀ slot name, (getNodeOutputNames node)[slot]? = some name → name ≠ "" →
      (compiledNode node translated).outputTensor sem env slot =
        some (meaning node (inputTensors env node) slot)

/-- Each node of the group is computed by its translation, for the shapes that the walk gives it and
the tensors that the nodes before it have written. -/
def ImplementsGroup (sem : DmlSemantics D V) (meaning : NodeMeaning V) (world : String → V)
    (registry : OpTranslatorRegistry D) (sg : SubgraphInfo) (nodes : List Node) : Prop :=
  ∀ done node rest s translated, nodes = done ++ node :: rest →
    translateNodes registry sg done = some s →
    TranslationWalkLemmas.Translates registry sg.allInitializers s.valueShapes node translated →
    Implements sem meaning (evalNodes meaning world done) node translated

/-- No node of the group writes one of its inputs or initializers. -/
def SubgraphInfo.OutsideNodes (sg : SubgraphInfo) (nodes : List Node) : Prop :=
  ∀ name, name ∈ sg.graphInputs ∨ (sg.allInitializers name).isSome →
    ∀ node ∈ nodes, name ∉ getNodeOutputNames node

/-- The tensors that `Compute` binds to the DML inputs, and those of the constant nodes, are the
ones that the names outside have. -/
structure BindsOutside (sem : DmlSemantics D V) (t : Translation D) (sg : SubgraphInfo)
    (world : String → V) (inputs : Nat → V) : Prop where
  bound : ∀ name idx, (compileInputMap t sg).dmlInputMap.lookup name = some idx →
    inputs idx = world name
  inlined : ∀ entry ∈ (compileInputMap t sg).constantNodes, sem.constant entry.2 = world entry.1

namespace GraphMeaningLemmas

open TranslationWalkLemmas GraphWiringLemmas GraphWellFormedLemmas

variable {sem : DmlSemantics D V} {meaning : NodeMeaning V}

/-! ## One node of the group -/

/-- The last output under a name gives its tensor. -/
theorem evalNode_apply (env : String → V) (node : Node) {name : String} (hname : name ≠ "") :
    evalNode meaning env node name =
      (((getNodeOutputNames node).zipIdx.reverse.lookup name).map
        (meaning node (inputTensors env node))).getD (env name) := by
  unfold evalNode
  generalize meaning node (inputTensors env node) = write
  generalize (getNodeOutputNames node).zipIdx = entries
  induction entries using List.reverseRecOn with
  | nil => rfl
  | append_singleton entries entry ih =>
    obtain ⟨key, slot⟩ := entry
    rw [List.foldl_append, List.foldl_cons, List.foldl_nil, List.reverse_append,
      List.reverse_singleton, List.singleton_append, List.lookup_cons]
    by_cases hkey : name = key
    · subst hkey
      rw [if_neg hname, Function.update_self, beq_self_eq_true]
      rfl
    · rw [beq_false_of_ne hkey]
      split
      · exact ih
      · rw [Function.update_of_ne hkey]
        exact ih

theorem evalNode_of_not_mem {env : String → V} {node : Node} {name : String} (hname : name ≠ "")
    (hout : name ∉ getNodeOutputNames node) : evalNode meaning env node name = env name := by
  rw [evalNode_apply env node hname, List.lookup_eq_none_iff.2]
  · rfl
  · intro entry hentry
    rw [bne_iff_ne]
    rintro rfl
    exact hout (List.fst_mem_of_mem_zipIdx (List.mem_reverse.1 hentry))

theorem evalNodes_append (env : String → V) (done : List Node) (node : Node) :
    evalNodes meaning env (done ++ [node]) = evalNode meaning (evalNodes meaning env done) node := by
  rw [evalNodes, List.foldl_append]
  rfl

theorem evalNodes_of_not_mem {env : String → V} {nodes : List Node} {name : String}
    (hname : name ≠ "") (hout : ∀ node ∈ nodes, name ∉ getNodeOutputNames node) :
    evalNodes meaning env nodes name = env name := by
  induction nodes using List.reverseRecOn with
  | nil => rfl
  | append_singleton nodes node ih =>
    rw [evalNodes_append, evalNode_of_not_mem hname (hout node (by simp)),
      ih fun n hn => hout n (List.mem_append_left _ hn)]

/-! ## One compiled node -/

variable (sem) in
/-- Each part has written what it computes from what was there. -/
theorem foldl_runPart_spec (cn : CompiledNode D) (env : String → V) (descs : List D)
    (parts : List (Nat → V)) :
    ∃ more, descs.foldl (cn.runPart sem env) parts = parts ++ more ∧ more.length = descs.length ∧
      ∀ k desc, descs[k]? = some desc →
        more[k]? = some (sem.run desc
          (cn.partInput env (parts ++ more.take k) (parts.length + k))) := by
  induction descs generalizing parts with
  | nil => exact ⟨[], by simp⟩
  | cons d descs ih =>
    obtain ⟨more, heq, hlen, hmore⟩ := ih (cn.runPart sem env parts d)
    refine ⟨sem.run d (cn.partInput env parts parts.length) :: more, ?_, by simp [hlen], ?_⟩
    · rw [List.foldl_cons, heq, CompiledNode.runPart, List.append_assoc, List.singleton_append]
    · intro k desc hk
      cases k with
      | zero =>
        obtain rfl : d = desc := by simpa using hk
        simp
      | succ k =>
        have h := hmore k desc (by simpa using hk)
        simp only [CompiledNode.runPart, List.append_assoc, List.singleton_append,
          List.length_append, List.length_singleton] at h
        rw [List.getElem?_cons_succ, h, List.take_succ_cons, Nat.add_assoc, Nat.add_comm 1 k]

theorem length_partDescs (cn : CompiledNode D) : cn.partDescs.length = operatorCount cn := by
  simp [CompiledNode.partDescs, operatorCount, Nat.add_comm]

variable (sem) in
theorem length_runParts (cn : CompiledNode D) (env : String → V) :
    (cn.runParts sem env).length = operatorCount cn := by
  obtain ⟨more, heq, hlen, -⟩ := foldl_runPart_spec sem cn env cn.partDescs []
  rw [CompiledNode.runParts, heq, List.nil_append, hlen, length_partDescs]

/-- When parts read earlier parts only, a part reads what the parts write in the end. -/
theorem runParts_get {cn : CompiledNode D} (horder : cn.PartsInOrder) (env : String → V)
    {part : Nat} {desc : D} (hdesc : cn.partDescs[part]? = some desc) :
    (cn.runParts sem env)[part]? =
      some (sem.run desc (cn.partInput env (cn.runParts sem env) part)) := by
  obtain ⟨more, heq, hlen, hmore⟩ := foldl_runPart_spec sem cn env cn.partDescs []
  rw [List.nil_append] at heq
  rw [CompiledNode.runParts, heq, hmore part desc hdesc]
  congr 2
  funext slot
  unfold CompiledNode.partInput
  simp only [List.nil_append, List.length_nil, Nat.zero_add]
  refine Option.bind_congr fun w hw => ?_
  obtain ⟨hplace, -⟩ := List.find?_eq_some_iff_append.1 hw
  have hmem := List.mem_of_find?_eq_some hw
  rw [Bool.and_eq_true, beq_iff_eq] at hplace
  cases hvalue : w.value with
  | named name => rfl
  | inner source output =>
    have hlt : source < part := hplace.1 ▸ horder w hmem source output hvalue
    simp only [CompiledNode.slotTensor]
    rw [List.getElem?_take_of_lt hlt]

/-- The names in the slots of a compiled node are proper ones that it reads. -/
theorem named_mem {cn : CompiledNode D} {w : RequiredSlot} (hw : w ∈ cn.requiredSlots)
    {name : String} (hvalue : w.value = .named name) : name ∈ cn.inputNames ∧ name ≠ "" := by
  rcases List.mem_append.1 hw with hw | hw
  · obtain ⟨slot, hslot, heq⟩ := List.mem_filterMap.1 hw
    split at heq
    · cases heq
    · next hne =>
      cases heq
      cases hvalue
      exact ⟨mem_slotsBelow hslot, hne⟩
  · obtain ⟨entry, -, hw⟩ := List.mem_flatMap.1 hw
    rcases List.mem_append.1 hw with hw | hw
    · obtain ⟨e, -, heq⟩ := List.mem_filterMap.1 hw
      split at heq
      · cases heq
      · cases heq
        cases hvalue
    · obtain ⟨e, -, heq⟩ := List.mem_filterMap.1 hw
      obtain ⟨name', hname', heq⟩ := Option.bind_eq_some_iff.1 heq
      split at heq
      · cases heq
      · next hne =>
        cases heq
        cases hvalue
        exact ⟨List.mem_of_getElem? hname', hne⟩

theorem partInput_congr {cn : CompiledNode D} {env env' : String → V}
    (h : ∀ name ∈ cn.inputNames, name ≠ "" → env name = env' name) (parts : List (Nat → V))
    (part slot : Nat) : cn.partInput env parts part slot = cn.partInput env' parts part slot := by
  unfold CompiledNode.partInput
  refine Option.bind_congr fun w hw => ?_
  cases hvalue : w.value with
  | named name =>
    obtain ⟨hmem, hne⟩ := named_mem (List.mem_of_find?_eq_some hw) hvalue
    exact congrArg some (h name hmem hne)
  | inner part output => rfl

/-- A compiled node looks at the names it reads. -/
theorem outputTensor_congr {cn : CompiledNode D} {env env' : String → V}
    (h : ∀ name ∈ cn.inputNames, name ≠ "" → env name = env' name) (slot : Nat) :
    cn.outputTensor sem env slot = cn.outputTensor sem env' slot := by
  have hstep : cn.runPart sem env = cn.runPart sem env' := by
    funext parts desc
    unfold CompiledNode.runPart
    rw [funext (partInput_congr h parts parts.length)]
  rw [CompiledNode.outputTensor, CompiledNode.outputTensor, CompiledNode.runParts,
    CompiledNode.runParts, hstep]

/-! ## The walk -/

theorem lookup_map_snd {β γ : Type} (f : β → γ) (map : List (String × β)) (k : String) :
    (map.map fun entry => (entry.1, f entry.2)).lookup k = (map.lookup k).map f := by
  induction map with
  | nil => rfl
  | cons entry map ih =>
    obtain ⟨key, value⟩ := entry
    rw [List.map_cons, List.lookup_cons, List.lookup_cons, ih]
    cases k == key <;> rfl

theorem lookup_isSome_of_mem {β : Type} {map : List (String × β)} {entry : String × β}
    (h : entry ∈ map) : ∃ value, map.lookup entry.1 = some value := by
  refine Option.ne_none_iff_exists'.1 fun hnone => ?_
  have hne := List.lookup_eq_none_iff.1 hnone entry h
  simp at hne

/-- An output that is found is at its slot. -/
theorem getElem?_of_lookup_zipIdx {names : List String} {name : String} {slot : Nat}
    (h : names.zipIdx.reverse.lookup name = some slot) : names[slot]? = some name :=
  List.mk_mem_zipIdx_iff_getElem?.1 (List.mem_reverse.1 (mem_of_lookup h))

theorem exists_slot {names : List String} {name : String} (h : name ∈ names) :
    ∃ slot, names.zipIdx.reverse.lookup name = some slot := by
  obtain ⟨k, hk⟩ := List.mem_iff_getElem?.1 h
  exact lookup_isSome_of_mem (List.mem_reverse.2 (List.mk_mem_zipIdx_iff_getElem?.2 hk))

/-- What the maps of the walk say, in the tensors that the nodes behind it have written. -/
structure Computed (sem : DmlSemantics D V) (env : String → V) (t : Translation D) : Prop where
  ordered : ∀ cn ∈ t.compiledNodes, cn.PartsInOrder
  produced : ∀ name, name ≠ "" → ∀ p, t.valueProducer.lookup name = some p →
    ∃ cn, t.compiledNodes[p.1]? = some cn ∧ cn.outputTensor sem env p.2 = some (env name)
  aliased : ∀ entry ∈ t.graphInputAliases, env entry.1 = env entry.2

section

variable {g : Graph} {done rest : List Node} {node : Node} {t : Translation D} {env : String → V}

/-- The names that the nodes so far read keep their tensors. -/
theorem evalNode_of_read (hlist : g.Listed) (hnodes : g.nodes = done ++ node :: rest)
    {name : String} (hname : name ≠ "") {n : Node} (hn : n ∈ done ++ [node])
    (hread : name ∈ getNodeInputNames n) : evalNode meaning env node name = env name :=
  evalNode_of_not_mem hname fun hout => not_read_before hlist hnodes hname hout hn hread

/-- Compiled nodes have written what they wrote before. -/
theorem outputTensor_evalNode (hlist : g.Listed) (hnodes : g.nodes = done ++ node :: rest)
    {cn : CompiledNode D} {n : Node} (hn : n ∈ done ++ [node])
    (hreads : cn.inputNames = getNodeInputNames n) (slot : Nat) :
    cn.outputTensor sem (evalNode meaning env node) slot = cn.outputTensor sem env slot := by
  refine outputTensor_congr (fun name hmem hne => ?_) slot
  exact evalNode_of_read hlist hnodes hne hn (hreads ▸ hmem)

theorem Computed.kept (hlist : g.Listed) (hnodes : g.nodes = done ++ node :: rest)
    (hwalked : Walked done t) (h : Computed sem env t) {name : String} (hname : name ≠ "")
    (hout : name ∉ getNodeOutputNames node) {p : Nat × Nat}
    (hp : t.valueProducer.lookup name = some p) :
    ∃ cn, t.compiledNodes[p.1]? = some cn ∧
      cn.outputTensor sem (evalNode meaning env node) p.2 =
        some (evalNode meaning env node name) := by
  obtain ⟨cn, hcn, hvalue⟩ := h.produced name hname p hp
  obtain ⟨n, hn, hreads⟩ := hwalked.reads p.1 cn hcn
  refine ⟨cn, hcn, ?_⟩
  rw [outputTensor_evalNode hlist hnodes (List.mem_append_left _ hn) hreads,
    evalNode_of_not_mem hname hout, hvalue]

theorem Computed.kept_alias (hlist : g.Listed) (hnodes : g.nodes = done ++ node :: rest)
    (hwalked : Walked done t) (hchained : Chained t.graphInputAliases) (h : Computed sem env t)
    {entry : String × String} (hentry : entry ∈ t.graphInputAliases) :
    evalNode meaning env node entry.1 = evalNode meaning env node entry.2 := by
  obtain ⟨n, hn, hout, hhead⟩ := hwalked.aliased entry hentry
  have hkey := hchained.keyed entry hentry
  rw [evalNode_of_not_mem hkey fun hmem => not_written_before hnodes hkey hmem hn hout,
    evalNode_of_read hlist hnodes (hchained.named entry hentry) (List.mem_append_left _ hn)
      (List.mem_of_head? hhead)]
  exact h.aliased entry hentry

/-- The turn of an elided node. -/
theorem Computed.elide (hlist : g.Listed) (hnodes : g.nodes = done ++ node :: rest)
    (hwalked : Walked done t) (hchained : Chained t.graphInputAliases)
    {translated : TranslatedOp D} (hfed : FedTurn node translated)
    (hpass : translated.passthrough = true) (himpl : Implements sem meaning env node translated)
    (h : Computed sem env t) :
    Computed sem (evalNode meaning env node)
      (elide t (getNodeInputNames node) (getNodeOutputNames node)) := by
  obtain ⟨src, hsrc, hfirst⟩ := himpl.elided hpass
  have hne : src ≠ "" := by
    rintro rfl
    exact (hfed hpass).1 hsrc
  have hkeep : evalNode meaning env node src = env src :=
    evalNode_of_read hlist hnodes hne (by simp) (List.mem_of_head? hsrc)
  -- an output has the tensor of the first input
  have hwrite : ∀ name, name ≠ "" → name ∈ getNodeOutputNames node →
      evalNode meaning env node name = env src := by
    intro name hname hout
    obtain ⟨slot, hslot⟩ := exists_slot hout
    rw [evalNode_apply env node hname, hslot, Option.map_some, Option.getD_some]
    exact hfirst slot name (getElem?_of_lookup_zipIdx hslot) hname
  unfold DirectML.elide
  rw [hsrc]
  cases hproducer : t.valueProducer.lookup src with
  | some p =>
    have heq : (getNodeOutputNames node).foldl (fun map name => insertEntry map name p)
        t.valueProducer = insertAll t.valueProducer ((getNodeOutputNames node).map (·, p)) := by
      rw [insertAll, List.foldl_map]
    dsimp only
    rw [hproducer]
    dsimp only
    rw [heq]
    refine ⟨h.ordered, fun name hname q hq => ?_, fun entry hentry => ?_⟩
    · rcases lookup_insertAll_cases hq with hnew | ⟨hnot, hold⟩
      · obtain ⟨name', hout, hpair⟩ := List.mem_map.1 hnew
        obtain ⟨rfl, rfl⟩ := Prod.mk.inj hpair
        obtain ⟨cn, hcn, hvalue⟩ := h.produced src hne p hproducer
        obtain ⟨n, hn, hreads⟩ := hwalked.reads p.1 cn hcn
        refine ⟨cn, hcn, ?_⟩
        rw [outputTensor_evalNode hlist hnodes (List.mem_append_left _ hn) hreads, hvalue,
          hwrite name' hname hout]
      · refine h.kept hlist hnodes hwalked hname (fun hout => hnot ?_) hold
        rw [List.map_map]
        exact List.mem_map.2 ⟨name, hout, rfl⟩
    · exact h.kept_alias hlist hnodes hwalked hchained hentry
  | none =>
    have heq : (getNodeOutputNames node).foldl (fun map name => insertEntry map name src)
        t.graphInputAliases =
          insertAll t.graphInputAliases ((getNodeOutputNames node).map (·, src)) := by
      rw [insertAll, List.foldl_map]
    dsimp only
    rw [hproducer]
    dsimp only
    rw [heq]
    refine ⟨h.ordered, fun name hname q hq => ?_, fun entry hentry => ?_⟩
    · refine h.kept hlist hnodes hwalked hname (fun hout => ?_) hq
      obtain ⟨n, hn, hmem⟩ := hwalked.produced name q hq
      exact not_written_before hnodes hname hout hn hmem
    · rcases mem_insertAll hentry with hnew | hold
      · obtain ⟨name, hout, rfl⟩ := List.mem_map.1 hnew
        have hname : name ≠ "" := fun heq => (hfed hpass).2 (heq ▸ hout)
        exact (hwrite name hname hout).trans hkeep.symm
      · exact h.kept_alias hlist hnodes hwalked hchained hold

/-- The turn of a compiled node. -/
theorem Computed.push (hlist : g.Listed) (hnodes : g.nodes = done ++ node :: rest)
    (hwalked : Walked done t) (hchained : Chained t.graphInputAliases)
    {translated : TranslatedOp D} (hpass : translated.passthrough = false)
    (himpl : Implements sem meaning env node translated) (h : Computed sem env t) :
    Computed sem (evalNode meaning env node) (pushNode t (compiledNode node translated)) := by
  obtain ⟨horder, hcomputes⟩ := himpl.computed hpass
  rw [pushNode_eq]
  refine ⟨fun cn hcn => ?_, fun name hname p hp => ?_, fun entry hentry => ?_⟩
  · rcases List.mem_append.1 hcn with hcn | hcn
    · exact h.ordered cn hcn
    · rw [List.mem_singleton.1 hcn]
      exact horder
  · have hentries : ((compiledNode node translated).outputNames.zipIdx.map fun entry =>
        (entry.1, (t.compiledNodes.length, entry.2))).reverse.lookup name =
          ((getNodeOutputNames node).zipIdx.reverse.lookup name).map
            (t.compiledNodes.length, ·) := by
      rw [← List.map_reverse]
      exact lookup_map_snd (fun slot => (t.compiledNodes.length, slot)) _ name
    rw [lookup_insertAll, hentries] at hp
    cases hslot : (getNodeOutputNames node).zipIdx.reverse.lookup name with
    | some slot =>
      rw [hslot] at hp
      obtain rfl : (t.compiledNodes.length, slot) = p := Option.some.inj hp
      refine ⟨compiledNode node translated, List.getElem?_concat_length, ?_⟩
      rw [outputTensor_evalNode hlist hnodes (by simp) (n := node) rfl,
        hcomputes slot name (getElem?_of_lookup_zipIdx hslot) hname,
        evalNode_apply env node hname, hslot]
      rfl
    | none =>
      rw [hslot] at hp
      have hout : name ∉ getNodeOutputNames node := by
        intro hout
        obtain ⟨slot, hsome⟩ := exists_slot hout
        rw [hslot] at hsome
        cases hsome
      obtain ⟨cn, hcn, hvalue⟩ := @Computed.kept _ _ _ meaning _ _ _ _ _ _ hlist hnodes hwalked h
        name hname hout p hp
      refine ⟨cn, ?_, hvalue⟩
      rw [List.getElem?_append_left (List.getElem?_eq_some_iff.1 hcn).1]
      exact hcn
  · exact h.kept_alias hlist hnodes hwalked hchained hentry

theorem computed_turn (hlist : g.Listed) (hnodes : g.nodes = done ++ node :: rest)
    (hwalked : Walked done t) (hchained : Chained t.graphInputAliases)
    {translated : TranslatedOp D} (hfed : FedTurn node translated)
    (himpl : Implements sem meaning env node translated) (h : Computed sem env t) :
    Computed sem (evalNode meaning env node) (turn t node translated) := by
  unfold turn
  generalize writeBack t.valueShapes (getNodeOutputNames node) translated.outputTensors = shapes
  have hwalked' : Walked done { t with valueShapes := shapes } :=
    ⟨hwalked.keys, hwalked.producers, hwalked.produced, hwalked.aliased, hwalked.apart,
      hwalked.rooted, hwalked.reads, hwalked.before⟩
  have h' : Computed sem env { t with valueShapes := shapes } :=
    ⟨h.ordered, h.produced, h.aliased⟩
  cases hpass : translated.passthrough with
  | true => exact h'.elide hlist hnodes hwalked' hchained hfed hpass himpl
  | false => exact h'.push hlist hnodes hwalked' hchained hpass himpl

end

section

variable {registry : OpTranslatorRegistry D} {sg : SubgraphInfo} {g : Graph} {t : Translation D}
  {world : String → V}

/-- The run lemma: what the whole walk has recorded is true of what the whole group writes. -/
theorem computed_walk (hlist : g.Listed) (hfed : PassthroughFed registry g)
    (himpl : ImplementsGroup sem meaning world registry sg g.nodes)
    (h : translateNodes registry sg g.nodes = some t) :
    Computed sem (evalNodes meaning world g.nodes) t := by
  have hall : translateNodes registry sg g.nodes = some t ∧ Walked g.nodes t ∧
      Chained t.graphInputAliases ∧ Computed sem (evalNodes meaning world g.nodes) t := by
    refine walk_induction (P := fun done s => translateNodes registry sg done = some s ∧
      Walked done s ∧ Chained s.graphInputAliases ∧
      Computed sem (evalNodes meaning world done) s) ⟨rfl, ?_, ?_, ?_⟩
      (fun done node rest s translated hnodes hs htranslates => ?_) h
    · refine ⟨List.nodup_nil, ?_, ?_, ?_, ?_, ?_, ?_, ?_⟩ <;> simp [ProducersIn]
    · refine ⟨?_, ?_, ?_, .nil⟩ <;> simp
    · refine ⟨?_, ?_, ?_⟩ <;> simp
    · obtain ⟨hdone, hwalked, hchained, hcomputed⟩ := hs
      have hmem : node ∈ g.nodes := hnodes ▸ List.mem_append_right _ List.mem_cons_self
      have hfedTurn := hfed node hmem _ _ _ htranslates
      refine ⟨?_, walked_turn hlist hnodes hwalked translated,
        chained_turn hlist hnodes hwalked hchained hfedTurn, ?_⟩
      · unfold translateNodes at hdone ⊢
        rw [List.foldlM_append, hdone]
        exact Option.bind_eq_some_iff.2 ⟨s, rfl, Option.bind_eq_some_iff.2
          ⟨_, translateNode_eq_some.2 ⟨_, htranslates, rfl⟩, rfl⟩⟩
      · rw [evalNodes_append]
        exact computed_turn hlist hnodes hwalked hchained hfedTurn
          (himpl done node rest s translated hnodes hdone htranslates) hcomputed
  exact hall.2.2.2

/-- A name has the tensor of what it is resolved to. -/
theorem resolve_tensor {env : String → V} (h : Computed sem env t) {name resolved : String}
    (hres : t.resolve name = some resolved) : env name = env resolved := by
  have hchain : ∀ fuel name, resolveAlias t.graphInputAliases fuel name = some resolved →
      env name = env resolved := by
    intro fuel
    induction fuel with
    | zero =>
      intro name hname
      obtain ⟨-, heq⟩ := Option.ite_none_right_eq_some.1 hname
      rw [Option.some.inj heq]
    | succ fuel ih =>
      intro name hname
      rw [resolveAlias] at hname
      cases hlookup : t.graphInputAliases.lookup name with
      | none =>
        rw [hlookup] at hname
        rw [Option.some.inj hname]
      | some src =>
        rw [hlookup] at hname
        exact (h.aliased _ (mem_of_lookup hlookup)).trans (ih src hname)
  exact hchain _ name hres

/-- A name from outside keeps its tensor. -/
theorem external_tensor (hnamed : sg.Named) (houtside : sg.OutsideNodes g.nodes) {name : String}
    (h : External t sg name) : evalNodes meaning world g.nodes name = world name := by
  have hne : name ≠ "" := by
    rintro rfl
    exact not_external_empty hnamed h
  refine evalNodes_of_not_mem hne (houtside name ?_)
  rcases h with ⟨-, hinput⟩ | hinit
  · exact Or.inl hinput
  · have hdirect := List.mem_dedup.1 (List.mem_filter.1 hinit).1
    exact Or.inr (List.mem_filter.1 hdirect).2

end

/-! ## The nodes of the graph and their labels -/

section

variable {t : Translation D} {sg : SubgraphInfo}

/-- The node under a label. -/
def NodeUnder (t : Translation D) (im : DmlInputMap) : NodeLabel → DmlNode D → Prop
  | .operator i part, node => ∃ cn, t.compiledNodes[i]? = some cn ∧
      ∃ desc, cn.partDescs[part]? = some desc ∧ node = .operator desc
  | .constant name, node => ∃ data, (name, data) ∈ im.constantNodes ∧ node = .constant data

theorem nodesUnder (t : Translation D) (im : DmlInputMap) (live : List Nat)
    (hlive : ∀ i ∈ live, i < t.compiledNodes.length) :
    List.Forall₂ (NodeUnder t im) (t.labels im live) (graphNodes t im live) := by
  unfold Translation.labels graphNodes
  refine List.rel_append ?_ ?_
  · induction live with
    | nil => exact .nil
    | cons i live ih =>
      obtain ⟨hi, hlive⟩ := List.forall_mem_cons.1 hlive
      obtain ⟨cn, hcn⟩ : ∃ cn, t.compiledNodes[i]? = some cn :=
        ⟨_, List.getElem?_eq_getElem hi⟩
      have hparts : DmlNode.operator cn.translated.opDesc ::
          cn.translated.subNodes.map (fun sn => .operator sn.opDesc) =
            cn.partDescs.map DmlNode.operator := by
        simp [CompiledNode.partDescs]
      rw [List.filterMap_cons_some hcn, List.flatMap_cons, Translation.operatorLabels,
        List.flatMap_cons, hparts]
      refine List.rel_append ?_ (ih hlive)
      rw [List.forall₂_map_left_iff, List.forall₂_map_right_iff, parts_eq hcn,
        ← length_partDescs, List.forall₂_iff_get]
      refine ⟨by simp, fun k hk hk' => ⟨cn, hcn, _, ?_, rfl⟩⟩
      simp
  · rw [List.forall₂_map_left_iff, List.forall₂_map_right_iff, List.forall₂_same]
    exact fun entry hentry => ⟨entry.2, hentry, rfl⟩

theorem find?_of_distinct {α β : Type} {l : List α} {key : α → β} (hkey : (l.map key).Nodup)
    {p : α → Bool} {x : α} (hx : x ∈ l) (hp : p x) (hsame : ∀ y ∈ l, p y → key y = key x) :
    l.find? p = some x := by
  obtain ⟨y, hy⟩ := Option.isSome_iff_exists.1 (List.find?_isSome.2 ⟨x, hx, hp⟩)
  have hmem := List.mem_of_find?_eq_some hy
  have heq := hsame y hmem (List.find?_some hy)
  rw [hy, List.inj_on_of_nodup_map hkey hmem hx heq]

theorem nodeOffset_lt {i j part part' : Nat} (hi : i ∈ t.liveNodes sg) (hj : j ∈ t.liveNodes sg)
    (hlt : i < j) (hpart : part < t.parts i) :
    nodeOffset t (t.liveNodes sg) i + part < nodeOffset t (t.liveNodes sg) j + part' := by
  obtain ⟨front, back, heq⟩ := List.append_of_mem hj
  have hsorted : (t.liveNodes sg).Pairwise (· < ·) := liveNodes_sorted
  rw [heq] at hsorted
  have hfront : i ∈ front := by
    rw [heq] at hi
    rcases List.mem_append.1 hi with hi | hi
    · exact hi
    · have htail := (List.pairwise_append.1 hsorted).2.1
      rcases List.mem_cons.1 hi with rfl | hi
      · exact absurd hlt (Nat.lt_irrefl _)
      · exact absurd hlt (Nat.lt_asymm ((List.pairwise_cons.1 htail).1 i hi))
  obtain ⟨first, second, rfl⟩ := List.append_of_mem hfront
  have hoffset : nodeOffset t (t.liveNodes sg) i = (first.map t.parts).sum := by
    rw [heq]
    rw [List.append_assoc, List.cons_append] at hsorted ⊢
    exact nodeOffset_split hsorted
  rw [hoffset, heq, nodeOffset_split hsorted, List.map_append, List.sum_append, List.map_cons,
    List.sum_cons]
  omega

theorem nodes_of_describe {desc : DmlGraphDesc D} (h : describe t sg = some desc) :
    desc.nodes = graphNodes t (compileInputMap t sg) (t.liveNodes sg) := by
  unfold describe at h
  split at h
  · cases h
  · obtain ⟨wiring, -, h⟩ := Option.bind_eq_some_iff.1 h
    obtain ⟨outputEdges, -, rfl⟩ := Option.map_eq_some_iff.1 h
    rfl

end

/-! ## The execution that the group describes -/

/-- What the nodes of the graph write when the names of the group have the tensors `env`. -/
def labelTensor (sem : DmlSemantics D V) (t : Translation D) (env : String → V) (out : Nat) :
    NodeLabel → V
  | .operator i part =>
    (((t.compiledNodes[i]?).bind fun cn => (cn.runParts sem env)[part]?).map (· out)).getD (env "")
  | .constant name => env name

def reference (sem : DmlSemantics D V) (t : Translation D) (sg : SubgraphInfo) (env : String → V)
    (idx out : Nat) : V :=
  (((t.labels (compileInputMap t sg) (t.liveNodes sg))[idx]?).map
    (labelTensor sem t env out)).getD (env "")

section

variable {t : Translation D} {sg : SubgraphInfo} {desc : DmlGraphDesc D} {env : String → V}
  {inputs : Nat → V}

theorem reference_operator {idx i part : Nat} {cn : CompiledNode D} {write : Nat → V}
    (hlabel : (t.labels (compileInputMap t sg) (t.liveNodes sg))[idx]? = some (.operator i part))
    (hcn : t.compiledNodes[i]? = some cn) (hwrite : (cn.runParts sem env)[part]? = some write) :
    reference sem t sg env idx = write := by
  funext out
  simp [reference, hlabel, labelTensor, hcn, hwrite]

theorem reference_constant {idx : Nat} {name : String}
    (hlabel : (t.labels (compileInputMap t sg) (t.liveNodes sg))[idx]? = some (.constant name)) :
    reference sem t sg env idx = fun _ => env name := by
  funext out
  simp [reference, hlabel, labelTensor]

/-- A value that a node of the graph writes is the tensor of its name. -/
theorem reference_written {idx out : Nat} {name : String} {p : Nat × Nat}
    (h : Computed sem env t) (hname : name ≠ "") (hp : t.valueProducer.lookup name = some p)
    (hwrites : WritesAt t (compileInputMap t sg) (t.liveNodes sg) idx out p) :
    reference sem t sg env idx out = env name := by
  obtain ⟨cn, hcn, hvalue⟩ := h.produced name hname p hp
  obtain ⟨cn', hcn', hlabel, rfl⟩ := hwrites
  obtain rfl : cn = cn' := Option.some.inj (hcn.symm.trans hcn')
  obtain ⟨write, hwrite, heq⟩ := Option.map_eq_some_iff.1 hvalue
  rw [reference_operator hlabel hcn hwrite, heq]

variable (hwf : WellFormed t sg desc) (hwalked : ∃ done, Walked done t)
  (hchained : Chained t.graphInputAliases) (h : Computed sem env t)

section

include hwalked hchained

/-- A proper name that stands for a produced value is no alias. -/
theorem resolved_self {name resolved : String} (hres : t.resolve name = some resolved)
    {p : Nat × Nat} (hp : t.valueProducer.lookup resolved = some p) : resolved = name := by
  obtain ⟨done, hwalked⟩ := hwalked
  refine (resolve_rooted hwalked hchained hres).resolve_right fun hnone => ?_
  rw [hnone] at hp
  cases hp

end

section

include hwf

/-- Every edge brings what its slot needs. -/
theorem edge_supplies {e : SlotEdge} (he : e ∈ desc.edges) :
    ∃ i ∈ t.liveNodes sg, ∃ cn, t.compiledNodes[i]? = some cn ∧ ∃ w ∈ cn.requiredSlots,
      EndsAt t (compileInputMap t sg) (t.liveNodes sg) i e w ∧
        Supplies t (compileInputMap t sg) (t.liveNodes sg) i e.source w.value := by
  obtain ⟨i, hi, cn, hcn, w, hw, hends⟩ := hwf.only e he
  obtain ⟨e', he', hends', hsupplies⟩ := hwf.supplied i hi cn hcn w hw
  have hplace : (e'.toNode, e'.toInput) = (e.toNode, e.toInput) := by
    have hnode := ((label_operator_iff liveNodes_sorted).1 hends.1).2.2
    have hnode' := ((label_operator_iff liveNodes_sorted).1 hends'.1).2.2
    rw [hnode, hnode', hends.2, hends'.2]
  obtain rfl := List.inj_on_of_nodup_map hwf.distinct he' he hplace
  exact ⟨i, hi, cn, hcn, w, hw, hends', hsupplies⟩

end

/-- Constants come before all operators, and operators in their order. -/
def labelRank (labels : List NodeLabel) (idx : Nat) : Nat :=
  match labels[idx]? with
  | some (.operator _ _) => idx + 1
  | _ => 0

section

variable (hbound : ∀ name idx, (compileInputMap t sg).dmlInputMap.lookup name = some idx →
  inputs idx = env name)

include hwalked hchained h hbound

/-- What an edge brings is the tensor that the slot is given. -/
theorem supplies_tensor {i : Nat} {cn : CompiledNode D} (hcn : t.compiledNodes[i]? = some cn)
    {w : RequiredSlot} (hw : w ∈ cn.requiredSlots) {source : EdgeSource}
    (hsupplies : Supplies t (compileInputMap t sg) (t.liveNodes sg) i source w.value) :
    CompiledNode.slotTensor env (cn.runParts sem env) w.value =
      some (source.value inputs (reference sem t sg env)) := by
  cases hvalue : w.value with
  | named name =>
    rw [hvalue] at hsupplies
    have hname := (named_mem hw hvalue).2
    cases source with
    | graphInput idx =>
      obtain ⟨resolved, hres, hidx⟩ := hsupplies
      show some (env name) = some (inputs idx)
      rw [hbound resolved idx hidx, resolve_tensor h hres]
    | node idx out =>
      obtain ⟨resolved, hres, ⟨hlabel, -⟩ | ⟨p, hp, hwrites⟩⟩ := hsupplies
      · show some (env name) = some (reference sem t sg env idx out)
        rw [reference_constant hlabel, resolve_tensor h hres]
      · have hself := resolved_self hwalked hchained hres hp
        show some (env name) = some (reference sem t sg env idx out)
        rw [reference_written h (hself ▸ hname) hp hwrites, hself]
  | inner part output =>
    rw [hvalue] at hsupplies
    cases source with
    | graphInput idx => exact hsupplies.elim
    | node idx out =>
      obtain ⟨hlabel, rfl⟩ := hsupplies
      have hpart := ((label_operator_iff liveNodes_sorted).1 hlabel).2.1
      rw [parts_eq hcn, ← length_runParts sem cn env] at hpart
      have hwrite : (cn.runParts sem env)[part]? = some (cn.runParts sem env)[part] :=
        List.getElem?_eq_getElem hpart
      show ((cn.runParts sem env)[part]?).map (· out) = _
      rw [hwrite, EdgeSource.value, reference_operator hlabel hcn hwrite]
      rfl

include hwf

/-- The slots of a node of the graph hold what its part is given. -/
theorem slotValue_reference {idx i part : Nat} {cn : CompiledNode D}
    (hlabel : (t.labels (compileInputMap t sg) (t.liveNodes sg))[idx]? = some (.operator i part))
    (hcn : t.compiledNodes[i]? = some cn) (slot : Nat) :
    desc.slotValue inputs (reference sem t sg env) idx slot =
      cn.partInput env (cn.runParts sem env) part slot := by
  unfold DmlGraphDesc.slotValue CompiledNode.partInput
  obtain ⟨hi, -, hidx⟩ := (label_operator_iff liveNodes_sorted).1 hlabel
  cases hfind : cn.requiredSlots.find? fun w => w.part == part && w.input == slot with
  | some w =>
    have hw := List.mem_of_find?_eq_some hfind
    have hplace := List.find?_some hfind
    rw [Bool.and_eq_true, beq_iff_eq, beq_iff_eq] at hplace
    obtain ⟨rfl, rfl⟩ := hplace
    obtain ⟨e, he, hends, hsupplies⟩ := hwf.supplied i hi cn hcn w hw
    have hnode : e.toNode = idx :=
      ((label_operator_iff liveNodes_sorted).1 hends.1).2.2.trans hidx.symm
    have hedge : desc.edges.find? (fun e => e.toNode == idx && e.toInput == w.input) = some e := by
      refine find?_of_distinct hwf.distinct he ?_ fun e' _ he' => ?_
      · simp [hnode, hends.2]
      · rw [Bool.and_eq_true, beq_iff_eq, beq_iff_eq] at he'
        rw [he'.1, he'.2, hnode, hends.2]
    rw [hedge, Option.map_some, Option.bind_some,
      supplies_tensor hwalked hchained h hbound hcn hw hsupplies]
  | none =>
    have hedge : desc.edges.find? (fun e => e.toNode == idx && e.toInput == slot) = none := by
      refine List.find?_eq_none.2 fun e he hplace => ?_
      rw [Bool.and_eq_true, beq_iff_eq, beq_iff_eq] at hplace
      obtain ⟨i', -, cn', hcn', w, hw, hends⟩ := hwf.only e he
      have hsame : NodeLabel.operator i part = .operator i' w.part := by
        have hend := hends.1
        rw [hplace.1, hlabel] at hend
        exact Option.some.inj hend
      obtain ⟨rfl, hpart⟩ := NodeLabel.operator.inj hsame
      obtain rfl : cn = cn' := Option.some.inj (hcn.symm.trans hcn')
      have hnot := List.find?_eq_none.1 hfind w hw
      simp [← hpart, ← hends.2, hplace.2] at hnot
    rw [hedge]
    rfl

variable (hnodes : desc.nodes = graphNodes t (compileInputMap t sg) (t.liveNodes sg))

include hnodes

omit hwf hwalked hchained h hbound in
/-- The label of a node of the graph. -/
theorem label_of_node {idx : Nat} {node : DmlNode D} (hnode : desc.nodes[idx]? = some node) :
    ∃ label, (t.labels (compileInputMap t sg) (t.liveNodes sg))[idx]? = some label ∧
      NodeUnder t (compileInputMap t sg) label node := by
  have hunder := nodesUnder t (compileInputMap t sg) (t.liveNodes sg) fun i hi =>
    List.mem_range.1 (List.mem_filter.1 hi).1
  rw [← hnodes] at hunder
  have hlen := hunder.length_eq
  have hlt := (List.getElem?_eq_some_iff.1 hnode).1
  have hget := (List.forall₂_iff_get.1 hunder).2 idx (hlen ▸ hlt) hlt
  refine ⟨_, List.getElem?_eq_getElem (hlen ▸ hlt), ?_⟩
  rw [List.getElem?_eq_getElem hlt] at hnode
  rw [← Option.some.inj hnode]
  exact hget

/-- The group describes an execution of the graph. -/
theorem reference_executes
    (hinlined : ∀ entry ∈ (compileInputMap t sg).constantNodes,
      sem.constant entry.2 = env entry.1) :
    desc.Executes sem inputs (reference sem t sg env) := by
  intro idx node hnode
  obtain ⟨label, hlabel, hunder⟩ := label_of_node hnodes hnode
  cases label with
  | operator i part =>
    obtain ⟨cn, hcn, d, hd, rfl⟩ := hunder
    rw [reference_operator hlabel hcn
      (runParts_get (h.ordered cn (List.mem_of_getElem? hcn)) env hd)]
    have hslots := slotValue_reference hwf hwalked hchained h hbound hlabel hcn
    rw [DmlSemantics.nodeValue, funext hslots]
  | constant name =>
    obtain ⟨data, hmem, rfl⟩ := hunder
    rw [reference_constant hlabel]
    funext out
    exact (hinlined _ hmem).symm

omit h hbound hnodes in
/-- What an operator reads stands before it, the constants first of all. -/
theorem labelRank_lt (horder : ∀ cn ∈ t.compiledNodes, cn.PartsInOrder) {e : SlotEdge}
    (he : e ∈ desc.edges) {j out : Nat} (hsource : e.source = .node j out) {i part : Nat}
    (hlabel : (t.labels (compileInputMap t sg) (t.liveNodes sg))[e.toNode]? =
      some (.operator i part)) :
    labelRank (t.labels (compileInputMap t sg) (t.liveNodes sg)) j <
      labelRank (t.labels (compileInputMap t sg) (t.liveNodes sg)) e.toNode := by
  obtain ⟨i', hi', cn, hcn, w, hw, hends, hsupplies⟩ := edge_supplies hwf he
  have hend := hends.1
  rw [hlabel] at hend
  obtain ⟨rfl, rfl⟩ := NodeLabel.operator.inj (Option.some.inj hend)
  have hoffset := ((label_operator_iff liveNodes_sorted).1 hlabel).2.2
  rw [hsource] at hsupplies
  rw [labelRank, labelRank, hlabel]
  cases hvalue : w.value with
  | named name =>
    rw [hvalue] at hsupplies
    obtain ⟨hread, hname⟩ := named_mem hw hvalue
    obtain ⟨resolved, hres, ⟨hconst, -⟩ | ⟨p, hp, cn', -, hwriter, -⟩⟩ := hsupplies
    · rw [hconst]
      exact Nat.succ_pos e.toNode
    · obtain rfl := resolved_self hwalked hchained hres hp
      obtain ⟨done, hdone⟩ := hwalked
      have hbefore := hdone.before i cn hcn resolved hread hname p hp
      obtain ⟨hlive, hpart, hj'⟩ := (label_operator_iff liveNodes_sorted).1 hwriter
      rw [hwriter, hj', hoffset]
      exact Nat.succ_lt_succ (nodeOffset_lt hlive hi' hbefore hpart)
  | inner source output =>
    rw [hvalue] at hsupplies
    have hlt := horder cn (List.mem_of_getElem? hcn) w hw source output hvalue
    have hj' := ((label_operator_iff liveNodes_sorted).1 hsupplies.1).2.2
    rw [hsupplies.1, hj', hoffset]
    exact Nat.succ_lt_succ (Nat.add_lt_add_left hlt _)

omit h hbound in
theorem executes_unique {val val' : Nat → Nat → V}
    (horder : ∀ cn ∈ t.compiledNodes, cn.PartsInOrder)
    (hval : desc.Executes sem inputs val) (hval' : desc.Executes sem inputs val') :
    ∀ idx, idx < desc.nodes.length → val idx = val' idx := by
  refine solution_unique (fun idx => idx < desc.nodes.length)
    (labelRank (t.labels (compileInputMap t sg) (t.liveNodes sg))) (desc.nodeStep sem inputs) ?_
    hval.eq_nodeStep hval'.eq_nodeStep
  intro idx hidx ρ ρ' hbelow
  obtain ⟨label, hlabel, hunder⟩ := label_of_node hnodes (List.getElem?_eq_getElem hidx)
  simp only [DmlGraphDesc.nodeStep, List.getElem?_eq_getElem hidx]
  cases label with
  | constant name =>
    obtain ⟨data, -, hnode⟩ := hunder
    rw [hnode]
    rfl
  | operator i part =>
    suffices hslots : desc.slotValue inputs ρ idx = desc.slotValue inputs ρ' idx by rw [hslots]
    funext slot
    unfold DmlGraphDesc.slotValue
    refine Option.map_congr fun e hfind => ?_
    have he := List.mem_of_find?_eq_some hfind
    have hplace := List.find?_some hfind
    rw [Bool.and_eq_true, beq_iff_eq] at hplace
    obtain ⟨rfl, -⟩ := hplace
    cases hsource : e.source with
    | graphInput j => rfl
    | node j out =>
      have hj : j < desc.nodes.length := (hwf.bounds e he).2 j out hsource
      have hrank := labelRank_lt hwf hwalked hchained horder he hsource hlabel
      exact congrFun (hbelow j hj hrank) out

end

include hwf hwalked hchained h in
/-- The graph outputs are the tensors of their names. -/
theorem output_reference (hnamed : sg.Named) {val : Nat → Nat → V}
    (hval : ∀ idx, idx < (t.labels (compileInputMap t sg) (t.liveNodes sg)).length →
      val idx = reference sem t sg env idx) (index : Nat) :
    desc.output val index = (sg.graphOutputs[index]?).map env := by
  unfold DmlGraphDesc.output
  cases hfind : desc.outputEdges.find? fun o => o.graphOutput == index with
  | some o =>
    have ho := List.mem_of_find?_eq_some hfind
    have hindex := List.find?_some hfind
    rw [beq_iff_eq] at hindex
    subst hindex
    obtain ⟨name, hget, resolved, p, hres, hp, hwrites⟩ := hwf.written o ho
    have hself := resolved_self hwalked hchained hres hp
    have hname : resolved ≠ "" := by
      rintro rfl
      exact hnamed.outputs_named (hself ▸ List.mem_of_getElem? hget)
    have hlt : o.fromNode < (t.labels (compileInputMap t sg) (t.liveNodes sg)).length := by
      obtain ⟨cn, -, hlabel, -⟩ := hwrites
      exact (List.getElem?_eq_some_iff.1 hlabel).1
    rw [hget, Option.map_some, Option.map_some, hval _ hlt,
      reference_written h hname hp hwrites, hself]
  | none =>
    have hnone : ¬ index < sg.graphOutputs.length := by
      intro hlt
      have hmem := hwf.outputs.mem_iff.2 (List.mem_range.2 hlt)
      obtain ⟨o, ho, hindex⟩ := List.mem_map.1 hmem
      have hnot := List.find?_eq_none.1 hfind o ho
      simp [hindex] at hnot
    rw [List.getElem?_eq_none (Nat.le_of_not_lt hnone)]
    rfl

end

end GraphMeaningLemmas

open GraphMeaningLemmas TranslationWalkLemmas GraphWellFormedLemmas

/-! ## The compiled graph computes the group -/

section

variable {registry : OpTranslatorRegistry D} {sg : SubgraphInfo} {g : Graph} {t : Translation D}
  {sem : DmlSemantics D V} {meaning : NodeMeaning V} {world : String → V} {inputs : Nat → V}

/-- The DML graph of a connectable group has an execution, and every execution of it writes what
the nodes of the group write when they run one after the other. -/
theorem compiled_computes (hlist : g.Listed) (hfed : PassthroughFed registry g)
    (hnamed : sg.Named) (houtside : sg.OutsideNodes g.nodes)
    (htranslated : translateNodes registry sg g.nodes = some t) (hconn : Connectable t sg)
    (himpl : ImplementsGroup sem meaning world registry sg g.nodes)
    (hbinds : BindsOutside sem t sg world inputs) :
    ∃ desc, describe t sg = some desc ∧ (∃ val, desc.Executes sem inputs val) ∧
      ∀ val, desc.Executes sem inputs val → ∀ index,
        desc.output val index =
          (sg.graphOutputs[index]?).map (evalNodes meaning world g.nodes) := by
  have hwalked : ∃ done, Walked done t := ⟨g.nodes, walked hlist htranslated⟩
  have hchained : Chained t.graphInputAliases := chained hlist hfed htranslated
  have hcomputed : Computed sem (evalNodes meaning world g.nodes) t :=
    computed_walk hlist hfed himpl htranslated
  obtain ⟨desc, hdesc, hwf⟩ := wellFormed_of_connectable hnamed hchained hconn
  have hnodes : desc.nodes = graphNodes t (compileInputMap t sg) (t.liveNodes sg) :=
    nodes_of_describe hdesc
  have hbound : ∀ name idx, (compileInputMap t sg).dmlInputMap.lookup name = some idx →
      inputs idx = evalNodes meaning world g.nodes name := by
    intro name idx hidx
    rw [external_tensor hnamed houtside
      ((external_iff t sg name).2 (Or.inr (Option.isSome_iff_exists.2 ⟨idx, hidx⟩)))]
    exact hbinds.bound name idx hidx
  have hinlined : ∀ entry ∈ (compileInputMap t sg).constantNodes,
      sem.constant entry.2 = evalNodes meaning world g.nodes entry.1 := by
    intro entry hentry
    obtain ⟨data, hdata⟩ := lookup_isSome_of_mem hentry
    rw [external_tensor hnamed houtside
      ((external_iff t sg entry.1).2 (Or.inl (Option.isSome_iff_exists.2 ⟨data, hdata⟩)))]
    exact hbinds.inlined entry hentry
  have hreference := reference_executes hwf hwalked hchained hcomputed hbound hnodes hinlined
  refine ⟨desc, hdesc, ⟨_, hreference⟩, fun val hval index => ?_⟩
  refine output_reference hwf hwalked hchained hcomputed hnamed (fun idx hidx => ?_) index
  refine executes_unique hwf hwalked hchained hnodes hcomputed.ordered hval hreference idx ?_
  rw [hnodes, ← GraphWiringLemmas.length_labels]
  exact hidx

end

/-! ## A product with a quantized weight, a reshape and an activation -/

def scaledRegistry : OpTranslatorRegistry String := fun op =>
  if op = "MatMulNBits" then
    some (translateMatMulNBits (fun _ => "DEQUANTIZE") "GEMM")
  else if op = "Flatten" then some (translateShapeOnly "IDENTITY")
  else if op = "Relu" then some (translateUnaryActivation "RELU")
  else none

def scaledProduct : Node where
  id := 0
  opType := "MatMulNBits"
  inputs := [some "x", some "B", some "scales"]
  outputs := [some "p"]
  attributes := [("N", .int 1), ("K", .int 32), ("bits", .int 4), ("block_size", .int 32)]

def scaledFlatten : Node where
  id := 1
  opType := "Flatten"
  inputs := [some "p"]
  outputs := [some "q"]

def scaledRelu : Node where
  id := 2
  opType := "Relu"
  inputs := [some "q"]
  outputs := [some "y"]

/-- The scales are small enough for a constant node. -/
def scaledInfo : SubgraphInfo where
  graphInputs := ["x"]
  graphOutputs := ["y"]
  valueShapes := fun name =>
    if name = "x" then some (makeTensorInfo [8, 32] .float32)
    else if name = "B" then some (makeTensorInfo [1, 1, 16] .uint8)
    else if name = "scales" then some (makeTensorInfo [1] .float32)
    else if name = "q" then some (makeTensorInfo [8] .float32)
    else none
  allInitializers := fun name =>
    if name = "B" then some { dataType := .uint8, dims := [1, 1, 16], bytes := none }
    else if name = "scales" then
      some { dataType := .float32, dims := [1], bytes := some [2, 0, 0, 0] }
    else none

def scaledGraph : Graph :=
  .ofNodes [scaledProduct, scaledFlatten, scaledRelu] ["x"] ["y"] (by decide) (by decide)
    (by decide) (by decide)

/-- Tensors of one number each. -/
def scaledSemantics : DmlSemantics String Int where
  run desc slots _ :=
    if desc = "RELU" then max ((slots 0).getD 0) 0
    else (slots 0).getD 0 * (slots 1).getD 0
  constant data := (data.head?.map fun byte => (byte.toNat : Int)).getD 0

def scaledMeaning : NodeMeaning Int := fun node tensors _ =>
  let tensor := fun i => (tensors[i]?.join).getD 0
  if node.opType = "MatMulNBits" then tensor 0 * (tensor 1 * tensor 2)
  else if node.opType = "Relu" then max (tensor 0) 0
  else tensor 0

def scaledWorld (name : String) : Int :=
  if name = "x" then 5 else if name = "B" then 3 else 2

def scaledInputs (idx : Nat) : Int :=
  if idx = 0 then 5 else 3

def scaledTranslation : Translation String :=
  (translateNodes scaledRegistry scaledInfo scaledGraph.nodes).get (by decide)

theorem scaledTranslation_eq :
    translateNodes scaledRegistry scaledInfo scaledGraph.nodes = some scaledTranslation :=
  (Option.some_get _).symm

theorem scaledInfo_named : scaledInfo.Named where
  inputs := by decide
  outputs := by decide
  outputs_named := by decide
  initializers_named := by decide

theorem scaledRegistry_fed : PassthroughFed scaledRegistry scaledGraph := by
  intro node hnode _ _ translated _ _
  have hall : ∀ node ∈ scaledGraph.nodes,
      (getNodeInputNames node).head? ≠ some "" ∧ "" ∉ getNodeOutputNames node := by decide
  exact hall node hnode

theorem scaledInfo_outside : scaledInfo.OutsideNodes scaledGraph.nodes := by
  intro name hname node hnode hout
  have hwritten : ∀ node ∈ scaledGraph.nodes, ∀ name ∈ getNodeOutputNames node,
      name ∉ scaledInfo.graphInputs ∧ (scaledInfo.allInitializers name).isSome = false := by decide
  obtain ⟨hinput, hinit⟩ := hwritten node hnode name hout
  rcases hname with hname | hname
  · exact hinput hname
  · rw [hinit] at hname
    cases hname

theorem scaled_external {name : String} (hname : name ∈ ["x", "B", "scales"]) {resolved : String}
    (hres : scaledTranslation.resolve name = some resolved) :
    External scaledTranslation scaledInfo resolved := by
  have hself : ∀ name ∈ ["x", "B", "scales"], scaledTranslation.resolve name = some name := by
    decide
  obtain rfl : name = resolved := Option.some.inj ((hself name hname).symm.trans hres)
  have hall : ∀ name ∈ ["x", "B", "scales"], (name ≠ "" ∧ name ∈ scaledInfo.graphInputs) ∨
      name ∈ scaledTranslation.consumedInitializers scaledInfo := by decide
  exact hall name hname

theorem scaled_written {name : String} (hname : name ∈ ["q", "y"]) {resolved : String}
    (hres : scaledTranslation.resolve name = some resolved) :
    ∃ p, scaledTranslation.valueProducer.lookup resolved = some p ∧
      Written scaledTranslation scaledInfo p := by
  have hself : ∀ name ∈ ["q", "y"], scaledTranslation.resolve name = some name := by decide
  obtain rfl : name = resolved := Option.some.inj ((hself name hname).symm.trans hres)
  have hlookup : ∀ name ∈ ["q", "y"], scaledTranslation.valueProducer.lookup name =
      some (if name = "q" then (0, 0) else (1, 0)) := by decide
  refine ⟨_, hlookup name hname, ?_⟩
  split
  · exact ⟨by decide, _, (Option.some_get (by decide)).symm, by decide, by decide⟩
  · exact ⟨by decide, _, (Option.some_get (by decide)).symm, by decide, by decide⟩

theorem scaled_connectable : Connectable scaledTranslation scaledInfo where
  nodeCount := by decide
  inputCount := by decide
  outputCount := by decide
  nodes := by
    have hlive : scaledTranslation.liveNodes scaledInfo = [0, 1] := by decide
    intro i hi cn hcn
    rw [hlive] at hi
    rcases List.mem_cons.1 hi with rfl | hi
    · obtain rfl : (scaledTranslation.compiledNodes[0]?).get (by decide) = cn :=
        Option.some.inj ((Option.some_get _).trans hcn)
      refine ⟨⟨fun slot hslot _ name hres => ?_, ?_, by decide⟩, by decide, by decide⟩
      · have hslots : ∀ slot ∈ ((scaledTranslation.compiledNodes[0]?).get (by decide)).primarySlots,
            slot.2 ∈ ["x", "B", "scales"] := by decide
        exact Or.inl (scaled_external (hslots slot hslot) hres)
      · intro sn hsn entry hentry name hname _ resolved hres
        have hslots : ∀ sn ∈ ((scaledTranslation.compiledNodes[0]?).get
            (by decide)).translated.subNodes, ∀ entry ∈ sn.graphInputs,
              ((scaledTranslation.compiledNodes[0]?).get (by decide)).inputNames[entry.1]? =
                some "x" := by decide
        obtain rfl : "x" = name :=
          Option.some.inj ((hslots sn hsn entry hentry).symm.trans hname)
        exact scaled_external (by decide) hres
    · obtain rfl : i = 1 := List.mem_singleton.1 hi
      obtain rfl : (scaledTranslation.compiledNodes[1]?).get (by decide) = cn :=
        Option.some.inj ((Option.some_get _).trans hcn)
      refine ⟨⟨fun slot hslot _ name hres => ?_, ?_, by decide⟩, by decide, by decide⟩
      · have hslots : ∀ slot ∈ ((scaledTranslation.compiledNodes[1]?).get (by decide)).primarySlots,
            slot.2 ∈ ["q", "y"] := by decide
        exact Or.inr (scaled_written (hslots slot hslot) hres)
      · intro sn hsn
        have hnone : ((scaledTranslation.compiledNodes[1]?).get (by decide)).translated.subNodes =
            [] := by decide
        rw [hnone] at hsn
        cases hsn
  outputs := by
    intro name hname resolved hres
    exact scaled_written (by
      rw [List.mem_singleton.1 hname]
      decide) hres

/-- The translation of a node when the nodes `done` have been walked. -/
def scaledTranslatedOp (done : List Node) (node : Node) : Option (TranslatedOp String) :=
  (translateNodes scaledRegistry scaledInfo done).bind fun s =>
    (scaledRegistry node.opType).bind fun translator =>
      translator node s.valueShapes scaledInfo.allInitializers

theorem scaled_implements :
    ImplementsGroup scaledSemantics scaledMeaning scaledWorld scaledRegistry scaledInfo
      scaledGraph.nodes := by
  rintro done node rest s translated hnodes hs ⟨translator, hreg, htranslated⟩
  have htr : scaledTranslatedOp done node = some translated := by
    rw [scaledTranslatedOp, hs, Option.bind_some, hreg, Option.bind_some, htranslated]
  change [scaledProduct, scaledFlatten, scaledRelu] = _ at hnodes
  rcases done with _ | ⟨first, _ | ⟨second, _ | ⟨third, done⟩⟩⟩
  · simp only [List.nil_append, List.cons.injEq] at hnodes
    obtain ⟨rfl, -⟩ := hnodes
    obtain rfl := Option.some.inj ((Option.some_get (by decide)).trans htr)
    refine ⟨fun h => absurd h (by decide), fun _ => ⟨by decide, fun slot name hslot _ => ?_⟩⟩
    cases slot with
    | zero => decide
    | succ slot => cases hslot
  · simp only [List.cons_append, List.nil_append, List.cons.injEq] at hnodes
    obtain ⟨rfl, rfl, -⟩ := hnodes
    obtain rfl := Option.some.inj ((Option.some_get (by decide)).trans htr)
    refine ⟨fun _ => ⟨"p", rfl, fun slot name hslot _ => ?_⟩, fun h => absurd h (by decide)⟩
    cases slot with
    | zero => decide
    | succ slot => cases hslot
  · simp only [List.cons_append, List.nil_append, List.cons.injEq] at hnodes
    obtain ⟨rfl, rfl, rfl, -⟩ := hnodes
    obtain rfl := Option.some.inj ((Option.some_get (by decide)).trans htr)
    refine ⟨fun h => absurd h (by decide), fun _ => ⟨by decide, fun slot name hslot _ => ?_⟩⟩
    cases slot with
    | zero => decide
    | succ slot => cases hslot
  · simp at hnodes

theorem scaled_binds :
    BindsOutside scaledSemantics scaledTranslation scaledInfo scaledWorld scaledInputs where
  bound := by
    intro name idx hidx
    have hall : ∀ entry ∈ (compileInputMap scaledTranslation scaledInfo).dmlInputMap,
        scaledInputs entry.2 = scaledWorld entry.1 := by decide
    exact hall _ (mem_of_lookup hidx)
  inlined := by decide

/-- The graph writes `max (5 * (3 * 2)) 0`. -/
theorem scaled_computes :
    ∃ desc, describe scaledTranslation scaledInfo = some desc ∧
      (∃ val, desc.Executes scaledSemantics scaledInputs val) ∧
      ∀ val, desc.Executes scaledSemantics scaledInputs val → ∀ index,
        desc.output val index = (scaledInfo.graphOutputs[index]?).map
          (evalNodes scaledMeaning scaledWorld scaledGraph.nodes) :=
  compiled_computes (by decide) scaledRegistry_fed scaledInfo_named scaledInfo_outside
    scaledTranslation_eq scaled_connectable scaled_implements scaled_binds

end AmdGpuEp.DirectML
