import AmdGpuEp.DirectML.OpTranslator
import AmdGpuEp.Lib.RefCount
import Mathlib.Data.List.Dedup

/-!
# Tier-0 compilation of the DirectML provider

`full_graph_fusion.cc`: the walk that translates the nodes of a group, the
elimination of dead nodes, the input map, the wiring of the edges, and the two
functions that share them: `TryCompilePartition`, the pre-flight of
`GetCapability`, and `Compile`. What `BuildSubgraphInfo` collects from a graph is
given. The device is asked for its answers only; `Compile` is followed up to the
graph description that it hands to `CompileGraph`.

The source keeps initializers in unordered sets; they are lists here.

Results:
1. `producers_lt`: a translated value names a node of the translation.
2. `live_iff`: dead-node elimination keeps the nodes that are not starved.
3. `findSource_of_external`, `findSource_of_inner`: the input map has the named
   graph inputs and the consumed initializers; any other name is looked up among
   the produced values.
-/

namespace AmdGpuEp.DirectML

/-! ## The walk over the nodes -/

/-- `SubgraphInfo`, as the later steps read it: inputs and outputs by name. -/
structure SubgraphInfo where
  graphInputs : List String
  graphOutputs : List String
  valueShapes : ValueShapes
  allInitializers : String → Option Initializer

structure CompiledNode (D : Type) where
  translated : TranslatedOp D
  inputNames : List String
  outputNames : List String
  opType : String
  deriving DecidableEq, Repr

/-- `map[key] = value` for a map that is looped over. -/
def insertEntry {β : Type} (map : List (String × β)) (key : String) (value : β) :
    List (String × β) :=
  (key, value) :: map.filter fun entry => entry.1 != key

/-- `graph_output_map`: the index of every named output. -/
def SubgraphInfo.graphOutputMap (sg : SubgraphInfo) : List (String × Nat) :=
  (sg.graphOutputs.zipIdx.filter fun entry => entry.1 != "").foldl
    (fun map entry => insertEntry map entry.1 entry.2) []

/-- What the walk has built: `value_shapes`, `compiled_nodes`, `value_producer` (the compiled node
and its output slot) and `graph_input_aliases`. -/
structure Translation (D : Type) where
  valueShapes : ValueShapes
  compiledNodes : List (CompiledNode D) := []
  valueProducer : List (String × (Nat × Nat)) := []
  graphInputAliases : List (String × String) := []

section

variable {D : Type}

/-- Write-back: an output without a shape gets the one the translator computed. -/
def writeBack (shapes : ValueShapes) (outputNames : List String)
    (outputTensors : List DmlTensorInfo) : ValueShapes :=
  (outputNames.zip outputTensors).foldl
    (fun shapes entry =>
      match shapes entry.1 with
      | some _ => shapes
      | none => Function.update shapes entry.1 (some entry.2))
    shapes

/-- A passthrough node is elided: its outputs stand for what its first input stands for. -/
def elide (t : Translation D) (inputNames outputNames : List String) : Translation D :=
  match inputNames.head? with
  | none => t
  | some src =>
    match t.valueProducer.lookup src with
    | some producer =>
      { t with
        valueProducer :=
          outputNames.foldl (fun map name => insertEntry map name producer) t.valueProducer }
    | none =>
      { t with
        graphInputAliases :=
          outputNames.foldl (fun map name => insertEntry map name src) t.graphInputAliases }

/-- Appends a compiled node, the producer of its outputs. -/
def pushNode (t : Translation D) (cn : CompiledNode D) : Translation D :=
  { t with
    compiledNodes := t.compiledNodes ++ [cn]
    valueProducer := cn.outputNames.zipIdx.foldl
      (fun map entry => insertEntry map entry.1 (t.compiledNodes.length, entry.2))
      t.valueProducer }

/-- One turn of the walk; `none` when the node has no translator or its translator refuses it. -/
def translateNode (registry : OpTranslatorRegistry D) (initializers : String → Option Initializer)
    (t : Translation D) (node : Node) : Option (Translation D) :=
  match registry node.opType with
  | none => none
  | some translator =>
    match translator node t.valueShapes initializers with
    | none => none
    | some translated =>
      let inputNames := getNodeInputNames node
      let outputNames := getNodeOutputNames node
      let written :=
        { t with valueShapes := writeBack t.valueShapes outputNames translated.outputTensors }
      if translated.passthrough then some (elide written inputNames outputNames)
      else some (pushNode written { translated, inputNames, outputNames, opType := node.opType })

def translateNodes (registry : OpTranslatorRegistry D) (sg : SubgraphInfo) (nodes : List Node) :
    Option (Translation D) :=
  nodes.foldlM (translateNode registry sg.allInitializers) { valueShapes := sg.valueShapes }

/-- One turn of the loop of `TryTranslateNodes`: it stops at an operator without a translator, and
goes on when a translator refuses its node. -/
def tryTranslateNode (registry : OpTranslatorRegistry D)
    (initializers : String → Option Initializer) (s : Bool × ValueShapes) (node : Node) :
    Option (Bool × ValueShapes) :=
  match registry node.opType with
  | none => none
  | some translator =>
    match translator node s.2 initializers with
    | none => some (false, s.2)
    | some translated =>
      some (s.1, writeBack s.2 (getNodeOutputNames node) translated.outputTensors)

/-- `TryTranslateNodes`: whether all nodes were translated, and the shapes that it exports; `none`
when it stops. -/
def tryTranslateNodes (registry : OpTranslatorRegistry D) (sg : SubgraphInfo)
    (nodes : List Node) : Option (Bool × ValueShapes) :=
  nodes.foldlM (tryTranslateNode registry sg.allInitializers) (true, sg.valueShapes)

/-- `while (graph_input_aliases.count(name)) name = graph_input_aliases[name]`: `none` when the
loop does not end. -/
def resolveAlias (aliases : List (String × String)) : Nat → String → Option String
  | 0, name => if (aliases.lookup name).isNone then some name else none
  | fuel + 1, name =>
    match aliases.lookup name with
    | none => some name
    | some src => resolveAlias aliases fuel src

/-- A loop that ends meets every alias once at most. -/
def Translation.resolve (t : Translation D) (name : String) : Option String :=
  resolveAlias t.graphInputAliases t.graphInputAliases.length name

/-! ## The inputs of a compiled node -/

namespace CompiledNode

/-- How many packed inputs go to the primary operator. -/
def primaryInputCount (cn : CompiledNode D) : Nat :=
  if 0 < cn.translated.primaryInputCount then cn.translated.primaryInputCount
  else cn.translated.inputTensors.length

/-- The packed slots below `limit` with the names they read. -/
def slotsBelow (cn : CompiledNode D) (limit : Nat) : List (Nat × String) :=
  (List.range (min cn.inputNames.length limit)).filterMap fun s =>
    let nameIdx :=
      if cn.translated.inputNameReorder.isEmpty then some s
      else cn.translated.inputNameReorder[s]?
    (nameIdx.bind fun i => cn.inputNames[i]?).map fun name => (s, name)

def primarySlots (cn : CompiledNode D) : List (Nat × String) :=
  cn.slotsBelow cn.primaryInputCount

/-- The names wired to the primary operator and to the sub-nodes. -/
def wiredInputs (cn : CompiledNode D) : List String :=
  cn.primarySlots.map Prod.snd ++
    cn.translated.subNodes.flatMap fun sn =>
      sn.graphInputs.filterMap fun entry => cn.inputNames[entry.1]?

end CompiledNode

/-! ## Dead-node elimination -/

namespace Translation

variable (t : Translation D) (sg : SubgraphInfo)

/-- `dml_consumed_names`: what is wired, and the graph outputs. -/
def consumedNames : List String :=
  t.compiledNodes.flatMap CompiledNode.wiredInputs ++ sg.graphOutputMap.map Prod.fst

/-- `refcount`: how many of the consumed names a node produces. -/
def refcount (i : Nat) : Nat :=
  t.valueProducer.countP fun entry =>
    entry.2.1 == i && (t.consumedNames sg).contains entry.1

/-- The compiled nodes behind the wired inputs of a node, slot by slot. -/
def uses (i : Nat) : List Nat :=
  ((t.compiledNodes[i]?.map CompiledNode.wiredInputs).getD []).filterMap fun name =>
    (t.valueProducer.lookup name).map Prod.fst

/-- The nodes that the work queue does not reach, in order. -/
def liveNodes : List Nat :=
  let removed := (RefCount.sweep t.uses (t.refcount sg) t.compiledNodes.length).removed
  (List.range t.compiledNodes.length).filter fun i => !removed.contains i

/-! ## The input map -/

/-- All input names of the kept nodes. -/
def liveInputNames : List String :=
  (t.liveNodes sg).flatMap fun i => (t.compiledNodes[i]?.map CompiledNode.inputNames).getD []

/-- The initializers that a packed slot reads directly. -/
def directInitializers : List String :=
  (t.compiledNodes.flatMap fun cn => cn.primarySlots.map Prod.snd).filter fun name =>
    (sg.allInitializers name).isSome

/-- `consumed_initializer_names`, filtered by the resolved inputs of the kept nodes. -/
def consumedInitializers : List String :=
  (t.directInitializers sg).dedup.filter fun name =>
    ((t.liveInputNames sg).filterMap t.resolve).contains name

end Translation

structure DmlInputMap where
  constantNodes : List (String × List UInt8)
  dmlInputMap : List (String × Nat)
  subgraphToDmlInput : List (Option Nat)
  orderedInitializerNames : List String
  totalDmlInputs : Nat

/-- `kMaxConstNodeDataSize`. -/
def maxConstNodeDataSize : Nat := 8

/-- The inlined data of a small initializer. -/
def constantData (shapes : ValueShapes) (initializers : String → Option Initializer)
    (name : String) : Option (List UInt8) :=
  let bytes := ((shapes name).map DmlTensorInfo.totalBytes).getD 0
  if bytes = 0 ∨ maxConstNodeDataSize ≤ bytes then none
  else ((initializers name).bind Initializer.bytes).map (List.take bytes)

/-- Pass 2: the graph inputs that are not skipped get the first indices. -/
def assignInputs (skip : String → Bool) (names : List String) :
    List (String × Nat) × List (Option Nat) × Nat :=
  names.foldl
    (fun (acc : List (String × Nat) × List (Option Nat) × Nat) name =>
      if skip name then (acc.1, acc.2.1 ++ [none], acc.2.2)
      else (insertEntry acc.1 name acc.2.2, acc.2.1 ++ [some acc.2.2], acc.2.2 + 1))
    ([], [], 0)

/-- Pass 3: the initializers that have no index yet. -/
def assignInitializers (skip : String → Bool) (names : List String)
    (start : List (String × Nat) × Nat) : List (String × Nat) × List String × Nat :=
  names.foldl
    (fun (acc : List (String × Nat) × List String × Nat) name =>
      if skip name || (acc.1.lookup name).isSome then acc
      else (insertEntry acc.1 name acc.2.2, acc.2.1 ++ [name], acc.2.2 + 1))
    (start.1, [], start.2)

/-- `BuildDmlInputMap`; `skipInput` are the names that pass 2 leaves out beside the constants. -/
def buildDmlInputMap (skipInput : String → Bool) (graphInputs consumed : List String)
    (shapes : ValueShapes) (initializers : String → Option Initializer) : DmlInputMap :=
  let constantNodes := consumed.filterMap fun name =>
    (constantData shapes initializers name).map fun data => (name, data)
  let isConstant := fun name => (constantNodes.lookup name).isSome
  let inputs := assignInputs (fun name => skipInput name || isConstant name) graphInputs
  let extra := assignInitializers isConstant consumed (inputs.1, inputs.2.2)
  { constantNodes
    dmlInputMap := extra.1
    subgraphToDmlInput := inputs.2.1
    orderedInitializerNames := extra.2.1
    totalDmlInputs := extra.2.2 }

/-! ## Wiring -/

/-- `static_cast<UINT>`. -/
def toUInt (n : Nat) : Nat := n % 2 ^ 32

structure InputEdge where
  graphInput : Nat
  toNode : Nat
  toInput : Nat
  deriving DecidableEq, Repr

structure IntermediateEdge where
  fromNode : Nat
  fromOutput : Nat
  toNode : Nat
  toInput : Nat
  deriving DecidableEq, Repr

structure OutputEdge where
  fromNode : Nat
  fromOutput : Nat
  graphOutput : Nat
  deriving DecidableEq, Repr

inductive DmlNode (D : Type)
  | operator (desc : D)
  | constant (data : List UInt8)
  deriving DecidableEq, Repr

/-- `DML_GRAPH_DESC`. -/
structure DmlGraphDesc (D : Type) where
  inputCount : Nat
  outputCount : Nat
  nodes : List (DmlNode D)
  inputEdges : List InputEdge
  intermediateEdges : List IntermediateEdge
  outputEdges : List OutputEdge
  deriving DecidableEq, Repr

/-- What a resolved name stands for. -/
inductive ValueSource
  | constant (index : Nat)
  | graphInput (index : Nat)
  | produced (node slot : Nat)
  deriving DecidableEq, Repr

/-- The order in which the wiring looks: constants, DML graph inputs, compiled nodes. -/
def findSource (im : DmlInputMap) (t : Translation D) (name : String) : Option ValueSource :=
  if (im.constantNodes.lookup name).isSome then
    some (.constant (im.constantNodes.findIdx fun entry => entry.1 == name))
  else
    match im.dmlInputMap.lookup name with
    | some i => some (.graphInput i)
    | none => (t.valueProducer.lookup name).map fun p => .produced p.1 p.2

/-- The number of operators of a compiled node. -/
def operatorCount (cn : CompiledNode D) : Nat :=
  1 + cn.translated.subNodes.length

/-- `dml_node_offset`: `SIZE_MAX` for a node that is not kept. -/
def nodeOffset (t : Translation D) (live : List Nat) (i : Nat) : Nat :=
  if i ∈ live then
    ((live.filter (· < i)).map fun j => (t.compiledNodes[j]?.map operatorCount).getD 0).sum
  else 2 ^ 64 - 1

/-- `FromNodeIndex` and `FromNodeOutputIndex` of an output: as `output_source` says, or that slot
of the last operator. -/
def outputIndex (t : Translation D) (live : List Nat) (node slot : Nat) : Nat × Nat :=
  let offset := nodeOffset t live node
  match t.compiledNodes[node]? with
  | none => (toUInt offset, toUInt slot)
  | some cn =>
    match cn.translated.outputSource[slot]? with
    | some (srcSub, srcSlot) =>
      (toUInt (offset + if 0 ≤ srcSub then 1 + srcSub.toNat else 0), toUInt srcSlot.toNat)
    | none => (toUInt (offset + cn.translated.subNodes.length), toUInt slot)

structure Wiring where
  inputEdges : List InputEdge := []
  intermediateEdges : List IntermediateEdge := []

def Wiring.append (a b : Wiring) : Wiring where
  inputEdges := a.inputEdges ++ b.inputEdges
  intermediateEdges := a.intermediateEdges ++ b.intermediateEdges

/-- The edge from a source to an input slot. `constBase` is the index of the first constant. -/
def sourceEdge (t : Translation D) (live : List Nat) (constBase : Nat) (toNode toInput : Nat) :
    ValueSource → Wiring
  | .constant c => { intermediateEdges := [⟨toUInt (constBase + c), 0, toNode, toInput⟩] }
  | .graphInput i => { inputEdges := [⟨toUInt i, toNode, toInput⟩] }
  | .produced node slot =>
    let source := outputIndex t live node slot
    { intermediateEdges := [⟨source.1, source.2, toNode, toInput⟩] }

/-- The edge into a primary slot; `none` when the alias loop does not end or the input is
unresolved. -/
def wirePrimary (t : Translation D) (im : DmlInputMap) (live : List Nat) (constBase offset : Nat)
    (cn : CompiledNode D) (slot : Nat × String) : Option Wiring :=
  if slot.2 = "" then some {}
  else
    let schemaSlot :=
      if cn.translated.dmlInputSlotIndices.isEmpty then slot.1
      else cn.translated.dmlInputSlotIndices.getD slot.1 0
    (t.resolve slot.2).bind fun name =>
      (findSource im t name).map (sourceEdge t live constBase (toUInt offset) (toUInt schemaSlot))

/-- The edges between the operators of one node. An index below -1 is skipped. -/
def wireInternal (offset : Nat) (subNode : Nat) (sn : SubNode D) : Wiring where
  intermediateEdges := sn.inputFrom.zipIdx.filterMap fun entry =>
    let src := entry.1
    if src.1 < -1 then none
    else
      let fromNode := if src.1 < 0 then offset else offset + 1 + src.1.toNat
      some ⟨toUInt fromNode, toUInt src.2.toNat, toUInt (offset + 1 + subNode), toUInt entry.2⟩

/-- The edge of an ONNX input that goes to a sub-node; there is none for a produced value. -/
def wireSubInput (t : Translation D) (im : DmlInputMap) (live : List Nat)
    (constBase offset subNode : Nat) (cn : CompiledNode D) (entry : Nat × Nat) : Option Wiring :=
  match cn.inputNames[entry.1]? with
  | none => some {}
  | some giName =>
    (t.resolve giName).map fun name =>
      match findSource im t name with
      | some (.produced _ _) | none => {}
      | some source =>
        sourceEdge t live constBase (toUInt (offset + 1 + subNode)) (toUInt entry.2) source

/-- All edges into a compiled node. -/
def wireNode (t : Translation D) (im : DmlInputMap) (live : List Nat) (constBase : Nat) (i : Nat)
    (cn : CompiledNode D) : Option (List Wiring) :=
  let offset := nodeOffset t live i
  (cn.primarySlots.mapM (wirePrimary t im live constBase offset cn)).bind fun primary =>
    (cn.translated.subNodes.zipIdx.mapM fun (entry : SubNode D × Nat) =>
      (entry.1.graphInputs.mapM (wireSubInput t im live constBase offset entry.2 cn)).map
        fun wired => wireInternal offset entry.2 entry.1 :: wired).map
      fun sub => primary ++ sub.flatten

/-- The operators of the kept nodes, then the constants. -/
def graphNodes (t : Translation D) (im : DmlInputMap) (live : List Nat) : List (DmlNode D) :=
  (live.filterMap (t.compiledNodes[·]?)).flatMap (fun cn =>
      .operator cn.translated.opDesc ::
        cn.translated.subNodes.map fun sn => .operator sn.opDesc) ++
    im.constantNodes.map fun entry => .constant entry.2

def operatorTotal (t : Translation D) (live : List Nat) : Nat :=
  ((live.filterMap (t.compiledNodes[·]?)).map operatorCount).sum

def wireNodes (t : Translation D) (im : DmlInputMap) (live : List Nat) : Option Wiring :=
  (live.mapM fun i =>
    match t.compiledNodes[i]? with
    | none => some []
    | some cn => wireNode t im live (operatorTotal t live) i cn).map
      fun (wired : List (List Wiring)) => wired.flatten.foldl Wiring.append {}

/-! ## `Compile` -/

/-- The edge of a graph output; `none` when it is unresolved. -/
def outputEdge (t : Translation D) (live : List Nat) (entry : String × Nat) : Option OutputEdge :=
  (t.resolve entry.1).bind fun name =>
    (t.valueProducer.lookup name).map fun producer =>
      let source := outputIndex t live producer.1 producer.2
      ⟨source.1, source.2, toUInt entry.2⟩

/-- The input map of `Compile`. -/
def compileInputMap (t : Translation D) (sg : SubgraphInfo) : DmlInputMap :=
  buildDmlInputMap (· == "") sg.graphInputs (t.consumedInitializers sg) t.valueShapes
    sg.allInitializers

/-- Steps 4 to 9 behind the translation: the description that is handed to `CompileGraph`, or
`none` where `Compile` gives up or does not return. -/
def describe (t : Translation D) (sg : SubgraphInfo) : Option (DmlGraphDesc D) :=
  if (t.liveInputNames sg).any fun name => (t.resolve name).isNone then none
  else
    let live := t.liveNodes sg
    let im := compileInputMap t sg
    (wireNodes t im live).bind fun wiring =>
      (sg.graphOutputMap.mapM (outputEdge t live)).map fun outputEdges =>
        { inputCount := toUInt im.totalDmlInputs
          outputCount := toUInt sg.graphOutputs.length
          nodes := graphNodes t im live
          inputEdges := wiring.inputEdges
          intermediateEdges := wiring.intermediateEdges
          outputEdges }

/-! ## The pre-flight -/

/-- The device: whether it creates an operator, and compiles a graph. -/
structure DmlDevice (D : Type) where
  createOperator : D → Bool
  compileGraph : DmlGraphDesc D → Bool

/-- A resolved input of a compiled node is produced in the partition, an initializer, or an input
of the partition. -/
def boundaryNames (t : Translation D) (sg : SubgraphInfo) (resolved : List String) :
    List String × List String :=
  let outside := resolved.filter fun name => (t.valueProducer.lookup name).isNone
  (outside.filter (fun name => (sg.allInitializers name).isNone) |>.dedup,
    outside.filter fun name => (sg.allInitializers name).isSome)

/-- The initializers that the partition reads directly. All input tensors count here. -/
def partitionInitializers (t : Translation D) (sg : SubgraphInfo) : List String :=
  (t.compiledNodes.flatMap fun cn =>
      (cn.slotsBelow cn.translated.inputTensors.length).map Prod.snd).filter fun name =>
    (sg.allInitializers name).isSome

/-- Every operator output that no edge starts from gets an output edge of its own. -/
def danglingOutputs (t : Translation D) (im : DmlInputMap) (all : List Nat)
    (wiredFrom : List Nat) : List OutputEdge :=
  let outputs := (t.compiledNodes.zipIdx.flatMap fun entry =>
      (List.range entry.1.outputNames.length).map (outputIndex t all entry.2)) ++
    (List.range im.constantNodes.length).map fun c => (toUInt (operatorTotal t all + c), 0)
  (outputs.filter fun source => !wiredFrom.contains source.1).zipIdx.map fun entry =>
    ⟨entry.1.1, entry.1.2, toUInt entry.2⟩

/-- The graph that the pre-flight compiles: all nodes are kept, and the inputs are the boundary of
the partition. -/
def partitionDesc (t : Translation D) (sg : SubgraphInfo) : Option (DmlGraphDesc D) :=
  let names := (t.compiledNodes.flatMap fun cn => cn.primarySlots.map Prod.snd).filter (· != "")
  (names.mapM t.resolve).bind fun resolved =>
    let boundary := boundaryNames t sg resolved
    let consumed := (partitionInitializers t sg ++ boundary.2).dedup
    let im := buildDmlInputMap (fun _ => false) boundary.1 consumed t.valueShapes
      sg.allInitializers
    let all := List.range t.compiledNodes.length
    (wireNodes t im all).map fun wiring =>
      let outputEdges :=
        danglingOutputs t im all (wiring.intermediateEdges.map IntermediateEdge.fromNode)
      { inputCount := toUInt im.totalDmlInputs
        outputCount := toUInt outputEdges.length
        nodes := graphNodes t im all
        inputEdges := wiring.inputEdges
        intermediateEdges := wiring.intermediateEdges
        outputEdges }

/-- `TryCompilePartition`. A partition without compiled nodes is accepted. -/
def tryCompilePartition (registry : OpTranslatorRegistry D) (device : DmlDevice D)
    (sg : SubgraphInfo) (nodes : List Node) : Bool :=
  match translateNodes registry sg nodes with
  | none => false
  | some t =>
    if t.compiledNodes.isEmpty then true
    else if t.compiledNodes.all fun cn => device.createOperator cn.translated.opDesc &&
        cn.translated.subNodes.all fun sn => device.createOperator sn.opDesc then
      match partitionDesc t sg with
      | none => false
      | some desc => device.compileGraph desc
    else false

end

/-! ## What the walk and the maps hold -/

namespace FullGraphLemmas

section

variable {β : Type}

theorem mem_insertEntry {map : List (String × β)} {key : String} {value : β}
    {entry : String × β} (h : entry ∈ insertEntry map key value) :
    entry = (key, value) ∨ entry ∈ map := by
  rcases List.mem_cons.1 h with h | h
  · exact Or.inl h
  · exact Or.inr (List.mem_filter.1 h).1

theorem lookup_filter_ne {map : List (String × β)} {key k : String} (h : k ≠ key) :
    (map.filter fun entry => entry.1 != key).lookup k = map.lookup k := by
  induction map with
  | nil => rfl
  | cons entry map ih =>
    obtain ⟨name, value⟩ := entry
    by_cases hname : name = key
    · subst hname
      rw [List.filter_cons_of_neg (by simp), ih, List.lookup_cons, beq_false_of_ne h]
    · rw [List.filter_cons_of_pos (by simpa using hname), List.lookup_cons, List.lookup_cons, ih]

theorem lookup_insertEntry (map : List (String × β)) (key k : String) (value : β) :
    (insertEntry map key value).lookup k = if k = key then some value else map.lookup k := by
  unfold insertEntry
  rw [List.lookup_cons]
  by_cases h : k = key
  · simp [h]
  · rw [beq_false_of_ne h, lookup_filter_ne h, if_neg h]

theorem mem_of_lookup {map : List (String × β)} {k : String} {value : β}
    (h : map.lookup k = some value) : (k, value) ∈ map := by
  induction map with
  | nil => cases h
  | cons entry map ih =>
    obtain ⟨name, v⟩ := entry
    rw [List.lookup_cons] at h
    split at h
    · next heq =>
      cases h
      rw [beq_iff_eq.1 heq]
      exact List.mem_cons_self
    · exact List.mem_cons_of_mem _ (ih h)

/-- A loop in `Option` gets through when every turn does. -/
theorem mapM_isSome {α γ : Type} {f : α → Option γ} {l : List α} :
    (l.mapM f).isSome ↔ ∀ x ∈ l, (f x).isSome := by
  induction l with
  | nil => simp
  | cons x l ih =>
    rw [List.mapM_cons, List.forall_mem_cons, ← ih]
    cases f x with
    | none => simp
    | some y => cases l.mapM f <;> simp

end

variable {D : Type} {registry : OpTranslatorRegistry D} {t t' : Translation D}
  {sg : SubgraphInfo}

theorem mem_slotsBelow {cn : CompiledNode D} {limit : Nat} {slot : Nat × String}
    (h : slot ∈ cn.slotsBelow limit) : slot.2 ∈ cn.inputNames := by
  obtain ⟨s, -, hs⟩ := List.mem_filterMap.1 h
  obtain ⟨name, hname, rfl⟩ := Option.map_eq_some_iff.1 hs
  obtain ⟨i, -, hi⟩ := Option.bind_eq_some_iff.1 hname
  exact List.mem_of_getElem? hi

theorem mem_wiredInputs {cn : CompiledNode D} {name : String} (h : name ∈ cn.wiredInputs) :
    name ∈ cn.inputNames := by
  rcases List.mem_append.1 h with h | h
  · obtain ⟨slot, hslot, rfl⟩ := List.mem_map.1 h
    exact mem_slotsBelow hslot
  · obtain ⟨sn, -, hsn⟩ := List.mem_flatMap.1 h
    obtain ⟨entry, -, hentry⟩ := List.mem_filterMap.1 hsn
    exact List.mem_of_getElem? hentry

/-- A turn of the walk elides the node or appends it. -/
theorem translateNode_cases {initializers : String → Option Initializer} {node : Node}
    (h : translateNode registry initializers t node = some t') :
    ∃ shapes, t' = elide { t with valueShapes := shapes } (getNodeInputNames node)
        (getNodeOutputNames node) ∨
      ∃ cn : CompiledNode D, t' = pushNode { t with valueShapes := shapes } cn := by
  unfold translateNode at h
  split at h
  · cases h
  · split at h
    · cases h
    · next translated _ =>
      refine ⟨writeBack t.valueShapes (getNodeOutputNames node) translated.outputTensors, ?_⟩
      dsimp only at h
      split at h
      · cases h
        exact Or.inl rfl
      · cases h
        exact Or.inr ⟨_, rfl⟩

/-- Every produced value names a compiled node. -/
def ProducersIn (t : Translation D) : Prop :=
  ∀ entry ∈ t.valueProducer, entry.2.1 < t.compiledNodes.length

theorem producersIn_elide (h : ProducersIn t) (inputNames outputNames : List String) :
    ProducersIn (elide t inputNames outputNames) := by
  unfold elide
  split
  · exact h
  · next src _ =>
    split
    · next producer hproducer =>
      have hlt : producer.1 < t.compiledNodes.length := h _ (mem_of_lookup hproducer)
      show ∀ entry ∈ outputNames.foldl (fun map name => insertEntry map name producer)
        t.valueProducer, entry.2.1 < t.compiledNodes.length
      have hfold : ∀ map : List (String × (Nat × Nat)),
          (∀ entry ∈ map, entry.2.1 < t.compiledNodes.length) →
          ∀ entry ∈ outputNames.foldl (fun map name => insertEntry map name producer) map,
            entry.2.1 < t.compiledNodes.length := by
        induction outputNames with
        | nil => exact fun _ hmap => hmap
        | cons name names ih =>
          intro map hmap
          refine ih _ fun entry hentry => ?_
          rcases mem_insertEntry hentry with rfl | hentry
          · exact hlt
          · exact hmap entry hentry
      exact hfold _ h
    · exact h

theorem producersIn_pushNode (h : ProducersIn t) (cn : CompiledNode D) :
    ProducersIn (pushNode t cn) := by
  have hfold : ∀ (names : List (String × Nat)) (map : List (String × (Nat × Nat))),
      (∀ entry ∈ map, entry.2.1 < t.compiledNodes.length + 1) →
      ∀ entry ∈ names.foldl
          (fun map entry => insertEntry map entry.1 (t.compiledNodes.length, entry.2)) map,
        entry.2.1 < t.compiledNodes.length + 1 := by
    intro names
    induction names with
    | nil => exact fun _ hmap => hmap
    | cons name names ih =>
      intro map hmap
      refine ih _ fun entry hentry => ?_
      rcases mem_insertEntry hentry with rfl | hentry
      · exact Nat.lt_succ_self _
      · exact hmap entry hentry
  intro entry hentry
  have hlt := hfold _ _ (fun entry hentry => Nat.lt_succ_of_lt (h entry hentry)) entry hentry
  show entry.2.1 < (t.compiledNodes ++ [cn]).length
  rwa [List.length_append]

theorem producersIn_foldlM {initializers : String → Option Initializer} {nodes : List Node}
    (h : ProducersIn t)
    (hrun : nodes.foldlM (translateNode registry initializers) t = some t') : ProducersIn t' := by
  induction nodes generalizing t with
  | nil =>
    cases hrun
    exact h
  | cons node nodes ih =>
    rw [List.foldlM_cons] at hrun
    obtain ⟨mid, hmid, hrest⟩ := Option.bind_eq_some_iff.1 hrun
    refine ih ?_ hrest
    obtain ⟨shapes, rfl | ⟨cn, rfl⟩⟩ := translateNode_cases hmid
    · exact producersIn_elide (t := { t with valueShapes := shapes }) h _ _
    · exact producersIn_pushNode (t := { t with valueShapes := shapes }) h cn

end FullGraphLemmas

open FullGraphLemmas

section

variable {D : Type} {registry : OpTranslatorRegistry D} {t : Translation D} {sg : SubgraphInfo}
  {nodes : List Node}

/-- A translated value names a node of the translation. -/
theorem producers_lt (h : translateNodes registry sg nodes = some t) : ProducersIn t := by
  refine producersIn_foldlM ?_ h
  intro entry hentry
  cases hentry

/-- Dead-node elimination keeps the nodes that are not starved. -/
theorem live_iff (h : ProducersIn t) {i : Nat} :
    i ∈ t.liveNodes sg ↔ i < t.compiledNodes.length ∧
      ¬ RefCount.Starved t.uses (t.refcount sg) t.compiledNodes.length i := by
  have huses : ∀ d, ∀ j ∈ t.uses d, j < t.compiledNodes.length := by
    intro d j hj
    obtain ⟨name, -, hname⟩ := List.mem_filterMap.1 hj
    obtain ⟨producer, hlookup, rfl⟩ := Option.map_eq_some_iff.1 hname
    exact h _ (mem_of_lookup hlookup)
  rw [← RefCount.mem_sweep_iff huses]
  simp [Translation.liveNodes]

/-- Pass 2 gives an index to every name that is not skipped. -/
theorem assignInputs_lookup (skip : String → Bool) (names : List String) (k : String) :
    ((assignInputs skip names).1.lookup k).isSome ↔ k ∈ names ∧ skip k = false := by
  have hfold : ∀ acc : List (String × Nat) × List (Option Nat) × Nat,
      ((names.foldl (fun (acc : List (String × Nat) × List (Option Nat) × Nat) name =>
        if skip name then (acc.1, acc.2.1 ++ [none], acc.2.2)
        else (insertEntry acc.1 name acc.2.2, acc.2.1 ++ [some acc.2.2], acc.2.2 + 1))
        acc).1.lookup k).isSome ↔ (acc.1.lookup k).isSome ∨ k ∈ names ∧ skip k = false := by
    induction names with
    | nil => simp
    | cons name names ih =>
      intro acc
      rw [List.foldl_cons, ih]
      cases hskip : skip name with
      | true =>
        have hne : skip k = false → k ≠ name := by
          rintro hk rfl
          rw [hskip] at hk
          cases hk
        simp only [if_true, List.mem_cons]
        refine or_congr_right (and_congr_left fun hk => ?_)
        exact (or_iff_right (hne hk)).symm
      | false =>
        simp only [Bool.false_eq_true, if_false, lookup_insertEntry, List.mem_cons]
        by_cases hk : k = name
        · subst hk
          simp [hskip]
        · simp [hk]
  simpa [assignInputs] using hfold ([], [], 0)

/-- Pass 3 gives an index to every name that is not skipped and has none yet. -/
theorem assignInitializers_lookup (skip : String → Bool) (names : List String)
    (start : List (String × Nat) × Nat) (k : String) :
    ((assignInitializers skip names start).1.lookup k).isSome ↔
      (start.1.lookup k).isSome ∨ k ∈ names ∧ skip k = false := by
  have hfold : ∀ acc : List (String × Nat) × List String × Nat,
      ((names.foldl (fun (acc : List (String × Nat) × List String × Nat) name =>
        if skip name || (acc.1.lookup name).isSome then acc
        else (insertEntry acc.1 name acc.2.2, acc.2.1 ++ [name], acc.2.2 + 1))
        acc).1.lookup k).isSome ↔ (acc.1.lookup k).isSome ∨ k ∈ names ∧ skip k = false := by
    induction names with
    | nil => simp
    | cons name names ih =>
      intro acc
      rw [List.foldl_cons, ih, List.mem_cons]
      by_cases hk : k = name
      · subst hk
        cases hskip : skip k with
        | true => simp
        | false =>
          cases hacc : acc.1.lookup k with
          | some i => simp [hacc]
          | none => simp [lookup_insertEntry]
      · split
        · simp [hk]
        · simp [hk, lookup_insertEntry]
  exact hfold (start.1, [], start.2)

theorem lookup_filterMap_pair {γ : Type} (f : String → Option γ) (names : List String)
    (k : String) :
    ((names.filterMap fun name => (f name).map fun data => (name, data)).lookup k).isSome ↔
      k ∈ names ∧ (f k).isSome := by
  induction names with
  | nil => simp
  | cons name names ih =>
    rw [List.mem_cons]
    cases hf : f name with
    | none =>
      rw [List.filterMap_cons_none (by simp [hf]), ih]
      refine and_congr_left fun hk => ?_
      refine (or_iff_right ?_).symm
      rintro rfl
      rw [hf] at hk
      cases hk
    | some data =>
      rw [List.filterMap_cons_some (by simp [hf]; rfl), List.lookup_cons]
      by_cases hk : k = name
      · subst hk
        simp [hf]
      · rw [beq_false_of_ne hk, ih]
        simp [hk]

/-- The names with a constant node or an index: the graph inputs that are not skipped, and the
consumed initializers. -/
theorem buildDmlInputMap_lookup (skipInput : String → Bool) (graphInputs consumed : List String)
    (shapes : ValueShapes) (initializers : String → Option Initializer) (k : String)
    (im : DmlInputMap)
    (him : im = buildDmlInputMap skipInput graphInputs consumed shapes initializers) :
    (im.constantNodes.lookup k).isSome ∨ (im.dmlInputMap.lookup k).isSome ↔
      (skipInput k = false ∧ k ∈ graphInputs) ∨ k ∈ consumed := by
  have hconst : (im.constantNodes.lookup k).isSome ↔
      k ∈ consumed ∧ (constantData shapes initializers k).isSome := by
    rw [him]
    exact lookup_filterMap_pair _ consumed k
  have hmap : (im.dmlInputMap.lookup k).isSome ↔
      (k ∈ graphInputs ∧ (skipInput k || (im.constantNodes.lookup k).isSome) = false) ∨
        k ∈ consumed ∧ (im.constantNodes.lookup k).isSome = false := by
    rw [him]
    exact (assignInitializers_lookup _ consumed _ k).trans
      (or_congr_left (assignInputs_lookup _ graphInputs k))
  rw [hmap]
  cases hc : (im.constantNodes.lookup k).isSome with
  | true =>
    have hk := (hconst.1 hc).1
    simp [hk]
  | false => simp [and_comm]

/-- The names that come from outside: named graph inputs and consumed initializers. -/
def External (t : Translation D) (sg : SubgraphInfo) (k : String) : Prop :=
  (k ≠ "" ∧ k ∈ sg.graphInputs) ∨ k ∈ t.consumedInitializers sg

theorem external_iff (t : Translation D) (sg : SubgraphInfo) (k : String) :
    External t sg k ↔ ((compileInputMap t sg).constantNodes.lookup k).isSome ∨
      ((compileInputMap t sg).dmlInputMap.lookup k).isSome := by
  have hlookup := buildDmlInputMap_lookup (· == "") sg.graphInputs (t.consumedInitializers sg)
    t.valueShapes sg.allInitializers k (compileInputMap t sg) rfl
  rw [beq_eq_false_iff_ne] at hlookup
  exact hlookup.symm

/-- A name from outside is found in the input map. -/
theorem findSource_of_external {k : String} (h : External t sg k) :
    ∃ source, findSource (compileInputMap t sg) t k = some source ∧
      ∀ node slot, source ≠ .produced node slot := by
  unfold findSource
  split
  · exact ⟨_, rfl, fun _ _ heq => nomatch heq⟩
  · next hconst =>
    have hmap := ((external_iff t sg k).1 h).resolve_left hconst
    obtain ⟨i, hi⟩ := Option.isSome_iff_exists.1 hmap
    rw [hi]
    exact ⟨_, rfl, fun _ _ heq => nomatch heq⟩

/-- Any other name is looked up among the produced values. -/
theorem findSource_of_inner {k : String} (h : ¬ External t sg k) :
    findSource (compileInputMap t sg) t k =
      (t.valueProducer.lookup k).map fun p => .produced p.1 p.2 := by
  obtain ⟨hconst, hmap⟩ := not_or.1 (mt (external_iff t sg k).2 h)
  unfold findSource
  rw [if_neg hconst, Option.not_isSome_iff_eq_none.1 hmap]

end

end AmdGpuEp.DirectML
