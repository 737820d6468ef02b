import AmdGpuEp.MIGraphX.ShapeKey
import AmdGpuEp.Shared.TopologicalSort

/-!
# The name of a cached program

A compiled program is kept as `<version>-<graph id>-<arch>-<shapes>.mxr` in the
cache directory. The graph id is the digest of `GenerateGraphId`, the other
parts come from `Compile` and `NodeComputeInfo::Compute`. The program itself is
a function of the serialized model, the options and the input shapes.

Results:
1. `graphItems_inj`: the transcript of the graph id determines the names it
   lists, how they are grouped into nodes, and the shapes of the node inputs.
2. `mxrPath_eq_iff`: two nodes have one path exactly when those parts, the
   architecture, the shapes in hashing order and the directory agree.
3. `cacheHit_sound_iff`: a shared path means a shared program, for every
   compiler, exactly when the two nodes differ in a hashed part or agree in all
   the rest: operators, attributes, initializers, options.
-/

namespace AmdGpuEp.MIGraphX

/-! ## What a compiled program depends on -/

/-- A node as `GraphToProto` writes it. The bodies of a control flow node are attributes. -/
structure ProtoNode where
  name : String
  opType : String
  domain : String
  inputs : List (Option String)
  outputs : List (Option String)
  attributes : List (String × AttrValue)
  deriving DecidableEq

/-- The element type and the declared shape of a value. -/
structure ValueInfo where
  name : String
  elemType : Nat
  shape : List Int64
  deriving DecidableEq

/-- An initializer of the graph. -/
structure Initializer where
  name : String
  elemType : Nat
  dims : List Int64
  data : List UInt8
  deriving DecidableEq

/-- The content of the serialized model (`onnx_string`). -/
structure ModelContent where
  nodes : List ProtoNode
  inputs : List String
  outputs : List String
  valueInfos : List ValueInfo
  initializers : List Initializer
  opsets : List (String × Nat)
  deriving DecidableEq

/-- The options that reach `parse_onnx_buffer`, `calibrate_and_quantize` and `compile_program`.
`externalDataDir` is the directory in use: the option, or else that of the model. -/
structure CompileOptions where
  externalDataDir : String := ""
  enableFp16 : Bool := false
  enableBf16 : Bool := false
  enableFp8 : Bool := false
  enableInt8 : Bool := false
  int8CalibrationCacheAvailable : Bool := false
  dynamicRanges : List (String × UInt32) := []
  exhaustiveTune : Bool := false
  mlssUseSpecificOps : String := ""
  deriving DecidableEq

/-- What MIGraphX compiles: the model, the options and a shape for each input. -/
structure CompileInput where
  model : ModelContent
  options : CompileOptions
  shapes : List (String × List Int64)
  deriving DecidableEq

/-! ## The fused node -/

/-- A fused node when its cache path is computed. `sortedNodes` is the result of the sort,
`hashOrder` the order in which the input shapes are hashed and `shapes` the effective shapes.
`modelFilename` is empty when the model path has no file name. Names are C strings, and the
counts of names leave the top byte of a `size_t` free. -/
structure FusedNode where
  graph : Graph
  sortedNodes : List Node
  modelFilename : String := ""
  valueInfos : List ValueInfo := []
  initializers : List Initializer := []
  opsets : List (String × Nat) := []
  options : CompileOptions := {}
  gcnArchName : String := ""
  cacheDir : String := ""
  hashOrder : List String := []
  shapes : Shapes := fun _ => []
  sorted : getKahnsVariantTopologicalSortedNodes graph = some (.ok sortedNodes)
  filename_noNul : 0 ∉ strBytes modelFilename
  inputs_noNul : ∀ v ∈ graph.inputs, 0 ∉ strBytes v
  inputs_size : graph.inputs.length < 256 ^ 7
  outputs_size : ∀ n ∈ sortedNodes, n.outputNames.length < 256 ^ 7

namespace FusedNode

/-- `GetShape` of a value of the graph. -/
def shapeOf (f : FusedNode) (v : String) : List Int64 :=
  match f.valueInfos.find? fun i => i.name == v with
  | some i => i.shape
  | none => []

def protoNode (n : Node) : ProtoNode where
  name := n.name
  opType := n.opType
  domain := n.domain
  inputs := n.inputs
  outputs := n.outputs
  attributes := n.attributes

def content (f : FusedNode) : ModelContent where
  nodes := f.sortedNodes.map protoNode
  inputs := f.graph.inputs
  outputs := f.graph.outputs
  valueInfos := f.valueInfos
  initializers := f.initializers
  opsets := f.opsets

def compileInput (f : FusedNode) : CompileInput where
  model := f.content
  options := f.options
  shapes := f.graph.inputs.map fun v => (v, f.shapes v)

end FusedNode

/-! ## The transcript of the graph id -/

/-- `for (i = length; i > 0 && i < 500; i += length)`, with a bound on the number of turns. -/
def repeatModelName (name : String) : Nat → Nat → String → String
  | 0, _, repeated => repeated
  | fuel + 1, i, repeated =>
    if 0 < i ∧ i < 500 then repeatModelName name fuel (i + name.utf8ByteSize) (repeated ++ name)
    else repeated

/-- `repeated_model_name`, when the path has a file name. -/
def repeatedModelName (filename : String) : Option String :=
  if filename = "" then none
  else some (repeatModelName filename 500 filename.utf8ByteSize filename)

/-- The names of a node, and the shapes of its inputs, as they are hashed. -/
structure HashedNode where
  outputs : List String
  inputs : List (String × List Int64)
  deriving DecidableEq

/-- What `GenerateGraphId` reads of a graph. -/
structure HashedGraph where
  modelName : Option String
  inputs : List String
  nodes : List HashedNode
  deriving DecidableEq

/-- `hash::Hash(value, size)`. -/
def sizeItem (n : Nat) : List UInt8 := leBytes 8 n

def HashedNode.items (n : HashedNode) : List (List UInt8) :=
  sizeItem n.outputs.length :: n.outputs.map strBytes ++
    sizeItem n.inputs.length :: n.inputs.flatMap fun i => [strBytes i.1, wordsBytes i.2]

/-- The platform of the build. -/
inductive Platform
  | windows
  | linux

def Platform.tag : Platform → String
  | .windows => "WINDOWS"
  | .linux => "LINUX"

/-- The byte strings that `GenerateGraphId` hashes, in order. -/
def graphItems (platform : Platform) (h : HashedGraph) : List (List UInt8) :=
  (h.modelName.toList ++ h.inputs).map strBytes ++
    sizeItem h.inputs.length :: (h.nodes.flatMap HashedNode.items ++ [strBytes platform.tag])

/-- The parts of a fused node that `GenerateGraphId` hashes. -/
def FusedNode.hashedGraph (f : FusedNode) : HashedGraph where
  modelName := repeatedModelName f.modelFilename
  inputs := f.graph.inputs
  nodes := f.sortedNodes.map fun n =>
    { outputs := n.outputNames
      inputs := n.inputs.reduceOption.map fun v => (v, f.shapeOf v) }

/-! ## The path -/

/-- The parts of the file name, which it joins with dashes, and the directory. Hex digits have
no dash. -/
structure MxrPath (D : Type*) where
  cacheDir : String
  version : UInt64
  graphId : D
  arch : D
  shapes : D

variable {D : Type*} (H : IdealHash D) (platform : Platform) (version : UInt64)

/-- `mxr_path`: empty when no cache directory is set. -/
def mxrPath (f : FusedNode) : Option (MxrPath D) :=
  if f.cacheDir = "" then none
  else some {
    cacheDir := f.cacheDir
    version := version
    graphId := H.digest (graphItems platform f.hashedGraph)
    arch := H.digest [strBytes f.gcnArchName]
    shapes := runShapesHash H f.hashOrder f.shapes }

/-- All that reaches the path. -/
structure HashedParts where
  cacheDir : String
  graph : HashedGraph
  arch : String
  shapes : List (List Int64)
  deriving DecidableEq

def FusedNode.hashedParts (f : FusedNode) : HashedParts where
  cacheDir := f.cacheDir
  graph := f.hashedGraph
  arch := f.gcnArchName
  shapes := f.hashOrder.map f.shapes

/-- A node without the names that are hashed: which slots are filled is still to be seen. -/
structure UnhashedNode where
  name : String
  opType : String
  domain : String
  inputSlots : List Bool
  outputSlots : List Bool
  attributes : List (String × AttrValue)
  deriving DecidableEq

/-- What a program depends on and the path leaves out. The shapes are there with the names they
belong to; the path has them without names. -/
structure UnhashedParts where
  nodes : List UnhashedNode
  outputs : List String
  valueInfos : List ValueInfo
  initializers : List Initializer
  opsets : List (String × Nat)
  options : CompileOptions
  shapes : List (String × List Int64)
  deriving DecidableEq

def ProtoNode.unhashed (n : ProtoNode) : UnhashedNode where
  name := n.name
  opType := n.opType
  domain := n.domain
  inputSlots := n.inputs.map Option.isSome
  outputSlots := n.outputs.map Option.isSome
  attributes := n.attributes

def CompileInput.unhashed (c : CompileInput) : UnhashedParts where
  nodes := c.model.nodes.map ProtoNode.unhashed
  outputs := c.model.outputs
  valueInfos := c.model.valueInfos
  initializers := c.model.initializers
  opsets := c.model.opsets
  options := c.options
  shapes := c.shapes

def FusedNode.unhashedParts (f : FusedNode) : UnhashedParts :=
  f.compileInput.unhashed

/-- A program found under the path of `b` is the one that compiling `a` would give, whatever the
compiler is, when `a` has that path too. -/
def CacheHitSound (a b : FusedNode) : Prop :=
  ∀ (Program : Type) (compile : CompileInput → Program) (path : MxrPath D),
    mxrPath H platform version a = some path → mxrPath H platform version b = some path →
      compile a.compileInput = compile b.compileInput

/-! ## Reading the transcript back -/

namespace CacheKeyLemmas

theorem sizeItem_inj {n m : Nat} (hn : n < 2 ^ 64) (hm : m < 2 ^ 64)
    (h : sizeItem n = sizeItem m) : n = m :=
  leBytes_inj (by simpa using hn) (by simpa using hm) h

/-- A size has a zero byte, so that it cannot be taken for a name. -/
theorem zero_mem_sizeItem {n : Nat} (h : n < 256 ^ 7) : 0 ∈ sizeItem n :=
  zero_mem_leBytes h

theorem map_strBytes_inj {l l' : List String} (h : l.map strBytes = l'.map strBytes) : l = l' :=
  List.map_injective_iff.2 (fun _ _ => strBytes_inj) h

/-- The sizes of a node fit a `size_t`, the first of them with its top byte free. -/
structure SizedNode (n : HashedNode) : Prop where
  outputs : n.outputs.length < 256 ^ 7
  inputs : n.inputs.length < 2 ^ 64

theorem toList_inj {a b : Option String} (h : a.toList = b.toList) : a = b := by
  cases a <;> cases b <;> simp_all

/-- What stands at the front of a transcript as the items of a node is that node. -/
theorem nodeItems_append_inj {n m : HashedNode} (hn : SizedNode n) (hm : SizedNode m)
    {r s : List (List UInt8)} (h : n.items ++ r = m.items ++ s) : n = m ∧ r = s := by
  have hpow : (256 : Nat) ^ 7 < 2 ^ 64 := by decide
  simp only [HashedNode.items, List.cons_append, List.append_assoc] at h
  obtain ⟨hsize, h⟩ := List.cons.inj h
  have hlen := sizeItem_inj (hn.outputs.trans hpow) (hm.outputs.trans hpow) hsize
  obtain ⟨houts, h⟩ := List.append_inj h (by simpa using hlen)
  obtain ⟨hsize, h⟩ := List.cons.inj h
  have hlen := sizeItem_inj hn.inputs hm.inputs hsize
  obtain ⟨hins, hr⟩ := List.append_inj h (by simp [hlen])
  have hpairs : n.inputs = m.inputs := by
    generalize n.inputs = xs at hins
    generalize m.inputs = ys at hins
    induction xs generalizing ys with
    | nil => cases ys with
      | nil => rfl
      | cons y ys => cases hins
    | cons x xs ih => cases ys with
      | nil => cases hins
      | cons y ys =>
        simp only [List.flatMap_cons, List.cons_append, List.nil_append, List.cons.injEq] at hins
        obtain ⟨hname, hshape, htail⟩ := hins
        rw [ih ys htail, Prod.ext (strBytes_inj hname) (wordsBytes_inj hshape)]
  refine ⟨?_, hr⟩
  cases n
  cases m
  exact congrArg₂ HashedNode.mk (map_strBytes_inj houts) hpairs

/-- A list of nodes is read back up to the platform item that ends it. -/
theorem nodesItems_inj {ns ms : List HashedNode} (hns : ∀ n ∈ ns, SizedNode n)
    (hms : ∀ m ∈ ms, SizedNode m) {p : List UInt8} (hp : 0 ∉ p)
    (h : ns.flatMap HashedNode.items ++ [p] = ms.flatMap HashedNode.items ++ [p]) : ns = ms := by
  have hstart : ∀ (m : HashedNode) (ms : List HashedNode), SizedNode m →
      [p] ≠ (m :: ms).flatMap HashedNode.items ++ [p] := by
    intro m ms hm e
    simp only [List.flatMap_cons, HashedNode.items, List.cons_append] at e
    exact hp ((List.cons.inj e).1 ▸ zero_mem_sizeItem hm.outputs)
  induction ns generalizing ms with
  | nil => cases ms with
    | nil => rfl
    | cons m ms => exact absurd h (hstart m ms (hms m (List.mem_cons_self ..)))
  | cons n ns ih => cases ms with
    | nil => exact absurd h.symm (hstart n ns (hns n (List.mem_cons_self ..)))
    | cons m ms =>
      rw [List.flatMap_cons, List.flatMap_cons, List.append_assoc, List.append_assoc] at h
      obtain ⟨hnm, htail⟩ := nodeItems_append_inj (hns n (List.mem_cons_self ..))
        (hms m (List.mem_cons_self ..)) h
      rw [hnm, ih (fun k hk => hns k (List.mem_cons_of_mem _ hk))
        (fun k hk => hms k (List.mem_cons_of_mem _ hk)) htail]

theorem tag_noNul (platform : Platform) : 0 ∉ strBytes platform.tag := by
  cases platform <;> decide

/-- The names in front of the first size have no NUL, and the sizes are bounded. -/
structure Readable (h : HashedGraph) : Prop where
  modelName : ∀ s ∈ h.modelName, 0 ∉ strBytes s
  inputs : ∀ s ∈ h.inputs, 0 ∉ strBytes s
  size : h.inputs.length < 256 ^ 7
  nodes : ∀ n ∈ h.nodes, SizedNode n

end CacheKeyLemmas

open CacheKeyLemmas

/-- The transcript determines all it lists. -/
theorem graphItems_inj {platform : Platform} {h k : HashedGraph} (hh : Readable h)
    (hk : Readable k) (heq : graphItems platform h = graphItems platform k) : h = k := by
  have hpow : (256 : Nat) ^ 7 < 2 ^ 64 := by decide
  have hnames : ∀ g : HashedGraph, Readable g →
      ∀ x ∈ (g.modelName.toList ++ g.inputs).map strBytes, ¬ 0 ∈ x := by
    intro g hg x hx
    obtain ⟨s, hs, rfl⟩ := List.mem_map.1 hx
    rcases List.mem_append.1 hs with hs | hs
    · exact hg.modelName s (by simpa using hs)
    · exact hg.inputs s hs
  obtain ⟨hfront, hsize, hrest⟩ := split_at_first (q := fun x => 0 ∈ x) (hnames h hh)
    (hnames k hk) (zero_mem_sizeItem hh.size) (zero_mem_sizeItem hk.size) heq
  have hlen := sizeItem_inj (hh.size.trans hpow) (hk.size.trans hpow) hsize
  obtain ⟨hmodel, hinputs⟩ := List.append_inj' (map_strBytes_inj hfront) hlen
  have hnodes := nodesItems_inj hh.nodes hk.nodes (tag_noNul platform) hrest
  cases h
  cases k
  simp only [HashedGraph.mk.injEq]
  exact ⟨toList_inj hmodel, hinputs, hnodes⟩

/-! ## The path and the program -/

namespace CacheKeyLemmas

theorem repeatModelName_noNul {name : String} (h : 0 ∉ strBytes name) (fuel i : Nat)
    {repeated : String} (hr : 0 ∉ strBytes repeated) :
    0 ∉ strBytes (repeatModelName name fuel i repeated) := by
  induction fuel generalizing i repeated with
  | zero => exact hr
  | succ fuel ih =>
    unfold repeatModelName
    split
    · refine ih _ ?_
      rw [strBytes_append]
      simp [hr, h]
    · exact hr

theorem sortedNodes_subset (f : FusedNode) : f.sortedNodes ⊆ f.graph.nodes := by
  obtain ⟨r, hr, hperm⟩ := kahn_terminates f.graph
  rw [f.sorted] at hr
  exact (hperm f.sortedNodes (Option.some.inj hr).symm).subset

theorem readable (f : FusedNode) : Readable f.hashedGraph where
  modelName := by
    intro s hs
    simp only [FusedNode.hashedGraph, repeatedModelName] at hs
    split at hs
    · cases hs
    · obtain rfl := Option.some.inj hs
      exact repeatModelName_noNul f.filename_noNul _ _ f.filename_noNul
  inputs := f.inputs_noNul
  size := f.inputs_size
  nodes := by
    intro n hn
    obtain ⟨m, hm, rfl⟩ := List.mem_map.1 hn
    refine ⟨f.outputs_size m hm, ?_⟩
    have hslots := f.graph.slots_lt m (sortedNodes_subset f hm)
    have hlen := List.reduceOption_length_le m.inputs
    simp only [List.length_map, Node.slots] at hslots ⊢
    omega

/-- A list of optional names is its names and the slots they fill. -/
theorem eq_of_slots {l l' : List (Option String)} (hs : l.map Option.isSome = l'.map Option.isSome)
    (hn : l.reduceOption = l'.reduceOption) : l = l' := by
  induction l generalizing l' with
  | nil => cases l' with
    | nil => rfl
    | cons o l' => cases hs
  | cons o l ih => cases l' with
    | nil => cases hs
    | cons o' l' =>
      obtain ⟨ho, htail⟩ := List.cons.inj hs
      cases o with
      | none => cases o' with
        | none => rw [ih htail (by simpa using hn)]
        | some v => cases ho
      | some u => cases o' with
        | none => cases ho
        | some v =>
          rw [List.reduceOption_cons_of_some, List.reduceOption_cons_of_some] at hn
          obtain ⟨huv, hn⟩ := List.cons.inj hn
          rw [huv, ih htail hn]

/-- The serialized nodes are the hashed names and the unhashed rest. -/
theorem protoNodes_eq {l l' : List Node} (sh sh' : String → List Int64)
    (hnames : l.map (fun n => HashedNode.mk n.outputNames
        (n.inputs.reduceOption.map fun v => (v, sh v))) =
      l'.map fun n => HashedNode.mk n.outputNames
        (n.inputs.reduceOption.map fun v => (v, sh' v)))
    (hrest : (l.map FusedNode.protoNode).map ProtoNode.unhashed =
      (l'.map FusedNode.protoNode).map ProtoNode.unhashed) :
    l.map FusedNode.protoNode = l'.map FusedNode.protoNode := by
  induction l generalizing l' with
  | nil => cases l' with
    | nil => rfl
    | cons n l' => cases hnames
  | cons n l ih => cases l' with
    | nil => cases hnames
    | cons m l' =>
      obtain ⟨hnm, hnames⟩ := List.cons.inj hnames
      obtain ⟨hrm, hrest⟩ := List.cons.inj hrest
      obtain ⟨houts, hins⟩ := HashedNode.mk.inj hnm
      have hins := congrArg (List.map Prod.fst) hins
      simp only [List.map_map, Function.comp_def, List.map_id'] at hins
      simp only [ProtoNode.unhashed, FusedNode.protoNode, UnhashedNode.mk.injEq] at hrm
      obtain ⟨hname, hop, hdom, hislots, hoslots, hattrs⟩ := hrm
      rw [List.map_cons, List.map_cons, ih hnames hrest]
      simp only [FusedNode.protoNode, List.cons.injEq, ProtoNode.mk.injEq, and_true]
      exact ⟨hname, hop, hdom, eq_of_slots hislots hins, eq_of_slots hoslots houts, hattrs⟩

/-- Given the hashed parts, what is compiled is settled by the unhashed ones. -/
theorem compileInput_eq_iff {a b : FusedNode} (h : a.hashedParts = b.hashedParts) :
    a.compileInput = b.compileInput ↔ a.unhashedParts = b.unhashedParts := by
  refine ⟨fun he => by rw [FusedNode.unhashedParts, he]; rfl, fun hu => ?_⟩
  have hgraph : a.hashedGraph = b.hashedGraph := congrArg HashedParts.graph h
  have hinputs : a.graph.inputs = b.graph.inputs := congrArg HashedGraph.inputs hgraph
  have hnodes := protoNodes_eq a.shapeOf b.shapeOf (congrArg HashedGraph.nodes hgraph)
    (congrArg UnhashedParts.nodes hu)
  simp only [FusedNode.unhashedParts, CompileInput.unhashed, FusedNode.compileInput,
    FusedNode.content, UnhashedParts.mk.injEq] at hu
  obtain ⟨-, houts, hinfos, hinits, hopsets, hopts, hshapes⟩ := hu
  simp only [FusedNode.compileInput, FusedNode.content, CompileInput.mk.injEq,
    ModelContent.mk.injEq]
  exact ⟨⟨hnodes, hinputs, houts, hinfos, hinits, hopsets⟩, hopts, hshapes⟩

end CacheKeyLemmas

/-- Two fused nodes share a path exactly when the hashed parts agree. -/
theorem mxrPath_eq_iff {a b : FusedNode} (hdir : a.cacheDir ≠ "") :
    mxrPath H platform version a = mxrPath H platform version b ↔
      a.hashedParts = b.hashedParts := by
  constructor
  · intro h
    by_cases hb : b.cacheDir = ""
    · simp [mxrPath, hdir, hb] at h
    · simp only [mxrPath, if_neg hdir, if_neg hb, Option.some.injEq, MxrPath.mk.injEq] at h
      obtain ⟨hcache, -, hid, harch, hshapes⟩ := h
      have hgraph := graphItems_inj (readable a) (readable b) (H.digest_inj hid)
      have harch := strBytes_inj (List.singleton_inj.1 (H.digest_inj harch))
      have hitems := H.digest_inj hshapes
      have hshapes : a.hashOrder.map a.shapes = b.hashOrder.map b.shapes := by
        have hinj : Function.Injective (List.map wordsBytes) :=
          List.map_injective_iff.2 fun _ _ => wordsBytes_inj
        refine hinj ?_
        rw [List.map_map, List.map_map]
        exact hitems
      simp only [FusedNode.hashedParts, HashedParts.mk.injEq]
      exact ⟨hcache, hgraph, harch, hshapes⟩
  · intro h
    simp only [FusedNode.hashedParts, HashedParts.mk.injEq] at h
    obtain ⟨hcache, hgraph, harch, hshapes⟩ := h
    have hitems : ∀ f : FusedNode, runShapesHash H f.hashOrder f.shapes =
        H.digest ((f.hashOrder.map f.shapes).map wordsBytes) := by
      intro f
      rw [List.map_map]
      rfl
    simp only [mxrPath, hcache, hgraph, harch, hitems, hshapes]

/-- A program found in the cache is always the right one exactly when the two nodes differ in a
part that is hashed, or agree in all that is not. -/
theorem cacheHit_sound_iff (a b : FusedNode) :
    CacheHitSound H platform version a b ↔
      a.cacheDir = "" ∨ a.hashedParts ≠ b.hashedParts ∨ a.unhashedParts = b.unhashedParts := by
  by_cases hdir : a.cacheDir = ""
  · refine iff_of_true ?_ (Or.inl hdir)
    intro Program compile path ha
    simp [mxrPath, hdir] at ha
  · by_cases hparts : a.hashedParts = b.hashedParts
    · have hpath := (mxrPath_eq_iff H platform version hdir).2 hparts
      obtain ⟨path, ha⟩ : ∃ path, mxrPath H platform version a = some path := by
        rw [mxrPath, if_neg hdir]
        exact ⟨_, rfl⟩
      constructor
      · intro h
        have := h CompileInput id path ha (hpath ▸ ha)
        exact Or.inr (Or.inr ((compileInput_eq_iff hparts).1 this))
      · rintro (h | h | h)
        · exact absurd h hdir
        · exact absurd hparts h
        · intro Program compile path _ _
          rw [(compileInput_eq_iff hparts).2 h]
    · refine iff_of_true ?_ (Or.inr (Or.inl hparts))
      intro Program compile path ha hb
      exact absurd ((mxrPath_eq_iff H platform version hdir).1 (ha.trans hb.symm)) hparts

/-- The graph of one node `z = op(x, y)`. -/
def binaryGraph (op : String) : Graph :=
  Graph.ofNodes [{ id := 0, opType := op, inputs := [some "x", some "y"], outputs := [some "z"] }]
    ["x", "y"] ["z"] (by simp) (by simp [Node.outputNames]) (by simp [Node.outputNames])
    (by simp [Node.slots])

/-- That graph as a fused node, with inputs of shape `[2]` and a cache directory. -/
def addNode : FusedNode where
  graph := binaryGraph "Add"
  sortedNodes := (binaryGraph "Add").nodes
  cacheDir := "cache"
  hashOrder := ["x", "y"]
  shapes := fun _ => [2]
  sorted := by rfl
  filename_noNul := by decide
  inputs_noNul := by decide
  inputs_size := by decide
  outputs_size := by decide

/-- The same node with another operator. -/
def mulNode : FusedNode where
  graph := binaryGraph "Mul"
  sortedNodes := (binaryGraph "Mul").nodes
  cacheDir := "cache"
  hashOrder := ["x", "y"]
  shapes := fun _ => [2]
  sorted := by rfl
  filename_noNul := by decide
  inputs_noNul := by decide
  inputs_size := by decide
  outputs_size := by decide

/-- `Add` and `Mul` under the same names have one path: the program of the one is served for the
other. -/
theorem addNode_mulNode_collide :
    mxrPath IdealHash.free .linux 0 addNode = mxrPath IdealHash.free .linux 0 mulNode ∧
      addNode.compileInput ≠ mulNode.compileInput ∧
      ¬ CacheHitSound IdealHash.free .linux 0 addNode mulNode := by
  have hpath : mxrPath IdealHash.free .linux 0 addNode =
      mxrPath IdealHash.free .linux 0 mulNode := by
    rfl
  have hinput : addNode.compileInput ≠ mulNode.compileInput := by decide
  refine ⟨hpath, hinput, fun h => hinput ?_⟩
  exact h CompileInput id _ rfl hpath.symm

end AmdGpuEp.MIGraphX
