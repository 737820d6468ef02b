import AmdGpuEp.Lib.FsPath
import AmdGpuEp.MIGraphX.Capability
import AmdGpuEp.MIGraphX.ShapeKey

/-!
# EPContext nodes

When contexts are enabled, `CreateNodeComputeInfoFromGraph` of `mgx_ep.cc` emits an
EPContext node for a fused node it has compiled. The node holds the compiled
program, or the name of its .mxr file; `EpContextNodeReader` of `mgx_ep_ctx.cc`
gets the program back in a later session. Whether the file is written is decided
by other options than those that name it.

Results:
1. `read_emitted`: what a node that was emitted is read as.
2. `roundTrips_iff`: the node gives the program back exactly when the input shapes
   are static and the file that is read has been written, or has held the program
   before.
3. `uncached_dangles`: without a cache directory the node names a file that nobody
   writes.
-/

namespace AmdGpuEp.MIGraphX

variable {P Loc : Type*}

/-! ## Programs, files and sessions -/

/-- How MIGraphX writes a compiled program to a file and reads it back. A load that throws is
`none`. -/
structure Serializer (P : Type*) where
  save : P → String
  load : String → Option P
  load_save : ∀ p, load (save p) = some p
  load_empty : load "" = none

/-- The machine that sessions run on. `locate` finds the file that a path names. -/
structure Host (Loc : Type*) where
  grammar : PathGrammar := .posix
  locate : FsPath → Loc
  tempDirectoryPath : FsPath
  gcnArchName : String
  archHash : UInt64
  sdkVersion : Nat × Nat × Nat

/-- The contents of the files that exist. A byte is a character. -/
abbrev Files (Loc : Type*) := Loc → Option String

/-- The options of an `ExecutionProvider` that its contexts depend on. -/
structure EpOptions where
  cacheDir : FsPath := {}
  disableCompiledModelCaching : Bool := false
  forceRecompile : Bool := false
  contextEnable : Bool := false
  contextEmbedMode : Bool := false
  contextFilePath : FsPath := {}
  contextNodeNamePrefix : String := ""

/-- A fused node and its subgraph, with the digests of both, and the program that parsing,
quantizing and compiling the subgraph gives. -/
structure FusedSubgraph (P : Type*) where
  nodeName : String
  nodeInputs : List FusedInput
  nodeOutputs : List String
  graphInputs : FusedInputs
  shapes : Shapes
  modelPath : String
  graphId : UInt64
  inputShapesHash : UInt64
  compiled : P

/-! ## The names of the files -/

/-- `hash::ToHex` -/
def toHex (v : UInt64) : String :=
  String.ofList (Nat.toDigits 16 v.toNat)

/-- `MIGraphX_Version` -/
def Host.migraphxVersion (host : Host Loc) : UInt64 :=
  let (major, minor, patch) := host.sdkVersion
  UInt64.ofNat ((major <<< 16) ||| (minor <<< 8) ||| patch)

/-- `GetMIGraphXSdkVersion` -/
def Host.migraphxSdkVersion (host : Host Loc) : String :=
  let (major, minor, patch) := host.sdkVersion
  toString major ++ "." ++ toString minor ++ "." ++ toString patch

/-- The name under which a compilation for static shapes looks for its .mxr file. -/
def mxrName (host : Host Loc) (f : FusedSubgraph P) : String :=
  toHex host.migraphxVersion ++ "-" ++ toHex f.graphId ++ "-" ++ toHex host.archHash ++ "-" ++
    toHex f.inputShapesHash ++ ".mxr"

/-- `ep_context_mxr_path` -/
def epContextMxrName (host : Host Loc) (opts : EpOptions) (f : FusedSubgraph P) : String :=
  if hasInputShape f.graphInputs f.shapes && !opts.cacheDir.isEmpty then mxrName host f
  else (host.grammar.parse f.modelPath).stem ++ "_migraphx.mxr"

/-- The path of a name in a directory, which may be missing. -/
def inDirectory (host : Host Loc) (dir : FsPath) (name : String) : FsPath :=
  let path := host.grammar.parse name
  if dir.isEmpty then path else host.grammar.append dir path

/-! ## Emitting a node -/

/-- The node with this `ep_cache_context`. -/
def epContextNode (host : Host Loc) (opts : EpOptions) (f : FusedSubgraph P) (data : String) :
    Node :=
  let name :=
    if opts.contextNodeNamePrefix = "" then f.nodeName
    else opts.contextNodeNamePrefix ++ "_" ++ f.nodeName
  { id := 0
    name
    opType := "EPContext"
    domain := "com.microsoft"
    inputs := (f.nodeInputs.filter fun i => !i.isConstantInitializer).map fun i => some i.name
    outputs := f.nodeOutputs.map some
    attributes :=
      [("embed_mode", .int (if opts.contextEmbedMode then 1 else 0)),
       ("ep_cache_context", .string data),
       ("hardware_architecture", .string host.gcnArchName),
       ("onnx_model_filename", .string (host.grammar.parse f.modelPath).filename),
       ("source", .string kEpContextSource),
       ("partition_name", .string name),
       ("ep_sdk_version", .string host.migraphxSdkVersion),
       ("main_context", .int 1)] }

/-- `CreateEpContextNode` -/
def createEpContextNode (host : Host Loc) (opts : EpOptions) (f : FusedSubgraph P)
    (files : Files Loc) (cacheName : String) : Except String Node :=
  if opts.contextEmbedMode then
    match files (host.locate (inDirectory host opts.cacheDir cacheName)) with
    | none => .error "failed to read MXR file for embedding: "
    | some content => .ok (epContextNode host opts f content)
  else .ok (epContextNode host opts f cacheName)

/-- What compiling a fused node leaves: its program, unless that is the default-constructed one,
the node that is emitted, and the files. -/
structure Compiled (P Loc : Type*) where
  program : Option P
  epContextNode : Option Node
  files : Files Loc

/-- The program in the .mxr file of a fused node. -/
def loadCompiledProgram? (lib : Serializer P) (host : Host Loc) (opts : EpOptions)
    (f : FusedSubgraph P) (files : Files Loc) : Option P :=
  if opts.forceRecompile || opts.cacheDir.isEmpty then none
  else
    (files (host.locate (host.grammar.append opts.cacheDir
      (host.grammar.parse (mxrName host f))))).bind lib.load

/-- The program of a fused node with static shapes. -/
def staticProgram (lib : Serializer P) (host : Host Loc) (opts : EpOptions) (f : FusedSubgraph P)
    (files : Files Loc) : P :=
  (loadCompiledProgram? lib host opts f files).getD f.compiled

/-- Its program is written to its .mxr file. -/
def savesProgram (lib : Serializer P) (host : Host Loc) (opts : EpOptions) (f : FusedSubgraph P)
    (files : Files Loc) : Bool :=
  !opts.cacheDir.isEmpty && !opts.disableCompiledModelCaching &&
    (loadCompiledProgram? lib host opts f files).isNone

/-- The files after the program is saved, when it is. -/
def writtenFiles [DecidableEq Loc] (lib : Serializer P) (host : Host Loc) (opts : EpOptions)
    (f : FusedSubgraph P) (files : Files Loc) : Files Loc :=
  if hasInputShape f.graphInputs f.shapes && savesProgram lib host opts f files then
    Function.update files
      (host.locate (host.grammar.append opts.cacheDir (host.grammar.parse (mxrName host f))))
      (some (lib.save f.compiled))
  else files

/-- `CreateNodeComputeInfoFromGraph`, as far as programs, files and nodes go. The compilation and the
writes are taken to succeed. -/
def createNodeComputeInfoFromGraph [DecidableEq Loc] (lib : Serializer P) (host : Host Loc)
    (opts : EpOptions) (f : FusedSubgraph P) (files : Files Loc) :
    Except String (Compiled P Loc) :=
  let program :=
    if hasInputShape f.graphInputs f.shapes then some (staticProgram lib host opts f files)
    else none
  let files := writtenFiles lib host opts f files
  if opts.contextEnable then
    (createEpContextNode host opts f files (epContextMxrName host opts f)).map fun node =>
      { program, epContextNode := some node, files }
  else .ok { program, epContextNode := none, files }

/-! ## Reading a node -/

/-- The `source` attribute, when it is a string. -/
def contextSource (node : Node) : Option String :=
  match node.attributes.lookup "source" with
  | some (.string source) => some source
  | _ => none

/-- The node that is read: the first that names this provider, or else the first that names none.
`found` is the one that is kept so far. -/
def findContextNode (found : Option Node) : List Node → Option Node
  | [] => found
  | node :: nodes =>
    if node.opType ≠ "EPContext" then findContextNode found nodes
    else
      match contextSource node with
      | some source =>
        if source = kEpContextSource then some node else findContextNode found nodes
      | none => findContextNode (found.or (some node)) nodes

/-- The text in front of the first dot. -/
def getMajor (version : String) : String :=
  String.ofList (version.toList.takeWhile (· ≠ '.'))

/-- The check of the architecture that the node was compiled for. -/
def architectureError (host : Host Loc) (node : Node) : Option String :=
  match node.attributes.lookup "hardware_architecture" with
  | some (.string cached) =>
    if host.gcnArchName ≠ "" ∧ cached ≠ "" ∧ cached ≠ host.gcnArchName then
      some ("EP context binary was compiled for GPU architecture '" ++ cached ++
        "' but current GPU is '" ++ host.gcnArchName ++
        "'. Please recompile the model for the current hardware.")
    else none
  | _ => none

/-- The check of the major version that the node was compiled with. -/
def sdkVersionError (host : Host Loc) (node : Node) : Option String :=
  match node.attributes.lookup "ep_sdk_version" with
  | some (.string cached) =>
    if cached ≠ "" ∧ getMajor cached ≠ getMajor host.migraphxSdkVersion then
      some ("EP context binary was compiled with MIGraphX SDK " ++ cached ++
        " but current SDK is " ++ host.migraphxSdkVersion ++
        ". Major version mismatch - please recompile the model.")
    else none
  | _ => none

/-- An embedded program goes through a temporary file. -/
def loadEmbedded [DecidableEq Loc] (lib : Serializer P) (host : Host Loc) (files : Files Loc)
    (payload : String) : Except String P × Files Loc :=
  let temp := host.locate (host.grammar.append host.tempDirectoryPath
    (host.grammar.parse "migraphx_ep_context_temp.mxr"))
  let written := Function.update files temp (some payload)
  let program :=
    match (written temp).bind lib.load with
    | some program => .ok program
    | none => .error "loading embedded MXR binary failed: "
  (program, Function.update written temp none)

/-- A program is read from its file, which must be inside the directory. -/
def loadCached (lib : Serializer P) (host : Host Loc) (dir : FsPath) (files : Files Loc)
    (name : String) : Except String P :=
  let path := host.grammar.parse name
  if host.grammar.isAbsolute path then
    .error ("for security purpose, the `ep_cache_context` must contain a relative path to MXR " ++
      "file: " ++ name)
  else if ".." ∈ path.lexicallyNormal.names then
    .error ("for security purpose, the file path of the `ep_cache_context` attribute must not " ++
      "include '..' - it is not allowed to point outside the directory.")
  else
    match files (host.locate (inDirectory host dir name)) with
    | none => .error "the MXR cache file does not exist: "
    | some content =>
      match lib.load content with
      | none => .error "loading MXR file failed: "
      | some program => .ok program

/-- The checks of a node, and its `embed_mode` and `ep_cache_context`. -/
def contextPayload (host : Host Loc) (node : Node) : Except String (Int × String) :=
  match node.attributes.lookup "embed_mode" with
  | some (.int embedMode) =>
    match (architectureError host node).or (sdkVersionError host node) with
    | some message => .error message
    | none =>
      match node.attributes.lookup "ep_cache_context" with
      | some (.string payload) => .ok (embedMode, payload)
      | some _ => .error "`ep_cache_context` attribute must be a string type"
      | none => .error "ep_cache_context"
  | some _ => .error "`embed_mode` attribute must be an integer type"
  | none => .error "embed_mode"

/-- `EpContextNodeReader`: the program, and the files afterwards. -/
def readEpContext [DecidableEq Loc] (lib : Serializer P) (host : Host Loc) (dir : FsPath)
    (files : Files Loc) (nodes : List Node) : Except String P × Files Loc :=
  if nodes = [] then (.error "The graph is empty", files)
  else
    match findContextNode none nodes with
    | none => (.error "no EPContext node found for MIGraphXExecutionProvider", files)
    | some node =>
      match contextPayload host node with
      | .error message => (.error message, files)
      | .ok (embedMode, payload) =>
        if embedMode = 1 then
          if payload = "" then (.error "ep_cache_context is empty for embed_mode=1", files)
          else loadEmbedded lib host files payload
        else (loadCached lib host dir files payload, files)

/-- `ctx_cache_dir`: the cache directory, or else that of the context file or of the model. -/
def ctxCacheDir (host : Host Loc) (opts : EpOptions) (modelPath : String) : FsPath :=
  if !opts.cacheDir.isEmpty then opts.cacheDir
  else if !opts.contextFilePath.isEmpty then opts.contextFilePath.parentPath
  else if modelPath ≠ "" then (host.grammar.parse modelPath).parentPath
  else opts.cacheDir

/-- `CreateNodeComputeInfoFromCache`: the program of a fused node of EPContext nodes. `modelPath` is
that of the model the session loads. -/
def createNodeComputeInfoFromCache [DecidableEq Loc] (lib : Serializer P) (host : Host Loc)
    (opts : EpOptions) (modelPath : String) (files : Files Loc) (nodes : List Node) :
    Except String P × Files Loc :=
  readEpContext lib host (ctxCacheDir host opts modelPath) files nodes

/-! ## The round trip -/

/-- The node that is emitted for `f` gives back the program of `f` in a session with the options
`reader`, which loads a model with the path `modelPath`. -/
def RoundTrips [DecidableEq Loc] (lib : Serializer P) (host : Host Loc) (opts : EpOptions)
    (f : FusedSubgraph P) (files : Files Loc) (reader : EpOptions) (modelPath : String) : Prop :=
  ∃ program node files',
    createNodeComputeInfoFromGraph lib host opts f files = .ok ⟨some program, some node, files'⟩ ∧
      (createNodeComputeInfoFromCache lib host reader modelPath files' [node]).1 = .ok program

/-- The file that is read for the node: the writer reads it to embed it, or else the reader does. -/
def contextFile (host : Host Loc) (opts : EpOptions) (f : FusedSubgraph P) (reader : EpOptions)
    (modelPath : String) : Loc :=
  host.locate (inDirectory host
    (if opts.contextEmbedMode then opts.cacheDir else ctxCacheDir host reader modelPath)
    (epContextMxrName host opts f))

/-- The program is written to that file now, or it has been there. -/
def HoldsProgram (lib : Serializer P) (host : Host Loc) (opts : EpOptions) (f : FusedSubgraph P)
    (files : Files Loc) (target : Loc) : Prop :=
  savesProgram lib host opts f files = true ∧
      target = host.locate (inDirectory host opts.cacheDir (mxrName host f)) ∨
    (files target).bind lib.load = some (staticProgram lib host opts f files)

namespace EpContextLemmas

variable {lib : Serializer P} {host : Host Loc} {opts reader : EpOptions} {f : FusedSubgraph P}
  {files : Files Loc} {dir : FsPath} {name : String} {node : Node} {program : P}

/-! ### The names of the files -/

theorem digit_of_mem_toDigits {n : Nat} {c : Char} (h : c ∈ Nat.toDigits 16 n) :
    ∃ d < 16, c = Nat.digitChar d := by
  induction n using Nat.strong_induction_on with
  | _ n ih =>
    rw [Nat.toDigits_eq_if (by decide)] at h
    split at h
    · next hlt => exact ⟨n, hlt, List.mem_singleton.1 h⟩
    · rcases List.mem_append.1 h with h | h
      · exact ih (n / 16) (by omega) h
      · exact ⟨n % 16, by omega, List.mem_singleton.1 h⟩

theorem not_separator_of_mem_toHex (g : PathGrammar) {v : UInt64} {c : Char}
    (h : c ∈ (toHex v).toList) : g.isSeparator c = false := by
  rw [toHex, String.toList_ofList] at h
  have hdigit : ∀ g : PathGrammar, ∀ d < 16, g.isSeparator (Nat.digitChar d) = false := by
    intro g
    cases g <;> decide
  obtain ⟨d, hd, rfl⟩ := digit_of_mem_toDigits h
  exact hdigit g d hd

theorem mem_toList_append {a b : String} {c : Char} :
    c ∈ (a ++ b).toList ↔ c ∈ a.toList ∨ c ∈ b.toList := by
  rw [String.toList_append, List.mem_append]

theorem mem_stem {p : FsPath} {c : Char} (h : c ∈ p.stem.toList) : c ∈ p.filename.toList := by
  unfold FsPath.stem at h
  split at h
  · exact h
  · split at h
    · next d ds heq =>
      rw [String.toList_ofList, List.mem_reverse] at h
      have hmem : c ∈ p.filename.toList.reverse.dropWhile (· ≠ '.') := by
        rw [heq]
        exact List.mem_cons_of_mem _ h
      exact List.mem_reverse.1 ((List.dropWhile_suffix _).subset hmem)
    · exact h

theorem not_separator_of_mem_filename {g : PathGrammar} {text : String} {c : Char}
    (h : c ∈ (g.parse text).filename.toList) : g.isSeparator c = false := by
  rw [FsPath.filename] at h
  cases hlast : (g.parse text).names.getLast? with
  | none =>
    rw [hlast] at h
    simp at h
  | some last =>
    rw [hlast] at h
    exact not_mem_of_mem_names (List.mem_of_getLast? hlast) c h

/-- The file of a node is named without directories, wherever the model is. -/
theorem epContextMxrName_relative (host : Host Loc) (opts : EpOptions) (f : FusedSubgraph P) :
    host.grammar.isAbsolute (host.grammar.parse (epContextMxrName host opts f)) = false ∧
      ".." ∉ (host.grammar.parse (epContextMxrName host opts f)).lexicallyNormal.names := by
  have hdash : ∀ g : PathGrammar, ∀ c ∈ "-".toList, g.isSeparator c = false := by
    intro g
    cases g <;> simp [PathGrammar.isSeparator]
  have hmxr : ∀ g : PathGrammar, ∀ c ∈ ".mxr".toList, g.isSeparator c = false := by
    intro g
    cases g <;> simp [PathGrammar.isSeparator]
  have hmigraphx : ∀ g : PathGrammar, ∀ c ∈ "_migraphx.mxr".toList, g.isSeparator c = false := by
    intro g
    cases g <;> simp [PathGrammar.isSeparator]
  apply relative_of_no_separator
  · intro c hc
    rw [epContextMxrName] at hc
    split at hc
    · simp only [mxrName, mem_toList_append, or_assoc] at hc
      rcases hc with hc | hc | hc | hc | hc | hc | hc | hc
      · exact not_separator_of_mem_toHex _ hc
      · exact hdash _ c hc
      · exact not_separator_of_mem_toHex _ hc
      · exact hdash _ c hc
      · exact not_separator_of_mem_toHex _ hc
      · exact hdash _ c hc
      · exact not_separator_of_mem_toHex _ hc
      · exact hmxr _ c hc
    · rcases mem_toList_append.1 hc with hc | hc
      · exact not_separator_of_mem_filename (mem_stem hc)
      · exact hmigraphx _ c hc
  · rw [epContextMxrName]
    split
    · have hfour : ".mxr".toList.length = 4 := by decide
      have hone : "-".toList.length = 1 := by decide
      simp only [mxrName, String.toList_append, List.length_append, hfour, hone]
      omega
    · have hthirteen : "_migraphx.mxr".toList.length = 13 := by decide
      rw [String.toList_append, List.length_append, hthirteen]
      omega

/-! ### Reading what was emitted -/

theorem loadEmbedded_eq_ok [DecidableEq Loc] {payload : String} :
    (loadEmbedded lib host files payload).1 = .ok program ↔ lib.load payload = some program := by
  unfold loadEmbedded
  dsimp only
  rw [Function.update_self, Option.bind_some]
  cases lib.load payload with
  | none => simp
  | some p => simp

theorem loadCached_eq_ok (habs : host.grammar.isAbsolute (host.grammar.parse name) = false)
    (hinside : ".." ∉ (host.grammar.parse name).lexicallyNormal.names) :
    loadCached lib host dir files name = .ok program ↔
      (files (host.locate (inDirectory host dir name))).bind lib.load = some program := by
  unfold loadCached
  dsimp only
  rw [habs, if_neg (by simp), if_neg hinside]
  cases files (host.locate (inDirectory host dir name)) with
  | none => simp
  | some content =>
    dsimp only [Option.bind_some]
    cases lib.load content with
    | none => simp
    | some p => simp

theorem contextPayload_epContextNode (host : Host Loc) (opts : EpOptions) (f : FusedSubgraph P)
    (data : String) :
    contextPayload host (epContextNode host opts f data) =
      .ok (if opts.contextEmbedMode then 1 else 0, data) := by
  simp [contextPayload, epContextNode, architectureError, sdkVersionError, List.lookup_cons]

theorem findContextNode_epContextNode (host : Host Loc) (opts : EpOptions) (f : FusedSubgraph P)
    (data : String) :
    findContextNode none [epContextNode host opts f data] =
      some (epContextNode host opts f data) := by
  simp [findContextNode, epContextNode, contextSource, List.lookup_cons]

/-- What is read of a node that was emitted: the content that was embedded, or else the file of the
reader. -/
theorem read_emitted [DecidableEq Loc] {emitFiles readFiles : Files Loc} {cacheName : String}
    (hemit : createEpContextNode host opts f emitFiles cacheName = .ok node)
    (habs : host.grammar.isAbsolute (host.grammar.parse cacheName) = false)
    (hinside : ".." ∉ (host.grammar.parse cacheName).lexicallyNormal.names) :
    (readEpContext lib host dir readFiles [node]).1 = .ok program ↔
      if opts.contextEmbedMode then
        (emitFiles (host.locate (inDirectory host opts.cacheDir cacheName))).bind lib.load =
          some program
      else (readFiles (host.locate (inDirectory host dir cacheName))).bind lib.load =
        some program := by
  unfold createEpContextNode at hemit
  cases hembed : opts.contextEmbedMode with
  | false =>
    rw [hembed] at hemit
    obtain rfl : epContextNode host opts f cacheName = node := by simpa using hemit
    unfold readEpContext
    simp only [List.cons_ne_nil, if_false, findContextNode_epContextNode,
      contextPayload_epContextNode, hembed, Bool.false_eq_true]
    exact loadCached_eq_ok habs hinside
  | true =>
    rw [hembed, if_pos rfl] at hemit
    cases hcontent : emitFiles (host.locate (inDirectory host opts.cacheDir cacheName)) with
    | none =>
      rw [hcontent] at hemit
      cases hemit
    | some content =>
      rw [hcontent] at hemit
      obtain rfl : epContextNode host opts f content = node := by simpa using hemit
      unfold readEpContext
      simp only [List.cons_ne_nil, if_false, findContextNode_epContextNode,
        contextPayload_epContextNode, hembed, if_true, Option.bind_some]
      split
      · next hempty => simp [hempty, lib.load_empty]
      · exact loadEmbedded_eq_ok

/-! ### The file in between -/

theorem writtenFiles_holds [DecidableEq Loc] (hknown : hasInputShape f.graphInputs f.shapes = true)
    (target : Loc) :
    (writtenFiles lib host opts f files target).bind lib.load =
        some (staticProgram lib host opts f files) ↔
      HoldsProgram lib host opts f files target := by
  rw [writtenFiles, HoldsProgram, hknown, Bool.true_and]
  cases hsaves : savesProgram lib host opts f files with
  | false => simp
  | true =>
    simp only [savesProgram, Bool.and_eq_true, Bool.not_eq_true', Option.isNone_iff_eq_none]
      at hsaves
    obtain ⟨⟨hdir, -⟩, hnone⟩ := hsaves
    have hprogram : staticProgram lib host opts f files = f.compiled := by
      rw [staticProgram, hnone, Option.getD_none]
    have hpath : inDirectory host opts.cacheDir (mxrName host f) =
        host.grammar.append opts.cacheDir (host.grammar.parse (mxrName host f)) := by
      rw [inDirectory, hdir, if_neg (by simp)]
    rw [if_pos rfl, hpath, hprogram, Function.update_apply]
    split
    · next heq => simp [heq, lib.load_save]
    · next hne => simp [hne]

theorem createNodeComputeInfoFromGraph_eq_ok [DecidableEq Loc] (henable : opts.contextEnable = true)
    {files' : Files Loc} :
    createNodeComputeInfoFromGraph lib host opts f files =
        .ok ⟨some program, some node, files'⟩ ↔
      hasInputShape f.graphInputs f.shapes = true ∧ program = staticProgram lib host opts f files ∧
        files' = writtenFiles lib host opts f files ∧
        createEpContextNode host opts f files' (epContextMxrName host opts f) = .ok node := by
  unfold createNodeComputeInfoFromGraph
  dsimp only
  rw [if_pos henable]
  constructor
  · intro h
    cases hnode : createEpContextNode host opts f (writtenFiles lib host opts f files)
        (epContextMxrName host opts f) with
    | error message =>
      rw [hnode] at h
      cases h
    | ok node' =>
      rw [hnode] at h
      simp only [Except.map, Except.ok.injEq, Compiled.mk.injEq, Option.some.injEq] at h
      obtain ⟨hprogram, rfl, rfl⟩ := h
      split at hprogram
      · next hknown => exact ⟨hknown, (Option.some.inj hprogram).symm, rfl, hnode⟩
      · cases hprogram
  · rintro ⟨hknown, rfl, rfl, hnode⟩
    rw [hnode, if_pos hknown]
    rfl

end EpContextLemmas

open EpContextLemmas

theorem roundTrips_iff [DecidableEq Loc] (lib : Serializer P) (host : Host Loc) {opts : EpOptions}
    (f : FusedSubgraph P) (files : Files Loc) (reader : EpOptions) (modelPath : String)
    (henable : opts.contextEnable = true) :
    RoundTrips lib host opts f files reader modelPath ↔
      hasInputShape f.graphInputs f.shapes = true ∧
        HoldsProgram lib host opts f files (contextFile host opts f reader modelPath) := by
  obtain ⟨habs, hinside⟩ := epContextMxrName_relative host opts f
  constructor
  · rintro ⟨program, node, files', hcreate, hread⟩
    obtain ⟨hknown, rfl, rfl, hnode⟩ := (createNodeComputeInfoFromGraph_eq_ok henable).1 hcreate
    refine ⟨hknown, (writtenFiles_holds hknown _).1 ?_⟩
    have hfile := (read_emitted hnode habs hinside).1 hread
    rw [contextFile]
    split at hfile
    · next hembed => rwa [if_pos hembed]
    · next hembed => rwa [if_neg hembed]
  · rintro ⟨hknown, hholds⟩
    have hfile := (writtenFiles_holds hknown _).2 hholds
    obtain ⟨node, hnode⟩ : ∃ node, createEpContextNode host opts f
        (writtenFiles lib host opts f files) (epContextMxrName host opts f) = .ok node := by
      unfold createEpContextNode
      cases hembed : opts.contextEmbedMode with
      | false => exact ⟨_, rfl⟩
      | true =>
        obtain ⟨content, hcontent, -⟩ := Option.bind_eq_some_iff.1 hfile
        rw [contextFile, if_pos hembed] at hcontent
        rw [hcontent]
        exact ⟨_, rfl⟩
    refine ⟨_, node, _, (createNodeComputeInfoFromGraph_eq_ok henable).2 ⟨hknown, rfl, rfl, hnode⟩,
      (read_emitted hnode habs hinside).2 ?_⟩
    rw [contextFile] at hfile
    split
    · next hembed => rwa [if_pos hembed] at hfile
    · next hembed => rwa [if_neg hembed] at hfile

/-! ### A session with a cache directory, and one without -/

/-- Two programs, each written as one digit. -/
def digitSerializer : Serializer Bool where
  save program := if program then "1" else "0"
  load content := if content = "1" then some true else if content = "0" then some false else none
  load_save program := by cases program <;> decide
  load_empty := by decide

/-- A machine on which every path is a file of its own. -/
def plainHost : Host FsPath where
  locate := id
  tempDirectoryPath := { rootDirectory := true, names := ["tmp"] }
  gcnArchName := "gfx1100"
  archHash := 7
  sdkVersion := (2, 13, 0)

/-- `y = f(x)` with `x : [2, 3]`, in a model of the working directory. -/
def staticSubgraph : FusedSubgraph Bool where
  nodeName := "migraphx_0"
  nodeInputs := [{ name := "x" }]
  nodeOutputs := ["y"]
  graphInputs := { inputs := [{ name := "x" }], names_nodup := by decide }
  shapes := fun _ => [2, 3]
  modelPath := "model.onnx"
  graphId := 11
  inputShapesHash := 13
  compiled := true

theorem cached_roundTrips :
    RoundTrips digitSerializer plainHost
      { cacheDir := { names := ["cache"] }, contextEnable := true } staticSubgraph
      (fun _ => none) { cacheDir := { names := ["cache"] } } "model_ctx.onnx" :=
  (roundTrips_iff _ _ _ _ _ _ rfl).2 ⟨by decide, Or.inl ⟨rfl, rfl⟩⟩

/-- Without a cache directory the program is saved nowhere, and the node names a file all the
same. -/
theorem uncached_dangles :
    (createNodeComputeInfoFromGraph digitSerializer plainHost { contextEnable := true }
        staticSubgraph (fun _ => none)).toOption.map
          (fun c => (c.program, c.epContextNode.map fun node =>
            (createNodeComputeInfoFromCache digitSerializer plainHost {} "model_ctx.onnx" c.files
              [node]).1.toOption)) = some (some true, some none) ∧
      ¬ RoundTrips digitSerializer plainHost { contextEnable := true } staticSubgraph
        (fun _ => none) {} "model_ctx.onnx" := by
  refine ⟨by decide +kernel, ?_⟩
  rintro ⟨program, node, files', hcreate, hread⟩
  obtain ⟨-, -, rfl, hnode⟩ := (createNodeComputeInfoFromGraph_eq_ok rfl).1 hcreate
  obtain ⟨habs, hinside⟩ := epContextMxrName_relative plainHost { contextEnable := true }
    staticSubgraph
  have hfile := (read_emitted hnode habs hinside).1 hread
  cases hfile

end AmdGpuEp.MIGraphX
