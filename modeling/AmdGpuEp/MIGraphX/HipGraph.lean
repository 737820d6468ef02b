import AmdGpuEp.Lib.Transcript
import AmdGpuEp.MIGraphX.DynamicBatch
import Mathlib.Logic.Function.Basic

/-!
# Staging buffers and captured graphs

The state of a fused node between calls, and the operations of
`mgx_hip_graph.cc` on it: staging buffers are allocated once and bound to the
parameters of whatever program is current. Calls of the HIP runtime may throw;
which of them do is part of a call.

Results:
1. `grows_allocateStaging`: an allocation keeps the buffers that are there and
   gives every other buffer the size of its parameter in this call.
2. `copyInputs_fit`, `bindStagingParams_spec`, `copyOutputs_fit`: when the buffer
   of every parameter is large enough for it, all uses stay inside.
3. `runProgramOrHipGraph_runsBy`: what each way of running a program does.
-/

namespace AmdGpuEp.MIGraphX

/-! ## Shapes, programs and calls -/

/-- `migraphx::shape` -/
structure Shape where
  lengths : List Nat
  strides : List Nat
  type : Nat
  bytes : Nat
  deriving DecidableEq, Repr

/-- `migraphx::program_parameter_shapes` -/
structure ParameterShapes where
  names : List String
  shape : String → Shape

/-- What the calls of the MIGraphX library have made of a program handle. `dims` are the input
shapes it was parsed for. -/
inductive Program
  /-- default-constructed -/
  | empty
  /-- `parse_onnx_buffer` has returned it -/
  | parsed (dims : String → List Nat)
  /-- quantization or compilation has thrown and left it behind -/
  | unfinished (dims : String → List Nat)
  /-- quantization and compilation have returned -/
  | compiled (dims : String → List Nat)

/-- What the library tells about a program: `program::get_parameter_shapes`. -/
structure Library where
  parameterShapes : Program → ParameterShapes

/-- An input of a call. Its type is the MIGraphX type of its element type. -/
structure Tensor where
  shape : List Int64
  type : Nat := 0
  onHost : Bool := false
  deriving DecidableEq, Repr

/-- What throws or fails outside the provider during a call. A number says how many operations of
a kind go well before one throws. -/
structure Faults where
  load : Bool := false
  parse : Bool := false
  quantize : Bool := false
  compile : Bool := false
  save : Bool := false
  setDevice : Bool := false
  stagingAllocations : Option Nat := none
  stagingSync : Bool := false
  inputCopies : Option Nat := none
  warmup : Bool := false
  capture : Bool := false
  run : Bool := false
  outputCopies : Option Nat := none
  deriving DecidableEq, Repr

/-- A call of `Compute`: the inputs by index, where `hipMalloc` would put a scratch buffer (none
when it throws), and what else fails. -/
structure Call where
  input : Nat → Tensor
  scratchAddress : Option Nat := some 1
  faults : Faults := {}

/-- `DynamicBatchContext` -/
structure DynamicBatchContext where
  active : Bool := false
  requestedBatch : Nat := 0
  targetBatch : Nat := 0
  deriving DecidableEq, Repr

/-! ## The state of a fused node -/

/-- The part of `ComputeState` that is fixed when the node is compiled. `declared` are the input
shapes of the model, which MIGraphX takes where no option is set. -/
structure NodeConfig where
  inputNameIndices : List (String × Nat)
  names_nodup : (inputNameIndices.map Prod.fst).Nodup
  declared : String → List Nat
  enableFp8 : Bool := false
  enableInt8 : Bool := false
  int8CalibrationCacheAvailable : Bool := false
  hasCacheDir : Bool := false
  disableCompiledModelCaching : Bool := false
  forceRecompile : Bool := false
  maxDynamicBatch : Nat := 0
  compileBatches : String := ""
  coalesceIo : Bool := false

/-- The keys of `input_name_indices`, in the order of the `unordered_map`. -/
def NodeConfig.inputNames (cfg : NodeConfig) : List String := cfg.inputNameIndices.map Prod.fst

/-- `input_name_indices.find` -/
def NodeConfig.inputIndex (cfg : NodeConfig) (name : String) : Option Nat :=
  cfg.inputNameIndices.lookup name

/-- `input_name_indices.count(name) > 0` -/
def NodeConfig.isInput (cfg : NodeConfig) (name : String) : Bool :=
  (cfg.inputIndex name).isSome

/-- `StagingBuffer`, without its device address. -/
structure StagingBuffer where
  sizeBytes : Nat
  shape : Shape
  arenaOffset : Nat := 0
  isArenaView : Bool := false
  deriving DecidableEq, Repr

/-- `ScratchBuffer` -/
structure ScratchBuffer where
  data : Nat
  sizeBytes : Nat
  shape : Shape
  deriving DecidableEq, Repr

/-- `CapturedHipGraph`: the program whose kernels were captured. -/
structure CapturedHipGraph where
  graph : Option Program
  captured : Bool
  capturedScratchPtr : Option Nat

/-- Buffers by parameter name. -/
abbrev Buffers := String → Option StagingBuffer

/-- The staging fields of `ComputeState`: `staging_inputs`, `staging_outputs`,
`staging_allocated`, `staging_inputs_coalesced`, whether `in_staging_host` is set, and
`in_arena_bytes`. -/
structure Staging where
  inputs : Buffers := fun _ => none
  outputs : Buffers := fun _ => none
  allocated : Bool := false
  inputsCoalesced : Bool := false
  inStagingHost : Bool := false
  inArenaBytes : Nat := 0

/-- The part of `ComputeState` that calls change, and the compiled programs on disk. Keys of
programs, scratch buffers and graphs are digests of the input shapes. -/
structure ComputeState (D : Type*) where
  onnxOptions : String → Option (List Nat)
  program : Program
  hasInputShapes : Bool
  hipGraphEnable : Bool
  compiledBatchSizes : List Nat := []
  cachedPrograms : D → Option Program := fun _ => none
  staging : Staging := {}
  scratchBufs : D → Option ScratchBuffer := fun _ => none
  hipGraphCache : D → Option CapturedHipGraph := fun _ => none
  mxr : D → Option Program := fun _ => none

variable {D : Type*}

/-! ## Buffer sizes -/

/-- `kScratchParam` -/
def scratchParam : String := "scratch"

/-- `buffer_bytes` of `AllocateStaging`: a batched buffer has room for `max_dynamic_batch` rows, or
for the target batch if that is more. The product is a `std::size_t`. -/
def bufferBytes (cfg : NodeConfig) (dyn : DynamicBatchContext) (shape : Shape) : Nat :=
  if dyn.active ∧ 0 < dyn.targetBatch ∧ shape.lengths.head? = some dyn.targetBatch then
    shape.bytes / dyn.targetBatch * max cfg.maxDynamicBatch dyn.targetBatch % sizeMod
  else shape.bytes

theorem bufferBytes_of_exact {cfg : NodeConfig} {dyn : DynamicBatchContext} {shape : Shape}
    (h : dyn.active = false ∨ shape.lengths.head? ≠ some dyn.targetBatch) :
    bufferBytes cfg dyn shape = shape.bytes := by
  unfold bufferBytes
  refine if_neg fun hbatched => ?_
  cases h with
  | inl hactive => exact absurd hbatched.1 (by simp [hactive])
  | inr hhead => exact hhead hbatched.2.2

/-- `AlignUp` with `kArenaAlign` -/
def alignUp (value : Nat) : Nat :=
  (value + 255) % sizeMod / 256 * 256

/-- `ComputeOutputIndex`: the digits after the first `#output_`; a number that is no `int` leaves
the result at 0. -/
def outputDigits : List Char → Option (List Char)
  | [] => none
  | c :: cs =>
    if "#output_".toList.isPrefixOf (c :: cs) then
      some (((c :: cs).drop "#output_".toList.length).takeWhile Char.isDigit)
    else outputDigits cs

@[inherit_doc outputDigits]
def computeOutputIndex (name : String) : Int :=
  match outputDigits name.toList with
  | none => -1
  | some [] => -1
  | some digits =>
    let value := digits.foldl (fun n c => 10 * n + (c.toNat - '0'.toNat)) 0
    if value < 2 ^ 31 then value else 0

/-! ## Allocation -/

/-- `emplace`: an entry that is there stays. -/
def Buffers.emplace (m : Buffers) (name : String) (buffer : StagingBuffer) : Buffers :=
  if (m name).isSome then m else Function.update m name (some buffer)

/-- The loop over the parameters that allocates one buffer each; false when `hipMalloc` throws. -/
def allocBuffers (size : Shape → Nat) (shape : String → Shape) :
    List String → Option Nat → Buffers → Buffers × Bool
  | [], _, m => (m, true)
  | name :: names, left, m =>
    if left = some 0 then (m, false)
    else
      allocBuffers size shape names (left.map (· - 1))
        (m.emplace name { sizeBytes := size (shape name), shape := shape name })

/-- The loop that lays the inputs out in one arena. -/
def arenaViews (size : Shape → Nat) (shape : String → Shape) :
    List String → Nat → Buffers → Buffers × Nat
  | [], offset, m => (m, offset)
  | name :: names, offset, m =>
    let bytes := size (shape name)
    arenaViews size shape names ((offset + alignUp bytes) % sizeMod)
      (m.emplace name
        { sizeBytes := bytes, shape := shape name, arenaOffset := offset, isArenaView := true })

/-- The parameters that get an input buffer. -/
def stagedInputs (cfg : NodeConfig) (params : ParameterShapes) : List String :=
  params.names.filter fun name => name != scratchParam && cfg.isInput name

/-- The parameters that get an output buffer. -/
def stagedOutputs (cfg : NodeConfig) (params : ParameterShapes) : List String :=
  params.names.filter fun name =>
    name != scratchParam && !cfg.isInput name && computeOutputIndex name != -1

/-- The input half of `AllocateStaging`: the buffers, how many allocations are left, and whether it
got through. -/
def allocateInputs (cfg : NodeConfig) (params : ParameterShapes) (dyn : DynamicBatchContext)
    (left : Option Nat) (st : Staging) : Staging × Option Nat × Bool :=
  let names := stagedInputs cfg params
  if cfg.coalesceIo then
    let (inputs, arenaBytes) := arenaViews (bufferBytes cfg dyn) params.shape names 0 st.inputs
    let st := { st with inputs, inArenaBytes := arenaBytes }
    if arenaBytes = 0 then ({ st with inputsCoalesced := true }, left, true)
    -- the arena on the device, and the pinned buffer of the host
    else if left = some 0 ∨ left = some 1 then (st, left, false)
    else ({ st with inStagingHost := true, inputsCoalesced := true }, left.map (· - 2), true)
  else
    let (inputs, through) := allocBuffers (bufferBytes cfg dyn) params.shape names left st.inputs
    ({ st with inputs }, left.map (· - names.length), through)

/-- The output half of `AllocateStaging`. -/
def allocateOutputs (cfg : NodeConfig) (params : ParameterShapes) (dyn : DynamicBatchContext)
    (left : Option Nat) (st : Staging) : Staging × Bool :=
  let (outputs, through) :=
    allocBuffers (bufferBytes cfg dyn) params.shape (stagedOutputs cfg params) left st.outputs
  ({ st with outputs }, through)

/-- `AllocateStaging`; false when it throws. -/
def allocateStaging (cfg : NodeConfig) (params : ParameterShapes) (dyn : DynamicBatchContext)
    (faults : Faults) (st : Staging) : Staging × Bool :=
  if st.allocated then (st, true)
  else
    let (st, left, through) := allocateInputs cfg params dyn faults.stagingAllocations st
    if through then
      let (st, through) := allocateOutputs cfg params dyn left st
      if through && !faults.stagingSync then ({ st with allocated := true }, true)
      else (st, false)
    else (st, false)

/-- `FreeStaging` -/
def freeStaging (s : ComputeState D) : ComputeState D :=
  { s with staging := {} }

/-- `DestroyHipGraphs` -/
def destroyHipGraphs (s : ComputeState D) : ComputeState D :=
  { s with hipGraphCache := fun _ => none }

/-! ## Uses of the buffers -/

/-- A use of a staging buffer of `sizeBytes` bytes up to byte `bytes`: bound to a shape of that
size, or read or written up to there. -/
structure Access where
  name : String
  bytes : Nat
  sizeBytes : Nat
  deriving DecidableEq, Repr

/-- The use stays inside the buffer. -/
def Access.Fits (a : Access) : Prop := a.bytes ≤ a.sizeBytes

instance (a : Access) : Decidable a.Fits := inferInstanceAs (Decidable (_ ≤ _))

/-- Operations that are enqueued one after the other until one throws. -/
def cut {α : Type*} (left : Option Nat) (l : List α) : List α × Bool :=
  match left with
  | none => (l, true)
  | some k => if k < l.length then (l.take k, false) else (l, true)

/-- `static_cast<size_t>` of a dimension. -/
def sizeOf64 (dim : Int64) : Nat := dim.toBitVec.toNat

/-- `ProductOf` -/
def productOf (lengths : List Nat) : Nat := lengths.foldl (· * ·) 1

/-- A copy is clamped to the buffer. -/
def clampedCopy (name : String) (shape : Shape) (stage : StagingBuffer) : List Access :=
  let bytes := min shape.bytes stage.sizeBytes
  if 0 < bytes then [{ name, bytes, sizeBytes := stage.sizeBytes }] else []

/-- The copies of one input, as the loop of `CopyInputsToStaging` makes them. -/
def copyInput (dyn : DynamicBatchContext) (name : String) (shape : Shape) (stage : StagingBuffer)
    (tensor : Tensor) : List Access :=
  if dyn.active ∧ dyn.requestedBatch < dyn.targetBatch ∧
      shape.lengths.head? = some dyn.targetBatch ∧
      tensor.shape.head?.map sizeOf64 = some dyn.requestedBatch then
    let totalElems := productOf shape.lengths
    let elementSize := if 0 < totalElems then shape.bytes / totalElems else 0
    (padInputTensor dyn.requestedBatch dyn.targetBatch elementSize
      (totalElems / dyn.targetBatch)).map fun copy =>
        { name, bytes := copy.offset + copy.bytes, sizeBytes := stage.sizeBytes }
  else clampedCopy name shape stage

/-- The input parameters that have a staging buffer, with the tensor each is fed from. -/
def fedInputs (cfg : NodeConfig) (params : ParameterShapes) (c : Call) (s : ComputeState D) :
    List (String × StagingBuffer × Tensor) :=
  params.names.filterMap fun name =>
    match cfg.inputIndex name, s.staging.inputs name with
    | some index, some stage => some (name, stage, c.input index)
    | _, _ => none

/-- `CopyInputsToStaging`: what is copied, and whether it got through. When no input is padded and
all of them are on the host, a coalesced arena is gathered on the host and copied at once. -/
def copyInputsToStaging (cfg : NodeConfig) (params : ParameterShapes) (c : Call)
    (dyn : DynamicBatchContext) (s : ComputeState D) : List Access × Bool :=
  let noPadding := !dyn.active || dyn.targetBatch == dyn.requestedBatch
  let allHost := params.names.all fun name =>
    (cfg.inputIndex name).all fun index => (c.input index).onHost
  if s.staging.inputsCoalesced && s.staging.inStagingHost && noPadding && allHost then
    ((fedInputs cfg params c s).flatMap fun (name, stage, _) =>
      clampedCopy name (params.shape name) stage, c.faults.inputCopies.isNone)
  else
    cut c.faults.inputCopies <| (fedInputs cfg params c s).flatMap fun (name, stage, tensor) =>
      copyInput dyn name (params.shape name) stage tensor

/-- An output that was bound: `prog_output_indices`, `bound_output_names` and
`bound_output_shapes` of `StagingBindResult`. -/
structure BoundOutput where
  index : Int
  name : String
  shape : Shape
  deriving DecidableEq, Repr

/-- The buffer that a parameter is bound to, with the output it stands for. -/
def boundBuffer (cfg : NodeConfig) (s : ComputeState D) (name : String) : Option StagingBuffer :=
  if cfg.isInput name then s.staging.inputs name
  else if name = scratchParam then none
  else if computeOutputIndex name ≠ -1 then s.staging.outputs name
  else none

/-- The uses that binding makes, one for each parameter that has a buffer. -/
def boundAccesses (cfg : NodeConfig) (params : ParameterShapes) (s : ComputeState D)
    (names : List String) : List Access :=
  names.filterMap fun name =>
    (boundBuffer cfg s name).map fun stage =>
      { name, bytes := (params.shape name).bytes, sizeBytes := stage.sizeBytes }

/-- The outputs that binding records. -/
def boundOutputs (cfg : NodeConfig) (params : ParameterShapes) (s : ComputeState D) :
    List BoundOutput :=
  params.names.filterMap fun name =>
    if cfg.isInput name then none
    else (boundBuffer cfg s name).map fun _ =>
      { index := computeOutputIndex name, name, shape := params.shape name }

/-- `GetOrAllocScratch` for a program with a scratch parameter; none when `hipMalloc` throws. A
buffer that has grown too small is freed first. -/
def getOrAllocScratch [DecidableEq D] (params : ParameterShapes) (key : D) (c : Call)
    (s : ComputeState D) : ComputeState D × Bool :=
  let shape := params.shape scratchParam
  let put (slot : Option ScratchBuffer) : ComputeState D :=
    { s with scratchBufs := Function.update s.scratchBufs key slot }
  let fresh : ComputeState D × Bool :=
    match c.scratchAddress with
    | none => (put (some { data := 0, sizeBytes := 0, shape }), false)
    | some data => (put (some { data, sizeBytes := shape.bytes, shape }), true)
  match s.scratchBufs key with
  | none => fresh
  | some slot =>
    if slot.data = 0 ∨ slot.sizeBytes < shape.bytes then fresh
    else (put (some { slot with shape }), true)

/-- The result of `BindStagingParams`. -/
structure StagingBindResult (D : Type*) where
  state : ComputeState D
  accesses : List Access
  outputs : List BoundOutput
  through : Bool

/-- `BindStagingParams`. When the scratch buffer cannot be allocated, only the parameters in front
of it were bound. -/
def bindStagingParams [DecidableEq D] (cfg : NodeConfig) (params : ParameterShapes) (key : D)
    (c : Call) (s : ComputeState D) : StagingBindResult D :=
  let all : List Access := boundAccesses cfg params s params.names
  if scratchParam ∈ params.names ∧ cfg.isInput scratchParam = false then
    let (s', through) := getOrAllocScratch params key c s
    if through then
      { state := s', accesses := all, outputs := boundOutputs cfg params s, through }
    else
      { state := s'
        accesses := boundAccesses cfg params s (params.names.takeWhile (· != scratchParam))
        outputs := []
        through }
  else { state := s, accesses := all, outputs := boundOutputs cfg params s, through := true }

/-- The bytes of an output that are copied: a batched output is cut down to the requested batch. -/
def outputBytes (dyn : DynamicBatchContext) (shape : Shape) : Nat :=
  if dyn.active ∧ dyn.requestedBatch < dyn.targetBatch ∧
      shape.lengths.head? = some dyn.targetBatch then
    shape.bytes / dyn.targetBatch * dyn.requestedBatch
  else shape.bytes

/-- `CopyStagingOutputsToOrt` -/
def copyStagingOutputsToOrt (outputs : List BoundOutput) (c : Call) (dyn : DynamicBatchContext)
    (s : ComputeState D) : List Access × Bool :=
  cut c.faults.outputCopies <| outputs.filterMap fun out =>
    match s.staging.outputs out.name with
    | none => none
    | some stage =>
      let bytes := outputBytes dyn out.shape
      if 0 < bytes then some { name := out.name, bytes, sizeBytes := stage.sizeBytes } else none

/-! ## Running -/

/-- The scratch address of a key. -/
def scratchPtr (s : ComputeState D) (key : D) : Option Nat :=
  (s.scratchBufs key).map ScratchBuffer.data

/-- `WarmupAndCaptureHipGraph` and the eager run when it fails: the program that runs is the
current one. A failed capture turns graphs off. -/
def warmupAndCapture [DecidableEq D] (key : D) (c : Call) (s : ComputeState D) :
    ComputeState D × Bool :=
  if c.faults.warmup then (s, false)
  else if c.faults.capture then
    ({ s with
        hipGraphEnable := false
        hipGraphCache := Function.update s.hipGraphCache key
          (some { graph := none, captured := false, capturedScratchPtr := none }) },
      !c.faults.run)
  else
    ({ s with
        hipGraphCache := Function.update s.hipGraphCache key
          (some { graph := some s.program, captured := true,
                  capturedScratchPtr := scratchPtr s key }) },
      !c.faults.run)

/-- The state after a captured graph whose scratch buffer has moved is destroyed. -/
def dropCapture [DecidableEq D] (key : D) (entry : CapturedHipGraph) (s : ComputeState D) :
    ComputeState D :=
  { s with
    hipGraphCache := Function.update s.hipGraphCache key
      (some { entry with graph := none, captured := false }) }

/-- `RunProgramOrHipGraph`: the state, the program that is executed, and whether it got through. A
captured graph executes the program it was captured from, unless the scratch buffer has moved. -/
def runProgramOrHipGraph [DecidableEq D] (key : D) (c : Call) (s : ComputeState D) :
    ComputeState D × Program × Bool :=
  if s.hipGraphEnable then
    match s.hipGraphCache key with
    | some entry =>
      match entry.graph with
      | some program =>
        if entry.captured ∧ entry.capturedScratchPtr = scratchPtr s key then
          (s, program, !c.faults.run)
        else
          let (s', through) := warmupAndCapture key c (dropCapture key entry s)
          (s', s.program, through)
      | none =>
        let (s', through) := warmupAndCapture key c s
        (s', s.program, through)
    | none =>
      let (s', through) := warmupAndCapture key c s
      (s', s.program, through)
  else (s, s.program, !c.faults.run)

/-- The ways through `RunProgramOrHipGraph`: without a graph, with a captured one, and three ends
of `WarmupAndCaptureHipGraph`. -/
inductive RunPath
  | eager
  | replay (program : Program)
  | capture
  | failedCapture
  | stopped

/-- The program whose captured graph is replayed for a key: the scratch buffer has not moved. -/
def replayable (key : D) (s : ComputeState D) : Option Program :=
  (s.hipGraphCache key).bind fun entry =>
    if entry.captured ∧ entry.capturedScratchPtr = scratchPtr s key then entry.graph else none

def runPath (key : D) (c : Call) (s : ComputeState D) : RunPath :=
  if s.hipGraphEnable then
    match replayable key s with
    | some program => .replay program
    | none =>
      if c.faults.warmup then .stopped
      else if c.faults.capture then .failedCapture
      else .capture
  else .eager

/-- What `RunProgramOrHipGraph` does on each of its ways: the state, the program that is executed,
and whether it got through. -/
def RunsBy [DecidableEq D] (key : D) (c : Call) (s : ComputeState D) (result : ComputeState D)
    (program : Program) (through : Bool) : RunPath → Prop
  | .eager => result = s ∧ program = s.program ∧ through = !c.faults.run
  | .replay captured => result = s ∧ program = captured ∧ through = !c.faults.run
  | .capture =>
    result = { s with
      hipGraphCache := Function.update s.hipGraphCache key
        (some { graph := some s.program, captured := true
                capturedScratchPtr := scratchPtr s key }) } ∧
      program = s.program ∧ through = !c.faults.run
  | .failedCapture =>
    result = { s with
      hipGraphEnable := false
      hipGraphCache := Function.update s.hipGraphCache key
        (some { graph := none, captured := false, capturedScratchPtr := none }) } ∧
      program = s.program ∧ through = !c.faults.run
  | .stopped =>
    (result = s ∨ ∃ entry, s.hipGraphCache key = some entry ∧ result = dropCapture key entry s) ∧
      program = s.program ∧ through = false

theorem warmupAndCapture_runsBy [DecidableEq D] {key : D} {c : Call} {s t : ComputeState D}
    (henable : s.hipGraphEnable = true) (hnone : replayable key s = none)
    (ht : t = s ∨ ∃ entry, s.hipGraphCache key = some entry ∧ t = dropCapture key entry s) :
    RunsBy key c s (warmupAndCapture key c t).1 s.program (warmupAndCapture key c t).2
      (runPath key c s) := by
  have hptr : scratchPtr t key = scratchPtr s key ∧ t.program = s.program := by
    rcases ht with rfl | ⟨entry, -, rfl⟩ <;> exact ⟨rfl, rfl⟩
  unfold runPath warmupAndCapture
  rw [if_pos henable, hnone]
  dsimp only
  split
  · exact ⟨ht, rfl, rfl⟩
  · split
    · refine ⟨?_, rfl, rfl⟩
      rcases ht with rfl | ⟨entry, -, rfl⟩
      · rfl
      · simp [dropCapture]
    · refine ⟨?_, rfl, rfl⟩
      rw [hptr.1, hptr.2]
      rcases ht with rfl | ⟨entry, -, rfl⟩
      · rfl
      · simp [dropCapture]

theorem runProgramOrHipGraph_runsBy [DecidableEq D] (key : D) (c : Call) (s : ComputeState D) :
    RunsBy key c s (runProgramOrHipGraph key c s).1 (runProgramOrHipGraph key c s).2.1
      (runProgramOrHipGraph key c s).2.2 (runPath key c s) := by
  by_cases henable : s.hipGraphEnable = true
  · unfold runProgramOrHipGraph
    rw [if_pos henable]
    cases hentry : s.hipGraphCache key with
    | none =>
      have hnone : replayable key s = none := by simp [replayable, hentry]
      exact warmupAndCapture_runsBy henable hnone (Or.inl rfl)
    | some entry =>
      cases hgraph : entry.graph with
      | none =>
        have hnone : replayable key s = none := by simp [replayable, hentry, hgraph]
        simp only [hgraph]
        exact warmupAndCapture_runsBy henable hnone (Or.inl rfl)
      | some program =>
        simp only [hgraph]
        split
        · next hkept =>
          have hpath : runPath key c s = .replay program := by
            simp [runPath, henable, replayable, hentry, hkept, hgraph]
          rw [hpath]
          exact ⟨rfl, rfl, rfl⟩
        · next hmoved =>
          have hnone : replayable key s = none := by
            simp only [replayable, hentry, Option.bind_some, if_neg hmoved]
          exact warmupAndCapture_runsBy henable hnone (Or.inr ⟨entry, hentry, rfl⟩)
  · have hpath : runPath key c s = .eager := if_neg henable
    unfold runProgramOrHipGraph
    rw [if_neg henable, hpath]
    exact ⟨rfl, rfl, rfl⟩

theorem RunsBy.frame [DecidableEq D] {key : D} {c : Call} {s result : ComputeState D}
    {program : Program} {through : Bool} {path : RunPath}
    (h : RunsBy key c s result program through path) :
    result.staging = s.staging ∧ result.cachedPrograms = s.cachedPrograms := by
  cases path with
  | eager | replay | capture | failedCapture =>
    obtain ⟨rfl, _, _⟩ := h
    exact ⟨rfl, rfl⟩
  | stopped =>
    obtain ⟨rfl | ⟨entry, _, rfl⟩, _, _⟩ := h
    · exact ⟨rfl, rfl⟩
    · exact ⟨rfl, rfl⟩

/-- What is captured after a run was captured before, or the run has captured it. -/
theorem RunsBy.captured [DecidableEq D] {key : D} {c : Call} {s result : ComputeState D}
    {program : Program} {through : Bool} {path : RunPath}
    (h : RunsBy key c s result program through path) {k : D} {entry : CapturedHipGraph}
    (hentry : entry ∈ result.hipGraphCache k) (hcaptured : entry.captured = true) :
    entry ∈ s.hipGraphCache k ∧ (path = .capture → k ≠ key) ∨
      k = key ∧ path = .capture ∧
        entry = { graph := some s.program, captured := true
                  capturedScratchPtr := scratchPtr s key } := by
  -- the entry of `key` is overwritten, those of other keys stay
  have hupdate : ∀ e : CapturedHipGraph,
      entry ∈ Function.update s.hipGraphCache key (some e) k →
      entry ∈ s.hipGraphCache k ∧ k ≠ key ∨ k = key ∧ entry = e := by
    intro e he
    by_cases hk : k = key
    · subst hk
      rw [Function.update_self] at he
      exact Or.inr ⟨rfl, (Option.some.inj he).symm⟩
    · rw [Function.update_of_ne hk] at he
      exact Or.inl ⟨he, hk⟩
  cases path with
  | eager | replay =>
    obtain ⟨rfl, _, _⟩ := h
    exact Or.inl ⟨hentry, nofun⟩
  | capture =>
    obtain ⟨rfl, _, _⟩ := h
    rcases hupdate _ hentry with ⟨hold, hk⟩ | ⟨hk, rfl⟩
    · exact Or.inl ⟨hold, fun _ => hk⟩
    · exact Or.inr ⟨hk, rfl, rfl⟩
  | failedCapture =>
    obtain ⟨rfl, _, _⟩ := h
    rcases hupdate _ hentry with ⟨hold, _⟩ | ⟨_, rfl⟩
    · exact Or.inl ⟨hold, nofun⟩
    · cases hcaptured
  | stopped =>
    obtain ⟨rfl | ⟨old, _, rfl⟩, _, _⟩ := h
    · exact Or.inl ⟨hentry, nofun⟩
    · rcases hupdate _ hentry with ⟨hold, _⟩ | ⟨_, rfl⟩
      · exact Or.inl ⟨hold, nofun⟩
      · cases hcaptured

/-- A replay: graphs are on, and the entry of the key is captured at the scratch address of now. -/
theorem runPath_eq_replay {key : D} {c : Call} {s : ComputeState D} {program : Program}
    (h : runPath key c s = .replay program) :
    s.hipGraphEnable = true ∧ ∃ entry ∈ s.hipGraphCache key, entry.captured = true ∧
      entry.capturedScratchPtr = scratchPtr s key ∧ program ∈ entry.graph := by
  unfold runPath at h
  split at h
  · next henable =>
    refine ⟨henable, ?_⟩
    cases hreplay : replayable key s with
    | none =>
      rw [hreplay] at h
      dsimp only at h
      split at h
      · cases h
      · split at h <;> cases h
    | some captured =>
      rw [hreplay] at h
      cases h
      obtain ⟨entry, hentry, hcaptured⟩ := Option.bind_eq_some_iff.1 hreplay
      obtain ⟨hkept, hgraph⟩ := Option.ite_none_right_eq_some.1 hcaptured
      exact ⟨entry, hentry, hkept.1, hkept.2, hgraph⟩
  · cases h

/-! ## What an allocation does -/

theorem allocateStaging_of_allocated (cfg : NodeConfig) (params : ParameterShapes)
    (dyn : DynamicBatchContext) (faults : Faults) {st : Staging} (h : st.allocated = true) :
    allocateStaging cfg params dyn faults st = (st, true) := by
  unfold allocateStaging
  rw [if_pos h]

theorem allocateStaging_allocated {cfg : NodeConfig} {params : ParameterShapes}
    {dyn : DynamicBatchContext} {faults : Faults} {st : Staging}
    (h : (allocateStaging cfg params dyn faults st).2 = true) :
    (allocateStaging cfg params dyn faults st).1.allocated = true := by
  unfold allocateStaging at h ⊢
  dsimp only at h ⊢
  split at h
  · next hallocated =>
    rw [if_pos hallocated]
    exact hallocated
  · next hnot =>
    rw [if_neg hnot]
    split at h
    · next hinputs =>
      rw [if_pos hinputs]
      split at h
      · next houtputs => rw [if_pos houtputs]
      · cases h
    · cases h

namespace Buffers

/-- `m'` has the buffers of `m`, and others whose size comes from their parameter in this call. -/
def Grows (size : String → Nat) (m m' : Buffers) : Prop :=
  ∀ name, m' name = m name ∨
    m name = none ∧ ∃ buffer, m' name = some buffer ∧ buffer.sizeBytes = size name

variable {size : String → Nat} {m m' m'' : Buffers}

theorem Grows.refl (size : String → Nat) (m : Buffers) : m.Grows size m :=
  fun _ => Or.inl rfl

theorem Grows.trans (h : m.Grows size m') (h' : m'.Grows size m'') : m.Grows size m'' := by
  intro name
  rcases h name with hkept | ⟨hnone, buffer, hbuffer, hsize⟩
  · rw [← hkept]
    exact h' name
  · rcases h' name with hkept | ⟨hnone', _⟩
    · exact Or.inr ⟨hnone, buffer, hkept.trans hbuffer, hsize⟩
    · rw [hbuffer] at hnone'
      cases hnone'

theorem grows_emplace {name : String} {buffer : StagingBuffer}
    (hsize : buffer.sizeBytes = size name) : m.Grows size (m.emplace name buffer) := by
  intro n
  unfold emplace
  split
  · exact Or.inl rfl
  · next hnone =>
    by_cases hn : n = name
    · subst hn
      refine Or.inr ⟨by simpa using hnone, buffer, ?_, hsize⟩
      rw [Function.update_self]
    · rw [Function.update_of_ne hn]
      exact Or.inl rfl

end Buffers

theorem grows_allocBuffers {size : Shape → Nat} {shape : String → Shape} {names : List String}
    {left : Option Nat} {m : Buffers} :
    m.Grows (fun name => size (shape name)) (allocBuffers size shape names left m).1 := by
  induction names generalizing left m with
  | nil => exact Buffers.Grows.refl _ _
  | cons name names ih =>
    unfold allocBuffers
    split
    · exact Buffers.Grows.refl _ _
    · exact (Buffers.grows_emplace rfl).trans ih

theorem grows_arenaViews {size : Shape → Nat} {shape : String → Shape} {names : List String}
    {offset : Nat} {m : Buffers} :
    m.Grows (fun name => size (shape name)) (arenaViews size shape names offset m).1 := by
  induction names generalizing offset m with
  | nil => exact Buffers.Grows.refl _ _
  | cons name names ih => exact (Buffers.grows_emplace rfl).trans ih

/-- The buffer of a parameter: those of inputs and of outputs are kept apart. -/
def Staging.buffer (cfg : NodeConfig) (st : Staging) : Buffers := fun name =>
  if cfg.isInput name then st.inputs name else st.outputs name

variable {cfg : NodeConfig} {params : ParameterShapes} {dyn : DynamicBatchContext}

/-- The size of the buffer that a parameter gets in a call. -/
def freshSize (cfg : NodeConfig) (params : ParameterShapes) (dyn : DynamicBatchContext)
    (name : String) : Nat :=
  bufferBytes cfg dyn (params.shape name)

theorem grows_allocateInputs (cfg : NodeConfig) (params : ParameterShapes)
    (dyn : DynamicBatchContext) (left : Option Nat) (st : Staging) :
    (st.buffer cfg).Grows (freshSize cfg params dyn)
      ((allocateInputs cfg params dyn left st).1.buffer cfg) := by
  suffices h : st.inputs.Grows (freshSize cfg params dyn)
        (allocateInputs cfg params dyn left st).1.inputs ∧
      (allocateInputs cfg params dyn left st).1.outputs = st.outputs by
    intro name
    unfold Staging.buffer
    split
    · exact h.1 name
    · rw [h.2]
      exact Or.inl rfl
  unfold allocateInputs
  dsimp only
  split
  · split
    · exact ⟨grows_arenaViews, rfl⟩
    · split
      all_goals exact ⟨grows_arenaViews, rfl⟩
  · exact ⟨grows_allocBuffers, rfl⟩

theorem grows_allocateOutputs (cfg : NodeConfig) (params : ParameterShapes)
    (dyn : DynamicBatchContext) (left : Option Nat) (st : Staging) :
    (st.buffer cfg).Grows (freshSize cfg params dyn)
      ((allocateOutputs cfg params dyn left st).1.buffer cfg) := by
  intro name
  unfold Staging.buffer
  split
  · exact Or.inl rfl
  · exact grows_allocBuffers name

/-- An allocation keeps the buffers that are there, and sizes the others for this call. -/
theorem grows_allocateStaging (cfg : NodeConfig) (params : ParameterShapes)
    (dyn : DynamicBatchContext) (faults : Faults) (st : Staging) :
    (st.buffer cfg).Grows (freshSize cfg params dyn)
      ((allocateStaging cfg params dyn faults st).1.buffer cfg) := by
  unfold allocateStaging
  dsimp only
  have hinputs := grows_allocateInputs cfg params dyn faults.stagingAllocations st
  split
  · exact Buffers.Grows.refl _ _
  · split
    · split
      · exact hinputs.trans (grows_allocateOutputs cfg params dyn _ _)
      · exact hinputs.trans (grows_allocateOutputs cfg params dyn _ _)
    · exact hinputs

/-! ## What the uses need -/

/-- The buffer of every parameter is large enough for it. -/
def Roomy (cfg : NodeConfig) (params : ParameterShapes) (st : Staging) : Prop :=
  ∀ name ∈ params.names, ∀ buffer, st.buffer cfg name = some buffer →
    (params.shape name).bytes ≤ buffer.sizeBytes

theorem cut_subset {α : Type*} (left : Option Nat) (l : List α) : (cut left l).1 ⊆ l := by
  unfold cut
  split
  · exact List.Subset.refl _
  · split
    · exact List.take_subset _ _
    · exact List.Subset.refl _

theorem clampedCopy_fits {name : String} {shape : Shape} {stage : StagingBuffer} {a : Access}
    (h : a ∈ clampedCopy name shape stage) : a.Fits := by
  unfold clampedCopy at h
  dsimp only at h
  split at h
  · obtain rfl := List.mem_singleton.1 h
    exact Nat.min_le_right _ _
  · cases h

/-- Padding fills the target batch, which is not more than the shape has. -/
theorem copyInput_fits {name : String} {shape : Shape} {stage : StagingBuffer} {tensor : Tensor}
    {a : Access} (hroom : shape.bytes ≤ stage.sizeBytes)
    (h : a ∈ copyInput dyn name shape stage tensor) : a.Fits := by
  unfold copyInput at h
  split at h
  · next hbatched =>
    obtain ⟨copy, hcopy, rfl⟩ := List.mem_map.1 h
    have hend := padInputTensor_end_le (Nat.le_of_lt hbatched.2.1) hcopy
    refine Nat.le_trans hend (Nat.le_trans ?_ hroom)
    set total := productOf shape.lengths
    split
    · calc dyn.targetBatch * (shape.bytes / total * (total / dyn.targetBatch))
          = shape.bytes / total * (total / dyn.targetBatch * dyn.targetBatch) := by ring
        _ ≤ shape.bytes / total * total :=
          Nat.mul_le_mul_left _ (Nat.div_mul_le_self _ _)
        _ ≤ shape.bytes := Nat.div_mul_le_self _ _
    · simp
  · exact clampedCopy_fits h

theorem mem_fedInputs {c : Call} {s : ComputeState D} {name : String} {stage : StagingBuffer}
    {tensor : Tensor} (h : (name, stage, tensor) ∈ fedInputs cfg params c s) :
    name ∈ params.names ∧ s.staging.buffer cfg name = some stage := by
  obtain ⟨n, hn, hsome⟩ := List.mem_filterMap.1 h
  split at hsome
  · next index stage' hindex hstage =>
    cases hsome
    refine ⟨hn, ?_⟩
    unfold Staging.buffer NodeConfig.isInput
    rw [hindex]
    exact hstage
  · cases hsome

theorem copyInputs_fit {c : Call} {s : ComputeState D} (hroomy : Roomy cfg params s.staging)
    {a : Access} (h : a ∈ (copyInputsToStaging cfg params c dyn s).1) : a.Fits := by
  unfold copyInputsToStaging at h
  dsimp only at h
  split at h
  · obtain ⟨⟨name, stage, tensor⟩, _, ha⟩ := List.mem_flatMap.1 h
    exact clampedCopy_fits ha
  · obtain ⟨⟨name, stage, tensor⟩, hfed, ha⟩ := List.mem_flatMap.1 (cut_subset _ _ h)
    obtain ⟨hname, hbuffer⟩ := mem_fedInputs hfed
    exact copyInput_fits (hroomy name hname stage hbuffer) ha

theorem boundBuffer_eq {s : ComputeState D} {name : String} {stage : StagingBuffer}
    (h : boundBuffer cfg s name = some stage) : s.staging.buffer cfg name = some stage := by
  unfold boundBuffer at h
  unfold Staging.buffer
  split at h
  · next hinput =>
    rw [if_pos hinput]
    exact h
  · next hinput =>
    rw [if_neg hinput]
    split at h
    · cases h
    · split at h
      · exact h
      · cases h

theorem boundAccesses_fit {s : ComputeState D} {names : List String}
    (hroomy : Roomy cfg params s.staging) (hsub : names ⊆ params.names) {a : Access}
    (h : a ∈ boundAccesses cfg params s names) : a.Fits := by
  obtain ⟨name, hname, hsome⟩ := List.mem_filterMap.1 h
  obtain ⟨stage, hstage, rfl⟩ := Option.map_eq_some_iff.1 hsome
  exact hroomy name (hsub hname) stage (boundBuffer_eq hstage)

theorem getOrAllocScratch_frame [DecidableEq D] (key : D) (c : Call) (s : ComputeState D) :
    ∃ scratch, (getOrAllocScratch params key c s).1 = { s with scratchBufs := scratch } := by
  unfold getOrAllocScratch
  dsimp only
  split
  · split
    all_goals exact ⟨_, rfl⟩
  · split
    · split
      all_goals exact ⟨_, rfl⟩
    · exact ⟨_, rfl⟩

/-- Binding changes scratch buffers only, uses roomy buffers within their size, and records
parameters of the program. -/
theorem bindStagingParams_spec [DecidableEq D] (cfg : NodeConfig) (params : ParameterShapes)
    (key : D) (c : Call) (s : ComputeState D) :
    (∃ scratch, (bindStagingParams cfg params key c s).state = { s with scratchBufs := scratch }) ∧
      (Roomy cfg params s.staging →
        ∀ a ∈ (bindStagingParams cfg params key c s).accesses, a.Fits) ∧
      ∀ out ∈ (bindStagingParams cfg params key c s).outputs,
        out.name ∈ params.names ∧ cfg.isInput out.name = false ∧
          out.shape = params.shape out.name := by
  have hall : Roomy cfg params s.staging →
      ∀ a ∈ boundAccesses cfg params s params.names, a.Fits :=
    fun hroomy _ => boundAccesses_fit hroomy (List.Subset.refl _)
  have hout : ∀ out ∈ boundOutputs cfg params s,
      out.name ∈ params.names ∧ cfg.isInput out.name = false ∧
        out.shape = params.shape out.name := by
    intro out hout
    obtain ⟨name, hname, hsome⟩ := List.mem_filterMap.1 hout
    split at hsome
    · cases hsome
    · next hinput =>
      obtain ⟨stage, _, rfl⟩ := Option.map_eq_some_iff.1 hsome
      exact ⟨hname, by simpa using hinput, rfl⟩
  unfold bindStagingParams
  dsimp only
  split
  · split
    · exact ⟨getOrAllocScratch_frame key c s, hall, hout⟩
    · refine ⟨getOrAllocScratch_frame key c s, fun hroomy a ha => ?_, by simp⟩
      exact boundAccesses_fit hroomy (List.takeWhile_subset _) ha
  · exact ⟨⟨_, rfl⟩, hall, hout⟩

theorem outputBytes_le (dyn : DynamicBatchContext) (shape : Shape) :
    outputBytes dyn shape ≤ shape.bytes := by
  unfold outputBytes
  split
  · next hsliced =>
    calc shape.bytes / dyn.targetBatch * dyn.requestedBatch
        ≤ shape.bytes / dyn.targetBatch * dyn.targetBatch :=
          Nat.mul_le_mul_left _ (Nat.le_of_lt hsliced.2.1)
      _ ≤ shape.bytes := Nat.div_mul_le_self _ _
  · exact Nat.le_refl _

theorem copyOutputs_fit {c : Call} {s : ComputeState D} {outputs : List BoundOutput}
    (hroomy : Roomy cfg params s.staging)
    (houtputs : ∀ out ∈ outputs, out.name ∈ params.names ∧ cfg.isInput out.name = false ∧
      out.shape = params.shape out.name)
    {a : Access} (h : a ∈ (copyStagingOutputsToOrt outputs c dyn s).1) : a.Fits := by
  obtain ⟨out, hout, hsome⟩ := List.mem_filterMap.1 (cut_subset _ _ h)
  obtain ⟨hname, hinput, hshape⟩ := houtputs out hout
  split at hsome
  · cases hsome
  · next stage hstage =>
    have hbuffer : s.staging.buffer cfg out.name = some stage := by
      unfold Staging.buffer
      rw [hinput]
      exact hstage
    obtain ⟨-, ha⟩ := Option.ite_none_right_eq_some.1 hsome
    cases ha
    have hroom := hroomy out.name hname stage hbuffer
    rw [← hshape] at hroom
    exact Nat.le_trans (outputBytes_le dyn out.shape) hroom

/-- Running a program leaves the staging buffers as they are. -/
theorem runProgramOrHipGraph_frame [DecidableEq D] (key : D) (c : Call) (s : ComputeState D) :
    ∃ enable cache, (runProgramOrHipGraph key c s).1 =
        { s with hipGraphEnable := enable, hipGraphCache := cache } ∧
      (enable = true → s.hipGraphEnable = true) := by
  have hcapture : ∀ t : ComputeState D, ∃ enable cache, (warmupAndCapture key c t).1 =
        { t with hipGraphEnable := enable, hipGraphCache := cache } ∧
      (enable = true → t.hipGraphEnable = true) := by
    intro t
    unfold warmupAndCapture
    split
    · exact ⟨_, _, rfl, id⟩
    · split
      · exact ⟨_, _, rfl, by simp⟩
      · exact ⟨_, _, rfl, id⟩
  unfold runProgramOrHipGraph
  split
  · split
    · split
      · split
        · exact ⟨_, _, rfl, id⟩
        · obtain ⟨enable, cache, heq, henable⟩ := hcapture (dropCapture key _ s)
          exact ⟨enable, cache, heq, henable⟩
      · exact hcapture s
    · exact hcapture s
  · exact ⟨_, _, rfl, id⟩

end AmdGpuEp.MIGraphX
