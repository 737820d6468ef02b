import AmdGpuEp.Lib.Runs
import AmdGpuEp.MIGraphX.HipGraph
import AmdGpuEp.MIGraphX.ShapeKey

/-!
# NodeComputeInfo::Compute

One call of a fused node: choose the batch bucket, compare the input shapes with
those of the current program, reparse and recompile when they differ, then run
through staging buffers or directly. A call that throws keeps what it has
changed by then.

Results:
1. `prepare_cases`: the shapes match and the program stays, or it is refreshed.
2. `prepare_staging`, `prepare_graphs`: before it runs anything, a call keeps all
   buffers or frees all of them, and keeps the graphs only with their buffers.
3. `runStaged_spec`: what the staged way changes, and that it stays inside its
   buffers when they are roomy.
4. `compute_cases`: a call uses no buffer, or it is staged.
-/

namespace AmdGpuEp.MIGraphX

variable {D : Type*}

/-! ## The batch bucket -/

/-- The dimensions on axis 0 of the inputs, with the index of the input. -/
def batchDims (cfg : NodeConfig) (c : Call) : List (Nat × Nat) :=
  cfg.inputNameIndices.filterMap fun (_, index) =>
    (c.input index).shape.head?.map fun dim => (index, sizeOf64 dim)

/-- The first dimension of the input with the least index; 0 when all inputs are scalars. -/
def requestedBatch (cfg : NodeConfig) (c : Call) : Nat :=
  let least := (batchDims cfg c).foldl
    (fun (best : Option (Nat × Nat)) dim =>
      match best with
      | none => some dim
      | some b => if dim.1 < b.1 then some dim else some b) none
  (least.map Prod.snd).getD 0

/-- The batch context of a call, with the compiled batch sizes; none when generating them does not
end. -/
def resolveBatch (cfg : NodeConfig) (c : Call) (compiled : List Nat) :
    Option (List Nat × DynamicBatchContext) :=
  if cfg.maxDynamicBatch = 0 then some (compiled, {})
  else
    let generated :=
      if compiled.isEmpty then generateCompiledBatchSizes cfg.maxDynamicBatch cfg.compileBatches
      else some compiled
    generated.map fun sizes =>
      let requested := requestedBatch cfg c
      if 0 < requested then
        let bucket := findNearestCompiledBatchSize requested sizes
        (sizes, { active := true, requestedBatch := requested
                  targetBatch := if 0 < bucket then bucket else requested })
      else (sizes, {})

/-- `effective_shape`: a batched input is raised to the target batch. -/
def effectiveShape (dyn : DynamicBatchContext) : List Int64 → List Int64
  | [] => []
  | dim :: dims =>
    if dyn.active ∧ sizeOf64 dim = dyn.requestedBatch then Int64.ofNat dyn.targetBatch :: dims
    else dim :: dims

/-- The effective shape of an input of the call, by name. -/
def effectiveShapes (cfg : NodeConfig) (c : Call) (dyn : DynamicBatchContext) : Shapes := fun name =>
  effectiveShape dyn (c.input ((cfg.inputIndex name).getD 0)).shape

/-- A shape as a vector of `size_t`. -/
def toLengths (shape : List Int64) : List Nat := shape.map sizeOf64

/-! ## The comparison of shapes -/

/-- The lengths of a parameter; a scalar is reported with one broadcast element. -/
def progLengths (shape : Shape) : List Nat :=
  if shape.lengths = [1] ∧ shape.strides = [0] then [] else shape.lengths

/-- The parameter is an input whose shape has changed. -/
def Differs (cfg : NodeConfig) (params : ParameterShapes) (effective : Shapes) (name : String) :
    Prop :=
  cfg.isInput name = true ∧ progLengths (params.shape name) ≠ toLengths (effective name)

instance (cfg : NodeConfig) (params : ParameterShapes) (effective : Shapes) (name : String) :
    Decidable (Differs cfg params effective name) :=
  inferInstanceAs (Decidable (_ ∧ _))

/-- `set_input_parameter_shape` -/
def setInputParameterShape (options : String → Option (List Nat)) (name : String)
    (shape : List Int64) : String → Option (List Nat) :=
  Function.update options name (some (toLengths shape))

/-- The loop over the inputs of the first call. -/
def setParameters (effective : Shapes) :
    List String → (String → Option (List Nat)) → String → Option (List Nat)
  | [], options => options
  | name :: names, options =>
    setParameters effective names (setInputParameterShape options name (effective name))

/-- The loop over the parameters of the current program. -/
def compareParameters (cfg : NodeConfig) (params : ParameterShapes) (effective : Shapes) :
    List String → (String → Option (List Nat)) → (String → Option (List Nat)) × Bool
  | [], options => (options, true)
  | name :: names, options =>
    if Differs cfg params effective name then
      ((compareParameters cfg params effective names
        (setInputParameterShape options name (effective name))).1, false)
    else compareParameters cfg params effective names options

/-- The shape check of a call: the options it leaves and whether the shapes match. Without input
shapes all of them are set and nothing matches. -/
def checkShapes (cfg : NodeConfig) (params : ParameterShapes) (effective : Shapes)
    (s : ComputeState D) : (String → Option (List Nat)) × Bool :=
  if s.hasInputShapes then
    compareParameters cfg params effective params.names s.onnxOptions
  else
    (setParameters effective cfg.inputNames s.onnxOptions, false)

/-! ## Reparsing and recompiling -/

/-- The shapes a program is parsed for: the options, and the model's own where none is set. -/
def parseDims (cfg : NodeConfig) (options : String → Option (List Nat)) : String → List Nat :=
  fun name => (options name).getD (cfg.declared name)

/-- The calibration inputs are passed to the parsed program, and one has another type. -/
def calibrationMismatch (lib : Library) (cfg : NodeConfig) (c : Call) (dims : String → List Nat) :
    Bool :=
  let params := lib.parameterShapes (.parsed dims)
  (cfg.enableInt8 != cfg.enableFp8) && cfg.int8CalibrationCacheAvailable &&
    params.names.any fun name =>
      (cfg.inputIndex name).any fun index => (c.input index).type != (params.shape name).type

/-- The program in the .mxr file of a key that is loaded: files are looked for in the cache
directory, and a load that throws is taken as a missing file. -/
def loadCompiledProgram (cfg : NodeConfig) (key : D) (c : Call) (s : ComputeState D) :
    Option Program :=
  if cfg.forceRecompile || !cfg.hasCacheDir || c.faults.load then none else s.mxr key

/-- Parse, quantize, compile and save. -/
def recompile [DecidableEq D] (lib : Library) (cfg : NodeConfig) (key : D) (c : Call)
    (s : ComputeState D) : ComputeState D × Except String Unit :=
  let dims := parseDims cfg s.onnxOptions
  if c.faults.parse then (s, .error "parse_onnx_buffer")
  else if calibrationMismatch lib cfg c dims then
    ({ s with program := .parsed dims },
      .error "NodeComputeInfo::Compute(): input parameter type mismatch")
  else if c.faults.quantize then ({ s with program := .unfinished dims }, .error "quantize")
  else if c.faults.compile then ({ s with program := .unfinished dims }, .error "compile")
  else
    let s := { s with program := .compiled dims }
    if cfg.disableCompiledModelCaching || !cfg.hasCacheDir then (s, .ok ())
    else if c.faults.save then (s, .error "save")
    else ({ s with mxr := Function.update s.mxr key (some s.program) }, .ok ())

/-- `load_compiled_program`, or a new program. -/
def loadOrRecompile [DecidableEq D] (lib : Library) (cfg : NodeConfig) (key : D) (c : Call)
    (s : ComputeState D) : ComputeState D × Except String Unit :=
  match loadCompiledProgram cfg key c s with
  | some program => ({ s with program }, .ok ())
  | none => recompile lib cfg key c s

/-- `cached_programs.emplace` -/
def keepProgram [DecidableEq D] (key : D) (s : ComputeState D) : ComputeState D :=
  { s with
    cachedPrograms :=
      if (s.cachedPrograms key).isSome then s.cachedPrograms
      else Function.update s.cachedPrograms key (some s.program) }

/-- What a call does when the shapes do not match. Programs of buckets are kept; otherwise the
graphs and buffers of the program that is replaced go. -/
def refresh [DecidableEq D] (lib : Library) (cfg : NodeConfig) (dyn : DynamicBatchContext)
    (key : D) (c : Call) (s : ComputeState D) : ComputeState D × Except String Unit :=
  if dyn.active then
    match s.cachedPrograms key with
    | some program => ({ s with program }, .ok ())
    | none =>
      match loadOrRecompile lib cfg key c s with
      | (s, .error e) => (s, .error e)
      | (s, .ok ()) => (keepProgram key s, .ok ())
  else if s.hipGraphEnable then
    loadOrRecompile lib cfg key c (freeStaging (destroyHipGraphs s))
  else loadOrRecompile lib cfg key c s

/-! ## A call -/

/-- The state of a call when its program is there, or where it has thrown. -/
structure Prepared (D : Type*) where
  state : ComputeState D
  dyn : DynamicBatchContext
  effective : Shapes
  key : D
  status : Except String Unit

/-- A call up to the point where it runs the program; none when it does not get there. -/
def prepare [DecidableEq D] (H : IdealHash D) (lib : Library) (cfg : NodeConfig)
    (s : ComputeState D) (c : Call) : Option (Prepared D) :=
  (resolveBatch cfg c s.compiledBatchSizes).map fun (sizes, dyn) =>
    let effective := effectiveShapes cfg c dyn
    let key := runShapesHash H cfg.inputNames effective
    let (options, inputShapesMatch) :=
      checkShapes cfg (lib.parameterShapes s.program) effective s
    let s := { s with compiledBatchSizes := sizes, onnxOptions := options, hasInputShapes := true }
    if inputShapesMatch then { state := s, dyn, effective, key, status := .ok () }
    else
      let (s, status) := refresh lib cfg dyn key c s
      { state := s, dyn, effective, key, status }

/-- What a call did: its status, the uses it made of staging buffers, and the program that it got
as far as executing, with the effective input shapes of the call. -/
structure Outcome where
  status : Except String Unit
  accesses : List Access := []
  executed : Option Program := none
  effective : Shapes

/-- The staging path. -/
def runStaged [DecidableEq D] (cfg : NodeConfig) (params : ParameterShapes) (c : Call)
    (pre : Prepared D) : ComputeState D × Outcome :=
  let effective := pre.effective
  if c.faults.setDevice then (pre.state, { status := .error "hipSetDevice", effective })
  else
    let (staging, through) := allocateStaging cfg params pre.dyn c.faults pre.state.staging
    let s := { pre.state with staging }
    if !through then (s, { status := .error "AllocateStaging", effective })
    else
      let (copies, through) := copyInputsToStaging cfg params c pre.dyn s
      if !through then
        (s, { status := .error "CopyInputsToStaging", accesses := copies, effective })
      else
        let bind := bindStagingParams cfg params pre.key c s
        if bind.through then
          let (s, program, through) := runProgramOrHipGraph pre.key c bind.state
          if through then
            let (outputs, through) := copyStagingOutputsToOrt bind.outputs c pre.dyn s
            (s, { status := if through then .ok () else .error "CopyStagingOutputsToOrt"
                  accesses := copies ++ bind.accesses ++ outputs
                  executed := some program, effective })
          else
            (s, { status := .error "RunProgramOrHipGraph", accesses := copies ++ bind.accesses
                  executed := some program, effective })
        else
          (bind.state, { status := .error "BindStagingParams"
                         accesses := copies ++ bind.accesses, effective })

/-- An input of the call has another type than its parameter. -/
def typeMismatch (cfg : NodeConfig) (params : ParameterShapes) (c : Call) : Bool :=
  params.names.any fun name =>
    (cfg.inputIndex name).any fun index => (c.input index).type != (params.shape name).type

/-- The path without staging. -/
def runDirect (cfg : NodeConfig) (params : ParameterShapes) (c : Call) (pre : Prepared D) :
    ComputeState D × Outcome :=
  let effective := pre.effective
  if typeMismatch cfg params c then
    (pre.state, { status := .error "NodeComputeInfo::Compute(): tensor parameter type mismatch"
                  effective })
  else if c.faults.setDevice then (pre.state, { status := .error "hipSetDevice", effective })
  else
    (pre.state, { status := if c.faults.run then .error "run_async" else .ok ()
                  executed := some pre.state.program, effective })

/-- A call stages its inputs and outputs. -/
def Staged (lib : Library) (pre : Prepared D) : Prop :=
  (pre.state.hipGraphEnable = true ∨ pre.dyn.active = true) ∧
    (lib.parameterShapes pre.state.program).names ≠ []

instance (lib : Library) (pre : Prepared D) : Decidable (Staged lib pre) :=
  inferInstanceAs (Decidable (_ ∧ _))

/-- The part of a call after `prepare`. -/
def execute [DecidableEq D] (lib : Library) (cfg : NodeConfig) (c : Call) (pre : Prepared D) :
    ComputeState D × Outcome :=
  match pre.status with
  | .error e => (pre.state, { status := .error e, effective := pre.effective })
  | .ok () =>
    let params := lib.parameterShapes pre.state.program
    if Staged lib pre then runStaged cfg params c pre else runDirect cfg params c pre

/-- `NodeComputeInfo::Compute` -/
def compute [DecidableEq D] (H : IdealHash D) (lib : Library) (cfg : NodeConfig)
    (s : ComputeState D) (c : Call) : Option (ComputeState D × Outcome) :=
  (prepare H lib cfg s c).map (execute lib cfg c)

/-- A fused node that is called again and again. -/
def node [DecidableEq D] (H : IdealHash D) (lib : Library) (cfg : NodeConfig) :
    Machine (ComputeState D) Call Outcome where
  step := compute H lib cfg

/-- A node as `Compile` leaves it: nothing is kept, allocated or captured yet. -/
def compiledNode (s : ComputeState D) : ComputeState D :=
  { s with
    cachedPrograms := fun _ => none
    staging := {}
    scratchBufs := fun _ => none
    hipGraphCache := fun _ => none }

/-! ## What a call changes -/

variable {lib : Library} {cfg : NodeConfig} {dyn : DynamicBatchContext} {params : ParameterShapes}

theorem recompile_frame [DecidableEq D] (lib : Library) (cfg : NodeConfig) (key : D) (c : Call)
    (s : ComputeState D) :
    ∃ p m, (recompile lib cfg key c s).1 = { s with program := p, mxr := m } := by
  unfold recompile
  dsimp only
  repeat' split
  all_goals exact ⟨_, _, rfl⟩

theorem loadOrRecompile_frame [DecidableEq D] (lib : Library) (cfg : NodeConfig) (key : D)
    (c : Call) (s : ComputeState D) :
    ∃ p m, (loadOrRecompile lib cfg key c s).1 = { s with program := p, mxr := m } := by
  unfold loadOrRecompile
  split
  · exact ⟨_, _, rfl⟩
  · exact recompile_frame lib cfg key c s

/-- The state that a program is built in: outside the buckets, graphs and buffers are gone. -/
def cleared (dyn : DynamicBatchContext) (s : ComputeState D) : ComputeState D :=
  if dyn.active = false ∧ s.hipGraphEnable = true then freeStaging (destroyHipGraphs s) else s

theorem refresh_frame [DecidableEq D] (lib : Library) (cfg : NodeConfig)
    (dyn : DynamicBatchContext) (key : D) (c : Call) (s : ComputeState D) :
    ∃ p m k, (refresh lib cfg dyn key c s).1 =
      { cleared dyn s with program := p, mxr := m, cachedPrograms := k } := by
  unfold refresh cleared
  split
  · next hactive =>
    rw [if_neg fun h => by simp [hactive] at h]
    split
    · exact ⟨_, _, _, rfl⟩
    · obtain ⟨p, m, hframe⟩ := loadOrRecompile_frame lib cfg key c s
      split
      · next heq =>
        rw [heq] at hframe
        exact ⟨p, m, _, hframe⟩
      · next heq =>
        rw [heq] at hframe
        dsimp only at hframe
        subst hframe
        exact ⟨p, m, _, rfl⟩
  · next hactive =>
    have hinactive : dyn.active = false := by simpa using hactive
    split
    · next hgraph =>
      rw [if_pos ⟨hinactive, hgraph⟩]
      obtain ⟨p, m, hframe⟩ := loadOrRecompile_frame lib cfg key c
        (freeStaging (destroyHipGraphs s))
      exact ⟨p, m, _, hframe⟩
    · next hgraph =>
      rw [if_neg fun h => hgraph h.2]
      obtain ⟨p, m, hframe⟩ := loadOrRecompile_frame lib cfg key c s
      exact ⟨p, m, _, hframe⟩

theorem refresh_state [DecidableEq D] {lib : Library} {cfg : NodeConfig}
    {dyn : DynamicBatchContext} {key : D} {c : Call} {s s' : ComputeState D}
    {status : Except String Unit} (h : (s', status) = refresh lib cfg dyn key c s) :
    ∃ p m k, s' = { cleared dyn s with program := p, mxr := m, cachedPrograms := k } := by
  obtain ⟨p, m, k, hframe⟩ := refresh_frame lib cfg dyn key c s
  rw [← h] at hframe
  exact ⟨p, m, k, hframe⟩

/-- The two ways through the first part of a call: the shapes match and the program stays, or it is
refreshed. -/
theorem prepare_cases [DecidableEq D] {H : IdealHash D} {s : ComputeState D} {c : Call}
    {pre : Prepared D} (h : prepare H lib cfg s c = some pre) :
    ∃ sizes, resolveBatch cfg c s.compiledBatchSizes = some (sizes, pre.dyn) ∧
      pre.effective = effectiveShapes cfg c pre.dyn ∧
      pre.key = runShapesHash H cfg.inputNames pre.effective ∧
      ∃ options inputShapesMatch,
        checkShapes cfg (lib.parameterShapes s.program) pre.effective s =
          (options, inputShapesMatch) ∧
        (inputShapesMatch = true ∧ pre.status = .ok () ∧
            pre.state = { s with compiledBatchSizes := sizes, onnxOptions := options
                                 hasInputShapes := true } ∨
          inputShapesMatch = false ∧ (pre.state, pre.status) =
            refresh lib cfg pre.dyn pre.key c
              { s with compiledBatchSizes := sizes, onnxOptions := options
                       hasInputShapes := true }) := by
  obtain ⟨⟨sizes, dyn⟩, hbatch, hpre⟩ := Option.map_eq_some_iff.1 h
  dsimp only at hpre
  split at hpre
  · next hmatch =>
    subst hpre
    exact ⟨sizes, hbatch, rfl, rfl, _, _, rfl, Or.inl ⟨hmatch, rfl, rfl⟩⟩
  · next hmatch =>
    subst hpre
    exact ⟨sizes, hbatch, rfl, rfl, _, _, rfl, Or.inr ⟨Bool.eq_false_iff.2 hmatch, rfl⟩⟩

theorem resolveBatch_inactive {c : Call} {compiled sizes : List Nat}
    (hmax : cfg.maxDynamicBatch = 0) (h : resolveBatch cfg c compiled = some (sizes, dyn)) :
    dyn.active = false := by
  unfold resolveBatch at h
  rw [if_pos hmax] at h
  cases h
  rfl

/-- Before it runs anything, a call keeps all buffers or frees all of them. Without buckets and
with graphs on, it keeps them only together with the program they were made for. -/
theorem prepare_staging [DecidableEq D] {H : IdealHash D} {s : ComputeState D} {c : Call}
    {pre : Prepared D} (h : prepare H lib cfg s c = some pre) :
    pre.state.hipGraphEnable = s.hipGraphEnable ∧
      (pre.state.staging = {} ∨ pre.state.staging = s.staging ∧
        (pre.dyn.active = false → s.hipGraphEnable = true → pre.state.program = s.program)) := by
  obtain ⟨sizes, _, _, _, options, _, _, ⟨_, _, hstate⟩ | ⟨_, hrefresh⟩⟩ := prepare_cases h
  · rw [hstate]
    exact ⟨rfl, Or.inr ⟨rfl, fun _ _ => rfl⟩⟩
  · obtain ⟨p, m, k, hframe⟩ := refresh_state hrefresh
    rw [hframe]
    unfold cleared
    split
    · exact ⟨rfl, Or.inl rfl⟩
    · next hkeep =>
      refine ⟨rfl, Or.inr ⟨rfl, fun hinactive hgraph => ?_⟩⟩
      exact absurd ⟨hinactive, hgraph⟩ hkeep

/-- Before it runs anything, a call keeps the graphs and the buffers they point to, or has no
graphs. -/
theorem prepare_graphs [DecidableEq D] {H : IdealHash D} {s : ComputeState D} {c : Call}
    {pre : Prepared D} (h : prepare H lib cfg s c = some pre) :
    pre.state.hipGraphCache = s.hipGraphCache ∧ pre.state.staging = s.staging ∨
      pre.state.hipGraphCache = fun _ => none := by
  obtain ⟨sizes, _, _, _, options, _, _, ⟨_, _, hstate⟩ | ⟨_, hrefresh⟩⟩ := prepare_cases h
  · rw [hstate]
    exact Or.inl ⟨rfl, rfl⟩
  · obtain ⟨p, m, k, hframe⟩ := refresh_state hrefresh
    rw [hframe]
    unfold cleared
    split
    · exact Or.inr rfl
    · exact Or.inl ⟨rfl, rfl⟩

/-- The part of a call that runs the program: what it may change, how it grows the buffers, and
that its uses stay inside roomy buffers. -/
theorem runStaged_spec [DecidableEq D] {c : Call} {pre : Prepared D} {s' : ComputeState D}
    {o : Outcome} (h : runStaged cfg params c pre = (s', o)) :
    (∃ staging scratch enable cache, s' =
        { pre.state with
          staging := staging, scratchBufs := scratch
          hipGraphEnable := enable, hipGraphCache := cache } ∧
      (enable = true → pre.state.hipGraphEnable = true)) ∧
    (pre.state.staging.buffer cfg).Grows (freshSize cfg params pre.dyn) (s'.staging.buffer cfg) ∧
    (Roomy cfg params s'.staging → ∀ a ∈ o.accesses, a.Fits) := by
  obtain ⟨rfl, rfl⟩ : (runStaged cfg params c pre).1 = s' ∧ (runStaged cfg params c pre).2 = o := by
    rw [h]
    exact ⟨rfl, rfl⟩
  clear h
  have hgrows := grows_allocateStaging cfg params pre.dyn c.faults pre.state.staging
  set st := (allocateStaging cfg params pre.dyn c.faults pre.state.staging).1 with hst
  set s : ComputeState D := { pre.state with staging := st } with hs
  obtain ⟨⟨scratch, hbind⟩, hbindFits, hbindOut⟩ :=
    bindStagingParams_spec cfg params pre.key c s
  have hfirst : Roomy cfg params st → ∀ a ∈ (copyInputsToStaging cfg params c pre.dyn s).1 ++
      (bindStagingParams cfg params pre.key c s).accesses, a.Fits := by
    intro hroomy a ha
    rcases List.mem_append.1 ha with ha | ha
    · exact copyInputs_fit (s := s) hroomy ha
    · exact hbindFits hroomy a ha
  unfold runStaged
  dsimp only
  rw [← hst, ← hs]
  split
  · exact ⟨⟨_, _, _, _, rfl, id⟩, Buffers.Grows.refl _ _, by simp⟩
  · split
    · exact ⟨⟨_, _, _, _, rfl, id⟩, hgrows, by simp⟩
    · split
      · exact ⟨⟨_, _, _, _, rfl, id⟩, hgrows, fun hroomy a => copyInputs_fit hroomy⟩
      · split
        · obtain ⟨enable, cache, hrun, henable⟩ :=
            runProgramOrHipGraph_frame pre.key c (bindStagingParams cfg params pre.key c s).state
          rw [hbind] at hrun henable
          rw [hbind]
          have hrunStaging : (runProgramOrHipGraph pre.key c { s with scratchBufs := scratch }).1 =
            { pre.state with
              staging := st, scratchBufs := scratch
              hipGraphEnable := enable, hipGraphCache := cache } := hrun
          split
          · refine ⟨⟨st, scratch, enable, cache, hrunStaging, henable⟩, ?_, ?_⟩
            · rw [hrunStaging]
              exact hgrows
            · rw [hrunStaging]
              intro hroomy a ha
              rcases List.mem_append.1 ha with ha | ha
              · exact hfirst hroomy a ha
              · exact copyOutputs_fit hroomy hbindOut ha
          · refine ⟨⟨st, scratch, enable, cache, hrunStaging, henable⟩, ?_, ?_⟩
            · rw [hrunStaging]
              exact hgrows
            · rw [hrunStaging]
              exact hfirst
        · rw [hbind]
          exact ⟨⟨st, scratch, _, _, rfl, id⟩, hgrows, hfirst⟩

/-- A call that stops before it runs anything, or runs its program without staging. -/
structure RanDirectly (pre : Prepared D) (s' : ComputeState D) (o : Outcome) : Prop where
  state : s' = pre.state
  accesses : o.accesses = []
  effective : o.effective = pre.effective
  executed : ∀ p ∈ o.executed, pre.status = .ok () ∧ p = pre.state.program

theorem runDirect_spec {c : Call} {pre : Prepared D} (hstatus : pre.status = .ok ())
    {s' : ComputeState D} {o : Outcome} (h : runDirect cfg params c pre = (s', o)) :
    RanDirectly pre s' o := by
  unfold runDirect at h
  dsimp only at h
  split at h
  · cases h
    exact ⟨rfl, rfl, rfl, fun p hp => nomatch hp⟩
  · split at h
    · cases h
      exact ⟨rfl, rfl, rfl, fun p hp => nomatch hp⟩
    · cases h
      exact ⟨rfl, rfl, rfl, fun p hp => ⟨hstatus, (Option.some.inj hp).symm⟩⟩

/-- A call uses no buffer, or it is staged. -/
theorem compute_cases [DecidableEq D] {H : IdealHash D} {s s' : ComputeState D} {c : Call}
    {o : Outcome} (h : compute H lib cfg s c = some (s', o)) :
    ∃ pre, prepare H lib cfg s c = some pre ∧
      (RanDirectly pre s' o ∨
        pre.status = .ok () ∧ Staged lib pre ∧
          runStaged cfg (lib.parameterShapes pre.state.program) c pre = (s', o)) := by
  obtain ⟨pre, hpre, hexec⟩ := Option.map_eq_some_iff.1 h
  refine ⟨pre, hpre, ?_⟩
  unfold execute at hexec
  split at hexec
  · cases hexec
    exact Or.inl ⟨rfl, rfl, rfl, fun p hp => nomatch hp⟩
  · next hstatus =>
    dsimp only at hexec
    split at hexec
    · next hstaged => exact Or.inr ⟨hstatus, hstaged, hexec⟩
    · exact Or.inl (runDirect_spec hstatus hexec)

/-! ## A node for rows of four floats -/

/-- A program with the input `x` and one output of the same shape. -/
def rowsLibrary : Library where
  parameterShapes
    | .empty => { names := [], shape := fun _ => ⟨[], [], 0, 0⟩ }
    | .parsed dims | .unfinished dims | .compiled dims =>
      { names := ["x", "#output_0"]
        shape := fun _ => ⟨dims "x", [4, 1], 0, 4 * productOf (dims "x")⟩ }

/-- The node of that program; 0 turns dynamic batching off. -/
def rowsConfig (maxDynamicBatch : Nat) : NodeConfig where
  inputNameIndices := [("x", 0)]
  names_nodup := by decide
  declared := fun _ => []
  maxDynamicBatch := maxDynamicBatch

/-- The node after its compilation with an unknown batch. -/
def rowsState : ComputeState (List (List UInt8)) where
  onnxOptions := fun _ => none
  program := .empty
  hasInputShapes := false
  hipGraphEnable := false

/-- A call with `n` rows. -/
def rowsCall (n : Int64) : Call where
  input := fun _ => { shape := [n, 4] }

end AmdGpuEp.MIGraphX
