import AmdGpuEp.MIGraphX.Compute

/-!
# Lifetimes of graphs, buffers and programs

A captured graph holds device pointers and the kernels of the program it was
captured from. Here every `hipMalloc` of a staging buffer and every program that
a node installs gets an identity of its own, next to the state of the node, and
each launch of a captured graph is compared with what is alive at that moment.

Results:
1. `covers_call`: a call keeps what is captured alive: buffers go only together
   with the graphs, and are allocated only when nothing is captured.
2. `launches_spec`: at every launch all device pointers of the graph are alive;
   and the graph is from the installed program exactly when the call has found
   the program of the graph.
3. `precompiled_stale`: a node that was compiled for known shapes launches a
   graph of a program that is gone.
-/

namespace AmdGpuEp.MIGraphX

variable {D : Type*}

/-! ## Identities -/

/-- What is baked into a captured graph: its program, the buffers its parameters were bound to, the
scratch address, and the output buffers that a replay zeroes. -/
structure BakedGraph where
  program : Nat
  buffers : String → Option Nat
  scratch : Option Nat
  zeroed : String → Option Nat

/-- The identities of what is alive: the installed program, the kept programs, and the allocations
behind the staging buffers; and what the captured graphs hold. `next` is not in use yet. -/
structure Lifetimes (D : Type*) where
  next : Nat := 1
  program : Nat := 0
  cached : D → Option Nat := fun _ => none
  inputs : String → Option Nat := fun _ => none
  outputs : String → Option Nat := fun _ => none
  graphs : D → Option BakedGraph := fun _ => none

namespace Lifetimes

/-- The allocation behind the staging buffer of a parameter. -/
def buffer (cfg : NodeConfig) (l : Lifetimes D) (name : String) : Option Nat :=
  if cfg.isInput name then l.inputs name else l.outputs name

/-- A new program takes the place of the installed one. -/
def install (l : Lifetimes D) : Lifetimes D :=
  { l with program := l.next, next := l.next + 1 }

/-- `emplace` of a fresh allocation: an entry that is there stays, and the new one leaks. -/
def emplace (m : String → Option Nat) (name : String) (id : Nat) : String → Option Nat :=
  if (m name).isSome then m else Function.update m name (some id)

/-- The loop that allocates one buffer each. -/
def allocBuffers : List String → Option Nat → Nat → (String → Option Nat) →
    (String → Option Nat) × Nat
  | [], _, next, m => (m, next)
  | name :: names, left, next, m =>
    if left = some 0 then (m, next)
    else allocBuffers names (left.map (· - 1)) (next + 1) (emplace m name next)

/-- The input half of `AllocateStaging`. Arena views point into the arena once the pinned buffer of
the host is there too; an arena whose pinned buffer cannot be had leaks. -/
def allocateInputs (cfg : NodeConfig) (params : ParameterShapes) (dyn : DynamicBatchContext)
    (left : Option Nat) (st : Staging) (l : Lifetimes D) : Lifetimes D :=
  let names := stagedInputs cfg params
  if cfg.coalesceIo then
    let (inputs, arenaBytes) := arenaViews (bufferBytes cfg dyn) params.shape names 0 st.inputs
    if arenaBytes = 0 ∨ left = some 0 ∨ left = some 1 then l
    else
      { l with
        inputs := fun name => if (inputs name).isSome then some l.next else none
        next := l.next + 1 }
  else
    let (inputs, next) := allocBuffers names left l.next l.inputs
    { l with inputs, next }

/-- The output half. -/
def allocateOutputs (cfg : NodeConfig) (params : ParameterShapes) (left : Option Nat)
    (l : Lifetimes D) : Lifetimes D :=
  let (outputs, next) := allocBuffers (stagedOutputs cfg params) left l.next l.outputs
  { l with outputs, next }

/-- `AllocateStaging` -/
def allocateStaging (cfg : NodeConfig) (params : ParameterShapes) (dyn : DynamicBatchContext)
    (faults : Faults) (st : Staging) (l : Lifetimes D) : Lifetimes D :=
  if st.allocated then l
  else
    let (_, left, through) := MIGraphX.allocateInputs cfg params dyn faults.stagingAllocations st
    let l := allocateInputs cfg params dyn faults.stagingAllocations st l
    if through then allocateOutputs cfg params left l else l

/-- `FreeStaging` -/
def freeStaging (l : Lifetimes D) : Lifetimes D :=
  { l with inputs := fun _ => none, outputs := fun _ => none }

/-- `DestroyHipGraphs` -/
def destroyHipGraphs (l : Lifetimes D) : Lifetimes D :=
  { l with graphs := fun _ => none }

/-- What a capture bakes in. -/
def bake (cfg : NodeConfig) (params : ParameterShapes) (key : D) (s : ComputeState D)
    (l : Lifetimes D) : BakedGraph where
  program := l.program
  buffers := fun name =>
    if name ∈ params.names ∧ (boundBuffer cfg s name).isSome then l.buffer cfg name else none
  scratch :=
    if scratchParam ∈ params.names ∧ cfg.isInput scratchParam = false then scratchPtr s key
    else none
  zeroed := l.outputs

/-- The graphs behind `RunProgramOrHipGraph`. A graph that is destroyed leaves its record behind,
which no entry of `hip_graph_cache` stands for. -/
def run [DecidableEq D] (cfg : NodeConfig) (params : ParameterShapes) (key : D)
    (s : ComputeState D) (l : Lifetimes D) (path : RunPath) : Lifetimes D :=
  { l with
    graphs :=
      match path with
      | .capture => Function.update l.graphs key (some (l.bake cfg params key s))
      | _ => l.graphs }

/-- `load_compiled_program`, or a new program; a parser that throws leaves the installed one. -/
def loadOrRecompile (cfg : NodeConfig) (key : D) (c : Call) (s : ComputeState D)
    (l : Lifetimes D) : Lifetimes D :=
  match loadCompiledProgram cfg key c s with
  | some _ => l.install
  | none => if c.faults.parse then l else l.install

/-- `cached_programs.emplace` -/
def keepProgram [DecidableEq D] (key : D) (l : Lifetimes D) : Lifetimes D :=
  { l with
    cached :=
      if (l.cached key).isSome then l.cached else Function.update l.cached key (some l.program) }

/-- What a call does when the shapes do not match. -/
def refresh [DecidableEq D] (lib : Library) (cfg : NodeConfig) (dyn : DynamicBatchContext)
    (key : D) (c : Call) (s : ComputeState D) (l : Lifetimes D) : Lifetimes D :=
  if dyn.active then
    match l.cached key with
    | some program => { l with program }
    | none =>
      match (MIGraphX.loadOrRecompile lib cfg key c s).2 with
      | .error _ => l.loadOrRecompile cfg key c s
      | .ok () => (l.loadOrRecompile cfg key c s).keepProgram key
  else if s.hipGraphEnable then l.destroyHipGraphs.freeStaging.loadOrRecompile cfg key c s
  else l.loadOrRecompile cfg key c s

/-- A call up to the point where it runs the program. -/
def prepare [DecidableEq D] (lib : Library) (cfg : NodeConfig) (s : ComputeState D) (c : Call)
    (pre : Prepared D) (l : Lifetimes D) : Lifetimes D :=
  let (options, inputShapesMatch) :=
    checkShapes cfg (lib.parameterShapes s.program) pre.effective s
  if inputShapesMatch then l
  else
    l.refresh lib cfg pre.dyn pre.key c
      { s with
        compiledBatchSizes := pre.state.compiledBatchSizes, onnxOptions := options
        hasInputShapes := true }

end Lifetimes

/-- The moment at which `ReplayHipGraph` launches a graph: what the graph holds, and what is
alive. -/
structure Launch (D : Type*) where
  key : D
  graph : Option BakedGraph
  state : ComputeState D
  lifetimes : Lifetimes D

/-- The launch on a way through `RunProgramOrHipGraph`. -/
def launchOf (key : D) (s : ComputeState D) (l : Lifetimes D) : RunPath → Option (Launch D)
  | .replay _ => some { key, graph := l.graphs key, state := s, lifetimes := l }
  | _ => none

/-- The staging path. -/
def runStagedLifetimes [DecidableEq D] (cfg : NodeConfig) (params : ParameterShapes) (c : Call)
    (pre : Prepared D) (l : Lifetimes D) : Lifetimes D × Option (Launch D) :=
  if c.faults.setDevice then (l, none)
  else
    let (staging, through) := allocateStaging cfg params pre.dyn c.faults pre.state.staging
    let l := l.allocateStaging cfg params pre.dyn c.faults pre.state.staging
    let s := { pre.state with staging }
    if through && (copyInputsToStaging cfg params c pre.dyn s).2 then
      let bind := bindStagingParams cfg params pre.key c s
      if bind.through then
        let path := runPath pre.key c bind.state
        (l.run cfg params pre.key bind.state path, launchOf pre.key bind.state l path)
      else (l, none)
    else (l, none)

/-- A call, next to `compute`: what is alive behind it, and the launch that it made. -/
def computeLifetimes [DecidableEq D] (H : IdealHash D) (lib : Library) (cfg : NodeConfig)
    (s : ComputeState D) (c : Call) (l : Lifetimes D) : Lifetimes D × Option (Launch D) :=
  match prepare H lib cfg s c with
  | none => (l, none)
  | some pre =>
    let l := l.prepare lib cfg s c pre
    match pre.status with
    | .error _ => (l, none)
    | .ok () =>
      if Staged lib pre then
        runStagedLifetimes cfg (lib.parameterShapes pre.state.program) c pre l
      else (l, none)

/-- A fused node with the identities of what it holds. -/
def nodeWithLifetimes [DecidableEq D] (H : IdealHash D) (lib : Library) (cfg : NodeConfig) :
    Machine (ComputeState D × Lifetimes D) Call Outcome :=
  (node H lib cfg).withHistory fun l s c _ _ => (computeLifetimes H lib cfg s c l).1

/-- Every device pointer that the graph holds is the one that is alive for its role. -/
structure BakedGraph.Live (cfg : NodeConfig) (scratch : Option Nat) (l : Lifetimes D)
    (graph : BakedGraph) : Prop where
  buffers : ∀ name, ∀ id ∈ graph.buffers name, l.buffer cfg name = some id
  zeroed : ∀ name, ∀ id ∈ graph.zeroed name, l.outputs name = some id
  scratch : ∀ address ∈ graph.scratch, scratch = some address

/-- A graph is there, and all its device pointers are alive. -/
def Launch.Live (cfg : NodeConfig) (launch : Launch D) : Prop :=
  ∃ graph ∈ launch.graph, graph.Live cfg (scratchPtr launch.state launch.key) launch.lifetimes

/-- The graph was captured from the installed program. -/
def Launch.Current (launch : Launch D) : Prop :=
  launch.graph.map BakedGraph.program = some launch.lifetimes.program

instance (launch : Launch D) : Decidable launch.Current :=
  inferInstanceAs (Decidable (_ = _))

/-- The call finds the program that the captured graph of its key is from: as the installed one,
when the input shapes match it, or as the one that is kept for the key. -/
def FindsProgram [DecidableEq D] (H : IdealHash D) (lib : Library) (cfg : NodeConfig)
    (s : ComputeState D) (l : Lifetimes D) (c : Call) : Prop :=
  ∀ sizes dyn, resolveBatch cfg c s.compiledBatchSizes = some (sizes, dyn) →
    let effective := effectiveShapes cfg c dyn
    let key := runShapesHash H cfg.inputNames effective
    ∀ graph ∈ l.graphs key,
      if (checkShapes cfg (lib.parameterShapes s.program) effective s).2 then
        graph.program = l.program
      else dyn.active = true → l.cached key = some graph.program

variable {lib : Library} {cfg : NodeConfig} {params : ParameterShapes} {dyn : DynamicBatchContext}

/-! ## What the identities keep -/

namespace Lifetimes

/-- Whatever is captured is alive as long as the entry is there. -/
def Holds (cfg : NodeConfig) (s : ComputeState D) (l : Lifetimes D) : Prop :=
  ∀ key, ∀ entry ∈ s.hipGraphCache key, entry.captured = true →
    s.staging.allocated = true ∧ ∃ graph ∈ l.graphs key, graph.Live cfg entry.capturedScratchPtr l

/-- The identities fit the state, and none is used before it is given out. -/
structure Covers (cfg : NodeConfig) (s : ComputeState D) (l : Lifetimes D) : Prop where
  holds : Holds cfg s l
  cached : ∀ key, (l.cached key).isSome = (s.cachedPrograms key).isSome
  graphs_lt : ∀ key, ∀ graph ∈ l.graphs key, graph.program < l.next
  cached_lt : ∀ key, ∀ program ∈ l.cached key, program < l.next
  program_lt : l.program < l.next

variable {s : ComputeState D} {l : Lifetimes D} {key : D} {c : Call}

theorem Holds.of_same {l' : Lifetimes D} (h : Holds cfg s l) (hinputs : l'.inputs = l.inputs)
    (houtputs : l'.outputs = l.outputs) (hgraphs : l'.graphs = l.graphs) : Holds cfg s l' := by
  intro key entry hentry hcaptured
  obtain ⟨hallocated, graph, hgraph, hlive⟩ := h key entry hentry hcaptured
  have hbuffer : l'.buffer cfg = l.buffer cfg := by
    unfold buffer
    rw [hinputs, houtputs]
  refine ⟨hallocated, graph, hgraphs ▸ hgraph, ?_, ?_, hlive.scratch⟩
  · rw [hbuffer]
    exact hlive.buffers
  · rw [houtputs]
    exact hlive.zeroed

theorem Covers.install (h : Covers cfg s l) : Covers cfg s l.install where
  holds := h.holds.of_same rfl rfl rfl
  cached := h.cached
  graphs_lt := fun key graph hgraph => Nat.lt_succ_of_lt (h.graphs_lt key graph hgraph)
  cached_lt := fun key program hprogram => Nat.lt_succ_of_lt (h.cached_lt key program hprogram)
  program_lt := Nat.lt_succ_self l.next

theorem Covers.loadOrRecompile (h : Covers cfg s l) (key : D) (c : Call) (t : ComputeState D) :
    Covers cfg s (l.loadOrRecompile cfg key c t) := by
  unfold Lifetimes.loadOrRecompile
  split
  · exact h.install
  · split
    · exact h
    · exact h.install

/-- Keeping a program under a key where there is none. -/
theorem Covers.keepProgram [DecidableEq D] (h : Covers cfg s l)
    (hnone : s.cachedPrograms key = none) :
    Covers cfg (MIGraphX.keepProgram key s) (l.keepProgram key) := by
  have hlnone : l.cached key = none := by
    rw [← Option.not_isSome_iff_eq_none, h.cached key, hnone]
    simp
  have hcached : (l.keepProgram key).cached = Function.update l.cached key (some l.program) := by
    simp [Lifetimes.keepProgram, hlnone]
  have hholds : Holds cfg (MIGraphX.keepProgram key s) l := h.holds
  refine ⟨hholds.of_same rfl rfl rfl, ?_, h.graphs_lt, ?_, h.program_lt⟩
  · intro k
    have hstate : (MIGraphX.keepProgram key s).cachedPrograms =
        Function.update s.cachedPrograms key (some s.program) := by
      simp [MIGraphX.keepProgram, hnone]
    rw [hcached, hstate]
    by_cases hk : k = key
    · subst hk
      simp
    · rw [Function.update_of_ne hk, Function.update_of_ne hk]
      exact h.cached k
  · intro k program hprogram
    rw [hcached] at hprogram
    by_cases hk : k = key
    · subst hk
      rw [Function.update_self] at hprogram
      cases hprogram
      exact h.program_lt
    · rw [Function.update_of_ne hk] at hprogram
      exact h.cached_lt k program hprogram

/-- Graphs and buffers go together. -/
theorem Covers.cleared (h : Covers cfg s l) :
    Covers cfg (MIGraphX.freeStaging (MIGraphX.destroyHipGraphs s))
      l.destroyHipGraphs.freeStaging where
  holds := fun _ _ hentry => nomatch hentry
  cached := h.cached
  graphs_lt := fun _ _ hgraph => nomatch hgraph
  cached_lt := h.cached_lt
  program_lt := h.program_lt

theorem Covers.refresh [DecidableEq D] (h : Covers cfg s l) :
    Covers cfg (MIGraphX.refresh lib cfg dyn key c s).1 (l.refresh lib cfg dyn key c s) := by
  have hload : ∀ {t : ComputeState D} {l' : Lifetimes D}, Covers cfg t l' →
      Covers cfg (MIGraphX.loadOrRecompile lib cfg key c t).1 (l'.loadOrRecompile cfg key c s) := by
    intro t l' ht
    obtain ⟨p, m, hframe⟩ := loadOrRecompile_frame lib cfg key c t
    rw [hframe]
    have hl := ht.loadOrRecompile key c s
    exact ⟨hl.holds, hl.cached, hl.graphs_lt, hl.cached_lt, hl.program_lt⟩
  unfold MIGraphX.refresh Lifetimes.refresh
  split
  · have hcached := h.cached key
    cases hkept : s.cachedPrograms key with
    | some program =>
      rw [hkept] at hcached
      obtain ⟨id, hid⟩ := Option.isSome_iff_exists.1 hcached
      simp only [hid]
      have hholds : Holds cfg { s with program } l := h.holds
      exact ⟨hholds.of_same rfl rfl rfl, h.cached, h.graphs_lt, h.cached_lt, h.cached_lt key id hid⟩
    | none =>
      have hid : l.cached key = none := by
        rw [← Option.not_isSome_iff_eq_none, hcached, hkept]
        simp
      simp only [hid]
      obtain ⟨p, m, hframe⟩ := loadOrRecompile_frame lib cfg key c s
      have hl := hload h
      cases hresult : MIGraphX.loadOrRecompile lib cfg key c s with
      | mk t status =>
        rw [hresult] at hl hframe
        dsimp only at hl hframe
        cases status with
        | error e => exact hl
        | ok u =>
          refine hl.keepProgram ?_
          rw [hframe]
          exact hkept
  · split
    · exact hload h.cleared
    · exact hload h

/-- The first part of a call keeps everything, or refreshes the program and the identities
alike. -/
theorem prepare_cases [DecidableEq D] {H : IdealHash D} {pre : Prepared D}
    (hpre : MIGraphX.prepare H lib cfg s c = some pre) (l : Lifetimes D) :
    ∃ sizes, resolveBatch cfg c s.compiledBatchSizes = some (sizes, pre.dyn) ∧
      pre.effective = effectiveShapes cfg c pre.dyn ∧
      pre.key = runShapesHash H cfg.inputNames pre.effective ∧
      ∃ options inputShapesMatch,
        checkShapes cfg (lib.parameterShapes s.program) pre.effective s =
          (options, inputShapesMatch) ∧
        ∃ t : ComputeState D,
          t = { s with
            compiledBatchSizes := sizes, onnxOptions := options, hasInputShapes := true } ∧
          (inputShapesMatch = true ∧ pre.state = t ∧ l.prepare lib cfg s c pre = l ∨
            inputShapesMatch = false ∧
              (pre.state, pre.status) = MIGraphX.refresh lib cfg pre.dyn pre.key c t ∧
              l.prepare lib cfg s c pre = l.refresh lib cfg pre.dyn pre.key c t) := by
  obtain ⟨sizes, hbatch, heffective, hkey, options, inputShapesMatch, hcheck, hcase⟩ :=
    MIGraphX.prepare_cases hpre
  refine ⟨sizes, hbatch, heffective, hkey, options, inputShapesMatch, hcheck, _, rfl, ?_⟩
  unfold Lifetimes.prepare
  rw [hcheck]
  rcases hcase with ⟨rfl, _, hstate⟩ | ⟨rfl, hrefresh⟩
  · exact Or.inl ⟨rfl, hstate, rfl⟩
  · refine Or.inr ⟨rfl, hrefresh, ?_⟩
    obtain ⟨p, m, k, hframe⟩ := refresh_frame lib cfg pre.dyn pre.key c
      { s with compiledBatchSizes := sizes, onnxOptions := options, hasInputShapes := true }
    rw [← hrefresh] at hframe
    have hsizes : pre.state.compiledBatchSizes = sizes := by
      dsimp only at hframe
      rw [hframe]
      unfold MIGraphX.cleared
      split <;> rfl
    rw [hsizes]
    rfl

theorem Covers.prepare [DecidableEq D] {H : IdealHash D} {pre : Prepared D} (h : Covers cfg s l)
    (hpre : MIGraphX.prepare H lib cfg s c = some pre) :
    Covers cfg pre.state (l.prepare lib cfg s c pre) := by
  obtain ⟨sizes, _, _, _, options, _, _, t, ht, hcase⟩ := prepare_cases hpre l
  have hset : Covers cfg t l := by
    rw [ht]
    exact ⟨h.holds, h.cached, h.graphs_lt, h.cached_lt, h.program_lt⟩
  rcases hcase with ⟨_, hstate, hl⟩ | ⟨_, hrefresh, hl⟩
  · rw [hstate, hl]
    exact hset
  · have hkept : Covers cfg (MIGraphX.refresh lib cfg pre.dyn pre.key c t).1
        (l.refresh lib cfg pre.dyn pre.key c t) := hset.refresh
    rw [← hrefresh] at hkept
    rw [hl]
    exact hkept

/-! ## Allocation and capture -/

theorem le_allocBuffers {names : List String} {left : Option Nat} {next : Nat}
    {m : String → Option Nat} : next ≤ (allocBuffers names left next m).2 := by
  induction names generalizing left next m with
  | nil => exact Nat.le_refl _
  | cons name names ih =>
    unfold allocBuffers
    split
    · exact Nat.le_refl _
    · exact Nat.le_of_succ_le ih

theorem allocateInputs_frame (cfg : NodeConfig) (params : ParameterShapes)
    (dyn : DynamicBatchContext) (left : Option Nat) (st : Staging) (l : Lifetimes D) :
    ∃ inputs next, l.allocateInputs cfg params dyn left st = { l with inputs, next } ∧
      l.next ≤ next := by
  unfold Lifetimes.allocateInputs
  dsimp only
  split
  · split
    · exact ⟨_, _, rfl, Nat.le_refl _⟩
    · exact ⟨_, _, rfl, Nat.le_succ _⟩
  · exact ⟨_, _, rfl, le_allocBuffers⟩

/-- An allocation changes buffers only, and gives out new identities. -/
theorem allocateStaging_frame (cfg : NodeConfig) (params : ParameterShapes)
    (dyn : DynamicBatchContext) (faults : Faults) (st : Staging) (l : Lifetimes D) :
    ∃ inputs outputs next,
      l.allocateStaging cfg params dyn faults st = { l with inputs, outputs, next } ∧
        l.next ≤ next := by
  unfold Lifetimes.allocateStaging
  split
  · exact ⟨_, _, _, rfl, Nat.le_refl _⟩
  · obtain ⟨inputs, next, hinputs, hle⟩ :=
      allocateInputs_frame cfg params dyn faults.stagingAllocations st l
    dsimp only
    rw [hinputs]
    split
    · exact ⟨_, _, _, rfl, Nat.le_trans hle le_allocBuffers⟩
    · exact ⟨_, _, _, rfl, hle⟩

/-- Buffers are allocated where none are, and then nothing is captured. -/
theorem Covers.allocateStaging {faults : Faults} (h : Covers cfg s l) :
    Covers cfg
      { s with staging := (MIGraphX.allocateStaging cfg params dyn faults s.staging).1 }
      (l.allocateStaging cfg params dyn faults s.staging) := by
  obtain ⟨inputs, outputs, next, hframe, hle⟩ :=
    allocateStaging_frame cfg params dyn faults s.staging l
  have hrest : (∀ key, ∀ graph ∈ l.graphs key, graph.program < next) ∧
      (∀ key, ∀ program ∈ l.cached key, program < next) ∧ l.program < next :=
    ⟨fun key graph hgraph => Nat.lt_of_lt_of_le (h.graphs_lt key graph hgraph) hle,
      fun key program hprogram => Nat.lt_of_lt_of_le (h.cached_lt key program hprogram) hle,
      Nat.lt_of_lt_of_le h.program_lt hle⟩
  cases hallocated : s.staging.allocated with
  | true =>
    have hstate := congrArg Prod.fst
      (allocateStaging_of_allocated cfg params dyn faults hallocated)
    have hl : l.allocateStaging cfg params dyn faults s.staging = l := by
      unfold Lifetimes.allocateStaging
      rw [if_pos hallocated]
    rw [hstate, hl]
    exact h
  | false =>
    rw [hframe]
    refine ⟨?_, h.cached, hrest.1, hrest.2.1, hrest.2.2⟩
    intro key entry hentry hcaptured
    have hbefore := (h.holds key entry hentry hcaptured).1
    rw [hallocated] at hbefore
    cases hbefore

theorem graphs_run [DecidableEq D] (cfg : NodeConfig) (params : ParameterShapes) (s : ComputeState D)
    (l : Lifetimes D) {key k : D} {path : RunPath} (h : path = .capture → k ≠ key) :
    (l.run cfg params key s path).graphs k = l.graphs k := by
  cases path with
  | capture => exact Function.update_of_ne (h rfl) ..
  | eager | replay | failedCapture | stopped => rfl

/-- What a capture bakes in is alive. -/
theorem live_bake (cfg : NodeConfig) (params : ParameterShapes) (key : D) (s : ComputeState D)
    (l : Lifetimes D) : (l.bake cfg params key s).Live cfg (scratchPtr s key) l where
  buffers := fun name id hid => by
    dsimp only [bake] at hid
    split at hid
    · exact hid
    · cases hid
  zeroed := fun _ _ hid => hid
  scratch := fun address haddress => by
    dsimp only [bake] at haddress
    split at haddress
    · exact haddress
    · cases haddress

/-- A capture bakes in what is alive; every other way captures nothing. -/
theorem Covers.run [DecidableEq D] (h : Covers cfg s l) (hallocated : s.staging.allocated = true)
    {result : ComputeState D} {program : Program} {through : Bool} {path : RunPath}
    (hrun : RunsBy key c s result program through path) :
    Covers cfg result (l.run cfg params key s path) := by
  obtain ⟨hstaging, hcached⟩ := hrun.frame
  refine ⟨?_, ?_, ?_, h.cached_lt, h.program_lt⟩
  · intro k entry hentry hcaptured
    rw [hstaging]
    refine ⟨hallocated, ?_⟩
    rcases hrun.captured hentry hcaptured with ⟨hold, hother⟩ | ⟨rfl, rfl, rfl⟩
    · obtain ⟨_, graph, hgraph, hlive⟩ := h.holds k entry hold hcaptured
      rw [graphs_run cfg params s l hother]
      exact ⟨graph, hgraph, hlive.buffers, hlive.zeroed, hlive.scratch⟩
    · have hlive := l.live_bake cfg params k s
      exact ⟨l.bake cfg params k s, Function.update_self .., hlive.buffers, hlive.zeroed,
        hlive.scratch⟩
  · rw [hcached]
    exact h.cached
  · intro k graph hgraph
    by_cases hk : path = .capture ∧ k = key
    · obtain ⟨rfl, rfl⟩ := hk
      dsimp only [Lifetimes.run] at hgraph
      rw [Function.update_self] at hgraph
      cases hgraph
      exact h.program_lt
    · rw [graphs_run cfg params s l fun hpath hkey => hk ⟨hpath, hkey⟩] at hgraph
      exact h.graphs_lt k graph hgraph

end Lifetimes

/-! ## Launches -/

variable {s : ComputeState D} {l : Lifetimes D} {c : Call}

/-- A launch replays what is captured. -/
theorem launch_live {key : D} (h : l.Covers cfg s) {launch : Launch D}
    (hlaunch : launch ∈ launchOf key s l (runPath key c s)) :
    launch.Live cfg ∧ launch.graph = l.graphs key ∧ launch.lifetimes = l ∧
      s.hipGraphEnable = true := by
  cases hpath : runPath key c s with
  | replay program =>
    rw [hpath] at hlaunch
    cases hlaunch
    obtain ⟨henable, entry, hentry, hcaptured, hscratch, _⟩ := runPath_eq_replay hpath
    obtain ⟨_, graph, hgraph, hlive⟩ := h.holds key entry hentry hcaptured
    rw [hscratch] at hlive
    exact ⟨⟨graph, hgraph, hlive⟩, rfl, rfl, henable⟩
  | eager | capture | failedCapture | stopped =>
    rw [hpath] at hlaunch
    cases hlaunch

variable [DecidableEq D]

/-- The staging path keeps the identities, and what it launches is alive. -/
theorem runStagedLifetimes_spec {pre : Prepared D} (h : l.Covers cfg pre.state)
    {s' : ComputeState D} {o : Outcome} (hrun : runStaged cfg params c pre = (s', o)) :
    (runStagedLifetimes cfg params c pre l).1.Covers cfg s' ∧
      ∀ launch ∈ (runStagedLifetimes cfg params c pre l).2,
        launch.Live cfg ∧ launch.graph = l.graphs pre.key ∧
          launch.lifetimes.program = l.program ∧ pre.state.hipGraphEnable = true := by
  have hstaged : Lifetimes.Covers cfg
      { pre.state with
        staging := (allocateStaging cfg params pre.dyn c.faults pre.state.staging).1 }
      (l.allocateStaging cfg params pre.dyn c.faults pre.state.staging) := h.allocateStaging
  obtain ⟨inputs, outputs, next, hframe, _⟩ :=
    l.allocateStaging_frame cfg params pre.dyn c.faults pre.state.staging
  have hallocated :
      (allocateStaging cfg params pre.dyn c.faults pre.state.staging).2 = true →
        (allocateStaging cfg params pre.dyn c.faults pre.state.staging).1.allocated = true :=
    allocateStaging_allocated
  set st := allocateStaging cfg params pre.dyn c.faults pre.state.staging with hst
  set s : ComputeState D := { pre.state with staging := st.1 } with hs
  set l' := l.allocateStaging cfg params pre.dyn c.faults pre.state.staging with hl'
  obtain ⟨⟨scratch, hbind⟩, _, _⟩ := bindStagingParams_spec cfg params pre.key c s
  have hbound : l'.Covers cfg (bindStagingParams cfg params pre.key c s).state := by
    rw [hbind]
    exact ⟨hstaged.holds, hstaged.cached, hstaged.graphs_lt, hstaged.cached_lt,
      hstaged.program_lt⟩
  unfold runStaged at hrun
  unfold runStagedLifetimes
  dsimp only at hrun ⊢
  rw [← hst, ← hs] at hrun
  rw [← hst, ← hs, ← hl']
  split at hrun
  · next hdevice =>
    rw [if_pos hdevice]
    cases hrun
    exact ⟨h, fun _ hlaunch => nomatch hlaunch⟩
  · next hdevice =>
    rw [if_neg hdevice]
    split at hrun
    · next hthrough =>
      rw [if_neg (by simp_all), ← (Prod.mk.inj hrun).1]
      exact ⟨hstaged, fun _ hlaunch => nomatch hlaunch⟩
    · next hthrough =>
      split at hrun
      · next hcopies =>
        rw [if_neg (by simp_all), ← (Prod.mk.inj hrun).1]
        exact ⟨hstaged, fun _ hlaunch => nomatch hlaunch⟩
      · next hcopies =>
        rw [if_pos (by simp_all)]
        split at hrun
        · next hbindThrough =>
          rw [if_pos hbindThrough]
          have hresult : (runProgramOrHipGraph pre.key c
              (bindStagingParams cfg params pre.key c s).state).1 = s' := by
            split at hrun
            all_goals exact (Prod.mk.inj hrun).1
          rw [← hresult]
          refine ⟨hbound.run ?_ (runProgramOrHipGraph_runsBy ..), fun launch hlaunch => ?_⟩
          · rw [hbind]
            exact hallocated (by simpa using hthrough)
          · obtain ⟨hlive, hgraph, hlifetimes, henable⟩ := launch_live hbound hlaunch
            rw [hbind] at henable
            rw [hframe] at hgraph hlifetimes
            exact ⟨hlive, hgraph, by rw [hlifetimes], henable⟩
        · next hbindThrough =>
          rw [if_neg hbindThrough, ← (Prod.mk.inj hrun).1]
          exact ⟨hbound, fun _ hlaunch => nomatch hlaunch⟩

theorem loadOrRecompile_installs {key : D} {t : ComputeState D}
    (hstatus : (loadOrRecompile lib cfg key c t).2 = .ok ()) (l : Lifetimes D) :
    l.loadOrRecompile cfg key c t = l.install := by
  unfold Lifetimes.loadOrRecompile
  cases hload : loadCompiledProgram cfg key c t with
  | some program => rfl
  | none =>
    unfold loadOrRecompile recompile at hstatus
    rw [hload] at hstatus
    dsimp only at hstatus ⊢
    split at hstatus
    · cases hstatus
    · next hparse => rw [if_neg hparse]

/-- A refresh that ends well keeps the graphs of a bucket and takes the kept program, or one with a
new identity; with graphs on, it leaves none outside the buckets. -/
theorem refresh_program {key : D} {t : ComputeState D} (henable : t.hipGraphEnable = true)
    (hcached : (l.cached key).isSome = (t.cachedPrograms key).isSome)
    (hstatus : (refresh lib cfg dyn key c t).2 = .ok ()) :
    dyn.active = true ∧ (l.refresh lib cfg dyn key c t).graphs = l.graphs ∧
        (l.cached key).getD l.next = (l.refresh lib cfg dyn key c t).program ∨
      dyn.active = false ∧ (l.refresh lib cfg dyn key c t).graphs = fun _ => none := by
  unfold Lifetimes.refresh
  unfold refresh at hstatus
  cases hactive : dyn.active with
  | false =>
    rw [hactive, if_neg Bool.false_ne_true, if_pos henable] at hstatus
    rw [if_neg Bool.false_ne_true, if_pos henable]
    refine Or.inr ⟨rfl, ?_⟩
    unfold Lifetimes.loadOrRecompile
    split
    · rfl
    · split <;> rfl
  | true =>
    rw [hactive, if_pos rfl] at hstatus
    rw [if_pos rfl]
    refine Or.inl ⟨rfl, ?_⟩
    cases hkept : t.cachedPrograms key with
    | some program =>
      rw [hkept] at hcached
      obtain ⟨id, hid⟩ := Option.isSome_iff_exists.1 hcached
      rw [hid]
      exact ⟨rfl, rfl⟩
    | none =>
      rw [hkept, Option.isSome_none, Option.isSome_eq_false_iff,
        Option.isNone_iff_eq_none] at hcached
      rw [hkept] at hstatus
      rw [hcached]
      cases hresult : loadOrRecompile lib cfg key c t with
      | mk t' status =>
        rw [hresult] at hstatus
        cases status with
        | error e => cases hstatus
        | ok u =>
          have hinstalls : l.loadOrRecompile cfg key c t = l.install :=
            loadOrRecompile_installs (by rw [hresult]) l
          dsimp only
          rw [hinstalls]
          exact ⟨rfl, rfl⟩

/-- Where the installed program comes from decides whether a captured graph is its own. -/
theorem current_iff_findsProgram {H : IdealHash D} {pre : Prepared D} (h : l.Covers cfg s)
    (hpre : prepare H lib cfg s c = some pre) (hstatus : pre.status = .ok ())
    (henable : pre.state.hipGraphEnable = true) {graph : BakedGraph}
    (hgraph : graph ∈ (l.prepare lib cfg s c pre).graphs pre.key) :
    graph.program = (l.prepare lib cfg s c pre).program ↔ FindsProgram H lib cfg s l c := by
  have henabled := (prepare_staging hpre).1.symm.trans henable
  obtain ⟨sizes, hbatch, heffective, hkey, options, inputShapesMatch, hcheck, t, ht, hcase⟩ :=
    l.prepare_cases hpre
  have hfinds : graph ∈ l.graphs pre.key →
      (FindsProgram H lib cfg s l c ↔
        if inputShapesMatch then graph.program = l.program
        else pre.dyn.active = true → l.cached pre.key = some graph.program) := by
    intro hmem
    rw [hkey, heffective] at hmem ⊢
    rw [heffective] at hcheck
    constructor
    · intro hall
      have hthis := hall sizes pre.dyn hbatch graph hmem
      rw [hcheck] at hthis
      exact hthis
    · intro hthis sizes' dyn' hbatch' effective key graph' hmem'
      rw [hbatch] at hbatch'
      cases hbatch'
      obtain rfl := Option.mem_unique hmem' hmem
      show if (checkShapes cfg (lib.parameterShapes s.program)
        (effectiveShapes cfg c pre.dyn) s).2 then _ else _
      rw [hcheck]
      exact hthis
  rcases hcase with ⟨rfl, _, hl⟩ | ⟨rfl, hrefresh, hl⟩
  · rw [hl] at hgraph ⊢
    rw [hfinds hgraph]
    exact (if_pos rfl).to_iff.symm
  · rw [hl] at hgraph ⊢
    have hok : (refresh lib cfg pre.dyn pre.key c t).2 = .ok () := by
      rw [← hrefresh]
      exact hstatus
    have hcached : (l.cached pre.key).isSome = (t.cachedPrograms pre.key).isSome := by
      rw [ht]
      exact h.cached pre.key
    rcases refresh_program (by rw [ht]; exact henabled) hcached hok with
      ⟨hactive, hgraphs, hprogram⟩ | ⟨_, hgraphs⟩
    · rw [hgraphs] at hgraph
      rw [hfinds hgraph, if_neg Bool.false_ne_true, ← hprogram]
      cases hid : l.cached pre.key with
      | some id =>
        simp only [hactive, Option.getD_some, Option.some.injEq, true_implies]
        exact eq_comm
      | none =>
        refine iff_of_false ?_ fun hall => nomatch hall hactive
        exact Nat.ne_of_lt (h.graphs_lt pre.key graph hgraph)
    · rw [hgraphs] at hgraph
      cases hgraph

/-! ## Runs -/

/-- A call that launches a graph launches one that is alive, of the installed program. -/
def LaunchesSafely (H : IdealHash D) (lib : Library) (cfg : NodeConfig) (s : ComputeState D)
    (l : Lifetimes D) (c : Call) : Prop :=
  ∀ launch ∈ (computeLifetimes H lib cfg s c l).2, launch.Live cfg ∧ launch.Current

omit [DecidableEq D] in
theorem covers_compiledNode (s : ComputeState D) :
    Lifetimes.Covers cfg (compiledNode s) ({} : Lifetimes D) where
  holds := fun _ _ hentry => nomatch hentry
  cached := fun _ => rfl
  graphs_lt := fun _ _ hgraph => nomatch hgraph
  cached_lt := fun _ _ hprogram => nomatch hprogram
  program_lt := Nat.zero_lt_one

/-- One call keeps the identities; what it launches is alive, and of the installed program exactly
when the call has found that program. -/
theorem covers_call {H : IdealHash D} {s' : ComputeState D} {o : Outcome} (h : l.Covers cfg s)
    (hcall : compute H lib cfg s c = some (s', o)) :
    (computeLifetimes H lib cfg s c l).1.Covers cfg s' ∧
      ∀ launch ∈ (computeLifetimes H lib cfg s c l).2,
        launch.Live cfg ∧ (launch.Current ↔ FindsProgram H lib cfg s l c) := by
  obtain ⟨pre, hpre, hexec⟩ := Option.map_eq_some_iff.1 hcall
  have hprepared := h.prepare hpre
  unfold execute at hexec
  unfold computeLifetimes
  rw [hpre]
  dsimp only at hexec ⊢
  cases hstatus : pre.status with
  | error e =>
    rw [hstatus] at hexec
    cases hexec
    exact ⟨hprepared, fun _ hlaunch => nomatch hlaunch⟩
  | ok u =>
    rw [hstatus] at hexec
    dsimp only at hexec ⊢
    split at hexec
    · next hstaged =>
      rw [if_pos hstaged]
      obtain ⟨hcovers, hlaunches⟩ := runStagedLifetimes_spec hprepared hexec
      refine ⟨hcovers, fun launch hlaunch => ?_⟩
      obtain ⟨hlive, hgraph, hprogram, henable⟩ := hlaunches launch hlaunch
      refine ⟨hlive, ?_⟩
      obtain ⟨graph, hmem, _⟩ := hlive
      rw [hgraph] at hmem
      rw [← current_iff_findsProgram h hpre hstatus henable hmem, Launch.Current, hgraph, hmem,
        hprogram, Option.map_some, Option.some.injEq]
    · next hstaged =>
      rw [if_neg hstaged, (runDirect_spec hstatus hexec).state]
      exact ⟨hprepared, fun _ hlaunch => nomatch hlaunch⟩

/-- At every launch of every run all device pointers of the graph are alive, and the graph is from
the installed program exactly when the call has found the program of the graph. -/
theorem launches_spec (H : IdealHash D) (lib : Library) (cfg : NodeConfig) (s : ComputeState D)
    (calls : List Call) :
    (nodeWithLifetimes H lib cfg).Every
      (fun sl c _ _ => ∀ launch ∈ (computeLifetimes H lib cfg sl.1 c sl.2).2,
        launch.Live cfg ∧ (launch.Current ↔ FindsProgram H lib cfg sl.1 sl.2 c))
      (compiledNode s, {}) calls := by
  refine Machine.Every.of_kept (fun sl => sl.2.Covers cfg sl.1) ?_ (covers_compiledNode s) calls
  rintro ⟨s, l⟩ c ⟨s', l'⟩ o hcovers hstep
  obtain ⟨hcall, rfl⟩ := Machine.withHistory_step.1 hstep
  exact covers_call hcovers hcall

/-! ## A node that was compiled in advance -/

/-- The node of `rowsLibrary`, compiled for four rows, with graphs on. -/
def rowsPrecompiled : ComputeState (List (List UInt8)) where
  onnxOptions := fun _ => some [4, 4]
  program := .compiled fun _ => [4, 4]
  hasInputShapes := true
  hipGraphEnable := true

/-- The program of the compilation is not among the kept ones. The first call captures it for the
bucket of four rows, the second replaces it, and the third compiles the bucket again and launches
the graph of the program that is gone. -/
theorem precompiled_stale :
    ¬ (nodeWithLifetimes IdealHash.free rowsLibrary (rowsConfig 8)).Every
      (fun sl c _ _ => LaunchesSafely IdealHash.free rowsLibrary (rowsConfig 8) sl.1 sl.2 c)
      (compiledNode rowsPrecompiled, {}) [rowsCall 4, rowsCall 8, rowsCall 4] := by
  intro hsafe
  have hcurrent := Machine.Every.of_invariant (fun _ => True)
    (R := fun sl c _ _ => ∀ launch ∈
      (computeLifetimes IdealHash.free rowsLibrary (rowsConfig 8) sl.1 c sl.2).2, launch.Current)
    (fun _ _ _ _ _ _ hcall => ⟨trivial, fun launch hlaunch => (hcall launch hlaunch).2⟩)
    trivial hsafe
  revert hcurrent
  decide

end AmdGpuEp.MIGraphX
