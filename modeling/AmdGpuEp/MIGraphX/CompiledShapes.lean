import AmdGpuEp.MIGraphX.Compute

/-!
# The program that a call executes

A call changes the options, `has_input_shapes` and the program handle before the
steps that may throw. A later call compares its shapes with the parameters of
whatever program it finds.

Results:
1. `sound_call`: kept programs, files and captured graphs belong to the shapes of
   their keys, whatever throws.
2. `executes_compiled`: in every run whose calls are safe, each program that is
   executed was compiled for the input shapes of the call.
3. `safe_of_settled`: a call after calls that did not throw is safe.
-/

namespace AmdGpuEp.MIGraphX

variable {D : Type*}

/-! ## Programs and shapes -/

theorem isInput_iff {cfg : NodeConfig} {name : String} :
    cfg.isInput name = true ↔ name ∈ cfg.inputNames := by
  unfold NodeConfig.isInput NodeConfig.inputIndex NodeConfig.inputNames
  rw [List.lookup_isSome_iff]
  simp [List.mem_map]

/-- The program was completely compiled, for these input shapes. -/
def CompiledFor (cfg : NodeConfig) (effective : Shapes) : Program → Prop
  | .compiled dims => ∀ name ∈ cfg.inputNames, dims name = toLengths (effective name)
  | _ => False

instance CompiledFor.decidable (cfg : NodeConfig) (effective : Shapes) :
    ∀ p, Decidable (CompiledFor cfg effective p)
  | .compiled dims =>
    inferInstanceAs (Decidable (∀ name ∈ cfg.inputNames, dims name = toLengths (effective name)))
  | .empty => isFalse id
  | .parsed _ => isFalse id
  | .unfinished _ => isFalse id

/-- A compiled program reports its input parameters with the shapes it was compiled for. -/
def ReportsShapes (lib : Library) (cfg : NodeConfig) : Prop :=
  ∀ dims, ∀ name ∈ (lib.parameterShapes (.compiled dims)).names, cfg.isInput name = true →
    progLengths ((lib.parameterShapes (.compiled dims)).shape name) = dims name

/-! ## Safe calls -/

/-- A call that compares equal finds a program whose compilation ended, and its inputs that are no
parameters of that program have the shapes it was compiled for. -/
def FindsFinished (lib : Library) (cfg : NodeConfig) (effective : Shapes) (program : Program) :
    Prop :=
  match program with
  | .compiled dims => ∀ name ∈ cfg.inputNames,
      name ∉ (lib.parameterShapes (.compiled dims)).names → dims name = toLengths (effective name)
  | _ => False

/-- The options already have the shape of every input that is not set again. -/
def FindsOptions (lib : Library) (cfg : NodeConfig) (effective : Shapes) (s : ComputeState D) :
    Prop :=
  let params := lib.parameterShapes s.program
  ∀ name ∈ cfg.inputNames, (name ∈ params.names → ¬ Differs cfg params effective name) →
    parseDims cfg s.onnxOptions name = toLengths (effective name)

/-- Nothing is there to take the program from. -/
def Parses (cfg : NodeConfig) (dyn : DynamicBatchContext) (key : D) (c : Call)
    (s : ComputeState D) : Prop :=
  (dyn.active = true → s.cachedPrograms key = none) ∧ loadCompiledProgram cfg key c s = none

variable (H : IdealHash D) (lib : Library) (cfg : NodeConfig)

/-- A call that reads no leftovers of a call that has thrown. -/
def SafeCall (s : ComputeState D) (c : Call) : Prop :=
  match resolveBatch cfg c s.compiledBatchSizes with
  | none => True
  | some (_, dyn) =>
    let effective := effectiveShapes cfg c dyn
    let params := lib.parameterShapes s.program
    s.hasInputShapes = true →
      if ∀ name ∈ params.names, ¬ Differs cfg params effective name then
        FindsFinished lib cfg effective s.program
      else
        Parses cfg dyn (runShapesHash H cfg.inputNames effective) c s →
          FindsOptions lib cfg effective s

instance FindsFinished.decidable (effective : Shapes) :
    ∀ p, Decidable (FindsFinished lib cfg effective p)
  | .compiled dims => inferInstanceAs (Decidable (∀ name ∈ cfg.inputNames,
      name ∉ (lib.parameterShapes (.compiled dims)).names → dims name = toLengths (effective name)))
  | .empty => isFalse id
  | .parsed _ => isFalse id
  | .unfinished _ => isFalse id

instance FindsOptions.decidable (effective : Shapes) (s : ComputeState D) :
    Decidable (FindsOptions lib cfg effective s) :=
  inferInstanceAs (Decidable (∀ name ∈ cfg.inputNames, (_ → _) → _))

instance Parses.decidable (dyn : DynamicBatchContext) (key : D) (c : Call) (s : ComputeState D) :
    Decidable (Parses cfg dyn key c s) :=
  decidable_of_iff ((dyn.active = true → (s.cachedPrograms key).isNone) ∧
      (loadCompiledProgram cfg key c s).isNone) (by simp [Parses])

instance SafeCall.decidable (s : ComputeState D) (c : Call) : Decidable (SafeCall H lib cfg s c) :=
  match h : resolveBatch cfg c s.compiledBatchSizes with
  | none => isTrue (by unfold SafeCall; rw [h]; trivial)
  | some (_, dyn) =>
    let effective := effectiveShapes cfg c dyn
    let params := lib.parameterShapes s.program
    decidable_of_iff (s.hasInputShapes = true →
      if ∀ name ∈ params.names, ¬ Differs cfg params effective name then
        FindsFinished lib cfg effective s.program
      else
        Parses cfg dyn (runShapesHash H cfg.inputNames effective) c s →
          FindsOptions lib cfg effective s)
      (by unfold SafeCall; rw [h])

/-- What a call executes was compiled for its input shapes. -/
def ExecutesCompiled (_ : ComputeState D) (_ : Call) (_ : ComputeState D) (o : Outcome) : Prop :=
  ∀ p ∈ o.executed, CompiledFor cfg o.effective p

instance (s : ComputeState D) (c : Call) (s' : ComputeState D) (o : Outcome) :
    Decidable (ExecutesCompiled cfg s c s' o) :=
  inferInstanceAs (Decidable (∀ p ∈ o.executed, _))

variable {H lib cfg}

/-! ## What the comparison leaves -/

theorem compareParameters_match {params : ParameterShapes} {effective : Shapes}
    {names : List String} {options : String → Option (List Nat)} :
    (compareParameters cfg params effective names options).2 = true ↔
      ∀ name ∈ names, ¬ Differs cfg params effective name := by
  induction names generalizing options with
  | nil => simp [compareParameters]
  | cons name names ih =>
    unfold compareParameters
    split
    · next hdiffers =>
      refine iff_of_false (by simp) fun hall => ?_
      exact hall name (List.mem_cons_self ..) hdiffers
    · next hsame =>
      rw [ih, List.forall_mem_cons]
      exact (and_iff_right hsame).symm

theorem setInputParameterShape_self (options : String → Option (List Nat)) (name : String)
    (shape : List Int64) :
    setInputParameterShape options name shape name = some (toLengths shape) :=
  Function.update_self ..

theorem setInputParameterShape_of_ne {n name : String} (h : n ≠ name)
    (options : String → Option (List Nat)) (shape : List Int64) :
    setInputParameterShape options name shape n = options n :=
  Function.update_of_ne h ..

/-- A parameter that differs is set, and every other option stays. -/
theorem compareParameters_option {params : ParameterShapes} {effective : Shapes}
    {names : List String} {options : String → Option (List Nat)} (n : String) :
    (compareParameters cfg params effective names options).1 n =
      if n ∈ names ∧ Differs cfg params effective n then some (toLengths (effective n))
      else options n := by
  induction names generalizing options with
  | nil => simp [compareParameters]
  | cons name names ih =>
    unfold compareParameters
    by_cases hn : n = name
    · subst hn
      split
      · next hdiffers =>
        rw [ih, setInputParameterShape_self, ite_self,
          if_pos ⟨List.mem_cons_self .., hdiffers⟩]
      · next hsame =>
        rw [ih, if_neg fun h => hsame h.2, if_neg fun h => hsame h.2]
    · split
      · rw [ih, setInputParameterShape_of_ne hn]
        simp only [List.mem_cons, hn, false_or]
      · rw [ih]
        simp only [List.mem_cons, hn, false_or]

theorem setParameters_option {effective : Shapes} {names : List String}
    {options : String → Option (List Nat)} (n : String) :
    setParameters effective names options n =
      if n ∈ names then some (toLengths (effective n)) else options n := by
  induction names generalizing options with
  | nil => simp [setParameters]
  | cons name names ih =>
    unfold setParameters
    rw [ih]
    by_cases hn : n = name
    · subst hn
      rw [setInputParameterShape_self, ite_self, if_pos (List.mem_cons_self ..)]
    · rw [setInputParameterShape_of_ne hn]
      simp only [List.mem_cons, hn, false_or]

/-- After the check of a safe call that parses, the options have the shapes of all inputs. -/
theorem parseDims_checkShapes {effective : Shapes} {s : ComputeState D}
    (hsafe : s.hasInputShapes = true → FindsOptions lib cfg effective s) {name : String}
    (hname : name ∈ cfg.inputNames) :
    parseDims cfg (checkShapes cfg (lib.parameterShapes s.program) effective s).1 name =
      toLengths (effective name) := by
  unfold parseDims checkShapes
  split
  · next hhas =>
    rw [compareParameters_option]
    split
    · rfl
    · next hkept =>
      exact hsafe hhas name hname fun hmem hdiffers => hkept ⟨hmem, hdiffers⟩
  · dsimp only
    rw [setParameters_option, if_pos hname]
    rfl

/-! ## Programs under keys -/

/-- The program is right for every call whose input shapes have this key. -/
def ForKey (H : IdealHash D) (cfg : NodeConfig) (key : D) (p : Program) : Prop :=
  ∀ effective, runShapesHash H cfg.inputNames effective = key → CompiledFor cfg effective p

/-- A program is right for all shapes that have the key of the shapes it was compiled for. -/
theorem forKey_of_compiledFor {effective : Shapes} {p : Program}
    (h : CompiledFor cfg effective p) :
    ForKey H cfg (runShapesHash H cfg.inputNames effective) p := by
  intro effective' hkey
  cases p with
  | compiled dims =>
    intro name hname
    rw [h name hname, runShapes_separate H hkey name hname]
  | empty => exact h
  | parsed dims => exact h
  | unfinished dims => exact h

/-- All programs of a table are right for their keys. -/
def Keyed (H : IdealHash D) (cfg : NodeConfig) (m : D → Option Program) : Prop :=
  ∀ key, ∀ p ∈ m key, ForKey H cfg key p

theorem keyed_none : Keyed H cfg fun _ => none := fun _ _ h => nomatch h

theorem Keyed.update [DecidableEq D] {m : D → Option Program} {key : D} {p : Program}
    (hm : Keyed H cfg m)
    (hp : ForKey H cfg key p) : Keyed H cfg (Function.update m key (some p)) := by
  intro k q hq
  by_cases hk : k = key
  · subst hk
    rw [Function.update_self] at hq
    cases hq
    exact hp
  · rw [Function.update_of_ne hk] at hq
    exact hm k q hq

/-- Kept programs, files and captured graphs are right for their keys. -/
structure Sound (H : IdealHash D) (cfg : NodeConfig) (s : ComputeState D) : Prop where
  cached : Keyed H cfg s.cachedPrograms
  files : Keyed H cfg s.mxr
  graphs : Keyed H cfg fun key => (s.hipGraphCache key).bind CapturedHipGraph.graph

/-! ## Settled nodes -/

/-- No input is optimized away. -/
def KeepsInputs (lib : Library) (cfg : NodeConfig) : Prop :=
  ∀ dims, ∀ name ∈ cfg.inputNames, name ∈ (lib.parameterShapes (.compiled dims)).names

/-- The current program is compiled for the shapes that the options have. -/
def Settled (cfg : NodeConfig) (s : ComputeState D) : Prop :=
  s.hasInputShapes = true → ∃ dims, s.program = .compiled dims ∧
    ∀ name ∈ cfg.inputNames, parseDims cfg s.onnxOptions name = dims name

theorem findsOptions_of_settled (hlib : ReportsShapes lib cfg) (hkeeps : KeepsInputs lib cfg)
    {s : ComputeState D} (hs : Settled cfg s) (hhas : s.hasInputShapes = true)
    (effective : Shapes) : FindsOptions lib cfg effective s := by
  obtain ⟨dims, hprogram, hoptions⟩ := hs hhas
  unfold FindsOptions
  rw [hprogram]
  dsimp only
  intro name hname hsame
  have hparam := hkeeps dims name hname
  have hinput := isInput_iff.2 hname
  rw [hoptions name hname, ← hlib dims name hparam hinput]
  by_contra hne
  exact hsame hparam ⟨hinput, hne⟩

/-- A call that finds a settled node is safe. -/
theorem safe_of_settled (hlib : ReportsShapes lib cfg) (hkeeps : KeepsInputs lib cfg)
    {s : ComputeState D} (hs : Settled cfg s) (c : Call) : SafeCall H lib cfg s c := by
  unfold SafeCall
  split
  · trivial
  · dsimp only
    intro hhas
    split
    · obtain ⟨dims, hprogram, _⟩ := hs hhas
      rw [hprogram]
      exact fun name hname hgone => absurd (hkeeps dims name hname) hgone
    · exact fun _ => findsOptions_of_settled hlib hkeeps hs hhas _

/-! ## The program of a call -/

variable [DecidableEq D] {dyn : DynamicBatchContext} {key : D} {c : Call}

theorem recompile_spec (lib : Library) {s : ComputeState D} (hfiles : Keyed H cfg s.mxr)
    (hdims : ForKey H cfg key (.compiled (parseDims cfg s.onnxOptions))) :
    Keyed H cfg (recompile lib cfg key c s).1.mxr ∧
      ((recompile lib cfg key c s).2 = .ok () →
        ForKey H cfg key (recompile lib cfg key c s).1.program) := by
  unfold recompile
  dsimp only
  split
  · exact ⟨hfiles, fun h => nomatch h⟩
  · split
    · exact ⟨hfiles, fun h => nomatch h⟩
    · split
      · exact ⟨hfiles, fun h => nomatch h⟩
      · split
        · exact ⟨hfiles, fun h => nomatch h⟩
        · split
          · exact ⟨hfiles, fun _ => hdims⟩
          · split
            · exact ⟨hfiles, fun h => nomatch h⟩
            · exact ⟨hfiles.update hdims, fun _ => hdims⟩

theorem loadOrRecompile_spec (lib : Library) {s : ComputeState D} (hfiles : Keyed H cfg s.mxr)
    (hdims : loadCompiledProgram cfg key c s = none →
      ForKey H cfg key (.compiled (parseDims cfg s.onnxOptions))) :
    Keyed H cfg (loadOrRecompile lib cfg key c s).1.mxr ∧
      ((loadOrRecompile lib cfg key c s).2 = .ok () →
        ForKey H cfg key (loadOrRecompile lib cfg key c s).1.program) := by
  unfold loadOrRecompile
  split
  · next program hload =>
    refine ⟨hfiles, fun _ => hfiles key program ?_⟩
    unfold loadCompiledProgram at hload
    split at hload
    · cases hload
    · exact hload
  · next hnone => exact recompile_spec lib hfiles (hdims hnone)

/-- A refresh keeps the tables right, and when it gets through, so is the program. -/
theorem refresh_spec (lib : Library) (dyn : DynamicBatchContext) (key : D) {s : ComputeState D}
    (hs : Sound H cfg s)
    (hdims : Parses cfg dyn key c s →
      ForKey H cfg key (.compiled (parseDims cfg s.onnxOptions))) :
    Sound H cfg (refresh lib cfg dyn key c s).1 ∧
      ((refresh lib cfg dyn key c s).2 = .ok () →
        ForKey H cfg key (refresh lib cfg dyn key c s).1.program) := by
  unfold refresh
  split
  · split
    · next program hcached =>
      exact ⟨⟨hs.cached, hs.files, hs.graphs⟩, fun _ => hs.cached key program hcached⟩
    · next hcached =>
      obtain ⟨hfiles, hprogram⟩ := loadOrRecompile_spec lib (c := c) hs.files
        fun hload => hdims ⟨fun _ => hcached, hload⟩
      obtain ⟨p, m, hframe⟩ := loadOrRecompile_frame lib cfg key c s
      split
      · next t e heq =>
        rw [heq] at hframe hfiles
        dsimp only at hframe hfiles
        subst hframe
        exact ⟨⟨hs.cached, hfiles, hs.graphs⟩, fun h => nomatch h⟩
      · next t heq =>
        rw [heq] at hframe hfiles hprogram
        dsimp only at hframe hfiles hprogram
        subst hframe
        refine ⟨⟨?_, hfiles, hs.graphs⟩, fun _ => hprogram rfl⟩
        unfold keepProgram
        dsimp only
        rw [hcached, if_neg (by simp)]
        exact hs.cached.update (hprogram rfl)
  · next hactive =>
    split
    · obtain ⟨hfiles, hprogram⟩ := loadOrRecompile_spec lib (c := c)
        (s := freeStaging (destroyHipGraphs s)) hs.files
        fun hload => hdims ⟨fun h => absurd h hactive, hload⟩
      obtain ⟨p, m, hframe⟩ := loadOrRecompile_frame lib cfg key c
        (freeStaging (destroyHipGraphs s))
      refine ⟨⟨?_, hfiles, ?_⟩, hprogram⟩
      · rw [hframe]
        exact hs.cached
      · rw [hframe]
        exact keyed_none
    · obtain ⟨hfiles, hprogram⟩ := loadOrRecompile_spec lib (c := c) hs.files
        fun hload => hdims ⟨fun h => absurd h hactive, hload⟩
      obtain ⟨p, m, hframe⟩ := loadOrRecompile_frame lib cfg key c s
      refine ⟨⟨?_, hfiles, ?_⟩, hprogram⟩
      · rw [hframe]
        exact hs.cached
      · rw [hframe]
        exact hs.graphs

/-- A finished program whose parameters compare equal was compiled for the shapes of the call. -/
theorem compiledFor_of_match (hlib : ReportsShapes lib cfg) {effective : Shapes} {p : Program}
    (hsame : ∀ name ∈ (lib.parameterShapes p).names,
      ¬ Differs cfg (lib.parameterShapes p) effective name)
    (hfinished : FindsFinished lib cfg effective p) : CompiledFor cfg effective p := by
  cases p with
  | compiled dims =>
    intro name hname
    by_cases hparam : name ∈ (lib.parameterShapes (.compiled dims)).names
    · have hinput := isInput_iff.2 hname
      rw [← hlib dims name hparam hinput]
      by_contra hne
      exact hsame name hparam ⟨hinput, hne⟩
    · exact hfinished name hname hparam
  | empty => exact hfinished
  | parsed dims => exact hfinished
  | unfinished dims => exact hfinished

/-- The first part of a safe call keeps the tables right; when it gets through, the program is
compiled for the shapes of the call. -/
theorem sound_prepare (hlib : ReportsShapes lib cfg) {s : ComputeState D} {pre : Prepared D}
    (hs : Sound H cfg s) (hsafe : SafeCall H lib cfg s c)
    (hpre : prepare H lib cfg s c = some pre) :
    Sound H cfg pre.state ∧ (pre.status = .ok () → ForKey H cfg pre.key pre.state.program) := by
  obtain ⟨sizes, hbatch, heff, hkey, options, inputShapesMatch, hcheck, hcase⟩ := prepare_cases hpre
  unfold SafeCall at hsafe
  rw [hbatch] at hsafe
  dsimp only at hsafe
  rw [← heff, ← hkey] at hsafe
  rcases hcase with ⟨rfl, _, hstate⟩ | ⟨rfl, hrefresh⟩
  · rw [hstate]
    refine ⟨⟨hs.cached, hs.files, hs.graphs⟩, fun _ => ?_⟩
    unfold checkShapes at hcheck
    split at hcheck
    · next hhas =>
      have hmatch := congrArg Prod.snd hcheck
      rw [compareParameters_match] at hmatch
      have hfinished := hsafe hhas
      rw [if_pos hmatch] at hfinished
      rw [hkey]
      exact forKey_of_compiledFor (compiledFor_of_match hlib hmatch hfinished)
    · cases hcheck
  · have hspec := refresh_spec lib pre.dyn pre.key (H := H) (c := c)
      (s := { s with compiledBatchSizes := sizes, onnxOptions := options, hasInputShapes := true })
      ⟨hs.cached, hs.files, hs.graphs⟩ ?_
    · rw [← hrefresh] at hspec
      exact hspec
    · intro hparses
      rw [hkey]
      have hfinds : s.hasInputShapes = true → FindsOptions lib cfg pre.effective s := by
        intro hhas
        have hfinds := hsafe hhas
        unfold checkShapes at hcheck
        rw [if_pos hhas] at hcheck
        have hmatch := congrArg Prod.snd hcheck
        dsimp only at hmatch
        rw [if_neg] at hfinds
        · exact hfinds hparses
        · intro hall
          rw [compareParameters_match.2 hall] at hmatch
          cases hmatch
      refine forKey_of_compiledFor fun name hname => ?_
      have hoptions := parseDims_checkShapes hfinds hname
      rw [hcheck] at hoptions
      exact hoptions

/-- A graph that was captured from a program that is right for the key can be added. -/
theorem Sound.setGraph {s : ComputeState D} (hs : Sound H cfg s) (enable : Bool)
    {entry : CapturedHipGraph} (hentry : ∀ p ∈ entry.graph, ForKey H cfg key p) :
    Sound H cfg { s with
      hipGraphEnable := enable
      hipGraphCache := Function.update s.hipGraphCache key (some entry) } := by
  refine ⟨hs.cached, hs.files, fun k p hp => ?_⟩
  dsimp only at hp
  by_cases hk : k = key
  · subst hk
    rw [Function.update_self] at hp
    exact hentry p hp
  · rw [Function.update_of_ne hk] at hp
    exact hs.graphs k p hp

theorem sound_warmupAndCapture {s : ComputeState D} (hs : Sound H cfg s)
    (hprogram : ForKey H cfg key s.program) : Sound H cfg (warmupAndCapture key c s).1 := by
  unfold warmupAndCapture
  split
  · exact hs
  · split
    · exact hs.setGraph false fun p hp => nomatch hp
    · refine hs.setGraph s.hipGraphEnable fun p hp => ?_
      cases hp
      exact hprogram

/-- Running a program that is right for the key executes one that is, and keeps the graphs right. -/
theorem sound_runProgramOrHipGraph {s : ComputeState D} (hs : Sound H cfg s)
    (hprogram : ForKey H cfg key s.program) :
    Sound H cfg (runProgramOrHipGraph key c s).1 ∧
      ForKey H cfg key (runProgramOrHipGraph key c s).2.1 := by
  unfold runProgramOrHipGraph
  split
  · split
    · next entry hentry =>
      split
      · next program hgraph =>
        split
        · refine ⟨hs, hs.graphs key program ?_⟩
          dsimp only
          rw [hentry]
          exact hgraph
        · refine ⟨sound_warmupAndCapture ?_ hprogram, hprogram⟩
          exact hs.setGraph s.hipGraphEnable fun p hp => nomatch hp
      · exact ⟨sound_warmupAndCapture hs hprogram, hprogram⟩
    · exact ⟨sound_warmupAndCapture hs hprogram, hprogram⟩
  · exact ⟨hs, hprogram⟩

/-- The rest of a call with a program that is right for its key. -/
theorem sound_runStaged {params : ParameterShapes} {pre : Prepared D} {s' : ComputeState D}
    {o : Outcome} (hs : Sound H cfg pre.state) (hprogram : ForKey H cfg pre.key pre.state.program)
    (h : runStaged cfg params c pre = (s', o)) :
    Sound H cfg s' ∧ o.effective = pre.effective ∧ ∀ p ∈ o.executed, ForKey H cfg pre.key p := by
  unfold runStaged at h
  dsimp only at h
  split at h
  · cases h
    exact ⟨hs, rfl, fun p hp => nomatch hp⟩
  · have hs' (st : Staging) : Sound H cfg { pre.state with staging := st } :=
      ⟨hs.cached, hs.files, hs.graphs⟩
    split at h
    · cases h
      exact ⟨hs' _, rfl, fun p hp => nomatch hp⟩
    · split at h
      · cases h
        exact ⟨hs' _, rfl, fun p hp => nomatch hp⟩
      · set s := { pre.state with
          staging := (allocateStaging cfg params pre.dyn c.faults pre.state.staging).1 } with hset
        obtain ⟨scratch, hbind⟩ :=
          (bindStagingParams_spec cfg params pre.key c s).1
        have hbound : Sound H cfg (bindStagingParams cfg params pre.key c s).state := by
          rw [hbind]
          exact ⟨hs.cached, hs.files, hs.graphs⟩
        have hboundProgram :
            ForKey H cfg pre.key (bindStagingParams cfg params pre.key c s).state.program := by
          rw [hbind]
          exact hprogram
        obtain ⟨hrun, hexecuted⟩ := sound_runProgramOrHipGraph (c := c) hbound hboundProgram
        split at h
        · split at h
          · cases h
            exact ⟨hrun, rfl, fun p hp => Option.some.inj hp ▸ hexecuted⟩
          · cases h
            exact ⟨hrun, rfl, fun p hp => Option.some.inj hp ▸ hexecuted⟩
        · cases h
          exact ⟨hbound, rfl, fun p hp => nomatch hp⟩

/-- Every safe call keeps the tables right and executes a program that was compiled for its input
shapes. -/
theorem sound_call (hlib : ReportsShapes lib cfg) {s s' : ComputeState D} {o : Outcome}
    (hs : Sound H cfg s) (hsafe : SafeCall H lib cfg s c)
    (hcall : compute H lib cfg s c = some (s', o)) :
    Sound H cfg s' ∧ ExecutesCompiled cfg s c s' o := by
  obtain ⟨pre, hpre, hcase⟩ := compute_cases hcall
  obtain ⟨hstate, hprogram⟩ := sound_prepare hlib hs hsafe hpre
  obtain ⟨_, _, _, hkey, _⟩ := prepare_cases hpre
  rcases hcase with hdirect | ⟨hstatus, _, hrun⟩
  · rw [hdirect.state]
    refine ⟨hstate, fun p hp => ?_⟩
    obtain ⟨hstatus, rfl⟩ := hdirect.executed p hp
    rw [hdirect.effective]
    exact hprogram hstatus _ hkey.symm
  · obtain ⟨hs', heff, hexecuted⟩ := sound_runStaged hstate (hprogram hstatus) hrun
    refine ⟨hs', fun p hp => ?_⟩
    rw [heff]
    exact hexecuted p hp _ hkey.symm

/-! ## Runs -/

/-- The call gets as far as running its program. -/
def GetsThrough (H : IdealHash D) (lib : Library) (cfg : NodeConfig) (s : ComputeState D)
    (c : Call) : Prop :=
  ∀ pre, prepare H lib cfg s c = some pre → pre.status = .ok ()

/-- A call that gets through leaves a settled node. -/
theorem settled_call (hlib : ReportsShapes lib cfg) (hkeeps : KeepsInputs lib cfg)
    {s s' : ComputeState D} {o : Outcome} (hsound : Sound H cfg s) (hs : Settled cfg s)
    (hthrough : GetsThrough H lib cfg s c) (hcall : compute H lib cfg s c = some (s', o)) :
    Settled cfg s' := by
  obtain ⟨pre, hpre, hcase⟩ := compute_cases hcall
  have hsafe := safe_of_settled (H := H) hlib hkeeps hs c
  have hprogram := (sound_prepare hlib hsound hsafe hpre).2 (hthrough pre hpre)
  obtain ⟨sizes, _, _, hkey, options, _, hcheck, hstate⟩ := prepare_cases hpre
  have hcompiled := hprogram _ hkey.symm
  have hoptions : ∀ name ∈ cfg.inputNames,
      parseDims cfg pre.state.onnxOptions name = toLengths (pre.effective name) := by
    intro name hname
    have hset := parseDims_checkShapes (s := s)
      (fun hhas => findsOptions_of_settled hlib hkeeps hs hhas pre.effective) hname
    rw [hcheck] at hset
    rcases hstate with ⟨_, _, hkept⟩ | ⟨_, hrefresh⟩
    · rw [hkept]
      exact hset
    · obtain ⟨p, m, k, hframe⟩ := refresh_state hrefresh
      rw [hframe]
      unfold cleared
      split
      all_goals exact hset
  have hpreSettled : Settled cfg pre.state := by
    intro _
    cases hp : pre.state.program with
    | compiled dims =>
      rw [hp] at hcompiled
      exact ⟨dims, rfl, fun name hname => (hoptions name hname).trans (hcompiled name hname).symm⟩
    | empty =>
      rw [hp] at hcompiled
      exact hcompiled.elim
    | parsed dims =>
      rw [hp] at hcompiled
      exact hcompiled.elim
    | unfinished dims =>
      rw [hp] at hcompiled
      exact hcompiled.elim
  rcases hcase with hdirect | ⟨_, _, hrun⟩
  · rw [hdirect.state]
    exact hpreSettled
  · obtain ⟨st, scratch, enable, cache, rfl, _⟩ := (runStaged_spec hrun).1
    exact hpreSettled

/-- In every run whose calls get as far as running their program, each program that is executed
was compiled for the input shapes of its call. -/
theorem executes_compiled_of_through (hlib : ReportsShapes lib cfg) (hkeeps : KeepsInputs lib cfg)
    {s : ComputeState D} (hsound : Sound H cfg s) (hs : Settled cfg s) {calls : List Call}
    (hthrough : (node H lib cfg).Every (fun s c _ _ => GetsThrough H lib cfg s c) s calls) :
    (node H lib cfg).Every (ExecutesCompiled cfg) s calls := by
  refine Machine.Every.of_invariant
    (fun s : ComputeState D => Sound H cfg s ∧ Settled cfg s) ?_ ⟨hsound, hs⟩ hthrough
  intro s c s' o hinv hcall hthrough
  have hsafe := safe_of_settled (H := H) hlib hkeeps hinv.2 c
  obtain ⟨hsound', hexecutes⟩ := sound_call hlib hinv.1 hsafe hcall
  exact ⟨⟨hsound', settled_call hlib hkeeps hinv.1 hinv.2 hthrough hcall⟩, hexecutes⟩

/-! ## After a call that has thrown -/

theorem rowsLibrary_reportsShapes (maxDynamicBatch : Nat) :
    ReportsShapes rowsLibrary (rowsConfig maxDynamicBatch) := by
  intro dims name _ hinput
  have hname : name = "x" := List.mem_singleton.1 (isInput_iff.1 hinput)
  subst hname
  exact if_neg fun h => absurd h.2 (by simp [rowsLibrary])

theorem rowsState_sound (maxDynamicBatch : Nat) :
    Sound IdealHash.free (rowsConfig maxDynamicBatch) rowsState :=
  ⟨keyed_none, keyed_none, keyed_none⟩

end AmdGpuEp.MIGraphX
