import AmdGpuEp.MIGraphX.Compute

/-!
# How the results of a program reach ORT

A program returns a list of results. Those that it exposes as output parameters
are written into buffers that were bound in front; the others live in memory of
MIGraphX, or are inputs or other results. Each way of running the program has
its own copies to the output tensors of ORT.

Results:
1. `outputs_materialized_iff`: in every run, a call that ends well fills the
   output tensor of each result from that result, exactly when it is not an
   eager run through staging buffers, or all results are bound.
2. `eager_drops_alias`: an eager run through staging buffers drops an output that
   is an alias of an input.
-/

namespace AmdGpuEp.MIGraphX

variable {D : Type*}

/-! ## Results -/

/-- Where a result of a program is after a run. -/
inductive Place
  /-- the tensor of an input parameter -/
  | input (name : String)
  /-- the buffer that is bound to an output parameter -/
  | output (name : String)
  /-- memory that MIGraphX has allocated -/
  | own (id : Nat)
  deriving DecidableEq, Repr

/-- An argument that `run_async` returns. -/
structure Result where
  place : Place
  shape : Shape
  deriving DecidableEq, Repr

/-- What the library tells about running a program: the results of `run_async`. -/
structure Device where
  results : Program → List Result

/-- A copy into the output tensor of ORT with this index, or an output parameter that was bound to
that tensor. The shape is that of the whole result; cutting it to the batch is left out here. -/
structure Delivery where
  index : Nat
  source : Place
  shape : Shape
  deriving DecidableEq, Repr

/-! ## The names of output parameters -/

/-- What follows the first `#output_`. -/
def outputSuffix : List Char → Option (List Char)
  | [] => none
  | c :: cs =>
    if "#output_".toList.isPrefixOf (c :: cs) then
      some ((c :: cs).drop "#output_".toList.length)
    else outputSuffix cs

/-- `Trim` with `std::isdigit`: what is between the first digit and the last. -/
def trimDigits (cs : List Char) : List Char :=
  ((cs.dropWhile fun c => !c.isDigit).reverse.dropWhile fun c => !c.isDigit).reverse

/-- `ToInteger<size_t>`: the leading digits; none when it throws. -/
def toInteger (cs : List Char) : Option Nat :=
  let digits := cs.takeWhile Char.isDigit
  let value := digits.foldl (fun n c => 10 * n + (c.toNat - '0'.toNat)) 0
  if digits = [] ∨ sizeMod ≤ value then none else some value

/-- The index that the path without staging reads from a name. -/
def directOutputIndex (name : String) : Option Nat :=
  (outputSuffix name.toList).bind fun suffix => toInteger (trimDigits suffix)

/-! ## Deliveries -/

/-- The copies of the results that are not bound. -/
def extraOutputs (bound : List Nat) (results : List Result) : List Delivery :=
  results.zipIdx.filterMap fun (r, index) =>
    if index ∈ bound then none else some { index, source := r.place, shape := r.shape }

/-- The copy of a bound output from its staging buffer. -/
def BoundOutput.delivery (out : BoundOutput) : Delivery :=
  { index := out.index.toNat, source := .output out.name, shape := out.shape }

/-- `prog_output_indices` -/
def progOutputIndices (outputs : List BoundOutput) : List Nat :=
  outputs.map fun out => out.index.toNat

/-- The output parameters that the path without staging binds to tensors of ORT. -/
def directBound (cfg : NodeConfig) (params : ParameterShapes) (results : List Result) :
    List Delivery :=
  params.names.filterMap fun name =>
    if cfg.isInput name then none
    else (directOutputIndex name).bind fun index =>
      (results[index]?).map fun r => { index, source := .output name, shape := r.shape }

/-- The path without staging copies the other results behind the run. -/
def directDeliveries (cfg : NodeConfig) (params : ParameterShapes) (results : List Result) :
    List Delivery :=
  let bound := directBound cfg params results
  if bound.length < results.length then
    bound ++ extraOutputs (bound.map Delivery.index) results
  else bound

/-- The copies on a way through `RunProgramOrHipGraph` and `CopyStagingOutputsToOrt`. Behind a
replay the extra outputs are those that were recorded at the capture. -/
def stagedDeliveries (device : Device) (program : Program) (outputs : List BoundOutput)
    (recorded : List Delivery) : RunPath → List Delivery
  | .eager | .failedCapture => outputs.map BoundOutput.delivery
  | .capture =>
    extraOutputs (progOutputIndices outputs) (device.results program) ++
      outputs.map BoundOutput.delivery
  | .replay _ => recorded ++ outputs.map BoundOutput.delivery
  | .stopped => []

/-- `extra_outputs` by key, after a run. -/
def recordExtras [DecidableEq D] (device : Device) (program : Program)
    (outputs : List BoundOutput) (key : D) (extras : D → List Delivery) :
    RunPath → D → List Delivery
  | .capture =>
    Function.update extras key (extraOutputs (progOutputIndices outputs) (device.results program))
  | _ => extras

/-- What a staged call binds its parameters to: its state behind `AllocateStaging`. -/
def stagedState (cfg : NodeConfig) (params : ParameterShapes) (c : Call) (pre : Prepared D) :
    ComputeState D :=
  { pre.state with
    staging := (allocateStaging cfg params pre.dyn c.faults pre.state.staging).1 }

/-- The result of `BindStagingParams` in a staged call. -/
def stagedBind [DecidableEq D] (cfg : NodeConfig) (params : ParameterShapes) (c : Call)
    (pre : Prepared D) : StagingBindResult D :=
  bindStagingParams cfg params pre.key c (stagedState cfg params c pre)

/-- A staged call gets as far as `RunProgramOrHipGraph`. -/
def reachesRun [DecidableEq D] (cfg : NodeConfig) (params : ParameterShapes) (c : Call)
    (pre : Prepared D) : Bool :=
  !c.faults.setDevice && (allocateStaging cfg params pre.dyn c.faults pre.state.staging).2 &&
    (copyInputsToStaging cfg params c pre.dyn (stagedState cfg params c pre)).2 &&
    (stagedBind cfg params c pre).through

/-- The staging path: the deliveries of a call that ends well, and the extra outputs that it leaves
recorded. -/
def runStagedDeliveries [DecidableEq D] (cfg : NodeConfig) (params : ParameterShapes)
    (device : Device) (c : Call) (pre : Prepared D) (extras : D → List Delivery) :
    List Delivery × (D → List Delivery) :=
  if reachesRun cfg params c pre then
    let program := pre.state.program
    let outputs := boundOutputs cfg params (stagedState cfg params c pre)
    let path := runPath pre.key c (stagedBind cfg params c pre).state
    (stagedDeliveries device program outputs (extras pre.key) path,
      recordExtras device program outputs pre.key extras path)
  else ([], extras)

/-- A call, next to `compute`. -/
def computeDeliveries [DecidableEq D] (H : IdealHash D) (lib : Library) (cfg : NodeConfig)
    (device : Device) (s : ComputeState D) (c : Call) (extras : D → List Delivery) :
    List Delivery × (D → List Delivery) :=
  match prepare H lib cfg s c with
  | none => ([], extras)
  | some pre =>
    match pre.status with
    | .error _ => ([], extras)
    | .ok () =>
      let params := lib.parameterShapes pre.state.program
      if Staged lib pre then runStagedDeliveries cfg params device c pre extras
      else (directDeliveries cfg params (device.results pre.state.program), extras)

/-- A fused node with the extra outputs of its captured graphs. -/
def nodeWithExtras [DecidableEq D] (H : IdealHash D) (lib : Library) (cfg : NodeConfig)
    (device : Device) : Machine (ComputeState D × (D → List Delivery)) Call Outcome :=
  (node H lib cfg).withHistory fun extras s c _ _ =>
    (computeDeliveries H lib cfg device s c extras).2

/-! ## The property, and when it holds -/

/-- The last delivery to an output tensor. -/
def written (deliveries : List Delivery) (index : Nat) : Option Delivery :=
  (deliveries.filter fun d => d.index = index).getLast?

/-- The output tensor of every result is filled from that result. -/
def Materialized (results : List Result) (deliveries : List Delivery) : Prop :=
  ∀ index, ∀ r ∈ results[index]?,
    written deliveries index = some { index, source := r.place, shape := r.shape }

instance (results : List Result) (deliveries : List Delivery) :
    Decidable (Materialized results deliveries) :=
  decidable_of_iff (∀ index < results.length, ∀ r ∈ results[index]?,
      written deliveries index = some { index, source := r.place, shape := r.shape }) <|
    ⟨fun h index r hr => h index (List.getElem?_eq_some_iff.1 hr).1 r hr,
      fun h index _ r hr => h index r hr⟩

/-- All results of the program that the call has executed are in place. -/
def MaterializesResults (device : Device) (o : Outcome) (deliveries : List Delivery) : Prop :=
  ∀ program ∈ o.executed, Materialized (device.results program) deliveries

instance (device : Device) (o : Outcome) (deliveries : List Delivery) :
    Decidable (MaterializesResults device o deliveries) :=
  inferInstanceAs (Decidable (∀ program ∈ o.executed, _))

/-- What the way of a call needs. An eager run copies bound outputs only; behind a replay the bound
outputs are those of the installed program, whatever was captured. -/
def PathCovers (cfg : NodeConfig) (lib : Library) (device : Device) (s : ComputeState D) :
    RunPath → Prop
  | .eager | .failedCapture =>
    ∀ index < (device.results s.program).length,
      ∃ out ∈ boundOutputs cfg (lib.parameterShapes s.program) s, out.index = index
  | .replay captured =>
    ∀ out : BoundOutput, 0 ≤ out.index → out.index < (device.results captured).length →
      (out ∈ boundOutputs cfg (lib.parameterShapes s.program) s ↔
        out ∈ boundOutputs cfg (lib.parameterShapes captured) s)
  | .capture | .stopped => True

/-- The call is not staged, or its way through `RunProgramOrHipGraph` covers the results. -/
def CoversResults [DecidableEq D] (H : IdealHash D) (lib : Library) (cfg : NodeConfig)
    (device : Device) (s : ComputeState D) (c : Call) : Prop :=
  ∀ pre, prepare H lib cfg s c = some pre → Staged lib pre →
    let bound := (stagedBind cfg (lib.parameterShapes pre.state.program) c pre).state
    PathCovers cfg lib device bound (runPath pre.key c bound)

/-- The number in the name of an output parameter. -/
def outputNumber (name : String) : Option Nat :=
  (outputDigits name.toList).bind fun digits =>
    let value := digits.foldl (fun n c => 10 * n + (c.toNat - '0'.toNat)) 0
    if digits = [] ∨ 2 ^ 31 ≤ value then none else some value

/-- How the library names its output parameters: one for each result that is written into a buffer
of the caller, with the number of that result in its name. -/
structure NamesOutputs (cfg : NodeConfig) (params : ParameterShapes) (results : List Result) :
    Prop where
  nodup : params.names.Nodup
  numbered : ∀ name ∈ params.names, cfg.isInput name = false →
    (outputSuffix name.toList).isSome = true → ∃ index, outputNumber name = some index ∧
      results[index]? = some { place := .output name, shape := params.shape name }
  parameters : ∀ r ∈ results, ∀ name, r.place = .output name →
    name ∈ params.names ∧ cfg.isInput name = false

/-! ## Names -/

theorem outputDigits_eq (cs : List Char) :
    outputDigits cs = (outputSuffix cs).map (List.takeWhile Char.isDigit) := by
  induction cs with
  | nil => rfl
  | cons c cs ih =>
    unfold outputDigits outputSuffix
    split
    · rfl
    · exact ih

/-- Cutting off what follows the last digit keeps the leading digits. -/
theorem takeWhile_dropWhile_reverse {α : Type*} (p : α → Bool) (l : List α) :
    ((l.reverse.dropWhile fun a => !p a).reverse).takeWhile p = l.takeWhile p := by
  induction l using List.reverseRecOn with
  | nil => rfl
  | append_singleton l a ih =>
    rw [List.reverse_append, List.reverse_singleton, List.singleton_append, List.dropWhile_cons]
    cases hp : p a with
    | false =>
      rw [if_pos (by simp), ih, List.takeWhile_append]
      split
      · next hall =>
        have hl := List.takeWhile_prefix (l := l) p
        simp [hp, hl.eq_of_length hall]
      · rfl
    | true =>
      rw [if_neg (by simp), List.reverse_cons, List.reverse_reverse]

section
variable {name : String} {index : Nat}

theorem computeOutputIndex_of_number (h : outputNumber name = some index) :
    computeOutputIndex name = index := by
  obtain ⟨digits, hdigits, hvalue⟩ := Option.bind_eq_some_iff.1 h
  dsimp only at hvalue
  split at hvalue
  · cases hvalue
  · next hsmall =>
    rw [not_or, not_le] at hsmall
    cases hvalue
    unfold computeOutputIndex
    rw [hdigits]
    cases digits with
    | nil => exact absurd rfl hsmall.1
    | cons c cs =>
      dsimp only
      rw [if_pos hsmall.2]

/-- Both ways of reading a number agree on the names of the library. -/
theorem directOutputIndex_of_number (h : outputNumber name = some index) :
    directOutputIndex name = some index := by
  obtain ⟨digits, hdigits, hvalue⟩ := Option.bind_eq_some_iff.1 h
  rw [outputDigits_eq] at hdigits
  obtain ⟨suffix, hsuffix, rfl⟩ := Option.map_eq_some_iff.1 hdigits
  dsimp only at hvalue
  split at hvalue
  · cases hvalue
  · next hsmall =>
    rw [not_or, not_le] at hsmall
    cases hvalue
    have htrim : (trimDigits suffix).takeWhile Char.isDigit = suffix.takeWhile Char.isDigit := by
      unfold trimDigits
      rw [takeWhile_dropWhile_reverse]
      cases suffix with
      | nil => rfl
      | cons c cs =>
        cases hc : c.isDigit with
        | false => exact absurd (List.takeWhile_cons_of_neg (by simp [hc])) hsmall.1
        | true => rw [List.dropWhile_cons_of_neg (by simp [hc])]
    unfold directOutputIndex
    rw [hsuffix, Option.bind_some]
    unfold toInteger
    dsimp only
    rw [htrim]
    refine if_neg ?_
    rw [not_or, not_le]
    exact ⟨hsmall.1, Nat.lt_of_lt_of_le hsmall.2 (by unfold sizeMod; decide)⟩

theorem isSome_outputSuffix (h : computeOutputIndex name ≠ -1) :
    (outputSuffix name.toList).isSome = true := by
  cases hsuffix : outputSuffix name.toList with
  | some suffix => rfl
  | none =>
    refine absurd ?_ h
    unfold computeOutputIndex
    rw [outputDigits_eq, hsuffix]
    rfl

end

/-! ## The last delivery -/

theorem written_append (a b : List Delivery) (index : Nat) :
    written (a ++ b) index = (written b index).or (written a index) := by
  unfold written
  rw [List.filter_append, List.getLast?_append]

theorem mem_of_written {deliveries : List Delivery} {index : Nat} {d : Delivery}
    (h : written deliveries index = some d) : d ∈ deliveries ∧ d.index = index := by
  have hmem := List.mem_of_getLast? h
  simpa using List.mem_filter.1 hmem

theorem written_eq_none {deliveries : List Delivery} {index : Nat}
    (h : ∀ d ∈ deliveries, d.index ≠ index) : written deliveries index = none := by
  cases hwritten : written deliveries index with
  | none => rfl
  | some d =>
    obtain ⟨hmem, hindex⟩ := mem_of_written hwritten
    exact absurd hindex (h d hmem)

/-- Where all deliveries to an index are the same, that one is the last. -/
theorem written_eq_some {deliveries : List Delivery} {d : Delivery} (hmem : d ∈ deliveries)
    (hall : ∀ d' ∈ deliveries, d'.index = d.index → d' = d) :
    written deliveries d.index = some d := by
  cases hwritten : written deliveries d.index with
  | none =>
    have hnil := List.getLast?_eq_none_iff.1 hwritten
    have hfilter : d ∈ deliveries.filter fun d' => d'.index = d.index :=
      List.mem_filter.2 ⟨hmem, by simp⟩
    rw [hnil] at hfilter
    cases hfilter
  | some d' =>
    obtain ⟨hmem', hindex⟩ := mem_of_written hwritten
    rw [hall d' hmem' hindex]

theorem mem_extraOutputs {bound : List Nat} {results : List Result} {d : Delivery} :
    d ∈ extraOutputs bound results ↔
      d.index ∉ bound ∧ results[d.index]? = some { place := d.source, shape := d.shape } := by
  unfold extraOutputs
  rw [List.mem_filterMap]
  constructor
  · rintro ⟨⟨r, index⟩, hmem, hsome⟩
    dsimp only at hsome
    split at hsome
    · cases hsome
    · next hbound =>
      cases hsome
      exact ⟨hbound, List.mem_zipIdx_iff_getElem?.1 hmem⟩
  · rintro ⟨hbound, hresult⟩
    exact ⟨(_, d.index), List.mem_zipIdx_iff_getElem?.2 hresult, if_neg hbound⟩

theorem written_extraOutputs {bound : List Nat} {results : List Result} {index : Nat} {r : Result}
    (hbound : index ∉ bound) (hresult : results[index]? = some r) :
    written (extraOutputs bound results) index =
      some { index, source := r.place, shape := r.shape } := by
  refine written_eq_some (d := { index, source := r.place, shape := r.shape })
    (mem_extraOutputs.2 ⟨hbound, hresult⟩) ?_
  intro d hd hindex
  obtain ⟨_, hd⟩ := mem_extraOutputs.1 hd
  rw [hindex, hresult] at hd
  cases d
  cases hd
  dsimp only at hindex
  rw [hindex]

/-! ## Bound outputs -/

section
variable {cfg : NodeConfig} {params : ParameterShapes} {results : List Result} {s : ComputeState D}

theorem mem_boundOutputs {out : BoundOutput} :
    out ∈ boundOutputs cfg params s ↔
      out.name ∈ params.names ∧ cfg.isInput out.name = false ∧
        (boundBuffer cfg s out.name).isSome = true ∧ out.index = computeOutputIndex out.name ∧
          out.shape = params.shape out.name := by
  unfold boundOutputs
  rw [List.mem_filterMap]
  constructor
  · rintro ⟨name, hname, hsome⟩
    split at hsome
    · cases hsome
    · next hinput =>
      obtain ⟨buffer, hbuffer, rfl⟩ := Option.map_eq_some_iff.1 hsome
      exact ⟨hname, by simpa using hinput, by rw [hbuffer]; rfl, rfl, rfl⟩
  · rintro ⟨hname, hinput, hbuffer, hindex, hshape⟩
    obtain ⟨buffer, hbuffer⟩ := Option.isSome_iff_exists.1 hbuffer
    refine ⟨out.name, hname, ?_⟩
    rw [hinput, if_neg Bool.false_ne_true, hbuffer, Option.map_some, ← hindex, ← hshape]

/-- A parameter with a buffer that is no input has the name of an output. -/
theorem computeOutputIndex_of_bound {name : String} (hinput : cfg.isInput name = false)
    (h : (boundBuffer cfg s name).isSome = true) : computeOutputIndex name ≠ -1 := by
  unfold boundBuffer at h
  rw [hinput, if_neg Bool.false_ne_true] at h
  split at h
  · cases h
  · split at h
    · next hindex => exact hindex
    · cases h

/-- A bound output stands for the result with its index. -/
theorem result_of_bound (hnames : NamesOutputs cfg params results) {out : BoundOutput}
    (hout : out ∈ boundOutputs cfg params s) :
    0 ≤ out.index ∧ results[out.index.toNat]? =
      some { place := .output out.name, shape := out.shape } := by
  obtain ⟨hname, hinput, hbuffer, hindex, hshape⟩ := mem_boundOutputs.1 hout
  obtain ⟨index, hnumber, hresult⟩ := hnames.numbered out.name hname hinput
    (isSome_outputSuffix (computeOutputIndex_of_bound hinput hbuffer))
  rw [hindex, computeOutputIndex_of_number hnumber, hshape]
  exact ⟨Int.natCast_nonneg index, hresult⟩

theorem written_bound (hnames : NamesOutputs cfg params results) {out : BoundOutput}
    (hout : out ∈ boundOutputs cfg params s) :
    written ((boundOutputs cfg params s).map BoundOutput.delivery) out.index.toNat =
      some out.delivery := by
  refine written_eq_some (d := out.delivery) (List.mem_map_of_mem hout) ?_
  intro d hd hindex
  obtain ⟨out', hout', rfl⟩ := List.mem_map.1 hd
  have hresult := (result_of_bound hnames hout).2
  have hresult' := (result_of_bound hnames hout').2
  unfold BoundOutput.delivery at hindex ⊢
  dsimp only at hindex
  rw [hindex, hresult] at hresult'
  injection hresult' with hresult'
  injection hresult' with hplace hshape
  rw [hindex, hplace, hshape]

theorem bound_of_written {index : Nat} {d : Delivery}
    (h : written ((boundOutputs cfg params s).map BoundOutput.delivery) index = some d) :
    ∃ out ∈ boundOutputs cfg params s, out.delivery = d ∧ out.index.toNat = index := by
  obtain ⟨hmem, hindex⟩ := mem_of_written h
  obtain ⟨out, hout, rfl⟩ := List.mem_map.1 hmem
  exact ⟨out, hout, rfl, hindex⟩

theorem mem_progOutputIndices {index : Nat} :
    index ∈ progOutputIndices (boundOutputs cfg params s) ↔
      ∃ out ∈ boundOutputs cfg params s, out.index.toNat = index := by
  unfold progOutputIndices
  rw [List.mem_map]

/-- An eager run through staging buffers delivers what is bound. -/
theorem materialized_eager (hnames : NamesOutputs cfg params results) :
    Materialized results ((boundOutputs cfg params s).map BoundOutput.delivery) ↔
      ∀ index < results.length, ∃ out ∈ boundOutputs cfg params s, out.index = index := by
  constructor
  · intro hall index hlt
    have hwritten := hall index results[index] (List.getElem?_eq_getElem hlt)
    obtain ⟨out, hout, _, hindex⟩ := bound_of_written hwritten
    have hnonneg := (result_of_bound hnames hout).1
    exact ⟨out, hout, by omega⟩
  · intro hall index r hresult
    obtain ⟨hlt, _⟩ := List.getElem?_eq_some_iff.1 hresult
    obtain ⟨out, hout, hindex⟩ := hall index hlt
    have hbound := (result_of_bound hnames hout).2
    have htoNat : out.index.toNat = index := by omega
    rw [← htoNat, written_bound hnames hout]
    rw [htoNat, hresult] at hbound
    cases hbound
    rfl

/-- Extra outputs of one program next to the bound outputs of another: all results of the first are
in place exactly when both bind the same outputs. -/
theorem materialized_extras {params' : ParameterShapes} {results' : List Result}
    (hnames : NamesOutputs cfg params results) (hnames' : NamesOutputs cfg params' results') :
    Materialized results
        (extraOutputs (progOutputIndices (boundOutputs cfg params s)) results ++
          (boundOutputs cfg params' s).map BoundOutput.delivery) ↔
      ∀ out : BoundOutput, 0 ≤ out.index → out.index < results.length →
        (out ∈ boundOutputs cfg params' s ↔ out ∈ boundOutputs cfg params s) := by
  constructor
  · intro hall out hnonneg hlt
    have hlt' : out.index.toNat < results.length := by omega
    have hwritten := hall out.index.toNat _ (List.getElem?_eq_getElem hlt')
    rw [written_append] at hwritten
    constructor
    · intro hout
      rw [written_bound hnames' hout, Option.some_or] at hwritten
      injection hwritten with hwritten
      injection hwritten with _ hplace hshape
      obtain ⟨_, _, hbuffer, hindex, _⟩ := mem_boundOutputs.1 hout
      obtain ⟨hname, hinput⟩ := hnames.parameters _ (List.getElem_mem hlt') out.name hplace.symm
      obtain ⟨index, hnumber, hresult⟩ := hnames.numbered out.name hname hinput
        (isSome_outputSuffix (computeOutputIndex_of_bound hinput hbuffer))
      have htoNat : out.index.toNat = index := by
        rw [hindex, computeOutputIndex_of_number hnumber, Int.toNat_natCast]
      rw [← htoNat, List.getElem?_eq_getElem hlt', Option.some.injEq] at hresult
      refine mem_boundOutputs.2 ⟨hname, hinput, hbuffer, hindex, ?_⟩
      rw [hshape, hresult]
    · intro hout
      have hresult := (result_of_bound hnames hout).2
      rw [List.getElem?_eq_getElem hlt', Option.some.injEq] at hresult
      have hextras : written
          (extraOutputs (progOutputIndices (boundOutputs cfg params s)) results)
          out.index.toNat = none := by
        refine written_eq_none fun d hd hindex => (mem_extraOutputs.1 hd).1 ?_
        rw [hindex]
        exact mem_progOutputIndices.2 ⟨out, hout, rfl⟩
      rw [hextras, Option.or_none, hresult] at hwritten
      obtain ⟨out', hout', hdelivery, hindex⟩ := bound_of_written hwritten
      have hnonneg' := (result_of_bound hnames' hout').1
      injection hdelivery with _ hplace hshape
      injection hplace with hname
      have heq : out' = out := by
        cases out
        cases out'
        simp only [BoundOutput.mk.injEq]
        exact ⟨by dsimp only at hindex hnonneg hnonneg'; omega, hname, hshape⟩
      rw [← heq]
      exact hout'
  · intro hsame index r hresult
    obtain ⟨hlt, _⟩ := List.getElem?_eq_some_iff.1 hresult
    rw [written_append]
    by_cases hbound : index ∈ progOutputIndices (boundOutputs cfg params s)
    · obtain ⟨out, hout, rfl⟩ := mem_progOutputIndices.1 hbound
      obtain ⟨hnonneg, hout'⟩ := result_of_bound hnames hout
      rw [written_bound hnames' ((hsame out hnonneg (by omega)).2 hout), Option.some_or]
      rw [hresult] at hout'
      cases hout'
      rfl
    · have hnone : written ((boundOutputs cfg params' s).map BoundOutput.delivery) index = none := by
        refine written_eq_none fun d hd hindex => hbound ?_
        obtain ⟨out, hout, rfl⟩ := List.mem_map.1 hd
        have hnonneg := (result_of_bound hnames' hout).1
        have hlt' : out.index < results.length := by
          show out.index < (results.length : Int)
          change out.index.toNat = index at hindex
          omega
        exact mem_progOutputIndices.2 ⟨out, (hsame out hnonneg hlt').1 hout, hindex⟩
      rw [hnone, Option.none_or]
      exact written_extraOutputs hbound hresult

/-! ## The path without staging -/

/-- Deliveries of results from their own places, one for each result. -/
theorem materialized_of_right {deliveries : List Delivery}
    (hright : ∀ d ∈ deliveries, results[d.index]? = some { place := d.source, shape := d.shape })
    (hall : ∀ index < results.length, ∃ d ∈ deliveries, d.index = index) :
    Materialized results deliveries := by
  intro index r hresult
  obtain ⟨hlt, _⟩ := List.getElem?_eq_some_iff.1 hresult
  obtain ⟨d, hd, rfl⟩ := hall index hlt
  have hd' := hright d hd
  rw [hresult] at hd'
  cases hd'
  refine written_eq_some hd fun d' hmem hindex => ?_
  have hsame := hright d' hmem
  rw [hindex, hresult] at hsame
  cases d
  cases d'
  cases hsame
  dsimp only at hindex
  rw [hindex]

theorem directBound_right (hnames : NamesOutputs cfg params results) {d : Delivery}
    (hd : d ∈ directBound cfg params results) :
    results[d.index]? = some { place := d.source, shape := d.shape } := by
  obtain ⟨name, hname, hsome⟩ := List.mem_filterMap.1 hd
  split at hsome
  · cases hsome
  · next hinput =>
    obtain ⟨index, hindex, hsome⟩ := Option.bind_eq_some_iff.1 hsome
    obtain ⟨r, hr, rfl⟩ := Option.map_eq_some_iff.1 hsome
    obtain ⟨suffix, hsuffix, _⟩ := Option.bind_eq_some_iff.1 hindex
    obtain ⟨number, hnumber, hresult⟩ := hnames.numbered name hname (by simpa using hinput)
      (by rw [hsuffix]; rfl)
    rw [directOutputIndex_of_number hnumber] at hindex
    cases hindex
    rw [hr] at hresult ⊢
    cases hresult
    rfl

theorem nodup_directBound (hnames : NamesOutputs cfg params results) :
    ((directBound cfg params results).map Delivery.index).Nodup := by
  refine List.Nodup.map_on ?_ (hnames.nodup.filterMap ?_)
  · intro d hd d' hd' hindex
    have hright := directBound_right hnames hd
    rw [hindex, directBound_right hnames hd'] at hright
    cases d
    cases d'
    cases hright
    dsimp only at hindex
    rw [hindex]
  · intro name name' d hd hd'
    have hsource : ∀ n, d ∈ (if cfg.isInput n then none
        else (directOutputIndex n).bind fun index =>
          (results[index]?).map fun r : Result =>
            ({ index, source := .output n, shape := r.shape } : Delivery)) →
        d.source = .output n := by
      intro n hn
      split at hn
      · cases hn
      · obtain ⟨index, _, hn⟩ := Option.bind_eq_some_iff.1 hn
        obtain ⟨r, _, rfl⟩ := Option.map_eq_some_iff.1 hn
        rfl
    have hsame := (hsource name hd).symm.trans (hsource name' hd')
    injection hsame

/-- Without staging every result gets to its tensor: it is bound, or copied behind the run. -/
theorem materialized_direct (hnames : NamesOutputs cfg params results) :
    Materialized results (directDeliveries cfg params results) := by
  unfold directDeliveries
  dsimp only
  split
  · refine materialized_of_right (fun d hd => ?_) fun index hlt => ?_
    · rcases List.mem_append.1 hd with hd | hd
      · exact directBound_right hnames hd
      · exact (mem_extraOutputs.1 hd).2
    · by_cases hbound : index ∈ (directBound cfg params results).map Delivery.index
      · obtain ⟨d, hd, hindex⟩ := List.mem_map.1 hbound
        exact ⟨d, List.mem_append_left _ hd, hindex⟩
      · refine ⟨{ index, source := results[index].place, shape := results[index].shape }, ?_, rfl⟩
        exact List.mem_append_right _
          (mem_extraOutputs.2 ⟨hbound, List.getElem?_eq_getElem hlt⟩)
  · next hmany =>
    refine materialized_of_right (fun d => directBound_right hnames) fun index hlt => ?_
    -- as many indices as results, none of them twice
    have hsub : (directBound cfg params results).map Delivery.index ⊆
        List.range results.length := by
      intro index hindex
      obtain ⟨d, hd, rfl⟩ := List.mem_map.1 hindex
      exact List.mem_range.2 (List.getElem?_eq_some_iff.1 (directBound_right hnames hd)).1
    have hperm := (List.subperm_of_subset (nodup_directBound hnames) hsub).perm_of_length_le (by
      rw [List.length_map, List.length_range]
      exact Nat.le_of_not_lt hmany)
    exact List.mem_map.1 (hperm.mem_iff.2 (List.mem_range.2 hlt))

end

/-! ## Runs -/

variable [DecidableEq D] {H : IdealHash D} {lib : Library} {cfg : NodeConfig} {device : Device}
  {s : ComputeState D} {c : Call} {extras : D → List Delivery}

/-- The recorded extra outputs are those of the captured programs, next to what they bind. -/
def RecordsExtras (lib : Library) (cfg : NodeConfig) (device : Device) (s : ComputeState D)
    (extras : D → List Delivery) : Prop :=
  ∀ key, ∀ entry ∈ s.hipGraphCache key, entry.captured = true →
    s.staging.allocated = true ∧ ∃ program ∈ entry.graph,
      extras key = extraOutputs
        (progOutputIndices (boundOutputs cfg (lib.parameterShapes program) s))
        (device.results program)

omit [DecidableEq D] in
theorem boundOutputs_congr {s s' : ComputeState D} (h : s'.staging = s.staging)
    (params : ParameterShapes) : boundOutputs cfg params s' = boundOutputs cfg params s := by
  unfold boundOutputs boundBuffer
  rw [h]

omit [DecidableEq D] in
theorem RecordsExtras.of_same {s' : ComputeState D} (h : RecordsExtras lib cfg device s extras)
    (hcache : s'.hipGraphCache = s.hipGraphCache) (hstaging : s'.staging = s.staging) :
    RecordsExtras lib cfg device s' extras := by
  intro key entry hentry hcaptured
  rw [hcache] at hentry
  obtain ⟨hallocated, program, hgraph, hextras⟩ := h key entry hentry hcaptured
  refine ⟨hstaging ▸ hallocated, program, hgraph, ?_⟩
  rw [boundOutputs_congr hstaging]
  exact hextras

theorem RecordsExtras.prepare {pre : Prepared D} (h : RecordsExtras lib cfg device s extras)
    (hpre : prepare H lib cfg s c = some pre) : RecordsExtras lib cfg device pre.state extras := by
  rcases prepare_graphs hpre with ⟨hcache, hstaging⟩ | hnone
  · exact h.of_same hcache hstaging
  · intro key entry hentry
    rw [hnone] at hentry
    cases hentry

omit [DecidableEq D] in
/-- Buffers are allocated where none are, and then nothing is captured. -/
theorem RecordsExtras.staged {pre : Prepared D} (h : RecordsExtras lib cfg device pre.state extras)
    (params : ParameterShapes) (c : Call) :
    RecordsExtras lib cfg device (stagedState cfg params c pre) extras := by
  intro key entry hentry hcaptured
  have hallocated := (h key entry hentry hcaptured).1
  refine h.of_same ?_ ?_ key entry hentry hcaptured
  · rfl
  · exact congrArg Prod.fst (allocateStaging_of_allocated cfg params pre.dyn c.faults hallocated)

/-- A capture records the extra outputs of its program. -/
theorem RecordsExtras.run {key : D} {result : ComputeState D} {program : Program} {through : Bool}
    {path : RunPath} (h : RecordsExtras lib cfg device s extras)
    (hallocated : s.staging.allocated = true)
    (hrun : RunsBy key c s result program through path) :
    RecordsExtras lib cfg device result
      (recordExtras device s.program (boundOutputs cfg (lib.parameterShapes s.program) s) key extras
        path) := by
  have hstaging := hrun.frame.1
  intro k entry hentry hcaptured
  rw [hstaging]
  refine ⟨hallocated, ?_⟩
  rcases hrun.captured hentry hcaptured with ⟨hold, hother⟩ | ⟨rfl, rfl, rfl⟩
  · obtain ⟨_, captured, hgraph, hextras⟩ := h k entry hold hcaptured
    refine ⟨captured, hgraph, ?_⟩
    rw [boundOutputs_congr hstaging, ← hextras]
    cases path with
    | capture => exact Function.update_of_ne (hother rfl) ..
    | eager | replay | failedCapture | stopped => rfl
  · refine ⟨s.program, rfl, ?_⟩
    rw [boundOutputs_congr hstaging]
    exact Function.update_self ..

/-- What the ways of a staged call deliver. -/
theorem materialized_staged {key : D} {result : ComputeState D} {program : Program}
    (hnames : ∀ program, NamesOutputs cfg (lib.parameterShapes program) (device.results program))
    (h : RecordsExtras lib cfg device s extras)
    (hrun : RunsBy key c s result program true (runPath key c s)) :
    Materialized (device.results program)
        (stagedDeliveries device s.program (boundOutputs cfg (lib.parameterShapes s.program) s)
          (extras key) (runPath key c s)) ↔
      PathCovers cfg lib device s (runPath key c s) := by
  cases hpath : runPath key c s with
  | eager | failedCapture =>
    rw [hpath] at hrun
    obtain ⟨_, rfl, _⟩ := hrun
    exact materialized_eager (hnames _)
  | capture =>
    rw [hpath] at hrun
    obtain ⟨_, rfl, _⟩ := hrun
    refine iff_of_true ?_ trivial
    exact (materialized_extras (hnames _) (hnames _)).2 fun _ _ _ => Iff.rfl
  | replay captured =>
    rw [hpath] at hrun
    obtain ⟨_, rfl, _⟩ := hrun
    obtain ⟨_, entry, hentry, hcaptured, _, hgraph⟩ := runPath_eq_replay hpath
    obtain ⟨_, program', hgraph', hextras⟩ := h key entry hentry hcaptured
    obtain rfl := Option.mem_unique hgraph hgraph'
    dsimp only [stagedDeliveries]
    rw [hextras]
    exact materialized_extras (hnames _) (hnames _)
  | stopped =>
    rw [hpath] at hrun
    obtain ⟨_, _, hthrough⟩ := hrun
    cases hthrough

/-- A staged call runs its program from the bound state, or stops before it. -/
theorem runStaged_reaches {params : ParameterShapes} {pre : Prepared D} {s' : ComputeState D}
    {o : Outcome} (hrun : runStaged cfg params c pre = (s', o)) :
    if reachesRun cfg params c pre then
      let r := runProgramOrHipGraph pre.key c (stagedBind cfg params c pre).state
      s' = r.1 ∧ (o.status = .ok () → r.2.2 = true ∧ o.executed = some r.2.1)
    else
      o.status ≠ .ok () ∧ s'.hipGraphCache = pre.state.hipGraphCache ∧
        (s'.staging = pre.state.staging ∨
          s'.staging = (stagedState cfg params c pre).staging) := by
  obtain ⟨⟨scratch, hbind⟩, _, _⟩ :=
    bindStagingParams_spec cfg params pre.key c (stagedState cfg params c pre)
  unfold runStaged at hrun
  unfold reachesRun
  dsimp only at hrun
  split at hrun
  · next hdevice =>
    cases hrun
    simp [hdevice]
  · next hdevice =>
    split at hrun
    · next hthrough =>
      cases hrun
      simp only [Bool.not_eq_true'] at hthrough
      simp [hthrough, stagedState]
    · next hthrough =>
      split at hrun
      · next hcopies =>
        cases hrun
        simp only [Bool.not_eq_true'] at hcopies
        simp [stagedState, hcopies]
      · next hcopies =>
        split at hrun
        · next hbound =>
          rw [if_pos (by simp_all [stagedState, stagedBind])]
          split at hrun
          · next hthrough =>
            cases hrun
            exact ⟨rfl, fun _ => ⟨hthrough, rfl⟩⟩
          · cases hrun
            exact ⟨rfl, nofun⟩
        · next hbound =>
          rw [if_neg (by simp_all [stagedState, stagedBind])]
          cases hrun
          unfold stagedState at hbind
          rw [hbind]
          exact ⟨nofun, rfl, Or.inr rfl⟩

/-- A staged call keeps the record of extra outputs, and ends well exactly with the results that its
way covers. -/
theorem runStaged_materializes {pre : Prepared D} {params : ParameterShapes}
    (hparams : params = lib.parameterShapes pre.state.program)
    (hnames : ∀ program, NamesOutputs cfg (lib.parameterShapes program) (device.results program))
    (h : RecordsExtras lib cfg device pre.state extras) {s' : ComputeState D} {o : Outcome}
    (hrun : runStaged cfg params c pre = (s', o)) :
    RecordsExtras lib cfg device s' (runStagedDeliveries cfg params device c pre extras).2 ∧
      (o.status = .ok () →
        (MaterializesResults device o (runStagedDeliveries cfg params device c pre extras).1 ↔
          PathCovers cfg lib device (stagedBind cfg params c pre).state
            (runPath pre.key c (stagedBind cfg params c pre).state))) := by
  have hstaged := h.staged params c
  have hreaches := runStaged_reaches hrun
  unfold runStagedDeliveries
  cases hreach : reachesRun cfg params c pre with
  | false =>
    rw [hreach, if_neg Bool.false_ne_true] at hreaches
    obtain ⟨hstatus, hcache, hstaging⟩ := hreaches
    rw [if_neg Bool.false_ne_true]
    refine ⟨?_, fun hok => absurd hok hstatus⟩
    rcases hstaging with hstaging | hstaging
    · exact h.of_same hcache hstaging
    · exact hstaged.of_same hcache hstaging
  | true =>
    rw [hreach, if_pos rfl] at hreaches
    obtain ⟨hresult, hok⟩ := hreaches
    rw [if_pos rfl]
    obtain ⟨⟨scratch, hbind⟩, _, _⟩ :=
      bindStagingParams_spec cfg params pre.key c (stagedState cfg params c pre)
    have hbound : (stagedBind cfg params c pre).state =
        { stagedState cfg params c pre with scratchBufs := scratch } := hbind
    have hallocated : (stagedBind cfg params c pre).state.staging.allocated = true := by
      rw [hbound]
      refine allocateStaging_allocated ?_
      simp only [reachesRun, Bool.and_eq_true] at hreach
      exact hreach.1.1.2
    have hrecords : RecordsExtras lib cfg device (stagedBind cfg params c pre).state extras := by
      rw [hbound]
      exact hstaged.of_same rfl rfl
    have hprogram : pre.state.program = (stagedBind cfg params c pre).state.program := by
      rw [hbound]
      rfl
    have houtputs : boundOutputs cfg params (stagedState cfg params c pre) =
        boundOutputs cfg params (stagedBind cfg params c pre).state := by
      rw [hbound]
      exact boundOutputs_congr rfl params
    rw [houtputs, hprogram]
    rw [hprogram] at hparams
    generalize (stagedBind cfg params c pre).state = t at *
    subst hparams
    have hrunsBy := runProgramOrHipGraph_runsBy pre.key c t
    rw [hresult]
    refine ⟨hrecords.run hallocated hrunsBy, fun hstatus => ?_⟩
    obtain ⟨hthrough, hexecuted⟩ := hok hstatus
    rw [hthrough] at hrunsBy
    rw [← materialized_staged hnames hrecords hrunsBy, MaterializesResults, hexecuted]
    simp only [Option.mem_def, Option.some.injEq, forall_eq']

/-- In every run, a call that ends well has filled the output tensor of each result from that
result, exactly when its way covers the results. -/
theorem outputs_materialized_iff
    (hnames : ∀ program, NamesOutputs cfg (lib.parameterShapes program) (device.results program))
    (H : IdealHash D) (s : ComputeState D) (calls : List Call) :
    (nodeWithExtras H lib cfg device).Every
      (fun se c _ o => o.status = .ok () →
        (MaterializesResults device o (computeDeliveries H lib cfg device se.1 c se.2).1 ↔
          CoversResults H lib cfg device se.1 c))
      (compiledNode s, fun _ => []) calls := by
  refine Machine.Every.of_kept (fun se => RecordsExtras lib cfg device se.1 se.2) ?_ ?_ calls
  · rintro ⟨s, extras⟩ c ⟨s', extras'⟩ o hrecords hstep
    obtain ⟨hcall, rfl⟩ := Machine.withHistory_step.1 hstep
    obtain ⟨pre, hpre, hexec⟩ := Option.map_eq_some_iff.1 hcall
    have hprepared := hrecords.prepare hpre
    have hcovers : CoversResults H lib cfg device s c ↔ (Staged lib pre →
        PathCovers cfg lib device
          (stagedBind cfg (lib.parameterShapes pre.state.program) c pre).state
          (runPath pre.key c
            (stagedBind cfg (lib.parameterShapes pre.state.program) c pre).state)) := by
      unfold CoversResults
      rw [hpre]
      simp only [Option.some.injEq, forall_eq']
    rw [hcovers]
    unfold execute at hexec
    unfold computeDeliveries
    rw [hpre]
    dsimp only at hexec ⊢
    cases hstatus : pre.status with
    | error e =>
      rw [hstatus] at hexec
      cases hexec
      exact ⟨hprepared, nofun⟩
    | ok u =>
      rw [hstatus] at hexec
      dsimp only at hexec ⊢
      split at hexec
      · next hstaged =>
        rw [if_pos hstaged, imp_iff_right hstaged]
        exact runStaged_materializes rfl hnames hprepared hexec
      · next hstaged =>
        rw [if_neg hstaged]
        have hdirect := runDirect_spec hstatus hexec
        rw [hdirect.state]
        refine ⟨hprepared, fun _ => iff_of_true ?_ fun h => absurd h hstaged⟩
        intro program hprogram
        rw [(hdirect.executed program hprogram).2]
        exact materialized_direct (hnames _)
  · intro key entry hentry
    cases hentry

/-! ## A program that returns its input -/

/-- The program of `rowsLibrary` with its input as a second result. -/
def aliasDevice : Device where
  results
    | .empty => []
    | .parsed dims | .unfinished dims | .compiled dims =>
      let shape := (rowsLibrary.parameterShapes (.compiled dims)).shape "x"
      [{ place := .output "#output_0", shape }, { place := .input "x", shape }]

theorem aliasDevice_names (maxDynamicBatch : Nat) (program : Program) :
    NamesOutputs (rowsConfig maxDynamicBatch) (rowsLibrary.parameterShapes program)
      (aliasDevice.results program) := by
  have hdims : ∀ dims, NamesOutputs (rowsConfig maxDynamicBatch)
      (rowsLibrary.parameterShapes (.compiled dims)) (aliasDevice.results (.compiled dims)) := by
    intro dims
    refine ⟨by simp [rowsLibrary], ?_, ?_⟩
    · intro name hname hinput _
      simp only [rowsLibrary, List.mem_cons, List.not_mem_nil, or_false] at hname
      rcases hname with rfl | rfl
      · cases hinput
      · exact ⟨0, by decide, rfl⟩
    · intro r hr name hplace
      simp only [aliasDevice, List.mem_cons, List.not_mem_nil, or_false] at hr
      rcases hr with rfl | rfl
      · cases hplace
        exact ⟨by simp [rowsLibrary], rfl⟩
      · cases hplace
  cases program with
  | empty => exact ⟨List.nodup_nil, by simp [rowsLibrary], by simp [aliasDevice]⟩
  | parsed dims => exact hdims dims
  | unfinished dims => exact hdims dims
  | compiled dims => exact hdims dims

/-- The node of that program, called twice in the bucket of four rows. -/
theorem aliasDevice_calls :
    (nodeWithExtras IdealHash.free rowsLibrary (rowsConfig 4) aliasDevice).Every
      (fun se c _ o => o.status = .ok () →
        (MaterializesResults aliasDevice o
            (computeDeliveries IdealHash.free rowsLibrary (rowsConfig 4) aliasDevice se.1 c se.2).1 ↔
          CoversResults IdealHash.free rowsLibrary (rowsConfig 4) aliasDevice se.1 c))
      (compiledNode rowsState, fun _ => []) [rowsCall 3, rowsCall 4] :=
  outputs_materialized_iff (aliasDevice_names 4) IdealHash.free rowsState [rowsCall 3, rowsCall 4]

/-- In a bucket and without graphs, the call ends well and the second output tensor is not filled:
what `run_async` returns is discarded. -/
theorem eager_drops_alias :
    ¬ (nodeWithExtras IdealHash.free rowsLibrary (rowsConfig 4) aliasDevice).Every
      (fun se c _ o => o.status = .ok () → MaterializesResults aliasDevice o
        (computeDeliveries IdealHash.free rowsLibrary (rowsConfig 4) aliasDevice se.1 c se.2).1)
      (compiledNode rowsState, fun _ => []) [rowsCall 3] := by
  decide

end AmdGpuEp.MIGraphX
