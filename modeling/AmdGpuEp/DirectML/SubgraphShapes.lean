import AmdGpuEp.DirectML.TranslationWalk
import AmdGpuEp.Lib.Runs

/-!
# The shapes of a Tier-0 group

How `value_shapes` is filled: by `BuildSubgraphInfo` from the types that ORT
gives and from `resolved_shapes`, by the write-back of translated outputs, and
how `TryTranslateNodes` exports it for the groups behind. `Compile` and
`TryTranslateNodes` differ in the graph that they look at; here that is a view.

The writers are the steps of a machine.

Results:
1. `buildValueShapes_run`, `translateNodes_run`, `tryTranslateNodes_run`: the
   functions of the source are runs of the machine.
-/

namespace AmdGpuEp.DirectML

/-! ## What ORT says of values -/

/-- `ONNXTensorElementDataType`; the types that DML has no counterpart for are `other`. -/
inductive OnnxDataType
  | float | float16 | double
  | int8 | int16 | int32 | int64
  | uint8 | uint16 | uint32 | uint64
  | bool
  | other (code : Nat)
  deriving DecidableEq, Repr

/-- `OnnxDtypeToDml`. -/
def onnxDtypeToDml : OnnxDataType → DmlDataType
  | .float => .float32
  | .float16 => .float16
  | .double => .float64
  | .int8 => .int8
  | .int16 => .int16
  | .int32 => .int32
  | .int64 => .int64
  | .uint8 => .uint8
  | .uint16 => .uint16
  | .uint32 => .uint32
  | .uint64 => .uint64
  -- DML has no boolean tensors
  | .bool => .uint32
  | .other _ => .unknown

/-- The tensor type of a value, without dimensions when ORT has no shape. A dimension that is not
known is negative. -/
structure TensorType where
  elemType : OnnxDataType
  dims : Option (List Int)
  deriving DecidableEq, Repr

/-- An allocated tensor. -/
structure OrtTensor where
  elemType : OnnxDataType
  dims : List Nat
  data : List UInt8
  deriving DecidableEq, Repr

/-- A named value with its type, if there is one. -/
abbrev Port := String × Option TensorType

structure NodeView where
  node : Node
  inputTypes : List (Option TensorType)
  outputTypes : List (Option TensorType)
  deriving DecidableEq, Repr

namespace NodeView

def inputPorts (n : NodeView) : List Port :=
  (getNodeInputNames n.node).zip n.inputTypes

def outputPorts (n : NodeView) : List Port :=
  (getNodeOutputNames n.node).zip n.outputTypes

end NodeView

/-- What `BuildSubgraphInfo` reads of a graph. An initializer that is not allocated has no tensor. -/
structure SubgraphView where
  graphInputs : List Port
  graphOutputs : List Port
  initializers : List (String × Option OrtTensor)
  nodes : List NodeView
  deriving DecidableEq, Repr

/-- `resolved_shapes`. -/
abbrev ResolvedShapes := String → Option (List Int)

/-! ## Seeding -/

/-- `static_cast<uint32_t>(dim > 0 ? dim : 1)`. -/
def seedSize (dim : Int) : Nat :=
  if 0 < dim then (dim % 2 ^ 32).toNat else 1

def seedInfo (elemType : OnnxDataType) (dims : List Int) : DmlTensorInfo :=
  { makeTensorInfo (dims.map seedSize) (onnxDtypeToDml elemType) with originalRank := dims.length }

/-- What every seeding loop does with a name and what it has found for it. -/
def seed (overwrite : Bool) (shapes : ValueShapes) (name : String)
    (source : Option (OnnxDataType × List Int)) : ValueShapes :=
  match source with
  | none => shapes
  | some (elemType, dims) =>
    if onnxDtypeToDml elemType = .unknown ∨ (overwrite = false ∧ (shapes name).isSome) then shapes
    else Function.update shapes name (some (seedInfo elemType dims))

/-- An allocated initializer. -/
def initializerSource (value : Option OrtTensor) : Option (OnnxDataType × List Int) :=
  value.map fun tensor => (tensor.elemType, tensor.dims.map Int.ofNat)

/-- A named graph input with a shape; it replaces what an initializer has left. -/
def graphInputSource (port : Port) : Option (OnnxDataType × List Int) :=
  if port.1 = "" then none
  else port.2.bind fun type => type.dims.map fun dims => (type.elemType, dims)

/-- A named input or output of a node, with positive dimensions. -/
def portSource (port : Port) : Option (OnnxDataType × List Int) :=
  if port.1 = "" then none
  else port.2.bind fun type =>
    (type.dims.filter fun dims => dims.all (0 < ·)).map fun dims => (type.elemType, dims)

/-- `SeedFromVi`: the element type from ORT, the dimensions from `resolved_shapes`. -/
def resolvedSource (resolved : ResolvedShapes) (port : Port) : Option (OnnxDataType × List Int) :=
  (resolved port.1).bind fun dims => port.2.map fun type => (type.elemType, dims)

/-! ## The writers -/

/-- What is kept while the groups of a graph are translated. -/
structure ShapeRecords where
  valueShapes : ValueShapes := fun _ => none
  resolvedShapes : ResolvedShapes := fun _ => none

inductive ShapeStep
  /-- `BuildSubgraphInfo` begins with an empty map. -/
  | newGroup
  | initializer (name : String) (value : Option OrtTensor)
  | graphInput (port : Port)
  | port (port : Port)
  | resolvedPort (port : Port)
  | writeBack (name : String) (tensor : DmlTensorInfo)
  /-- `GetCapabilityImpl` finds out the shape of a value. -/
  | resolve (name : String) (dims : List Int)
  | exportDims
  deriving DecidableEq, Repr

/-- `ExportDims`, for all names. The source also looks the names up that a consumer uses for an
output of another name; names are the same at both ends here. -/
def exportDims (shapes : ValueShapes) (resolved : ResolvedShapes) : ResolvedShapes := fun name =>
  match resolved name with
  | some dims => some dims
  | none => (shapes name).map fun info => info.sizes.map Int.ofNat

namespace ShapeRecords

def step (s : ShapeRecords) : ShapeStep → ShapeRecords
  | .newGroup => { s with valueShapes := fun _ => none }
  | .initializer name value =>
    { s with valueShapes := seed false s.valueShapes name (initializerSource value) }
  | .graphInput port =>
    { s with valueShapes := seed true s.valueShapes port.1 (graphInputSource port) }
  | .port port => { s with valueShapes := seed false s.valueShapes port.1 (portSource port) }
  | .resolvedPort port =>
    { s with
      valueShapes := seed false s.valueShapes port.1 (resolvedSource s.resolvedShapes port) }
  | .writeBack name tensor => { s with valueShapes := writeBack s.valueShapes [name] [tensor] }
  | .resolve name dims =>
    { s with resolvedShapes := Function.update s.resolvedShapes name (some dims) }
  | .exportDims => { s with resolvedShapes := exportDims s.valueShapes s.resolvedShapes }

def run (s : ShapeRecords) (steps : List ShapeStep) : ShapeRecords :=
  steps.foldl step s

/-- The writers as a machine. -/
def machine : Machine ShapeRecords ShapeStep Unit where
  step := fun s c => some (s.step c, ())

end ShapeRecords

/-! ## The functions of the source -/

namespace SubgraphView

variable (view : SubgraphView)

def outputPorts : List Port :=
  view.nodes.flatMap NodeView.outputPorts

def inputPorts : List Port :=
  view.nodes.flatMap NodeView.inputPorts

/-- The loops of `BuildSubgraphInfo`, in order. -/
def seedSteps : List ShapeStep :=
  view.initializers.map (fun init => .initializer init.1 init.2) ++
    view.graphInputs.map .graphInput ++ view.outputPorts.map .port ++ view.inputPorts.map .port ++
    view.graphInputs.map .resolvedPort ++ view.outputPorts.map .resolvedPort ++
    (view.inputPorts.filter fun port => port.1 != "").map .resolvedPort

end SubgraphView

/-- `BuildSubgraphInfo`: `value_shapes` at the beginning of a group. -/
def buildValueShapes (view : SubgraphView) (resolved : ResolvedShapes) : ValueShapes :=
  let shapes := view.initializers.foldl
    (fun shapes init => seed false shapes init.1 (initializerSource init.2)) fun _ => none
  let shapes := view.graphInputs.foldl
    (fun shapes port => seed true shapes port.1 (graphInputSource port)) shapes
  let seedPort := fun shapes port => seed false shapes port.1 (portSource port)
  let shapes := view.inputPorts.foldl seedPort (view.outputPorts.foldl seedPort shapes)
  let seedFromVi := fun shapes port => seed false shapes port.1 (resolvedSource resolved port)
  let shapes := view.outputPorts.foldl seedFromVi (view.graphInputs.foldl seedFromVi shapes)
  (view.inputPorts.filter fun port => port.1 != "").foldl seedFromVi shapes

/-- The write-back loop of one node. -/
def writeBackSteps (outputNames : List String) (tensors : List DmlTensorInfo) : List ShapeStep :=
  (outputNames.zip tensors).map fun entry => .writeBack entry.1 entry.2

/-- The tensor is an output that a translator of the registry gives. -/
def OpTranslatorRegistry.Outputs {D : Type} (registry : OpTranslatorRegistry D)
    (tensor : DmlTensorInfo) : Prop :=
  ∃ op, ∃ translator ∈ registry op, ∃ node shapes initializers,
    ∃ translated ∈ translator node shapes initializers, tensor ∈ translated.outputTensors

/-- A write-back of the registry. -/
def OpTranslatorRegistry.WritesBack {D : Type} (registry : OpTranslatorRegistry D)
    (step : ShapeStep) : Prop :=
  ∃ name tensor, step = .writeBack name tensor ∧ registry.Outputs tensor

namespace SubgraphShapesLemmas

open ShapeRecords TranslationWalkLemmas

@[simp] theorem run_nil (s : ShapeRecords) : s.run [] = s := rfl

@[simp] theorem run_cons (s : ShapeRecords) (c : ShapeStep) (cs : List ShapeStep) :
    s.run (c :: cs) = (s.step c).run cs := rfl

theorem run_append (s : ShapeRecords) (cs cs' : List ShapeStep) :
    s.run (cs ++ cs') = (s.run cs).run cs' := List.foldl_append

/-- A loop whose turns write into `value_shapes` only. -/
theorem run_map {X : Type} (turn : X → ShapeStep)
    (write : ResolvedShapes → ValueShapes → X → ValueShapes)
    (hturn : ∀ x (s : ShapeRecords), s.step (turn x) =
      { s with valueShapes := write s.resolvedShapes s.valueShapes x })
    (xs : List X) (s : ShapeRecords) : s.run (xs.map turn) =
      { s with valueShapes := xs.foldl (write s.resolvedShapes) s.valueShapes } := by
  induction xs generalizing s with
  | nil => rfl
  | cons x xs ih =>
    rw [List.map_cons, run_cons, hturn, ih]
    rfl

variable {D : Type} {registry : OpTranslatorRegistry D}

theorem elide_valueShapes (t : Translation D) (inputNames outputNames : List String) :
    (elide t inputNames outputNames).valueShapes = t.valueShapes := by
  rcases elide_cases t inputNames outputNames with
    heq | ⟨src, -, ⟨producer, -, heq⟩ | ⟨-, heq⟩⟩
  all_goals rw [heq]

theorem turn_valueShapes (t : Translation D) (node : Node) (translated : TranslatedOp D) :
    (turn t node translated).valueShapes =
      writeBack t.valueShapes (getNodeOutputNames node) translated.outputTensors := by
  unfold turn
  dsimp only
  split
  · rw [elide_valueShapes]
  · rw [pushNode_eq]

theorem run_writeBack (outputNames : List String) (tensors : List DmlTensorInfo)
    (s : ShapeRecords) :
    s.run (writeBackSteps outputNames tensors) =
      { s with valueShapes := writeBack s.valueShapes outputNames tensors } :=
  run_map _ (fun _ shapes (entry : String × DmlTensorInfo) =>
    writeBack shapes [entry.1] [entry.2]) (fun _ _ => rfl) _ s

/-- The write-backs of one node. -/
theorem writesBack_of_mem {op : String} {translator : OpTranslator D}
    (hop : registry op = some translator) {node : Node} {shapes : ValueShapes}
    {initializers : String → Option Initializer} {translated : TranslatedOp D}
    (htranslated : translator node shapes initializers = some translated) :
    ∀ step ∈ writeBackSteps (getNodeOutputNames node) translated.outputTensors,
      registry.WritesBack step := by
  intro step hstep
  obtain ⟨entry, hentry, rfl⟩ := List.mem_map.1 hstep
  exact ⟨entry.1, entry.2, rfl, op, translator, hop, node, shapes, initializers, translated,
    htranslated, (List.of_mem_zip hentry).2⟩

end SubgraphShapesLemmas

open SubgraphShapesLemmas ShapeRecords TranslationWalkLemmas

theorem buildValueShapes_run (view : SubgraphView) (s : ShapeRecords) :
    s.run (.newGroup :: view.seedSteps) =
      { s with valueShapes := buildValueShapes view s.resolvedShapes } := by
  unfold SubgraphView.seedSteps
  simp only [run_cons, run_append]
  rw [run_map _ (fun _ shapes (init : String × Option OrtTensor) =>
      seed false shapes init.1 (initializerSource init.2)) fun _ _ => rfl,
    run_map .graphInput (fun _ shapes port => seed true shapes port.1 (graphInputSource port))
      fun _ _ => rfl]
  iterate 2
    rw [run_map .port (fun _ shapes port => seed false shapes port.1 (portSource port))
      fun _ _ => rfl]
  iterate 3
    rw [run_map .resolvedPort (fun resolved shapes port =>
      seed false shapes port.1 (resolvedSource resolved port)) fun _ _ => rfl]
  rfl

theorem exportDims_run (s : ShapeRecords) :
    s.run [.exportDims] = { s with resolvedShapes := exportDims s.valueShapes s.resolvedShapes } :=
  rfl

section

variable {D : Type} {registry : OpTranslatorRegistry D} {sg : SubgraphInfo} {nodes : List Node}

/-- The walk of `Compile` writes back, and does nothing else to the shapes. -/
theorem translateNodes_run {t : Translation D} (h : translateNodes registry sg nodes = some t)
    (resolved : ResolvedShapes) :
    ∃ steps : List ShapeStep, (∀ step ∈ steps, registry.WritesBack step) ∧
      run ⟨sg.valueShapes, resolved⟩ steps = ⟨t.valueShapes, resolved⟩ := by
  have hwalk : ∀ (ns : List Node) (t₀ t : Translation D),
      ns.foldlM (translateNode registry sg.allInitializers) t₀ = some t →
      ∃ steps : List ShapeStep, (∀ step ∈ steps, registry.WritesBack step) ∧
        run ⟨t₀.valueShapes, resolved⟩ steps = ⟨t.valueShapes, resolved⟩ := by
    intro ns
    induction ns with
    | nil =>
      intro t₀ t h
      obtain rfl : t₀ = t := Option.some.inj h
      exact ⟨[], by simp, rfl⟩
    | cons n ns ih =>
      intro t₀ t h
      rw [List.foldlM_cons, Option.bind_eq_bind, Option.bind_eq_some_iff] at h
      obtain ⟨t₁, hturn, hrest⟩ := h
      obtain ⟨translated, ⟨translator, hop, htranslated⟩, rfl⟩ := translateNode_eq_some.1 hturn
      obtain ⟨steps, hsteps, hrun⟩ := ih _ t hrest
      refine ⟨writeBackSteps (getNodeOutputNames n) translated.outputTensors ++ steps,
        fun step hstep => ?_, ?_⟩
      · exact (List.mem_append.1 hstep).elim (writesBack_of_mem hop htranslated step) (hsteps step)
      · rw [run_append, run_writeBack, ← hrun, turn_valueShapes]
  exact hwalk nodes _ t h

/-- So does the walk of `TryTranslateNodes`. -/
theorem tryTranslateNodes_run {ok : Bool} {shapes : ValueShapes}
    (h : tryTranslateNodes registry sg nodes = some (ok, shapes)) (resolved : ResolvedShapes) :
    ∃ steps : List ShapeStep, (∀ step ∈ steps, registry.WritesBack step) ∧
      run ⟨sg.valueShapes, resolved⟩ steps = ⟨shapes, resolved⟩ := by
  have hwalk : ∀ (ns : List Node) (s₀ s : Bool × ValueShapes),
      ns.foldlM (tryTranslateNode registry sg.allInitializers) s₀ = some s →
      ∃ steps : List ShapeStep, (∀ step ∈ steps, registry.WritesBack step) ∧
        run ⟨s₀.2, resolved⟩ steps = ⟨s.2, resolved⟩ := by
    intro ns
    induction ns with
    | nil =>
      intro s₀ s h
      obtain rfl : s₀ = s := Option.some.inj h
      exact ⟨[], by simp, rfl⟩
    | cons n ns ih =>
      intro s₀ s h
      rw [List.foldlM_cons, Option.bind_eq_bind, Option.bind_eq_some_iff] at h
      obtain ⟨s₁, hturn, hrest⟩ := h
      obtain ⟨steps, hsteps, hrun⟩ := ih _ s hrest
      unfold tryTranslateNode at hturn
      cases hop : registry n.opType with
      | none => simp [hop] at hturn
      | some translator =>
        cases htranslated : translator n s₀.2 sg.allInitializers with
        | none =>
          -- a refused node is passed over
          simp only [hop, htranslated, Option.some.injEq] at hturn
          subst hturn
          exact ⟨steps, hsteps, hrun⟩
        | some translated =>
          simp only [hop, htranslated, Option.some.injEq] at hturn
          subst hturn
          refine ⟨writeBackSteps (getNodeOutputNames n) translated.outputTensors ++ steps,
            fun step hstep => ?_, ?_⟩
          · exact (List.mem_append.1 hstep).elim (writesBack_of_mem hop htranslated step)
              (hsteps step)
          · rw [run_append, run_writeBack, ← hrun]
  exact hwalk nodes _ _ h

end

end AmdGpuEp.DirectML
