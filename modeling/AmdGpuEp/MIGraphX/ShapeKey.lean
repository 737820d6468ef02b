import AmdGpuEp.Lib.Transcript

/-!
# The shape part of the .mxr file name

The digest of the input shapes is computed in two places of `mgx_ep.cc`:
`CreateNodeComputeInfoFromGraph` walks the inputs of the sorted graph, and
`NodeComputeInfo::Compute` walks `input_name_indices`, an `unordered_map` of the
inputs of the fused node that are not constant initializers.

Results:
1. `runShapes_separate`: for one iteration order, different shapes of a hashed
   input give different digests, whatever the ranks.
2. `shapeKey_sound_iff`: the two places agree, and the key separates
   assignments, for every iteration order exactly when the graph has at most
   one input and none of its inputs is a constant initializer.
-/

namespace AmdGpuEp.MIGraphX

/-! ## Inputs and their shapes -/

/-- An input of the fused graph: `GetName` and `IsConstantInitializer`. -/
structure FusedInput where
  name : String
  isConstantInitializer : Bool := false
  deriving DecidableEq, Repr

/-- The inputs of a fused graph. A graph lists a name once. -/
structure FusedInputs where
  inputs : List FusedInput
  names_nodup : (inputs.map FusedInput.name).Nodup

/-- The keys of `input_name_indices`. -/
def FusedInputs.runtimeNames (f : FusedInputs) : List String :=
  (f.inputs.filter fun i => !i.isConstantInitializer).map FusedInput.name

/-- An order in which the `unordered_map` may be walked: each key once. -/
def FusedInputs.IterationOrder (f : FusedInputs) (order : List String) : Prop :=
  order.Perm f.runtimeNames

instance (f : FusedInputs) (order : List String) : Decidable (f.IterationOrder order) :=
  inferInstanceAs (Decidable (order.Perm _))

/-- A shape for every input name; at run time the shape after batch padding. -/
abbrev Shapes := String → List Int64

/-- `get_input_output_names`: the shapes are known at compile time when there are inputs and each
of them has a rank above zero and no unknown dimension. -/
def hasInputShape (f : FusedInputs) (shapes : Shapes) : Bool :=
  !f.inputs.isEmpty && f.inputs.all fun i =>
    !(shapes i.name).isEmpty && (shapes i.name).all fun dim => dim != -1

/-! ## The two digests -/

variable {D : Type*} (H : IdealHash D)

/-- The digest of `CreateNodeComputeInfoFromGraph`, computed when the shapes are known. -/
def compileShapesHash (f : FusedInputs) (shapes : Shapes) : Option D :=
  if hasInputShape f shapes then
    some (H.digest (f.inputs.map fun i => wordsBytes (shapes i.name)))
  else none

/-- The digest of `NodeComputeInfo::Compute`. -/
def runShapesHash (order : List String) (shapes : Shapes) : D :=
  H.digest (order.map fun name => wordsBytes (shapes name))

/-- The shape part of the key depends on the assignment only: compile time and run time agree,
and run-time keys of assignments that differ on an input differ. -/
structure ShapeKeySound (f : FusedInputs) : Prop where
  agree : ∀ order, f.IterationOrder order → ∀ shapes, hasInputShape f shapes = true →
    compileShapesHash H f shapes = some (runShapesHash H order shapes)
  separate : ∀ order order', f.IterationOrder order → f.IterationOrder order' →
    ∀ shapes shapes', runShapesHash H order shapes = runShapesHash H order' shapes' →
      ∀ i ∈ f.inputs, shapes i.name = shapes' i.name

/-! ## Results -/

/-- Walked in one order, the digest determines the shape of every input that is walked. -/
theorem runShapes_separate {order : List String} {shapes shapes' : Shapes}
    (h : runShapesHash H order shapes = runShapesHash H order shapes') :
    ∀ name ∈ order, shapes name = shapes' name := by
  intro name hname
  have hlist := H.digest_inj h
  exact wordsBytes_inj (List.map_inj_left.1 hlist name hname)

/-- With no constant input and one input at most there is only one order to walk. -/
theorem shapeKey_sound_of_single {f : FusedInputs} (hlen : f.inputs.length ≤ 1)
    (hconst : ∀ i ∈ f.inputs, i.isConstantInitializer = false) : ShapeKeySound H f := by
  have hnames : f.runtimeNames = f.inputs.map FusedInput.name := by
    have : f.inputs.filter (fun i => !i.isConstantInitializer) = f.inputs := by
      rw [List.filter_eq_self]
      intro i hi
      rw [hconst i hi]
      rfl
    rw [FusedInputs.runtimeNames, this]
  have horder : ∀ order, f.IterationOrder order → order = f.inputs.map FusedInput.name := by
    intro order ho
    rw [FusedInputs.IterationOrder, hnames] at ho
    have hlen' : order.length ≤ 1 := by
      rw [ho.length_eq, List.length_map]
      exact hlen
    match order, hlen' with
    | [], _ => exact (List.nil_perm.1 ho).symm
    | [x], _ => exact List.singleton_perm.1 ho
  constructor
  · intro order ho shapes hshape
    rw [horder order ho, compileShapesHash, if_pos hshape, runShapesHash, List.map_map]
    rfl
  · intro order order' ho ho' shapes shapes' h i hi
    rw [horder order ho, horder order' ho'] at h
    exact runShapes_separate H h i.name (List.mem_map_of_mem hi)

theorem agree_items {f : FusedInputs} (h : ShapeKeySound H f) {order : List String}
    (ho : f.IterationOrder order) {shapes : Shapes} (hshape : hasInputShape f shapes = true) :
    f.inputs.map (fun i => wordsBytes (shapes i.name)) =
      order.map fun name => wordsBytes (shapes name) := by
  have := h.agree order ho shapes hshape
  rw [compileShapesHash, if_pos hshape, runShapesHash] at this
  exact H.digest_inj (Option.some.inj this)

theorem no_constant_input {f : FusedInputs} (h : ShapeKeySound H f) :
    ∀ i ∈ f.inputs, i.isConstantInitializer = false := by
  intro i hi
  have hne : f.inputs ≠ [] := List.ne_nil_of_mem hi
  -- all inputs of shape `[1]`: the two transcripts must have the same length
  have hshape : hasInputShape f (fun _ => [1]) = true := by
    simp [hasInputShape, hne]
  have hlen := congrArg List.length (agree_items H h (List.Perm.refl _) hshape)
  simp only [List.length_map, FusedInputs.runtimeNames] at hlen
  have := List.length_filter_eq_length_iff.1 hlen.symm i hi
  simpa using this

/-- The shape part of the key is sound for every iteration order exactly for graphs with at most
one input and without constant inputs. -/
theorem shapeKey_sound_iff (f : FusedInputs) :
    ShapeKeySound H f ↔
      f.inputs.length ≤ 1 ∧ ∀ i ∈ f.inputs, i.isConstantInitializer = false := by
  refine ⟨fun h => ⟨?_, no_constant_input H h⟩, fun h => shapeKey_sound_of_single H h.1 h.2⟩
  by_contra hlen
  have hconst := no_constant_input H h
  obtain ⟨i, j, rest, hinputs⟩ : ∃ i j rest, f.inputs = i :: j :: rest := by
    match hf : f.inputs with
    | [] => simp [hf] at hlen
    | [_] => simp [hf] at hlen
    | i :: j :: rest => exact ⟨i, j, rest, rfl⟩
  have hne : j.name ≠ i.name := by
    have := f.names_nodup
    rw [hinputs] at this
    exact fun e => (List.nodup_cons.1 this).1 (by simp [e])
  -- the map may be walked with its first two keys exchanged
  have hnames : f.runtimeNames = f.inputs.map FusedInput.name := by
    rw [FusedInputs.runtimeNames, List.filter_eq_self.2 fun i hi => by simp [hconst i hi]]
  have horder : f.IterationOrder (j.name :: i.name :: rest.map FusedInput.name) := by
    rw [FusedInputs.IterationOrder, hnames, hinputs]
    exact List.Perm.swap _ _ _
  have hshape : hasInputShape f (fun n => if n = i.name then [1] else [2]) = true := by
    simp only [hasInputShape, hinputs, Bool.and_eq_true, List.all_eq_true]
    refine ⟨rfl, fun k _ => ?_⟩
    split <;> simp
  have hitems := agree_items H h horder hshape
  rw [hinputs] at hitems
  have hhead := (List.cons.inj hitems).1
  simp only [if_true, if_neg hne] at hhead
  exact absurd (wordsBytes_inj hhead) (by decide)

/-- Two inputs, in the order of the graph. -/
def inputsXY : FusedInputs where
  inputs := [{ name := "x" }, { name := "y" }]
  names_nodup := by decide

/-- Walked as `y, x`, the map gives the shapes `x : [2, 3]`, `y : [3, 2]` the key that compile
time gives to `x : [3, 2]`, `y : [2, 3]`. -/
theorem inputsXY_not_sound :
    inputsXY.IterationOrder ["y", "x"] ∧
      compileShapesHash IdealHash.free inputsXY
          (fun n => if n = "x" then [3, 2] else [2, 3]) =
        some (runShapesHash IdealHash.free ["y", "x"]
          (fun n => if n = "x" then [2, 3] else [3, 2])) ∧
      ¬ ShapeKeySound IdealHash.free inputsXY := by
  refine ⟨by decide, by decide, fun h => ?_⟩
  have := h.agree ["y", "x"] (by decide) (fun n => if n = "x" then [3, 2] else [2, 3]) (by decide)
  revert this
  decide

end AmdGpuEp.MIGraphX
