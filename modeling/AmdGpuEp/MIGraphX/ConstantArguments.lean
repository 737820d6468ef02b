import AmdGpuEp.Ort.Graph

/-!
# Arguments that can be evaluated before a run

`CanEvalNodeArgument` of `mgx_utils.cc`: an argument of a node is taken for one that
MIGraphX can evaluate while it compiles when a walk back from it, over the inputs that
nodes list, meets initializers and `Shape` nodes only.

What operators compute is not fixed here: they are functions of what a node reads and of
what it draws, and all that is known of them is which ones draw and which ones give
outputs whose shapes follow from the shapes they read.

Results:
1. `canEvalValue_total`: the walk ends on every acyclic graph.
2. `canEvalValue_iff`: what the walk accepts.
3. `invariant_iff`: the values that no two runs on inputs of the same shapes tell apart.
4. `canEvalNodeArgument_sound_iff`: the arguments that are judged right.
-/

namespace AmdGpuEp.MIGraphX

/-- `Ort::ConstGraph` with its initializers. An initializer that the caller may override is among the
inputs, too. -/
structure InitializedGraph extends Graph where
  initializers : List String

/-! ## The walk -/

section

variable (g : InitializedGraph)

/-- What is said of a value, when `evalProducer` judges its producer. -/
def canEvalInput (evalProducer : Node → Option Bool) (name : String) : Option Bool :=
  if name ∈ g.initializers then some true
  else if name ∈ g.inputs then some false
  else
    match g.producer name with
    | none => some false
    | some inputNode => evalProducer inputNode

/-- `CanEvalShapeGeneral`: every input that a node lists has to be evaluable. Nothing is said when
the fuel does not suffice. -/
def canEvalShapeGeneral : Nat → Node → Option Bool
  | 0, _ => none
  | fuel + 1, node =>
    if node.opType = "Shape" then some true
    else
      node.inputs.reduceOption.allM (canEvalInput g fun inputNode =>
        if inputNode.opType = "Shape" then some true else canEvalShapeGeneral fuel inputNode)

/-- What is said of an argument. -/
def canEvalValue (fuel : Nat) (name : String) : Option Bool :=
  canEvalInput g (canEvalShapeGeneral g fuel) name

/-- `CanEvalNodeArgument`. The callers ask for inputs that are given. -/
def canEvalNodeArgument (fuel : Nat) (node : Node) (indices : List Nat) : Option Bool :=
  indices.allM fun index =>
    match node.inputs.reduceOption[index]? with
    | none => some false
    | some name => canEvalValue g fuel name

end

/-! ## Runs -/

/-- The values that a node reads, with those that its bodies capture. -/
def readValues (n : Node) : List String :=
  n.inputs.reduceOption ++ n.implicitInputs

/-- The operator `Shape`. -/
def IsShape (n : Node) : Prop :=
  n.opType = "Shape" ∧ n.domain = ""

/-- What operators compute: the output in a slot, from the inputs, the captured values and what is
drawn. -/
structure Operators where
  Value : Type
  Shape : Type
  Draw : Type
  shape : Value → Shape
  apply : Node → List (Option Value) → List Value → Draw → Nat → Value

section

variable (random keepsShapes : Node → Prop)

/-- What is known of them: `Shape` reads shapes only, an operator that is not random does not look at
what is drawn, and the shapes of some outputs follow from the shapes that are read. -/
structure Operators.Lawful (o : Operators) : Prop where
  shapes : ∀ {n inputs inputs' captured captured' d d'} k, IsShape n →
    inputs.map (Option.map o.shape) = inputs'.map (Option.map o.shape) →
    captured.map o.shape = captured'.map o.shape →
    o.apply n inputs captured d k = o.apply n inputs' captured' d' k
  draws : ∀ {n} inputs captured d d' k, ¬ random n →
    o.apply n inputs captured d k = o.apply n inputs captured d' k
  keeps : ∀ {n inputs inputs' captured captured' d d'} k, keepsShapes n →
    inputs.map (Option.map o.shape) = inputs'.map (Option.map o.shape) →
    captured.map o.shape = captured'.map o.shape →
    o.shape (o.apply n inputs captured d k) = o.shape (o.apply n inputs' captured' d' k)

/-- A run of a graph: what is fed to its inputs, what its nodes draw, what the values of an outer
graph are, and the values that follow. -/
structure Run (o : Operators) (g : InitializedGraph) (constants : String → o.Value) where
  fed : String → o.Value
  outer : String → o.Value
  draw : Nat → o.Draw
  value : String → o.Value
  computed : ∀ v, value v =
    if v ∈ g.inputs then fed v
    else if v ∈ g.initializers then constants v
    else
      match g.producer v with
      | none => outer v
      | some p => o.apply p (p.inputs.map (Option.map value)) (p.implicitInputs.map value)
        (draw p.id) (p.outputs.idxOf (some v))

/-- No two runs on inputs of the same shapes tell the value apart, whatever operators compute. -/
def Invariant (g : InitializedGraph) (v : String) : Prop :=
  ∀ o : Operators, o.Lawful random keepsShapes → ∀ constants, ∀ r r' : Run o g constants,
    (∀ u ∈ g.inputs, o.shape (r.value u) = o.shape (r'.value u)) → r.value v = r'.value v

/-! ## Values that are fixed -/

inductive Aspect
  | value
  | shape
  deriving DecidableEq, Repr

/-- The value is fixed by the graph, or its shape is fixed by the shapes of the inputs. -/
inductive Fixed (g : InitializedGraph) : Aspect → String → Prop
  | initializer {v : String} (hin : v ∉ g.inputs) (hinit : v ∈ g.initializers) : Fixed g .value v
  | input {v : String} (hin : v ∈ g.inputs) : Fixed g .shape v
  | shapeOf {v : String} {p : Node} (hin : v ∉ g.inputs) (hinit : v ∉ g.initializers)
      (hp : g.producer v = some p) (hshape : IsShape p)
      (hreads : ∀ w ∈ readValues p, Fixed g .shape w) : Fixed g .value v
  | node {v : String} {p : Node} (hin : v ∉ g.inputs) (hinit : v ∉ g.initializers)
      (hp : g.producer v = some p) (hrandom : ¬ random p)
      (hreads : ∀ w ∈ readValues p, Fixed g .value w) : Fixed g .value v
  | keeps {v : String} {p : Node} (hin : v ∉ g.inputs) (hinit : v ∉ g.initializers)
      (hp : g.producer v = some p) (hkeeps : keepsShapes p)
      (hreads : ∀ w ∈ readValues p, Fixed g .shape w) : Fixed g .shape v
  | ofValue {v : String} (h : Fixed g .value v) : Fixed g .shape v

end

/-! ## Fixed values -/

namespace ConstantArgumentsLemmas

section

variable {random keepsShapes : Node → Prop} {g : InitializedGraph} {o : Operators}
  {constants : String → o.Value}

/-- Two runs agree on an aspect of a value. -/
def Agree (r r' : Run o g constants) : Aspect → String → Prop
  | .value, v => r.value v = r'.value v
  | .shape, v => o.shape (r.value v) = o.shape (r'.value v)

theorem value_produced (r : Run o g constants) {v : String} {p : Node} (hin : v ∉ g.inputs)
    (hinit : v ∉ g.initializers) (hp : g.producer v = some p) :
    r.value v = o.apply p (p.inputs.map (Option.map r.value)) (p.implicitInputs.map r.value)
      (r.draw p.id) (p.outputs.idxOf (some v)) :=
  (r.computed v).trans (by rw [if_neg hin, if_neg hinit, hp])

theorem map_inputs_congr {α : Type} {f f' : String → α} {n : Node}
    (h : ∀ w ∈ readValues n, f w = f' w) :
    n.inputs.map (Option.map f) = n.inputs.map (Option.map f') := by
  refine List.map_congr_left fun input hinput => ?_
  cases input with
  | none => rfl
  | some w =>
    have hw := h w (List.mem_append_left _ (List.reduceOption_mem_iff.2 hinput))
    rw [Option.map_some, Option.map_some, hw]

theorem map_captured_congr {α : Type} {f f' : String → α} {n : Node}
    (h : ∀ w ∈ readValues n, f w = f' w) :
    n.implicitInputs.map f = n.implicitInputs.map f' :=
  List.map_congr_left fun w hw => h w (List.mem_append_right _ hw)

theorem map_map_inputs {α β : Type} (s : α → β) (f : String → α) (inputs : List (Option String)) :
    (inputs.map (Option.map f)).map (Option.map s) = inputs.map (Option.map (s ∘ f)) := by
  rw [List.map_map, Option.map_comp_map]

/-- A node that two runs give inputs of the same shapes. -/
theorem same_shapes {r r' : Run o g constants} {n : Node}
    (h : ∀ w ∈ readValues n, Agree r r' .shape w) :
    (n.inputs.map (Option.map r.value)).map (Option.map o.shape) =
        (n.inputs.map (Option.map r'.value)).map (Option.map o.shape) ∧
      (n.implicitInputs.map r.value).map o.shape = (n.implicitInputs.map r'.value).map o.shape := by
  rw [map_map_inputs, map_map_inputs, List.map_map, List.map_map]
  exact ⟨map_inputs_congr h, map_captured_congr h⟩

/-- Fixed aspects are the same in all runs on inputs of the same shapes. -/
theorem agree_of_fixed (ho : o.Lawful random keepsShapes) {r r' : Run o g constants}
    (hshapes : ∀ u ∈ g.inputs, o.shape (r.value u) = o.shape (r'.value u)) {a : Aspect} {v : String}
    (h : Fixed random keepsShapes g a v) : Agree r r' a v := by
  induction h with
  | @initializer v hin hinit =>
    show r.value v = r'.value v
    rw [r.computed, r'.computed, if_neg hin, if_pos hinit, if_neg hin, if_pos hinit]
  | input hin => exact hshapes _ hin
  | @shapeOf v p hin hinit hp hshape _ ih =>
    obtain ⟨hinputs, hcaptured⟩ := same_shapes ih
    show r.value v = r'.value v
    rw [value_produced r hin hinit hp, value_produced r' hin hinit hp]
    exact ho.shapes _ hshape hinputs hcaptured
  | @node v p hin hinit hp hrandom _ ih =>
    show r.value v = r'.value v
    rw [value_produced r hin hinit hp, value_produced r' hin hinit hp, map_inputs_congr ih,
      map_captured_congr ih]
    exact ho.draws _ _ _ _ _ hrandom
  | @keeps v p hin hinit hp hkeeps _ ih =>
    obtain ⟨hinputs, hcaptured⟩ := same_shapes ih
    show o.shape (r.value v) = o.shape (r'.value v)
    rw [value_produced r hin hinit hp, value_produced r' hin hinit hp]
    exact ho.keeps _ hkeeps hinputs hcaptured
  | ofValue _ ih => exact congrArg o.shape ih

/-! ## Operators that carry what differs -/

/-- A value of two marks: it differs, and its shape differs. -/
abbrev Marks := Prop × Prop

/-- The output of a node differs when something that it looks at does. -/
def Differs (random : Node → Prop) (n : Node) (reads : List Marks) (d : Prop) : Prop :=
  IsShape n ∧ (∃ x ∈ reads, x.2) ∨
    ¬ IsShape n ∧ ((∃ x ∈ reads, x.1 ∨ x.2) ∨ random n ∧ d)

def ShapeDiffers (random keepsShapes : Node → Prop) (n : Node) (reads : List Marks) (d : Prop) :
    Prop :=
  keepsShapes n ∧ (∃ x ∈ reads, x.2) ∨ ¬ keepsShapes n ∧ Differs random n reads d

/-- Operators that compute these marks. -/
def marking (random keepsShapes : Node → Prop) : Operators where
  Value := Marks
  Shape := Prop
  Draw := Prop
  shape := Prod.snd
  apply n inputs captured d _ :=
    (Differs random n (inputs.reduceOption ++ captured) d,
      ShapeDiffers random keepsShapes n (inputs.reduceOption ++ captured) d)

theorem exists_snd_iff {inputs inputs' : List (Option Marks)} {captured captured' : List Marks}
    (hinputs : inputs.map (Option.map Prod.snd) = inputs'.map (Option.map Prod.snd))
    (hcaptured : captured.map Prod.snd = captured'.map Prod.snd) :
    (∃ x ∈ inputs.reduceOption ++ captured, x.2) ↔
      ∃ x ∈ inputs'.reduceOption ++ captured', x.2 := by
  have hmap : ∀ l : List Marks, (∃ x ∈ l, x.2) ↔ ∃ y ∈ l.map Prod.snd, y := by
    intro l
    constructor
    · rintro ⟨x, hx, h⟩
      exact ⟨x.2, List.mem_map_of_mem hx, h⟩
    · rintro ⟨y, hy, h⟩
      obtain ⟨x, hx, rfl⟩ := List.mem_map.1 hy
      exact ⟨x, hx, h⟩
  rw [hmap, hmap, List.map_append, List.map_append, ← List.reduceOption_map,
    ← List.reduceOption_map, hinputs, hcaptured]

theorem differs_of_isShape {n : Node} {reads reads' : List Marks} {d d' : Prop} (hn : IsShape n)
    (h : (∃ x ∈ reads, x.2) ↔ ∃ x ∈ reads', x.2) :
    Differs random n reads d ↔ Differs random n reads' d' := by
  unfold Differs
  rw [h]
  simp only [hn, true_and, not_true_eq_false, false_and, or_false]

theorem differs_of_not_random {n : Node} {reads : List Marks} {d d' : Prop} (hn : ¬ random n) :
    Differs random n reads d ↔ Differs random n reads d' := by
  unfold Differs
  simp only [hn, false_and]

theorem marking_lawful : (marking random keepsShapes).Lawful random keepsShapes where
  shapes := by
    intro n inputs inputs' captured captured' d d' k hshape hinputs hcaptured
    have hsnd := exists_snd_iff hinputs hcaptured
    have hdiffers : Differs random n _ d ↔ Differs random n _ d' :=
      differs_of_isShape hshape hsnd
    refine Prod.ext (propext hdiffers) (propext ?_)
    exact or_congr (and_congr_right' hsnd) (and_congr_right' hdiffers)
  draws := by
    intro n inputs captured d d' k hrandom
    have hdiffers : Differs random n (inputs.reduceOption ++ captured) d ↔
        Differs random n (inputs.reduceOption ++ captured) d' :=
      differs_of_not_random hrandom
    refine Prod.ext (propext hdiffers) (propext ?_)
    exact or_congr Iff.rfl (and_congr_right' hdiffers)
  keeps := by
    intro n inputs inputs' captured captured' d d' k hkeeps hinputs hcaptured
    have hsnd := exists_snd_iff hinputs hcaptured
    refine propext (or_congr (and_congr_right' hsnd) ?_)
    exact iff_of_false (fun h => h.1 hkeeps) fun h => h.1 hkeeps

/-! ## What is not fixed differs -/

theorem fixed_value_iff {v : String} {p : Node} (hin : v ∉ g.inputs) (hinit : v ∉ g.initializers)
    (hp : g.producer v = some p) :
    Fixed random keepsShapes g .value v ↔
      IsShape p ∧ (∀ w ∈ readValues p, Fixed random keepsShapes g .shape w) ∨
        ¬ random p ∧ ∀ w ∈ readValues p, Fixed random keepsShapes g .value w := by
  constructor
  · intro h
    cases h with
    | initializer _ h => exact absurd h hinit
    | shapeOf _ _ hp' hshape hreads =>
      obtain rfl := Option.some.inj (hp.symm.trans hp')
      exact Or.inl ⟨hshape, hreads⟩
    | node _ _ hp' hrandom hreads =>
      obtain rfl := Option.some.inj (hp.symm.trans hp')
      exact Or.inr ⟨hrandom, hreads⟩
  · rintro (⟨hshape, hreads⟩ | ⟨hrandom, hreads⟩)
    · exact .shapeOf hin hinit hp hshape hreads
    · exact .node hin hinit hp hrandom hreads

theorem fixed_shape_iff {v : String} {p : Node} (hin : v ∉ g.inputs) (hinit : v ∉ g.initializers)
    (hp : g.producer v = some p) :
    Fixed random keepsShapes g .shape v ↔
      keepsShapes p ∧ (∀ w ∈ readValues p, Fixed random keepsShapes g .shape w) ∨
        Fixed random keepsShapes g .value v := by
  constructor
  · intro h
    cases h with
    | input h => exact absurd h hin
    | keeps _ _ hp' hkeeps hreads =>
      obtain rfl := Option.some.inj (hp.symm.trans hp')
      exact Or.inl ⟨hkeeps, hreads⟩
    | ofValue h => exact Or.inr h
  · rintro (⟨hkeeps, hreads⟩ | h)
    · exact .keeps hin hinit hp hkeeps hreads
    · exact .ofValue h

/-- The marks of a value that is not fixed. -/
def marks (random keepsShapes : Node → Prop) (g : InitializedGraph) (v : String) : Marks :=
  (¬ Fixed random keepsShapes g .value v, ¬ Fixed random keepsShapes g .shape v)

theorem reads_marked (f : String → Marks) (n : Node) :
    (n.inputs.map (Option.map f)).reduceOption ++ n.implicitInputs.map f =
      (readValues n).map f := by
  rw [readValues, List.map_append, List.reduceOption_map]

theorem exists_map_iff {α : Type} {f : String → α} {P : α → Prop} {l : List String} :
    (∃ x ∈ l.map f, P x) ↔ ∃ w ∈ l, P (f w) := by
  simp

theorem differs_marks_iff {v : String} {p : Node} (hin : v ∉ g.inputs)
    (hinit : v ∉ g.initializers) (hp : g.producer v = some p) :
    Differs random p ((readValues p).map (marks random keepsShapes g)) True ↔
      ¬ Fixed random keepsShapes g .value v := by
  have hshape : (∃ x ∈ (readValues p).map (marks random keepsShapes g), x.2) ↔
      ¬ ∀ w ∈ readValues p, Fixed random keepsShapes g .shape w := by
    rw [exists_map_iff]
    simp [marks]
  have hvalue : (∃ x ∈ (readValues p).map (marks random keepsShapes g), x.1 ∨ x.2) ↔
      ¬ ∀ w ∈ readValues p, Fixed random keepsShapes g .value w := by
    rw [exists_map_iff]
    simp only [marks, not_forall, exists_prop]
    refine exists_congr fun w => and_congr_right' ⟨fun h => ?_, Or.inl⟩
    exact h.elim id fun hs hfixed => hs (.ofValue hfixed)
  have himp : (∀ w ∈ readValues p, Fixed random keepsShapes g .value w) →
      ∀ w ∈ readValues p, Fixed random keepsShapes g .shape w :=
    fun h w hw => .ofValue (h w hw)
  rw [fixed_value_iff hin hinit hp, Differs, hshape, hvalue]
  by_cases hop : IsShape p
  · simp only [hop, true_and, not_true_eq_false, false_and, or_false]
    exact not_congr ⟨Or.inl, fun h => h.elim id fun hreads => himp hreads.2⟩
  · simp only [hop, false_and, not_false_eq_true, true_and, false_or, and_true]
    rw [not_and_or, not_not, or_comm]

theorem shapeDiffers_marks_iff {v : String} {p : Node} (hin : v ∉ g.inputs)
    (hinit : v ∉ g.initializers) (hp : g.producer v = some p) :
    ShapeDiffers random keepsShapes p ((readValues p).map (marks random keepsShapes g)) True ↔
      ¬ Fixed random keepsShapes g .shape v := by
  have hshape : (∃ x ∈ (readValues p).map (marks random keepsShapes g), x.2) ↔
      ¬ ∀ w ∈ readValues p, Fixed random keepsShapes g .shape w := by
    rw [exists_map_iff]
    simp [marks]
  have himp : Fixed random keepsShapes g .value v →
      ∀ w ∈ readValues p, Fixed random keepsShapes g .shape w := by
    intro h w hw
    rcases (fixed_value_iff hin hinit hp).1 h with ⟨-, hreads⟩ | ⟨-, hreads⟩
    · exact hreads w hw
    · exact .ofValue (hreads w hw)
  rw [fixed_shape_iff hin hinit hp, ShapeDiffers, hshape, differs_marks_iff hin hinit hp]
  tauto

/-- A run from its four kinds of values. -/
def runOf (fed outer : String → o.Value) (draw : Nat → o.Draw) (value : String → o.Value)
    (hfed : ∀ v ∈ g.inputs, value v = fed v)
    (hconstant : ∀ v, v ∉ g.inputs → v ∈ g.initializers → value v = constants v)
    (houter : ∀ v, v ∉ g.inputs → v ∉ g.initializers → g.producer v = none → value v = outer v)
    (hnode : ∀ v p, v ∉ g.inputs → v ∉ g.initializers → g.producer v = some p →
      value v = o.apply p (p.inputs.map (Option.map value)) (p.implicitInputs.map value)
        (draw p.id) (p.outputs.idxOf (some v))) : Run o g constants where
  fed := fed
  outer := outer
  draw := draw
  value := value
  computed v := by
    split
    · next hin => exact hfed v hin
    · next hin =>
      split
      · next hinit => exact hconstant v hin hinit
      · next hinit =>
        split
        · next hp => exact houter v hin hinit hp
        · next p hp => exact hnode v p hin hinit hp

theorem not_differs_plain (random : Node → Prop) (n : Node) :
    (¬ ∃ x ∈ (readValues n).map fun _ => ((False, False) : Marks), x.2) ∧
      ¬ Differs random n ((readValues n).map fun _ => ((False, False) : Marks)) False := by
  have hreads : ¬ ∃ x ∈ (readValues n).map fun _ => ((False, False) : Marks), x.1 ∨ x.2 := by
    rintro ⟨x, hx, h⟩
    obtain ⟨w, -, rfl⟩ := List.mem_map.1 hx
    exact h.elim id id
  have hsnd : ¬ ∃ x ∈ (readValues n).map fun _ => ((False, False) : Marks), x.2 :=
    fun h => hreads (h.imp fun x hx => ⟨hx.1, Or.inr hx.2⟩)
  refine ⟨hsnd, ?_⟩
  rintro (⟨-, h⟩ | ⟨-, h | ⟨-, h⟩⟩)
  · exact hsnd h
  · exact hreads h
  · exact h

/-- What a node computes from the marks `f` of the values. -/
theorem marking_apply (f : String → Marks) (n : Node) (d : Prop) (k : Nat) :
    (marking random keepsShapes).apply n (n.inputs.map (Option.map f)) (n.implicitInputs.map f) d k =
      (Differs random n ((readValues n).map f) d,
        ShapeDiffers random keepsShapes n ((readValues n).map f) d) := by
  rw [← reads_marked]
  rfl

theorem plain_node (n : Node) {k : Nat} :
    (False, False) = (marking random keepsShapes).apply n
      (n.inputs.map (Option.map fun _ => (False, False)))
      (n.implicitInputs.map fun _ => (False, False)) False k := by
  obtain ⟨hsnd, hdiffers⟩ := not_differs_plain random n
  have hshape : ¬ ShapeDiffers random keepsShapes n
      ((readValues n).map fun _ => ((False, False) : Marks)) False := by
    rintro (⟨-, h⟩ | ⟨-, h⟩)
    · exact hsnd h
    · exact hdiffers h
  refine Eq.trans ?_ (marking_apply (fun _ => (False, False)) n False k).symm
  exact Prod.ext (propext (iff_of_false id hdiffers)) (propext (iff_of_false id hshape))

/-- The run where nothing is marked. -/
def plainRun (random keepsShapes : Node → Prop) (g : InitializedGraph) :
    Run (marking random keepsShapes) g fun _ => (False, False) :=
  runOf (fun _ => (False, False)) (fun _ => (False, False)) (fun _ => False)
    (fun _ => (False, False)) (fun _ _ => rfl) (fun _ _ _ => rfl) (fun _ _ _ _ => rfl)
    fun _ p _ _ _ => plain_node p

theorem not_fixed_outer {v : String} (hin : v ∉ g.inputs) (hinit : v ∉ g.initializers)
    (hp : g.producer v = none) :
    ¬ Fixed random keepsShapes g .value v ∧ ¬ Fixed random keepsShapes g .shape v := by
  have hvalue : ¬ Fixed random keepsShapes g .value v := by
    intro h
    cases h with
    | initializer _ h => exact hinit h
    | shapeOf _ _ hp' => cases hp.symm.trans hp'
    | node _ _ hp' => cases hp.symm.trans hp'
  refine ⟨hvalue, fun h => ?_⟩
  cases h with
  | input h => exact hin h
  | keeps _ _ hp' => cases hp.symm.trans hp'
  | ofValue h => exact hvalue h

theorem not_fixed_input {v : String} (hin : v ∈ g.inputs) :
    ¬ Fixed random keepsShapes g .value v := by
  intro h
  cases h <;> contradiction

theorem marks_input {v : String} (hin : v ∈ g.inputs) :
    marks random keepsShapes g v = (True, False) :=
  Prod.ext (propext (iff_of_true (not_fixed_input hin) trivial))
    (propext (iff_of_false (fun h => h (.input hin)) id))

theorem marks_initializer {v : String} (hin : v ∉ g.inputs) (hinit : v ∈ g.initializers) :
    marks random keepsShapes g v = (False, False) := by
  have hfixed : Fixed random keepsShapes g .value v := .initializer hin hinit
  exact Prod.ext (propext (iff_of_false (fun h => h hfixed) id))
    (propext (iff_of_false (fun h => h (.ofValue hfixed)) id))

theorem marks_outer {v : String} (hin : v ∉ g.inputs) (hinit : v ∉ g.initializers)
    (hp : g.producer v = none) : marks random keepsShapes g v = (True, True) :=
  Prod.ext (propext (iff_of_true (not_fixed_outer hin hinit hp).1 trivial))
    (propext (iff_of_true (not_fixed_outer hin hinit hp).2 trivial))

theorem marks_node {v : String} {p : Node} (hin : v ∉ g.inputs) (hinit : v ∉ g.initializers)
    (hp : g.producer v = some p) :
    marks random keepsShapes g v =
      (marking random keepsShapes).apply p
        (p.inputs.map (Option.map (marks random keepsShapes g)))
        (p.implicitInputs.map (marks random keepsShapes g)) True (p.outputs.idxOf (some v)) := by
  refine Eq.trans ?_ (marking_apply (marks random keepsShapes g) p True _).symm
  exact Prod.ext (propext (differs_marks_iff hin hinit hp).symm)
    (propext (shapeDiffers_marks_iff hin hinit hp).symm)

/-- The run where what is not fixed is marked. -/
def markedRun (random keepsShapes : Node → Prop) (g : InitializedGraph) :
    Run (marking random keepsShapes) g fun _ => (False, False) :=
  runOf (fun _ => (True, False)) (fun _ => (True, True)) (fun _ => True)
    (marks random keepsShapes g) (fun _ => marks_input) (fun _ => marks_initializer)
    (fun _ => marks_outer) fun _ _ => marks_node

end

end ConstantArgumentsLemmas

open ConstantArgumentsLemmas

/-- The fixed values are those that no two runs on inputs of the same shapes tell apart. -/
theorem invariant_iff (random keepsShapes : Node → Prop) (g : InitializedGraph) (v : String) :
    Invariant random keepsShapes g v ↔ Fixed random keepsShapes g .value v := by
  constructor
  · intro h
    have hsame := h (marking random keepsShapes) marking_lawful (fun _ => (False, False))
      (plainRun random keepsShapes g) (markedRun random keepsShapes g) fun u hu =>
        propext (iff_of_false id fun hshape => hshape (.input hu))
    have hfst : False = ¬ Fixed random keepsShapes g .value v := congrArg Prod.fst hsame
    by_contra hfixed
    exact hfst ▸ hfixed
  · intro h o ho constants r r' hshapes
    exact agree_of_fixed ho hshapes h

/-! ## What the walk accepts -/

/-- The walk back from the value meets initializers and `Shape` nodes only. -/
inductive Evaluable (g : InitializedGraph) : String → Prop
  | initializer {v : String} (hinit : v ∈ g.initializers) : Evaluable g v
  | shape {v : String} {p : Node} (hinit : v ∉ g.initializers) (hin : v ∉ g.inputs)
      (hp : g.producer v = some p) (hshape : p.opType = "Shape") : Evaluable g v
  | node {v : String} {p : Node} (hinit : v ∉ g.initializers) (hin : v ∉ g.inputs)
      (hp : g.producer v = some p) (hreads : ∀ w ∈ p.inputs.reduceOption, Evaluable g w) :
      Evaluable g v

namespace ConstantArgumentsLemmas

/-! ## The walk -/

theorem allM_eq_true {α : Type} {f : α → Option Bool} {l : List α} :
    l.allM f = some true ↔ ∀ x ∈ l, f x = some true := by
  induction l with
  | nil => simp
  | cons x l ih =>
    rw [List.allM_cons, List.forall_mem_cons, ← ih]
    cases hx : f x with
    | none => simp
    | some b => cases b <;> simp

theorem exists_of_allM_eq_false {α : Type} {f : α → Option Bool} {l : List α}
    (h : l.allM f = some false) : ∃ x ∈ l, f x = some false := by
  induction l with
  | nil => simp at h
  | cons x l ih =>
    rw [List.allM_cons] at h
    cases hx : f x with
    | none => simp [hx] at h
    | some b =>
      cases b with
      | false => exact ⟨x, List.mem_cons_self, hx⟩
      | true =>
        rw [hx] at h
        obtain ⟨y, hy, hfy⟩ := ih h
        exact ⟨y, List.mem_cons_of_mem x hy, hfy⟩

theorem allM_isSome {α : Type} {f : α → Option Bool} {l : List α} (h : ∀ x ∈ l, (f x).isSome) :
    (l.allM f).isSome := by
  induction l with
  | nil => rfl
  | cons x l ih =>
    obtain ⟨hx, hl⟩ := List.forall_mem_cons.1 h
    obtain ⟨b, hb⟩ := Option.isSome_iff_exists.1 hx
    rw [List.allM_cons, hb]
    cases b with
    | false => rfl
    | true => exact ih hl

section

variable {g : InitializedGraph}

theorem dep_of_input {v : String} {p n : Node} (hn : n ∈ g.nodes) (hv : v ∈ n.inputs.reduceOption)
    (hp : g.producer v = some p) : g.Dep p n := by
  have hmem := List.mem_of_find?_eq_some hp
  have hwrites : v ∈ p.outputNames := by
    simpa using List.find?_some (show g.nodes.find? (fun n => decide (v ∈ n.outputNames)) = _ from hp)
  exact ⟨hmem, hn, v, hwrites, Node.uses_pos.2 (Or.inl (List.reduceOption_mem_iff.1 hv))⟩

theorem canEvalInput_isSome {eval : Node → Option Bool} {v : String}
    (h : ∀ p, g.producer v = some p → (eval p).isSome) : (canEvalInput g eval v).isSome := by
  unfold canEvalInput
  split
  · rfl
  · split
    · rfl
    · split
      · rfl
      · next p hp => exact h p hp

/-- The walk from a node ends when the fuel exceeds its rank. -/
theorem canEvalShapeGeneral_isSome {rank : Node → Nat} (hrank : ∀ p n, g.Dep p n → rank p < rank n) :
    ∀ {fuel : Nat} {n : Node}, n ∈ g.nodes → rank n < fuel →
      (canEvalShapeGeneral g fuel n).isSome := by
  intro fuel
  induction fuel with
  | zero => exact fun _ h => absurd h (Nat.not_lt_zero _)
  | succ fuel ih =>
    intro n hn hfuel
    unfold canEvalShapeGeneral
    split
    · rfl
    · refine allM_isSome fun v hv => canEvalInput_isSome fun p hp => ?_
      split
      · rfl
      · have hdep := dep_of_input hn hv hp
        exact ih hdep.1 (Nat.lt_of_lt_of_le (hrank p n hdep) (Nat.le_of_lt_succ hfuel))

theorem evaluable_of_input {eval : Node → Option Bool} {v : String}
    (heval : ∀ p, eval p = some true →
      p.opType = "Shape" ∨ ∀ w ∈ p.inputs.reduceOption, Evaluable g w)
    (h : canEvalInput g eval v = some true) : Evaluable g v := by
  unfold canEvalInput at h
  split at h
  · next hinit => exact .initializer hinit
  · next hinit =>
    split at h
    · cases h
    · next hin =>
      split at h
      · cases h
      · next p hp =>
        rcases heval p h with hshape | hreads
        · exact .shape hinit hin hp hshape
        · exact .node hinit hin hp hreads

theorem evaluable_of_node {fuel : Nat} {n : Node} (h : canEvalShapeGeneral g fuel n = some true) :
    n.opType = "Shape" ∨ ∀ w ∈ n.inputs.reduceOption, Evaluable g w := by
  induction fuel generalizing n with
  | zero => cases h
  | succ fuel ih =>
    unfold canEvalShapeGeneral at h
    split at h
    · next hshape => exact Or.inl hshape
    · refine Or.inr fun w hw => evaluable_of_input (fun p hp => ?_) (allM_eq_true.1 h w hw)
      split at hp
      · next hshape => exact Or.inl hshape
      · exact ih hp

/-- What the loop over the inputs refuses is refused as an argument. -/
theorem canEvalValue_of_refused {fuel : Nat} {v : String}
    (h : canEvalInput g (fun p => if p.opType = "Shape" then some true
      else canEvalShapeGeneral g fuel p) v = some false) :
    canEvalValue g fuel v = some false := by
  unfold canEvalValue
  unfold canEvalInput at h ⊢
  split at h
  · cases h
  · next hinit =>
    rw [if_neg hinit]
    split at h
    · next hin => rw [if_pos hin]
    · next hin =>
      rw [if_neg hin]
      cases hp : g.producer v with
      | none => rfl
      | some p =>
        rw [hp] at h
        dsimp only at h ⊢
        split at h
        · cases h
        · exact h

/-- The walk does not refuse an evaluable value. -/
theorem not_false_of_evaluable {v : String} (h : Evaluable g v) (fuel : Nat) :
    canEvalValue g fuel v ≠ some false := by
  induction h generalizing fuel with
  | initializer hinit =>
    unfold canEvalValue canEvalInput
    rw [if_pos hinit]
    simp
  | shape hinit hin hp hshape =>
    unfold canEvalValue canEvalInput
    rw [if_neg hinit, if_neg hin, hp]
    cases fuel with
    | zero => simp [canEvalShapeGeneral]
    | succ fuel => simp [canEvalShapeGeneral, hshape]
  | node hinit hin hp _ ih =>
    unfold canEvalValue canEvalInput
    rw [if_neg hinit, if_neg hin, hp]
    cases fuel with
    | zero => simp [canEvalShapeGeneral]
    | succ fuel =>
      intro hfalse
      dsimp only at hfalse
      unfold canEvalShapeGeneral at hfalse
      split at hfalse
      · cases hfalse
      · obtain ⟨w, hw, hrefused⟩ := exists_of_allM_eq_false hfalse
        exact ih w hw fuel (canEvalValue_of_refused hrefused)

end

end ConstantArgumentsLemmas

/-- The walk ends on every acyclic graph. -/
theorem canEvalValue_total {g : InitializedGraph} (hacyclic : Acyclic g.Dep) {fuel : Nat}
    (hfuel : g.nodes.length < fuel) (v : String) : (canEvalValue g fuel v).isSome := by
  obtain ⟨rank, hle, hlt⟩ := hacyclic.exists_rank g.nodes
  refine canEvalInput_isSome fun p hp => ?_
  exact canEvalShapeGeneral_isSome (fun a b hd => hlt a hd.1 b hd)
    (List.mem_of_find?_eq_some hp) (Nat.lt_of_le_of_lt (hle p) hfuel)

/-- It accepts the evaluable values. -/
theorem canEvalValue_iff {g : InitializedGraph} (hacyclic : Acyclic g.Dep) {fuel : Nat}
    (hfuel : g.nodes.length < fuel) (v : String) :
    canEvalValue g fuel v = some true ↔ Evaluable g v := by
  constructor
  · exact evaluable_of_input fun _ => evaluable_of_node
  · intro h
    obtain ⟨b, hb⟩ := Option.isSome_iff_exists.1 (canEvalValue_total hacyclic hfuel v)
    cases b with
    | false => exact absurd hb (not_false_of_evaluable h fuel)
    | true => exact hb

/-- The arguments of a node that are asked for: the inputs that are given, by their places. -/
def asked (node : Node) (indices : List Nat) : List (Option String) :=
  indices.map fun index => node.inputs.reduceOption[index]?

namespace ConstantArgumentsLemmas

theorem forall_asked {node : Node} {indices : List Nat} {P : Option String → Prop} :
    (∀ arg ∈ asked node indices, P arg) ↔ ∀ index ∈ indices, P node.inputs.reduceOption[index]? :=
  List.forall_mem_map

/-- The arguments of a node are accepted when each of them is evaluable. -/
theorem canEvalNodeArgument_iff {g : InitializedGraph} (hacyclic : Acyclic g.Dep) {node : Node}
    {indices : List Nat} {fuel : Nat} (hfuel : g.nodes.length < fuel) :
    canEvalNodeArgument g fuel node indices = some true ↔
      ∀ arg ∈ asked node indices, ∃ v, arg = some v ∧ Evaluable g v := by
  unfold canEvalNodeArgument
  rw [allM_eq_true, forall_asked]
  refine forall₂_congr fun index _ => ?_
  cases node.inputs.reduceOption[index]? with
  | none => simp
  | some v => simpa using canEvalValue_iff hacyclic hfuel v

theorem canEvalNodeArgument_isSome {g : InitializedGraph} (hacyclic : Acyclic g.Dep) (node : Node)
    (indices : List Nat) {fuel : Nat} (hfuel : g.nodes.length < fuel) :
    (canEvalNodeArgument g fuel node indices).isSome := by
  refine allM_isSome fun index _ => ?_
  cases node.inputs.reduceOption[index]? with
  | none => rfl
  | some v => exact canEvalValue_total hacyclic hfuel v

end ConstantArgumentsLemmas

/-- The judgement of `CanEvalNodeArgument` is made on every acyclic graph. It is right, for all
operators of which no more is known, exactly when the walk refuses an argument or the arguments are
fixed by the graph. -/
theorem canEvalNodeArgument_sound_iff (random keepsShapes : Node → Prop) (g : InitializedGraph)
    (hacyclic : Acyclic g.Dep) (node : Node) (indices : List Nat) {fuel : Nat}
    (hfuel : g.nodes.length < fuel) :
    (canEvalNodeArgument g fuel node indices).isSome ∧
      ((canEvalNodeArgument g fuel node indices = some true →
          ∀ v, some v ∈ asked node indices → Invariant random keepsShapes g v) ↔
        (∃ arg ∈ asked node indices, ∀ v, arg = some v → ¬ Evaluable g v) ∨
          ∀ v, some v ∈ asked node indices → Fixed random keepsShapes g .value v) := by
  refine ⟨canEvalNodeArgument_isSome hacyclic node indices hfuel, ?_⟩
  simp only [invariant_iff]
  rw [canEvalNodeArgument_iff hacyclic hfuel, imp_iff_not_or]
  refine or_congr ?_ Iff.rfl
  simp only [not_forall, not_exists, not_and, exists_prop]

/-! ## An initializer that the caller overrides -/

def constantOfShape : Node where
  id := 0
  opType := "ConstantOfShape"
  inputs := [some "sizes"]
  outputs := [some "filled"]

/-- The sizes are an initializer that is an input, too. -/
def overridable : InitializedGraph where
  toGraph := .ofNodes [constantOfShape] ["sizes"] ["filled"] (by decide) (by decide) (by decide)
    (by decide)
  initializers := ["sizes"]

theorem overridable_misjudged :
    canEvalNodeArgument overridable 2 constantOfShape [0] = some true ∧
      some "sizes" ∈ asked constantOfShape [0] ∧
      ¬ Invariant (fun _ => False) (fun _ => False) overridable "sizes" := by
  refine ⟨by decide, by decide, fun h => ?_⟩
  have hin : "sizes" ∈ overridable.inputs := List.mem_singleton.2 rfl
  exact not_fixed_input hin ((invariant_iff _ _ _ _).1 h)

def shapeOfX : Node where
  id := 0
  opType := "Shape"
  inputs := [some "x"]
  outputs := [some "sizes"]

def doubled : Node where
  id := 1
  opType := "Mul"
  inputs := [some "sizes", some "two"]
  outputs := [some "doubled"]

def expand : Node where
  id := 2
  opType := "Expand"
  inputs := [some "x", some "doubled"]
  outputs := [some "y"]

/-- The sizes follow from the shape of the input and from an initializer. -/
def shaped : InitializedGraph where
  toGraph := .ofNodes [shapeOfX, doubled, expand] ["x"] ["y"] (by decide) (by decide) (by decide)
    (by decide)
  initializers := ["two"]

theorem shaped_judged :
    (canEvalNodeArgument shaped 4 expand [1]).isSome ∧
      ((canEvalNodeArgument shaped 4 expand [1] = some true →
          ∀ v, some v ∈ asked expand [1] →
            Invariant (fun _ => False) (fun _ => False) shaped v) ↔
        (∃ arg ∈ asked expand [1], ∀ v, arg = some v → ¬ Evaluable shaped v) ∨
          ∀ v, some v ∈ asked expand [1] →
            Fixed (fun _ => False) (fun _ => False) shaped .value v) :=
  canEvalNodeArgument_sound_iff _ _ shaped (Graph.acyclic_of_ids (by decide)) expand [1]
    (by decide)

end AmdGpuEp.MIGraphX
