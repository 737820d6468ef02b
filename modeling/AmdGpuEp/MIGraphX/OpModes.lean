import AmdGpuEp.MIGraphX.ConstantArguments
import AmdGpuEp.MIGraphX.Capability

/-!
# Modes of operators that MIGraphX does not run

`IsUnsupportedOpMode` of `mgx_ep.cc` refuses a node for an attribute, or for an input that
has to be constant and is not. It asks for inputs by number, and `CanEvalNodeArgument`
counts only those that are given. So a number has to be below the count of the given inputs,
and has to stand for the slot that is meant, whatever the version of the operator is and
whichever optional inputs are left out.

Results:
1. `lookUpArguments_answer`: the walk with its lookups is the one of `CanEvalNodeArgument`.
2. `isUnsupportedOpMode_indexSafe_iff`: the lookups are right for all nodes but `TopK` of the
   versions that have one input.
3. `topK_outOfBounds`: there the second of one input is read.
-/

namespace AmdGpuEp.MIGraphX

/-! ## Lookups -/

/-- A judgement, with the indices at which it has read the inputs that are given. -/
structure Judgement where
  answer : Bool
  indices : List Nat
  deriving DecidableEq, Repr

/-- A judgement that looks no input up. -/
def Judgement.direct (answer : Bool) : Judgement :=
  { answer, indices := [] }

/-- `if (!judgement) { return true; }`, and then `rest`. -/
def Judgement.refuseUnless (judgement : Judgement) (rest : Bool) : Judgement :=
  { judgement with answer := !judgement.answer || rest }

/-- The loop of `CanEvalNodeArgument` over the inputs that are given. It stops at the first input
that cannot be evaluated. Behind the end there is no input to be evaluated. -/
def lookUpArguments (canEval : String → Bool) (valueInfos : List String) : List Nat → Judgement
  | [] => .direct true
  | index :: indices =>
    if valueInfos[index]?.any canEval then
      let rest := lookUpArguments canEval valueInfos indices
      { rest with indices := index :: rest.indices }
    else { answer := false, indices := [index] }

/-! ## Modes -/

/-- What `IsUnsupportedOpMode` learns of values: their element types, their dimensions, and whether
they can be evaluated before a run. -/
structure ValueFacts where
  isInt8Tensor : String → Bool
  isUint8Tensor : String → Bool
  shape : String → List Int
  canEval : String → Bool

/-- `!attr.GetValue(value).IsOK() || value != 0` for an attribute that is set. -/
def intRefused : Option AttrValue → Bool
  | none => false
  | some (.int value) => value != 0
  | some _ => true

/-- `!attr.GetValue(value).IsOK() || refused(value)` for an attribute that is set. -/
def stringRefused (refused : String → Bool) : Option AttrValue → Bool
  | none => false
  | some (.string value) => refused value
  | some _ => true

/-- The test of `dilations`. -/
def dilationsRefused : Option AttrValue → Bool
  | none => false
  | some (.ints dilations) => !dilations.all (· == 1)
  | some _ => true

/-- The test of `starts` and `ends`, when both are set. -/
def rangesRefused : Option AttrValue → Option AttrValue → Bool
  | none, _ => false
  | _, none => false
  | some (.ints starts), some (.ints ends) => (starts.zip ends).any fun (s, e) => e < s
  | some _, some _ => true

/-- `IsUnsupportedOpMode`. Where `Slice` erases the first index there is one: its first input is
required. -/
def isUnsupportedOpMode (facts : ValueFacts) (node : Node) : Judgement :=
  let inputs := node.inputs.reduceOption
  let attr := fun name => node.attributes.lookup name
  let canEvalNodeArgument := lookUpArguments facts.canEval inputs
  if node.opType = "ArgMax" ∨ node.opType = "ArgMin" then
    .direct (intRefused (attr "select_last_index"))
  else if node.opType = "ConstantOfShape" then (canEvalNodeArgument [0]).refuseUnless false
  else if node.opType = "ConvInteger" then
    .direct (inputs.isEmpty || inputs.any fun v => !facts.isInt8Tensor v && !facts.isUint8Tensor v)
  else if node.opType = "Expand" then (canEvalNodeArgument [1]).refuseUnless false
  else if node.opType = "MaxPool" then
    .direct (decide (1 < node.outputs.reduceOption.length) ||
      dilationsRefused (attr "dilations") || intRefused (attr "storage_order"))
  else if node.opType = "MatMulInteger" then
    .direct (inputs.isEmpty || inputs.any fun v => !facts.isInt8Tensor v && !facts.isUint8Tensor v)
  else if node.opType = "OneHot" then (canEvalNodeArgument [1]).refuseUnless false
  else if node.opType = "Pad" then
    let pads := if 2 ≤ inputs.length then canEvalNodeArgument [1] else .direct true
    pads.refuseUnless <|
      stringRefused (fun mode => !(["constant", "reflect", "edge"].contains mode)) (attr "mode")
  else if node.opType = "Range" then
    (canEvalNodeArgument (List.range inputs.length)).refuseUnless false
  else if node.opType = "Reshape" then
    -- both ends of this branch say that the node is supported
    if inputs.length = 2 then { canEvalNodeArgument [1] with answer := false } else .direct false
  else if node.opType = "Resize" ∨ node.opType = "Upsample" then
    .direct (stringRefused (· == "tf_crop_and_resize") (attr "coordinate_transformation_mode") ||
      stringRefused (· == "cubic") (attr "mode"))
  else if node.opType = "ReduceSum" then
    if inputs.length = 2 then (canEvalNodeArgument [1]).refuseUnless false else .direct false
  else if node.opType = "Slice" then
    (canEvalNodeArgument (List.range inputs.length).tail).refuseUnless
      (rangesRefused (attr "starts") (attr "ends"))
  else if node.opType = "Split" then
    if inputs.any fun v => facts.shape v == [0] then .direct true
    else if inputs.length = 2 then (canEvalNodeArgument [1]).refuseUnless false
    else .direct false
  else if node.opType = "Tile" then (canEvalNodeArgument [1]).refuseUnless false
  else if node.opType = "TopK" then (canEvalNodeArgument [1]).refuseUnless false
  else if node.opType = "Unsqueeze" ∨ node.opType = "Squeeze" then
    if inputs.length = 2 then (canEvalNodeArgument [1]).refuseUnless false else .direct false
  else .direct false

/-! ## The inputs of operators -/

/-- Whether an input of an operator may be left out. -/
inductive Parameter
  | required
  | optional
  deriving DecidableEq, Repr

/-- The inputs that ONNX declares for an operator, by the version it has been defined in. Only the
operators of which `IsUnsupportedOpMode` looks inputs up are listed. -/
def formalInputs (opType : String) (sinceVersion : Nat) : Option (List Parameter) :=
  if opType = "ConstantOfShape" then some [.required]
  else if opType = "Expand" then some [.required, .required]
  else if opType = "OneHot" then some [.required, .required, .required]
  else if opType = "Pad" then
    if sinceVersion < 11 then some [.required]
    else if sinceVersion < 18 then some [.required, .required, .optional]
    else some [.required, .required, .optional, .optional]
  else if opType = "Range" then some [.required, .required, .required]
  else if opType = "Reshape" then
    if sinceVersion < 5 then some [.required] else some [.required, .required]
  else if opType = "ReduceSum" then
    if sinceVersion < 13 then some [.required] else some [.required, .optional]
  else if opType = "Slice" then
    if sinceVersion < 10 then some [.required]
    else some [.required, .required, .required, .optional, .optional]
  else if opType = "Split" then
    if 2 ≤ sinceVersion ∧ sinceVersion < 13 then some [.required]
    else some [.required, .optional]
  else if opType = "Tile" then
    if sinceVersion < 6 then some [.required, .required, .required]
    else some [.required, .required]
  else if opType = "TopK" then
    if sinceVersion < 10 then some [.required] else some [.required, .required]
  else if opType = "Unsqueeze" then
    if sinceVersion < 13 then some [.required] else some [.required, .required]
  else if opType = "Squeeze" then
    if sinceVersion < 13 then some [.required] else some [.required, .optional]
  else none

/-- A node of the ONNX domain whose inputs ORT has checked: there are no more than the operator
declares, and the required ones are given. -/
structure OnnxNode extends Node where
  domain_eq : domain = kOnnxDomain
  length_le : ∀ formal ∈ formalInputs opType sinceVersion, inputs.length ≤ formal.length
  given : ∀ formal ∈ formalInputs opType sinceVersion, ∀ slot : Nat,
    formal[slot]? = some .required → ∃ v, inputs[slot]? = some (some v)

/-- The slots of the inputs that are given, counted from `slot`. -/
def givenSlots (slot : Nat) : List (Option String) → List Nat
  | [] => []
  | none :: inputs => givenSlots (slot + 1) inputs
  | some _ :: inputs => slot :: givenSlots (slot + 1) inputs

/-- The slots whose inputs have to be constant. -/
def ConstantSlot (opType : String) (slot : Nat) : Prop :=
  if opType = "ConstantOfShape" then slot = 0
  else if opType = "Range" then True
  else if opType = "Slice" then slot ≠ 0
  else slot = 1

/-- Every index is one of a given input, and this input has the slot that is meant. -/
structure IndexSafe (node : Node) (judgement : Judgement) : Prop where
  inBounds : ∀ index ∈ judgement.indices, index < node.inputs.reduceOption.length
  intended : ∀ index ∈ judgement.indices, ∃ slot ∈ (givenSlots 0 node.inputs)[index]?,
    ConstantSlot node.opType slot

/-! ## What is looked up -/

namespace OpModesLemmas

theorem indices_lookUp {canEval : String → Bool} {valueInfos : List String} {indices : List Nat}
    {index : Nat} (h : index ∈ (lookUpArguments canEval valueInfos indices).indices) :
    index ∈ indices := by
  induction indices with
  | nil => exact h
  | cons head indices ih =>
    unfold lookUpArguments at h
    split at h
    · rcases List.mem_cons.1 h with rfl | h
      · exact List.mem_cons_self
      · exact List.mem_cons_of_mem _ (ih h)
    · exact List.mem_cons.2 (Or.inl (List.mem_singleton.1 h))

/-- The first index is looked up in any case. -/
theorem head_mem_lookUp (canEval : String → Bool) (valueInfos : List String) (index : Nat)
    (indices : List Nat) :
    index ∈ (lookUpArguments canEval valueInfos (index :: indices)).indices := by
  unfold lookUpArguments
  split <;> exact List.mem_cons_self

/-- The walk with its lookups judges as `canEvalNodeArgument` does. -/
theorem lookUpArguments_answer {g : InitializedGraph} {fuel : Nat} {canEval : String → Bool}
    (h : ∀ v, canEvalValue g fuel v = some (canEval v)) (node : Node) (indices : List Nat) :
    canEvalNodeArgument g fuel node indices =
      some (lookUpArguments canEval node.inputs.reduceOption indices).answer := by
  unfold canEvalNodeArgument
  induction indices with
  | nil => rfl
  | cons index indices ih =>
    rw [List.allM, ih, lookUpArguments]
    cases hvalue : node.inputs.reduceOption[index]? with
    | none => rfl
    | some v =>
      simp only [h, Option.any_some]
      cases canEval v <;> rfl

/-- A judgement that looks up no other indices. -/
def AsksOnly (indices : List Nat) (judgement : Judgement) : Prop :=
  ∀ index ∈ judgement.indices, index ∈ indices

theorem asksOnly_direct (indices : List Nat) (answer : Bool) :
    AsksOnly indices (.direct answer) :=
  fun _ h => absurd h List.not_mem_nil

theorem asksOnly_lookUp (canEval : String → Bool) (valueInfos : List String)
    (indices : List Nat) : AsksOnly indices (lookUpArguments canEval valueInfos indices) :=
  fun _ h => indices_lookUp h

theorem asksOnly_ite {c : Prop} [Decidable c] {a b : Judgement} {indices : List Nat}
    (ha : c → AsksOnly indices a) (hb : ¬ c → AsksOnly indices b) :
    AsksOnly indices (if c then a else b) := by
  by_cases h : c
  · rw [if_pos h]
    exact ha h
  · rw [if_neg h]
    exact hb h

/-- The indices that an operator asks for, when `given` inputs are given. -/
def askedIndices (opType : String) (given : Nat) : List Nat :=
  if opType = "ConstantOfShape" then [0]
  else if opType = "Range" then List.range given
  else if opType = "Slice" then (List.range given).tail
  else if opType ∈ ["Expand", "OneHot", "Tile", "TopK"] then [1]
  else if opType = "Pad" then if 2 ≤ given then [1] else []
  else if opType ∈ ["Reshape", "ReduceSum", "Split", "Unsqueeze", "Squeeze"] then
    if given = 2 then [1] else []
  else []

/-- A branch that asks when two inputs are given. -/
theorem asksOnly_pair {opType : String} {given : Nat} {judgement : Judgement} (answer : Bool)
    (hop : opType ∈ ["Reshape", "ReduceSum", "Split", "Unsqueeze", "Squeeze"])
    (hlook : AsksOnly [1] judgement) :
    AsksOnly (askedIndices opType given) (if given = 2 then judgement else .direct answer) := by
  refine asksOnly_ite (fun hgiven => ?_) fun _ => asksOnly_direct _ _
  simp only [List.mem_cons, List.not_mem_nil, or_false] at hop
  rw [hgiven]
  rcases hop with rfl | rfl | rfl | rfl | rfl <;> exact hlook

theorem asksOnly_asked (facts : ValueFacts) (node : Node) :
    AsksOnly (askedIndices node.opType node.inputs.reduceOption.length)
      (isUnsupportedOpMode facts node) := by
  unfold isUnsupportedOpMode
  dsimp only
  have hlook := asksOnly_lookUp facts.canEval node.inputs.reduceOption
  generalize hgiven : node.inputs.reduceOption.length = given
  -- branch by branch, in the order of the source
  refine asksOnly_ite (fun _ => asksOnly_direct _ _) fun _ => ?_
  refine asksOnly_ite (fun hop => by rw [hop]; exact hlook [0]) fun _ => ?_
  refine asksOnly_ite (fun _ => asksOnly_direct _ _) fun _ => ?_
  refine asksOnly_ite (fun hop => by rw [hop]; exact hlook [1]) fun _ => ?_
  refine asksOnly_ite (fun _ => asksOnly_direct _ _) fun _ => ?_
  refine asksOnly_ite (fun _ => asksOnly_direct _ _) fun _ => ?_
  refine asksOnly_ite (fun hop => by rw [hop]; exact hlook [1]) fun _ => ?_
  refine asksOnly_ite (fun hop => ?pad) fun _ => ?_
  case pad =>
    rw [hop]
    refine asksOnly_ite (c := 2 ≤ given) (fun htwo => ?_) fun _ => asksOnly_direct _ _
    have hasked : askedIndices "Pad" given = [1] := if_pos htwo
    rw [hasked]
    exact hlook [1]
  refine asksOnly_ite (fun hop => by rw [hop]; exact hlook _) fun _ => ?_
  refine asksOnly_ite (fun hop => asksOnly_pair _ (by rw [hop]; decide) (hlook [1])) fun _ => ?_
  refine asksOnly_ite (fun _ => asksOnly_direct _ _) fun _ => ?_
  refine asksOnly_ite (fun hop => asksOnly_pair _ (by rw [hop]; decide) (hlook [1])) fun _ => ?_
  refine asksOnly_ite (fun hop => by rw [hop]; exact hlook _) fun _ => ?_
  refine asksOnly_ite (fun hop => ?split) fun _ => ?_
  case split =>
    refine asksOnly_ite (fun _ => asksOnly_direct _ _) fun _ => ?_
    exact asksOnly_pair _ (by rw [hop]; decide) (hlook [1])
  refine asksOnly_ite (fun hop => by rw [hop]; exact hlook [1]) fun _ => ?_
  refine asksOnly_ite (fun hop => by rw [hop]; exact hlook [1]) fun _ => ?_
  refine asksOnly_ite (fun hop => ?_) fun _ => asksOnly_direct _ _
  exact asksOnly_pair _ (by rcases hop with h | h <;> rw [h] <;> decide) (hlook [1])

/-! ## The slots that are given -/

theorem length_givenSlots (slot : Nat) (inputs : List (Option String)) :
    (givenSlots slot inputs).length = inputs.reduceOption.length := by
  induction inputs generalizing slot with
  | nil => rfl
  | cons input inputs ih =>
    cases input with
    | none => rw [givenSlots, ih, List.reduceOption_cons_of_none]
    | some v => rw [givenSlots, List.length_cons, ih, List.reduceOption_cons_of_some,
        List.length_cons]

theorem le_of_mem_givenSlots {slot k : Nat} {inputs : List (Option String)}
    (h : k ∈ givenSlots slot inputs) : slot ≤ k := by
  induction inputs generalizing slot with
  | nil => exact absurd h List.not_mem_nil
  | cons input inputs ih =>
    cases input with
    | none => exact (Nat.le_succ slot).trans (ih h)
    | some v =>
      rcases List.mem_cons.1 h with rfl | h
      · exact Nat.le_refl _
      · exact (Nat.le_succ slot).trans (ih h)

/-- An index below the count of the given inputs is one of a given slot. -/
theorem exists_givenSlot {inputs : List (Option String)} {index : Nat}
    (h : index < inputs.reduceOption.length) :
    ∃ slot, (givenSlots 0 inputs)[index]? = some slot :=
  ⟨_, List.getElem?_eq_getElem (by rwa [length_givenSlots])⟩

/-- What a node gives in its first slot. -/
theorem eq_cons_of_first {inputs : List (Option String)} {v : String}
    (h : inputs[0]? = some (some v)) : ∃ rest, inputs = some v :: rest := by
  cases inputs with
  | nil => cases h
  | cons input rest => exact ⟨rest, by rw [Option.some.inj h]⟩

theorem eq_cons_of_second {inputs : List (Option String)} {v w : String}
    (hfirst : inputs[0]? = some (some v)) (hsecond : inputs[1]? = some (some w)) :
    ∃ rest, inputs = some v :: some w :: rest := by
  obtain ⟨others, rfl⟩ := eq_cons_of_first hfirst
  have hothers : others[0]? = some (some w) := hsecond
  obtain ⟨rest, rfl⟩ := eq_cons_of_first hothers
  exact ⟨rest, rfl⟩

/-- An index that is right for an operator. -/
def Right (opType : String) (inputs : List (Option String)) (index : Nat) : Prop :=
  index < inputs.reduceOption.length ∧
    ∃ slot ∈ (givenSlots 0 inputs)[index]?, ConstantSlot opType slot

theorem indexSafe_of_right {node : Node} {judgement : Judgement}
    (hasks : AsksOnly (askedIndices node.opType node.inputs.reduceOption.length) judgement)
    (hright : ∀ index ∈ askedIndices node.opType node.inputs.reduceOption.length,
      Right node.opType node.inputs index) : IndexSafe node judgement where
  inBounds index h := (hright index (hasks index h)).1
  intended index h := (hright index (hasks index h)).2

theorem right_first {opType v : String} {inputs : List (Option String)}
    (hfirst : inputs[0]? = some (some v)) (hop : ConstantSlot opType 0) :
    Right opType inputs 0 := by
  obtain ⟨rest, rfl⟩ := eq_cons_of_first hfirst
  exact ⟨Nat.succ_pos _, 0, rfl, hop⟩

theorem right_second {opType v w : String} {inputs : List (Option String)}
    (hfirst : inputs[0]? = some (some v)) (hsecond : inputs[1]? = some (some w))
    (hop : ConstantSlot opType 1) : Right opType inputs 1 := by
  obtain ⟨rest, rfl⟩ := eq_cons_of_second hfirst hsecond
  exact ⟨Nat.succ_lt_succ (Nat.succ_pos _), 1, rfl, hop⟩

/-- Two inputs are given, and no more are declared. -/
theorem right_pair {opType : String} {inputs : List (Option String)} (hlen : inputs.length ≤ 2)
    (hgiven : inputs.reduceOption.length = 2) (hop : ConstantSlot opType 1) :
    Right opType inputs 1 := by
  have hle := List.reduceOption_length_le inputs
  have hall := List.reduceOption_length_eq_iff.1 (hle.antisymm (hlen.trans_eq hgiven.symm))
  obtain ⟨a, b, rfl⟩ := List.length_eq_two.1 (hlen.antisymm (hgiven.symm.trans_le hle))
  obtain ⟨v, rfl⟩ := Option.isSome_iff_exists.1 (hall a List.mem_cons_self)
  obtain ⟨w, rfl⟩ := Option.isSome_iff_exists.1 (hall b (List.mem_cons_of_mem _ List.mem_cons_self))
  exact right_second rfl rfl hop

/-- Any input of `Range` is meant. -/
theorem right_range {inputs : List (Option String)} {index : Nat}
    (h : index ∈ List.range inputs.reduceOption.length) : Right "Range" inputs index := by
  have hlt := List.mem_range.1 h
  obtain ⟨slot, hslot⟩ := exists_givenSlot hlt
  exact ⟨hlt, slot, hslot, trivial⟩

/-- Any input of `Slice` but the first is meant: what stands behind it in the list of the given
inputs has a later slot. -/
theorem right_slice {v : String} {inputs : List (Option String)} {index : Nat}
    (hfirst : inputs[0]? = some (some v))
    (h : index ∈ (List.range inputs.reduceOption.length).tail) : Right "Slice" inputs index := by
  obtain ⟨rest, rfl⟩ := eq_cons_of_first hfirst
  have hlt := List.mem_range.1 (List.mem_of_mem_tail h)
  obtain ⟨slot, hslot⟩ := exists_givenSlot hlt
  refine ⟨hlt, slot, hslot, ?_⟩
  rw [List.reduceOption_cons_of_some, List.length_cons, List.range_succ_eq_map,
    List.tail_cons] at h
  obtain ⟨behind, -, rfl⟩ := List.mem_map.1 h
  have hmem : slot ∈ givenSlots 1 rest := List.mem_of_getElem? hslot
  exact Nat.one_le_iff_ne_zero.1 (le_of_mem_givenSlots hmem)

/-! ## Operators -/

theorem exists_formal {c : Prop} [Decidable c] {a b : List Parameter} {P : List Parameter → Prop}
    (ha : c → P a) (hb : ¬ c → P b) : ∃ formal ∈ (if c then some a else some b), P formal := by
  by_cases h : c
  · rw [if_pos h]
    exact ⟨a, rfl, ha h⟩
  · rw [if_neg h]
    exact ⟨b, rfl, hb h⟩

/-- Operators that declare two inputs at most. -/
theorem exists_formal_pair {opType : String} (v : Nat)
    (hop : opType ∈ ["Reshape", "ReduceSum", "Split", "Unsqueeze", "Squeeze"]) :
    ∃ formal ∈ formalInputs opType v, formal.length ≤ 2 := by
  have hone : [Parameter.required].length ≤ 2 := Nat.le_succ 1
  have htwo : ∀ p : Parameter, [.required, p].length ≤ 2 := fun _ => Nat.le_refl 2
  simp only [List.mem_cons, List.not_mem_nil, or_false] at hop
  rcases hop with rfl | rfl | rfl | rfl | rfl
  · exact exists_formal (c := v < 5) (fun _ => hone) fun _ => htwo .required
  · exact exists_formal (c := v < 13) (fun _ => hone) fun _ => htwo .optional
  · exact exists_formal (c := 2 ≤ v ∧ v < 13) (fun _ => hone) fun _ => htwo .optional
  · exact exists_formal (c := v < 13) (fun _ => hone) fun _ => htwo .required
  · exact exists_formal (c := v < 13) (fun _ => hone) fun _ => htwo .optional

/-- Operators whose second input is asked for however many there are. -/
theorem exists_formal_second {opType : String} {v : Nat}
    (hop : opType ∈ ["Expand", "OneHot", "Tile", "TopK"]) (htopK : ¬ (opType = "TopK" ∧ v < 10)) :
    ∃ formal ∈ formalInputs opType v,
      formal[0]? = some .required ∧ formal[1]? = some .required := by
  simp only [List.mem_cons, List.not_mem_nil, or_false] at hop
  rcases hop with rfl | rfl | rfl | rfl
  · exact ⟨_, rfl, rfl, rfl⟩
  · exact ⟨_, rfl, rfl, rfl⟩
  · exact exists_formal (c := v < 6) (fun _ => ⟨rfl, rfl⟩) fun _ => ⟨rfl, rfl⟩
  · exact exists_formal (c := v < 10) (fun h => absurd ⟨rfl, h⟩ htopK) fun _ => ⟨rfl, rfl⟩

/-- `Pad` gets its pads as the second input, or declares no other than the first. -/
theorem exists_formal_pad (v : Nat) :
    ∃ formal ∈ formalInputs "Pad" v,
      formal.length < 2 ∨ formal[0]? = some .required ∧ formal[1]? = some .required := by
  by_cases hone : v < 11
  · exact ⟨_, if_pos hone, Or.inl (Nat.lt_succ_self 1)⟩
  · have hlater : formalInputs "Pad" v = _ := if_neg hone
    rw [hlater]
    exact exists_formal (fun _ => Or.inr ⟨rfl, rfl⟩) fun _ => Or.inr ⟨rfl, rfl⟩

theorem exists_formal_first {opType : String} (v : Nat)
    (hop : opType ∈ ["ConstantOfShape", "Slice"]) :
    ∃ formal ∈ formalInputs opType v, formal[0]? = some .required := by
  simp only [List.mem_cons, List.not_mem_nil, or_false] at hop
  rcases hop with rfl | rfl
  · exact ⟨_, rfl, rfl⟩
  · exact exists_formal (c := v < 10) (fun _ => rfl) fun _ => rfl

theorem right_of_second {node : OnnxNode} {formal : List Parameter}
    (hformal : formal ∈ formalInputs node.opType node.sinceVersion)
    (hfirst : formal[0]? = some .required) (hsecond : formal[1]? = some .required)
    (hop : ConstantSlot node.opType 1) : Right node.opType node.inputs 1 := by
  obtain ⟨v, hv⟩ := node.given formal hformal 0 hfirst
  obtain ⟨w, hw⟩ := node.given formal hformal 1 hsecond
  exact right_second hv hw hop

theorem exists_first (node : OnnxNode) (hop : node.opType ∈ ["ConstantOfShape", "Slice"]) :
    ∃ v, node.inputs[0]? = some (some v) := by
  obtain ⟨formal, hformal, hfirst⟩ := exists_formal_first node.sinceVersion hop
  exact node.given formal hformal 0 hfirst

/-- Whatever an operator asks for is right, but for `TopK` with one input. -/
theorem right_of_asked {node : OnnxNode}
    (htopK : ¬ (node.opType = "TopK" ∧ node.sinceVersion < 10)) {index : Nat}
    (h : index ∈ askedIndices node.opType node.inputs.reduceOption.length) :
    Right node.opType node.inputs index := by
  unfold askedIndices at h
  split_ifs at h with hconst hrange hslice hsecond hpad htwo hpair hgiven
  · obtain rfl := List.mem_singleton.1 h
    obtain ⟨v, hv⟩ := exists_first node (by rw [hconst]; decide)
    exact right_first hv (by rw [hconst]; rfl)
  · rw [hrange]
    exact right_range h
  · obtain ⟨v, hv⟩ := exists_first node (by rw [hslice]; decide)
    rw [hslice]
    exact right_slice hv h
  · obtain rfl := List.mem_singleton.1 h
    obtain ⟨formal, hformal, hone, htwo⟩ := exists_formal_second hsecond htopK
    have hop : ConstantSlot node.opType 1 := by
      rw [ConstantSlot, if_neg hconst, if_neg hrange, if_neg hslice]
    exact right_of_second hformal hone htwo hop
  · obtain rfl := List.mem_singleton.1 h
    obtain ⟨formal, hformal, hshort | ⟨hone, htwo⟩⟩ := exists_formal_pad node.sinceVersion
    · rw [← hpad] at hformal
      have hlen := (List.reduceOption_length_le _).trans (node.length_le formal hformal)
      exact absurd (htwo.trans hlen) (Nat.not_le.2 hshort)
    · rw [← hpad] at hformal
      exact right_of_second hformal hone htwo (by rw [hpad]; rfl)
  · exact absurd h List.not_mem_nil
  · obtain rfl := List.mem_singleton.1 h
    obtain ⟨formal, hformal, hlen⟩ := exists_formal_pair node.sinceVersion hpair
    have hop : ConstantSlot node.opType 1 := by
      rw [ConstantSlot, if_neg hconst, if_neg hrange, if_neg hslice]
    exact right_pair ((node.length_le formal hformal).trans hlen) hgiven hop
  · exact absurd h List.not_mem_nil
  · exact absurd h List.not_mem_nil

/-- `TopK` looks its second input up. -/
theorem one_mem_topK (facts : ValueFacts) {node : Node} (h : node.opType = "TopK") :
    1 ∈ (isUnsupportedOpMode facts node).indices := by
  have hindices : (isUnsupportedOpMode facts node).indices =
      (lookUpArguments facts.canEval node.inputs.reduceOption [1]).indices := by
    simp [isUnsupportedOpMode, h, Judgement.refuseUnless]
  rw [hindices]
  exact head_mem_lookUp _ _ _ _

end OpModesLemmas

open OpModesLemmas

/-- Whatever is known of the values, the indices that `IsUnsupportedOpMode` looks up are right for
a node that ORT has accepted, exactly when the node is not a `TopK` of a version that has one
input. -/
theorem isUnsupportedOpMode_indexSafe_iff (facts : ValueFacts) (node : OnnxNode) :
    IndexSafe node.toNode (isUnsupportedOpMode facts node.toNode) ↔
      ¬ (node.opType = "TopK" ∧ node.sinceVersion < 10) := by
  constructor
  · rintro hsafe ⟨hop, hver⟩
    have hlt := hsafe.inBounds 1 (one_mem_topK facts hop)
    have hformal : formalInputs node.opType node.sinceVersion = some [.required] := by
      rw [hop]
      exact if_pos hver
    have hlen := (List.reduceOption_length_le _).trans (node.length_le _ hformal)
    exact absurd (hlt.trans_le hlen) (Nat.lt_irrefl 1)
  · exact fun htopK => indexSafe_of_right (asksOnly_asked facts node.toNode)
      fun _ h => right_of_asked htopK h

/-- `TopK` as it was before version 10: what is `k` later on is an attribute. -/
def topK : OnnxNode where
  id := 0
  opType := "TopK"
  inputs := [some "x"]
  outputs := [some "values", some "indices"]
  attributes := [("k", .int 2)]
  domain_eq := rfl
  length_le := by
    intro formal h
    obtain rfl := Option.some.inj h
    exact Nat.le_refl _
  given := by
    intro formal h slot hslot
    obtain rfl := Option.some.inj h
    cases slot with
    | zero => exact ⟨"x", rfl⟩
    | succ slot => cases hslot

def nothingConstant : ValueFacts where
  isInt8Tensor _ := false
  isUint8Tensor _ := false
  shape _ := []
  canEval _ := false

/-- The second of one input is read. -/
theorem topK_outOfBounds :
    ¬ IndexSafe topK.toNode (isUnsupportedOpMode nothingConstant topK.toNode) :=
  fun hsafe => absurd (hsafe.inBounds 1 (one_mem_topK nothingConstant rfl)) (Nat.lt_irrefl 1)

end AmdGpuEp.MIGraphX
