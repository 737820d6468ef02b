import AmdGpuEp.DirectML.GraphWellFormed
import AmdGpuEp.DirectML.InputRouting

/-!
# From the inputs of a node to the fields of its operators

The edges that `Compile` wires into the operators of a kept node, against the
fields that the translator of the node has built. The lists of the translation
decide where an input goes; where the wiring drops it, a sub-node reads a value
that another node of the group produces.

Results:
1. `routed_iff`: when every field of a kept node gets the input it was built from.
2. `bareProduct_shifted`: without zero points, the second operand of an integer
   product is wired to the zero point of the first.
-/

namespace AmdGpuEp.DirectML

/-! ## What a node is compiled to -/

/-- The compiled node is what a translator of the registry makes of a node. -/
structure MadeFrom (rest : TranslatorRest) (initializers : String → Option Initializer)
    (cn : CompiledNode FieldDesc) (node : Node) (translator : Translator) (shapes : ValueShapes)
    (p : Packing) : Prop where
  registered : buildOpTranslatorRegistry.lookup node.opType = some translator
  packed : translator.pack node shapes = some p
  kept : p.passthrough = false
  translated : cn.translated = p.translated (rest.tensor node shapes)
    (rest.outputTensors node shapes initializers) (rest.outputSource node shapes)
  inputNames : cn.inputNames = getNodeInputNames node

section

variable (t : Translation FieldDesc) (sg : SubgraphInfo)

/-- The fields of a kept node get what they were built from: its lists are straight, no two fields
of an operator stand for the same input, and each slot has the edge of its field. -/
structure Routed (i : Nat) (cn : CompiledNode FieldDesc) (p : Packing) : Prop where
  straight : p.Straight
  distinct : p.Distinct
  delivered : ∀ part d, p.desc part = some d → ∀ slot,
    Delivered t (compileInputMap t sg) (t.liveNodes sg) (operatorTotal t (t.liveNodes sg)) cn
      (nodeOffset t (t.liveNodes sg) i) part slot (d.operand slot)

/-- The inputs that the fields stand for: the primary operator reads named ones, and a sub-node
reads values from outside the group. -/
def InputsGiven (inputNames : List String) (p : Packing) : Prop :=
  ∀ part d, p.desc part = some d → ∀ slot i, d.operand slot = some (.input i) →
    ∃ name, inputNames[i]? = some name ∧ (part = 0 → name ≠ "") ∧
      (part ≠ 0 → ∃ resolved, t.resolve name = some resolved ∧ External t sg resolved)

end

namespace RoutedInputsLemmas

open InputPackingLemmas TranslationWalkLemmas GraphWellFormedLemmas ClaimedGroupsLemmas

variable {rest : TranslatorRest} {sg : SubgraphInfo} {g : Graph} {t : Translation FieldDesc}

/-! ## The walk -/

/-- Every compiled node is made from a node that was walked. -/
def AllMade (rest : TranslatorRest) (sg : SubgraphInfo) (done : List Node)
    (t : Translation FieldDesc) : Prop :=
  ∀ cn ∈ t.compiledNodes, ∃ node ∈ done, ∃ translator shapes p,
    MadeFrom rest sg.allInitializers cn node translator shapes p

theorem compiledNodes_elide (t : Translation FieldDesc) (inputNames outputNames : List String) :
    (elide t inputNames outputNames).compiledNodes = t.compiledNodes := by
  unfold elide
  split
  · rfl
  · split
    · rfl
    · rfl

theorem allMade_turn {done : List Node} {node : Node} {translated : TranslatedOp FieldDesc}
    (h : AllMade rest sg done t)
    (htranslated : Translates (routedRegistry rest) sg.allInitializers t.valueShapes node
      translated) : AllMade rest sg (done ++ [node]) (turn t node translated) := by
  have hold : ∀ cn ∈ t.compiledNodes, ∃ n ∈ done ++ [node], ∃ translator shapes p,
      MadeFrom rest sg.allInitializers cn n translator shapes p := by
    intro cn hcn
    obtain ⟨n, hn, hmade⟩ := h cn hcn
    exact ⟨n, List.mem_append_left _ hn, hmade⟩
  unfold turn
  dsimp only
  split
  · intro cn hcn
    rw [compiledNodes_elide] at hcn
    exact hold cn hcn
  · next hkept =>
    intro cn hcn
    rcases List.mem_append.1 hcn with hcn | hcn
    · exact hold cn hcn
    · obtain rfl := List.mem_singleton.1 hcn
      obtain ⟨f, hreg, hf⟩ := htranslated
      obtain ⟨translator, hlookup, rfl⟩ := Option.map_eq_some_iff.1 hreg
      unfold Translator.translate at hf
      split at hf
      · obtain ⟨p, hp, rfl⟩ := Option.map_eq_some_iff.1 hf
        refine ⟨node, List.mem_append_right _ (List.mem_singleton_self _), translator,
          t.valueShapes, p, hlookup, hp, ?_, rfl, rfl⟩
        exact Bool.eq_false_iff.2 hkept
      · cases hf

theorem allMade (h : translateNodes (routedRegistry rest) sg g.nodes = some t) :
    AllMade rest sg g.nodes t := by
  refine walk_induction ?_ (fun _ _ _ _ _ _ hs htranslated => ?_) h
  · intro cn hcn
    cases hcn
  · exact allMade_turn hs htranslated

/-! ## What is wired to a field -/

section

variable {im : DmlInputMap} {live : List Nat} {constBase offset : Nat}
  {cn : CompiledNode FieldDesc} {p : Packing} {tensor : Nat → DmlTensorInfo}
  {outputTensors : List DmlTensorInfo} {outputSource : List (Int × Int)}

/-- The packed input that is wired to a field of the primary operator. -/
theorem packed_of_operand (h : p.primary.Matches p.wiredTo) {slot i : Nat}
    (hfield : p.primary.operand slot = some (.input i)) :
    ∃ s, ((List.range p.count).filter fun s => p.slotOf s = slot) = [s] ∧ p.inputOf s = i := by
  have hslot := h slot
  rw [Packing.wiredTo, hfield, Option.toList_some, List.map_eq_singleton_iff] at hslot
  obtain ⟨s, hs, heq⟩ := hslot
  cases heq
  exact ⟨s, hs, rfl⟩

/-- An unnamed input has no edge into the primary operator. -/
theorem named_of_delivered
    (hcn : cn.translated = p.translated tensor outputTensors outputSource)
    (hwithin : p.Within cn.inputNames.length) (h : p.primary.Matches p.wiredTo) {slot i : Nat}
    (hfield : p.primary.operand slot = some (.input i))
    (hdelivered : Delivered t im live constBase cn offset 0 slot (some (.input i))) :
    ∃ name, cn.inputNames[i]? = some name ∧ name ≠ "" := by
  obtain ⟨name, source, hname, -, hedges⟩ := hdelivered
  obtain ⟨s, hs, rfl⟩ := packed_of_operand h hfield
  refine ⟨name, hname, ?_⟩
  rintro rfl
  rw [edgesInto_primary_eq hcn hwithin, hs] at hedges
  simp [operandEdge, hname] at hedges

/-- A produced value has no edge into a sub-node. -/
theorem given_of_delivered {k : Nat} {sn : SubNode FieldDesc}
    (hsn : cn.translated.subNodes[k]? = some sn) (h : sn.opDesc.Matches sn.wiredTo) {slot i : Nat}
    (hfield : sn.opDesc.operand slot = some (.input i))
    (hdelivered : Delivered t im live constBase cn offset (k + 1) slot (some (.input i))) :
    ∃ name source, cn.inputNames[i]? = some name ∧ t.sourceOf im name = some source ∧
      source.isProduced = false := by
  obtain ⟨name, source, hname, hsource, hedges⟩ := hdelivered
  refine ⟨name, source, hname, hsource, ?_⟩
  have hslot := h slot
  unfold SubNode.wiredTo at hslot
  rw [hfield, Option.toList_some] at hslot
  rw [edgesInto_sub hsn, innerEdges_at, subInputEdges_at] at hedges
  -- the slot is not wired from another operator
  cases hinner : (sn.inputFrom[slot]?).filter fun src => -1 ≤ src.1 with
  | some src =>
    rw [hinner] at hslot
    cases hslot
  | none =>
    rw [hinner, Option.map_none, Option.toList_none, List.nil_append] at hslot hedges
    obtain ⟨entry, hentry, heq⟩ := List.map_eq_singleton_iff.1 hslot
    cases heq
    rw [hentry] at hedges
    cases hproduced : source.isProduced with
    | false => rfl
    | true => simp [hname, hsource, hproduced] at hedges

end

/-- A value that is not produced in the group comes from outside. -/
theorem external_of_given {name : String} {source : ValueSource}
    (hsource : t.sourceOf (compileInputMap t sg) name = some source)
    (hgiven : source.isProduced = false) :
    ∃ resolved, t.resolve name = some resolved ∧ External t sg resolved := by
  obtain ⟨resolved, hres, hfound⟩ := Option.bind_eq_some_iff.1 hsource
  refine ⟨resolved, hres, ?_⟩
  by_contra hext
  rw [findSource_of_inner hext] at hfound
  obtain ⟨p, -, rfl⟩ := Option.map_eq_some_iff.1 hfound
  cases hgiven

theorem given_of_external {name resolved : String} (hres : t.resolve name = some resolved)
    (hext : External t sg resolved) :
    ∃ source, t.sourceOf (compileInputMap t sg) name = some source ∧
      source.isProduced = false := by
  obtain ⟨source, hsource, hnot⟩ := findSource_of_external hext
  refine ⟨source, ?_, ?_⟩
  · rw [Translation.sourceOf, hres, Option.bind_some, hsource]
  · cases source with
    | constant c => rfl
    | graphInput i => rfl
    | produced node slot => exact absurd rfl (hnot node slot)

/-! ## A kept node -/

section

variable {desc : DmlGraphDesc FieldDesc} (hd : Described t sg desc) {i : Nat}
  (hi : i ∈ t.liveNodes sg) {cn : CompiledNode FieldDesc} (hcn : t.compiledNodes[i]? = some cn)
  {node : Node} {translator : Translator} {shapes : ValueShapes} {p : Packing}
  (hmade : MadeFrom rest sg.allInitializers cn node translator shapes p)

include hmade

theorem routes_of_made : p.Routes cn.inputNames.length (translator.Misroutes node shapes) := by
  have hlen : cn.inputNames.length = node.inputs.length := by
    rw [hmade.inputNames, getNodeInputNames, List.length_map]
  rw [hlen]
  exact Translator.routes hmade.packed hmade.kept

theorem subNode_of_desc {k : Nat} {d : FieldDesc} (h : p.desc (k + 1) = some d) :
    ∃ sn, cn.translated.subNodes[k]? = some sn ∧ sn ∈ p.subNodes ∧ sn.opDesc = d := by
  obtain ⟨sn, hsn, rfl⟩ := Option.map_eq_some_iff.1 h
  refine ⟨sn, ?_, List.mem_of_getElem? hsn, rfl⟩
  rw [hmade.translated]
  exact hsn

/-- Where every field gets its edge, the inputs are there. -/
theorem inputsGiven_of_routed (h : Routed t sg i cn p) : InputsGiven t sg cn.inputNames p := by
  intro part d hdesc slot input hfield
  have hdelivered := h.delivered part d hdesc slot
  rw [hfield] at hdelivered
  cases part with
  | zero =>
    cases hdesc
    obtain ⟨name, hname, hne⟩ := named_of_delivered hmade.translated (routes_of_made hmade).within
      h.straight.primary hfield hdelivered
    exact ⟨name, hname, fun _ => hne, fun hpart => absurd rfl hpart⟩
  | succ k =>
    obtain ⟨sn, hsn, hmem, rfl⟩ := subNode_of_desc hmade hdesc
    obtain ⟨name, source, hname, hsource, hgiven⟩ :=
      given_of_delivered hsn (h.straight.subNodes sn hmem) hfield hdelivered
    exact ⟨name, hname, fun hpart => absurd hpart (Nat.succ_ne_zero k),
      fun _ => external_of_given hsource hgiven⟩

include hd hi hcn

/-- The wiring has found what the primary operator reads. -/
theorem sourced_of_described (hstraight : p.primary.Matches p.wiredTo) {slot input : Nat}
    (hfield : p.primary.operand slot = some (.input input)) {name : String}
    (hname : cn.inputNames[input]? = some name) (hne : name ≠ "") :
    ∃ source, t.sourceOf (compileInputMap t sg) name = some source := by
  obtain ⟨s, hs, rfl⟩ := packed_of_operand hstraight hfield
  have hmem : s ∈ List.range p.count := (List.mem_filter.1 (hs ▸ List.mem_singleton_self s)).1
  have hslot : (s, name) ∈ cn.primarySlots := by
    rw [primarySlots_eq hmade.translated (routes_of_made hmade).within, List.mem_filterMap]
    exact ⟨s, hmem, by rw [hname, Option.map_some]⟩
  have hends : ∀ i ∈ t.liveNodes sg, ∀ cn, t.compiledNodes[i]? = some cn →
      ∀ name ∈ cn.inputNames, (t.resolve name).isSome := fun i hi cn hcn name hname =>
    hd.resolved name (mem_liveInputNames hi hcn hname)
  obtain ⟨resolved, hres, hfound⟩ :=
    ((wireNodes_isSome hends).1 hd.wired i hi cn hcn _ hslot).resolve_left hne
  obtain ⟨source, hsource⟩ := Option.isSome_iff_exists.1 hfound
  refine ⟨source, ?_⟩
  rw [Translation.sourceOf, hres, Option.bind_some, hsource]

/-- Straight lists and inputs that are there: every field gets its edge. -/
theorem routed_of_straight (hstraight : p.Straight) (hgiven : InputsGiven t sg cn.inputNames p) :
    Routed t sg i cn p := by
  refine ⟨hstraight, (routes_of_made hmade).distinct, fun part d hdesc slot => ?_⟩
  refine hstraight.delivered hmade.translated (routes_of_made hmade).within ?_ hdesc slot
  intro part d hdesc slot input hfield
  obtain ⟨name, hname, hne, houter⟩ := hgiven part d hdesc slot input hfield
  cases part with
  | zero =>
    cases hdesc
    obtain ⟨source, hsource⟩ :=
      sourced_of_described hd hi hcn hmade hstraight.primary hfield hname (hne rfl)
    exact ⟨name, source, hname, hne, hsource, fun hpart => absurd rfl hpart⟩
  | succ k =>
    obtain ⟨resolved, hres, hext⟩ := houter (Nat.succ_ne_zero k)
    obtain ⟨source, hsource, hproduced⟩ := given_of_external hres hext
    exact ⟨name, source, hname, hne, hsource, fun _ => hproduced⟩

end

end RoutedInputsLemmas

open RoutedInputsLemmas GraphWellFormedLemmas

/-- The edges of a described group are those of its kept nodes; and every field of a kept node gets
the input it was built from exactly when the node is not misrouted and its inputs are given. -/
theorem routed_iff {rest : TranslatorRest} {sg : SubgraphInfo} {g : Graph}
    {t : Translation FieldDesc} {desc : DmlGraphDesc FieldDesc}
    (h : translateNodes (routedRegistry rest) sg g.nodes = some t)
    (hdesc : describe t sg = some desc) :
    desc.edges.Perm (slotEdges t (compileInputMap t sg) (t.liveNodes sg)
        (operatorTotal t (t.liveNodes sg))) ∧
      ∀ i ∈ t.liveNodes sg, ∀ cn, t.compiledNodes[i]? = some cn →
        ∃ node ∈ g.nodes, ∃ translator shapes p,
          MadeFrom rest sg.allInitializers cn node translator shapes p ∧
            (Routed t sg i cn p ↔
              ¬ translator.Misroutes node shapes ∧ InputsGiven t sg cn.inputNames p) := by
  have hd := described hdesc
  refine ⟨hd.edges, fun i hi cn hcn => ?_⟩
  obtain ⟨node, hnode, translator, shapes, p, hmade⟩ := allMade h cn (List.mem_of_getElem? hcn)
  have hroutes := routes_of_made hmade
  refine ⟨node, hnode, translator, shapes, p, hmade, fun hrouted => ?_, fun hok => ?_⟩
  · exact ⟨hroutes.straight.1 hrouted.straight, inputsGiven_of_routed hmade hrouted⟩
  · exact routed_of_straight hd hi hcn hmade (hroutes.straight.2 hok.1) hok.2

/-! ## Products with and without zero points -/

/-- The rest of `TranslateMatMulInteger`, for operands of rank 4 that are not broadcast. -/
def productRest : TranslatorRest where
  checks := fun node _ _ => !(getNodeOutputNames node).isEmpty
  tensor := fun node shapes s =>
    let input := (QuantizedTranslator.matMulInteger.slots node shapes).reduceOption.getD s 0
    match lookupInput node shapes input with
    | none => {}
    | some info =>
      if input < 2 then
        makeTensorInfoWithStrides info.sizes (computePackedStrides info.sizes) info.dataType
          (computeAlignedTotalBytes info.sizes info.dataType)
      else makeTensorInfo info.sizes info.dataType
  outputTensors := fun node shapes _ =>
    (((getNodeOutputNames node).head?.bind shapes).map fun info =>
      makeTensorInfo info.sizes .int32).toList
  outputSource := fun _ _ => []

def integerProduct (zeroPoints : List (Option String)) : Node where
  id := 0
  opType := "MatMulInteger"
  inputs := [some "a", some "b"] ++ zeroPoints
  outputs := [some "y"]

def productInfo (zeroPoints : List String) : SubgraphInfo where
  graphInputs := ["a", "b"] ++ zeroPoints
  graphOutputs := ["y"]
  valueShapes := fun name =>
    if name = "a" then some (makeTensorInfo [2, 3, 4, 4] .uint8)
    else if name = "b" then some (makeTensorInfo [2, 3, 4, 4] .uint8)
    else if name ∈ zeroPoints then some (makeTensorInfo [1] .uint8)
    else if name = "y" then some (makeTensorInfo [2, 3, 4, 4] .int32)
    else none
  allInitializers := fun _ => none

/-- Both zero points are given. -/
def fullProduct : Graph :=
  .ofNodes [integerProduct [some "az", some "bz"]] ["a", "b", "az", "bz"] ["y"] (by decide)
    (by decide) (by decide) (by decide)

/-- No zero points. -/
def bareProduct : Graph :=
  .ofNodes [integerProduct []] ["a", "b"] ["y"] (by decide) (by decide) (by decide) (by decide)

def fullTranslation : Translation FieldDesc :=
  (translateNodes (routedRegistry productRest) (productInfo ["az", "bz"]) fullProduct.nodes).get
    (by decide)

def bareTranslation : Translation FieldDesc :=
  (translateNodes (routedRegistry productRest) (productInfo []) bareProduct.nodes).get (by decide)

def fullDesc : DmlGraphDesc FieldDesc :=
  (describe fullTranslation (productInfo ["az", "bz"])).get (by decide)

def bareDesc : DmlGraphDesc FieldDesc :=
  (describe bareTranslation (productInfo [])).get (by decide)

theorem fullProduct_routed :
    fullDesc.edges.Perm (slotEdges fullTranslation
        (compileInputMap fullTranslation (productInfo ["az", "bz"]))
        (fullTranslation.liveNodes (productInfo ["az", "bz"]))
        (operatorTotal fullTranslation (fullTranslation.liveNodes (productInfo ["az", "bz"])))) ∧
      ∀ i ∈ fullTranslation.liveNodes (productInfo ["az", "bz"]), ∀ cn,
        fullTranslation.compiledNodes[i]? = some cn →
          ∃ node ∈ fullProduct.nodes, ∃ translator shapes p,
            MadeFrom productRest (productInfo ["az", "bz"]).allInitializers cn node translator
                shapes p ∧
              (Routed fullTranslation (productInfo ["az", "bz"]) i cn p ↔
                ¬ translator.Misroutes node shapes ∧
                  InputsGiven fullTranslation (productInfo ["az", "bz"]) cn.inputNames p) :=
  routed_iff (Option.some_get _).symm (Option.some_get _).symm

/-- The packing of a product without zero points: the field of `b` is in slot 2. -/
def barePacking : Packing :=
  .schema [some 0, none, some 1, none] []

/-- The second operand is wired to slot 1, the zero point of the first operand, and its own slot
has no edge. -/
theorem bareProduct_shifted :
    translateNodes (routedRegistry productRest) (productInfo []) bareProduct.nodes =
        some bareTranslation ∧
      describe bareTranslation (productInfo []) = some bareDesc ∧
      0 ∈ bareTranslation.liveNodes (productInfo []) ∧
      (∃ cn, bareTranslation.compiledNodes[0]? = some cn ∧
        MadeFrom productRest (productInfo []).allInitializers cn (integerProduct [])
          (.quantized .matMulInteger) (productInfo []).valueShapes barePacking ∧
        ¬ Routed bareTranslation (productInfo []) 0 cn barePacking) ∧
      bareDesc.edges = [⟨0, 0, .graphInput 0⟩, ⟨0, 1, .graphInput 1⟩] := by
  refine ⟨(Option.some_get _).symm, (Option.some_get _).symm, by decide, ⟨_, rfl, ?_, ?_⟩,
    by decide⟩
  · exact ⟨by decide, by decide, rfl, rfl, rfl⟩
  · intro hrouted
    exact absurd hrouted.straight (by decide)

end AmdGpuEp.DirectML
