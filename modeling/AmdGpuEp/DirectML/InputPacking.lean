import AmdGpuEp.DirectML.GraphWiring

/-!
# Operands and the tensor fields they belong to

A translator decides by a few lists where the inputs of a node go: the order of
`input_tensors`, `input_name_reorder`, `dml_input_slot_indices` and
`primary_input_count` for the primary operator, `input_from` and `graph_inputs`
for a sub-node. Apart from these lists, `FixupPointers` points the fields of the
operator descriptions at tensors. The lists are straight when both say the same.

Results:
1. `Packing.Straight.delivered`: when the lists of a compiled node are straight,
   each field of its operators gets the edge of the operand that its description
   was built from, and no other.
-/

namespace AmdGpuEp.DirectML

/-! ## Descriptions by their tensor fields -/

/-- What a tensor of a translation stands for: an ONNX input of the node, the result of another
operator of the translation, or nothing (a default `DmlTensorInfo`). -/
inductive Operand
  | input (index : Nat)
  | inner
  | unset
  deriving DecidableEq, Repr

/-- An operator description: what its input tensors stand for, and the tensor that each input field
of the operator schema points to; `none` for a null field. -/
structure FieldDesc where
  tensors : List Operand
  fields : List (Option Nat)
  deriving DecidableEq, Repr

/-- What the field of a schema slot was built from. -/
def FieldDesc.operand (d : FieldDesc) (slot : Nat) : Option Operand :=
  (d.fields[slot]?).join.bind fun i => d.tensors[i]?

/-- The parts of a `TranslatedOp` that decide where the inputs of its node go. -/
structure Packing where
  primary : FieldDesc
  subNodes : List (SubNode FieldDesc) := []
  inputNameReorder : List Nat := []
  dmlInputSlotIndices : List Nat := []
  primaryInputCount : Nat := 0
  passthrough : Bool := false
  deriving DecidableEq, Repr

namespace Packing

variable (p : Packing)

/-- The translation with these parts. -/
def translated (tensor : Nat → DmlTensorInfo) (outputTensors : List DmlTensorInfo)
    (outputSource : List (Int × Int)) : TranslatedOp FieldDesc where
  opDesc := p.primary
  inputTensors := (List.range p.primary.tensors.length).map tensor
  outputTensors := outputTensors
  passthrough := p.passthrough
  subNodes := p.subNodes
  inputNameReorder := p.inputNameReorder
  dmlInputSlotIndices := p.dmlInputSlotIndices
  primaryInputCount := p.primaryInputCount
  outputSource := outputSource

/-- How many packed inputs are wired to the primary operator. -/
def count : Nat :=
  if 0 < p.primaryInputCount then p.primaryInputCount else p.primary.tensors.length

/-- The schema slot of a packed input. -/
def slotOf (s : Nat) : Nat :=
  if p.dmlInputSlotIndices.isEmpty then s else p.dmlInputSlotIndices.getD s 0

/-- The ONNX input of a packed input. -/
def inputOf (s : Nat) : Nat :=
  if p.inputNameReorder.isEmpty then s else p.inputNameReorder.getD s 0

/-- What is wired to a slot of the primary operator. -/
def wiredTo (slot : Nat) : List Operand :=
  ((List.range p.count).filter fun s => p.slotOf s = slot).map fun s => .input (p.inputOf s)

/-- The description of an operator: part 0 is the primary one. -/
def desc : Nat → Option FieldDesc
  | 0 => some p.primary
  | k + 1 => p.subNodes[k]?.map SubNode.opDesc

end Packing

/-- What is wired to a slot of a sub-node. -/
def SubNode.wiredTo (sn : SubNode FieldDesc) (slot : Nat) : List Operand :=
  ((sn.inputFrom[slot]?.filter fun src => -1 ≤ src.1).map fun _ => Operand.inner).toList ++
    (sn.graphInputs.filter fun entry => entry.2 = slot).map fun entry => .input entry.1

/-- The fields of a description stand for what is wired to their slots. -/
def FieldDesc.Matches (d : FieldDesc) (wired : Nat → List Operand) : Prop :=
  ∀ slot, wired slot = (d.operand slot).toList

/-- No two fields of an operator stand for the same ONNX input. -/
def FieldDesc.Distinct (d : FieldDesc) : Prop :=
  ∀ slot slot' i, d.operand slot = some (.input i) → d.operand slot' = some (.input i) →
    slot = slot'

/-- The lists of a translation say what its descriptions say. -/
structure Packing.Straight (p : Packing) : Prop where
  primary : p.primary.Matches p.wiredTo
  subNodes : ∀ sn ∈ p.subNodes, sn.opDesc.Matches sn.wiredTo

/-! ## Both can be decided -/

namespace FieldDesc

variable {d : FieldDesc}

theorem operand_eq_some {slot : Nat} {o : Operand} (h : d.operand slot = some o) :
    slot < d.fields.length ∧ o ∈ d.tensors := by
  obtain ⟨k, hk, ho⟩ := Option.bind_eq_some_iff.1 h
  refine ⟨?_, List.mem_of_getElem? ho⟩
  by_contra hge
  rw [List.getElem?_eq_none (Nat.le_of_not_lt hge)] at hk
  cases hk

theorem distinct_iff :
    (∀ slot < d.fields.length, ∀ slot' < d.fields.length, ∀ o ∈ d.tensors,
      d.operand slot = some o → d.operand slot' = some o → o = .inner ∨ o = .unset ∨ slot = slot') ↔
      d.Distinct := by
  constructor
  · intro h slot slot' i hslot hslot'
    obtain ⟨hlt, hmem⟩ := operand_eq_some hslot
    rcases h slot hlt slot' (operand_eq_some hslot').1 _ hmem hslot hslot' with heq | heq | heq
    · cases heq
    · cases heq
    · exact heq
  · intro h slot _ slot' _ o _ hslot hslot'
    cases o with
    | input i => exact Or.inr (Or.inr (h slot slot' i hslot hslot'))
    | inner => exact Or.inl rfl
    | unset => exact Or.inr (Or.inl rfl)

instance : Decidable d.Distinct :=
  decidable_of_iff _ distinct_iff

end FieldDesc

theorem le_foldr_max {l : List Nat} {n : Nat} (h : n ∈ l) : n ≤ l.foldr max 0 := by
  induction l with
  | nil => cases h
  | cons m l ih =>
    rcases List.mem_cons.1 h with rfl | h
    · exact Nat.le_max_left ..
    · exact Nat.le_trans (ih h) (Nat.le_max_right ..)

/-- From a bound on, no slot has a field and nothing is wired. -/
theorem FieldDesc.matches_iff {d : FieldDesc} {wired : Nat → List Operand} {n : Nat}
    (hfields : d.fields.length ≤ n) (hwired : ∀ slot, n ≤ slot → wired slot = []) :
    (∀ slot < n, wired slot = (d.operand slot).toList) ↔ d.Matches wired := by
  refine ⟨fun h slot => ?_, fun h slot _ => h slot⟩
  rcases Nat.lt_or_ge slot n with hlt | hge
  · exact h slot hlt
  · have hnone : d.fields[slot]? = none := by
      rw [List.getElem?_eq_none_iff]
      omega
    rw [hwired slot hge, FieldDesc.operand, hnone]
    rfl

namespace SubNode

variable (sn : SubNode FieldDesc)

def slotBound : Nat :=
  max sn.opDesc.fields.length
    (max sn.inputFrom.length ((sn.graphInputs.map fun entry => entry.2 + 1).foldr max 0))

theorem wiredTo_eq_nil {slot : Nat} (h : sn.slotBound ≤ slot) : sn.wiredTo slot = [] := by
  have hlen : sn.inputFrom.length ≤ slot :=
    Nat.le_trans (Nat.le_trans (Nat.le_max_left ..) (Nat.le_max_right ..)) h
  have hgraph : ∀ entry ∈ sn.graphInputs, entry.2 ≠ slot := by
    rintro entry hentry rfl
    have hle := le_foldr_max (List.mem_map_of_mem (f := fun e : Nat × Nat => e.2 + 1) hentry)
    have hbound : (sn.graphInputs.map fun e => e.2 + 1).foldr max 0 ≤ sn.slotBound :=
      Nat.le_trans (Nat.le_max_right ..) (Nat.le_max_right ..)
    omega
  unfold wiredTo
  rw [List.getElem?_eq_none hlen, List.filter_eq_nil_iff.2 fun entry hentry => by
    simpa using hgraph entry hentry]
  rfl

instance : Decidable (sn.opDesc.Matches sn.wiredTo) :=
  decidable_of_iff _ (FieldDesc.matches_iff (Nat.le_max_left ..) fun _ => sn.wiredTo_eq_nil)

end SubNode

namespace Packing

variable (p : Packing)

def slotBound : Nat :=
  max p.primary.fields.length (((List.range p.count).map fun s => p.slotOf s + 1).foldr max 0)

theorem wiredTo_eq_nil {slot : Nat} (h : p.slotBound ≤ slot) : p.wiredTo slot = [] := by
  unfold wiredTo
  rw [List.map_eq_nil_iff, List.filter_eq_nil_iff]
  intro s hs
  have hle := le_foldr_max (List.mem_map_of_mem (f := fun s => p.slotOf s + 1) hs)
  have hbound : ((List.range p.count).map fun s => p.slotOf s + 1).foldr max 0 ≤ p.slotBound :=
    Nat.le_max_right ..
  rw [decide_eq_true_iff]
  omega

instance : Decidable (p.primary.Matches p.wiredTo) :=
  decidable_of_iff _ (FieldDesc.matches_iff (Nat.le_max_left ..) fun _ => p.wiredTo_eq_nil)

instance : Decidable p.Straight :=
  decidable_of_iff (p.primary.Matches p.wiredTo ∧ ∀ sn ∈ p.subNodes, sn.opDesc.Matches sn.wiredTo)
    ⟨fun h => ⟨h.1, h.2⟩, fun h => ⟨h.primary, h.subNodes⟩⟩

end Packing

/-- The lists only name inputs that a node with `n` inputs has. -/
structure Packing.Within (p : Packing) (n : Nat) : Prop where
  count : p.count ≤ n
  reorder : p.inputNameReorder = [] ∨ p.count ≤ p.inputNameReorder.length
  inputs : ∀ i ∈ p.inputNameReorder, i < n

/-! ## Edges into a slot -/

/-- The value comes from another node of the group. -/
def ValueSource.isProduced : ValueSource → Bool
  | .produced _ _ => true
  | _ => false

section

variable (t : Translation FieldDesc) (im : DmlInputMap) (live : List Nat) (constBase : Nat)
  (cn : CompiledNode FieldDesc) (offset : Nat)

/-- The edges into a slot of an operator of a compiled node. -/
def edgesInto (part slot : Nat) : List PartEdge :=
  (partEdges t im live constBase cn offset).filter fun e => e.part = part ∧ e.input = slot

/-- A slot gets what its field was built from: one edge, from the value that the ONNX input stands
for or from an operator of the same node, and no edge at all for a null field. -/
def Delivered (part slot : Nat) : Option Operand → Prop
  | none => edgesInto t im live constBase cn offset part slot = []
  | some (.input i) => ∃ name source, cn.inputNames[i]? = some name ∧
      t.sourceOf im name = some source ∧
      edgesInto t im live constBase cn offset part slot =
        [⟨part, slot, edgeSource t live constBase source⟩]
  | some .inner => ∃ src out, edgesInto t im live constBase cn offset part slot =
      [⟨part, slot, .node (toUInt (offset + src)) out⟩]
  | some .unset => False

end

/-! ## The edges of a slot, list by list -/

namespace InputPackingLemmas

/-- Of an indexed family, a filter keeps the member at index `k`. -/
theorem filter_flatMap_zipIdx {α β : Type} {f : α × Nat → List β} {q : β → Bool} {l : List α}
    {n k : Nat} (h : ∀ entry : α × Nat, entry.2 ≠ n + k → (f entry).filter q = []) :
    ((l.zipIdx n).flatMap f).filter q =
      l[k]?.toList.flatMap fun x => (f (x, n + k)).filter q := by
  induction l generalizing n k with
  | nil => rfl
  | cons x l ih =>
    rw [List.zipIdx_cons, List.flatMap_cons, List.filter_append]
    cases k with
    | zero =>
      have hrest : ((l.zipIdx (n + 1)).flatMap f).filter q = [] := by
        rw [List.filter_flatMap, List.flatMap_eq_nil_iff]
        intro entry hentry
        refine h entry ?_
        have hle := List.le_snd_of_mem_zipIdx hentry
        omega
      rw [hrest, List.append_nil, List.getElem?_cons_zero]
      simp
    | succ k =>
      rw [h (x, n) (by simp), List.nil_append, List.getElem?_cons_succ]
      have heq : n + (k + 1) = n + 1 + k := by omega
      rw [heq] at h ⊢
      exact ih h

variable {t : Translation FieldDesc} {im : DmlInputMap} {live : List Nat} {constBase offset : Nat}
  {cn : CompiledNode FieldDesc} {p : Packing} {slot : Nat}

theorem part_of_primaryEdges {e : PartEdge} (h : e ∈ primaryEdges t im live constBase cn) :
    e.part = 0 := by
  obtain ⟨s, -, hedge⟩ := List.mem_filterMap.1 h
  split at hedge
  · cases hedge
  · obtain ⟨source, -, rfl⟩ := Option.map_eq_some_iff.1 hedge
    rfl

theorem part_of_innerEdges {e : PartEdge} {k : Nat} {sn : SubNode FieldDesc}
    (h : e ∈ innerEdges offset k sn) : e.part = k + 1 := by
  obtain ⟨entry, -, hedge⟩ := List.mem_filterMap.1 h
  split at hedge
  · cases hedge
  · cases hedge
    rfl

theorem part_of_subInputEdges {e : PartEdge} {k : Nat} {sn : SubNode FieldDesc}
    (h : e ∈ subInputEdges t im live constBase cn k sn) : e.part = k + 1 := by
  obtain ⟨entry, -, hedge⟩ := List.mem_filterMap.1 h
  obtain ⟨name, -, hedge⟩ := Option.bind_eq_some_iff.1 hedge
  obtain ⟨source, -, hedge⟩ := Option.bind_eq_some_iff.1 hedge
  split at hedge
  · cases hedge
  · cases hedge
    rfl

theorem edgesInto_primary : edgesInto t im live constBase cn offset 0 slot =
    (primaryEdges t im live constBase cn).filter fun e => e.input = slot := by
  unfold edgesInto partEdges
  rw [List.filter_append]
  have hsub : (cn.translated.subNodes.zipIdx.flatMap fun entry =>
      innerEdges offset entry.2 entry.1 ++
        subInputEdges t im live constBase cn entry.2 entry.1).filter
          (fun e => decide (e.part = 0 ∧ e.input = slot)) = [] := by
    rw [List.filter_eq_nil_iff]
    intro e he
    obtain ⟨entry, -, he⟩ := List.mem_flatMap.1 he
    have hpart : e.part = entry.2 + 1 := by
      rcases List.mem_append.1 he with he | he
      · exact part_of_innerEdges he
      · exact part_of_subInputEdges he
    simp [hpart]
  rw [hsub, List.append_nil]
  refine List.filter_congr fun e he => ?_
  simp [part_of_primaryEdges he]

theorem edgesInto_sub {k : Nat} {sn : SubNode FieldDesc}
    (hsn : cn.translated.subNodes[k]? = some sn) :
    edgesInto t im live constBase cn offset (k + 1) slot =
      ((innerEdges offset k sn).filter fun e => e.input = slot) ++
        (subInputEdges t im live constBase cn k sn).filter fun e => e.input = slot := by
  unfold edgesInto partEdges
  have hprimary : (primaryEdges t im live constBase cn).filter
      (fun e => decide (e.part = k + 1 ∧ e.input = slot)) = [] := by
    rw [List.filter_eq_nil_iff]
    intro e he
    simp [part_of_primaryEdges he]
  have hother : ∀ entry : SubNode FieldDesc × Nat, entry.2 ≠ 0 + k →
      (innerEdges offset entry.2 entry.1 ++
        subInputEdges t im live constBase cn entry.2 entry.1).filter
          (fun e => decide (e.part = k + 1 ∧ e.input = slot)) = [] := by
    intro entry hentry
    rw [List.filter_eq_nil_iff]
    intro e he
    have hpart : e.part = entry.2 + 1 := by
      rcases List.mem_append.1 he with he | he
      · exact part_of_innerEdges he
      · exact part_of_subInputEdges he
    have hne : entry.2 ≠ k := by omega
    simp [hpart, hne]
  rw [List.filter_append, hprimary, List.nil_append, filter_flatMap_zipIdx hother, hsn,
    Option.toList_some, List.flatMap_singleton, Nat.zero_add, List.filter_append]
  congr 1
  · refine List.filter_congr fun e he => ?_
    simp [part_of_innerEdges he]
  · refine List.filter_congr fun e he => ?_
    simp [part_of_subInputEdges he]

/-- The edge of an ONNX input into a slot. -/
def operandEdge (t : Translation FieldDesc) (im : DmlInputMap) (live : List Nat) (constBase : Nat)
    (cn : CompiledNode FieldDesc) (part slot i : Nat) : Option PartEdge :=
  cn.inputNames[i]?.bind fun name =>
    if name = "" then none
    else (t.sourceOf im name).map fun source => ⟨part, slot, edgeSource t live constBase source⟩

/-! ## The primary operator -/

section

variable {tensor : Nat → DmlTensorInfo} {outputTensors : List DmlTensorInfo}
  {outputSource : List (Int × Int)}

theorem primarySlots_eq (hcn : cn.translated = p.translated tensor outputTensors outputSource)
    (hwithin : p.Within cn.inputNames.length) :
    cn.primarySlots = (List.range p.count).filterMap fun s =>
      (cn.inputNames[p.inputOf s]?).map fun name => (s, name) := by
  have hcount : cn.primaryInputCount = p.count := by
    simp [CompiledNode.primaryInputCount, hcn, Packing.translated, Packing.count]
  unfold CompiledNode.primarySlots CompiledNode.slotsBelow
  rw [hcount, Nat.min_eq_right hwithin.count]
  refine List.filterMap_congr fun s hs => ?_
  have hs : s < p.count := List.mem_range.1 hs
  have hreorder : cn.translated.inputNameReorder = p.inputNameReorder := by
    rw [hcn]
    rfl
  rw [hreorder]
  unfold Packing.inputOf
  rcases hwithin.reorder with hempty | hlen
  · simp [hempty]
  · have hlt : s < p.inputNameReorder.length := Nat.lt_of_lt_of_le hs hlen
    have hne : p.inputNameReorder.isEmpty = false := by
      rw [List.isEmpty_eq_false_iff]
      rintro heq
      simp [heq] at hlt
    simp [hne, hlt]

/-- The edges into a slot of the primary operator, by packed inputs. -/
theorem edgesInto_primary_eq (hcn : cn.translated = p.translated tensor outputTensors outputSource)
    (hwithin : p.Within cn.inputNames.length) :
    edgesInto t im live constBase cn offset 0 slot =
      ((List.range p.count).filter fun s => p.slotOf s = slot).filterMap fun s =>
        operandEdge t im live constBase cn 0 slot (p.inputOf s) := by
  have hslot : ∀ s, cn.schemaSlot s = p.slotOf s := by
    intro s
    rw [CompiledNode.schemaSlot, hcn]
    rfl
  rw [edgesInto_primary, primaryEdges, primarySlots_eq hcn hwithin, List.filterMap_filterMap,
    List.filter_filterMap, List.filterMap_filter]
  refine List.filterMap_congr fun s _ => ?_
  unfold operandEdge
  cases hname : cn.inputNames[p.inputOf s]? with
  | none => simp
  | some name =>
    simp only [Option.map_some, Option.bind_some, hslot]
    by_cases hempty : name = ""
    · simp [hempty]
    · rw [if_neg hempty, if_neg hempty]
      by_cases heq : p.slotOf s = slot
      · cases t.sourceOf im name <;> simp [heq]
      · cases t.sourceOf im name <;> simp [heq]

end

/-! ## The sub-nodes -/

/-- Of an indexed family, a filter on the index keeps the member there. -/
theorem filter_filterMap_zipIdx {α β : Type} {f : α × Nat → Option β} {q : β → Bool} {l : List α}
    {k : Nat} (hq : ∀ entry b, f entry = some b → q b = decide (entry.2 = k)) :
    (l.zipIdx.filterMap f).filter q = (l[k]?.bind fun x => f (x, k)).toList := by
  have hother : ∀ entry : α × Nat, entry.2 ≠ 0 + k → (f entry).toList.filter q = [] := by
    intro entry hentry
    rw [Nat.zero_add] at hentry
    cases hf : f entry with
    | none => rfl
    | some b => simp [hq entry b hf, hentry]
  rw [List.filterMap_eq_flatMap_toList, filter_flatMap_zipIdx hother]
  cases l[k]? with
  | none => rfl
  | some x =>
    cases hf : f (x, 0 + k) with
    | none =>
      rw [Nat.zero_add] at hf
      simp [hf]
    | some b =>
      have hqb := hq _ b hf
      rw [Nat.zero_add] at hf
      simp [hf, hqb]

theorem innerEdges_at {k : Nat} {sn : SubNode FieldDesc} :
    (innerEdges offset k sn).filter (fun e => e.input = slot) =
      ((sn.inputFrom[slot]?.filter fun src => -1 ≤ src.1).map fun src =>
        (⟨k + 1, slot, .node (toUInt (offset + (src.1 + 1).toNat)) (toUInt src.2.toNat)⟩ :
          PartEdge)).toList := by
  unfold innerEdges
  rw [filter_filterMap_zipIdx (k := slot)]
  · cases hsrc : sn.inputFrom[slot]? with
    | none => rfl
    | some src =>
      by_cases hskip : src.1 < -1
      · simp [Option.filter, hskip]
      · have hle : -1 ≤ src.1 := by omega
        simp [Option.filter, hskip, hle]
  · intro entry b hb
    split at hb
    · cases hb
    · cases hb
      rfl

/-- An ONNX input has an edge into a sub-node when it is a constant or a graph input. -/
theorem subInputEdges_at {k : Nat} {sn : SubNode FieldDesc} :
    (subInputEdges t im live constBase cn k sn).filter (fun e => e.input = slot) =
      (sn.graphInputs.filter fun entry => entry.2 = slot).filterMap fun entry =>
        (cn.inputNames[entry.1]?).bind fun name =>
          (t.sourceOf im name).bind fun source =>
            if source.isProduced then none
            else some ⟨k + 1, slot, edgeSource t live constBase source⟩ := by
  unfold subInputEdges
  rw [List.filter_filterMap, List.filterMap_filter]
  refine List.filterMap_congr fun entry _ => ?_
  cases cn.inputNames[entry.1]? with
  | none => simp
  | some name =>
    cases hsource : t.sourceOf im name with
    | none => simp [hsource]
    | some source =>
      by_cases heq : entry.2 = slot
      · cases source <;> simp [hsource, heq, ValueSource.isProduced]
      · cases source <;> simp [hsource, heq]

/-! ## Straight lists -/

theorem mem_operand_of_wired {wired : List Operand} {field : Option Operand} {o : Operand}
    (h : wired = field.toList) (ho : o ∈ wired) : field = some o := by
  rw [h] at ho
  exact Option.mem_toList.1 ho

/-- The primary operator of a translation with straight lists. -/
theorem delivered_primary {tensor : Nat → DmlTensorInfo} {outputTensors : List DmlTensorInfo}
    {outputSource : List (Int × Int)}
    (hcn : cn.translated = p.translated tensor outputTensors outputSource)
    (hwithin : p.Within cn.inputNames.length) (hstraight : p.primary.Matches p.wiredTo)
    (hnamed : ∀ slot i, p.primary.operand slot = some (.input i) →
      ∃ name source, cn.inputNames[i]? = some name ∧ name ≠ "" ∧
        t.sourceOf im name = some source) (slot : Nat) :
    Delivered t im live constBase cn offset 0 slot (p.primary.operand slot) := by
  have hslot := hstraight slot
  unfold Packing.wiredTo at hslot
  have hedges : edgesInto t im live constBase cn offset 0 slot = _ :=
    edgesInto_primary_eq hcn hwithin
  cases hfield : p.primary.operand slot with
  | none =>
    rw [hfield, Option.toList_none, List.map_eq_nil_iff] at hslot
    rw [hslot] at hedges
    exact hedges
  | some o =>
    rw [hfield, Option.toList_some, List.map_eq_singleton_iff] at hslot
    obtain ⟨s, hs, rfl⟩ := hslot
    obtain ⟨name, source, hname, hne, hsource⟩ := hnamed slot _ hfield
    refine ⟨name, source, hname, hsource, ?_⟩
    rw [hedges, hs]
    simp [operandEdge, hname, hne, hsource]

/-- A sub-node of a translation with straight lists. -/
theorem delivered_sub {k : Nat} {sn : SubNode FieldDesc}
    (hsn : cn.translated.subNodes[k]? = some sn) (hstraight : sn.opDesc.Matches sn.wiredTo)
    (hnamed : ∀ slot i, sn.opDesc.operand slot = some (.input i) →
      ∃ name source, cn.inputNames[i]? = some name ∧ t.sourceOf im name = some source ∧
        source.isProduced = false) (slot : Nat) :
    Delivered t im live constBase cn offset (k + 1) slot (sn.opDesc.operand slot) := by
  have hslot := hstraight slot
  unfold SubNode.wiredTo at hslot
  have hedges : edgesInto t im live constBase cn offset (k + 1) slot = _ := edgesInto_sub hsn
  rw [innerEdges_at, subInputEdges_at] at hedges
  -- a slot is wired from another operator or from the ONNX inputs
  cases hinner : (sn.inputFrom[slot]?).filter fun src => -1 ≤ src.1 with
  | some src =>
    rw [hinner, Option.map_some, Option.toList_some, List.singleton_append] at hslot hedges
    have hfield := mem_operand_of_wired hslot List.mem_cons_self
    rw [hfield, Option.toList_some, List.cons.injEq, List.map_eq_nil_iff] at hslot
    rw [hslot.2, List.filterMap_nil] at hedges
    rw [hfield]
    exact ⟨_, _, hedges⟩
  | none =>
    rw [hinner, Option.map_none, Option.toList_none, List.nil_append] at hslot hedges
    cases hfield : sn.opDesc.operand slot with
    | none =>
      rw [hfield, Option.toList_none, List.map_eq_nil_iff] at hslot
      rw [hslot, List.filterMap_nil] at hedges
      exact hedges
    | some o =>
      rw [hfield, Option.toList_some, List.map_eq_singleton_iff] at hslot
      obtain ⟨entry, hentry, rfl⟩ := hslot
      obtain ⟨name, source, hname, hsource, hgiven⟩ := hnamed slot _ hfield
      refine ⟨name, source, hname, hsource, ?_⟩
      rw [hedges, hentry]
      simp [hname, hsource, hgiven]

end InputPackingLemmas

open InputPackingLemmas

/-- When the lists of a compiled node are straight, each field gets what its description was built
from. A value that is wired to a sub-node must not come from another node of the group. -/
theorem Packing.Straight.delivered {t : Translation FieldDesc} {im : DmlInputMap}
    {live : List Nat} {constBase offset : Nat} {cn : CompiledNode FieldDesc} {p : Packing}
    {tensor : Nat → DmlTensorInfo} {outputTensors : List DmlTensorInfo}
    {outputSource : List (Int × Int)} (h : p.Straight)
    (hcn : cn.translated = p.translated tensor outputTensors outputSource)
    (hwithin : p.Within cn.inputNames.length)
    (hnamed : ∀ part d, p.desc part = some d → ∀ slot i, d.operand slot = some (.input i) →
      ∃ name source, cn.inputNames[i]? = some name ∧ (part = 0 → name ≠ "") ∧
        t.sourceOf im name = some source ∧ (part ≠ 0 → source.isProduced = false))
    {part : Nat} {d : FieldDesc} (hd : p.desc part = some d) (slot : Nat) :
    Delivered t im live constBase cn offset part slot (d.operand slot) := by
  cases part with
  | zero =>
    cases hd
    refine delivered_primary hcn hwithin h.primary ?_ slot
    intro slot i hfield
    obtain ⟨name, source, hname, hne, hsource, -⟩ := hnamed 0 _ rfl slot i hfield
    exact ⟨name, source, hname, hne rfl, hsource⟩
  | succ k =>
    obtain ⟨sn, hsn, rfl⟩ := Option.map_eq_some_iff.1 hd
    have hsub : cn.translated.subNodes[k]? = some sn := by
      rw [hcn]
      exact hsn
    refine delivered_sub hsub (h.subNodes sn (List.mem_of_getElem? hsn)) ?_ slot
    intro slot i hfield
    obtain ⟨name, source, hname, -, hsource, hgiven⟩ := hnamed (k + 1) _ hd slot i hfield
    exact ⟨name, source, hname, hsource, hgiven (Nat.succ_ne_zero k)⟩

end AmdGpuEp.DirectML
