import AmdGpuEp.DirectML.PackedTranslators

/-!
# Which translators route their inputs right

The lists of a translator and the fields of its descriptions are compared, for all
translators of the registry and every choice of optional inputs.

Results:
1. `Translator.routes`: a translation only names inputs that its node has, no two
   fields of an operator stand for the same input, and its lists are straight
   exactly when its node is not among those that its translator misroutes.
-/

namespace AmdGpuEp.DirectML

/-! ## Nodes that are misrouted -/

/-- A slot without an input stands before one with an input. -/
def hasGap : List (Option Nat) → Bool
  | [] => false
  | none :: slots => slots.any Option.isSome
  | some _ :: slots => hasGap slots

/-- The nodes whose inputs do not go to the fields that were built from them:
- a quantized operator packs its operands one after the other, without `dml_input_slot_indices`,
  so that an absent zero point shifts the operands behind it;
- the tensors of a batch normalization are in the order of the schema, without
  `input_name_reorder`;
- the constant that starts a `GroupQueryAttention` has no inputs, and a `primary_input_count` of 0
  wires all of them;
- the mask and the bias of an attention are described even when they are absent. -/
def Translator.Misroutes (translator : Translator) (node : Node) (shapes : ValueShapes) : Prop :=
  match translator with
  | .quantized translator => hasGap (translator.slots node shapes) = true
  | .batchNorm | .groupQueryAttention => True
  | .dynamicQuantizeMatMul => validInput node shapes 4 = true ∧ validInput node shapes 3 = false
  | .attention => validInput node shapes 3 = false ∨ validInput node shapes 5 = false
  | .qAttention =>
    hasGap (qAttentionSlots node shapes) = true ∨ qAttentionMask node shapes = .absent
  | _ => False

/-- No two fields of one operator of a translation stand for the same input. -/
def Packing.Distinct (p : Packing) : Prop :=
  ∀ part d, p.desc part = some d → d.Distinct

/-- What is said of the packing of a node with `n` inputs: it only names inputs that the node has,
no two fields stand for the same input, and its lists are straight unless the node is misrouted. -/
structure Packing.Routes (p : Packing) (n : Nat) (misrouted : Prop) : Prop where
  within : p.Within n
  distinct : p.Distinct
  straight : p.Straight ↔ ¬ misrouted

namespace InputRoutingLemmas

/-! ## Packed slots -/

theorem filter_eq_range (m slot : Nat) :
    (List.range m).filter (fun s => s = slot) = if slot < m then [slot] else [] := by
  rw [List.filter_eq, List.nodup_range.count]
  by_cases h : slot < m
  · simp [h]
  · simp [h]

section

variable {p : Packing} {slots : List (Option Nat)} {more : List Nat} {slot : Nat}

theorem wiredTo_packed (hslots : p.dmlInputSlotIndices = []) :
    p.wiredTo slot = if slot < p.count then [.input (p.inputOf slot)] else [] := by
  have hid : ∀ s, p.slotOf s = s := fun s => by simp [Packing.slotOf, hslots]
  unfold Packing.wiredTo
  simp only [hid, filter_eq_range]
  split <;> rfl

theorem count_inOrder (packed nulls : Nat) : (Packing.inOrder packed nulls).count = packed := by
  simp [Packing.count, Packing.inOrder]

/-- The fields stand for the first inputs, in order. -/
def Leading (d : FieldDesc) (packed : Nat) : Prop :=
  ∀ slot, d.operand slot = if slot < packed then some (.input slot) else none

theorem leading_of {d : FieldDesc} {packed : Nat} (nulls : Nat)
    (hfields : d.fields = (List.range packed).map some ++ List.replicate nulls none)
    (htensors : ∀ slot < packed, d.tensors[slot]? = some (.input slot)) : Leading d packed := by
  intro slot
  unfold FieldDesc.operand
  rw [hfields]
  by_cases h : slot < packed
  · rw [List.getElem?_append_left (by simpa using h)]
    simp [h, htensors slot h]
  · rw [List.getElem?_append_right (by simpa using h), List.getElem?_replicate, if_neg h]
    split <;> rfl

theorem leading_inOrder (packed nulls : Nat) :
    Leading (Packing.inOrder packed nulls).primary packed := by
  refine leading_of nulls rfl fun slot h => ?_
  simp [Packing.inOrder, h]

/-- The first inputs in order are straight, whatever the sub-nodes are. -/
theorem matches_leading {packed : Nat} (hprimary : Leading p.primary packed)
    (hreorder : p.inputNameReorder = []) (hslots : p.dmlInputSlotIndices = [])
    (hcount : p.count = packed) : p.primary.Matches p.wiredTo := by
  intro slot
  rw [wiredTo_packed hslots, hcount, hprimary slot]
  have hinput : p.inputOf slot = slot := by simp [Packing.inputOf, hreorder]
  rw [hinput]
  split <;> rfl

/-! ## Schema slots -/

theorem numberFields_operand (front more : List Nat) (slots : List (Option Nat)) (i : Nat) :
    ((Packing.numberFields front.length slots)[i]?).join.bind
        (fun j => (front ++ (slots.reduceOption ++ more))[j]?) = (slots[i]?).join := by
  induction slots generalizing front i with
  | nil => rfl
  | cons field slots ih =>
    cases field with
    | none =>
      cases i with
      | zero => rfl
      | succ i =>
        rw [Packing.numberFields, List.reduceOption_cons_of_none, List.getElem?_cons_succ,
          List.getElem?_cons_succ]
        exact ih front i
    | some input =>
      cases i with
      | zero => simp [Packing.numberFields]
      | succ i =>
        have hnext := ih (front ++ [input]) i
        rw [List.length_append, List.length_singleton, List.append_assoc,
          List.singleton_append] at hnext
        rw [Packing.numberFields, List.reduceOption_cons_of_some, List.getElem?_cons_succ,
          List.getElem?_cons_succ, List.cons_append]
        exact hnext

/-- The field of a schema slot stands for the input of the slot. -/
theorem operand_schema : (Packing.schema slots more).primary.operand slot =
    ((slots[slot]?).join).map .input := by
  rw [← numberFields_operand [] more slots slot]
  unfold FieldDesc.operand Packing.schema
  cases (Packing.numberFields 0 slots)[slot]?.join with
  | none => simp
  | some j => simp [-List.map_append]

/-- Packing keeps the slots apart from those behind a gap. -/
theorem hasGap_eq_false_iff :
    hasGap slots = false ↔ ∀ i : Nat, slots.reduceOption[i]? = (slots[i]?).join := by
  induction slots with
  | nil => simp [hasGap]
  | cons field slots ih =>
    cases field with
    | none =>
      rw [hasGap, List.reduceOption_cons_of_none]
      constructor
      · intro h i
        have hnone : ∀ o ∈ slots, o = none := by simpa using h
        have hempty : slots.reduceOption = [] := by
          rw [List.reduceOption_eq_nil_iff]
          exact ⟨slots.length, List.eq_replicate_iff.2 ⟨rfl, hnone⟩⟩
        rw [hempty, List.getElem?_nil]
        cases hi : (none :: slots)[i]? with
        | none => rfl
        | some o =>
          rcases List.mem_cons.1 (List.mem_of_getElem? hi) with rfl | ho
          · rfl
          · rw [hnone o ho]
            rfl
      · intro h
        have hempty : slots.reduceOption = [] := by
          rw [List.eq_nil_iff_length_eq_zero]
          have hzero := h 0
          rw [List.getElem?_cons_zero, Option.join_some, List.getElem?_eq_none_iff] at hzero
          omega
        rw [List.any_eq_false]
        rintro o ho
        obtain ⟨n, hn⟩ := (List.reduceOption_eq_nil_iff slots).1 hempty
        rw [hn] at ho
        simp [List.eq_of_mem_replicate ho]
    | some input =>
      rw [hasGap, ih, List.reduceOption_cons_of_some]
      constructor
      · rintro h (_ | i)
        · rfl
        · exact h i
      · intro h i
        exact h (i + 1)

/-- Schema slots without slot indices are straight when no slot is skipped. -/
theorem matches_schema (hprimary : p.primary = (Packing.schema slots more).primary)
    (hreorder : p.inputNameReorder = slots.reduceOption ++ more)
    (hslots : p.dmlInputSlotIndices = []) (hcount : p.count = slots.reduceOption.length) :
    p.primary.Matches p.wiredTo ↔ hasGap slots = false := by
  have hwired : ∀ slot, p.wiredTo slot =
      ((slots.reduceOption[slot]?).map Operand.input).toList := by
    intro slot
    rw [wiredTo_packed hslots, hcount]
    by_cases h : slot < slots.reduceOption.length
    · have hne : p.inputNameReorder.isEmpty = false := by
        rw [hreorder, List.isEmpty_eq_false_iff]
        intro heq
        have hnil := (List.append_eq_nil_iff.1 heq).1
        rw [hnil] at h
        simp at h
      rw [if_pos h, Packing.inputOf, hne, hreorder]
      simp [h, List.getElem?_append_left]
    · rw [if_neg h, List.getElem?_eq_none (Nat.le_of_not_lt h)]
      rfl
  rw [hasGap_eq_false_iff]
  refine forall_congr' fun slot => ?_
  rw [hwired, hprimary, operand_schema]
  cases slots.reduceOption[slot]? with
  | none => cases (slots[slot]?).join <;> simp
  | some i => cases (slots[slot]?).join <;> simp

/-- The packed inputs of schema slots, with the slots they came from. -/
theorem zip_givenSlots (slots : List (Option Nat)) (n : Nat) :
    ((slots.zipIdx n).filterMap fun entry => entry.1.map fun i => (entry.2, i)) =
      ((slots.zipIdx n).filterMap fun entry => entry.1.map fun _ => entry.2).zip
        slots.reduceOption := by
  induction slots generalizing n with
  | nil => rfl
  | cons field slots ih =>
    rw [List.zipIdx_cons]
    cases field with
    | none => exact ih (n + 1)
    | some i =>
      rw [List.reduceOption_cons_of_some]
      exact congrArg (List.cons (n, i)) (ih (n + 1))

theorem length_givenSlots (slots : List (Option Nat)) (n : Nat) :
    ((slots.zipIdx n).filterMap fun entry => entry.1.map fun _ => entry.2).length =
      slots.reduceOption.length := by
  induction slots generalizing n with
  | nil => rfl
  | cons field slots ih =>
    rw [List.zipIdx_cons]
    cases field with
    | none => exact ih (n + 1)
    | some i =>
      rw [List.reduceOption_cons_of_some]
      exact congrArg Nat.succ (ih (n + 1))

/-- With slot indices, schema slots are straight. -/
theorem matches_givenSlots (hprimary : p.primary = (Packing.schema slots []).primary)
    (hreorder : p.inputNameReorder = slots.reduceOption)
    (hslots : p.dmlInputSlotIndices = givenSlots slots) (hcount : p.primaryInputCount = 0) :
    p.primary.Matches p.wiredTo := by
  intro slot
  have hlen : p.count = slots.reduceOption.length := by
    simp [Packing.count, hcount, hprimary, Packing.schema]
  have hgiven : (givenSlots slots).length = slots.reduceOption.length := length_givenSlots slots 0
  -- the packed inputs with their slots, as pairs
  have hwired : p.wiredTo slot =
      (((givenSlots slots).zip slots.reduceOption).filter fun e => e.1 = slot).map
        fun e => Operand.input e.2 := by
    have hpairs : (givenSlots slots).zip slots.reduceOption =
        (List.range p.count).map fun s => (p.slotOf s, p.inputOf s) := by
      refine List.ext_getElem (by simp [hgiven, hlen]) fun s h h' => ?_
      have hs : s < slots.reduceOption.length := by simpa [hgiven] using h
      have hs' : s < (givenSlots slots).length := hgiven ▸ hs
      have hne : (givenSlots slots).isEmpty = false := by
        rw [List.isEmpty_eq_false_iff]
        intro heq
        simp [heq] at hs'
      have hne' : slots.reduceOption.isEmpty = false := by
        rw [List.isEmpty_eq_false_iff]
        intro heq
        simp [heq] at hs
      rw [List.getElem_zip, List.getElem_map, List.getElem_range, Packing.slotOf, Packing.inputOf,
        hslots, hreorder, hne, hne']
      simp [hs, hs']
    rw [hpairs, List.filter_map, List.map_map]
    rfl
  rw [hwired, givenSlots, ← zip_givenSlots, hprimary, operand_schema,
    InputPackingLemmas.filter_filterMap_zipIdx (k := slot)]
  · cases (slots[slot]?) with
    | none => rfl
    | some field => cases field <;> rfl
  · intro entry b hb
    obtain ⟨i, -, rfl⟩ := Option.map_eq_some_iff.1 hb
    rfl

end

/-! ## Fields that stand for the same input -/

theorem distinct_leading {d : FieldDesc} {packed : Nat} (h : Leading d packed) : d.Distinct := by
  intro slot slot' i hslot hslot'
  rw [h, Option.ite_none_right_eq_some] at hslot hslot'
  cases hslot.2
  cases hslot'.2
  rfl

theorem distinct_schema {slots : List (Option Nat)} {more : List Nat}
    (h : slots.reduceOption.Nodup) : (Packing.schema slots more).primary.Distinct := by
  have hpairs : slots.Pairwise fun a b => ∀ i, a = some i → ∀ j, b = some j → i ≠ j :=
    List.pairwise_filterMap.1 h
  have hfield : ∀ slot i, (Packing.schema slots more).primary.operand slot = some (.input i) →
      slots[slot]? = some (some i) := by
    intro slot i hslot
    rw [operand_schema] at hslot
    obtain ⟨j, hj, heq⟩ := Option.map_eq_some_iff.1 hslot
    cases heq
    exact Option.join_eq_some_iff.1 hj
  intro slot slot' i hslot hslot'
  obtain ⟨hlt, hget⟩ := List.getElem?_eq_some_iff.1 (hfield slot i hslot)
  obtain ⟨hlt', hget'⟩ := List.getElem?_eq_some_iff.1 (hfield slot' i hslot')
  have hapart := List.pairwise_iff_getElem.1 hpairs
  rcases Nat.lt_trichotomy slot slot' with h | h | h
  · exact absurd rfl (hapart slot slot' hlt hlt' h i hget i hget')
  · exact h
  · exact absurd rfl (hapart slot' slot hlt' hlt h i hget' i hget)

/-- Fields that point at the tensors of their slots, where no two tensors stand for one input. -/
theorem distinct_of_tensors {d : FieldDesc}
    (hfield : ∀ slot o, d.operand slot = some o → d.tensors[slot]? = some o)
    (h : d.tensors.Pairwise fun a b => a = .inner ∨ a = .unset ∨ a ≠ b) : d.Distinct := by
  have hapart : ∀ (slot slot' : Nat) i, slot < slot' → d.tensors[slot]? = some (.input i) →
      d.tensors[slot']? ≠ some (.input i) := by
    intro slot slot' i hlt hslot hslot'
    obtain ⟨hslot, hget⟩ := List.getElem?_eq_some_iff.1 hslot
    obtain ⟨hslot', hget'⟩ := List.getElem?_eq_some_iff.1 hslot'
    have hne := List.pairwise_iff_getElem.1 h slot slot' hslot hslot' hlt
    rw [hget, hget'] at hne
    simp at hne
  intro slot slot' i hslot hslot'
  rcases Nat.lt_trichotomy slot slot' with h | h | h
  · exact absurd (hfield slot' _ hslot') (hapart slot slot' i h (hfield slot _ hslot))
  · exact h
  · exact absurd (hfield slot _ hslot) (hapart slot' slot i h (hfield slot' _ hslot'))

theorem distinct_denseNode {tensors : List Operand} {inputFrom : List (Int × Int)}
    {graphInputs : List (Nat × Nat)}
    (h : tensors.Pairwise fun a b => a = .inner ∨ a = .unset ∨ a ≠ b) :
    (denseNode tensors inputFrom graphInputs).opDesc.Distinct := by
  refine distinct_of_tensors (fun slot o hslot => ?_) h
  have hlt := (FieldDesc.operand_eq_some hslot).1
  unfold FieldDesc.operand denseNode at hslot
  rw [denseNode, List.length_map, List.length_range] at hlt
  show tensors[slot]? = some o
  simpa [hlt] using hslot

/-! ## Sub-nodes -/

theorem matches_innerNode {sources : List (Int × Int)} (h : ∀ src ∈ sources, -1 ≤ src.1) :
    (innerNode sources).opDesc.Matches (innerNode sources).wiredTo := by
  intro slot
  unfold SubNode.wiredTo FieldDesc.operand innerNode denseNode
  rw [List.length_map]
  by_cases hslot : slot < sources.length
  · have hle := h sources[slot] (List.getElem_mem hslot)
    simp [hslot, Option.filter, hle]
  · simp [hslot]

theorem distinct_innerNode (sources : List (Int × Int)) : (innerNode sources).opDesc.Distinct := by
  intro slot slot' i hslot
  have hmem := (FieldDesc.operand_eq_some hslot).2
  obtain ⟨src, -, heq⟩ := List.mem_map.1 hmem
  cases heq

/-- The lists of a sub-node are straight, and no two of its fields stand for the same input. -/
def Sound (sn : SubNode FieldDesc) : Prop :=
  sn.opDesc.Matches sn.wiredTo ∧ sn.opDesc.Distinct

instance (sn : SubNode FieldDesc) : Decidable (Sound sn) :=
  inferInstanceAs (Decidable (_ ∧ _))

theorem sound_skipLayerNorm (hasBeta hasBias : Bool) :
    ∀ sn ∈ skipLayerNormNodes hasBeta hasBias, Sound sn := by
  revert hasBeta hasBias
  decide

theorem sound_rotaryEmbedding (isPartial isOffset : Bool) :
    ∀ sn ∈ rotaryEmbeddingNodes isPartial isOffset, Sound sn := by
  revert isPartial isOffset
  decide

theorem sound_embedLayerNormalization (hasSegment hasMask hasPositionIds hasMaskIndex : Bool) :
    ∀ sn ∈ embedLayerNormalizationNodes hasSegment hasMask hasPositionIds hasMaskIndex,
      Sound sn := by
  revert hasSegment hasMask hasPositionIds hasMaskIndex
  decide

theorem matches_dynamicQuantizeMatMul (hasBZp hasBias : Bool) :
    (dynamicQuantizeMatMulNode hasBZp hasBias).opDesc.Matches
        (dynamicQuantizeMatMulNode hasBZp hasBias).wiredTo ↔
      ¬ (hasBias = true ∧ hasBZp = false) := by
  revert hasBZp hasBias
  decide

theorem distinct_dynamicQuantizeMatMul (hasBZp hasBias : Bool) :
    (dynamicQuantizeMatMulNode hasBZp hasBias).opDesc.Distinct := by
  revert hasBZp hasBias
  decide

theorem distinct_groupQueryAttention (fromPrimary : Bool) :
    (groupQueryAttentionNode fromPrimary).opDesc.Distinct := by
  revert fromPrimary
  decide

theorem operand_attentionInputs {a : AttentionInputs} {slot : Nat} (h : slot < 11) :
    a.subNode.opDesc.operand slot = if slot ∈ a.fields then some (a.tensors slot) else none := by
  unfold FieldDesc.operand AttentionInputs.subNode
  by_cases hmem : slot ∈ a.fields
  · simp [h, hmem]
  · simp [h, hmem]

/-- The inputs of an attention, slot by slot. -/
theorem matches_attentionInputs_iff {a : AttentionInputs}
    (h : ∀ entry ∈ a.graphInputs, entry.2 < 11) :
    a.subNode.opDesc.Matches a.subNode.wiredTo ↔ ∀ slot < 11,
      (if -1 ≤ (a.sources slot).1 then [Operand.inner] else []) ++
          (a.graphInputs.filter fun entry => entry.2 = slot).map (fun entry => .input entry.1) =
        if slot ∈ a.fields then [a.tensors slot] else [] := by
  refine (FieldDesc.matches_iff (n := 11) (by simp [AttentionInputs.subNode]) ?_).symm.trans
    (forall₂_congr fun slot hslot => ?_)
  · intro slot hslot
    have hgraph : ∀ entry ∈ a.graphInputs, ¬ entry.2 = slot := by
      intro entry hentry heq
      have hlt := h entry hentry
      omega
    unfold SubNode.wiredTo AttentionInputs.subNode
    rw [List.getElem?_eq_none (by simpa using hslot),
      List.filter_eq_nil_iff.2 fun entry hentry => by simpa using hgraph entry hentry]
    rfl
  · have hsource : a.subNode.inputFrom[slot]? = some (a.sources slot) := by
      simp [AttentionInputs.subNode, hslot]
    have hinner : ((some (a.sources slot)).filter fun src => -1 ≤ src.1).map
        (fun _ => Operand.inner) =
          if -1 ≤ (a.sources slot).1 then some .inner else none := by
      by_cases hle : -1 ≤ (a.sources slot).1
      · simp [Option.filter, hle]
      · simp [Option.filter, hle]
    rw [SubNode.wiredTo, hsource, hinner, operand_attentionInputs hslot]
    split <;> split <;> rfl

theorem distinct_attentionInputs {a : AttentionInputs}
    (h : ((List.range 11).map a.tensors).Pairwise fun a b => a = .inner ∨ a = .unset ∨ a ≠ b) :
    a.subNode.opDesc.Distinct := by
  refine distinct_of_tensors (fun slot o hslot => ?_) h
  have hlt := (FieldDesc.operand_eq_some hslot).1
  rw [AttentionInputs.subNode, List.length_map, List.length_range] at hlt
  rw [operand_attentionInputs hlt] at hslot
  split at hslot
  · cases hslot
    simp [AttentionInputs.subNode, hlt]
  · cases hslot

theorem matches_attention (sliced hasMask isMaxSequence hasAttBias : Bool) :
    (∀ sn ∈ attentionNodes sliced hasMask isMaxSequence hasAttBias,
        sn.opDesc.Matches sn.wiredTo) ↔ ¬ (hasMask = false ∨ hasAttBias = false) := by
  unfold attentionNodes attentionNode
  rw [List.forall_mem_append, and_iff_right, List.forall_mem_singleton, matches_attentionInputs_iff]
  · revert sliced hasMask isMaxSequence hasAttBias
    decide
  · revert sliced hasMask isMaxSequence hasAttBias
    decide
  · revert sliced isMaxSequence
    decide

theorem distinct_attention (sliced hasMask isMaxSequence hasAttBias : Bool) :
    ∀ sn ∈ attentionNodes sliced hasMask isMaxSequence hasAttBias, sn.opDesc.Distinct := by
  unfold attentionNodes attentionNode
  rw [List.forall_mem_append, List.forall_mem_singleton]
  refine ⟨?_, distinct_attentionInputs ?_⟩
  · revert sliced isMaxSequence
    decide
  · revert sliced hasMask isMaxSequence hasAttBias
    decide

theorem matches_qAttention (mask : QAttentionMask) (isMaxSequence hasPast : Bool) :
    (∀ sn ∈ qAttentionNodes mask isMaxSequence hasPast, sn.opDesc.Matches sn.wiredTo) ↔
      ¬ mask = .absent := by
  unfold qAttentionNodes qAttentionNode
  rw [List.forall_mem_append, List.forall_mem_append, List.forall_mem_singleton,
    matches_attentionInputs_iff, and_right_comm, and_iff_right]
  · cases mask <;> revert hasPast <;> decide
  · cases mask <;> revert isMaxSequence hasPast <;> decide
  · cases mask <;> revert hasPast <;> decide

theorem distinct_qAttention (mask : QAttentionMask) (isMaxSequence hasPast : Bool) :
    ∀ sn ∈ qAttentionNodes mask isMaxSequence hasPast, sn.opDesc.Distinct := by
  unfold qAttentionNodes qAttentionNode
  rw [List.forall_mem_append, List.forall_mem_append, List.forall_mem_singleton]
  refine ⟨⟨?_, distinct_attentionInputs ?_⟩, ?_⟩
  · cases mask <;> revert isMaxSequence hasPast <;> decide
  · cases mask <;> revert hasPast <;> decide
  · cases mask <;> revert isMaxSequence hasPast <;> decide

/-- A node with three fields, slot by slot. -/
theorem matches_of_three {sn : SubNode FieldDesc} (hbound : sn.slotBound = 3)
    (h0 : sn.wiredTo 0 = (sn.opDesc.operand 0).toList)
    (h1 : sn.wiredTo 1 = (sn.opDesc.operand 1).toList)
    (h2 : sn.wiredTo 2 = (sn.opDesc.operand 2).toList) : sn.opDesc.Matches sn.wiredTo := by
  refine (FieldDesc.matches_iff (n := 3) ?_ fun slot hslot => ?_).1 fun slot hslot => ?_
  · rw [← hbound]
    exact Nat.le_max_left ..
  · exact sn.wiredTo_eq_nil (hbound ▸ hslot)
  · obtain rfl | rfl | rfl : slot = 0 ∨ slot = 1 ∨ slot = 2 := by omega
    · exact h0
    · exact h1
    · exact h2

theorem sound_qLinearConcat (count : Nat) : ∀ sn ∈ qLinearConcatNodes count, Sound sn := by
  intro sn hsn
  rcases List.mem_append.1 hsn with hsn | hsn
  · obtain ⟨t, -, rfl⟩ := List.mem_map.1 hsn
    exact ⟨matches_of_three rfl rfl rfl rfl, distinct_denseNode (by simp)⟩
  · rcases List.mem_cons.1 hsn with rfl | hsn
    · refine ⟨matches_innerNode fun src hsrc => ?_, distinct_innerNode _⟩
      rcases List.mem_cons.1 hsrc with rfl | hsrc
      · exact Int.le_refl _
      · obtain ⟨t, -, rfl⟩ := List.mem_map.1 hsrc
        show (-1 : Int) ≤ (t : Int)
        omega
    · obtain rfl := List.mem_singleton.1 hsn
      refine ⟨matches_of_three rfl ?_ rfl rfl, distinct_denseNode (by simp)⟩
      have hle : (-1 : Int) ≤ ((count - 1 : Nat) : Int) := by omega
      simp [SubNode.wiredTo, denseNode, FieldDesc.operand, Option.filter, hle]

/-! ## The inputs that a translator names -/

variable {node : Node} {shapes : ValueShapes}

theorem lt_of_lookupInput {i : Nat} (h : (lookupInput node shapes i).isSome) :
    i < node.inputs.length := by
  obtain ⟨info, hinfo⟩ := Option.isSome_iff_exists.1 h
  have hlt := length_of_lookupInput hinfo
  rwa [getNodeInputNames, List.length_map] at hlt

theorem lt_of_validInput {i : Nat} (h : validInput node shapes i = true) :
    i < node.inputs.length := by
  suffices hlookup : (lookupInput node shapes i).isSome from lt_of_lookupInput hlookup
  unfold validInput at h
  unfold lookupInput
  cases hname : (getNodeInputNames node)[i]? with
  | none =>
    rw [hname] at h
    cases h
  | some name =>
    rw [hname, Option.any_some, Bool.and_eq_true] at h
    exact h.2

theorem looksUp_iff {least : Nat} {inputs : List Nat} :
    looksUp node shapes least inputs = true ↔
      least ≤ node.inputs.length ∧ ∀ i ∈ inputs, (lookupInput node shapes i).isSome := by
  rw [looksUp, Bool.and_eq_true, decide_eq_true_iff, List.all_eq_true]

/-- A translator accepts a node by its number of inputs and by their shapes. -/
theorem packed_of_looksUp {least : Nat} {inputs : List Nat} {p q : Packing}
    (h : (if looksUp node shapes least inputs then some q else none) = some p) :
    q = p ∧ least ≤ node.inputs.length ∧ ∀ i ∈ inputs, (lookupInput node shapes i).isSome := by
  split at h
  · next hlooks => exact ⟨Option.some.inj h, looksUp_iff.1 hlooks⟩
  · cases h

theorem optionalInput_cases (i : Nat) :
    optionalInput node shapes i = none ∨
      optionalInput node shapes i = some i ∧ i < node.inputs.length := by
  unfold optionalInput
  split
  · next h => exact Or.inr ⟨rfl, lt_of_validInput h⟩
  · exact Or.inl rfl

theorem lt_of_optionalInput {i j : Nat} (h : optionalInput node shapes i = some j) :
    j < node.inputs.length := by
  obtain hnone | ⟨hsome, hlt⟩ : optionalInput node shapes i = none ∨
    optionalInput node shapes i = some i ∧ i < node.inputs.length := optionalInput_cases i
  · rw [hnone] at h
    cases h
  · rw [hsome] at h
    cases h
    exact hlt

theorem within_packed {p : Packing} {n packed : Nat} (hcount : p.count = packed)
    (hreorder : p.inputNameReorder = []) (hle : packed ≤ n) : p.Within n where
  count := hcount ▸ hle
  reorder := Or.inl hreorder
  inputs i hi := by
    rw [hreorder] at hi
    cases hi

/-- An input that a slot holds is one that the node has. -/
def Below (n : Nat) (field : Option Nat) : Prop :=
  ∀ i, field = some i → i < n

theorem below_some {n i : Nat} (h : i < n) : Below n (some i) := by
  intro j hj
  cases hj
  exact h

theorem below_optionalInput (i : Nat) : Below node.inputs.length (optionalInput node shapes i) :=
  fun _ hj => lt_of_optionalInput hj

/-- The inputs that are packed when they are valid. -/
theorem lt_of_mem_valid {i j : Nat}
    (h : j ∈ if validInput node shapes i = true then [i] else []) : j < node.inputs.length := by
  split at h
  · next hvalid =>
    obtain rfl := List.mem_singleton.1 h
    exact lt_of_validInput hvalid
  · cases h

/-- A slot that holds its input, if any. -/
def Holds (field : Option Nat) (i : Nat) : Prop :=
  field = none ∨ field = some i

theorem holds_some (i : Nat) : Holds (some i) i :=
  Or.inr rfl

theorem holds_if {given : Bool} {i : Nat} : Holds (if given then some i else none) i := by
  cases given
  · exact Or.inl rfl
  · exact Or.inr rfl

theorem holds_optionalInput (i : Nat) : Holds (optionalInput node shapes i) i :=
  (optionalInput_cases i).imp id And.left

/-- Where no two slots have the same input, none is packed twice. -/
theorem reduceOption_nodup {slots : List (Option Nat)} (inputs : List Nat) (hnodup : inputs.Nodup)
    (h : List.Forall₂ Holds slots inputs) : slots.reduceOption.Nodup := by
  have hsub : slots.reduceOption.Sublist inputs := by
    clear hnodup
    induction h with
    | nil => exact .slnil
    | cons hfield _ ih =>
      rcases hfield with rfl | rfl
      · rw [List.reduceOption_cons_of_none]
        exact ih.cons _
      · rw [List.reduceOption_cons_of_some]
        exact ih.cons_cons _
  exact hsub.nodup hnodup

theorem within_schema {p : Packing} {slots : List (Option Nat)} {more : List Nat} {n : Nat}
    (hreorder : p.inputNameReorder = slots.reduceOption ++ more)
    (hcount : p.count = slots.reduceOption.length) (hnodup : slots.reduceOption.Nodup)
    (hfields : ∀ field ∈ slots, Below n field) (hmore : ∀ i ∈ more, i < n) : p.Within n := by
  have hpacked : ∀ i ∈ slots.reduceOption, i < n := by
    intro i hi
    exact hfields _ (List.reduceOption_mem_iff.1 hi) i rfl
  refine ⟨?_, Or.inr ?_, ?_⟩
  · have hsub : slots.reduceOption ⊆ List.range n := fun i hi => List.mem_range.2 (hpacked i hi)
    have hle := (List.subperm_of_subset hnodup hsub).length_le
    rw [List.length_range] at hle
    rw [hcount]
    exact hle
  · rw [hreorder, hcount, List.length_append]
    exact Nat.le_add_right ..
  · intro i hi
    rw [hreorder] at hi
    rcases List.mem_append.1 hi with hi | hi
    · exact hpacked i hi
    · exact hmore i hi

/-! ## Translator by translator -/

theorem distinct_of {p : Packing} (hprimary : p.primary.Distinct)
    (hsub : ∀ sn ∈ p.subNodes, sn.opDesc.Distinct) : p.Distinct := by
  intro part d hd
  cases part with
  | zero =>
    cases hd
    exact hprimary
  | succ k =>
    obtain ⟨sn, hsn, rfl⟩ := Option.map_eq_some_iff.1 hd
    exact hsub sn (List.mem_of_getElem? hsn)

theorem straight_iff_of_primary {p : Packing} {misrouted : Prop}
    (hprimary : p.primary.Matches p.wiredTo)
    (hsub : (∀ sn ∈ p.subNodes, sn.opDesc.Matches sn.wiredTo) ↔ ¬ misrouted) :
    p.Straight ↔ ¬ misrouted :=
  ⟨fun h => hsub.1 h.subNodes, fun h => ⟨hprimary, hsub.2 h⟩⟩

theorem straight_of_sound {p : Packing} (hprimary : p.primary.Matches p.wiredTo)
    (hsub : ∀ sn ∈ p.subNodes, Sound sn) : p.Straight ↔ ¬ False :=
  straight_iff_of_primary hprimary ⟨fun _ => not_false, fun _ sn hsn => (hsub sn hsn).1⟩

theorem routes_leading {p : Packing} {n : Nat} (packed : Nat) (hprimary : Leading p.primary packed)
    (hreorder : p.inputNameReorder = []) (hslots : p.dmlInputSlotIndices = [])
    (hcount : p.count = packed) (hle : packed ≤ n) (hsub : ∀ sn ∈ p.subNodes, Sound sn) :
    p.Routes n False where
  within := within_packed hcount hreorder hle
  distinct := distinct_of (distinct_leading hprimary) fun sn hsn => (hsub sn hsn).2
  straight := straight_of_sound (matches_leading hprimary hreorder hslots hcount) hsub

theorem routes_inOrder {p : Packing} {n packed nulls : Nat}
    (hprimary : p.primary = (Packing.inOrder packed nulls).primary)
    (hreorder : p.inputNameReorder = []) (hslots : p.dmlInputSlotIndices = [])
    (hcount : p.count = packed) (hle : packed ≤ n) (hsub : ∀ sn ∈ p.subNodes, Sound sn) :
    p.Routes n False :=
  routes_leading packed (hprimary ▸ leading_inOrder packed nulls) hreorder hslots hcount hle hsub

/-- Schema slots without slot indices, and sub-nodes behind them. -/
theorem routes_schema {p : Packing} (slots : List (Option Nat)) (more : List Nat) {n : Nat}
    {misrouted : Prop} (hprimary : p.primary = (Packing.schema slots more).primary)
    (hreorder : p.inputNameReorder = slots.reduceOption ++ more)
    (hslots : p.dmlInputSlotIndices = []) (hcount : p.count = slots.reduceOption.length)
    (hnodup : slots.reduceOption.Nodup) (hfields : ∀ field ∈ slots, Below n field)
    (hmore : ∀ i ∈ more, i < n) (hsub : ∀ sn ∈ p.subNodes, sn.opDesc.Distinct)
    (hstraight : (hasGap slots = false ∧ ∀ sn ∈ p.subNodes, sn.opDesc.Matches sn.wiredTo) ↔
      ¬ misrouted) : p.Routes n misrouted where
  within := within_schema hreorder hcount hnodup hfields hmore
  distinct := by
    refine distinct_of ?_ hsub
    rw [hprimary]
    exact distinct_schema hnodup
  straight := by
    rw [← hstraight, ← matches_schema hprimary hreorder hslots hcount]
    exact ⟨fun h => ⟨h.primary, h.subNodes⟩, fun h => ⟨h.1, h.2⟩⟩

/-- The same, when nothing can be absent. -/
theorem routes_schema_sound {p : Packing} (slots : List (Option Nat)) (more : List Nat) {n : Nat}
    (hprimary : p.primary = (Packing.schema slots more).primary)
    (hreorder : p.inputNameReorder = slots.reduceOption ++ more)
    (hslots : p.dmlInputSlotIndices = []) (hcount : p.count = slots.reduceOption.length)
    (hnodup : slots.reduceOption.Nodup) (hfields : ∀ field ∈ slots, Below n field)
    (hmore : ∀ i ∈ more, i < n) (hgap : hasGap slots = false)
    (hsub : ∀ sn ∈ p.subNodes, Sound sn) : p.Routes n False :=
  routes_schema slots more hprimary hreorder hslots hcount hnodup hfields hmore
    (fun sn hsn => (hsub sn hsn).2)
    ⟨fun _ => not_false, fun _ => ⟨hgap, fun sn hsn => (hsub sn hsn).1⟩⟩

theorem dense_routes {translator : DenseTranslator} {p : Packing}
    (h : translator.pack node shapes = some p) : p.Routes node.inputs.length False := by
  obtain ⟨rfl, hleast, -⟩ := packed_of_looksUp h
  have hle : translator.packed ≤ translator.least := by cases translator <;> decide
  refine routes_inOrder rfl rfl rfl (count_inOrder _ _) (Nat.le_trans hle hleast) ?_
  intro sn hsn
  cases hsn

theorem optional_routes {translator : OptionalTranslator} {p : Packing}
    (h : translator.pack node shapes = some p) : p.Routes node.inputs.length False := by
  obtain ⟨rfl, hleast, -⟩ := packed_of_looksUp h
  split
  · next hthird =>
    have hlt : 2 < node.inputs.length :=
      lt_of_validInput (Bool.and_eq_true_iff.1 hthird).2
    refine routes_inOrder rfl rfl rfl (count_inOrder _ _) hlt ?_
    intro sn hsn
    cases hsn
  · refine routes_inOrder rfl rfl rfl (count_inOrder _ _) hleast ?_
    intro sn hsn
    cases hsn

theorem quantized_routes {translator : QuantizedTranslator} {p : Packing}
    (h : translator.pack node shapes = some p) :
    p.Routes node.inputs.length (hasGap (translator.slots node shapes) = true) := by
  obtain ⟨rfl, -, hlookup⟩ := packed_of_looksUp h
  have hholds : List.Forall₂ Holds (translator.slots node shapes)
      (translator.operands.map Prod.fst) := by
    unfold QuantizedTranslator.slots
    rw [List.forall₂_map_left_iff, List.forall₂_map_right_iff, List.forall₂_same]
    intro operand _
    split
    · exact holds_optionalInput operand.1
    · exact holds_some operand.1
  refine routes_schema _ _ rfl rfl rfl ?_ (reduceOption_nodup _ ?_ hholds) ?_ ?_ ?_ ?_
  · simp [Packing.count, Packing.schema]
  · cases translator <;> decide
  · intro field hfield
    obtain ⟨operand, hoperand, rfl⟩ := List.mem_map.1 hfield
    split
    · exact below_optionalInput operand.1
    · next hrequired =>
      refine below_some (lt_of_lookupInput (hlookup _ (List.mem_map.2 ⟨operand, ?_, rfl⟩)))
      rw [List.mem_filter]
      exact ⟨hoperand, by simpa using hrequired⟩
  · exact List.forall_mem_nil _
  · exact List.forall_mem_nil _
  · rw [Bool.not_eq_true]
    exact ⟨And.left, fun hgap => ⟨hgap, List.forall_mem_nil _⟩⟩

theorem concat_routes {p : Packing} (h : packConcat node shapes = some p) :
    p.Routes node.inputs.length False := by
  unfold packConcat at h
  split at h
  · cases h
    refine routes_inOrder rfl rfl rfl (count_inOrder _ _) (Nat.le_refl _) ?_
    intro sn hsn
    cases hsn
  · cases h

theorem batchNorm_routes {p : Packing} (h : packBatchNorm node shapes = some p) :
    p.Routes node.inputs.length True := by
  obtain ⟨rfl, hleast, -⟩ := packed_of_looksUp h
  refine ⟨within_packed (show _ = 5 from rfl) rfl hleast, distinct_of (by decide) ?_, by decide⟩
  intro sn hsn
  cases hsn

theorem oneHot_routes {p : Packing} (h : packOneHot node shapes = some p) :
    p.Routes node.inputs.length False := by
  obtain ⟨rfl, hleast, -⟩ := packed_of_looksUp h
  refine routes_schema_sound [some 0, some 2] [] rfl rfl rfl rfl (by decide)
    ?_ (List.forall_mem_nil _) rfl (List.forall_mem_nil _)
  simp only [List.forall_mem_cons]
  exact ⟨below_some (by omega), below_some (by omega), List.forall_mem_nil _⟩

theorem groupNorm_routes {p : Packing} (h : packGroupNorm node shapes = some p) :
    p.Routes node.inputs.length False := by
  obtain ⟨rfl, hleast, -⟩ := packed_of_looksUp h
  refine routes_inOrder rfl rfl rfl rfl hleast ?_
  dsimp only
  split <;> decide

theorem quickGelu_routes {p : Packing} (h : packQuickGelu node shapes = some p) :
    p.Routes node.inputs.length False := by
  obtain ⟨rfl, hleast, -⟩ := packed_of_looksUp h
  refine routes_inOrder rfl rfl rfl rfl hleast ?_
  dsimp only
  split <;> decide

theorem biasSplitGelu_routes {p : Packing} (h : packBiasSplitGelu node shapes = some p) :
    p.Routes node.inputs.length False := by
  obtain ⟨rfl, hleast, -⟩ := packed_of_looksUp h
  exact routes_inOrder rfl rfl rfl rfl hleast (by decide)

theorem skipLayerNorm_routes {p : Packing} (h : packSkipLayerNorm node shapes = some p) :
    p.Routes node.inputs.length False := by
  obtain ⟨rfl, hleast, -⟩ := packed_of_looksUp h
  refine routes_leading 2 (leading_of 0 rfl ?_) rfl rfl rfl (by omega)
    (sound_skipLayerNorm _ _)
  intro slot hslot
  obtain rfl | rfl : slot = 0 ∨ slot = 1 := by omega
  · rfl
  · rfl

/-! ### Translators with inputs for their sub-nodes -/

theorem matMulNBits_routes {p : Packing} (h : packMatMulNBits node shapes = some p) :
    p.Routes node.inputs.length False := by
  obtain ⟨rfl, hleast, -⟩ := packed_of_looksUp h
  have hfirst : 0 < node.inputs.length := by omega
  cases hzp : validInput node shapes 3 with
  | false =>
    refine routes_schema_sound [some 1, some 2] [0] rfl rfl rfl rfl
      (by decide) ?_ (List.forall_mem_singleton.2 hfirst) rfl (by decide)
    simp only [List.forall_mem_cons]
    exact ⟨below_some (by omega), below_some (by omega), List.forall_mem_nil _⟩
  | true =>
    have hlt := lt_of_validInput hzp
    refine routes_schema_sound [some 1, some 2, some 3] [0] rfl rfl rfl rfl
      (by decide) ?_ (List.forall_mem_singleton.2 hfirst) rfl (by decide)
    simp only [List.forall_mem_cons]
    exact ⟨below_some (by omega), below_some (by omega), below_some hlt, List.forall_mem_nil _⟩

theorem dynamicQuantizeMatMul_routes {p : Packing}
    (h : packDynamicQuantizeMatMul node shapes = some p) :
    p.Routes node.inputs.length
      (validInput node shapes 4 = true ∧ validInput node shapes 3 = false) := by
  obtain ⟨rfl, hleast, -⟩ := packed_of_looksUp h
  refine routes_schema [some 0] _ rfl rfl rfl rfl (by decide) ?_ ?_ ?_ ?_
  · exact List.forall_mem_singleton.2 (below_some (by omega))
  · intro i hi
    rcases List.mem_append.1 hi with hi | hi
    · rcases List.mem_append.1 hi with hi | hi
      · have hi : i = 1 ∨ i = 2 := by simpa using hi
        omega
      · exact lt_of_mem_valid hi
    · exact lt_of_mem_valid hi
  · exact List.forall_mem_singleton.2 (distinct_dynamicQuantizeMatMul _ _)
  · rw [← matches_dynamicQuantizeMatMul]
    exact (and_iff_right rfl).trans List.forall_mem_singleton

theorem rotaryEmbedding_routes {p : Packing} (h : packRotaryEmbedding node shapes = some p) :
    p.Routes node.inputs.length False := by
  obtain ⟨rfl, hleast, -⟩ := packed_of_looksUp h
  refine routes_leading 1 (leading_of 0 rfl ?_) rfl rfl rfl (by omega)
    (sound_rotaryEmbedding _ _)
  intro slot hslot
  obtain rfl := Nat.lt_one_iff.1 hslot
  rfl

theorem groupQueryAttention_routes {p : Packing}
    (h : packGroupQueryAttention node shapes = some p) : p.Routes node.inputs.length True := by
  obtain ⟨rfl, hleast, -⟩ := packed_of_looksUp h
  generalize hgiven : ((lookupInput node shapes 0).any (fun info => info.dim 1 == 1) &&
    validInput node shapes 5) = hasSeqLens
  have hlt : hasSeqLens = true → 5 < node.inputs.length := by
    rintro rfl
    exact lt_of_validInput (Bool.and_eq_true_iff.1 hgiven).2
  refine ⟨⟨?_, Or.inr ?_, ?_⟩, distinct_of ?_ ?_, ?_⟩
  · cases hasSeqLens with
    | false => exact hleast
    | true =>
      have h5 := hlt rfl
      show 4 ≤ node.inputs.length
      omega
  · cases hasSeqLens <;> decide
  · intro i hi
    rcases List.mem_append.1 hi with hi | hi
    · have hi : i = 0 ∨ i = 1 ∨ i = 2 := by simpa using hi
      omega
    · split at hi
      · next hgiven =>
        obtain rfl := List.mem_singleton.1 hi
        exact hlt hgiven
      · cases hi
  · intro slot slot' i hslot
    cases (FieldDesc.operand_eq_some hslot).1
  · intro sn hsn
    obtain rfl := List.mem_singleton.1 hsn
    exact distinct_groupQueryAttention _
  · cases hasSeqLens <;> decide

/-- Stacked tensors and past state move the first three inputs to other slots, and leave their own
slots empty. The numbers from 20 on stand for the inputs of slots that are empty then. -/
theorem multiHeadAttentionSlots_nodup :
    (multiHeadAttentionSlots node shapes).reduceOption.Nodup := by
  unfold multiHeadAttentionSlots
  dsimp only
  generalize (lookupInput node shapes 0).any (fun info => info.rank == 5) = stackedQkv
  generalize (validInput node shapes 1 &&
    (lookupInput node shapes 1).any fun info => info.rank == 5) = stackedKv
  generalize hpast : (!stackedKv && validInput node shapes 1 &&
    (lookupInput node shapes 1).any fun info => info.rank == 4) = keyValueIsPast
  have hapart : (stackedKv && keyValueIsPast) = false := by
    rw [← hpast]
    cases stackedKv <;> rfl
  clear hpast
  refine reduceOption_nodup
    [if stackedQkv then 20 else 0, if stackedKv || keyValueIsPast then 21 else 1,
      if keyValueIsPast then 22 else 2, 23, if stackedKv then 1 else 24,
      if stackedQkv then 0 else 25, 3, 4, 5, if keyValueIsPast then 1 else 6,
      if keyValueIsPast then 2 else 7] ?_ ?_
  · revert hapart
    revert stackedQkv stackedKv keyValueIsPast
    decide
  · refine .cons ?_ <| .cons ?_ <| .cons ?_ <| .cons (Or.inl rfl) <| .cons ?_ <| .cons ?_ <|
      .cons (holds_optionalInput 3) <| .cons (holds_optionalInput 4) <|
      .cons (holds_optionalInput 5) <| .cons ?_ <| .cons ?_ .nil
    · cases stackedQkv
      · exact Or.inr rfl
      · exact Or.inl rfl
    · cases stackedKv
      · cases keyValueIsPast
        · exact holds_if
        · exact Or.inl rfl
      · exact Or.inl rfl
    · cases keyValueIsPast
      · exact holds_if
      · exact Or.inl (by simp)
    · cases stackedKv
      · exact Or.inl rfl
      · exact Or.inr rfl
    · cases stackedQkv
      · exact Or.inl rfl
      · exact Or.inr rfl
    · cases keyValueIsPast
      · exact holds_if
      · exact Or.inr rfl
    · cases keyValueIsPast
      · exact holds_if
      · exact Or.inr rfl

theorem multiHeadAttention_routes {p : Packing}
    (h : packMultiHeadAttention node shapes = some p) : p.Routes node.inputs.length False := by
  unfold packMultiHeadAttention at h
  dsimp only at h
  split at h
  · next hlooks =>
    cases h
    have hlookup := List.all_eq_true.1 (Bool.and_eq_true_iff.1 hlooks).2
    refine ⟨within_schema rfl ?_ multiHeadAttentionSlots_nodup ?_ (List.forall_mem_nil _),
      distinct_of (distinct_schema multiHeadAttentionSlots_nodup) (List.forall_mem_nil _),
      straight_of_sound (matches_givenSlots rfl (List.append_nil _) rfl rfl)
        (List.forall_mem_nil _)⟩
    · simp [Packing.count, Packing.schema]
    · intro field hfield i hi
      have hgiven := hlookup field hfield
      rw [hi] at hgiven
      exact lt_of_lookupInput hgiven
  · cases h

/-- The primary operator gets all schema slots. -/
theorem count_eq {slots : List (Option Nat)} {p : Packing}
    (h : p.primaryInputCount = slots.reduceOption.length) (hpos : 0 < slots.reduceOption.length) :
    p.count = slots.reduceOption.length := by
  rw [Packing.count, h, if_pos hpos]

theorem attention_routes {p : Packing} (h : packAttention node shapes = some p) :
    p.Routes node.inputs.length
      (validInput node shapes 3 = false ∨ validInput node shapes 5 = false) := by
  obtain ⟨rfl, hleast, -⟩ := packed_of_looksUp h
  refine routes_schema [some 0, some 1, optionalInput node shapes 2] _ rfl rfl rfl
    (count_eq rfl (Nat.succ_pos _)) ?_ ?_ ?_ (distinct_attention _ _ _ _) ?_
  · refine reduceOption_nodup [0, 1, 2] (by decide) ?_
    exact .cons (holds_some 0) <| .cons (holds_some 1) <| .cons (holds_optionalInput 2) .nil
  · simp only [List.forall_mem_cons]
    exact ⟨below_some (by omega), below_some (by omega), below_optionalInput 2,
      List.forall_mem_nil _⟩
  · intro i hi
    rcases List.mem_append.1 hi with hi | hi
    · exact lt_of_mem_valid hi
    · exact lt_of_mem_valid hi
  · rw [← matches_attention]
    refine and_iff_right ?_
    cases optionalInput node shapes 2 <;> rfl

theorem qAttention_routes {p : Packing} (h : packQAttention node shapes = some p) :
    p.Routes node.inputs.length
      (hasGap (qAttentionSlots node shapes) = true ∨ qAttentionMask node shapes = .absent) := by
  obtain ⟨rfl, hleast, -⟩ := packed_of_looksUp h
  refine routes_schema (qAttentionSlots node shapes) _ rfl rfl rfl
    (count_eq rfl (Nat.succ_pos _)) ?_ ?_ ?_ (distinct_qAttention _ _ _) ?_
  · refine reduceOption_nodup [0, 3, 6, 1, 4, 7, 2] (by decide) ?_
    exact .cons (holds_some 0) <| .cons (holds_some 3) <| .cons (holds_optionalInput 6) <|
      .cons (holds_some 1) <| .cons (holds_some 4) <| .cons (holds_optionalInput 7) <|
      .cons (holds_optionalInput 2) .nil
  · unfold qAttentionSlots
    simp only [List.forall_mem_cons]
    exact ⟨below_some (by omega), below_some (by omega), below_optionalInput 6,
      below_some (by omega), below_some (by omega), below_optionalInput 7, below_optionalInput 2,
      List.forall_mem_nil _⟩
  · intro i hi
    rcases List.mem_append.1 hi with hi | hi
    · exact lt_of_mem_valid hi
    · exact lt_of_mem_valid hi
  · rw [not_or, Bool.not_eq_true, ← matches_qAttention]

theorem embedLayerNormalization_routes {p : Packing}
    (h : packEmbedLayerNormalization node shapes = some p) :
    p.Routes node.inputs.length False := by
  obtain ⟨rfl, hleast, -⟩ := packed_of_looksUp h
  refine routes_schema_sound [some 2, some 0] _ rfl rfl rfl rfl (by decide) ?_ ?_ rfl
    (sound_embedLayerNormalization _ _ _ _)
  · simp only [List.forall_mem_cons]
    exact ⟨below_some (by omega), below_some (by omega), List.forall_mem_nil _⟩
  · intro i hi
    rcases List.mem_append.1 hi with hi | hi
    · rcases List.mem_append.1 hi with hi | hi
      · have hi : i = 3 ∨ i = 4 ∨ i = 1 ∨ i = 5 ∨ i = 6 := by
          split at hi
          · simpa [or_assoc] using hi
          · have hi : i = 3 ∨ i = 5 ∨ i = 6 := by simpa using hi
            omega
        omega
      · exact lt_of_mem_valid hi
    · exact lt_of_mem_valid hi

theorem qLinearConcat_routes {p : Packing} (h : packQLinearConcat node shapes = some p) :
    p.Routes node.inputs.length False := by
  unfold packQLinearConcat at h
  dsimp only at h
  split at h
  · next hlooks =>
    cases h
    have hleast : 5 ≤ node.inputs.length :=
      (looksUp_iff.1 (Bool.and_eq_true_iff.1 (Bool.and_eq_true_iff.1 hlooks).1).1).1
    refine routes_schema_sound [some 2, some 3, some 4] _ rfl rfl rfl rfl (by decide) ?_ ?_
      rfl (sound_qLinearConcat _)
    · simp only [List.forall_mem_cons]
      exact ⟨below_some (by omega), below_some (by omega), below_some (by omega),
        List.forall_mem_nil _⟩
    · intro i hi
      rcases List.mem_append.1 hi with hi | hi
      · obtain ⟨j, hj, rfl⟩ := List.mem_map.1 hi
        have hlt := List.mem_range.1 hj
        omega
      · have hi : i = 0 ∨ i = 1 := by simpa using hi
        omega
  · cases h

end InputRoutingLemmas

open InputRoutingLemmas

/-- What a translation that is not elided does with the inputs of its node. -/
theorem Translator.routes {translator : Translator} {node : Node} {shapes : ValueShapes}
    {p : Packing} (h : translator.pack node shapes = some p) (hkept : p.passthrough = false) :
    p.Routes node.inputs.length (translator.Misroutes node shapes) := by
  have helided : ∀ {least : Nat}, packShapeOnly node shapes least = some p → False := by
    intro least hpack
    unfold packShapeOnly at hpack
    split at hpack
    · cases hpack
      cases hkept
    · cases hpack
  cases translator with
  | dense translator => exact dense_routes h
  | optional translator => exact optional_routes h
  | quantized translator => exact quantized_routes h
  | reshape => exact (helided h).elim
  | shapeOnly => exact (helided h).elim
  | concat => exact concat_routes h
  | batchNorm => exact batchNorm_routes h
  | oneHot => exact oneHot_routes h
  | groupNorm => exact groupNorm_routes h
  | quickGelu => exact quickGelu_routes h
  | biasSplitGelu => exact biasSplitGelu_routes h
  | skipLayerNorm simplified => exact skipLayerNorm_routes h
  | matMulNBits => exact matMulNBits_routes h
  | dynamicQuantizeMatMul => exact dynamicQuantizeMatMul_routes h
  | multiHeadAttention => exact multiHeadAttention_routes h
  | rotaryEmbedding => exact rotaryEmbedding_routes h
  | groupQueryAttention => exact groupQueryAttention_routes h
  | attention => exact attention_routes h
  | qAttention => exact qAttention_routes h
  | embedLayerNormalization => exact embedLayerNormalization_routes h
  | qLinearConcat => exact qLinearConcat_routes h

end AmdGpuEp.DirectML
