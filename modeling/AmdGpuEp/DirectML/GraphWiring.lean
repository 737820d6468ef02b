import AmdGpuEp.DirectML.TranslationWalk

/-!
# The edges of a DML graph

`Compile` numbers the operators of the kept nodes one after the other, with the
constants behind them, and wires their inputs by these numbers. Here the nodes
of the graph get names, and the edges of all loops are listed node by node.

Results:
1. `label_operator_iff`: which index names an operator.
2. `wireNodes_eq_some`: when the wiring gets through, its edges are those of the
   kept nodes.
-/

namespace AmdGpuEp.DirectML

open FullGraphLemmas

variable {D : Type}

/-! ## Names for graph nodes -/

/-- What stands at an index of the node list: a part of a compiled node, the primary operator being
part 0, or the constant of an initializer. -/
inductive NodeLabel
  | operator (node part : Nat)
  | constant (name : String)
  deriving DecidableEq, Repr

namespace Translation

/-- The number of operators of a compiled node. -/
def parts (t : Translation D) (i : Nat) : Nat :=
  (t.compiledNodes[i]?.map operatorCount).getD 0

def operatorLabels (t : Translation D) (live : List Nat) : List NodeLabel :=
  live.flatMap fun i => (List.range (t.parts i)).map (.operator i)

/-- The labels of `graphNodes`, in order. -/
def labels (t : Translation D) (im : DmlInputMap) (live : List Nat) : List NodeLabel :=
  t.operatorLabels live ++ im.constantNodes.map fun entry => .constant entry.1

end Translation

/-! ## Edges into slots -/

inductive EdgeSource
  | graphInput (index : Nat)
  | node (index output : Nat)
  deriving DecidableEq, Repr

/-- An input edge or an intermediate edge, seen from its end. -/
structure SlotEdge where
  toNode : Nat
  toInput : Nat
  source : EdgeSource
  deriving DecidableEq, Repr

def Wiring.edges (w : Wiring) : List SlotEdge :=
  w.inputEdges.map (fun e => ⟨e.toNode, e.toInput, .graphInput e.graphInput⟩) ++
    w.intermediateEdges.map fun e => ⟨e.toNode, e.toInput, .node e.fromNode e.fromOutput⟩

def DmlGraphDesc.edges (desc : DmlGraphDesc D) : List SlotEdge :=
  Wiring.edges
    { inputEdges := desc.inputEdges, intermediateEdges := desc.intermediateEdges }

/-- Where the edge of a resolved name starts. -/
def edgeSource (t : Translation D) (live : List Nat) (constBase : Nat) : ValueSource → EdgeSource
  | .constant c => .node (toUInt (constBase + c)) 0
  | .graphInput i => .graphInput (toUInt i)
  | .produced node slot => .node (outputIndex t live node slot).1 (outputIndex t live node slot).2

/-- An edge of a compiled node, before its end is numbered: part, input slot and start. -/
structure PartEdge where
  part : Nat
  input : Nat
  source : EdgeSource
  deriving DecidableEq, Repr

def PartEdge.place (offset : Nat) (e : PartEdge) : SlotEdge :=
  ⟨toUInt (offset + e.part), toUInt e.input, e.source⟩

namespace CompiledNode

/-- The slot of the operator schema behind a packed slot. -/
def schemaSlot (cn : CompiledNode D) (slot : Nat) : Nat :=
  if cn.translated.dmlInputSlotIndices.isEmpty then slot
  else cn.translated.dmlInputSlotIndices.getD slot 0

end CompiledNode

/-- What a name stands for, behind its aliases. -/
def Translation.sourceOf (t : Translation D) (im : DmlInputMap) (name : String) :
    Option ValueSource :=
  (t.resolve name).bind (findSource im t)

section

variable (t : Translation D) (im : DmlInputMap) (live : List Nat) (constBase : Nat)
  (cn : CompiledNode D)

def primaryEdges : List PartEdge :=
  cn.primarySlots.filterMap fun slot =>
    if slot.2 = "" then none
    else (t.sourceOf im slot.2).map fun source =>
      ⟨0, cn.schemaSlot slot.1, edgeSource t live constBase source⟩

def innerEdges (offset k : Nat) (sn : SubNode D) : List PartEdge :=
  sn.inputFrom.zipIdx.filterMap fun entry =>
    if entry.1.1 < -1 then none
    else some ⟨k + 1, entry.2,
      .node (toUInt (offset + (entry.1.1 + 1).toNat)) (toUInt entry.1.2.toNat)⟩

/-- A produced value has no edge into a sub-node. -/
def subInputEdges (k : Nat) (sn : SubNode D) : List PartEdge :=
  sn.graphInputs.filterMap fun entry =>
    (cn.inputNames[entry.1]?).bind fun name =>
      (t.sourceOf im name).bind fun source =>
        match source with
        | .produced _ _ => none
        | source => some ⟨k + 1, entry.2, edgeSource t live constBase source⟩

/-- The edges into the operators of a compiled node. -/
def partEdges (offset : Nat) : List PartEdge :=
  primaryEdges t im live constBase cn ++
    cn.translated.subNodes.zipIdx.flatMap fun entry =>
      innerEdges offset entry.2 entry.1 ++ subInputEdges t im live constBase cn entry.2 entry.1

/-- The edges into all kept nodes. -/
def slotEdges : List SlotEdge :=
  live.flatMap fun i =>
    match t.compiledNodes[i]? with
    | none => []
    | some cn =>
      (partEdges t im live constBase cn (nodeOffset t live i)).map
        (PartEdge.place (nodeOffset t live i))

end

/-! ## The numbering of the operators -/

namespace GraphWiringLemmas

variable {t : Translation D} {im : DmlInputMap} {live : List Nat}

theorem length_operatorLabels : (t.operatorLabels live).length = (live.map t.parts).sum := by
  simp [Translation.operatorLabels, List.length_flatMap]

/-- A kept node stands behind the operators of the kept nodes before it. -/
theorem nodeOffset_split {front back : List Nat} {i : Nat}
    (hsorted : (front ++ i :: back).Pairwise (· < ·)) :
    nodeOffset t (front ++ i :: back) i = (front.map t.parts).sum := by
  obtain ⟨-, htail, hcross⟩ := List.pairwise_append.1 hsorted
  have hfront : front.filter (· < i) = front :=
    List.filter_eq_self.2 fun j hj => decide_eq_true (hcross j hj i List.mem_cons_self)
  have hback : (i :: back).filter (· < i) = [] := by
    refine List.filter_eq_nil_iff.2 fun j hj => ?_
    rcases List.mem_cons.1 hj with rfl | hj
    · simp
    · have hlt := (List.pairwise_cons.1 htail).1 j hj
      simpa using Nat.le_of_lt hlt
  have hmem : i ∈ front ++ i :: back := List.mem_append_right _ List.mem_cons_self
  unfold nodeOffset
  rw [if_pos hmem, List.filter_append, hfront, hback, List.append_nil]
  rfl

theorem operatorLabel_at (hsorted : live.Pairwise (· < ·)) {i part : Nat} (hi : i ∈ live)
    (hpart : part < t.parts i) :
    (t.operatorLabels live)[nodeOffset t live i + part]? = some (.operator i part) := by
  obtain ⟨front, back, rfl⟩ := List.append_of_mem hi
  have hlen : (t.operatorLabels front).length = (front.map t.parts).sum := length_operatorLabels
  rw [nodeOffset_split hsorted, ← hlen]
  unfold Translation.operatorLabels
  rw [List.flatMap_append, List.getElem?_append_right (Nat.le_add_right _ _),
    Nat.add_sub_cancel_left, List.flatMap_cons, List.getElem?_append_left (by simpa using hpart)]
  simp [hpart]

theorem mem_operatorLabels {i part : Nat} :
    .operator i part ∈ t.operatorLabels live ↔ i ∈ live ∧ part < t.parts i := by
  simp [Translation.operatorLabels]

theorem operatorLabels_nodup (hnodup : live.Nodup) : (t.operatorLabels live).Nodup := by
  refine List.nodup_flatMap.2 ⟨fun i _ => ?_, ?_⟩
  · exact List.nodup_range.map fun a b h => (NodeLabel.operator.inj h).2
  · refine hnodup.imp fun {i j} hne => ?_
    rw [Function.onFun, List.disjoint_left]
    intro label hlabel hlabel'
    obtain ⟨a, -, rfl⟩ := List.mem_map.1 hlabel
    obtain ⟨b, -, heq⟩ := List.mem_map.1 hlabel'
    exact hne (NodeLabel.operator.inj heq).1.symm

theorem length_labels : (t.labels im live).length = (graphNodes t im live).length := by
  have hsum : ∀ l : List Nat, ((l.filterMap (t.compiledNodes[·]?)).flatMap fun cn =>
      DmlNode.operator cn.translated.opDesc ::
        cn.translated.subNodes.map fun sn => .operator sn.opDesc).length =
      (l.map t.parts).sum := by
    intro l
    induction l with
    | nil => rfl
    | cons i l ih =>
      rw [List.map_cons, List.sum_cons, ← ih]
      unfold Translation.parts
      cases hcn : t.compiledNodes[i]? with
      | none => simp [hcn]
      | some cn =>
        rw [List.filterMap_cons_some hcn, List.flatMap_cons, List.length_append]
        simp [operatorCount, Nat.add_comm]
  unfold Translation.labels graphNodes
  rw [List.length_append, List.length_append, length_operatorLabels, hsum, List.length_map,
    List.length_map]

theorem operatorTotal_eq : operatorTotal t live = (t.operatorLabels live).length := by
  rw [length_operatorLabels, operatorTotal]
  induction live with
  | nil => rfl
  | cons i l ih =>
    rw [List.map_cons, List.sum_cons, ← ih]
    unfold Translation.parts
    cases hcn : t.compiledNodes[i]? with
    | none => simp [hcn]
    | some cn => simp [hcn]

/-- The index of an operator. -/
theorem label_operator_iff (hsorted : live.Pairwise (· < ·)) {idx i part : Nat} :
    (t.labels im live)[idx]? = some (.operator i part) ↔
      i ∈ live ∧ part < t.parts i ∧ idx = nodeOffset t live i + part := by
  have hnodup : live.Nodup := hsorted.imp Nat.ne_of_lt
  constructor
  · intro h
    have hlt : idx < (t.operatorLabels live).length := by
      by_contra hle
      unfold Translation.labels at h
      rw [List.getElem?_append_right (Nat.le_of_not_lt hle), List.getElem?_map] at h
      obtain ⟨entry, -, heq⟩ := Option.map_eq_some_iff.1 h
      cases heq
    unfold Translation.labels at h
    rw [List.getElem?_append_left hlt] at h
    obtain ⟨hi, hpart⟩ := mem_operatorLabels.1 (List.mem_of_getElem? h)
    refine ⟨hi, hpart, (List.getElem?_inj hlt (operatorLabels_nodup hnodup)).1 ?_⟩
    exact h.trans (operatorLabel_at hsorted hi hpart).symm
  · rintro ⟨hi, hpart, rfl⟩
    have hat := operatorLabel_at (t := t) hsorted hi hpart
    unfold Translation.labels
    rw [List.getElem?_append_left (List.getElem?_eq_some_iff.1 hat).1]
    exact hat

/-- The constant that a name is resolved to stands behind the operators. -/
theorem label_constant {name : String} {c : Nat}
    (h : findSource im t name = some (.constant c)) :
    (t.labels im live)[operatorTotal t live + c]? = some (.constant name) := by
  unfold findSource at h
  split at h
  · next hconst =>
    cases h
    have hfound : ∃ entry ∈ im.constantNodes, entry.1 == name := by
      obtain ⟨value, hvalue⟩ := Option.isSome_iff_exists.1 hconst
      exact ⟨_, mem_of_lookup hvalue, beq_self_eq_true name⟩
    have hlt := List.findIdx_lt_length_of_exists hfound
    have hkey := List.findIdx_getElem (w := hlt)
    unfold Translation.labels
    rw [operatorTotal_eq, List.getElem?_append_right (Nat.le_add_right _ _),
      Nat.add_sub_cancel_left, List.getElem?_map, List.getElem?_eq_getElem hlt, Option.map_some,
      beq_iff_eq.1 hkey]
  · next hconst =>
    cases hmap : im.dmlInputMap.lookup name with
    | some i =>
      rw [hmap] at h
      cases h
    | none =>
      rw [hmap] at h
      obtain ⟨p, -, heq⟩ := Option.map_eq_some_iff.1 h
      cases heq

/-! ## The loops over the edges -/

theorem edges_append (a b : Wiring) : (a.append b).edges.Perm (a.edges ++ b.edges) := by
  unfold Wiring.edges Wiring.append
  simp only [List.map_append, List.append_assoc]
  refine .append_left _ ?_
  rw [← List.append_assoc, ← List.append_assoc]
  exact List.perm_append_comm.append_right _

theorem edges_foldl (ws : List Wiring) (w : Wiring) :
    (ws.foldl Wiring.append w).edges.Perm (w.edges ++ ws.flatMap Wiring.edges) := by
  induction ws generalizing w with
  | nil => simp
  | cons v ws ih =>
    rw [List.foldl_cons, List.flatMap_cons, ← List.append_assoc]
    exact (ih (w.append v)).trans ((edges_append w v).append_right _)

/-- What a loop in `Option` collects, listed without it. -/
theorem flatMap_of_mapM {α β γ : Type} {f : α → Option β} {g : α → List γ} {e : β → List γ}
    {l : List α} {ws : List β} (h : l.mapM f = some ws)
    (hfg : ∀ x ∈ l, ∀ w, f x = some w → e w = g x) : ws.flatMap e = l.flatMap g := by
  induction l generalizing ws with
  | nil =>
    cases h
    rfl
  | cons x l ih =>
    rw [List.mapM_cons] at h
    obtain ⟨w, hw, hrest⟩ := Option.bind_eq_some_iff.1 h
    obtain ⟨ws', hws', heq⟩ := Option.bind_eq_some_iff.1 hrest
    cases heq
    rw [List.flatMap_cons, List.flatMap_cons, hfg x List.mem_cons_self w hw,
      ih hws' fun y hy => hfg y (List.mem_cons_of_mem _ hy)]

theorem map_filterMap {α β γ : Type} (f : α → Option β) (g : β → γ) (l : List α) :
    (l.filterMap f).map g = l.flatMap fun x => ((f x).map g).toList := by
  rw [List.map_filterMap, List.filterMap_eq_flatMap_toList]

theorem edges_sourceEdge (constBase toNode toInput : Nat) (source : ValueSource) :
    (sourceEdge t live constBase toNode toInput source).edges =
      [⟨toNode, toInput, edgeSource t live constBase source⟩] := by
  cases source <;> rfl

variable {constBase offset : Nat} {cn : CompiledNode D}

theorem edges_wirePrimary {slot : Nat × String} {w : Wiring}
    (h : wirePrimary t im live constBase offset cn slot = some w) :
    w.edges = (((if slot.2 = "" then none
      else (t.sourceOf im slot.2).map fun source =>
        (⟨0, cn.schemaSlot slot.1, edgeSource t live constBase source⟩ : PartEdge))).map
          (PartEdge.place offset)).toList := by
  unfold wirePrimary at h
  split at h
  · next hempty =>
    cases h
    rw [if_pos hempty]
    rfl
  · next hname =>
    obtain ⟨name, hres, hrest⟩ := Option.bind_eq_some_iff.1 h
    obtain ⟨source, hsource, rfl⟩ := Option.map_eq_some_iff.1 hrest
    have hlookup : t.sourceOf im slot.2 = some source := by
      rw [Translation.sourceOf, hres, Option.bind_some, hsource]
    rw [if_neg hname, hlookup, edges_sourceEdge]
    rfl

theorem edges_wireInternal (k : Nat) (sn : SubNode D) :
    (wireInternal offset k sn).edges = (innerEdges offset k sn).map (PartEdge.place offset) := by
  unfold wireInternal innerEdges Wiring.edges
  rw [List.map_nil, List.nil_append, List.map_filterMap, List.map_filterMap]
  refine List.filterMap_congr fun entry _ => ?_
  obtain ⟨⟨src, slot⟩, input⟩ := entry
  dsimp only
  split
  · rfl
  · next hsrc =>
    have hfrom : (if src < 0 then offset else offset + 1 + src.toNat) =
        offset + (src + 1).toNat := by
      split <;> omega
    rw [hfrom]
    simp only [Option.map_some, PartEdge.place, Nat.add_assoc, Nat.add_comm 1 k]

theorem edges_wireSubInput {k : Nat} {entry : Nat × Nat} {w : Wiring}
    (h : wireSubInput t im live constBase offset k cn entry = some w) :
    w.edges = ((((cn.inputNames[entry.1]?).bind fun name =>
      (t.sourceOf im name).bind fun source =>
        match source with
        | .produced _ _ => none
        | source =>
          some (⟨k + 1, entry.2, edgeSource t live constBase source⟩ : PartEdge))).map
            (PartEdge.place offset)).toList := by
  unfold wireSubInput at h
  split at h
  · next hnone =>
    cases h
    rw [hnone]
    rfl
  · next name hname =>
    obtain ⟨resolved, hres, rfl⟩ := Option.map_eq_some_iff.1 h
    have hlookup : t.sourceOf im name = findSource im t resolved := by
      rw [Translation.sourceOf, hres, Option.bind_some]
    rw [hname, Option.bind_some, hlookup]
    have hto : offset + 1 + k = offset + (k + 1) := by omega
    rw [hto]
    cases findSource im t resolved with
    | none => rfl
    | some source => cases source <;> rfl

theorem wireNode_eq_some {i : Nat} {ws : List Wiring}
    (h : wireNode t im live constBase i cn = some ws) :
    ws.flatMap Wiring.edges = (partEdges t im live constBase cn (nodeOffset t live i)).map
      (PartEdge.place (nodeOffset t live i)) := by
  obtain ⟨primary, hprimary, hrest⟩ := Option.bind_eq_some_iff.1 h
  obtain ⟨sub, hsub, rfl⟩ := Option.map_eq_some_iff.1 hrest
  rw [List.flatMap_append, partEdges, List.map_append]
  congr 1
  · rw [flatMap_of_mapM hprimary fun slot _ w hw => edges_wirePrimary hw, primaryEdges,
      map_filterMap]
  · rw [List.flatten_eq_flatMap, List.flatMap_assoc, List.map_flatMap]
    refine flatMap_of_mapM hsub fun entry _ wired hwired => ?_
    obtain ⟨inputs, hinputs, rfl⟩ := Option.map_eq_some_iff.1 hwired
    rw [id_eq, List.flatMap_cons, edges_wireInternal, List.map_append, subInputEdges,
      map_filterMap, flatMap_of_mapM hinputs fun e _ w hw => edges_wireSubInput hw]

/-- When the wiring gets through, its edges are those of the kept nodes. -/
theorem wireNodes_eq_some {wiring : Wiring} (h : wireNodes t im live = some wiring) :
    wiring.edges.Perm (slotEdges t im live (operatorTotal t live)) := by
  obtain ⟨wired, hwired, rfl⟩ := Option.map_eq_some_iff.1 h
  have hedges : (wired.flatten.flatMap Wiring.edges) =
      slotEdges t im live (operatorTotal t live) := by
    rw [List.flatten_eq_flatMap, List.flatMap_assoc]
    refine flatMap_of_mapM hwired fun i _ ws hws => ?_
    cases hcn : t.compiledNodes[i]? with
    | none =>
      rw [hcn] at hws
      cases hws
      rfl
    | some cn =>
      rw [hcn] at hws
      exact wireNode_eq_some hws
  rw [← hedges]
  exact edges_foldl wired.flatten {}

end GraphWiringLemmas

end AmdGpuEp.DirectML
