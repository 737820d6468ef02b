import AmdGpuEp.DirectML.ClaimedGroups
import AmdGpuEp.DirectML.GraphWiring

/-!
# Well-formed DML graphs

What the description that `Compile` hands to DirectML has to be: the inputs are
numbered without gaps, every input slot that a kept node needs is fed by one
edge from what its ONNX name stands for, and every graph output is written once.

Results:
1. `wellFormed_iff`: when the description of a group is built and well-formed.
2. `producedSubInput_unwired`: a sub-node that reads a value of another node of
   the group is left without that input.
-/

namespace AmdGpuEp.DirectML

open FullGraphLemmas

variable {D : Type}

/-! ## What a compiled node needs -/

/-- What a slot is fed with: the value of an ONNX name, or an output of a part of the same node. -/
inductive SlotValue
  | named (name : String)
  | inner (part output : Nat)
  deriving DecidableEq, Repr

structure RequiredSlot where
  part : Nat
  input : Nat
  value : SlotValue
  deriving DecidableEq, Repr

def RequiredSlot.place (w : RequiredSlot) : Nat × Nat :=
  (w.part, w.input)

namespace CompiledNode

/-- The part of a compiled node that writes an output, and the output of that part: as
`output_source` says, or the last operator. -/
def writer (cn : CompiledNode D) (slot : Nat) : Nat × Nat :=
  match cn.translated.outputSource[slot]? with
  | some (srcSub, srcSlot) => (if 0 ≤ srcSub then 1 + srcSub.toNat else 0, srcSlot.toNat)
  | none => (cn.translated.subNodes.length, slot)

def primaryRequired (cn : CompiledNode D) : List RequiredSlot :=
  cn.primarySlots.filterMap fun slot =>
    if slot.2 = "" then none else some ⟨0, cn.schemaSlot slot.1, .named slot.2⟩

def innerRequired (k : Nat) (sn : SubNode D) : List RequiredSlot :=
  sn.inputFrom.zipIdx.filterMap fun entry =>
    if entry.1.1 < -1 then none
    else some ⟨k + 1, entry.2, .inner (entry.1.1 + 1).toNat entry.1.2.toNat⟩

def subRequired (cn : CompiledNode D) (k : Nat) (sn : SubNode D) : List RequiredSlot :=
  sn.graphInputs.filterMap fun entry =>
    (cn.inputNames[entry.1]?).bind fun name =>
      if name = "" then none else some ⟨k + 1, entry.2, .named name⟩

/-- The input slots that the translation gives a source: inputs of the primary operator, edges
between the parts, and ONNX inputs of sub-nodes. An omitted ONNX input needs nothing. -/
def requiredSlots (cn : CompiledNode D) : List RequiredSlot :=
  cn.primaryRequired ++ cn.translated.subNodes.zipIdx.flatMap fun entry =>
    innerRequired entry.2 entry.1 ++ cn.subRequired entry.2 entry.1

end CompiledNode

/-! ## What feeds a slot -/

section

variable (t : Translation D) (im : DmlInputMap) (live : List Nat)

/-- The output `out` of the graph node at `idx` is the value `p` of the translation. -/
def WritesAt (idx out : Nat) (p : Nat × Nat) : Prop :=
  ∃ cn, t.compiledNodes[p.1]? = some cn ∧
    (t.labels im live)[idx]? = some (.operator p.1 (cn.writer p.2).1) ∧ out = (cn.writer p.2).2

/-- An edge that starts at this source brings the value to a slot of node `i`. -/
def Supplies (i : Nat) : EdgeSource → SlotValue → Prop
  | .graphInput idx, .named name =>
    ∃ resolved, t.resolve name = some resolved ∧ im.dmlInputMap.lookup resolved = some idx
  | .node idx out, .named name =>
    ∃ resolved, t.resolve name = some resolved ∧
      ((t.labels im live)[idx]? = some (.constant resolved) ∧ out = 0 ∨
        ∃ p, t.valueProducer.lookup resolved = some p ∧ WritesAt t im live idx out p)
  | .node idx out, .inner part output =>
    (t.labels im live)[idx]? = some (.operator i part) ∧ out = output
  | .graphInput _, .inner _ _ => False

/-- The edge ends at the slot. -/
def EndsAt (i : Nat) (e : SlotEdge) (w : RequiredSlot) : Prop :=
  (t.labels im live)[e.toNode]? = some (.operator i w.part) ∧ e.toInput = w.input

end

/-- The description is well-formed for the group: its counts are those of its lists, the DML inputs
are numbered `0 .. n - 1`, each needed slot of a kept node is the end of one edge, no other edges
exist, they start at what the slot needs, and each graph output has one edge. -/
structure WellFormed (t : Translation D) (sg : SubgraphInfo) (desc : DmlGraphDesc D) : Prop where
  nodeCount : desc.nodes.length < 2 ^ 32
  inputCount : desc.inputCount = (compileInputMap t sg).totalDmlInputs
  outputCount : desc.outputCount = sg.graphOutputs.length
  inputKeys : ((compileInputMap t sg).dmlInputMap.map Prod.fst).Nodup
  inputIndices : ((compileInputMap t sg).dmlInputMap.map Prod.snd).Perm
    (List.range (compileInputMap t sg).totalDmlInputs)
  covered : ∀ name, External t sg name ↔
    ((compileInputMap t sg).constantNodes.lookup name).isSome ∨
      ((compileInputMap t sg).dmlInputMap.lookup name).isSome
  distinct : (desc.edges.map fun e => (e.toNode, e.toInput)).Nodup
  supplied : ∀ i ∈ t.liveNodes sg, ∀ cn, t.compiledNodes[i]? = some cn →
    ∀ w ∈ cn.requiredSlots, ∃ e ∈ desc.edges,
      EndsAt t (compileInputMap t sg) (t.liveNodes sg) i e w ∧
        Supplies t (compileInputMap t sg) (t.liveNodes sg) i e.source w.value
  only : ∀ e ∈ desc.edges, ∃ i ∈ t.liveNodes sg, ∃ cn, t.compiledNodes[i]? = some cn ∧
    ∃ w ∈ cn.requiredSlots, EndsAt t (compileInputMap t sg) (t.liveNodes sg) i e w
  bounds : ∀ e ∈ desc.edges, e.toNode < desc.nodes.length ∧
    ∀ idx out, e.source = .node idx out → idx < desc.nodes.length
  outputs : (desc.outputEdges.map OutputEdge.graphOutput).Perm
    (List.range sg.graphOutputs.length)
  written : ∀ o ∈ desc.outputEdges, ∃ name, sg.graphOutputs[o.graphOutput]? = some name ∧
    ∃ resolved p, t.resolve name = some resolved ∧ t.valueProducer.lookup resolved = some p ∧
      WritesAt t (compileInputMap t sg) (t.liveNodes sg) o.fromNode o.fromOutput p
  aliases : ∀ name, (t.resolve name).isSome

/-! ## The exact condition -/

/-- The value is an output that a kept node has. -/
def Written (t : Translation D) (sg : SubgraphInfo) (p : Nat × Nat) : Prop :=
  p.1 ∈ t.liveNodes sg ∧ ∃ cn, t.compiledNodes[p.1]? = some cn ∧
    (cn.writer p.2).1 < operatorCount cn ∧ (cn.writer p.2).2 < 2 ^ 32

/-- What a kept node reads can be wired: a primary input comes from outside or from a kept node, an
ONNX input of a sub-node from outside, and an edge between parts from an output of a part. -/
structure NodeSupplied (t : Translation D) (sg : SubgraphInfo) (cn : CompiledNode D) : Prop where
  primary : ∀ slot ∈ cn.primarySlots, slot.2 ≠ "" → ∀ name, t.resolve slot.2 = some name →
    External t sg name ∨ ∃ p, t.valueProducer.lookup name = some p ∧ Written t sg p
  sub : ∀ sn ∈ cn.translated.subNodes, ∀ entry ∈ sn.graphInputs, ∀ name,
    cn.inputNames[entry.1]? = some name → name ≠ "" → ∀ resolved,
      t.resolve name = some resolved → External t sg resolved
  inner : ∀ sn ∈ cn.translated.subNodes, ∀ entry ∈ sn.inputFrom, ¬ entry.1 < -1 →
    (entry.1 + 1).toNat < operatorCount cn ∧ entry.2.toNat < 2 ^ 32

/-- Beside that no slot is needed twice, and the slots fit into 32 bits. -/
structure NodeConnectable (t : Translation D) (sg : SubgraphInfo) (cn : CompiledNode D) : Prop
    extends NodeSupplied t sg cn where
  slots : (cn.requiredSlots.map RequiredSlot.place).Nodup
  small : ∀ w ∈ cn.requiredSlots, w.input < 2 ^ 32

/-- 32 bits are enough for the indices. -/
structure Countable (t : Translation D) (sg : SubgraphInfo) : Prop where
  nodeCount : (t.labels (compileInputMap t sg) (t.liveNodes sg)).length < 2 ^ 32
  inputCount : (compileInputMap t sg).totalDmlInputs < 2 ^ 32
  outputCount : sg.graphOutputs.length < 2 ^ 32

/-- The kept nodes of the group are connectable, and its outputs are written by kept nodes. -/
structure Connectable (t : Translation D) (sg : SubgraphInfo) : Prop extends Countable t sg where
  nodes : ∀ i ∈ t.liveNodes sg, ∀ cn, t.compiledNodes[i]? = some cn → NodeConnectable t sg cn
  outputs : ∀ name ∈ sg.graphOutputs, ∀ resolved, t.resolve name = some resolved →
    ∃ p, t.valueProducer.lookup resolved = some p ∧ Written t sg p

/-- What ORT promises of the inputs, outputs and initializers of a subgraph: proper names, each
input and output listed once. -/
structure SubgraphInfo.Named (sg : SubgraphInfo) : Prop where
  inputs : sg.graphInputs.Nodup
  outputs : sg.graphOutputs.Nodup
  outputs_named : "" ∉ sg.graphOutputs
  initializers_named : sg.allInitializers "" = none

namespace GraphWellFormedLemmas

open TranslationWalkLemmas GraphWiringLemmas ClaimedGroupsLemmas

/-! ## The numbering of the inputs -/

theorem insertEntry_new {β : Type} {map : List (String × β)} {key : String} {value : β}
    (h : key ∉ map.map Prod.fst) : insertEntry map key value = (key, value) :: map := by
  unfold insertEntry
  rw [List.filter_eq_self.2]
  intro entry hentry
  rw [bne_iff_ne]
  rintro rfl
  exact h (List.mem_map_of_mem hentry)

/-- The keys of the map are distinct, and its values are `0 .. n - 1`. -/
def Numbered (map : List (String × Nat)) (n : Nat) : Prop :=
  (map.map Prod.fst).Nodup ∧ (map.map Prod.snd).Perm (List.range n)

theorem numbered_insertEntry {map : List (String × Nat)} {n : Nat} (h : Numbered map n)
    {key : String} (hkey : key ∉ map.map Prod.fst) : Numbered (insertEntry map key n) (n + 1) := by
  rw [insertEntry_new hkey]
  refine ⟨List.nodup_cons.2 ⟨hkey, h.1⟩, ?_⟩
  rw [List.map_cons, List.range_succ]
  exact (List.perm_append_singleton n _).symm.trans (h.2.append_right [n])

/-- Pass 2 numbers distinct names. -/
theorem numbered_assignInputs (skip : String → Bool) {names : List String} (hnames : names.Nodup) :
    Numbered (assignInputs skip names).1 (assignInputs skip names).2.2 := by
  have hfold : ∀ acc : List (String × Nat) × List (Option Nat) × Nat,
      Numbered acc.1 acc.2.2 → (∀ name ∈ names, name ∉ acc.1.map Prod.fst) →
      Numbered (names.foldl (fun (acc : List (String × Nat) × List (Option Nat) × Nat) name =>
        if skip name then (acc.1, acc.2.1 ++ [none], acc.2.2)
        else (insertEntry acc.1 name acc.2.2, acc.2.1 ++ [some acc.2.2], acc.2.2 + 1)) acc).1
        (names.foldl (fun (acc : List (String × Nat) × List (Option Nat) × Nat) name =>
        if skip name then (acc.1, acc.2.1 ++ [none], acc.2.2)
        else (insertEntry acc.1 name acc.2.2, acc.2.1 ++ [some acc.2.2], acc.2.2 + 1)) acc).2.2 := by
    induction names with
    | nil => exact fun _ hacc _ => hacc
    | cons name names ih =>
      intro acc hacc hfresh
      obtain ⟨hnew, hnames⟩ := List.nodup_cons.1 hnames
      obtain ⟨hname, hrest⟩ := List.forall_mem_cons.1 hfresh
      rw [List.foldl_cons]
      split
      · exact ih hnames _ hacc hrest
      · refine ih hnames _ (numbered_insertEntry hacc hname) fun name' hname' hmem => ?_
        rw [insertEntry_new hname, List.map_cons, List.mem_cons] at hmem
        rcases hmem with rfl | hmem
        · exact hnew hname'
        · exact hrest name' hname' hmem
  exact hfold ([], [], 0) ⟨List.nodup_nil, .refl _⟩ (by simp)

theorem not_mem_keys {β : Type} {map : List (String × β)} {key : String}
    (h : map.lookup key = none) : key ∉ map.map Prod.fst := by
  intro hmem
  obtain ⟨entry, hentry, rfl⟩ := List.mem_map.1 hmem
  have hne := List.lookup_eq_none_iff.1 h entry hentry
  simp at hne

/-- Pass 3 goes on with the numbers. -/
theorem numbered_assignInitializers (skip : String → Bool) (names : List String)
    {start : List (String × Nat) × Nat} (hstart : Numbered start.1 start.2) :
    Numbered (assignInitializers skip names start).1 (assignInitializers skip names start).2.2 := by
  have hfold : ∀ acc : List (String × Nat) × List String × Nat, Numbered acc.1 acc.2.2 →
      Numbered (names.foldl (fun (acc : List (String × Nat) × List String × Nat) name =>
        if skip name || (acc.1.lookup name).isSome then acc
        else (insertEntry acc.1 name acc.2.2, acc.2.1 ++ [name], acc.2.2 + 1)) acc).1
        (names.foldl (fun (acc : List (String × Nat) × List String × Nat) name =>
        if skip name || (acc.1.lookup name).isSome then acc
        else (insertEntry acc.1 name acc.2.2, acc.2.1 ++ [name], acc.2.2 + 1)) acc).2.2 := by
    induction names with
    | nil => exact fun _ hacc => hacc
    | cons name names ih =>
      intro acc hacc
      rw [List.foldl_cons]
      split
      · exact ih _ hacc
      · next hnew =>
        refine ih _ (numbered_insertEntry hacc (not_mem_keys ?_))
        rw [Bool.or_eq_true, not_or] at hnew
        exact Option.not_isSome_iff_eq_none.1 hnew.2
  exact hfold (start.1, [], start.2) hstart

variable {t : Translation D} {sg : SubgraphInfo}

/-- The input map of `Compile` numbers its names without gaps. -/
theorem numbered_compileInputMap (h : sg.Named) :
    Numbered (compileInputMap t sg).dmlInputMap (compileInputMap t sg).totalDmlInputs :=
  numbered_assignInitializers _ _ (numbered_assignInputs _ h.inputs)

/-- Distinct proper names are the entries of the output map. -/
theorem graphOutputMap_perm (h : sg.Named) : sg.graphOutputMap.Perm sg.graphOutputs.zipIdx := by
  have hnamed : sg.graphOutputs.zipIdx.filter (fun entry => entry.1 != "") =
      sg.graphOutputs.zipIdx := by
    refine List.filter_eq_self.2 fun entry hentry => ?_
    rw [bne_iff_ne]
    rintro heq
    exact h.outputs_named (heq ▸ List.fst_mem_of_mem_zipIdx hentry)
  have hfold : ∀ (entries map : List (String × Nat)),
      (map.map Prod.fst ++ entries.map Prod.fst).Nodup →
      (entries.foldl (fun map entry => insertEntry map entry.1 entry.2) map).Perm
        (map ++ entries) := by
    intro entries
    induction entries with
    | nil => simp
    | cons entry entries ih =>
      intro map hnodup
      have hmid := List.perm_middle.nodup_iff.1 hnodup
      obtain ⟨hnew, -⟩ := List.nodup_cons.1 hmid
      have hkey : entry.1 ∉ map.map Prod.fst := fun hmem => hnew (List.mem_append_left _ hmem)
      rw [List.foldl_cons, insertEntry_new hkey]
      exact (ih (entry :: map) hmid).trans List.perm_middle.symm
  unfold SubgraphInfo.graphOutputMap
  rw [hnamed]
  exact hfold _ [] (by simpa using h.outputs)

/-! ## What the description is made of -/

/-- What `describe` has put together. -/
structure Described (t : Translation D) (sg : SubgraphInfo) (desc : DmlGraphDesc D) : Prop where
  resolved : ∀ name ∈ t.liveInputNames sg, (t.resolve name).isSome
  wired : (wireNodes t (compileInputMap t sg) (t.liveNodes sg)).isSome
  edges : desc.edges.Perm (slotEdges t (compileInputMap t sg) (t.liveNodes sg)
    (operatorTotal t (t.liveNodes sg)))
  outputEdges : sg.graphOutputMap.mapM (outputEdge t (t.liveNodes sg)) = some desc.outputEdges
  nodes : desc.nodes.length = (t.labels (compileInputMap t sg) (t.liveNodes sg)).length
  inputCount : desc.inputCount = toUInt (compileInputMap t sg).totalDmlInputs
  outputCount : desc.outputCount = toUInt sg.graphOutputs.length

theorem described {desc : DmlGraphDesc D} (h : describe t sg = some desc) :
    Described t sg desc := by
  have hparts := describe_isSome.1 (Option.isSome_iff_exists.2 ⟨desc, h⟩)
  unfold describe at h
  split at h
  · cases h
  · obtain ⟨wiring, hwiring, h⟩ := Option.bind_eq_some_iff.1 h
    obtain ⟨outputEdges, houtputs, rfl⟩ := Option.map_eq_some_iff.1 h
    exact ⟨hparts.1, hparts.2.1, wireNodes_eq_some hwiring, houtputs, length_labels.symm, rfl, rfl⟩

theorem toUInt_of_lt {n : Nat} (h : n < 2 ^ 32) : toUInt n = n :=
  Nat.mod_eq_of_lt h

theorem toUInt_lt (n : Nat) : toUInt n < 2 ^ 32 :=
  Nat.mod_lt _ (by decide)

theorem outputIndex_eq {live : List Nat} {p : Nat × Nat} {cn : CompiledNode D}
    (hcn : t.compiledNodes[p.1]? = some cn) :
    outputIndex t live p.1 p.2 =
      (toUInt (nodeOffset t live p.1 + (cn.writer p.2).1), toUInt (cn.writer p.2).2) := by
  unfold outputIndex CompiledNode.writer
  rw [hcn]
  dsimp only
  cases cn.translated.outputSource[p.2]? with
  | none => rfl
  | some source => rfl

theorem liveNodes_sorted : (t.liveNodes sg).Pairwise (· < ·) :=
  List.pairwise_lt_range.filter _

theorem parts_eq {i : Nat} {cn : CompiledNode D} (hcn : t.compiledNodes[i]? = some cn) :
    t.parts i = operatorCount cn := by
  rw [Translation.parts, hcn]
  rfl

section

variable {im : DmlInputMap} (hcount : (t.labels im (t.liveNodes sg)).length < 2 ^ 32)

include hcount

/-- A part of a kept node stands at its 32-bit index. -/
theorem label_place {i part : Nat} {cn : CompiledNode D} (hi : i ∈ t.liveNodes sg)
    (hcn : t.compiledNodes[i]? = some cn) (hpart : part < operatorCount cn) :
    toUInt (nodeOffset t (t.liveNodes sg) i + part) = nodeOffset t (t.liveNodes sg) i + part ∧
      (t.labels im (t.liveNodes sg))[nodeOffset t (t.liveNodes sg) i + part]? =
        some (.operator i part) := by
  have hlabel : (t.labels im (t.liveNodes sg))[nodeOffset t (t.liveNodes sg) i + part]? =
      some (.operator i part) :=
    (label_operator_iff liveNodes_sorted).2 ⟨hi, (parts_eq hcn).symm ▸ hpart, rfl⟩
  have hlt := (List.getElem?_eq_some_iff.1 hlabel).1
  exact ⟨toUInt_of_lt (Nat.lt_trans hlt hcount), hlabel⟩

/-- The index that the wiring computes for a produced value is right when a kept node has that
output. -/
theorem writesAt_iff {p : Nat × Nat} :
    WritesAt t im (t.liveNodes sg) (outputIndex t (t.liveNodes sg) p.1 p.2).1
      (outputIndex t (t.liveNodes sg) p.1 p.2).2 p ↔ Written t sg p := by
  constructor
  · rintro ⟨cn, hcn, hlabel, hout⟩
    obtain ⟨hi, hpart, -⟩ := (label_operator_iff liveNodes_sorted).1 hlabel
    rw [outputIndex_eq hcn] at hout
    exact ⟨hi, cn, hcn, parts_eq hcn ▸ hpart, hout ▸ toUInt_lt _⟩
  · rintro ⟨hi, cn, hcn, hpart, hslot⟩
    obtain ⟨hplace, hlabel⟩ := label_place hcount hi hcn hpart
    rw [outputIndex_eq hcn]
    exact ⟨cn, hcn, by rw [hplace, hlabel], toUInt_of_lt hslot⟩

end

/-! ## Edges and needed slots, side by side -/

section

variable {α β γ : Type} {R : β → γ → Prop} {l : List α}

theorem forall₂_filterMap {f : α → Option β} {g : α → Option γ}
    (h : ∀ x ∈ l, Option.Rel R (f x) (g x)) : List.Forall₂ R (l.filterMap f) (l.filterMap g) := by
  induction l with
  | nil => exact .nil
  | cons x l ih =>
    obtain ⟨hx, hl⟩ := List.forall_mem_cons.1 h
    rw [List.filterMap_cons, List.filterMap_cons]
    generalize f x = y at hx ⊢
    generalize g x = z at hx ⊢
    cases hx with
    | none => exact ih hl
    | some hrel => exact .cons hrel (ih hl)

theorem exists_right {l : List β} {l' : List γ} (h : List.Forall₂ R l l') {x : β} (hx : x ∈ l) :
    ∃ y ∈ l', R x y := by
  induction h with
  | nil => cases hx
  | cons hrel _ ih =>
    rcases List.mem_cons.1 hx with rfl | hx
    · exact ⟨_, List.mem_cons_self, hrel⟩
    · obtain ⟨y, hy, hxy⟩ := ih hx
      exact ⟨y, List.mem_cons_of_mem _ hy, hxy⟩

theorem exists_left {l : List β} {l' : List γ} (h : List.Forall₂ R l l') {y : γ} (hy : y ∈ l') :
    ∃ x ∈ l, R x y :=
  exists_right (R := flip R) h.flip hy

theorem map_eq_of_forall₂ {δ : Type} {f : β → δ} {g : γ → δ} {l : List β} {l' : List γ}
    (h : List.Forall₂ R l l') (hfg : ∀ x, ∀ y ∈ l', R x y → f x = g y) : l.map f = l'.map g := by
  induction h with
  | nil => rfl
  | cons hrel _ ih =>
    rw [List.map_cons, List.map_cons, hfg _ _ List.mem_cons_self hrel,
      ih fun x y hy => hfg x y (List.mem_cons_of_mem _ hy)]

theorem forall₂_of_mapM {f : α → Option β} {l' : List β} (h : l.mapM f = some l') :
    List.Forall₂ (fun x y => f x = some y) l l' := by
  induction l generalizing l' with
  | nil =>
    cases h
    exact .nil
  | cons x l ih =>
    rw [List.mapM_cons] at h
    obtain ⟨y, hy, hrest⟩ := Option.bind_eq_some_iff.1 h
    obtain ⟨l'', hl'', heq⟩ := Option.bind_eq_some_iff.1 hrest
    cases heq
    exact .cons hy (ih hl'')

theorem forall₂_flatMap {f : α → List β} {g : α → List γ}
    (h : ∀ x ∈ l, List.Forall₂ R (f x) (g x)) : List.Forall₂ R (l.flatMap f) (l.flatMap g) := by
  induction l with
  | nil => exact .nil
  | cons x l ih =>
    obtain ⟨hx, hl⟩ := List.forall_mem_cons.1 h
    exact List.rel_append hx (ih hl)

end

/-- The edge goes into the slot, and brings what the slot needs. -/
def Feeds (t : Translation D) (im : DmlInputMap) (live : List Nat) (i : Nat) (e : PartEdge)
    (w : RequiredSlot) : Prop :=
  e.part = w.part ∧ e.input = w.input ∧ Supplies t im live i e.source w.value

/-- The edges into the parts of a kept node, as `Compile` wires them. -/
def edgesOf (t : Translation D) (sg : SubgraphInfo) (i : Nat) (cn : CompiledNode D) :
    List PartEdge :=
  partEdges t (compileInputMap t sg) (t.liveNodes sg) (operatorTotal t (t.liveNodes sg)) cn
    (nodeOffset t (t.liveNodes sg) i)

theorem not_external_empty (h : sg.Named) : ¬ External t sg "" := by
  rintro (⟨hne, -⟩ | hinit)
  · exact hne rfl
  · have hdirect := List.mem_dedup.1 (List.mem_filter.1 hinit).1
    have hsome := (List.mem_filter.1 hdirect).2
    rw [h.initializers_named] at hsome
    cases hsome

section

variable (hcount : Countable t sg)

include hcount

/-- An outside value comes from a constant or a DML input. -/
theorem supplies_external (hnamed : sg.Named) (i : Nat) {name resolved : String}
    (hres : t.resolve name = some resolved) (hext : External t sg resolved) :
    ∃ source, t.sourceOf (compileInputMap t sg) name = some source ∧
      (∀ node slot, source ≠ .produced node slot) ∧
      Supplies t (compileInputMap t sg) (t.liveNodes sg) i
        (edgeSource t (t.liveNodes sg) (operatorTotal t (t.liveNodes sg)) source)
        (.named name) := by
  obtain ⟨source, hsource, hnot⟩ := findSource_of_external hext
  refine ⟨source, by rw [Translation.sourceOf, hres, Option.bind_some, hsource], hnot, ?_⟩
  cases source with
  | constant c =>
    have hlabel : (t.labels (compileInputMap t sg) (t.liveNodes sg))[
        operatorTotal t (t.liveNodes sg) + c]? = some (.constant resolved) :=
      label_constant hsource
    have hlt := Nat.lt_trans (List.getElem?_eq_some_iff.1 hlabel).1 hcount.nodeCount
    refine ⟨resolved, hres, Or.inl ⟨?_, rfl⟩⟩
    rw [toUInt_of_lt hlt]
    exact hlabel
  | graphInput idx =>
    have hlookup : (compileInputMap t sg).dmlInputMap.lookup resolved = some idx := by
      unfold findSource at hsource
      split at hsource
      · cases hsource
      · split at hsource
        · next hidx =>
          cases hsource
          exact hidx
        · obtain ⟨p, -, heq⟩ := Option.map_eq_some_iff.1 hsource
          cases heq
    have hmem := List.mem_map_of_mem (f := Prod.snd) (mem_of_lookup hlookup)
    have hlt := List.mem_range.1 ((numbered_compileInputMap hnamed).2.mem_iff.1 hmem)
    refine ⟨resolved, hres, ?_⟩
    rw [toUInt_of_lt (Nat.lt_trans hlt hcount.inputCount)]
    exact hlookup
  | produced node slot => exact absurd rfl (hnot node slot)

/-- A value of a kept node comes from the operator that writes it. -/
theorem supplies_written (i : Nat) {name resolved : String} {p : Nat × Nat}
    (hres : t.resolve name = some resolved) (hext : ¬ External t sg resolved)
    (hp : t.valueProducer.lookup resolved = some p) (hwritten : Written t sg p) :
    ∃ source, t.sourceOf (compileInputMap t sg) name = some source ∧
      Supplies t (compileInputMap t sg) (t.liveNodes sg) i
        (edgeSource t (t.liveNodes sg) (operatorTotal t (t.liveNodes sg)) source)
        (.named name) := by
  refine ⟨.produced p.1 p.2, ?_, resolved, hres, Or.inr ⟨p, hp, ?_⟩⟩
  · rw [Translation.sourceOf, hres, Option.bind_some, findSource_of_inner hext, hp, Option.map_some]
  · exact (writesAt_iff hcount.nodeCount).2 hwritten

/-- The edges into a kept node are, in order, those of its needed slots. -/
theorem partEdges_feed (hnamed : sg.Named) (hchained : Chained t.graphInputAliases) {i : Nat}
    {cn : CompiledNode D} (hi : i ∈ t.liveNodes sg) (hcn : t.compiledNodes[i]? = some cn)
    (hnode : NodeSupplied t sg cn) :
    List.Forall₂ (Feeds t (compileInputMap t sg) (t.liveNodes sg) i) (edgesOf t sg i cn)
      cn.requiredSlots := by
  have hresolve : ∀ name, ∃ resolved, t.resolve name = some resolved := fun name =>
    Option.isSome_iff_exists.1 (resolve_isSome hchained name)
  refine List.rel_append (forall₂_filterMap fun slot hslot => ?_)
    (forall₂_flatMap fun entry hentry => List.rel_append (forall₂_filterMap fun e he => ?_)
      (forall₂_filterMap fun e he => ?_))
  · split
    · exact .none
    · next hname =>
      obtain ⟨resolved, hres⟩ := hresolve slot.2
      by_cases hext : External t sg resolved
      · obtain ⟨source, hsource, -, hsupplies⟩ := supplies_external hcount hnamed i hres hext
        rw [hsource]
        exact .some ⟨rfl, rfl, hsupplies⟩
      · obtain ⟨p, hp, hwritten⟩ := (hnode.primary slot hslot hname resolved hres).resolve_left hext
        obtain ⟨source, hsource, hsupplies⟩ :=
          supplies_written hcount i hres hext hp hwritten
        rw [hsource]
        exact .some ⟨rfl, rfl, hsupplies⟩
  · split
    · exact .none
    · next hsrc =>
      obtain ⟨hpart, hout⟩ := hnode.inner entry.1 (List.fst_mem_of_mem_zipIdx hentry) e.1
        (List.fst_mem_of_mem_zipIdx he) hsrc
      obtain ⟨hplace, hlabel⟩ := label_place hcount.nodeCount hi hcn hpart
      exact .some ⟨rfl, rfl, by rw [hplace, hlabel], toUInt_of_lt hout⟩
  · cases hname : cn.inputNames[e.1]? with
    | none => exact .none
    | some name =>
      rw [Option.bind_some, Option.bind_some]
      obtain ⟨resolved, hres⟩ := hresolve name
      split
      · next hempty =>
        subst hempty
        have hinner := findSource_of_inner (not_external_empty (t := t) hnamed)
        rw [Translation.sourceOf, resolve_empty hchained, Option.bind_some, hinner]
        cases t.valueProducer.lookup "" <;> exact .none
      · next hne =>
        have hext := hnode.sub entry.1 (List.fst_mem_of_mem_zipIdx hentry) e he name hname hne
          resolved hres
        obtain ⟨source, hsource, hnot, hsupplies⟩ := supplies_external hcount hnamed i hres hext
        rw [hsource, Option.bind_some]
        cases source with
        | constant c => exact .some ⟨rfl, rfl, hsupplies⟩
        | graphInput idx => exact .some ⟨rfl, rfl, hsupplies⟩
        | produced node slot => exact absurd rfl (hnot node slot)

end

theorem mem_slotEdges {e : SlotEdge} :
    e ∈ slotEdges t (compileInputMap t sg) (t.liveNodes sg) (operatorTotal t (t.liveNodes sg)) ↔
      ∃ i ∈ t.liveNodes sg, ∃ cn, t.compiledNodes[i]? = some cn ∧
        ∃ pe ∈ edgesOf t sg i cn, pe.place (nodeOffset t (t.liveNodes sg) i) = e := by
  simp only [slotEdges, List.mem_flatMap]
  refine exists_congr fun i => and_congr_right fun _ => ?_
  cases t.compiledNodes[i]? with
  | none => simp
  | some cn => simp [edgesOf]

theorem supplies_lt {im : DmlInputMap} {live : List Nat} {i idx out : Nat} {v : SlotValue}
    (h : Supplies t im live i (.node idx out) v) : idx < (t.labels im live).length := by
  cases v with
  | named name =>
    obtain ⟨resolved, -, ⟨hlabel, -⟩ | ⟨p, -, cn, -, hlabel, -⟩⟩ := h
    · exact (List.getElem?_eq_some_iff.1 hlabel).1
    · exact (List.getElem?_eq_some_iff.1 hlabel).1
  | inner part output => exact (List.getElem?_eq_some_iff.1 h.1).1

theorem edge_part_lt {i : Nat} {cn : CompiledNode D} {pe : PartEdge}
    (hpe : pe ∈ edgesOf t sg i cn) : pe.part < operatorCount cn := by
  rcases List.mem_append.1 hpe with hpe | hpe
  · obtain ⟨slot, -, hslot⟩ := List.mem_filterMap.1 hpe
    split at hslot
    · cases hslot
    · obtain ⟨source, -, rfl⟩ := Option.map_eq_some_iff.1 hslot
      exact Nat.lt_add_right _ Nat.one_pos
  · obtain ⟨⟨sn, k⟩, hentry, hpe⟩ := List.mem_flatMap.1 hpe
    have hk : k < cn.translated.subNodes.length := by
      simpa using List.snd_lt_of_mem_zipIdx hentry
    have hpart : pe.part = k + 1 := by
      rcases List.mem_append.1 hpe with hpe | hpe
      · obtain ⟨e, -, he⟩ := List.mem_filterMap.1 hpe
        split at he
        · cases he
        · cases he
          rfl
      · obtain ⟨e, -, he⟩ := List.mem_filterMap.1 hpe
        obtain ⟨name, -, he⟩ := Option.bind_eq_some_iff.1 he
        obtain ⟨source, -, he⟩ := Option.bind_eq_some_iff.1 he
        cases source with
        | produced node slot => cases he
        | constant c =>
          cases he
          rfl
        | graphInput idx =>
          cases he
          rfl
    rw [hpart, operatorCount]
    omega

/-- The name of a constant node comes from outside. -/
theorem external_of_label {live : List Nat} {idx : Nat} {name : String}
    (h : (t.labels (compileInputMap t sg) live)[idx]? = some (.constant name)) :
    External t sg name := by
  rcases List.mem_append.1 (List.mem_of_getElem? h) with hmem | hmem
  · obtain ⟨i, -, hi⟩ := List.mem_flatMap.1 hmem
    obtain ⟨part, -, heq⟩ := List.mem_map.1 hi
    cases heq
  · obtain ⟨entry, hentry, heq⟩ := List.mem_map.1 hmem
    obtain rfl : entry.1 = name := NodeLabel.constant.inj heq
    refine (external_iff t sg entry.1).2 (Or.inl ?_)
    by_contra hnone
    have hkey := not_mem_keys (Option.not_isSome_iff_eq_none.1 hnone)
    exact hkey (List.mem_map_of_mem hentry)

/-- An output edge is made for an entry of the output map. -/
theorem outputEdge_eq_some {live : List Nat} {entry : String × Nat} {o : OutputEdge} :
    outputEdge t live entry = some o ↔ ∃ resolved p, t.resolve entry.1 = some resolved ∧
      t.valueProducer.lookup resolved = some p ∧
      o = ⟨(outputIndex t live p.1 p.2).1, (outputIndex t live p.1 p.2).2, toUInt entry.2⟩ := by
  unfold outputEdge
  simp only [Option.bind_eq_some_iff, Option.map_eq_some_iff, eq_comm (b := o)]
  constructor
  · rintro ⟨resolved, hres, p, hp, rfl⟩
    exact ⟨resolved, p, hres, hp, rfl⟩
  · rintro ⟨resolved, p, hres, hp, rfl⟩
    exact ⟨resolved, hres, p, hp, rfl⟩

/-- A needed slot belongs to a part that the node has. -/
theorem part_lt {cn : CompiledNode D} {w : RequiredSlot} (hw : w ∈ cn.requiredSlots) :
    w.part < operatorCount cn := by
  rcases List.mem_append.1 hw with hw | hw
  · obtain ⟨slot, -, hslot⟩ := List.mem_filterMap.1 hw
    split at hslot
    · cases hslot
    · cases hslot
      exact Nat.lt_add_right _ Nat.one_pos
  · obtain ⟨⟨sn, k⟩, hentry, hw⟩ := List.mem_flatMap.1 hw
    have hk : k < cn.translated.subNodes.length := by
      simpa using List.snd_lt_of_mem_zipIdx hentry
    have hpart : w.part = k + 1 := by
      rcases List.mem_append.1 hw with hw | hw
      · obtain ⟨e, -, he⟩ := List.mem_filterMap.1 hw
        split at he
        · cases he
        · cases he
          rfl
      · obtain ⟨e, -, he⟩ := List.mem_filterMap.1 hw
        obtain ⟨name, -, hname⟩ := Option.bind_eq_some_iff.1 he
        split at hname
        · cases hname
        · cases hname
          rfl
    rw [hpart, operatorCount]
    omega

/-! ## Connectable groups -/

/-- A placed edge ends at the slot it was made for. -/
theorem endsAt_place (hconn : Connectable t sg) {i : Nat} {cn : CompiledNode D}
    (hi : i ∈ t.liveNodes sg) (hcn : t.compiledNodes[i]? = some cn) {e : PartEdge} {w : RequiredSlot}
    (hw : w ∈ cn.requiredSlots)
    (hfeeds : Feeds t (compileInputMap t sg) (t.liveNodes sg) i e w) :
    EndsAt t (compileInputMap t sg) (t.liveNodes sg) i
      (e.place (nodeOffset t (t.liveNodes sg) i)) w := by
  obtain ⟨hplace, hlabel⟩ := label_place hconn.nodeCount hi hcn (part_lt hw)
  constructor
  · show (t.labels _ _)[toUInt (nodeOffset t (t.liveNodes sg) i + e.part)]? = _
    rw [hfeeds.1, hplace, hlabel]
  · show toUInt e.input = w.input
    rw [hfeeds.2.1]
    exact toUInt_of_lt ((hconn.nodes i hi cn hcn).small w hw)

section

variable (hnamed : sg.Named) (hchained : Chained t.graphInputAliases) (hconn : Connectable t sg)

include hnamed hchained hconn

theorem describe_of_connectable : (describe t sg).isSome := by
  have hends : ∀ name, (t.resolve name).isSome := resolve_isSome hchained
  refine describe_isSome.2 ⟨fun name _ => hends name, ?_, fun entry hentry => ?_⟩
  · refine (wireNodes_isSome fun _ _ _ _ name _ => hends name).2 fun i hi cn hcn slot hslot => ?_
    by_cases hname : slot.2 = ""
    · exact Or.inl hname
    · obtain ⟨resolved, hres⟩ := Option.isSome_iff_exists.1 (hends slot.2)
      refine Or.inr ⟨resolved, hres, ?_⟩
      by_cases hext : External t sg resolved
      · obtain ⟨source, hsource, -⟩ := findSource_of_external hext
        exact Option.isSome_iff_exists.2 ⟨source, hsource⟩
      · obtain ⟨p, hp, -⟩ :=
          ((hconn.nodes i hi cn hcn).primary slot hslot hname resolved hres).resolve_left hext
        rw [findSource_of_inner hext, hp]
        rfl
  · have hmem := List.fst_mem_of_mem_zipIdx ((graphOutputMap_perm hnamed).mem_iff.1 hentry)
    obtain ⟨resolved, hres⟩ := Option.isSome_iff_exists.1 (hends entry.1)
    obtain ⟨p, hp, -⟩ := hconn.outputs entry.1 hmem resolved hres
    unfold outputEdge
    rw [hres, Option.bind_some, hp]
    rfl

/-- The ends of the edges into a kept node are the places of its needed slots. -/
theorem targets_eq {i : Nat} {cn : CompiledNode D} (hi : i ∈ t.liveNodes sg)
    (hcn : t.compiledNodes[i]? = some cn) :
    ((edgesOf t sg i cn).map (PartEdge.place (nodeOffset t (t.liveNodes sg) i))).map
        (fun e => (e.toNode, e.toInput)) =
      (cn.requiredSlots.map RequiredSlot.place).map
        fun q => (nodeOffset t (t.liveNodes sg) i + q.1, q.2) := by
  rw [List.map_map, List.map_map]
  refine map_eq_of_forall₂ (partEdges_feed hconn.toCountable hnamed hchained hi hcn
      (hconn.nodes i hi cn hcn).toNodeSupplied) fun e w hw hfeeds => ?_
  obtain ⟨hlabel, hinput⟩ := endsAt_place hconn hi hcn hw hfeeds
  exact Prod.ext ((label_operator_iff liveNodes_sorted).1 hlabel).2.2 hinput

theorem distinct_of_connectable :
    ((slotEdges t (compileInputMap t sg) (t.liveNodes sg) (operatorTotal t (t.liveNodes sg))).map
      fun e => (e.toNode, e.toInput)).Nodup := by
  unfold slotEdges
  rw [List.map_flatMap]
  refine List.nodup_flatMap.2 ⟨fun i hi => ?_, ?_⟩
  · cases hcn : t.compiledNodes[i]? with
    | none => exact List.nodup_nil
    | some cn =>
      show (((edgesOf t sg i cn).map _).map _).Nodup
      rw [targets_eq hnamed hchained hconn hi hcn]
      refine (hconn.nodes i hi cn hcn).slots.map fun a b hab => ?_
      obtain ⟨hpart, hinput⟩ := Prod.mk.inj hab
      exact Prod.ext (Nat.add_left_cancel hpart) hinput
  · -- the operators of two nodes stand at different indices
    have hlabel : ∀ i ∈ t.liveNodes sg, ∀ cn, t.compiledNodes[i]? = some cn →
        ∀ target ∈ ((edgesOf t sg i cn).map
          (PartEdge.place (nodeOffset t (t.liveNodes sg) i))).map
            fun e => (e.toNode, e.toInput),
        ∃ part, (t.labels (compileInputMap t sg) (t.liveNodes sg))[target.1]? =
          some (NodeLabel.operator i part) := by
      intro i hi cn hcn target htarget
      obtain ⟨e, he, rfl⟩ := List.mem_map.1 htarget
      obtain ⟨pe, hpe, rfl⟩ := List.mem_map.1 he
      obtain ⟨w, hw, hfeeds⟩ := exists_right (partEdges_feed hconn.toCountable hnamed hchained
        hi hcn (hconn.nodes i hi cn hcn).toNodeSupplied) hpe
      exact ⟨w.part, (endsAt_place hconn hi hcn hw hfeeds).1⟩
    refine liveNodes_sorted.imp_of_mem fun {i j} hi hj hlt => ?_
    rw [Function.onFun, List.disjoint_left]
    intro target hmem hmem'
    cases hcn : t.compiledNodes[i]? with
    | none => simp [hcn] at hmem
    | some cn =>
    cases hcn' : t.compiledNodes[j]? with
    | none => simp [hcn'] at hmem'
    | some cn' =>
    rw [hcn] at hmem
    rw [hcn'] at hmem'
    obtain ⟨part, hpart⟩ := hlabel i hi cn hcn target hmem
    obtain ⟨part', hpart'⟩ := hlabel j hj cn' hcn' target hmem'
    rw [hpart] at hpart'
    exact Nat.ne_of_lt hlt (NodeLabel.operator.inj (Option.some.inj hpart')).1

/-- A connectable group has a well-formed description. -/
theorem wellFormed_of_connectable :
    ∃ desc, describe t sg = some desc ∧ WellFormed t sg desc := by
  obtain ⟨desc, hdesc⟩ :=
    Option.isSome_iff_exists.1 (describe_of_connectable hnamed hchained hconn)
  have hd := described hdesc
  have hfeed : ∀ i (hi : i ∈ t.liveNodes sg) cn (hcn : t.compiledNodes[i]? = some cn),
      List.Forall₂ (Feeds t (compileInputMap t sg) (t.liveNodes sg) i) (edgesOf t sg i cn)
        cn.requiredSlots := fun i hi cn hcn => partEdges_feed hconn.toCountable hnamed hchained
        hi hcn (hconn.nodes i hi cn hcn).toNodeSupplied
  have hcovered : ∀ e ∈ desc.edges, ∃ i ∈ t.liveNodes sg, ∃ cn, t.compiledNodes[i]? = some cn ∧
      ∃ w ∈ cn.requiredSlots, EndsAt t (compileInputMap t sg) (t.liveNodes sg) i e w ∧
        Supplies t (compileInputMap t sg) (t.liveNodes sg) i e.source w.value := by
    intro e he
    obtain ⟨i, hi, cn, hcn, pe, hpe, rfl⟩ := mem_slotEdges.1 (hd.edges.mem_iff.1 he)
    obtain ⟨w, hw, hfeeds⟩ := exists_right (hfeed i hi cn hcn) hpe
    exact ⟨i, hi, cn, hcn, w, hw, endsAt_place hconn hi hcn hw hfeeds, hfeeds.2.2⟩
  have hnumbered := numbered_compileInputMap (t := t) hnamed
  refine ⟨desc, hdesc,
    { nodeCount := hd.nodes ▸ hconn.nodeCount
      inputCount := hd.inputCount.trans (toUInt_of_lt hconn.inputCount)
      outputCount := hd.outputCount.trans (toUInt_of_lt hconn.outputCount)
      inputKeys := hnumbered.1
      inputIndices := hnumbered.2
      covered := external_iff t sg
      distinct := ?_, supplied := ?_, only := ?_, bounds := ?_, outputs := ?_, written := ?_
      aliases := resolve_isSome hchained }⟩
  · exact (hd.edges.map _).nodup_iff.2 (distinct_of_connectable hnamed hchained hconn)
  · intro i hi cn hcn w hw
    obtain ⟨pe, hpe, hfeeds⟩ := exists_left (hfeed i hi cn hcn) hw
    exact ⟨_, hd.edges.mem_iff.2 (mem_slotEdges.2 ⟨i, hi, cn, hcn, pe, hpe, rfl⟩),
      endsAt_place hconn hi hcn hw hfeeds, hfeeds.2.2⟩
  · intro e he
    obtain ⟨i, hi, cn, hcn, w, hw, hends, -⟩ := hcovered e he
    exact ⟨i, hi, cn, hcn, w, hw, hends⟩
  · intro e he
    obtain ⟨i, -, cn, -, w, -, hends, hsupplies⟩ := hcovered e he
    rw [hd.nodes]
    refine ⟨(List.getElem?_eq_some_iff.1 hends.1).1, fun idx out hsource => ?_⟩
    rw [hsource] at hsupplies
    exact supplies_lt hsupplies
  · have hmap : desc.outputEdges.map OutputEdge.graphOutput =
        sg.graphOutputMap.map Prod.snd := by
      refine map_eq_of_forall₂ (forall₂_of_mapM hd.outputEdges).flip fun o entry hentry hedge => ?_
      obtain ⟨resolved, p, -, -, rfl⟩ := outputEdge_eq_some.1 hedge
      have hlt : entry.2 < sg.graphOutputs.length := by
        simpa using List.snd_lt_of_mem_zipIdx ((graphOutputMap_perm hnamed).mem_iff.1 hentry)
      exact toUInt_of_lt (Nat.lt_trans hlt hconn.outputCount)
    rw [hmap]
    have hperm := (graphOutputMap_perm hnamed).map Prod.snd
    rwa [List.zipIdx_map_snd, ← List.range_eq_range'] at hperm
  · intro o ho
    obtain ⟨entry, hentry, hedge⟩ := exists_left (forall₂_of_mapM hd.outputEdges) ho
    obtain ⟨resolved, p, hres, hp, rfl⟩ := outputEdge_eq_some.1 hedge
    have hget := List.mk_mem_zipIdx_iff_getElem?.1 ((graphOutputMap_perm hnamed).mem_iff.1 hentry)
    have hlt := (List.getElem?_eq_some_iff.1 hget).1
    obtain ⟨p', hp', hwritten⟩ := hconn.outputs entry.1 (List.mem_of_getElem? hget) resolved hres
    obtain rfl : p' = p := Option.some.inj (hp'.symm.trans hp)
    refine ⟨entry.1, ?_, resolved, p', hres, hp, (writesAt_iff hconn.nodeCount).2 hwritten⟩
    show sg.graphOutputs[toUInt entry.2]? = _
    rw [toUInt_of_lt (Nat.lt_trans hlt hconn.outputCount), hget]

end

/-! ## Well-formed descriptions -/

section

variable {desc : DmlGraphDesc D} (hd : Described t sg desc) (hwf : WellFormed t sg desc)

include hd hwf

theorem labels_lt : (t.labels (compileInputMap t sg) (t.liveNodes sg)).length < 2 ^ 32 :=
  hd.nodes ▸ hwf.nodeCount

theorem input_lt {i : Nat} (hi : i ∈ t.liveNodes sg) {cn : CompiledNode D}
    (hcn : t.compiledNodes[i]? = some cn) {w : RequiredSlot} (hw : w ∈ cn.requiredSlots) :
    w.input < 2 ^ 32 := by
  obtain ⟨e, he, hends, -⟩ := hwf.supplied i hi cn hcn w hw
  obtain ⟨_, _, _, _, pe, _, rfl⟩ := mem_slotEdges.1 (hd.edges.mem_iff.1 he)
  rw [← hends.2]
  exact toUInt_lt pe.input

/-- The edge that is wired for a needed slot is the one that supplies it. -/
theorem own_edge_supplies {i : Nat} (hi : i ∈ t.liveNodes sg) {cn : CompiledNode D}
    (hcn : t.compiledNodes[i]? = some cn) {pe : PartEdge} (hpe : pe ∈ edgesOf t sg i cn)
    {w : RequiredSlot} (hw : w ∈ cn.requiredSlots) (hpart : pe.part = w.part)
    (hinput : pe.input = w.input) :
    Supplies t (compileInputMap t sg) (t.liveNodes sg) i pe.source w.value := by
  obtain ⟨e, he, ⟨hlabel, hto⟩, hsupplies⟩ := hwf.supplied i hi cn hcn w hw
  have hnode : e.toNode = nodeOffset t (t.liveNodes sg) i + w.part :=
    ((label_operator_iff liveNodes_sorted).1 hlabel).2.2
  have hplace := (label_place (labels_lt hd hwf) hi hcn (part_lt hw)).1
  have hown : pe.place (nodeOffset t (t.liveNodes sg) i) ∈ desc.edges :=
    hd.edges.mem_iff.2 (mem_slotEdges.2 ⟨i, hi, cn, hcn, pe, hpe, rfl⟩)
  have hsame : pe.place (nodeOffset t (t.liveNodes sg) i) = e := by
    refine List.inj_on_of_nodup_map hwf.distinct hown he (Prod.ext ?_ ?_)
    · show toUInt (nodeOffset t (t.liveNodes sg) i + pe.part) = e.toNode
      rw [hpart, hplace, hnode]
    · show toUInt pe.input = e.toInput
      rw [hinput, hto]
      exact toUInt_of_lt (input_lt hd hwf hi hcn hw)
  rwa [← hsame] at hsupplies

/-- A primary input of a kept node comes from outside or from a kept node. -/
theorem primary_of_wellFormed {i : Nat} (hi : i ∈ t.liveNodes sg) {cn : CompiledNode D}
    (hcn : t.compiledNodes[i]? = some cn) {slot : Nat × String} (hslot : slot ∈ cn.primarySlots)
    (hname : slot.2 ≠ "") {name : String} (hres : t.resolve slot.2 = some name) :
    External t sg name ∨ ∃ p, t.valueProducer.lookup name = some p ∧ Written t sg p := by
  by_cases hext : External t sg name
  · exact Or.inl hext
  have hends : ∀ i ∈ t.liveNodes sg, ∀ cn, t.compiledNodes[i]? = some cn →
      ∀ name ∈ cn.inputNames, (t.resolve name).isSome := fun i hi cn hcn name hname =>
    hd.resolved name (mem_liveInputNames hi hcn hname)
  obtain ⟨name', hres', hfound⟩ :=
    ((wireNodes_isSome hends).1 hd.wired i hi cn hcn slot hslot).resolve_left hname
  obtain rfl : name = name' := Option.some.inj (hres.symm.trans hres')
  rw [findSource_of_inner hext, Option.isSome_map] at hfound
  obtain ⟨p, hp⟩ := Option.isSome_iff_exists.1 hfound
  refine Or.inr ⟨p, hp, ?_⟩
  have hsource : t.sourceOf (compileInputMap t sg) slot.2 = some (.produced p.1 p.2) := by
    rw [Translation.sourceOf, hres, Option.bind_some, findSource_of_inner hext, hp, Option.map_some]
  have hpe : (⟨0, cn.schemaSlot slot.1, edgeSource t (t.liveNodes sg)
      (operatorTotal t (t.liveNodes sg)) (.produced p.1 p.2)⟩ : PartEdge) ∈ edgesOf t sg i cn := by
    refine List.mem_append_left _ (List.mem_filterMap.2 ⟨slot, hslot, ?_⟩)
    rw [if_neg hname, hsource, Option.map_some]
  have hw : (⟨0, cn.schemaSlot slot.1, .named slot.2⟩ : RequiredSlot) ∈ cn.requiredSlots :=
    List.mem_append_left _ (List.mem_filterMap.2 ⟨slot, hslot, if_neg hname⟩)
  obtain ⟨resolved, hresolved, hfrom⟩ := own_edge_supplies hd hwf hi hcn hpe hw rfl rfl
  obtain rfl : name = resolved := Option.some.inj (hres.symm.trans hresolved)
  rcases hfrom with ⟨hlabel, -⟩ | ⟨p', hp', hwrites⟩
  · exact absurd (external_of_label hlabel) hext
  · obtain rfl : p = p' := Option.some.inj (hp.symm.trans hp')
    exact (writesAt_iff (labels_lt hd hwf)).1 hwrites

/-- An edge between the parts of a kept node starts at an output that the part has. -/
theorem inner_of_wellFormed {i : Nat} (hi : i ∈ t.liveNodes sg) {cn : CompiledNode D}
    (hcn : t.compiledNodes[i]? = some cn) {sn : SubNode D} {k : Nat}
    (hsn : (sn, k) ∈ cn.translated.subNodes.zipIdx) {entry : (Int × Int) × Nat}
    (hentry : entry ∈ sn.inputFrom.zipIdx) (hsrc : ¬ entry.1.1 < -1) :
    (t.labels (compileInputMap t sg) (t.liveNodes sg))[
        toUInt (nodeOffset t (t.liveNodes sg) i + (entry.1.1 + 1).toNat)]? =
          some (.operator i (entry.1.1 + 1).toNat) ∧
      toUInt entry.1.2.toNat = entry.1.2.toNat := by
  have hpe : (⟨k + 1, entry.2, .node (toUInt (nodeOffset t (t.liveNodes sg) i +
      (entry.1.1 + 1).toNat)) (toUInt entry.1.2.toNat)⟩ : PartEdge) ∈ edgesOf t sg i cn := by
    refine List.mem_append_right _ (List.mem_flatMap.2 ⟨(sn, k), hsn, ?_⟩)
    exact List.mem_append_left _ (List.mem_filterMap.2 ⟨entry, hentry, if_neg hsrc⟩)
  have hw : (⟨k + 1, entry.2, .inner (entry.1.1 + 1).toNat entry.1.2.toNat⟩ : RequiredSlot) ∈
      cn.requiredSlots := by
    refine List.mem_append_right _ (List.mem_flatMap.2 ⟨(sn, k), hsn, ?_⟩)
    exact List.mem_append_left _ (List.mem_filterMap.2 ⟨entry, hentry, if_neg hsrc⟩)
  exact own_edge_supplies hd hwf hi hcn hpe hw rfl rfl

/-- An operator that feeds a sub-node is a part of the same node: all other edges into sub-nodes
start at constants or DML inputs. -/
theorem sub_source {i k : Nat} (hi : i ∈ t.liveNodes sg) {cn : CompiledNode D}
    (hcn : t.compiledNodes[i]? = some cn) {pe : PartEdge} (hpe : pe ∈ edgesOf t sg i cn)
    (hpart : pe.part = k + 1) {idx out j part : Nat} (hsource : pe.source = .node idx out)
    (hlabel : (t.labels (compileInputMap t sg) (t.liveNodes sg))[idx]? =
      some (.operator j part)) : j = i := by
  rcases List.mem_append.1 hpe with hpe | hpe
  · obtain ⟨slot, -, hslot⟩ := List.mem_filterMap.1 hpe
    split at hslot
    · cases hslot
    · obtain ⟨source, -, rfl⟩ := Option.map_eq_some_iff.1 hslot
      cases hpart
  · obtain ⟨⟨sn, k'⟩, hsn, hpe⟩ := List.mem_flatMap.1 hpe
    rcases List.mem_append.1 hpe with hpe | hpe
    · obtain ⟨entry, hentry, heq⟩ := List.mem_filterMap.1 hpe
      split at heq
      · cases heq
      · next hsrc =>
        cases heq
        cases hsource
        rw [(inner_of_wellFormed hd hwf hi hcn hsn hentry hsrc).1] at hlabel
        exact (NodeLabel.operator.inj (Option.some.inj hlabel)).1.symm
    · obtain ⟨entry, -, heq⟩ := List.mem_filterMap.1 hpe
      obtain ⟨name, -, heq⟩ := Option.bind_eq_some_iff.1 heq
      obtain ⟨source, hfound, heq⟩ := Option.bind_eq_some_iff.1 heq
      obtain ⟨resolved, -, hfound⟩ := Option.bind_eq_some_iff.1 hfound
      cases source with
      | constant c =>
        cases heq
        cases hsource
        have hconst : (t.labels (compileInputMap t sg) (t.liveNodes sg))[
            operatorTotal t (t.liveNodes sg) + c]? = some (.constant resolved) :=
          label_constant hfound
        have hlt := (List.getElem?_eq_some_iff.1 hconst).1
        rw [toUInt_of_lt (Nat.lt_trans hlt (labels_lt hd hwf)), hconst] at hlabel
        cases hlabel
      | graphInput idx' =>
        cases heq
        cases hsource
      | produced node slot => cases heq

/-- An ONNX input of a sub-node comes from outside: a produced value has no edge there, and what
feeds the slot in its place is not the producer. -/
theorem sub_of_wellFormed {done : List Node} (hwalked : Walked done t)
    (hchained : Chained t.graphInputAliases) {i k : Nat} (hi : i ∈ t.liveNodes sg)
    {cn : CompiledNode D} (hcn : t.compiledNodes[i]? = some cn) {sn : SubNode D}
    (hsn : (sn, k) ∈ cn.translated.subNodes.zipIdx) {entry : Nat × Nat}
    (hentry : entry ∈ sn.graphInputs) {name resolved : String}
    (hname : cn.inputNames[entry.1]? = some name) (hne : name ≠ "")
    (hres : t.resolve name = some resolved) : External t sg resolved := by
  by_contra hext
  have hw : (⟨k + 1, entry.2, .named name⟩ : RequiredSlot) ∈ cn.requiredSlots := by
    refine List.mem_append_right _ (List.mem_flatMap.2 ⟨(sn, k), hsn, List.mem_append_right _ ?_⟩)
    refine List.mem_filterMap.2 ⟨entry, hentry, ?_⟩
    rw [hname, Option.bind_some, if_neg hne]
  obtain ⟨e, he, hends, hsupplies⟩ := hwf.supplied i hi cn hcn _ hw
  obtain ⟨i', hi', cn', hcn', pe, hpe, rfl⟩ := mem_slotEdges.1 (hd.edges.mem_iff.1 he)
  obtain ⟨hplace, hlabel⟩ := label_place (labels_lt hd hwf) hi' hcn' (edge_part_lt hpe)
  have hsame : NodeLabel.operator i' pe.part = .operator i (k + 1) := by
    have hat : (t.labels (compileInputMap t sg) (t.liveNodes sg))[
        toUInt (nodeOffset t (t.liveNodes sg) i' + pe.part)]? = some (.operator i (k + 1)) :=
      hends.1
    rw [hplace, hlabel] at hat
    exact Option.some.inj hat
  obtain ⟨rfl, hpart⟩ := NodeLabel.operator.inj hsame
  obtain rfl : cn' = cn := Option.some.inj (hcn'.symm.trans hcn)
  change Supplies t _ _ i' pe.source (.named name) at hsupplies
  cases hsource : pe.source with
  | graphInput idx =>
    rw [hsource] at hsupplies
    obtain ⟨resolved', hres', hidx⟩ := hsupplies
    obtain rfl : resolved = resolved' := Option.some.inj (hres.symm.trans hres')
    exact hext ((external_iff t sg resolved).2 (Or.inr (Option.isSome_iff_exists.2 ⟨idx, hidx⟩)))
  | node idx out =>
    rw [hsource] at hsupplies
    obtain ⟨resolved', hres', hfrom⟩ := hsupplies
    obtain rfl : resolved = resolved' := Option.some.inj (hres.symm.trans hres')
    rcases hfrom with ⟨hconst, -⟩ | ⟨p, hp, cnp, -, hwrites, -⟩
    · exact hext (external_of_label hconst)
    · have howner : p.1 = i' := sub_source hd hwf hi hcn hpe hpart hsource hwrites
      rcases resolve_rooted hwalked hchained hres with rfl | hnone
      · have hlt := hwalked.before i' cn' hcn resolved (List.mem_of_getElem? hname) hne p hp
        exact Nat.ne_of_lt hlt howner
      · rw [hnone] at hp
        cases hp

theorem countable_of_wellFormed : Countable t sg where
  nodeCount := labels_lt hd hwf
  inputCount := by
    rw [← hwf.inputCount, hd.inputCount]
    exact toUInt_lt _
  outputCount := by
    rw [← hwf.outputCount, hd.outputCount]
    exact toUInt_lt _

theorem supplied_of_wellFormed {done : List Node} (hwalked : Walked done t)
    (hchained : Chained t.graphInputAliases) {i : Nat} (hi : i ∈ t.liveNodes sg)
    {cn : CompiledNode D} (hcn : t.compiledNodes[i]? = some cn) : NodeSupplied t sg cn where
  primary slot hslot hname name hres := primary_of_wellFormed hd hwf hi hcn hslot hname hres
  sub sn hsn entry hentry name hname hne resolved hres := by
    obtain ⟨k, hk⟩ := List.mem_iff_getElem?.1 hsn
    exact sub_of_wellFormed hd hwf hwalked hchained hi hcn (List.mk_mem_zipIdx_iff_getElem?.2 hk)
      hentry hname hne hres
  inner sn hsn entry hentry hsrc := by
    obtain ⟨k, hk⟩ := List.mem_iff_getElem?.1 hsn
    obtain ⟨input, hinput⟩ := List.mem_iff_getElem?.1 hentry
    obtain ⟨hlabel, hout⟩ := inner_of_wellFormed hd hwf hi hcn
      (List.mk_mem_zipIdx_iff_getElem?.2 hk) (List.mk_mem_zipIdx_iff_getElem?.2 hinput) hsrc
    have hpart := ((label_operator_iff liveNodes_sorted).1 hlabel).2.1
    exact ⟨parts_eq hcn ▸ hpart, hout ▸ toUInt_lt _⟩

theorem slots_nodup {i : Nat} (hi : i ∈ t.liveNodes sg) {cn : CompiledNode D}
    (hcn : t.compiledNodes[i]? = some cn)
    (hfeed : List.Forall₂ (Feeds t (compileInputMap t sg) (t.liveNodes sg) i) (edgesOf t sg i cn)
      cn.requiredSlots) : (cn.requiredSlots.map RequiredSlot.place).Nodup := by
  have hslots : (edgesOf t sg i cn).map (fun e => (e.part, e.input)) =
      cn.requiredSlots.map RequiredSlot.place :=
    map_eq_of_forall₂ hfeed fun e w _ hfeeds => Prod.ext hfeeds.1 hfeeds.2.1
  have hall := (hd.edges.map fun e => (e.toNode, e.toInput)).nodup_iff.1 hwf.distinct
  unfold slotEdges at hall
  rw [List.map_flatMap] at hall
  have hown := (List.nodup_flatMap.1 hall).1 i hi
  rw [hcn] at hown
  change (((edgesOf t sg i cn).map _).map _).Nodup at hown
  rw [List.map_map] at hown
  rw [← hslots]
  refine List.Nodup.of_map
    (fun q => (toUInt (nodeOffset t (t.liveNodes sg) i + q.1), toUInt q.2)) ?_
  rwa [List.map_map]

theorem output_of_wellFormed (hnamed : sg.Named) {name resolved : String}
    (hname : name ∈ sg.graphOutputs) (hres : t.resolve name = some resolved) :
    ∃ p, t.valueProducer.lookup resolved = some p ∧ Written t sg p := by
  obtain ⟨k, hk⟩ := List.mem_iff_getElem?.1 hname
  have hentry : (name, k) ∈ sg.graphOutputMap :=
    (graphOutputMap_perm hnamed).mem_iff.2 (List.mk_mem_zipIdx_iff_getElem?.2 hk)
  obtain ⟨o, ho, hedge⟩ := exists_right (forall₂_of_mapM hd.outputEdges) hentry
  obtain ⟨resolved', p, hres', hp, rfl⟩ := outputEdge_eq_some.1 hedge
  obtain rfl : resolved = resolved' := Option.some.inj (hres.symm.trans hres')
  obtain ⟨name', hname', resolved'', p', hres'', hp', hwrites⟩ := hwf.written _ ho
  have hlt := Nat.lt_trans (List.getElem?_eq_some_iff.1 hk).1
    (countable_of_wellFormed hd hwf).outputCount
  change sg.graphOutputs[toUInt k]? = some name' at hname'
  rw [toUInt_of_lt hlt, hk] at hname'
  obtain rfl : name = name' := Option.some.inj hname'
  obtain rfl : resolved = resolved'' := Option.some.inj (hres.symm.trans hres'')
  obtain rfl : p = p' := Option.some.inj (hp.symm.trans hp')
  exact ⟨p, hp, (writesAt_iff (labels_lt hd hwf)).1 hwrites⟩

/-- A well-formed description comes from a connectable group. -/
theorem connectable_of_wellFormed {done : List Node} (hnamed : sg.Named)
    (hwalked : Walked done t) (hchained : Chained t.graphInputAliases) : Connectable t sg where
  toCountable := countable_of_wellFormed hd hwf
  nodes := fun _ hi _ hcn =>
    have hsupplied := supplied_of_wellFormed hd hwf hwalked hchained hi hcn
    { toNodeSupplied := hsupplied
      slots := slots_nodup hd hwf hi hcn (partEdges_feed (countable_of_wellFormed hd hwf) hnamed
        hchained hi hcn hsupplied)
      small := fun _ hw => input_lt hd hwf hi hcn hw }
  outputs := fun _ hname _ hres => output_of_wellFormed hd hwf hnamed hname hres

end

end GraphWellFormedLemmas

open GraphWellFormedLemmas TranslationWalkLemmas

section

variable {registry : OpTranslatorRegistry D} {sg : SubgraphInfo} {g : Graph} {t : Translation D}

/-- The description of a translated group is built and well-formed exactly when the group is
connectable. -/
theorem wellFormed_iff (hlist : g.Listed) (hfed : PassthroughFed registry g) (hnamed : sg.Named)
    (h : translateNodes registry sg g.nodes = some t) :
    (∃ desc, describe t sg = some desc ∧ WellFormed t sg desc) ↔ Connectable t sg := by
  have hwalked : Walked g.nodes t := walked hlist h
  have hchained : Chained t.graphInputAliases := chained hlist hfed h
  constructor
  · rintro ⟨desc, hdesc, hwf⟩
    exact connectable_of_wellFormed (described hdesc) hwf hnamed hwalked hchained
  · exact wellFormed_of_connectable hnamed hchained

end

/-! ## A sub-node behind a node of the group -/

def quantizedRegistry : OpTranslatorRegistry String := fun op =>
  if op = "Relu" then some (translateUnaryActivation "RELU")
  else if op = "MatMulNBits" then
    some (translateMatMulNBits (fun zeroPoint => if zeroPoint then "DEQUANTIZE_ZP" else "DEQUANTIZE")
      "GEMM")
  else none

/-- No operator of the registry is elided. -/
theorem quantizedRegistry_fed (g : Graph) : PassthroughFed quantizedRegistry g := by
  rintro node - initializers shapes translated ⟨translator, hop, htranslated⟩ hpass
  suffices hkept : translated.passthrough = false by
    rw [hkept] at hpass
    cases hpass
  unfold quantizedRegistry at hop
  split at hop
  · cases hop
    exact translateUnaryActivation_kept htranslated
  · split at hop
    · cases hop
      exact translateMatMulNBits_kept htranslated
    · cases hop

/-- A matrix product with the activations `a` and a quantized weight. -/
def quantizedProduct (a : String) : Node where
  id := 1
  opType := "MatMulNBits"
  domain := "com.microsoft"
  inputs := [some a, some "B", some "scales"]
  outputs := [some "y"]
  attributes := [("N", .int 16), ("K", .int 32), ("bits", .int 4), ("block_size", .int 32)]

def quantizedInfo : SubgraphInfo where
  graphInputs := ["x"]
  graphOutputs := ["y"]
  valueShapes := fun name =>
    if name = "x" then some (makeTensorInfo [8, 32] .float32)
    else if name = "B" then some (makeTensorInfo [16, 1, 16] .uint8)
    else if name = "scales" then some (makeTensorInfo [16] .float32)
    else none
  allInitializers := fun name =>
    if name = "B" then some { dataType := .uint8, dims := [16, 1, 16], bytes := none }
    else if name = "scales" then some { dataType := .float32, dims := [16], bytes := none }
    else none

theorem quantizedInfo_named : quantizedInfo.Named where
  inputs := by decide
  outputs := by decide
  outputs_named := by decide
  initializers_named := by decide

/-- The activations come from outside. -/
def quantizedOuter : Graph :=
  .ofNodes [quantizedProduct "x"] ["x"] ["y"] (by decide) (by decide) (by decide) (by decide)

/-- The activations come from a node of the group. -/
def quantizedInner : Graph :=
  .ofNodes [{ id := 0, opType := "Relu", inputs := [some "x"], outputs := [some "a"] },
      quantizedProduct "a"]
    ["x"] ["y"] (by decide) (by decide) (by decide) (by decide)

def quantizedOuterTranslation : Translation String :=
  (translateNodes quantizedRegistry quantizedInfo quantizedOuter.nodes).get (by decide)

def quantizedInnerTranslation : Translation String :=
  (translateNodes quantizedRegistry quantizedInfo quantizedInner.nodes).get (by decide)

theorem quantizedOuter_connected :
    (∃ desc, describe quantizedOuterTranslation quantizedInfo = some desc ∧
        WellFormed quantizedOuterTranslation quantizedInfo desc) ↔
      Connectable quantizedOuterTranslation quantizedInfo :=
  wellFormed_iff (g := quantizedOuter) (by decide) (quantizedRegistry_fed _) quantizedInfo_named
    (Option.some_get _).symm

def quantizedInnerDesc : DmlGraphDesc String :=
  (describe quantizedInnerTranslation quantizedInfo).get (by decide)

/-- The first operand of the product has no edge, and `Compile` goes on. -/
theorem producedSubInput_unwired :
    quantizedInner.Listed ∧ PassthroughFed quantizedRegistry quantizedInner ∧
      quantizedInfo.Named ∧
      translateNodes quantizedRegistry quantizedInfo quantizedInner.nodes =
        some quantizedInnerTranslation ∧
      describe quantizedInnerTranslation quantizedInfo = some quantizedInnerDesc ∧
      ¬ WellFormed quantizedInnerTranslation quantizedInfo quantizedInnerDesc := by
  have hnone : ∀ e ∈ quantizedInnerDesc.edges, ¬ EndsAt quantizedInnerTranslation
      (compileInputMap quantizedInnerTranslation quantizedInfo)
      (quantizedInnerTranslation.liveNodes quantizedInfo) 1 e ⟨1, 0, .named "a"⟩ := by
    unfold EndsAt
    decide
  refine ⟨by decide, quantizedRegistry_fed _, quantizedInfo_named, (Option.some_get _).symm,
    (Option.some_get _).symm, fun hwf => ?_⟩
  -- part 1 of node 1 is the product; its slot 0 reads `a`
  obtain ⟨e, he, hend, -⟩ := hwf.supplied 1 (by decide) _ rfl ⟨1, 0, .named "a"⟩ (by decide)
  exact hnone e he hend

end AmdGpuEp.DirectML
