import AmdGpuEp.DirectML.BoundSizes
import AmdGpuEp.DirectML.GraphWellFormed

/-!
# Owned inputs

`Compile` flags the tensor descriptions of large initializers as owned by DML,
and a second loop records the graph inputs behind the flagged slots. A recorded
input is bound when the operator is initialized, and `FullGraph_Compute` skips
it. The first loop follows `input_name_reorder`, and the second does not.

Results:
1. `inputEdges_iff`: an input edge goes to a description that reads the input.
2. `ownedAgree_iff`: when the flags, the record and the bindings agree.
3. `reorderedScale_unbound`: a quantized matrix product whose activations are
   recorded in place of its scales.
-/

namespace AmdGpuEp.DirectML

variable {D : Type}

/-! ## What is wired to an input -/

/-- A tensor description of a compiled node: that of a packed slot, which goes to the primary
operator, or one of a sub-node. -/
inductive InputDesc
  | packed (slot : Nat)
  | sub (subNode input : Nat)
  deriving DecidableEq, Repr

namespace InputDesc

/-- The operator behind the description, and the slot of its schema. -/
def place (cn : CompiledNode D) : InputDesc → Nat × Nat
  | .packed slot => (0, cn.schemaSlot slot)
  | .sub subNode input => (subNode + 1, input)

/-- There is an entry of `input_buffer_descs`, which step 5 can flag. The descriptions of sub-nodes
are not among them. -/
def Flaggable (cn : CompiledNode D) : InputDesc → Prop
  | .packed slot => slot < cn.translated.inputTensors.length
  | .sub _ _ => False

end InputDesc

/-- The ONNX inputs that are wired to the operators of a compiled node. -/
def CompiledNode.reads (cn : CompiledNode D) : List (InputDesc × String) :=
  (cn.primarySlots.filter fun slot => slot.2 != "").map (fun slot => (.packed slot.1, slot.2)) ++
    cn.translated.subNodes.zipIdx.flatMap fun entry =>
      entry.1.graphInputs.filterMap fun input =>
        (cn.inputNames[input.1]?).map fun name => (.sub entry.2 input.2, name)

section

variable (t : Translation D) (sg : SubgraphInfo)

/-- `DML_TENSOR_FLAG_OWNED_BY_DML` after step 5. -/
def ownedFlag (i : Nat) (cn : CompiledNode D) : InputDesc → Bool
  | .packed slot =>
    decide (slot < min cn.inputNames.length cn.translated.inputTensors.length) &&
      ownedSlot t sg i cn slot
  | .sub _ _ => false

/-- A description of the kept node `i` reads `resolved`, behind the aliases. -/
def ReadBy (resolved : String) (i : Nat) (cn : CompiledNode D) (d : InputDesc) : Prop :=
  i ∈ t.liveNodes sg ∧ t.compiledNodes[i]? = some cn ∧
    ∃ name, (d, name) ∈ cn.reads ∧ t.resolve name = some resolved

/-- A description of the kept node `i` is wired to the DML input `idx`. -/
def WiredTo (idx i : Nat) (cn : CompiledNode D) (d : InputDesc) : Prop :=
  i ∈ t.liveNodes sg ∧ t.compiledNodes[i]? = some cn ∧
    ∃ name, (d, name) ∈ cn.reads ∧
      t.sourceOf (compileInputMap t sg) name = some (.graphInput idx)

/-- `FullGraph_Compute` binds the DML input. -/
def BoundAtCompute (desc : DmlGraphDesc D) (idx : Nat) : Prop :=
  some idx ∈ (compileInputMap t sg).subgraphToDmlInput ∧
    idx ∉ ownedIndices t sg (compileInputMap t sg) ∧
    idx ∈ desc.inputEdges.map InputEdge.graphInput

/-- An input is recorded as owned when descriptions are wired to it, all of them flagged, and it is
a constant initializer. The other inputs that are wired are bound on every run, and no recorded one
is. `constant` tells the initializers that cannot be overridden. -/
structure OwnedAgree (constant : String → Prop) (desc : DmlGraphDesc D) : Prop where
  recorded : ∀ idx, idx ∈ ownedIndices t sg (compileInputMap t sg) ↔
    (∃ i cn d, WiredTo t sg idx i cn d) ∧
      (∀ i cn d, WiredTo t sg idx i cn d → ownedFlag t sg i cn d = true) ∧
      ∃ name, (compileInputMap t sg).dmlInputMap.lookup name = some idx ∧
        (sg.allInitializers name).isSome ∧ constant name
  bound : ∀ idx i cn d, WiredTo t sg idx i cn d →
    idx ∉ ownedIndices t sg (compileInputMap t sg) → BoundAtCompute t sg desc idx
  skipped : ∀ idx ∈ ownedIndices t sg (compileInputMap t sg), ¬ BoundAtCompute t sg desc idx

/-! ## The exact condition -/

/-- An initializer that is not inlined for its size; the name may be an alias of it. -/
def IsLarge (name : String) : Prop :=
  let resolved := (t.resolve name).getD name
  ((sg.allInitializers name).isSome ∨ (sg.allInitializers resolved).isSome) ∧
    maxConstNodeDataSize ≤
      boundBytes t (if (sg.allInitializers resolved).isSome then resolved else name)

/-- A packed slot of a kept node reads a large initializer, and the ONNX input at the position of
the slot, which another slot may read, stands for `resolved`. -/
def AtLargeSlot (resolved : String) : Prop :=
  ∃ i ∈ t.liveNodes sg, ∃ cn, t.compiledNodes[i]? = some cn ∧
    ∃ slot ∈ cn.slotsBelow cn.translated.inputTensors.length, IsLarge t sg slot.2 ∧
      ∃ name, cn.inputNames[slot.1]? = some name ∧ t.resolve name = some resolved

/-- A constant initializer that is large, and read by primary operators only. -/
structure OwnInput (constant : String → Prop) (resolved : String) : Prop where
  initializer : (sg.allInitializers resolved).isSome
  unchanging : constant resolved
  large : maxConstNodeDataSize ≤ boundBytes t resolved
  read : ∃ i cn d, ReadBy t sg resolved i cn d
  primary : ∀ i cn d, ReadBy t sg resolved i cn d → d.Flaggable cn

/-- Among the DML inputs, those at the positions of slots that read large initializers are the large
constant initializers that primary operators read; what else is read is an input of the group. -/
structure OwnedSound (constant : String → Prop) : Prop where
  positions : ∀ name, ((compileInputMap t sg).dmlInputMap.lookup name).isSome →
    (AtLargeSlot t sg name ↔ OwnInput t sg constant name)
  others : ∀ name idx, (compileInputMap t sg).dmlInputMap.lookup name = some idx →
    (∃ i cn d, ReadBy t sg name i cn d) → ¬ AtLargeSlot t sg name →
      name ≠ "" ∧ name ∈ sg.graphInputs ∧ idx < 2 ^ 32

end

namespace OwnedInputsLemmas

open FullGraphLemmas GraphWiringLemmas GraphWellFormedLemmas

/-! ## The numbers of the inputs -/

/-- No two names of the map have one number, and all numbers are below `n`. -/
structure Distinct (map : List (String × Nat)) (n : Nat) : Prop where
  inj : ∀ k k' idx, map.lookup k = some idx → map.lookup k' = some idx → k = k'
  below : ∀ k idx, map.lookup k = some idx → idx < n

theorem Distinct.insertEntry {map : List (String × Nat)} {n : Nat} (h : Distinct map n)
    (key : String) : Distinct (insertEntry map key n) (n + 1) where
  inj k k' idx hk hk' := by
    rw [lookup_insertEntry] at hk hk'
    split at hk <;> split at hk'
    · next heq heq' => rw [heq, heq']
    · -- a number of the old map is below the new one
      cases hk
      exact absurd (h.below k' n hk') (Nat.lt_irrefl n)
    · cases hk'
      exact absurd (h.below k n hk) (Nat.lt_irrefl n)
    · exact h.inj k k' idx hk hk'
  below k idx hk := by
    rw [lookup_insertEntry] at hk
    split at hk
    · cases hk
      exact Nat.lt_succ_self n
    · exact Nat.lt_succ_of_lt (h.below k idx hk)

/-- What pass 2 leaves: the numbers are those of the listed slots. -/
structure Assigned (acc : List (String × Nat) × List (Option Nat) × Nat) : Prop
    extends Distinct acc.1 acc.2.2 where
  listed : ∀ k idx, acc.1.lookup k = some idx → some idx ∈ acc.2.1
  slots : ∀ idx, some idx ∈ acc.2.1 → idx < acc.2.2

theorem assigned_assignInputs (skip : String → Bool) (names : List String) :
    Assigned (assignInputs skip names) := by
  have hfold : ∀ acc : List (String × Nat) × List (Option Nat) × Nat, Assigned acc →
      Assigned (names.foldl (fun (acc : List (String × Nat) × List (Option Nat) × Nat) name =>
        if skip name then (acc.1, acc.2.1 ++ [none], acc.2.2)
        else (insertEntry acc.1 name acc.2.2, acc.2.1 ++ [some acc.2.2], acc.2.2 + 1)) acc) := by
    induction names with
    | nil => exact fun _ hacc => hacc
    | cons name names ih =>
      intro acc hacc
      rw [List.foldl_cons]
      split
      · refine ih _ ⟨hacc.toDistinct, fun k idx hk => ?_, fun idx hidx => ?_⟩
        · exact List.mem_append_left _ (hacc.listed k idx hk)
        · exact hacc.slots idx (by simpa using hidx)
      · refine ih _ ⟨hacc.toDistinct.insertEntry name, fun k idx hk => ?_, fun idx hidx => ?_⟩
        · dsimp only at hk ⊢
          rw [lookup_insertEntry] at hk
          split at hk
          · cases hk
            simp
          · exact List.mem_append_left _ (hacc.listed k idx hk)
        · dsimp only at hidx ⊢
          rcases List.mem_append.1 hidx with hidx | hidx
          · exact Nat.lt_succ_of_lt (hacc.slots idx hidx)
          · obtain rfl : idx = acc.2.2 := by simpa using hidx
            exact Nat.lt_succ_self _
  exact hfold ([], [], 0) ⟨⟨nofun, nofun⟩, nofun, nofun⟩

/-- Pass 3 keeps the numbers of pass 2, and goes on above them. -/
theorem distinct_assignInitializers (skip : String → Bool) (names : List String)
    {start : List (String × Nat) × Nat} (hstart : Distinct start.1 start.2) :
    Distinct (assignInitializers skip names start).1 (assignInitializers skip names start).2.2 ∧
      (∀ k idx, start.1.lookup k = some idx →
        (assignInitializers skip names start).1.lookup k = some idx) ∧
      ∀ k idx, (assignInitializers skip names start).1.lookup k = some idx →
        start.1.lookup k = some idx ∨ start.2 ≤ idx := by
  have hfold : ∀ acc : List (String × Nat) × List String × Nat,
      Distinct acc.1 acc.2.2 → start.2 ≤ acc.2.2 →
      (∀ k idx, start.1.lookup k = some idx → acc.1.lookup k = some idx) →
      (∀ k idx, acc.1.lookup k = some idx → start.1.lookup k = some idx ∨ start.2 ≤ idx) →
      let result := names.foldl (fun (acc : List (String × Nat) × List String × Nat) name =>
        if skip name || (acc.1.lookup name).isSome then acc
        else (insertEntry acc.1 name acc.2.2, acc.2.1 ++ [name], acc.2.2 + 1)) acc
      Distinct result.1 result.2.2 ∧
        (∀ k idx, start.1.lookup k = some idx → result.1.lookup k = some idx) ∧
        ∀ k idx, result.1.lookup k = some idx → start.1.lookup k = some idx ∨ start.2 ≤ idx := by
    induction names with
    | nil => exact fun _ hacc _ hkeep hold => ⟨hacc, hkeep, hold⟩
    | cons name names ih =>
      intro acc hacc hle hkeep hold
      rw [List.foldl_cons]
      split
      · exact ih acc hacc hle hkeep hold
      · next hnew =>
        refine ih _ (hacc.insertEntry name) (Nat.le_succ_of_le hle) (fun k idx hk => ?_)
          fun k idx hk => ?_
        · -- a name with a number is not numbered again
          have hne : k ≠ name := by
            rintro rfl
            simp [hkeep k idx hk] at hnew
          dsimp only
          rw [lookup_insertEntry, if_neg hne]
          exact hkeep k idx hk
        · dsimp only at hk
          rw [lookup_insertEntry] at hk
          split at hk
          · cases hk
            exact Or.inr hle
          · exact hold k idx hk
  exact hfold (start.1, [], start.2) hstart (Nat.le_refl _) (fun _ _ hk => hk)
    fun _ _ hk => Or.inl hk

variable {t : Translation D} {sg : SubgraphInfo}

/-- The two passes of `Compile`. -/
theorem passes (t : Translation D) (sg : SubgraphInfo) :
    ∃ acc : List (String × Nat) × List (Option Nat) × Nat,
      Assigned acc ∧ acc.2.1 = (compileInputMap t sg).subgraphToDmlInput ∧
      (∀ k, (acc.1.lookup k).isSome ↔ k ∈ sg.graphInputs ∧
        (k == "" || ((compileInputMap t sg).constantNodes.lookup k).isSome) = false) ∧
      Distinct (compileInputMap t sg).dmlInputMap (compileInputMap t sg).totalDmlInputs ∧
      (∀ k idx, acc.1.lookup k = some idx →
        (compileInputMap t sg).dmlInputMap.lookup k = some idx) ∧
      ∀ k idx, (compileInputMap t sg).dmlInputMap.lookup k = some idx →
        acc.1.lookup k = some idx ∨ acc.2.2 ≤ idx := by
  have hassigned := assigned_assignInputs
    (fun name => name == "" || ((compileInputMap t sg).constantNodes.lookup name).isSome)
    sg.graphInputs
  exact ⟨_, hassigned, rfl, assignInputs_lookup _ _,
    distinct_assignInitializers _ _ hassigned.toDistinct⟩

theorem distinct_compileInputMap :
    Distinct (compileInputMap t sg).dmlInputMap (compileInputMap t sg).totalDmlInputs := by
  obtain ⟨-, -, -, -, hdistinct, -⟩ := passes t sg
  exact hdistinct

/-- A name with a number is no constant node. -/
theorem not_constant_of_lookup {k : String} {idx : Nat}
    (h : (compileInputMap t sg).dmlInputMap.lookup k = some idx) :
    ((compileInputMap t sg).constantNodes.lookup k).isSome = false := by
  have hsome := Option.isSome_iff_exists.2 ⟨idx, h⟩
  rcases (assignInitializers_lookup _ _ _ _).1 hsome with hinput | ⟨-, hskip⟩
  · exact (Bool.or_eq_false_iff.1 ((assignInputs_lookup _ _ _).1 hinput).2).2
  · exact hskip

/-- The inputs that `FullGraph_Compute` goes through are the named inputs of the group. -/
theorem listed_iff {k : String} {idx : Nat}
    (h : (compileInputMap t sg).dmlInputMap.lookup k = some idx) :
    some idx ∈ (compileInputMap t sg).subgraphToDmlInput ↔ k ≠ "" ∧ k ∈ sg.graphInputs := by
  obtain ⟨acc, hassigned, hslots, hinputs, -, hkeep, hold⟩ := passes t sg
  rw [← hslots]
  constructor
  · intro hlisted
    have hlt := hassigned.slots idx hlisted
    have hinput := (hold k idx h).resolve_right (Nat.not_le.2 hlt)
    obtain ⟨hmem, hskip⟩ := (hinputs k).1 (Option.isSome_iff_exists.2 ⟨idx, hinput⟩)
    exact ⟨beq_eq_false_iff_ne.1 (Bool.or_eq_false_iff.1 hskip).1, hmem⟩
  · rintro ⟨hne, hmem⟩
    obtain ⟨idx', hinput⟩ := Option.isSome_iff_exists.1 ((hinputs k).2
      ⟨hmem, Bool.or_eq_false_iff.2 ⟨beq_false_of_ne hne, not_constant_of_lookup h⟩⟩)
    obtain rfl : idx' = idx := Option.some.inj ((hkeep k idx' hinput).symm.trans h)
    exact hassigned.listed k idx' hinput

/-! ## What the descriptions read -/

/-- A name is wired to a DML input when it stands for its name. -/
theorem sourceOf_graphInput_iff {name : String} {idx : Nat} :
    t.sourceOf (compileInputMap t sg) name = some (.graphInput idx) ↔
      ∃ resolved, t.resolve name = some resolved ∧
        (compileInputMap t sg).dmlInputMap.lookup resolved = some idx := by
  unfold Translation.sourceOf
  rw [Option.bind_eq_some_iff]
  refine exists_congr fun resolved => and_congr_right fun _ => ?_
  unfold findSource
  constructor
  · intro h
    split at h
    · cases h
    · cases hlookup : (compileInputMap t sg).dmlInputMap.lookup resolved with
      | some i =>
        rw [hlookup] at h
        cases h
        rfl
      | none =>
        rw [hlookup] at h
        obtain ⟨p, -, heq⟩ := Option.map_eq_some_iff.1 h
        cases heq
  · intro h
    rw [not_constant_of_lookup h, h]
    rfl

theorem wiredTo_iff {name : String} {idx i : Nat} {cn : CompiledNode D} {d : InputDesc}
    (h : (compileInputMap t sg).dmlInputMap.lookup name = some idx) :
    WiredTo t sg idx i cn d ↔ ReadBy t sg name i cn d := by
  refine and_congr_right fun _ => and_congr_right fun _ => exists_congr fun read =>
    and_congr_right fun _ => ?_
  rw [sourceOf_graphInput_iff]
  constructor
  · rintro ⟨resolved, hres, hidx⟩
    rwa [← distinct_compileInputMap.inj resolved name idx hidx h]
  · exact fun hres => ⟨name, hres, h⟩

/-- Behind a wired input is a name. -/
theorem lookup_of_wired {idx i : Nat} {cn : CompiledNode D} {d : InputDesc}
    (h : WiredTo t sg idx i cn d) :
    ∃ name, (compileInputMap t sg).dmlInputMap.lookup name = some idx := by
  obtain ⟨-, -, read, -, hsource⟩ := h
  obtain ⟨name, -, hidx⟩ := sourceOf_graphInput_iff.1 hsource
  exact ⟨name, hidx⟩

/-! ## The two loops -/

/-- A packed slot with its name, within the tensors that are described. -/
theorem mem_slotsBelow_iff {cn : CompiledNode D} {limit : Nat} {slot : Nat × String} :
    slot ∈ cn.slotsBelow limit ↔ slot.1 < cn.inputNames.length ∧ slot.1 < limit ∧
      ((if cn.translated.inputNameReorder.isEmpty then some slot.1
        else cn.translated.inputNameReorder[slot.1]?).bind fun k => cn.inputNames[k]?) =
        some slot.2 := by
  unfold CompiledNode.slotsBelow
  rw [List.mem_filterMap]
  constructor
  · rintro ⟨s, hs, hslot⟩
    obtain ⟨name, hname, rfl⟩ := Option.map_eq_some_iff.1 hslot
    exact ⟨(Nat.lt_min.1 (List.mem_range.1 hs)).1, (Nat.lt_min.1 (List.mem_range.1 hs)).2, hname⟩
  · rintro ⟨hnames, hlimit, hname⟩
    exact ⟨slot.1, List.mem_range.2 (Nat.lt_min.2 ⟨hnames, hlimit⟩),
      Option.map_eq_some_iff.2 ⟨slot.2, hname, rfl⟩⟩

/-- Step 5 flags the slots of the kept nodes that read a large initializer. -/
theorem ownedSlot_iff {i s : Nat} {cn : CompiledNode D} :
    s < min cn.inputNames.length cn.translated.inputTensors.length ∧
        ownedSlot t sg i cn s = true ↔
      i ∈ t.liveNodes sg ∧ ∃ name, (s, name) ∈ cn.slotsBelow cn.translated.inputTensors.length ∧
        IsLarge t sg name := by
  have hslot : ∀ name, (s, name) ∈ cn.slotsBelow cn.translated.inputTensors.length ↔
      s < min cn.inputNames.length cn.translated.inputTensors.length ∧
        ((if cn.translated.inputNameReorder.isEmpty then some s
          else cn.translated.inputNameReorder[s]?).bind fun k => cn.inputNames[k]?) = some name :=
    fun name => by rw [mem_slotsBelow_iff, Nat.lt_min, and_assoc]
  simp only [hslot]
  unfold ownedSlot IsLarge
  dsimp only
  cases ((if cn.translated.inputNameReorder.isEmpty then some s
    else cn.translated.inputNameReorder[s]?).bind fun k => cn.inputNames[k]?) with
  | none => simp
  | some name =>
    simp only [Bool.and_eq_true, Bool.or_eq_true, List.contains_iff_mem, decide_eq_true_iff]
    constructor
    · rintro ⟨hs, ⟨hi, hinit⟩, hlarge⟩
      exact ⟨hi, name, ⟨hs, rfl⟩, hinit, hlarge⟩
    · rintro ⟨hi, _, ⟨hs, ⟨⟩⟩, hinit, hlarge⟩
      exact ⟨hs, ⟨hi, hinit⟩, hlarge⟩

/-- What the second loop records. -/
theorem mem_ownedIndices_iff {idx : Nat} :
    idx ∈ ownedIndices t sg (compileInputMap t sg) ↔
      ∃ name, (compileInputMap t sg).dmlInputMap.lookup name = some idx ∧ AtLargeSlot t sg name := by
  unfold ownedIndices
  rw [List.mem_flatMap]
  constructor
  · rintro ⟨⟨cn, i⟩, hentry, hidx⟩
    obtain ⟨s, hs, hidx⟩ := List.mem_filterMap.1 hidx
    have hcn : t.compiledNodes[i]? = some cn := List.mem_zipIdx_iff_getElem?.1 hentry
    dsimp only at hs hidx
    split at hidx
    · next hflag =>
      obtain ⟨name, hname, hidx⟩ := Option.bind_eq_some_iff.1 hidx
      obtain ⟨resolved, hres, hidx⟩ := Option.bind_eq_some_iff.1 hidx
      obtain ⟨hi, read, hread, hlarge⟩ := ownedSlot_iff.1 ⟨List.mem_range.1 hs, hflag⟩
      exact ⟨resolved, hidx, i, hi, cn, hcn, (s, read), hread, hlarge, name, hname, hres⟩
    · cases hidx
  · rintro ⟨resolved, hidx, i, hi, cn, hcn, ⟨s, read⟩, hread, hlarge, name, hname, hres⟩
    obtain ⟨hs, hflag⟩ := ownedSlot_iff.2 ⟨hi, read, hread, hlarge⟩
    refine ⟨(cn, i), List.mem_zipIdx_iff_getElem?.2 hcn,
      List.mem_filterMap.2 ⟨s, List.mem_range.2 hs, ?_⟩⟩
    dsimp only at hname ⊢
    rw [if_pos hflag, hname, Option.bind_some, hres, Option.bind_some, hidx]

/-- The descriptions of an initializer are flagged for its size, where they can be. -/
theorem ownedFlag_iff {resolved : String} {i : Nat} {cn : CompiledNode D} {d : InputDesc}
    (hinit : (sg.allInitializers resolved).isSome) (h : ReadBy t sg resolved i cn d) :
    ownedFlag t sg i cn d = true ↔
      d.Flaggable cn ∧ maxConstNodeDataSize ≤ boundBytes t resolved := by
  obtain ⟨hi, -, name, hread, hres⟩ := h
  cases d with
  | sub k input => simp [ownedFlag, InputDesc.Flaggable]
  | packed s =>
    have hslot : (s, name) ∈ cn.primarySlots := by
      rcases List.mem_append.1 hread with hread | hread
      · obtain ⟨slot, hslot, heq⟩ := List.mem_map.1 hread
        cases heq
        exact (List.mem_filter.1 hslot).1
      · obtain ⟨entry, -, hentry⟩ := List.mem_flatMap.1 hread
        obtain ⟨input, -, heq⟩ := List.mem_filterMap.1 hentry
        obtain ⟨_, -, heq⟩ := Option.map_eq_some_iff.1 heq
        cases heq
    obtain ⟨hnames, -, hname⟩ := mem_slotsBelow_iff.1 hslot
    have hlarge : IsLarge t sg name ↔ maxConstNodeDataSize ≤ boundBytes t resolved := by
      unfold IsLarge
      dsimp only
      rw [hres, Option.getD_some, if_pos hinit]
      exact and_iff_right (Or.inr hinit)
    unfold ownedFlag InputDesc.Flaggable
    dsimp only
    rw [Bool.and_eq_true, decide_eq_true_iff, ownedSlot_iff, ← hlarge]
    constructor
    · rintro ⟨-, name', hname', hlarge'⟩
      obtain ⟨-, htensors, heq⟩ := mem_slotsBelow_iff.1 hname'
      obtain rfl : name' = name := Option.some.inj (heq.symm.trans hname)
      exact ⟨htensors, hlarge'⟩
    · rintro ⟨htensors, hlarge'⟩
      exact ⟨hi, name, mem_slotsBelow_iff.2 ⟨hnames, htensors, hname⟩, hlarge'⟩

/-! ## The edges -/

/-- The edges from DML inputs into the parts of a node are what its descriptions read. -/
theorem inputEdge_iff {i part input k : Nat} {cn : CompiledNode D} :
    ⟨part, input, .graphInput k⟩ ∈ edgesOf t sg i cn ↔
      ∃ d name idx, (d, name) ∈ cn.reads ∧
        t.sourceOf (compileInputMap t sg) name = some (.graphInput idx) ∧
        d.place cn = (part, input) ∧ toUInt idx = k := by
  have hsource : ∀ source : ValueSource,
      edgeSource t (t.liveNodes sg) (operatorTotal t (t.liveNodes sg)) source = .graphInput k ↔
        ∃ idx, source = .graphInput idx ∧ toUInt idx = k := by
    intro source
    cases source with
    | graphInput idx => simp [edgeSource]
    | constant c => simp [edgeSource]
    | produced node slot => simp [edgeSource]
  unfold edgesOf partEdges
  rw [List.mem_append]
  constructor
  · rintro (hedge | hedge)
    · obtain ⟨slot, hslot, hedge⟩ := List.mem_filterMap.1 hedge
      split at hedge
      · cases hedge
      · next hname =>
        obtain ⟨source, hread, hedge⟩ := Option.map_eq_some_iff.1 hedge
        obtain ⟨rfl, rfl, hfrom⟩ := PartEdge.mk.inj hedge
        obtain ⟨idx, rfl, hidx⟩ := (hsource source).1 hfrom
        refine ⟨.packed slot.1, slot.2, idx, List.mem_append_left _ ?_, hread, rfl, hidx⟩
        exact List.mem_map.2 ⟨slot, List.mem_filter.2 ⟨hslot, by simpa using hname⟩, rfl⟩
    · obtain ⟨entry, hentry, hedge⟩ := List.mem_flatMap.1 hedge
      rcases List.mem_append.1 hedge with hedge | hedge
      · -- an edge between the parts starts at a node
        obtain ⟨e, -, hedge⟩ := List.mem_filterMap.1 hedge
        split at hedge
        · cases hedge
        · cases hedge
      · obtain ⟨e, he, hedge⟩ := List.mem_filterMap.1 hedge
        obtain ⟨name, hname, hedge⟩ := Option.bind_eq_some_iff.1 hedge
        obtain ⟨source, hread, hedge⟩ := Option.bind_eq_some_iff.1 hedge
        cases source with
        | produced node slot => cases hedge
        | constant c => cases hedge
        | graphInput idx =>
          cases hedge
          refine ⟨.sub entry.2 e.2, name, idx, List.mem_append_right _ ?_, hread, rfl, rfl⟩
          exact List.mem_flatMap.2 ⟨entry, hentry,
            List.mem_filterMap.2 ⟨e, he, Option.map_eq_some_iff.2 ⟨name, hname, rfl⟩⟩⟩
  · rintro ⟨d, name, idx, hread, hfrom, hplace, rfl⟩
    rcases List.mem_append.1 hread with hread | hread
    · obtain ⟨slot, hslot, heq⟩ := List.mem_map.1 hread
      obtain ⟨hslot, hname⟩ := List.mem_filter.1 hslot
      cases heq
      cases hplace
      refine Or.inl (List.mem_filterMap.2 ⟨slot, hslot, ?_⟩)
      rw [if_neg (by simpa using hname), hfrom]
      rfl
    · obtain ⟨entry, hentry, hread⟩ := List.mem_flatMap.1 hread
      obtain ⟨e, he, hread⟩ := List.mem_filterMap.1 hread
      obtain ⟨name', hname, heq⟩ := Option.map_eq_some_iff.1 hread
      cases heq
      cases hplace
      refine Or.inr (List.mem_flatMap.2 ⟨entry, hentry,
        List.mem_append_right _ (List.mem_filterMap.2 ⟨e, he, ?_⟩)⟩)
      rw [hname, Option.bind_some, hfrom]
      rfl

end OwnedInputsLemmas

open FullGraphLemmas GraphWellFormedLemmas OwnedInputsLemmas

section

variable {t : Translation D} {sg : SubgraphInfo} {desc : DmlGraphDesc D}

/-- The input edges are those from the DML inputs to the descriptions that are wired to them. -/
theorem inputEdges_iff (h : describe t sg = some desc) {e : InputEdge} :
    e ∈ desc.inputEdges ↔ ∃ idx i cn d, WiredTo t sg idx i cn d ∧
      e = ⟨toUInt idx, toUInt (nodeOffset t (t.liveNodes sg) i + (d.place cn).1),
        toUInt (d.place cn).2⟩ := by
  have hedge : e ∈ desc.inputEdges ↔
      (⟨e.toNode, e.toInput, .graphInput e.graphInput⟩ : SlotEdge) ∈ desc.edges := by
    simp only [DmlGraphDesc.edges, Wiring.edges, List.mem_append, List.mem_map, SlotEdge.mk.injEq,
      EdgeSource.graphInput.injEq, reduceCtorEq, and_false, exists_false,
      or_false]
    constructor
    · exact fun he => ⟨e, he, rfl, rfl, rfl⟩
    · rintro ⟨⟨_, _, _⟩, he, rfl, rfl, rfl⟩
      exact he
  rw [hedge, (described h).edges.mem_iff, mem_slotEdges]
  constructor
  · rintro ⟨i, hi, cn, hcn, ⟨part, input, source⟩, hpe, hplace⟩
    obtain ⟨hnode, hinput, rfl⟩ := SlotEdge.mk.inj hplace
    obtain ⟨d, name, idx, hread, hfrom, hd, hidx⟩ := inputEdge_iff.1 hpe
    refine ⟨idx, i, cn, d, ⟨hi, hcn, name, hread, hfrom⟩, ?_⟩
    rw [hd, hidx, hnode, hinput]
  · rintro ⟨idx, i, cn, d, ⟨hi, hcn, name, hread, hfrom⟩, rfl⟩
    exact ⟨i, hi, cn, hcn, ⟨(d.place cn).1, (d.place cn).2, .graphInput (toUInt idx)⟩,
      inputEdge_iff.2 ⟨d, name, idx, hread, hfrom, rfl, rfl⟩, rfl⟩

/-- The flags, the record and the bindings agree exactly when the positions of the slots that read
large initializers are those of large constant initializers. -/
theorem ownedAgree_iff (constant : String → Prop) (h : describe t sg = some desc) :
    OwnedAgree t sg constant desc ↔ OwnedSound t sg constant := by
  -- what `OwnedAgree` asks of an input, said of its name
  have hown : ∀ name idx, (compileInputMap t sg).dmlInputMap.lookup name = some idx →
      ((∃ i cn d, WiredTo t sg idx i cn d) ∧
        (∀ i cn d, WiredTo t sg idx i cn d → ownedFlag t sg i cn d = true) ∧
        (∃ name, (compileInputMap t sg).dmlInputMap.lookup name = some idx ∧
          (sg.allInitializers name).isSome ∧ constant name) ↔ OwnInput t sg constant name) := by
    intro name idx hidx
    simp only [wiredTo_iff hidx]
    constructor
    · rintro ⟨⟨i, cn, d, hread⟩, hflags, name', hidx', hinit, hconst⟩
      obtain rfl : name' = name := distinct_compileInputMap.inj name' name idx hidx' hidx
      exact
        { initializer := hinit
          unchanging := hconst
          large := ((ownedFlag_iff hinit hread).1 (hflags i cn d hread)).2
          read := ⟨i, cn, d, hread⟩
          primary := fun i cn d hread => ((ownedFlag_iff hinit hread).1 (hflags i cn d hread)).1 }
    · intro hown
      refine ⟨hown.read, fun i cn d hread => ?_, name, hidx, hown.initializer, hown.unchanging⟩
      exact (ownedFlag_iff hown.initializer hread).2 ⟨hown.primary i cn d hread, hown.large⟩
  have hrecorded : ∀ name idx, (compileInputMap t sg).dmlInputMap.lookup name = some idx →
      (idx ∈ ownedIndices t sg (compileInputMap t sg) ↔ AtLargeSlot t sg name) := by
    intro name idx hidx
    rw [mem_ownedIndices_iff]
    constructor
    · rintro ⟨name', hidx', hat⟩
      obtain rfl : name' = name := distinct_compileInputMap.inj name' name idx hidx' hidx
      exact hat
    · exact fun hat => ⟨name, hidx, hat⟩
  have hedge : ∀ idx i cn d, WiredTo t sg idx i cn d →
      (idx ∈ desc.inputEdges.map InputEdge.graphInput ↔ idx < 2 ^ 32) := by
    intro idx i cn d hwired
    constructor
    · intro hmem
      obtain ⟨e, he, rfl⟩ := List.mem_map.1 hmem
      obtain ⟨idx', -, -, -, -, rfl⟩ := (inputEdges_iff h).1 he
      exact toUInt_lt idx'
    · intro hlt
      refine List.mem_map.2 ⟨_, (inputEdges_iff h).2 ⟨idx, i, cn, d, hwired, rfl⟩, ?_⟩
      exact toUInt_of_lt hlt
  constructor
  · intro hagree
    refine ⟨fun name hname => ?_, fun name idx hidx hread hat => ?_⟩
    · obtain ⟨idx, hidx⟩ := Option.isSome_iff_exists.1 hname
      rw [← hrecorded name idx hidx, hagree.recorded idx, hown name idx hidx]
    · obtain ⟨i, cn, d, hread⟩ := hread
      have hwired := (wiredTo_iff hidx).2 hread
      obtain ⟨hlisted, -, hmem⟩ := hagree.bound idx i cn d hwired
        (mt (hrecorded name idx hidx).1 hat)
      obtain ⟨hne, hinput⟩ := (listed_iff hidx).1 hlisted
      exact ⟨hne, hinput, (hedge idx i cn d hwired).1 hmem⟩
  · intro hsound
    refine ⟨fun idx => ?_, fun idx i cn d hwired hnot => ?_, fun idx hidx hbound => hbound.2.1 hidx⟩
    · by_cases hname : ∃ name, (compileInputMap t sg).dmlInputMap.lookup name = some idx
      · obtain ⟨name, hidx⟩ := hname
        rw [hrecorded name idx hidx, hown name idx hidx]
        exact hsound.positions name (Option.isSome_iff_exists.2 ⟨idx, hidx⟩)
      · -- an index without a name is neither recorded nor wired
        refine iff_of_false (fun hmem => ?_) ?_
        · obtain ⟨name, hidx, -⟩ := mem_ownedIndices_iff.1 hmem
          exact hname ⟨name, hidx⟩
        · rintro ⟨⟨i, cn, d, hwired⟩, -, -⟩
          exact hname (lookup_of_wired hwired)
    · obtain ⟨name, hidx⟩ := lookup_of_wired hwired
      obtain ⟨hne, hinput, hlt⟩ := hsound.others name idx hidx
        ⟨i, cn, d, (wiredTo_iff hidx).1 hwired⟩ (mt (hrecorded name idx hidx).2 hnot)
      exact ⟨(listed_iff hidx).2 ⟨hne, hinput⟩, hnot, (hedge idx i cn d hwired).2 hlt⟩

end

/-! ## A quantized matrix product -/

def quantizedOuterDesc : DmlGraphDesc String :=
  (describe quantizedOuterTranslation quantizedInfo).get (by decide)

theorem quantizedOuter_owned :
    OwnedAgree quantizedOuterTranslation quantizedInfo (fun _ => True) quantizedOuterDesc ↔
      OwnedSound quantizedOuterTranslation quantizedInfo fun _ => True :=
  ownedAgree_iff _ (Option.some_get _).symm

/-- The slots of `B` and of the scales stand at the positions of the activations and of `B`. The
activations are recorded, and nothing is bound for the scales. -/
theorem reorderedScale_unbound :
    translateNodes quantizedRegistry quantizedInfo quantizedOuter.nodes =
        some quantizedOuterTranslation ∧
      describe quantizedOuterTranslation quantizedInfo = some quantizedOuterDesc ∧
      (compileInputMap quantizedOuterTranslation quantizedInfo).dmlInputMap =
        [("scales", 2), ("B", 1), ("x", 0)] ∧
      ownedIndices quantizedOuterTranslation quantizedInfo
        (compileInputMap quantizedOuterTranslation quantizedInfo) = [0, 1] ∧
      ¬ OwnedAgree quantizedOuterTranslation quantizedInfo (fun _ => True) quantizedOuterDesc := by
  refine ⟨(Option.some_get _).symm, (Option.some_get _).symm, by decide, by decide, fun h => ?_⟩
  have hwired : WiredTo quantizedOuterTranslation quantizedInfo 2 0
      (quantizedOuterTranslation.compiledNodes.get ⟨0, by decide⟩) (.packed 1) :=
    ⟨by decide, rfl, "scales", by decide, by decide⟩
  exact absurd (h.bound 2 0 _ _ hwired (by decide)).1 (by decide)

end AmdGpuEp.DirectML
