import AmdGpuEp.DirectML.Broadcasting
import Mathlib.Algebra.Order.Archimedean.Real.Basic

/-!
# Chains of operators

Some nodes are translated to a chain of sub-nodes that pass buffers to each other.
Which element of a buffer an operator reads or writes is up to the tensors of its
description, and one buffer may be described in many ways. What the operators
compute is given here over the reals, and with it the runs of a chain: a run says
nothing about the places of a buffer that no index of its tensor has.

Results:
1. `IsRun.concat`: a run goes on with any output that the next operator may leave.
2. `IsRun.extend`: and it can go on to the end, when the operators can write any values.
3. `IsRun.perturb`: with another value at a place that no index has there is another
   run.
-/

namespace AmdGpuEp.DirectML

/-! ## Operators -/

/-- The operators of such chains. A missing `ScaleBias` leaves the elements as they are. -/
inductive DmlOperator
  | identity (scaleBias : Option (ℚ × ℚ))
  | split (axis : Nat)
  | join (axis : Nat)
  | gather (axis indexDimensions : Nat)
  | fillValueSequence (valueDataType : DmlDataType) (valueStart valueDelta : ℚ)
  | multiply
  | add
  deriving DecidableEq

/-- An operator and the tensors that its fields point at. -/
structure DmlOperatorDesc where
  op : DmlOperator
  inputs : List DmlTensorInfo
  outputs : List DmlTensorInfo
  deriving DecidableEq

/-- The part of a joined dimension in which a coordinate lies, and the coordinate there. -/
def locatePart : List Nat → Nat → Nat × Nat
  | [], i => (0, i)
  | size :: sizes, i =>
    if i < size then (0, i)
    else ((locatePart sizes (i - size)).1 + 1, (locatePart sizes (i - size)).2)

namespace DmlOperatorDesc

variable (desc : DmlOperatorDesc) (x : Nat → Nat → ℝ)

/-- The sizes of tensors along an axis. -/
def sizesAlong (axis : Nat) (tensors : List DmlTensorInfo) : List Nat :=
  tensors.map fun info => info.sizes.getD axis 0

/-- The element of an input at an index, from the buffers of the inputs. -/
def read (i : Nat) (idx : List Nat) : ℝ :=
  x i ((desc.inputs.getD i {}).offset idx)

/-- `DML_OPERATOR_GATHER`: the last `n` dimensions of the indices stand in the place of an axis of
the input. -/
noncomputable def gathered (axis n : Nat) (idx : List Nat) : ℝ :=
  let behind := (desc.inputs.getD 0 {}).sizes.length - axis - 1
  let front := idx.length - behind - n
  let index := desc.read x 1
    (alignRight 0 (desc.inputs.getD 1 {}).sizes.length ((idx.drop front).take n))
  desc.read x 0 (alignRight 0 axis (idx.take front) ++ ⌊index⌋₊ :: idx.drop (front + n))

/-- The element of output `o` at an index. -/
noncomputable def value (o : Nat) (idx : List Nat) : ℝ :=
  match desc.op with
  | .identity none => desc.read x 0 idx
  | .identity (some (scale, bias)) => scale * desc.read x 0 idx + bias
  | .split axis =>
    desc.read x 0
      (idx.set axis ((sizesAlong axis (desc.outputs.take o)).sum + idx.getD axis 0))
  | .join axis =>
    let part := locatePart (sizesAlong axis desc.inputs) (idx.getD axis 0)
    desc.read x part.1 (idx.set axis part.2)
  | .gather axis n => desc.gathered x axis n idx
  | .fillValueSequence _ start delta =>
    start + delta * rowMajor (desc.outputs.getD o {}).sizes idx
  | .multiply => desc.read x 0 idx * desc.read x 1 idx
  | .add => desc.read x 0 idx + desc.read x 1 idx

variable {desc x} in
theorem read_eq {i : Nat} (info : DmlTensorInfo) (hget : desc.inputs[i]? = some info)
    (idx : List Nat) : desc.read x i idx = x i (info.offset idx) := by
  rw [read, List.getD_eq_getElem?_getD, hget]
  rfl

section

variable {desc x} {o axis : Nat} {idx : List Nat}

theorem value_split (hop : desc.op = .split axis) : desc.value x o idx = desc.read x 0
    (idx.set axis ((sizesAlong axis (desc.outputs.take o)).sum + idx.getD axis 0)) := by
  rw [value, hop]

theorem value_join (hop : desc.op = .join axis) : desc.value x o idx =
    desc.read x (locatePart (sizesAlong axis desc.inputs) (idx.getD axis 0)).1
      (idx.set axis (locatePart (sizesAlong axis desc.inputs) (idx.getD axis 0)).2) := by
  rw [value, hop]

theorem value_copy (hop : desc.op = .identity (some (1, 0))) :
    desc.value x o idx = desc.read x 0 idx := by
  rw [value, hop]
  simp

theorem value_gather {n : Nat} (hop : desc.op = .gather axis n) :
    desc.value x o idx = desc.gathered x axis n idx := by
  rw [value, hop]

theorem value_fill {dtype : DmlDataType} {start delta : ℚ}
    (hop : desc.op = .fillValueSequence dtype start delta) :
    desc.value x o idx = start + delta * rowMajor (desc.outputs.getD o {}).sizes idx := by
  rw [value, hop]

theorem value_multiply (hop : desc.op = .multiply) :
    desc.value x o idx = desc.read x 0 idx * desc.read x 1 idx := by
  rw [value, hop]

theorem value_add (hop : desc.op = .add) :
    desc.value x o idx = desc.read x 0 idx + desc.read x 1 idx := by
  rw [value, hop]

end

/-- What an operator leaves in the buffers of its outputs. -/
def Computes (y : Nat → Nat → ℝ) : Prop :=
  ∀ o out, desc.outputs[o]? = some out → ∀ idx, InBounds idx out.sizes →
    y o (out.offset idx) = desc.value x o idx

end DmlOperatorDesc

/-! ## Chains -/

/-- The buffer that an input slot gets: an input of the node, or an output of a sub-node. No slot of
a chain gets the output of the primary operator. -/
def SubNode.delivered (sn : SubNode DmlOperatorDesc) (inputs : Nat → Nat → ℝ)
    (outputs : Nat → Nat → Nat → ℝ) (slot : Nat) : Nat → ℝ :=
  match sn.graphInputs.find? fun entry => entry.2 == slot, sn.inputFrom[slot]? with
  | some entry, _ => inputs entry.1
  | none, some (.ofNat k, .ofNat o) => outputs k o
  | none, _ => fun _ => 0

/-- All sub-nodes have computed their outputs from the inputs of the node. -/
def IsRun (subNodes : List (SubNode DmlOperatorDesc)) (inputs : Nat → Nat → ℝ)
    (outputs : Nat → Nat → Nat → ℝ) : Prop :=
  ∀ j sn, subNodes[j]? = some sn →
    DmlOperatorDesc.Computes sn.opDesc (sn.delivered inputs outputs) (outputs j)

/-- The translated node leaves `y` in its output, which is that of the last sub-node. -/
def TranslatedOp.ChainsTo (t : TranslatedOp DmlOperatorDesc) (inputs : Nat → Nat → ℝ)
    (y : Nat → ℝ) : Prop :=
  ∃ outputs, IsRun t.subNodes inputs outputs ∧ outputs (t.subNodes.length - 1) 0 = y

/-- A sub-node reads those in front of it. -/
def Wired (subNodes : List (SubNode DmlOperatorDesc)) : Prop :=
  ∀ (j : Nat) (sn : SubNode DmlOperatorDesc), subNodes[j]? = some sn →
    ∀ source ∈ sn.inputFrom, source.1 < j

/-- Any values can be written to the outputs of an operator. -/
def DmlOperatorDesc.Separates (desc : DmlOperatorDesc) : Prop :=
  ∀ out ∈ desc.outputs, ∀ value : List Nat → ℝ,
    ∃ y : Nat → ℝ, ∀ idx, InBounds idx out.sizes → y (out.offset idx) = value idx

theorem DmlOperatorDesc.separates_of_packed {desc : DmlOperatorDesc}
    (h : ∀ out ∈ desc.outputs, out.strides = []) : desc.Separates := by
  intro out hout value
  obtain ⟨y, hy⟩ := exists_buffer out.sizes value
  refine ⟨y, fun idx hidx => ?_⟩
  rw [DmlTensorInfo.offset, DmlTensorInfo.view, if_pos (h out hout), address_packed, hy idx hidx]

section

variable {subNodes rest : List (SubNode DmlOperatorDesc)} {sn : SubNode DmlOperatorDesc}
  {inputs : Nat → Nat → ℝ} {outputs outputs' : Nat → Nat → Nat → ℝ}

theorem delivered_of_input {slot : Nat} (entry : Nat × Nat)
    (h : (sn.graphInputs.find? fun entry => entry.2 == slot) = some entry) :
    sn.delivered inputs outputs slot = inputs entry.1 := by
  unfold SubNode.delivered
  rw [h]

theorem delivered_of_output {slot k o : Nat}
    (h : (sn.graphInputs.find? fun entry => entry.2 == slot) = none)
    (hfrom : sn.inputFrom[slot]? = some ((k : Int), (o : Int))) :
    sn.delivered inputs outputs slot = outputs k o := by
  unfold SubNode.delivered
  rw [h, hfrom]

theorem delivered_congr {j : Nat} (hwired : ∀ source ∈ sn.inputFrom, source.1 < j)
    (h : ∀ k < j, outputs k = outputs' k) (inputs : Nat → Nat → ℝ) :
    sn.delivered inputs outputs = sn.delivered inputs outputs' := by
  funext slot
  unfold SubNode.delivered
  split
  · rfl
  · next k o _ hfrom =>
    have hk : (k : Int) < j := hwired _ (List.mem_of_getElem? hfrom)
    rw [h k (Int.ofNat_lt.1 hk)]
  · rfl

theorem Wired.front (h : Wired (subNodes ++ rest)) : Wired subNodes := by
  intro j sn hsn
  refine h j sn ?_
  rw [List.getElem?_append_left (List.getElem?_eq_some_iff.1 hsn).1, hsn]

theorem IsRun.congr (hwired : Wired subNodes) (hrun : IsRun subNodes inputs outputs)
    (h : ∀ k < subNodes.length, outputs' k = outputs k) : IsRun subNodes inputs outputs' := by
  intro j sn hsn
  have hj := (List.getElem?_eq_some_iff.1 hsn).1
  rw [h j hj, delivered_congr (hwired j sn hsn) fun k hk => h k (hk.trans hj)]
  exact hrun j sn hsn

/-- A run goes on with any output that the next operator may leave. -/
theorem IsRun.concat (hwired : Wired (subNodes ++ [sn])) (hrun : IsRun subNodes inputs outputs)
    {y : Nat → Nat → ℝ} (hy : sn.opDesc.Computes (sn.delivered inputs outputs) y) :
    IsRun (subNodes ++ [sn]) inputs (Function.update outputs subNodes.length y) := by
  have hkept : ∀ k < subNodes.length, Function.update outputs subNodes.length y k = outputs k :=
    fun k hk => Function.update_of_ne hk.ne y outputs
  intro j sn' hsn'
  rcases lt_or_ge j subNodes.length with hj | hj
  · rw [List.getElem?_append_left hj] at hsn'
    exact hrun.congr hwired.front hkept j sn' hsn'
  · have hlast := (List.getElem?_eq_some_iff.1 hsn').1
    rw [List.length_append, List.length_singleton] at hlast
    obtain rfl : j = subNodes.length := by omega
    obtain rfl : sn = sn' := by simpa using hsn'
    rw [Function.update_self, delivered_congr (hwired _ sn (by simp)) hkept]
    exact hy

theorem exists_computes {desc : DmlOperatorDesc} (h : desc.Separates) (x : Nat → Nat → ℝ) :
    ∃ y, desc.Computes x y := by
  have hout : ∀ o, ∃ y : Nat → ℝ, ∀ out, desc.outputs[o]? = some out →
      ∀ idx, InBounds idx out.sizes → y (out.offset idx) = desc.value x o idx := by
    intro o
    cases hget : desc.outputs[o]? with
    | none => exact ⟨fun _ => 0, fun out hout => by cases hout⟩
    | some out =>
      obtain ⟨y, hy⟩ := h out (List.mem_of_getElem? hget) (desc.value x o)
      refine ⟨y, fun out' hout' => ?_⟩
      cases hout'
      exact hy
  choose y hy using hout
  exact ⟨y, hy⟩

/-- A run goes on to the end of the chain. -/
theorem IsRun.extend (hwired : Wired (subNodes ++ rest))
    (hseparates : ∀ sn ∈ rest, DmlOperatorDesc.Separates sn.opDesc)
    (hrun : IsRun subNodes inputs outputs) :
    ∃ outputs', IsRun (subNodes ++ rest) inputs outputs' ∧
      ∀ k < subNodes.length, outputs' k = outputs k := by
  induction rest using List.reverseRecOn with
  | nil => exact ⟨outputs, by rwa [List.append_nil], fun _ _ => rfl⟩
  | append_singleton rest sn ih =>
    rw [← List.append_assoc] at hwired ⊢
    obtain ⟨behind, hbehind, hkept⟩ :=
      ih hwired.front fun sn' hsn' => hseparates sn' (List.mem_append_left _ hsn')
    obtain ⟨y, hy⟩ := exists_computes (hseparates sn (by simp)) (sn.delivered inputs behind)
    refine ⟨_, hbehind.concat hwired hy, fun k hk => ?_⟩
    rw [Function.update_of_ne (by rw [List.length_append]; omega), hkept k hk]

/-- An operator of a run may have left something else, and the others go on from there. -/
theorem IsRun.redo (hwired : Wired (subNodes ++ sn :: rest))
    (hseparates : ∀ sn' ∈ rest, DmlOperatorDesc.Separates sn'.opDesc)
    (hrun : IsRun (subNodes ++ sn :: rest) inputs outputs) {y : Nat → Nat → ℝ}
    (hy : sn.opDesc.Computes (sn.delivered inputs outputs) y) :
    ∃ outputs', IsRun (subNodes ++ sn :: rest) inputs outputs' ∧
      outputs' subNodes.length = y := by
  have hsplit : subNodes ++ sn :: rest = subNodes ++ [sn] ++ rest := by
    rw [List.append_assoc, List.singleton_append]
  rw [hsplit] at hwired hrun ⊢
  have hfront : IsRun subNodes inputs outputs := by
    intro j sn' hsn'
    refine hrun j sn' ?_
    have hj := (List.getElem?_eq_some_iff.1 hsn').1
    rw [List.append_assoc, List.getElem?_append_left hj, hsn']
  obtain ⟨outputs', hrun', hkept⟩ := (hfront.concat hwired.front hy).extend hwired hseparates
  refine ⟨outputs', hrun', ?_⟩
  rw [hkept _ (by simp), Function.update_self]

/-- A place that no index has can hold anything. -/
theorem DmlOperatorDesc.Computes.update {desc : DmlOperatorDesc} {x y : Nat → Nat → ℝ}
    (h : desc.Computes x y) {p : Nat}
    (hp : ∀ out, desc.outputs[0]? = some out → ∀ idx, InBounds idx out.sizes → out.offset idx ≠ p)
    (v : ℝ) : desc.Computes x (Function.update y 0 (Function.update (y 0) p v)) := by
  intro o out hout idx hidx
  rw [← h o out hout idx hidx]
  cases o with
  | zero => rw [Function.update_self, Function.update_of_ne (hp out hout idx hidx)]
  | succ o => rw [Function.update_of_ne (Nat.succ_ne_zero o)]

/-- The next operators cannot tell what is at a place that no index has. -/
theorem IsRun.perturb (hwired : Wired (subNodes ++ sn :: rest))
    (hseparates : ∀ sn' ∈ rest, DmlOperatorDesc.Separates sn'.opDesc)
    (hrun : IsRun (subNodes ++ sn :: rest) inputs outputs) {p : Nat}
    (hp : ∀ out, sn.opDesc.outputs[0]? = some out → ∀ idx, InBounds idx out.sizes →
      out.offset idx ≠ p) :
    ∃ outputs', IsRun (subNodes ++ sn :: rest) inputs outputs' ∧
      outputs' subNodes.length 0 p ≠ outputs subNodes.length 0 p := by
  have hsn : (subNodes ++ sn :: rest)[subNodes.length]? = some sn := by simp
  obtain ⟨outputs', hrun', hother⟩ := hrun.redo hwired hseparates
    ((hrun _ sn hsn).update hp (outputs subNodes.length 0 p + 1))
  refine ⟨outputs', hrun', ?_⟩
  rw [hother, Function.update_self, Function.update_self]
  exact (lt_add_one _).ne'

end

end AmdGpuEp.DirectML
