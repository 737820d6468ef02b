import AmdGpuEp.DirectML.BoundSizes
import AmdGpuEp.DirectML.ValueInputs
import AmdGpuEp.Lib.Strided
import Mathlib.Algebra.Order.BigOperators.GroupWithZero.List

/-!
# Broadcasting by strides

`BroadcastShapes` of `dml_op_translators.cc` describes two operands of an
elementwise operator in the sizes of its result: a dimension of size 1 is given the
size of the result and a stride of 0. `Where`, `Expand` and the third operand of
`Gemm` have broadcasting of their own.

Results:
1. `broadcastShapes_spec`: `BroadcastShapes` is exact for all shapes that fit in 32
   bits, and so are the operands of binary operators (`binaryElementwise_reads`).
2. `where_iff`, `expand_iff`, `gemm_iff`: when the other three are exact.
3. `ownBroadcasting_misreads`: a `Where`, an `Expand` and a `Gemm` that are not.
-/

namespace AmdGpuEp.DirectML

/-! ## Buffer descriptions as views -/

namespace DmlTensorInfo

/-- The dimensions of the buffer description; without strides they are packed. -/
def view (info : DmlTensorInfo) : List Dim :=
  if info.strides = [] then packed info.sizes else List.zipWith Dim.mk info.sizes info.strides

/-- The place of the element at an index. -/
def offset (info : DmlTensorInfo) (idx : List Nat) : Nat :=
  address info.view idx

/-- Every index reads the element of a tensor of this shape that broadcasting selects, and that
element is one of the tensor. -/
def Reads (info : DmlTensorInfo) (shape : List Nat) : Prop :=
  ∀ idx, InBounds idx info.sizes →
    info.offset idx = rowMajor shape (restrictTo shape idx) ∧ info.offset idx < shape.prod

end DmlTensorInfo

/-! ## Two operands -/

structure BroadcastResult where
  a : DmlTensorInfo
  b : DmlTensorInfo
  outputSizes : List Nat
  deriving DecidableEq, Repr

/-- Sizes and packed strides. -/
def packedDims (sizes : List Nat) : List Dim :=
  List.zipWith Dim.mk sizes (computePackedStrides sizes)

/-- A turn of the loop over the dimensions, for one operand. The strides of the second operand are
0 for the dimensions that stay at 1, too. -/
def expandDim (second : Bool) (d : Dim) (out : Nat) : Dim :=
  let expanded := if d.size = 1 ∧ 1 < out then ⟨out, 0⟩ else d
  if second ∧ expanded.size = 1 then ⟨expanded.size, 0⟩ else expanded

/-- The description of an operand, padded to four dimensions. -/
def expandOperand (second : Bool) (info : DmlTensorInfo) (dtype : DmlDataType)
    (sizes outSizes : List Nat) : DmlTensorInfo :=
  let dims := List.zipWith (expandDim second) (packedDims sizes) outSizes
  let padded := List.replicate (4 - dims.length) ⟨1, 0⟩ ++ dims
  { makeTensorInfoWithStrides (padded.map Dim.size) (padded.map Dim.stride) dtype
      (computeAlignedTotalBytes info.sizes dtype) with
    sizes := padded.map Dim.size
    strides := padded.map Dim.stride }

namespace DmlTensorInfo

/-- `BroadcastShapes`. -/
def broadcastShapes (aIn bIn : DmlTensorInfo) : Option BroadcastResult :=
  let maxRank := max aIn.sizes.length bIn.sizes.length
  let aSizes := padToMinDims aIn.sizes maxRank
  let bSizes := padToMinDims bIn.sizes maxRank
  ((aSizes.zip bSizes).mapM fun d => broadcastSize d.1 d.2).map fun outSizes =>
    { a := expandOperand false aIn aIn.dataType aSizes outSizes
      b := expandOperand true bIn aIn.dataType bSizes outSizes
      outputSizes := padToMinDims outSizes 4 }

end DmlTensorInfo

section

variable {D : Type}

/-- `TranslateBinaryElementwise`. -/
def translateBinaryElementwise (desc : D) : OpTranslator D := fun node shapes _ =>
  match getNodeInputNames node, getNodeOutputNames node with
  | a :: b :: _, output :: _ =>
    match shapes a, shapes b with
    | some aInfo, some bInfo =>
      (aInfo.broadcastShapes bInfo).map fun bc =>
        let outInfo :=
          match shapes output with
          | some outEdge => makeTensorInfo outEdge.sizes outEdge.dataType
          | none => makeTensorInfo bc.outputSizes aInfo.dataType
        { opDesc := desc, inputTensors := [bc.a, bc.b], outputTensors := [outInfo] }
    | _, _ => none
  | _, _ => none

/-! ## Operators with a broadcasting of their own -/

/-- `TranslateWhere`: the condition is described in the sizes of the result as it stands. -/
def translateWhere (desc : D) : OpTranslator D := fun node shapes _ =>
  match getNodeInputNames node, getNodeOutputNames node with
  | cond :: x :: y :: _, output :: _ =>
    match shapes cond, shapes x, shapes y with
    | some condInfo, some xInfo, some yInfo =>
      (xInfo.broadcastShapes yInfo).map fun bc =>
        let outSizes := ((shapes output).map DmlTensorInfo.sizes).getD bc.outputSizes
        { opDesc := desc
          inputTensors := [makeTensorInfo outSizes condInfo.dataType, bc.a, bc.b]
          outputTensors := [makeTensorInfo outSizes xInfo.dataType] }
    | _, _, _ => none
  | _, _ => none

/-- `computed_out`, the values of the target shape. -/
def computedOut (beyond : Nat → UInt8) (node : Node)
    (initializers : String → Option Initializer) : List Nat :=
  ((constantInput initializers node 1).map fun constant =>
    (readInt64s beyond constant).map fun value => toUInt32 (max value 1)).getD []

/-- The strides of the input of an `Expand`. When the target has fewer dimensions than the input,
the difference of the ranks wraps, and every index is below it. -/
def expandStrides (inSizes : List Nat) (outRank : Nat) : List Nat :=
  if outRank < inSizes.length then List.replicate outRank 0
  else
    List.replicate (outRank - inSizes.length) 0 ++
      (packedDims inSizes).map fun d => if d.size = 1 then 0 else d.stride

/-- The translator of `Expand`: an identity with strides. -/
def translateExpand (beyond : Nat → UInt8) (desc : D) : OpTranslator D :=
  fun node shapes initializers =>
    withShapes node shapes fun inInfo outEdge =>
      let outSizes := (outEdge.map DmlTensorInfo.sizes).getD (computedOut beyond node initializers)
      if outEdge = none ∧ outSizes = [] then none
      else
        let strides := expandStrides inInfo.sizes outSizes.length
        let inTensor :=
          { makeTensorInfoWithStrides outSizes strides inInfo.dataType
              (computeAlignedTotalBytes inInfo.sizes inInfo.dataType) with
            sizes := padToMinDims outSizes 4
            strides := padToMinDims strides 4 }
        some
          { opDesc := desc, inputTensors := [inTensor],
            outputTensors := [makeTensorInfo outSizes inInfo.dataType] }

/-- The description of the third operand of a `Gemm`. -/
def gemmC (cInfo : DmlTensorInfo) (dtype : DmlDataType) (outSizes : List Nat) : DmlTensorInfo :=
  let strides := List.zipWith
    (fun (d : Dim) out => if d.size = 1 ∧ 1 < out then 0 else d.stride)
    (packedDims (padToMinDims cInfo.sizes outSizes.length)) outSizes
  { makeTensorInfoWithStrides outSizes strides dtype cInfo.totalBytes with
    sizes := outSizes
    strides := strides }

/-- The rows or columns of a matrix: its dimension `k` from the end. -/
def sizeFromEnd (info : DmlTensorInfo) (k : Nat) : Nat :=
  info.sizes.getD (info.sizes.length - k) 0

/-- `M` and `N`. -/
def gemmSizes (node : Node) (aInfo bInfo : DmlTensorInfo) : List Nat :=
  [sizeFromEnd aInfo (if getAttributeInt node "transA" 0 ≠ 0 then 1 else 2),
    sizeFromEnd bInfo (if getAttributeInt node "transB" 0 ≠ 0 then 2 else 1)]

/-- `TranslateGemm`. `desc` is told whether there is a third operand. -/
def translateGemm (desc : Node → Bool → D) : OpTranslator D := fun node shapes _ =>
  match getNodeInputNames node, getNodeOutputNames node with
  | a :: b :: rest, output :: _ =>
    match shapes a, shapes b with
    | some aInfo, some bInfo =>
      let cInfo := (rest.head?.filter (· != "")).bind shapes
      let outSizes := ((shapes output).map DmlTensorInfo.sizes).getD (gemmSizes node aInfo bInfo)
      some
        { opDesc := desc node cInfo.isSome
          inputTensors := [makeTensorInfo aInfo.sizes aInfo.dataType,
            makeTensorInfo bInfo.sizes bInfo.dataType] ++
            (cInfo.map fun c => gemmC c aInfo.dataType outSizes).toList
          outputTensors := [makeTensorInfo outSizes aInfo.dataType] }
    | _, _ => none
  | _, _ => none

end

/-! ## What is asked of them -/

/-- The common shape of three tensors. -/
def IsBroadcast3 (c x y out : List Nat) : Prop :=
  ∃ o, IsBroadcast x y o ∧ IsBroadcast c o out

/-- The result is described in the common shape of the operands, each of these operands is
described in it too and reads its own elements; operands without a common shape are rejected. -/
def Broadcasts {D : Type} (common : List Nat → Prop) (shapes : List (List Nat))
    (operands : TranslatedOp D → List DmlTensorInfo) (result : Option (TranslatedOp D)) : Prop :=
  ((¬ ∃ out, common out) → result = none) ∧
    ∀ out, common out → ∀ t, result = some t →
      t.outputTensors.map DmlTensorInfo.sizes = [padToMinDims out 4] ∧
        List.Forall₂ (fun info shape => info.sizes = padToMinDims out 4 ∧ info.Reads shape)
          (operands t) shapes

/-- The record of the output of a node. -/
def outEdge (node : Node) (shapes : ValueShapes) : Option DmlTensorInfo :=
  (getNodeOutputNames node).head?.bind shapes

/-- The records that a node meets: those of its operands, and maybe one of its output, which is then
of a shape that ORT has inferred for it. The sizes in a record are positive. -/
structure Recorded (node : Node) (shapes : ValueShapes) (operands : List DmlTensorInfo)
    (inferred : List Nat → Prop) : Prop where
  inputs : ((getNodeInputNames node).take operands.length).map shapes = operands.map some
  output : getNodeOutputNames node ≠ []
  positive : ∀ info ∈ operands ++ (outEdge node shapes).toList, ∀ d ∈ info.sizes, 0 < d
  edge : ∀ e, outEdge node shapes = some e → ∃ out, inferred out ∧ e.sizes = padToMinDims out 4

/-- No stride of a dimension of these sizes needs more than 32 bits; those of a size of 1 are not
used. -/
def StridesFit : List Nat → Prop
  | [] => True
  | size :: sizes => (size ≠ 1 → sizes.prod < 2 ^ 32) ∧ StridesFit sizes

instance StridesFit.decidable : ∀ sizes, Decidable (StridesFit sizes)
  | [] => inferInstanceAs (Decidable True)
  | size :: sizes =>
    have : Decidable (StridesFit sizes) := StridesFit.decidable sizes
    inferInstanceAs (Decidable ((size ≠ 1 → sizes.prod < 2 ^ 32) ∧ StridesFit sizes))

namespace BroadcastingLemmas

/-! ## Packed dimensions -/

theorem foldr_stride (sizes : List Nat) :
    sizes.foldr (fun s stride => stride * s % 2 ^ 32) 1 = sizes.prod % 2 ^ 32 := by
  induction sizes with
  | nil => rfl
  | cons s sizes ih => rw [List.foldr_cons, ih, List.prod_cons, Nat.mod_mul_mod, Nat.mul_comm]

theorem packedDims_cons (size : Nat) (sizes : List Nat) :
    packedDims (size :: sizes) = ⟨size, sizes.prod % 2 ^ 32⟩ :: packedDims sizes := by
  rw [packedDims, computePackedStrides, foldr_stride]
  rfl

theorem length_packedDims (sizes : List Nat) : (packedDims sizes).length = sizes.length := by
  induction sizes with
  | nil => rfl
  | cons size sizes ih => rw [packedDims_cons, List.length_cons, ih, List.length_cons]

theorem packed_ones (k : Nat) (sizes : List Nat) :
    packed (List.replicate k 1 ++ sizes) =
      List.replicate k ⟨1, sizes.prod⟩ ++ packed sizes := by
  induction k with
  | zero => rfl
  | succ k ih => simp [List.replicate_succ, packed, ih]

theorem stridesFit_ones (k : Nat) (sizes : List Nat) :
    StridesFit (List.replicate k 1 ++ sizes) ↔ StridesFit sizes := by
  induction k with
  | zero => rfl
  | succ k ih => simp [List.replicate_succ, StridesFit, ih]

theorem stridesFit_of_prod {sizes : List Nat} (hpos : ∀ d ∈ sizes, 0 < d)
    (h : sizes.prod < 2 ^ 32) : StridesFit sizes := by
  induction sizes with
  | nil => trivial
  | cons size sizes ih =>
    rw [List.prod_cons] at h
    have hle := Nat.le_mul_of_pos_left sizes.prod (hpos size List.mem_cons_self)
    have hrest := Nat.lt_of_le_of_lt hle h
    exact ⟨fun _ => hrest, ih (fun d hd => hpos d (List.mem_cons_of_mem size hd)) hrest⟩

/-! ## What a view has to be -/

theorem zipWith_dims (w : List Dim) :
    List.zipWith Dim.mk (w.map Dim.size) (w.map Dim.stride) = w := by
  induction w with
  | nil => rfl
  | cons d w ih => rw [List.map_cons, List.map_cons, List.zipWith_cons_cons, ih]

theorem view_of_dims {info : DmlTensorInfo} {w : List Dim} (hw : w ≠ [])
    (hsizes : info.sizes = w.map Dim.size) (hstrides : info.strides = w.map Dim.stride) :
    info.view = w := by
  rw [DmlTensorInfo.view, hsizes, hstrides, if_neg (by simpa using hw), zipWith_dims]

theorem alongs_ones {k m n : Nat} {v w : List Dim} :
    List.Forall₂ Along (List.replicate k ⟨1, m⟩ ++ v) (List.replicate k ⟨1, n⟩ ++ w) ↔
      List.Forall₂ Along v w := by
  have hone : Along ⟨1, m⟩ ⟨1, n⟩ := Or.inl rfl
  induction k with
  | zero => rfl
  | succ k ih =>
    rw [List.replicate_succ, List.replicate_succ, List.cons_append, List.cons_append,
      List.forall₂_cons]
    exact (and_iff_right hone).trans ih

/-- A description in the sizes of the result reads the shape when its strides repeat it. -/
theorem reads_iff {info : DmlTensorInfo} {shape : List Nat} {w : List Dim} (hview : info.view = w)
    (hsizes : info.sizes = w.map Dim.size) (hpos : ∀ d ∈ w, 0 < d.size)
    (hlen : shape.length ≤ w.length)
    (hfits : List.Forall₂ (fun d e => d = e ∨ d = 1) (alignRight 1 w.length shape) info.sizes) :
    info.Reads shape ↔
      List.Forall₂ Along (packed (alignRight 1 w.length shape)) w := by
  have hv : (packed (alignRight 1 w.length shape)).length = w.length := by
    rw [length_packed, length_alignRight]
    omega
  rw [← repeats_iff hv hpos]
  have hidx : ∀ {idx}, InBounds idx info.sizes → idx.length = w.length := by
    intro idx h
    rw [h.length_eq, hsizes, List.length_map]
  have hread : ∀ {idx}, InBounds idx info.sizes →
      address (packed (alignRight 1 w.length shape))
        (restrict ((packed (alignRight 1 w.length shape)).map Dim.size) idx) =
          rowMajor shape (restrictTo shape idx) := by
    intro idx h
    rw [map_size_packed, ← hidx h, rowMajor_restrictTo]
  constructor
  · intro h idx hin
    rw [← hsizes] at hin
    rw [hread hin, ← (h idx hin).1, DmlTensorInfo.offset, hview]
  · intro h idx hin
    have hoffset : info.offset idx = rowMajor shape (restrictTo shape idx) := by
      rw [DmlTensorInfo.offset, hview, h idx (hsizes ▸ hin), hread hin]
    refine ⟨hoffset, ?_⟩
    rw [hoffset]
    refine rowMajor_lt ?_
    have hdrop := List.forall₂_drop (w.length - shape.length) hfits
    rw [drop_alignRight] at hdrop
    rw [restrictTo, hidx hin]
    exact inBounds_zipWith hdrop (List.forall₂_drop _ hin)

/-! ## Expanded operands -/

section

variable (second : Bool)

theorem size_expandDim {d : Dim} {out : Nat} (h : d.size = out ∨ d.size = 1) (hpos : 0 < out) :
    (expandDim second d out).size = out := by
  unfold expandDim
  dsimp only
  split_ifs <;> simp_all <;> omega

theorem expandDim_eq {d : Dim} {out : Nat} (h : d.size = out ∨ d.size = 1) (hpos : 0 < out) :
    expandDim second d out =
      ⟨out, if d.size = 1 ∧ (second ∨ 1 < out) then 0 else d.stride⟩ := by
  obtain ⟨size, stride⟩ := d
  unfold expandDim
  dsimp only at h ⊢
  split_ifs <;> simp_all <;> omega

theorem along_expandDim {size stride out : Nat} (h : size = out ∨ size = 1) (hpos : 0 < out) :
    Along ⟨size, stride⟩ (expandDim second ⟨size, stride % 2 ^ 32⟩ out) ↔
      (size ≠ 1 → stride < 2 ^ 32) := by
  by_cases hone : size = 1
  · subst hone
    refine iff_of_true ?_ (absurd rfl)
    rcases Nat.lt_or_ge 1 out with hlt | hle
    · refine Or.inr ?_
      simp [expandDim, hlt]
    · refine Or.inl ?_
      rw [size_expandDim second (Or.inr rfl) hpos]
      omega
  · have hkeep : expandDim second ⟨size, stride % 2 ^ 32⟩ out = ⟨size, stride % 2 ^ 32⟩ := by
      simp [expandDim, hone]
    rw [hkeep, Along, if_neg hone]
    simp only [hone, false_or, ne_eq, not_false_eq_true, forall_true_left]
    exact ⟨fun hmod => hmod ▸ Nat.mod_lt _ (by decide), Nat.mod_eq_of_lt⟩

theorem alongs_expandDim {sizes out : List Nat}
    (h : List.Forall₂ (fun d e => d = e ∨ d = 1) sizes out) (hpos : ∀ e ∈ out, 0 < e) :
    List.Forall₂ Along (packed sizes)
        (List.zipWith (expandDim second) (packedDims sizes) out) ↔ StridesFit sizes := by
  induction h with
  | nil => exact iff_of_true .nil trivial
  | @cons size e sizes out hsize _ ih =>
    rw [packed, packedDims_cons, List.zipWith_cons_cons, List.forall₂_cons,
      along_expandDim second hsize (hpos e List.mem_cons_self),
      ih fun d hd => hpos d (List.mem_cons_of_mem e hd), StridesFit]

theorem sizes_expandDim {sizes out : List Nat}
    (h : List.Forall₂ (fun d e => d = e ∨ d = 1) sizes out) (hpos : ∀ e ∈ out, 0 < e) :
    (List.zipWith (expandDim second) (packedDims sizes) out).map Dim.size = out := by
  induction h with
  | nil => rfl
  | @cons size e sizes out hsize _ ih =>
    rw [packedDims_cons, List.zipWith_cons_cons, List.map_cons,
      size_expandDim second hsize (hpos e List.mem_cons_self),
      ih fun d hd => hpos d (List.mem_cons_of_mem e hd)]

theorem fits_aligned {s out : List Nat} {n : Nat}
    (h : List.Forall₂ (fun d e => d = e ∨ d = 1) (alignRight 1 n s) out) (hn : s.length ≤ n) :
    List.Forall₂ (fun d e => d = e ∨ d = 1)
      (alignRight 1 (4 - out.length + out.length) s) (padToMinDims out 4) := by
  have hlen : out.length = n := by
    rw [← h.length_eq, length_alignRight]
    omega
  have hsplit : alignRight 1 (4 - out.length + out.length) s =
      List.replicate (4 - out.length) 1 ++ alignRight 1 n s := by
    rw [alignRight, alignRight, ← List.append_assoc, ← List.replicate_add, hlen]
    congr 2
    omega
  rw [hsplit]
  refine List.rel_append ?_ h
  rw [List.forall₂_iff_get]
  exact ⟨rfl, fun i _ _ => Or.inl (by simp)⟩

/-- A description in the sizes of the result, with the strides of the expanded operand. -/
theorem reads_expanded {info : DmlTensorInfo} {s out : List Nat} {n m : Nat}
    (h : List.Forall₂ (fun d e => d = e ∨ d = 1) (alignRight 1 n s) out) (hn : s.length ≤ n)
    (hpos : ∀ e ∈ out, 0 < e) (hsizes : info.sizes = padToMinDims out 4)
    (hstrides : info.strides = List.replicate (4 - out.length) m ++
      (List.zipWith (expandDim second) (packedDims (alignRight 1 n s)) out).map Dim.stride) :
    info.Reads s ↔ StridesFit s := by
  have hlen : out.length = n := by
    rw [← h.length_eq, length_alignRight]
    omega
  have halong := alongs_expandDim second h hpos
  have hsize := sizes_expandDim second h hpos
  generalize List.zipWith (expandDim second) (packedDims (alignRight 1 n s)) out = dims
    at halong hsize hstrides
  -- the dimensions of the operand, and what is put before them
  have hw : ∃ w, w = List.replicate (4 - out.length) (⟨1, m⟩ : Dim) ++ dims := ⟨_, rfl⟩
  obtain ⟨w, hw⟩ := hw
  have hwsizes : w.map Dim.size = padToMinDims out 4 := by
    rw [hw, List.map_append, List.map_replicate, hsize]
    rfl
  have hwstrides : info.strides = w.map Dim.stride := by
    rw [hstrides, hw, List.map_append, List.map_replicate]
  have hwlen : w.length = 4 - out.length + out.length := by
    rw [← List.length_map (f := Dim.size), hwsizes, padToMinDims, List.length_append,
      List.length_replicate]
  have hne : w ≠ [] := by
    rintro rfl
    rw [List.length_nil] at hwlen
    omega
  rw [reads_iff (view_of_dims hne (hsizes.trans hwsizes.symm) hwstrides)
    (hsizes.trans hwsizes.symm) ?_ (by omega) ?_]
  · have halign : alignRight 1 w.length s =
        List.replicate (4 - out.length) 1 ++ alignRight 1 n s := by
      rw [hwlen, alignRight, alignRight, ← List.append_assoc, ← List.replicate_add]
      congr 2
      omega
    rw [halign, packed_ones, hw, alongs_ones, halong, alignRight, stridesFit_ones]
  · intro d hd
    have hmem : d.size ∈ padToMinDims out 4 := hwsizes ▸ List.mem_map_of_mem hd
    rcases List.mem_append.1 hmem with hone | hout
    · rw [List.eq_of_mem_replicate hone]
      exact Nat.one_pos
    · exact hpos _ hout
  · rw [hsizes, hwlen]
    exact fits_aligned h hn

/-- An operand in the sizes of the result, and when it reads its tensor. -/
theorem expandOperand_spec (info : DmlTensorInfo) (dtype : DmlDataType) {s out : List Nat} {n : Nat}
    (h : List.Forall₂ (fun d e => d = e ∨ d = 1) (alignRight 1 n s) out) (hn : s.length ≤ n)
    (hpos : ∀ e ∈ out, 0 < e) :
    (expandOperand second info dtype (padToMinDims s n) out).sizes = padToMinDims out 4 ∧
      ((expandOperand second info dtype (padToMinDims s n) out).Reads s ↔ StridesFit s) := by
  have hsize := sizes_expandDim second h hpos
  have hdims : (List.zipWith (expandDim second) (packedDims (padToMinDims s n)) out).length =
      out.length := by
    rw [← List.length_map (f := Dim.size)]
    exact congrArg List.length hsize
  have hsizes : (expandOperand second info dtype (padToMinDims s n) out).sizes =
      padToMinDims out 4 := by
    show List.map Dim.size (List.replicate _ _ ++ _) = _
    rw [hdims, List.map_append, List.map_replicate]
    exact congrArg (List.replicate (4 - out.length) 1 ++ ·) hsize
  refine ⟨hsizes, reads_expanded second (m := 0) h hn hpos hsizes ?_⟩
  show List.map Dim.stride (List.replicate _ _ ++ _) = _
  rw [hdims, List.map_append, List.map_replicate]
  rfl

theorem totalBytes_expandOperand {info : DmlTensorInfo} {dtype : DmlDataType}
    {sizes outSizes : List Nat} (hsmall : info.sizes.prod < 2 ^ 32) :
    info.sizes.prod * dtype.size ≤
      (expandOperand second info dtype sizes outSizes).totalBytes := by
  show _ ≤ (max (computeAlignedTotalBytes info.sizes dtype) 4 + 3) % 2 ^ 64 / 4 * 4
  by_cases hsize : dtype.size = 0
  · rw [hsize, Nat.mul_zero]
    exact Nat.zero_le _
  · have hle := BoundSizesLemmas.size_le dtype
    have hbytes : info.sizes.prod * dtype.size ≤ info.sizes.prod * 8 := Nat.mul_le_mul_left _ hle
    rw [BoundSizesLemmas.alignedBytes_of_small hsize (by omega), roundUp4]
    omega

end

/-! ## The loop over the sizes -/

theorem broadcastShapes_eq (a b : DmlTensorInfo) :
    a.broadcastShapes b = (AmdGpuEp.broadcastShapes a.sizes b.sizes).map fun outSizes =>
      { a := expandOperand false a a.dataType
          (padToMinDims a.sizes (max a.sizes.length b.sizes.length)) outSizes
        b := expandOperand true b a.dataType
          (padToMinDims b.sizes (max a.sizes.length b.sizes.length)) outSizes
        outputSizes := padToMinDims outSizes 4 } :=
  rfl

theorem pos_of_broadcast {a b out : List Nat} (h : AmdGpuEp.broadcastShapes a b = some out)
    (ha : ∀ d ∈ a, 0 < d) (hb : ∀ d ∈ b, 0 < d) : ∀ d ∈ out, 0 < d := by
  intro d hd
  rcases mem_broadcastShapes h hd with rfl | hmem | hmem
  · exact Nat.one_pos
  · exact ha d hmem
  · exact hb d hmem

/-- Both operands of a result, and when they read their tensors. -/
theorem operands_spec {a b : DmlTensorInfo} {r : BroadcastResult} {out : List Nat}
    (h : AmdGpuEp.broadcastShapes a.sizes b.sizes = some out) (hr : a.broadcastShapes b = some r)
    (ha : ∀ d ∈ a.sizes, 0 < d) (hb : ∀ d ∈ b.sizes, 0 < d) :
    r.outputSizes = padToMinDims out 4 ∧ r.a.sizes = r.outputSizes ∧ r.b.sizes = r.outputSizes ∧
      (r.a.Reads a.sizes ↔ StridesFit a.sizes) ∧ (r.b.Reads b.sizes ↔ StridesFit b.sizes) := by
  rw [broadcastShapes_eq, h] at hr
  cases hr
  have hpos := pos_of_broadcast h ha hb
  have hfits : List.Forall₂ (fun d e => d = e ∨ d = 1)
      (alignRight 1 (max a.sizes.length b.sizes.length) b.sizes) out := by
    rw [max_comm]
    exact stretches_aligned (broadcastShapes_comm h)
  have hsa := expandOperand_spec false a a.dataType (stretches_aligned h) (le_max_left _ _) hpos
  have hsb := expandOperand_spec true b a.dataType hfits (le_max_right _ _) hpos
  exact ⟨rfl, hsa.1, hsb.1, hsa.2, hsb.2⟩

end BroadcastingLemmas

open BroadcastingLemmas

/-- `BroadcastShapes` gives a result exactly for shapes that have a common shape. Then both
operands are described in the sizes of the result, every index reads the element that broadcasting
selects, and reads it within the bytes of the operand. -/
theorem broadcastShapes_spec (a b : DmlTensorInfo) (ha : ∀ d ∈ a.sizes, 0 < d)
    (hb : ∀ d ∈ b.sizes, 0 < d) (hacount : a.sizes.prod < 2 ^ 32)
    (hbcount : b.sizes.prod < 2 ^ 32) :
    (a.broadcastShapes b = none ↔ ¬ ∃ out, IsBroadcast a.sizes b.sizes out) ∧
      ∀ r, a.broadcastShapes b = some r →
        (∃ out, IsBroadcast a.sizes b.sizes out ∧ r.outputSizes = padToMinDims out 4) ∧
        (r.a.sizes = r.outputSizes ∧ r.a.Reads a.sizes ∧
          ∀ idx, InBounds idx r.outputSizes →
            (r.a.offset idx + 1) * r.a.dataType.size ≤ r.a.totalBytes) ∧
        r.b.sizes = r.outputSizes ∧ r.b.Reads b.sizes ∧
          ∀ idx, InBounds idx r.outputSizes →
            (r.b.offset idx + 1) * r.b.dataType.size ≤ r.b.totalBytes := by
  constructor
  · rw [broadcastShapes_eq, Option.map_eq_none_iff, Option.eq_none_iff_forall_ne_some,
      not_exists]
    exact forall_congr' fun out => not_congr broadcastShapes_eq_some_iff
  · intro r hr
    obtain ⟨out, hout, heq⟩ := Option.map_eq_some_iff.1 ((broadcastShapes_eq a b).symm.trans hr)
    obtain ⟨hsizes, hra, hrb, hreadsA, hreadsB⟩ := operands_spec hout hr ha hb
    have hA := hreadsA.2 (stridesFit_of_prod ha hacount)
    have hB := hreadsB.2 (stridesFit_of_prod hb hbcount)
    have htypeA : r.a.dataType = a.dataType := by
      rw [← heq]
      rfl
    have htypeB : r.b.dataType = a.dataType := by
      rw [← heq]
      rfl
    have hbytesA : a.sizes.prod * r.a.dataType.size ≤ r.a.totalBytes := by
      rw [htypeA, ← heq]
      exact totalBytes_expandOperand false hacount
    have hbytesB : b.sizes.prod * r.b.dataType.size ≤ r.b.totalBytes := by
      rw [htypeB, ← heq]
      exact totalBytes_expandOperand true hbcount
    refine ⟨⟨out, broadcastShapes_eq_some_iff.1 hout, hsizes⟩, ⟨hra, hA, fun idx hidx => ?_⟩,
      hrb, hB, fun idx hidx => ?_⟩
    · exact le_trans (Nat.mul_le_mul_right _ (hA idx (hra ▸ hidx)).2) hbytesA
    · exact le_trans (Nat.mul_le_mul_right _ (hB idx (hrb ▸ hidx)).2) hbytesB

/-- A row of three is repeated along a matrix of two rows. -/
theorem row_broadcast :
    let row := makeTensorInfo [3] .float32
    let matrix := makeTensorInfo [2, 3] .float32
    ∃ r, matrix.broadcastShapes row = some r ∧ r.b.Reads row.sizes ∧
      r.b.offset [0, 0, 1, 2] = 2 := by
  have hspec := broadcastShapes_spec (makeTensorInfo [2, 3] .float32) (makeTensorInfo [3] .float32)
    (by decide) (by decide) (by decide) (by decide)
  refine ⟨_, rfl, (hspec.2 _ rfl).2.2.2.1, by decide⟩

/-- The operands of a binary elementwise operator read their tensors. -/
theorem binaryElementwise_reads {D : Type} {desc : D} {node : Node} {a b output : String}
    {ins outs : List String} {shapes : ValueShapes} {aInfo bInfo : DmlTensorInfo}
    {initializers : String → Option Initializer} {t : TranslatedOp D}
    (hin : getNodeInputNames node = a :: b :: ins) (hout : getNodeOutputNames node = output :: outs)
    (hashape : shapes a = some aInfo) (hbshape : shapes b = some bInfo)
    (ha : ∀ d ∈ aInfo.sizes, 0 < d) (hb : ∀ d ∈ bInfo.sizes, 0 < d)
    (hacount : aInfo.sizes.prod < 2 ^ 32) (hbcount : bInfo.sizes.prod < 2 ^ 32)
    (h : translateBinaryElementwise desc node shapes initializers = some t) :
    List.Forall₂ DmlTensorInfo.Reads t.inputTensors [aInfo.sizes, bInfo.sizes] := by
  simp only [translateBinaryElementwise, hin, hout, hashape, hbshape] at h
  obtain ⟨bc, hbc, rfl⟩ := Option.map_eq_some_iff.1 h
  obtain ⟨sizes, hsizes, -⟩ :=
    Option.map_eq_some_iff.1 ((broadcastShapes_eq aInfo bInfo).symm.trans hbc)
  obtain ⟨-, -, -, hreadsA, hreadsB⟩ := operands_spec hsizes hbc ha hb
  exact .cons (hreadsA.2 (stridesFit_of_prod ha hacount))
    (.cons (hreadsB.2 (stridesFit_of_prod hb hbcount)) .nil)

namespace BroadcastingLemmas

/-! ## Aligned shapes -/

theorem padToMinDims_padToMinDims (l : List Nat) {m n : Nat} (h : m ≤ max n l.length) :
    padToMinDims (padToMinDims l m) n = padToMinDims l n := by
  unfold padToMinDims
  rw [← List.append_assoc, ← List.replicate_add, List.length_append, List.length_replicate]
  congr 2
  omega

theorem padToMinDims_inj {a b : List Nat} {m n : Nat} (h : padToMinDims a n = padToMinDims b n)
    (hmn : m ≤ n) (ha : a.length ≤ m) (hb : b.length ≤ m) :
    padToMinDims a m = padToMinDims b m := by
  have hpad : ∀ l : List Nat, l.length ≤ m →
      (padToMinDims l n).drop (n - m) = padToMinDims l m := by
    intro l hl
    have hsplit : n - l.length = n - m + (m - l.length) := by omega
    rw [padToMinDims, hsplit, List.replicate_add, List.append_assoc,
      List.drop_left' (by simp)]
    rfl
  rw [← hpad a ha, ← hpad b hb, h]

theorem length_padToMinDims (l : List Nat) (n : Nat) :
    (padToMinDims l n).length = max n l.length :=
  length_alignRight 1 n l

theorem broadcast_unique {a b c d : List Nat} (h : IsBroadcast a b c) (h' : IsBroadcast a b d) :
    c = d :=
  Option.some.inj ((broadcastShapes_eq_some_iff.2 h).symm.trans (broadcastShapes_eq_some_iff.2 h'))

theorem broadcast3_unique {a b c d e : List Nat} (h : IsBroadcast3 a b c d)
    (h' : IsBroadcast3 a b c e) : d = e := by
  obtain ⟨o, ho, hd⟩ := h
  obtain ⟨o', ho', he⟩ := h'
  obtain rfl := broadcast_unique ho ho'
  exact broadcast_unique hd he

theorem broadcast_same (l : List Nat) :
    List.Forall₂ (fun p d => CommonSize p.1 p.2 d) (l.zip l) l := by
  induction l with
  | nil => exact .nil
  | cons d l ih => exact .cons (Or.inl ⟨rfl, rfl⟩) ih

theorem alongs_same (v : List Dim) : List.Forall₂ Along v v := by
  refine List.forall₂_same.2 fun d _ => ?_
  by_cases hd : d.size = 1
  · exact Or.inl hd
  · exact Or.inr (by rw [if_neg hd])

theorem alongs_packed {sizes out : List Nat}
    (h : List.Forall₂ (fun d e => d = e ∨ d = 1) sizes out) (hpos : ∀ e ∈ out, 0 < e) :
    List.Forall₂ Along (packed sizes) (packed out) ↔ sizes = out := by
  refine ⟨fun halong => ?_, fun heq => heq ▸ alongs_same _⟩
  induction h with
  | nil => rfl
  | @cons size e sizes out hsize _ ih =>
    have hrest := fun d hd => hpos d (List.mem_cons_of_mem e hd)
    obtain ⟨hdim, htail⟩ := List.forall₂_cons.1 halong
    obtain rfl := ih hrest htail
    have hprod : 0 < sizes.prod := List.prod_pos hrest
    congr 1
    rcases hsize with hsize | hone
    · exact hsize
    · rcases hdim with he | hstride
      · exact hone.trans he.symm
      · rw [if_pos hone] at hstride
        exact absurd hstride (Nat.pos_iff_ne_zero.1 hprod)

theorem view_makeTensorInfo (sizes : List Nat) (dtype : DmlDataType) :
    (makeTensorInfo sizes dtype).view = packed (padToMinDims sizes 4) :=
  rfl

/-- A description without strides reads the shape when that has the sizes of the description. -/
theorem makeTensorInfo_reads_iff {sizes shape : List Nat} {dtype : DmlDataType}
    (hpos : ∀ d ∈ padToMinDims sizes 4, 0 < d)
    (hlen : shape.length ≤ (padToMinDims sizes 4).length)
    (hfits : List.Forall₂ (fun d e => d = e ∨ d = 1)
      (alignRight 1 (padToMinDims sizes 4).length shape) (padToMinDims sizes 4)) :
    (makeTensorInfo sizes dtype).Reads shape ↔
      padToMinDims shape (padToMinDims sizes 4).length = padToMinDims sizes 4 := by
  have hposw : ∀ d ∈ packed (padToMinDims sizes 4), 0 < d.size := by
    intro d hd
    have hmem := List.mem_map_of_mem (f := Dim.size) hd
    rw [map_size_packed] at hmem
    exact hpos _ hmem
  have hw : (packed (padToMinDims sizes 4)).length = (padToMinDims sizes 4).length :=
    length_packed _
  rw [reads_iff (view_makeTensorInfo sizes dtype) (map_size_packed _).symm hposw (by omega)
    (by rw [hw]; exact hfits), hw, alongs_packed hfits hpos]
  rfl

/-! ## Nodes and their records -/

section

variable {D : Type} {node : Node} {shapes : ValueShapes} {common : List Nat → Prop}

theorem outputs_of_recorded {operands : List DmlTensorInfo}
    (h : Recorded node shapes operands common) :
    ∃ output rest, getNodeOutputNames node = output :: rest ∧
      shapes output = outEdge node shapes := by
  obtain ⟨output, rest, hout⟩ := List.exists_cons_of_ne_nil h.output
  exact ⟨output, rest, hout, by rw [outEdge, hout]; rfl⟩

theorem inputs_of_recorded {info : DmlTensorInfo} {operands : List DmlTensorInfo}
    {names : List String}
    (h : (names.take (info :: operands).length).map shapes = (info :: operands).map some) :
    ∃ name rest, names = name :: rest ∧ shapes name = some info ∧
      (rest.take operands.length).map shapes = operands.map some := by
  cases names with
  | nil => cases h
  | cons name rest =>
    rw [List.length_cons, List.take_succ_cons, List.map_cons, List.map_cons, List.cons.injEq] at h
    exact ⟨name, rest, rfl, h⟩

/-! ## Where -/

theorem translateWhere_eq {desc : D} {initializers : String → Option Initializer}
    {c x y : DmlTensorInfo} (h : Recorded node shapes [c, x, y] common) :
    translateWhere desc node shapes initializers = (x.broadcastShapes y).map fun bc =>
      let outSizes := ((outEdge node shapes).map DmlTensorInfo.sizes).getD bc.outputSizes
      { opDesc := desc
        inputTensors := [makeTensorInfo outSizes c.dataType, bc.a, bc.b]
        outputTensors := [makeTensorInfo outSizes x.dataType] } := by
  obtain ⟨cond, rest, hnames, hc, hrest⟩ := inputs_of_recorded h.inputs
  obtain ⟨xName, rest, rfl, hx, hrest⟩ := inputs_of_recorded hrest
  obtain ⟨yName, rest, rfl, hy, -⟩ := inputs_of_recorded hrest
  obtain ⟨output, outs, hout, hedge⟩ := outputs_of_recorded h
  simp only [translateWhere, hnames, hout, hc, hx, hy, hedge]

/-- A condition in the shape of the other operands' result makes it the common shape. -/
theorem broadcast3_of_aligned {c x y o : List Nat} (ho : IsBroadcast x y o)
    (hc : padToMinDims c (max 4 o.length) = padToMinDims o 4) :
    ∃ out, IsBroadcast3 c x y out ∧ padToMinDims out 4 = padToMinDims o 4 ∧
      c.length ≤ max 4 o.length := by
  have hclen : c.length ≤ max 4 o.length := by
    have hlen := congrArg List.length hc
    rw [length_padToMinDims, length_padToMinDims] at hlen
    omega
  have hn : padToMinDims o 4 = padToMinDims o (max 4 o.length) := by
    unfold padToMinDims
    congr 2
    omega
  have halign : padToMinDims c (max c.length o.length) =
      padToMinDims o (max c.length o.length) :=
    padToMinDims_inj (hc.trans hn) (by omega) (by omega) (by omega)
  refine ⟨padToMinDims o (max c.length o.length), ⟨o, ho, ?_⟩, ?_, hclen⟩
  · have hsame := broadcast_same (padToMinDims o (max c.length o.length))
    unfold IsBroadcast
    have hleft : alignRight 1 (max c.length o.length) c =
        padToMinDims o (max c.length o.length) := halign
    rw [hleft]
    exact hsame
  · rw [padToMinDims_padToMinDims o (by omega)]

/-- The sizes that a description of the result is made from are those of the common shape. -/
theorem out_sizes {o out : List Nat} (huniq : ∀ out', common out' → out' = out)
    (h : ∀ e, outEdge node shapes = some e → ∃ out, common out ∧ e.sizes = padToMinDims out 4)
    (ho : padToMinDims o 4 = padToMinDims out 4) :
    padToMinDims (((outEdge node shapes).map DmlTensorInfo.sizes).getD (padToMinDims o 4)) 4 =
      padToMinDims out 4 := by
  have htwice : ∀ l : List Nat, padToMinDims (padToMinDims l 4) 4 = padToMinDims l 4 :=
    fun l => padToMinDims_padToMinDims l (Nat.le_max_left _ _)
  cases hedge : outEdge node shapes with
  | none => rw [Option.map_none, Option.getD_none, htwice, ho]
  | some e =>
    obtain ⟨out', hout', he⟩ := h e hedge
    rw [Option.map_some, Option.getD_some, he, htwice, huniq out' hout']

theorem pos_padToMinDims {l : List Nat} (h : ∀ d ∈ l, 0 < d) (n : Nat) :
    ∀ d ∈ padToMinDims l n, 0 < d := by
  intro d hd
  rcases List.mem_append.1 hd with hone | hmem
  · rw [List.eq_of_mem_replicate hone]
    exact Nat.one_pos
  · exact h d hmem

theorem broadcast_lengths {a b out : List Nat} (h : IsBroadcast a b out) :
    out.length = max a.length b.length :=
  length_of_broadcastShapes (broadcastShapes_eq_some_iff.2 h)

/-- An operand stretches to the padded common shape. -/
theorem stretches_padded {a b out : List Nat} (h : IsBroadcast a b out) :
    List.Forall₂ (fun d e => d = e ∨ d = 1) (alignRight 1 (padToMinDims out 4).length a)
      (padToMinDims out 4) := by
  have hlen := broadcast_lengths h
  have hfits := fits_aligned (stretches_aligned (broadcastShapes_eq_some_iff.2 h))
    (le_max_left _ _)
  have hpad : (padToMinDims out 4).length = 4 - out.length + out.length := by
    rw [length_padToMinDims]
    omega
  rwa [hpad]

end

end BroadcastingLemmas

/-- `Where` is exact when `X` and `Y` have no common shape, or when the condition has that shape and
no stride of `X` and `Y` wraps. -/
theorem where_iff {D : Type} (desc : D) {node : Node} {shapes : ValueShapes}
    (initializers : String → Option Initializer) {c x y : DmlTensorInfo}
    (h : Recorded node shapes [c, x, y] (IsBroadcast3 c.sizes x.sizes y.sizes)) :
    Broadcasts (IsBroadcast3 c.sizes x.sizes y.sizes) [c.sizes, x.sizes, y.sizes]
        TranslatedOp.inputTensors (translateWhere desc node shapes initializers) ↔
      (¬ ∃ o, IsBroadcast x.sizes y.sizes o) ∨
        ∃ o, IsBroadcast x.sizes y.sizes o ∧
          padToMinDims c.sizes (max 4 o.length) = padToMinDims o 4 ∧
          StridesFit x.sizes ∧ StridesFit y.sizes := by
  have hposc := h.positive c (by simp)
  have hposx := h.positive x (by simp)
  have hposy := h.positive y (by simp)
  rw [translateWhere_eq h]
  cases hbc : x.broadcastShapes y with
  | none =>
    have hnone : ¬ ∃ o, IsBroadcast x.sizes y.sizes o := by
      rintro ⟨o, ho⟩
      rw [broadcastShapes_eq, broadcastShapes_eq_some_iff.2 ho] at hbc
      cases hbc
    refine iff_of_true ⟨fun _ => rfl, fun _ _ t ht => ?_⟩ (Or.inl hnone)
    cases ht
  | some bc =>
    obtain ⟨o, hshapes, -⟩ := Option.map_eq_some_iff.1 ((broadcastShapes_eq x y).symm.trans hbc)
    have ho := broadcastShapes_eq_some_iff.1 hshapes
    obtain ⟨hbcout, hxsizes, hysizes, hx, hy⟩ := operands_spec hshapes hbc hposx hposy
    rw [Option.map_some, hbcout]
    dsimp only
    -- the common shape of all three is the one of `X` and `Y`, or the padded sizes differ
    have hcond : ∀ {out}, IsBroadcast3 c.sizes x.sizes y.sizes out →
        padToMinDims o 4 = padToMinDims out 4 →
        ∀ dtype, (makeTensorInfo (((outEdge node shapes).map DmlTensorInfo.sizes).getD
            (padToMinDims o 4)) dtype).Reads c.sizes ↔
          padToMinDims c.sizes (max 4 o.length) = padToMinDims o 4 := by
      intro out hout heq dtype
      obtain ⟨o', ho', hcout⟩ := hout
      obtain rfl := broadcast_unique ho ho'
      have hsizes := out_sizes (fun out' hout' => broadcast3_unique hout' ⟨o, ho, hcout⟩) h.edge heq
      have hlen := congrArg List.length heq
      have hclen := broadcast_lengths hcout
      rw [length_padToMinDims, length_padToMinDims] at hlen
      rw [makeTensorInfo_reads_iff, hsizes, ← heq, length_padToMinDims]
      · rw [hsizes]
        exact pos_padToMinDims (pos_of_broadcast (broadcastShapes_eq_some_iff.2 hcout) hposc
          (pos_of_broadcast hshapes hposx hposy)) 4
      · rw [hsizes, length_padToMinDims]
        omega
      · rw [hsizes]
        exact stretches_padded hcout
    constructor
    · rintro ⟨hreject, hall⟩
      refine Or.inr ⟨o, ho, ?_⟩
      by_cases hex : ∃ out, IsBroadcast3 c.sizes x.sizes y.sizes out
      · obtain ⟨out, hout⟩ := hex
        obtain ⟨-, hoperands⟩ := hall out hout _ rfl
        obtain ⟨⟨-, hreadc⟩, hrest⟩ := List.forall₂_cons.1 hoperands
        obtain ⟨⟨hsx, hreadx⟩, hrest⟩ := List.forall₂_cons.1 hrest
        obtain ⟨⟨-, hready⟩, -⟩ := List.forall₂_cons.1 hrest
        have heq : padToMinDims o 4 = padToMinDims out 4 := by
          rw [← hbcout, ← hxsizes, hsx]
        exact ⟨(hcond hout heq _).1 hreadc, hx.1 hreadx, hy.1 hready⟩
      · exact absurd (hreject hex) (Option.some_ne_none _)
    · rintro (hnone | ⟨o', ho', hc, hfx, hfy⟩)
      · exact absurd ⟨o, ho⟩ hnone
      · obtain rfl := broadcast_unique ho ho'
        obtain ⟨out, hout, heq, -⟩ := broadcast3_of_aligned ho hc
        refine ⟨fun hno => absurd ⟨out, hout⟩ hno, fun out' hout' t ht => ?_⟩
        cases ht
        obtain rfl := broadcast3_unique hout hout'
        have hsizes := out_sizes (fun out' hout' => broadcast3_unique hout' hout) h.edge heq.symm
        refine ⟨congrArg (fun l => [l]) hsizes, ?_⟩
        refine .cons ⟨hsizes, (hcond hout heq.symm _).2 hc⟩ (.cons ⟨?_, hx.2 hfx⟩
          (.cons ⟨?_, hy.2 hfy⟩ .nil))
        · rw [hxsizes, hbcout, heq]
        · rw [hysizes, hbcout, heq]

namespace BroadcastingLemmas

/-! ## Expand -/

theorem isBroadcast_comm {a b out : List Nat} (h : IsBroadcast a b out) : IsBroadcast b a out :=
  broadcastShapes_eq_some_iff.1 (broadcastShapes_comm (broadcastShapes_eq_some_iff.2 h))

/-- The strides of an `Expand` are those of a second operand. -/
theorem strides_zeroed {sizes out : List Nat}
    (h : List.Forall₂ (fun d e => d = e ∨ d = 1) sizes out) (hpos : ∀ e ∈ out, 0 < e) :
    ((packedDims sizes).map fun d => if d.size = 1 then 0 else d.stride) =
      (List.zipWith (expandDim true) (packedDims sizes) out).map Dim.stride := by
  induction h with
  | nil => rfl
  | @cons size e sizes out hsize _ ih =>
    rw [packedDims_cons, List.zipWith_cons_cons, List.map_cons, List.map_cons,
      ih fun d hd => hpos d (List.mem_cons_of_mem e hd),
      expandDim_eq true hsize (hpos e List.mem_cons_self)]
    simp

theorem strides_ones (k : Nat) (sizes : List Nat) :
    ((packedDims (List.replicate k 1 ++ sizes)).map fun d => if d.size = 1 then 0 else d.stride) =
      List.replicate k 0 ++
        (packedDims sizes).map fun d => if d.size = 1 then 0 else d.stride := by
  induction k with
  | zero => rfl
  | succ k ih =>
    rw [List.replicate_succ, List.cons_append, packedDims_cons, List.map_cons, ih, if_pos rfl]
    rfl

theorem length_expandStrides {sizes : List Nat} {n : Nat} : (expandStrides sizes n).length = n := by
  unfold expandStrides
  split
  · exact List.length_replicate
  · rw [List.length_append, List.length_replicate, List.length_map, length_packedDims]
    omega

/-- A target with as many dimensions as the input. -/
theorem reads_expand {info : DmlTensorInfo} {s out : List Nat}
    (h : List.Forall₂ (fun d e => d = e ∨ d = 1) (alignRight 1 out.length s) out)
    (hlen : s.length ≤ out.length) (hpos : ∀ e ∈ out, 0 < e)
    (hsizes : info.sizes = padToMinDims out 4)
    (hstrides : info.strides = padToMinDims (expandStrides s out.length) 4) :
    info.Reads s ↔ StridesFit s := by
  refine reads_expanded true (m := 1) h hlen hpos hsizes ?_
  rw [hstrides, padToMinDims, length_expandStrides, ← strides_zeroed h hpos, alignRight,
    strides_ones, expandStrides, if_neg (by omega)]

/-- Where every stride is 0, one element is read. -/
theorem alongs_repeated {sizes : List Nat} {w : List Dim}
    (h : List.Forall₂ (fun d e => d = e ∨ d = 1) sizes (w.map Dim.size))
    (hw : ∀ e ∈ w, e.size = 1 ∨ e.stride = 0) (hpos : ∀ d ∈ sizes, 0 < d) :
    List.Forall₂ Along (packed sizes) w ↔ ∀ d ∈ sizes, d = 1 := by
  induction w generalizing sizes with
  | nil =>
    cases h
    exact iff_of_true .nil fun d hd => absurd hd List.not_mem_nil
  | cons e w ih =>
    cases h with
    | @cons size _ sizes _ hsize hrest =>
      have hsizes := fun d hd => hpos d (List.mem_cons_of_mem size hd)
      have hprod : 0 < sizes.prod := List.prod_pos hsizes
      have hfirst : Along ⟨size, sizes.prod⟩ e ↔ size = 1 := by
        have he := hw e List.mem_cons_self
        unfold Along
        dsimp only
        split_ifs with hone <;> omega
      rw [packed, List.forall₂_cons, hfirst,
        ih hrest (fun e' he' => hw e' (List.mem_cons_of_mem e he')) hsizes, List.forall_mem_cons]

/-- A target with fewer dimensions than the input. -/
theorem reads_expand_longer {info : DmlTensorInfo} {s out : List Nat}
    (h : List.Forall₂ (fun d e => d = e ∨ d = 1) (alignRight 1 (padToMinDims out 4).length s)
      (padToMinDims out 4))
    (hlen : out.length < s.length) (hs : s.length ≤ (padToMinDims out 4).length)
    (hpos : ∀ e ∈ out, 0 < e) (hspos : ∀ d ∈ s, 0 < d) (hsizes : info.sizes = padToMinDims out 4)
    (hstrides : info.strides = padToMinDims (expandStrides s out.length) 4) :
    info.Reads s ↔ ∀ d ∈ s, d = 1 := by
  have hw : ∃ w, w = List.replicate (4 - out.length) (⟨1, 1⟩ : Dim) ++
      out.map fun size => (⟨size, 0⟩ : Dim) := ⟨_, rfl⟩
  obtain ⟨w, hw⟩ := hw
  have hwsizes : w.map Dim.size = padToMinDims out 4 := by
    rw [hw, List.map_append, List.map_replicate, List.map_map]
    exact congrArg (List.replicate (4 - out.length) 1 ++ ·) (List.map_id _)
  have hwstrides : info.strides = w.map Dim.stride := by
    rw [hstrides, padToMinDims, length_expandStrides, expandStrides, if_pos hlen, hw,
      List.map_append, List.map_replicate, List.map_map]
    exact congrArg (List.replicate (4 - out.length) 1 ++ ·) List.map_const.symm
  have hwlen : w.length = (padToMinDims out 4).length := by
    rw [← hwsizes, List.length_map]
  have hposw : ∀ d ∈ w, 0 < d.size := fun d hd =>
    pos_padToMinDims hpos 4 d.size (hwsizes ▸ List.mem_map_of_mem hd)
  have hne : w ≠ [] := by
    rintro rfl
    rw [← hwlen, List.length_nil] at hs
    omega
  have hzero : ∀ e ∈ w, e.size = 1 ∨ e.stride = 0 := by
    intro e he
    rw [hw] at he
    rcases List.mem_append.1 he with hone | hout
    · rw [List.eq_of_mem_replicate hone]
      exact Or.inl rfl
    · obtain ⟨size, -, rfl⟩ := List.mem_map.1 hout
      exact Or.inr rfl
  have hfit : List.Forall₂ (fun d e => d = e ∨ d = 1)
      (alignRight 1 (padToMinDims out 4).length s) (w.map Dim.size) := by rwa [hwsizes]
  rw [reads_iff (view_of_dims hne (hsizes.trans hwsizes.symm) hwstrides)
    (hsizes.trans hwsizes.symm) hposw (by omega) (by rwa [hwlen, hsizes]), hwlen,
    alongs_repeated hfit hzero (pos_padToMinDims hspos _)]
  constructor
  · exact fun hall d hd => hall d (List.mem_append_right _ hd)
  · intro hall d hd
    rcases List.mem_append.1 hd with hone | hmem
    · exact List.eq_of_mem_replicate hone
    · exact hall d hmem

section

variable {D : Type} {node : Node} {shapes : ValueShapes} {inferred : List Nat → Prop}

theorem translateExpand_eq {beyond : Nat → UInt8} {desc : D}
    {initializers : String → Option Initializer} {x : DmlTensorInfo}
    (h : Recorded node shapes [x] inferred) :
    translateExpand beyond desc node shapes initializers =
      let outSizes := ((outEdge node shapes).map DmlTensorInfo.sizes).getD
        (computedOut beyond node initializers)
      if outEdge node shapes = none ∧ outSizes = [] then none
      else
        let strides := expandStrides x.sizes outSizes.length
        some
          { opDesc := desc
            inputTensors :=
              [{ makeTensorInfoWithStrides outSizes strides x.dataType
                  (computeAlignedTotalBytes x.sizes x.dataType) with
                sizes := padToMinDims outSizes 4
                strides := padToMinDims strides 4 }]
            outputTensors := [makeTensorInfo outSizes x.dataType] } := by
  obtain ⟨name, rest, hnames, hx, -⟩ := inputs_of_recorded h.inputs
  obtain ⟨output, outs, hout, hedge⟩ := outputs_of_recorded h
  unfold translateExpand withShapes
  rw [hnames, hout]
  dsimp only
  rw [hx, hedge]
  rfl

end

/-- A target that gives the sizes of the common shape has values that are sizes. -/
theorem target_values {s out : List Nat} {target : List Int}
    (h : IsBroadcast s (target.map Int.toNat) out)
    (hout : padToMinDims (target.map fun value => toUInt32 (max value 1)) 4 =
      padToMinDims out 4) :
    ∀ value ∈ target, 1 ≤ value ∧ value < 2 ^ 32 := by
  have hfits := stretches_padded (isBroadcast_comm h)
  rw [← hout, length_padToMinDims, List.length_map] at hfits
  have hdrop := List.forall₂_drop (4 - target.length) hfits
  have hleft : (alignRight 1 (max 4 target.length) (target.map Int.toNat)).drop
      (4 - target.length) = target.map Int.toNat := by
    have hlen : 4 - target.length = max 4 target.length - (target.map Int.toNat).length := by
      rw [List.length_map]
      omega
    rw [hlen, drop_alignRight]
  have hright : (padToMinDims (target.map fun value => toUInt32 (max value 1)) 4).drop
      (4 - target.length) = target.map fun value => toUInt32 (max value 1) := by
    rw [padToMinDims, List.drop_left' (by simp)]
  rw [hleft, hright, List.forall₂_map_left_iff, List.forall₂_map_right_iff,
    List.forall₂_same] at hdrop
  intro value hmem
  have hvalue := hdrop value hmem
  unfold toUInt32 at hvalue
  omega

/-- The description of an input whose output has the sizes of the target. -/
theorem reads_expand_target {info : DmlTensorInfo} {s sizes out : List Nat}
    (hout : IsBroadcast s sizes out) (hfit : padToMinDims sizes 4 = padToMinDims out 4)
    (hpos : ∀ d ∈ sizes, 0 < d) (hspos : ∀ d ∈ s, 0 < d)
    (hsizes : info.sizes = padToMinDims sizes 4)
    (hstrides : info.strides = padToMinDims (expandStrides s sizes.length) 4) :
    info.Reads s ↔ if s.length ≤ sizes.length then StridesFit s else ∀ d ∈ s, d = 1 := by
  have hlen := broadcast_lengths hout
  split
  · next hle =>
    rw [max_eq_right hle] at hlen
    obtain rfl : sizes = out := by
      rw [padToMinDims, padToMinDims, hlen] at hfit
      exact List.append_cancel_left hfit
    have haligned := stretches_aligned (broadcastShapes_eq_some_iff.2 hout)
    rw [max_eq_right hle] at haligned
    exact reads_expand haligned hle hpos hsizes hstrides
  · next hlt =>
    have hpadded := stretches_padded hout
    rw [← hfit] at hpadded
    refine reads_expand_longer hpadded (by omega) ?_ hpos hspos hsizes hstrides
    have hlens := congrArg List.length hfit
    rw [length_padToMinDims, length_padToMinDims] at hlens
    rw [length_padToMinDims]
    omega

theorem map_toUInt32 {target : List Int} (h : ∀ value ∈ target, 1 ≤ value ∧ value < 2 ^ 32) :
    (target.map fun value => toUInt32 (max value 1)) = target.map Int.toNat := by
  refine List.map_congr_left fun value hmem => ?_
  have hvalue := h value hmem
  unfold toUInt32
  omega

end BroadcastingLemmas

/-- The values of a target are sizes, and they are, behind leading ones, the common shape. -/
def TargetFits (sizes : List Nat) (target : List Int) : Prop :=
  (∀ value ∈ target, 1 ≤ value ∧ value < 2 ^ 32) ∧
    ∃ out, IsBroadcast sizes (target.map Int.toNat) out ∧
      padToMinDims (target.map Int.toNat) 4 = padToMinDims out 4

namespace BroadcastingLemmas

section

variable {D : Type} (beyond : Nat → UInt8) (desc : D) {node : Node} {shapes : ValueShapes}
  {initializers : String → Option Initializer} {x : DmlTensorInfo} {target : List Int}

/-- The shape of the output is recorded. -/
theorem expand_recorded_iff
    (h : Recorded node shapes [x] (IsBroadcast x.sizes (target.map Int.toNat)))
    {e : DmlTensorInfo} (hedge : outEdge node shapes = some e) :
    Broadcasts (IsBroadcast x.sizes (target.map Int.toNat)) [x.sizes] TranslatedOp.inputTensors
        (translateExpand beyond desc node shapes initializers) ↔ StridesFit x.sizes := by
  rw [translateExpand_eq h, hedge]
  obtain ⟨out, hout, he⟩ := h.edge e hedge
  have hpos : ∀ d ∈ padToMinDims out 4, 0 < d := fun d hd =>
    h.positive e (by simp [hedge]) d (he ▸ hd)
  have htwice : padToMinDims (padToMinDims out 4) 4 = padToMinDims out 4 :=
    padToMinDims_padToMinDims out (Nat.le_max_left _ _)
  have hlen : x.sizes.length ≤ (padToMinDims out 4).length := by
    rw [length_padToMinDims, broadcast_lengths hout]
    omega
  dsimp only [Option.map_some, Option.getD_some]
  rw [he, if_neg (by rintro ⟨hnone, -⟩; cases hnone)]
  have hreads : ∀ info : DmlTensorInfo, info.sizes = padToMinDims (padToMinDims out 4) 4 →
      info.strides = padToMinDims (expandStrides x.sizes (padToMinDims out 4).length) 4 →
      (info.Reads x.sizes ↔ StridesFit x.sizes) :=
    fun _ hsizes hstrides =>
      reads_expand (stretches_padded hout) hlen hpos hsizes hstrides
  constructor
  · rintro ⟨-, hall⟩
    obtain ⟨-, hoperands⟩ := hall out hout _ rfl
    exact (hreads _ rfl rfl).1 (List.forall₂_cons.1 hoperands).1.2
  · intro hfit
    refine ⟨fun hno => absurd ⟨out, hout⟩ hno, fun out' hout' t ht => ?_⟩
    cases ht
    obtain rfl := broadcast_unique hout hout'
    exact ⟨congrArg (fun l => [l]) htwice, .cons ⟨htwice, (hreads _ rfl rfl).2 hfit⟩ .nil⟩

/-- The shape of the output is that of the target. -/
theorem expand_target_iff
    (h : Recorded node shapes [x] (IsBroadcast x.sizes (target.map Int.toNat)))
    (hedge : outEdge node shapes = none) (hnil : target ≠ [])
    (hcomputed : computedOut beyond node initializers =
      target.map fun value => toUInt32 (max value 1)) :
    Broadcasts (IsBroadcast x.sizes (target.map Int.toNat)) [x.sizes] TranslatedOp.inputTensors
        (translateExpand beyond desc node shapes initializers) ↔
      TargetFits x.sizes target ∧
        if x.sizes.length ≤ target.length then StridesFit x.sizes else ∀ d ∈ x.sizes, d = 1 := by
  rw [translateExpand_eq h, hedge, Option.map_none, Option.getD_none, hcomputed,
    if_neg (by simpa using hnil)]
  have htargets : ∀ {out : List Nat}, IsBroadcast x.sizes (target.map Int.toNat) out →
      padToMinDims (target.map Int.toNat) 4 = padToMinDims out 4 →
      (∀ value ∈ target, 1 ≤ value ∧ value < 2 ^ 32) →
      ∀ info : DmlTensorInfo, info.sizes = padToMinDims (target.map Int.toNat) 4 →
      info.strides = padToMinDims (expandStrides x.sizes (target.map Int.toNat).length) 4 →
      (info.Reads x.sizes ↔
        if x.sizes.length ≤ target.length then StridesFit x.sizes
        else ∀ d ∈ x.sizes, d = 1) := by
    intro out hout hfit hvalues info hsizes hstrides
    rw [← List.length_map (f := Int.toNat)]
    refine reads_expand_target hout hfit (fun d hd => ?_) (h.positive x (by simp)) hsizes hstrides
    obtain ⟨value, hmem, rfl⟩ := List.mem_map.1 hd
    have hvalue := hvalues value hmem
    omega
  constructor
  · rintro ⟨hreject, hall⟩
    by_cases hex : ∃ out, IsBroadcast x.sizes (target.map Int.toNat) out
    · obtain ⟨out, hout⟩ := hex
      obtain ⟨houtputs, hoperands⟩ := hall out hout _ rfl
      have hsizes := (List.cons.injEq _ _ _ _ ▸ houtputs).1
      have hvalues := target_values hout hsizes
      rw [map_toUInt32 hvalues] at hsizes hoperands
      refine ⟨⟨hvalues, out, hout, hsizes⟩, ?_⟩
      exact (htargets hout hsizes hvalues _ rfl rfl).1 (List.forall₂_cons.1 hoperands).1.2
    · exact absurd (hreject hex) (Option.some_ne_none _)
  · rintro ⟨⟨hvalues, out, hout, hsizes⟩, hfit⟩
    rw [map_toUInt32 hvalues]
    refine ⟨fun hno => absurd ⟨out, hout⟩ hno, fun out' hout' t ht => ?_⟩
    cases ht
    obtain rfl := broadcast_unique hout hout'
    exact ⟨congrArg (fun l => [l]) hsizes,
      .cons ⟨hsizes, (htargets hout hsizes hvalues _ rfl rfl).2 hfit⟩ .nil⟩

end

end BroadcastingLemmas

/-- `Expand` is exact when ORT has inferred the shape of its output and no stride of the input
wraps. Otherwise the values of the target have to be known and to be the shape of the output. -/
theorem expand_iff {D : Type} (beyond : Nat → UInt8) (desc : D) {node : Node}
    {shapes : ValueShapes} {initializers : String → Option Initializer} {x : DmlTensorInfo}
    {target : List Int}
    (h : Recorded node shapes [x] (IsBroadcast x.sizes (target.map Int.toNat)))
    (htarget : ∀ constant, constantInput initializers node 1 = some constant →
      readInt64s beyond constant = target) :
    Broadcasts (IsBroadcast x.sizes (target.map Int.toNat)) [x.sizes] TranslatedOp.inputTensors
        (translateExpand beyond desc node shapes initializers) ↔
      ((outEdge node shapes).isSome → StridesFit x.sizes) ∧
        (outEdge node shapes = none →
          constantInput initializers node 1 = none ∨ target = [] ∨
            TargetFits x.sizes target ∧
              if x.sizes.length ≤ target.length then StridesFit x.sizes
              else ∀ d ∈ x.sizes, d = 1) := by
  cases hedge : outEdge node shapes with
  | some e =>
    rw [expand_recorded_iff beyond desc h hedge]
    simp only [Option.isSome_some, forall_true_left, reduceCtorEq, false_implies, and_true]
  | none =>
    simp only [Option.isSome_none, Bool.false_eq_true, false_implies, true_and, forall_true_left]
    cases hconstant : constantInput initializers node 1 with
    | none =>
      rw [translateExpand_eq h, hedge]
      refine iff_of_true ⟨fun _ => ?_, fun _ _ t ht => ?_⟩ (Or.inl rfl)
      · rw [computedOut, hconstant]
        rfl
      · rw [computedOut, hconstant] at ht
        cases ht
    | some constant =>
      have hcomputed : computedOut beyond node initializers =
          target.map fun value => toUInt32 (max value 1) := by
        rw [computedOut, hconstant, Option.map_some, Option.getD_some, htarget constant hconstant]
      by_cases hnil : target = []
      · subst hnil
        rw [translateExpand_eq h, hedge, hcomputed]
        refine iff_of_true ⟨fun _ => rfl, fun _ _ t ht => ?_⟩ (Or.inr (Or.inl rfl))
        cases ht
      · rw [expand_target_iff beyond desc h hedge hnil hcomputed]
        simp only [reduceCtorEq, hnil, false_or]

namespace BroadcastingLemmas

/-! ## Gemm -/

section

variable {D : Type} {node : Node} {shapes : ValueShapes} {inferred : List Nat → Prop}

theorem translateGemm_eq {desc : Node → Bool → D} {initializers : String → Option Initializer}
    {a b c : DmlTensorInfo} (h : Recorded node shapes [a, b, c] inferred)
    (hname : presentInput node 2 = (getNodeInputNames node)[2]?) :
    translateGemm desc node shapes initializers =
      let outSizes := ((outEdge node shapes).map DmlTensorInfo.sizes).getD (gemmSizes node a b)
      some
        { opDesc := desc node true
          inputTensors := [makeTensorInfo a.sizes a.dataType, makeTensorInfo b.sizes b.dataType,
            gemmC c a.dataType outSizes]
          outputTensors := [makeTensorInfo outSizes a.dataType] } := by
  obtain ⟨aName, rest, hnames, ha, hrest⟩ := inputs_of_recorded h.inputs
  obtain ⟨bName, rest, rfl, hb, hrest⟩ := inputs_of_recorded hrest
  obtain ⟨cName, rest, rfl, hc, -⟩ := inputs_of_recorded hrest
  obtain ⟨output, outs, hout, hedge⟩ := outputs_of_recorded h
  have hfilter : (some cName).filter (· != "") = some cName := by
    rw [presentInput, hnames] at hname
    exact hname
  simp only [translateGemm, hnames, hout, ha, hb, hedge, List.head?_cons, hfilter,
    Option.bind_some, hc, Option.isSome_some, Option.map_some]
  rfl

end

theorem strides_gemmC (dims : List Dim) (out : List Nat) :
    List.zipWith (fun (d : Dim) out => if d.size = 1 ∧ 1 < out then 0 else d.stride) dims out =
      (List.zipWith (expandDim false) dims out).map Dim.stride := by
  rw [List.map_zipWith]
  congr 1
  funext d out
  unfold expandDim
  split_ifs <;> rfl

/-- The third operand, in the sizes of the result. -/
theorem reads_gemmC {c : DmlTensorInfo} (dtype : DmlDataType) {out : List Nat}
    (h : IsBroadcast c.sizes out out) (hlen : 4 ≤ out.length) (hpos : ∀ e ∈ out, 0 < e) :
    (gemmC c dtype out).Reads c.sizes ↔ StridesFit c.sizes := by
  have hc : c.sizes.length ≤ out.length := by
    have hlens := broadcast_lengths h
    omega
  have haligned := stretches_aligned (broadcastShapes_eq_some_iff.2 h)
  rw [max_eq_right hc] at haligned
  have hout : padToMinDims out 4 = out := by
    rw [padToMinDims, Nat.sub_eq_zero_of_le hlen]
    rfl
  refine reads_expanded false (m := 0) haligned hc hpos hout.symm ?_
  rw [Nat.sub_eq_zero_of_le hlen]
  exact strides_gemmC _ _

end BroadcastingLemmas

/-- The result of a `Gemm`, which its third operand has to be repeated to. -/
def GemmResult (node : Node) (a b c : DmlTensorInfo) (out : List Nat) : Prop :=
  out = gemmSizes node a b ∧ IsBroadcast c.sizes (padToMinDims out 4) (padToMinDims out 4)

/-- `Gemm` is exact for the operands that it can be given when ORT has inferred the shape of its
output and no stride of `C` wraps. -/
theorem gemm_iff {D : Type} (desc : Node → Bool → D) {node : Node} {shapes : ValueShapes}
    (initializers : String → Option Initializer) {a b c : DmlTensorInfo}
    (h : Recorded node shapes [a, b, c] (· = gemmSizes node a b))
    (hname : presentInput node 2 = (getNodeInputNames node)[2]?) :
    Broadcasts (GemmResult node a b c) [c.sizes] (fun t => t.inputTensors.drop 2)
        (translateGemm desc node shapes initializers) ↔
      (outEdge node shapes).isSome ∧ (∃ out, GemmResult node a b c out) ∧ StridesFit c.sizes := by
  rw [translateGemm_eq h hname]
  by_cases hex : ∃ out, GemmResult node a b c out
  · obtain ⟨out, hout⟩ := hex
    cases hedge : outEdge node shapes with
    | none =>
      refine iff_of_false ?_ (by rintro ⟨hsome, -⟩; cases hsome)
      rintro ⟨-, hall⟩
      obtain ⟨-, hoperands⟩ := hall out hout _ rfl
      have hsizes := congrArg List.length (List.forall₂_cons.1 hoperands).1.1
      rw [length_padToMinDims, hout.1] at hsizes
      simp [gemmC, gemmSizes] at hsizes
    | some e =>
      obtain ⟨out', rfl, he⟩ := h.edge e hedge
      obtain ⟨rfl, hbroadcast⟩ := hout
      have hpos : ∀ d ∈ padToMinDims (gemmSizes node a b) 4, 0 < d := fun d hd =>
        h.positive e (by simp [hedge]) d (he ▸ hd)
      have htwice : padToMinDims (padToMinDims (gemmSizes node a b) 4) 4 =
          padToMinDims (gemmSizes node a b) 4 :=
        padToMinDims_padToMinDims _ (Nat.le_max_left _ _)
      have hlen : 4 ≤ (padToMinDims (gemmSizes node a b) 4).length := by
        rw [length_padToMinDims]
        exact le_max_left _ _
      have hreads := reads_gemmC a.dataType hbroadcast hlen hpos
      dsimp only [Option.map_some, Option.getD_some]
      rw [he]
      constructor
      · rintro ⟨-, hall⟩
        obtain ⟨-, hoperands⟩ := hall _ ⟨rfl, hbroadcast⟩ _ rfl
        exact ⟨rfl, ⟨_, rfl, hbroadcast⟩, hreads.1 (List.forall₂_cons.1 hoperands).1.2⟩
      · rintro ⟨-, hsome, hfit⟩
        refine ⟨fun hno => absurd hsome hno, fun out hout t ht => ?_⟩
        cases ht
        obtain ⟨rfl, -⟩ := hout
        exact ⟨congrArg (fun l => [l]) htwice, .cons ⟨rfl, hreads.2 hfit⟩ .nil⟩
  · refine iff_of_false ?_ fun hall => hex hall.2.1
    rintro ⟨hreject, -⟩
    exact absurd (hreject hex) (Option.some_ne_none _)

/-- When the broadcasting of `Where`, `Expand` and `Gemm` is exact. -/
theorem ownBroadcasting_iff {D : Type} (desc : D) (gemmDesc : Node → Bool → D)
    (beyond : Nat → UInt8) (node : Node) (shapes : ValueShapes)
    (initializers : String → Option Initializer) :
    (∀ c x y, Recorded node shapes [c, x, y] (IsBroadcast3 c.sizes x.sizes y.sizes) →
      (Broadcasts (IsBroadcast3 c.sizes x.sizes y.sizes) [c.sizes, x.sizes, y.sizes]
          TranslatedOp.inputTensors (translateWhere desc node shapes initializers) ↔
        (¬ ∃ o, IsBroadcast x.sizes y.sizes o) ∨
          ∃ o, IsBroadcast x.sizes y.sizes o ∧
            padToMinDims c.sizes (max 4 o.length) = padToMinDims o 4 ∧
            StridesFit x.sizes ∧ StridesFit y.sizes)) ∧
    (∀ x target, Recorded node shapes [x] (IsBroadcast x.sizes (target.map Int.toNat)) →
      (∀ constant, constantInput initializers node 1 = some constant →
        readInt64s beyond constant = target) →
      (Broadcasts (IsBroadcast x.sizes (target.map Int.toNat)) [x.sizes] TranslatedOp.inputTensors
          (translateExpand beyond desc node shapes initializers) ↔
        ((outEdge node shapes).isSome → StridesFit x.sizes) ∧
          (outEdge node shapes = none →
            constantInput initializers node 1 = none ∨ target = [] ∨
              TargetFits x.sizes target ∧
                if x.sizes.length ≤ target.length then StridesFit x.sizes
                else ∀ d ∈ x.sizes, d = 1))) ∧
    ∀ a b c, Recorded node shapes [a, b, c] (· = gemmSizes node a b) →
      presentInput node 2 = (getNodeInputNames node)[2]? →
      (Broadcasts (GemmResult node a b c) [c.sizes] (fun t => t.inputTensors.drop 2)
          (translateGemm gemmDesc node shapes initializers) ↔
        (outEdge node shapes).isSome ∧ (∃ out, GemmResult node a b c out) ∧
          StridesFit c.sizes) :=
  ⟨fun _ _ _ h => where_iff desc initializers h,
    fun _ _ h htarget => expand_iff beyond desc h htarget,
    fun _ _ _ h hname => gemm_iff gemmDesc initializers h hname⟩

/-! ### Three nodes without a record of their output -/

/-- A node that reads `x`, `y` and `z` and writes `out`. -/
def ternaryNode (op : String) : Node :=
  { id := 0, opType := op, inputs := [some "x", some "y", some "z"], outputs := [some "out"] }

/-- Three tensors, and no record of a result. -/
def ternaryShapes (x y z : List Nat) : ValueShapes := fun name =>
  if name = "x" then some (makeTensorInfo x .float32)
  else if name = "y" then some (makeTensorInfo y .float32)
  else if name = "z" then some (makeTensorInfo z .float32)
  else none

/-- `[2, 3]` as the second input. -/
def knownTarget : String → Option Initializer := fun name =>
  if name = "y" then
    some
      { dataType := .int64, dims := [2]
        bytes := some [2, 0, 0, 0, 0, 0, 0, 0, 3, 0, 0, 0, 0, 0, 0, 0] }
  else none

theorem isBroadcast_of_eq {a b out : List Nat} (h : AmdGpuEp.broadcastShapes a b = some out) :
    IsBroadcast a b out :=
  broadcastShapes_eq_some_iff.1 h

/-- A condition of one element is read at three, a row that is expanded to two reads its first
element only, and the third operand of a `Gemm` has two dimensions, not four. -/
theorem ownBroadcasting_misreads :
    (¬ Broadcasts (IsBroadcast3 [1, 1, 1, 1] [1, 1, 1, 3] [1, 1, 1, 3])
        [[1, 1, 1, 1], [1, 1, 1, 3], [1, 1, 1, 3]] TranslatedOp.inputTensors
        (translateWhere () (ternaryNode "Where") (ternaryShapes [1] [3] [3]) (fun _ => none))) ∧
    (¬ Broadcasts (IsBroadcast [1, 1, 1, 3] [2, 3]) [[1, 1, 1, 3]] TranslatedOp.inputTensors
        (translateExpand (fun _ => 0) () (ternaryNode "Expand") (ternaryShapes [3] [2] [])
          knownTarget)) ∧
    ¬ Broadcasts
        (GemmResult (ternaryNode "Gemm") (makeTensorInfo [2, 4] .float32)
          (makeTensorInfo [4, 3] .float32) (makeTensorInfo [3] .float32))
        [[1, 1, 1, 3]] (fun t => t.inputTensors.drop 2)
        (translateGemm (fun _ _ => ()) (ternaryNode "Gemm") (ternaryShapes [2, 4] [4, 3] [3])
          (fun _ => none)) := by
  refine ⟨fun h => ?_, fun h => ?_, fun h => ?_⟩
  · have hcommon : IsBroadcast3 [1, 1, 1, 1] [1, 1, 1, 3] [1, 1, 1, 3] [1, 1, 1, 3] :=
      ⟨_, isBroadcast_of_eq rfl, isBroadcast_of_eq rfl⟩
    have hcond := (List.forall₂_cons.1 (h.2 _ hcommon _ rfl).2).1.2 [0, 0, 0, 1] (by decide)
    exact absurd hcond.1 (by decide)
  · have hrow := (List.forall₂_cons.1 (h.2 _ (isBroadcast_of_eq rfl) _ rfl).2).1.2
      [0, 0, 0, 1] (by decide)
    exact absurd hrow.1 (by decide)
  · have hcommon : GemmResult (ternaryNode "Gemm") (makeTensorInfo [2, 4] .float32)
        (makeTensorInfo [4, 3] .float32) (makeTensorInfo [3] .float32) [2, 3] :=
      ⟨rfl, isBroadcast_of_eq rfl⟩
    have hthird := (List.forall₂_cons.1 (h.2 _ hcommon _ rfl).2).1.1
    exact absurd hthird (by decide)

/-- A condition, `X` and `Y` of one shape. -/
theorem ownBroadcasting_same :
    Broadcasts (IsBroadcast3 [1, 1, 2, 3] [1, 1, 2, 3] [1, 1, 2, 3])
      [[1, 1, 2, 3], [1, 1, 2, 3], [1, 1, 2, 3]] TranslatedOp.inputTensors
      (translateWhere () (ternaryNode "Where") (ternaryShapes [2, 3] [2, 3] [2, 3])
        (fun _ => none)) := by
  have hiff := (ownBroadcasting_iff () (fun _ _ => ()) (fun _ => 0) (ternaryNode "Where")
    (ternaryShapes [2, 3] [2, 3] [2, 3]) (fun _ => none)).1 (makeTensorInfo [2, 3] .float32)
    (makeTensorInfo [2, 3] .float32) (makeTensorInfo [2, 3] .float32)
    { inputs := rfl, output := by decide, positive := by decide, edge := by
        intro e he
        cases he }
  exact hiff.2 (Or.inr ⟨[1, 1, 2, 3], isBroadcast_of_eq rfl, rfl, by decide, by decide⟩)

end AmdGpuEp.DirectML
