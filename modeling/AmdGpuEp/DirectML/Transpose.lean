import AmdGpuEp.DirectML.Broadcasting
import Mathlib.Data.List.GetD

/-!
# Transposes by strides

`TranslateTranspose` of `dml_op_translators.cc` describes its input in the sizes of
the output, with the strides of the input in the order of the permutation. A
permutation that is given counts the axes of the ONNX shape and is moved behind the
padding; one that is missing is made for the padded shape.

Results:
1. `transpose_iff`: when the description is the ONNX transpose.
2. `defaultTranspose_misplaced`: a matrix that is transposed without a permutation.
-/

namespace AmdGpuEp.DirectML

section

variable {D : Type}

/-- The axes in the order of the output. -/
def transposePerm (node : Node) (rank : Nat) : List Int :=
  let given := getAttributeInts node "perm"
  let perm := if given = [] then ((List.range rank).map Int.ofNat).reverse else given
  if perm.length < rank then
    let pad := rank - perm.length
    (List.range pad).map Int.ofNat ++ perm.map fun (axis : Int) => axis + pad
  else perm

/-- The description of the input, padded to four dimensions. -/
def transposedInput (dims : List Dim) (info : DmlTensorInfo) : DmlTensorInfo :=
  { makeTensorInfoWithStrides (dims.map Dim.size) (dims.map Dim.stride) info.dataType
      info.totalBytes with
    sizes := padToMinDims (dims.map Dim.size) 4
    strides := List.replicate (4 - dims.length) 0 ++ dims.map Dim.stride }

/-- `TranslateTranspose`. An axis out of range is not rejected. -/
def translateTranspose (desc : D) : OpTranslator D := fun node shapes _ =>
  withShapes node shapes fun inInfo outEdge =>
    let rank := inInfo.sizes.length
    let perm := transposePerm node rank
    if perm.length ≠ rank then none
    else
      let dims := perm.map fun axis => (packedDims inInfo.sizes).getD axis.toNat ⟨0, 0⟩
      let outSizes := (outEdge.map DmlTensorInfo.sizes).getD (dims.map Dim.size)
      some
        { opDesc := desc, inputTensors := [transposedInput dims inInfo],
          outputTensors := [makeTensorInfo outSizes inInfo.dataType] }

/-! ## What is asked of it -/

/-- The permutation of a node, which is the reversal when the node has none. -/
def OnnxPerm (node : Node) (rank : Nat) (perm : List Nat) : Prop :=
  perm.Perm (List.range rank) ∧
    (getAttributeInts node "perm" = perm.map Int.ofNat ∨
      getAttributeInts node "perm" = [] ∧ perm = (List.range rank).reverse)

instance (node : Node) (rank : Nat) (perm : List Nat) : Decidable (OnnxPerm node rank perm) :=
  inferInstanceAs (Decidable (_ ∧ _))

/-- Input and output are described in the permuted sizes, and at every index of the output the input
is read at the index whose entries have been permuted. -/
structure Transposes (shape perm : List Nat) (t : TranslatedOp D) : Prop where
  output : t.outputTensors.map DmlTensorInfo.sizes = [padToMinDims (permute perm 0 shape) 4]
  input : ∃ info, t.inputTensors = [info] ∧ info.sizes = padToMinDims (permute perm 0 shape) 4 ∧
    ∀ idx, InBounds idx (permute perm 0 shape) →
      info.offset (alignRight 0 4 idx) = rowMajor shape (unpermute perm 0 idx)

end

namespace TransposeLemmas

section

variable {D : Type} {node : Node} {shapes : ValueShapes}

theorem withShapes_of_recorded {info : DmlTensorInfo} {inferred : List Nat → Prop}
    (h : Recorded node shapes [info] inferred)
    (translate : DmlTensorInfo → Option DmlTensorInfo → Option (TranslatedOp D)) :
    withShapes node shapes translate = translate info (outEdge node shapes) := by
  obtain ⟨input, rest, hnames, hinput, -⟩ := BroadcastingLemmas.inputs_of_recorded h.inputs
  obtain ⟨output, outs, hout, hedge⟩ := BroadcastingLemmas.outputs_of_recorded h
  simp only [withShapes, hnames, hout, hinput, hedge, Option.bind_some]

end

theorem packedDims_ones (k : Nat) (sizes : List Nat) :
    packedDims (List.replicate k 1 ++ sizes) =
      List.replicate k ⟨1, sizes.prod % 2 ^ 32⟩ ++ packedDims sizes := by
  induction k with
  | zero => rfl
  | succ k ih =>
    rw [List.replicate_succ, List.cons_append, BroadcastingLemmas.packedDims_cons, ih,
      List.replicate_succ, List.cons_append]
    simp

theorem sizes_packedDims (shape : List Nat) : (packedDims shape).map Dim.size = shape := by
  induction shape with
  | nil => rfl
  | cons size sizes ih => rw [BroadcastingLemmas.packedDims_cons, List.map_cons, ih]

/-- Packed dimensions address in row-major order when no stride wraps. -/
theorem address_packedDims_iff {shape : List Nat} (hpos : ∀ d ∈ shape, 0 < d) :
    (∀ idx, InBounds idx shape → address (packedDims shape) idx = rowMajor shape idx) ↔
      StridesFit shape := by
  have hsizes := sizes_packedDims shape
  have hdims : ∀ d ∈ packedDims shape, 0 < d.size := fun d hd =>
    hpos _ (hsizes ▸ List.mem_map_of_mem hd)
  have hiff := addresses_eq_iff (hsizes.trans (map_size_packed shape).symm) hdims
  rw [hsizes] at hiff
  simp only [← address_packed]
  rw [hiff]
  clear hiff hdims hsizes hpos
  induction shape with
  | nil => exact iff_of_true .nil trivial
  | cons size sizes ih =>
    rw [BroadcastingLemmas.packedDims_cons, packed, List.forall₂_cons, StridesFit]
    refine and_congr ?_ ih
    constructor
    · rintro (hone | hmod) hne
      · exact absurd hone hne
      · have hmod : sizes.prod % 2 ^ 32 = sizes.prod := hmod
        exact hmod ▸ Nat.mod_lt _ (by decide)
    · intro hlt
      by_cases hone : size = 1
      · exact Or.inl hone
      · exact Or.inr (Nat.mod_eq_of_lt (hlt hone))

/-- A permutation that is given, and any of four axes or more, is moved behind the padding. -/
theorem transposePerm_eq {node : Node} {shape perm : List Nat}
    (hperm : OnnxPerm node shape.length perm)
    (hgiven : getAttributeInts node "perm" = [] → 4 ≤ shape.length) :
    transposePerm node (max 4 shape.length) =
      (List.range (4 - shape.length) ++ perm.map (· + (4 - shape.length))).map Int.ofNat := by
  obtain ⟨hrange, hattr⟩ := hperm
  have hlen : perm.length = shape.length := by simpa using hrange.length_eq
  unfold transposePerm
  by_cases hnone : getAttributeInts node "perm" = []
  · have hrank := hgiven hnone
    have hmax : max 4 shape.length = shape.length := Nat.max_eq_right hrank
    have hpad : 4 - shape.length = 0 := Nat.sub_eq_zero_of_le hrank
    have hrev : perm = (List.range shape.length).reverse := by
      rcases hattr with hattr | ⟨-, hrev⟩
      · rw [hnone] at hattr
        have hnil : perm = [] := List.map_eq_nil_iff.1 hattr.symm
        rw [hnil, List.length_nil] at hlen
        omega
      · exact hrev
    simp [hnone, hmax, hpad, hrev]
  · have hmap : getAttributeInts node "perm" = perm.map Int.ofNat :=
      hattr.resolve_right fun h => hnone h.1
    dsimp only
    rw [if_neg hnone, hmap, List.length_map, hlen]
    split
    · next hlt =>
      have hpad : max 4 shape.length - shape.length = 4 - shape.length := by omega
      rw [hpad, List.map_append, List.map_map, List.map_map]
      rfl
    · next hge =>
      have hpad : 4 - shape.length = 0 := by omega
      simp [hpad]

/-- Then the dimensions are those of the ONNX shape in the order of the permutation. -/
theorem dims_eq (shape perm : List Nat) :
    ((List.range (4 - shape.length) ++ perm.map (· + (4 - shape.length))).map Int.ofNat).map
        (fun axis => (packedDims (padToMinDims shape 4)).getD axis.toNat ⟨0, 0⟩) =
      List.replicate (4 - shape.length) ⟨1, shape.prod % 2 ^ 32⟩ ++
        permute perm ⟨0, 0⟩ (packedDims shape) := by
  unfold padToMinDims
  rw [packedDims_ones, List.map_append, List.map_append, List.map_map, List.map_map, List.map_map]
  congr 1
  · refine List.eq_replicate_iff.2 ⟨by simp, fun d hd => ?_⟩
    obtain ⟨k, hk, rfl⟩ := List.mem_map.1 hd
    rw [List.mem_range] at hk
    simp [hk, List.getElem?_append_left]
  · refine List.map_congr_left fun p _ => ?_
    show List.getD _ (p + (4 - shape.length)) _ = _
    rw [Nat.add_comm, List.getD_append_right _ _ _ _ (by simp), List.length_replicate,
      Nat.add_sub_cancel_left]

theorem permute_reverse (shape : List Nat) :
    permute (List.range shape.length).reverse 0 shape = shape.reverse := by
  rw [permute, List.map_reverse, map_getD_range]

/-- The reversed padding is at its end, where only ones may stand. -/
theorem reverse_padded {shape : List Nat} (hrank : shape.length < 4) :
    (padToMinDims shape 4).reverse = padToMinDims shape.reverse 4 ↔ ∀ d ∈ shape, d = 1 := by
  rcases shape with _ | ⟨a, _ | ⟨b, _ | ⟨c, _ | ⟨d, rest⟩⟩⟩⟩
  · simp [padToMinDims]
  · simp [padToMinDims]
    omega
  · simp [padToMinDims]
    omega
  · simp [padToMinDims]
    omega
  · simp at hrank
    omega

theorem view_transposedInput (dims : List Dim) (info : DmlTensorInfo) :
    (transposedInput dims info).view = List.replicate (4 - dims.length) ⟨1, 0⟩ ++ dims := by
  have hne : List.replicate (4 - dims.length) (⟨1, 0⟩ : Dim) ++ dims ≠ [] := by
    intro hnil
    have hlen := congrArg List.length hnil
    rw [List.length_append, List.length_replicate, List.length_nil] at hlen
    omega
  refine BroadcastingLemmas.view_of_dims hne ?_ ?_
  · simp [transposedInput, padToMinDims]
  · simp [transposedInput]

section

variable {D : Type} {node : Node} {shapes : ValueShapes} {info : DmlTensorInfo}
  {shape perm : List Nat}

/-- The sizes of the output, recorded or not. -/
theorem output_sizes {sizes out : List Nat} (hsizes : padToMinDims sizes 4 = padToMinDims out 4)
    (h : Recorded node shapes [info] (· = out)) :
    padToMinDims (((outEdge node shapes).map DmlTensorInfo.sizes).getD sizes) 4 =
      padToMinDims out 4 := by
  cases hedge : outEdge node shapes with
  | none => exact hsizes
  | some e =>
    obtain ⟨_, rfl, he⟩ := h.edge e hedge
    rw [Option.map_some, Option.getD_some, he,
      BroadcastingLemmas.padToMinDims_padToMinDims _ (Nat.le_max_left _ _)]

/-- Packed dimensions that are permuted behind the padding. -/
theorem offset_permuted_iff {m : Nat} (hpos : ∀ d ∈ shape, 0 < d)
    (hperm : perm.Perm (List.range shape.length))
    (hview : info.view = List.replicate (4 - shape.length) ⟨1, m⟩ ++
      permute perm ⟨0, 0⟩ (packedDims shape)) :
    (∀ idx, InBounds idx (permute perm 0 shape) →
      info.offset (alignRight 0 4 idx) = rowMajor shape (unpermute perm 0 idx)) ↔
      StridesFit shape := by
  have hlen : perm.length = shape.length := by simpa using hperm.length_eq
  have hdims : (packedDims shape).length = shape.length :=
    BroadcastingLemmas.length_packedDims shape
  have hoffset : ∀ i, i.length = shape.length →
      info.offset (alignRight 0 4 (permute perm 0 i)) = address (packedDims shape) i := by
    intro i hi
    rw [DmlTensorInfo.offset, hview, alignRight, length_permute, hlen,
      address_append (by simp), address_zeros, Nat.zero_add]
    exact address_permute (hdims.symm ▸ hperm) _ (hi.trans hdims.symm)
  rw [← address_packedDims_iff hpos]
  constructor
  · intro h i hi
    have hi' := hi.length_eq
    have hread := h (permute perm 0 i) ((inBounds_permute hperm hi').2 hi)
    rwa [hoffset i hi', unpermute_permute hperm 0 hi'] at hread
  · intro h idx hidx
    have hidx' : idx.length = shape.length := by rw [hidx.length_eq, length_permute, hlen]
    have hback : permute perm 0 (unpermute perm 0 idx) = idx := permute_unpermute hperm 0 hidx'
    have hsource : (unpermute perm 0 idx).length = shape.length := by rw [length_unpermute, hlen]
    rw [← hback] at hidx
    conv_lhs => rw [← hback]
    rw [hoffset _ hsource]
    exact h _ ((inBounds_permute hperm hsource).1 hidx)

theorem transposed_iff (desc : D) (dims : List Dim)
    (h : Recorded node shapes [info] (· = permute perm 0 shape)) :
    Transposes shape perm
        { opDesc := desc, inputTensors := [transposedInput dims info],
          outputTensors := [makeTensorInfo (((outEdge node shapes).map DmlTensorInfo.sizes).getD
            (dims.map Dim.size)) info.dataType] } ↔
      padToMinDims (dims.map Dim.size) 4 = padToMinDims (permute perm 0 shape) 4 ∧
        ∀ idx, InBounds idx (permute perm 0 shape) →
          (transposedInput dims info).offset (alignRight 0 4 idx) =
            rowMajor shape (unpermute perm 0 idx) := by
  constructor
  · rintro ⟨-, _, ⟨⟩, hsizes, hreads⟩
    exact ⟨hsizes, hreads⟩
  · rintro ⟨hsizes, hreads⟩
    exact ⟨congrArg (· :: []) (output_sizes hsizes h), _, rfl, hsizes, hreads⟩

/-- Dimensions in the order of a permutation that has been moved behind the padding. -/
theorem transposed_moved_iff (hpos : ∀ d ∈ shape, 0 < d)
    (hperm : perm.Perm (List.range shape.length)) {m : Nat} {dims : List Dim}
    (hdims : dims = List.replicate (4 - shape.length) ⟨1, m⟩ ++
      permute perm ⟨0, 0⟩ (packedDims shape)) :
    (padToMinDims (dims.map Dim.size) 4 = padToMinDims (permute perm 0 shape) 4 ∧
        ∀ idx, InBounds idx (permute perm 0 shape) →
          (transposedInput dims info).offset (alignRight 0 4 idx) =
            rowMajor shape (unpermute perm 0 idx)) ↔
      StridesFit shape := by
  have hlen : perm.length = shape.length := by simpa using hperm.length_eq
  have hsizes : dims.map Dim.size = padToMinDims (permute perm 0 shape) 4 := by
    rw [hdims, List.map_append, List.map_replicate, map_permute, sizes_packedDims, padToMinDims,
      length_permute, hlen]
  have hfour : 4 - dims.length = 0 := by
    rw [hdims, List.length_append, List.length_replicate, length_permute, hlen]
    omega
  have hview : (transposedInput dims info).view = List.replicate (4 - shape.length) ⟨1, m⟩ ++
      permute perm ⟨0, 0⟩ (packedDims shape) := by
    rw [view_transposedInput, hfour, List.replicate_zero, List.nil_append, hdims]
  rw [offset_permuted_iff hpos hperm hview, hsizes]
  exact and_iff_right
    (BroadcastingLemmas.padToMinDims_padToMinDims _ (Nat.le_max_left _ _))

/-- All dimensions of the padded shape, in reverse. -/
theorem transposed_reversed_iff (hlt : shape.length < 4) :
    (padToMinDims ((packedDims (padToMinDims shape 4)).reverse.map Dim.size) 4 =
          padToMinDims (permute (List.range shape.length).reverse 0 shape) 4 ∧
        ∀ idx, InBounds idx (permute (List.range shape.length).reverse 0 shape) →
          (transposedInput (packedDims (padToMinDims shape 4)).reverse info).offset
              (alignRight 0 4 idx) =
            rowMajor shape (unpermute (List.range shape.length).reverse 0 idx)) ↔
      ∀ d ∈ shape, d = 1 := by
  have hfour : padToMinDims (padToMinDims shape 4).reverse 4 = (padToMinDims shape 4).reverse := by
    rw [padToMinDims, List.length_reverse, BroadcastingLemmas.length_padToMinDims,
      Nat.sub_eq_zero_of_le (Nat.le_max_left _ _), List.replicate_zero, List.nil_append]
  rw [List.map_reverse, sizes_packedDims, hfour, permute_reverse, reverse_padded hlt]
  refine and_iff_left_of_imp fun hones idx hidx => ?_
  -- the one index there is has no entry but 0
  have hzero : ∀ {sizes idx : List Nat}, (∀ d ∈ sizes, d = 1) → InBounds idx sizes →
      idx = List.replicate idx.length 0 := by
    intro sizes idx hones hidx
    refine List.eq_replicate_iff.2 ⟨rfl, fun i hi => ?_⟩
    obtain ⟨k, hk, rfl⟩ := List.getElem_of_mem hi
    have hlt := List.Forall₂.get hidx hk (hidx.length_eq ▸ hk)
    have hone := hones _ (List.getElem_mem (hidx.length_eq ▸ hk))
    simp only [List.get_eq_getElem] at hlt
    omega
  have hidx' := hzero (fun d hd => hones d (List.mem_reverse.1 hd)) hidx
  rw [DmlTensorInfo.offset, hidx', alignRight, ← List.replicate_add, address_zeros]
  have hsource : unpermute (List.range shape.length).reverse 0 (List.replicate idx.length 0) =
      List.replicate shape.length 0 := by
    refine List.eq_replicate_iff.2 ⟨by simp, fun i hi => ?_⟩
    obtain ⟨k, -, rfl⟩ := List.mem_map.1 hi
    simp [List.getD_eq_getElem?_getD, List.getElem?_replicate]
    split <;> rfl
  rw [hsource, ← address_packed, address_zeros]

end

end TransposeLemmas

open TransposeLemmas

/-- The input is that of the ONNX transpose when no stride wraps and the permutation is given, or
the shape has four dimensions or more, or no dimension that is longer than 1. -/
theorem transpose_iff {D : Type} (desc : D) {node : Node} {shapes : ValueShapes}
    {initializers : String → Option Initializer} {info : DmlTensorInfo} {shape perm : List Nat}
    (h : Recorded node shapes [info] (· = permute perm 0 shape))
    (hinfo : info.sizes = padToMinDims shape 4) (hperm : OnnxPerm node shape.length perm) :
    (∃ t, translateTranspose desc node shapes initializers = some t ∧ Transposes shape perm t) ↔
      StridesFit shape ∧
        (getAttributeInts node "perm" = [] → shape.length < 4 → ∀ d ∈ shape, d = 1) := by
  have hpos : ∀ d ∈ shape, 0 < d := fun d hd =>
    h.positive info (by simp) d (hinfo ▸ List.mem_append_right _ hd)
  have hlen : perm.length = shape.length := by simpa using hperm.1.length_eq
  have hrank : info.sizes.length = max 4 shape.length := by
    rw [hinfo, BroadcastingLemmas.length_padToMinDims]
  rw [translateTranspose, withShapes_of_recorded h]
  dsimp only
  rw [hrank, hinfo]
  by_cases hgiven : getAttributeInts node "perm" = [] → 4 ≤ shape.length
  · rw [transposePerm_eq hperm hgiven, dims_eq, if_neg (by simp [hlen]; omega)]
    simp only [Option.some.injEq, exists_eq_left']
    rw [transposed_iff desc _ h, transposed_moved_iff hpos hperm.1 rfl]
    refine (and_iff_left fun hnone hlt => ?_).symm
    exact absurd (hgiven hnone) (Nat.not_le.2 hlt)
  · obtain ⟨hnone, hlt⟩ := Classical.not_imp.1 hgiven
    rw [not_le] at hlt
    have hmax : max 4 shape.length = 4 := by omega
    have hrev : perm = (List.range shape.length).reverse := by
      rcases hperm.2 with hattr | ⟨-, hrev⟩
      · rw [hnone] at hattr
        have hnil : perm = [] := List.map_eq_nil_iff.1 hattr.symm
        have hzero : shape.length = 0 := by rw [← hlen, hnil, List.length_nil]
        rw [hnil, hzero]
        rfl
      · exact hrev
    have hreversed : transposePerm node 4 = ((List.range 4).map Int.ofNat).reverse := by
      simp [transposePerm, hnone]
    have hdims : (((List.range 4).map Int.ofNat).reverse).map
        (fun axis => (packedDims (padToMinDims shape 4)).getD axis.toNat ⟨0, 0⟩) =
          (packedDims (padToMinDims shape 4)).reverse := by
      have hfour : (packedDims (padToMinDims shape 4)).length = 4 := by
        rw [BroadcastingLemmas.length_packedDims, BroadcastingLemmas.length_padToMinDims, hmax]
      have hall := map_getD_range (⟨0, 0⟩ : Dim) (packedDims (padToMinDims shape 4))
      rw [hfour] at hall
      rw [List.map_reverse, List.map_map]
      exact congrArg List.reverse hall
    rw [hmax, hreversed, hdims, if_neg (by simp)]
    simp only [Option.some.injEq, exists_eq_left']
    rw [transposed_iff desc _ h, hrev, transposed_reversed_iff hlt]
    refine ⟨fun hones => ⟨?_, fun _ _ => hones⟩, fun hones => hones.2 hnone hlt⟩
    rw [List.eq_replicate_iff.2 ⟨rfl, hones⟩, ← List.append_nil (List.replicate _ 1),
      BroadcastingLemmas.stridesFit_ones]
    trivial

/-! ## A matrix -/

/-- `y` is the transpose of `x`. -/
def matrixTranspose (attributes : List (String × AttrValue)) : Node :=
  { id := 0, opType := "Transpose", inputs := [some "x"], outputs := [some "y"],
    attributes := attributes }

/-- ORT knows the shape of both. -/
def matrixShapes : ValueShapes := fun name =>
  if name = "x" then some { makeTensorInfo [2, 3] .float32 with originalRank := 2 }
  else if name = "y" then some { makeTensorInfo [3, 2] .float32 with originalRank := 2 }
  else none

/-- Without a permutation the dimensions come before the padding, and the element of the first row
and second column of the output is read behind the six that there are. -/
theorem defaultTranspose_misplaced :
    OnnxPerm (matrixTranspose []) 2 [1, 0] ∧
      ∃ t info, translateTranspose () (matrixTranspose []) matrixShapes (fun _ => none) = some t ∧
        t.inputTensors = [info] ∧ info.sizes = [3, 2, 1, 1] ∧ info.offset [0, 0, 0, 1] = 6 ∧
          ¬ Transposes [2, 3] [1, 0] t := by
  refine ⟨by decide, _, _, rfl, rfl, by decide, by decide, ?_⟩
  rintro ⟨-, _, ⟨⟩, hsizes, -⟩
  exact absurd hsizes (by decide)

/-- With the permutation they stand behind it. -/
theorem givenTranspose_placed :
    ∃ t, translateTranspose () (matrixTranspose [("perm", .ints [1, 0])]) matrixShapes
        (fun _ => none) = some t ∧ Transposes [2, 3] [1, 0] t := by
  have hperm : OnnxPerm (matrixTranspose [("perm", .ints [1, 0])]) [2, 3].length [1, 0] := by
    decide
  refine (transpose_iff () ⟨show _ = [({ makeTensorInfo [2, 3] .float32 with
    originalRank := 2 } : DmlTensorInfo)].map some by decide, by decide, by decide, ?_⟩ (by decide)
    hperm).2 ⟨by decide, ?_⟩
  · rintro e ⟨⟩
    exact ⟨[3, 2], by decide, by decide⟩
  · intro hnone
    exact absurd hnone (by decide)

end AmdGpuEp.DirectML
