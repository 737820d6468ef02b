import AmdGpuEp.DirectML.Broadcasting

/-!
# Group normalization

`TranslateGroupNorm` of `dml_op_translators.cc` views its input in the sizes batch,
groups, channels of a group, and positions of an image, and normalizes along the
last two; a SiLU follows as two sub-nodes. Channels that come last are read by
strides, but the output is packed, with the channels before the positions.

Results:
1. `groupNorm_iff`: when the result is a group normalization in the declared layout.
2. `channelsLast_transposed`: two channels and two positions with the channels last.
-/

namespace AmdGpuEp.DirectML

/-! ## The translator -/

/-- The operators of a group normalization, with the tensors that their descriptions own. -/
inductive GroupNormDesc
  | meanVariance (epsilon : UInt32) (crossChannel : Bool) (output : DmlTensorInfo)
  | sigmoid (tensor : DmlTensorInfo)
  | multiply (tensor : DmlTensorInfo)
  deriving DecidableEq, Repr

/-- Batch, channels, height and width of a recorded tensor. -/
def groupNormDims (channelsLast : Bool) : List Nat → Option (Nat × Nat × Nat × Nat)
  | d0 :: d1 :: d2 :: d3 :: _ =>
    some (if channelsLast then (d0, d3, d1, d2) else (d0, d1, d2, d3))
  | _ => none

/-- A tensor in the given sizes and strides, as they stand. -/
def stridedInfo (sizes strides : List Nat) (dtype : DmlDataType) (totalBytes : Nat) :
    DmlTensorInfo :=
  { makeTensorInfoWithStrides sizes strides dtype totalBytes with
    sizes := sizes
    strides := strides }

/-- The sub-nodes of a SiLU: the sigmoid of the primary node, and the product of both. -/
def siluNodes (tensor : DmlTensorInfo) : List (SubNode GroupNormDesc) :=
  [{ opDesc := .sigmoid tensor, inputFrom := [(-1, 0)] },
    { opDesc := .multiply tensor, inputFrom := [(-1, 0), (0, 0)] }]

def translateGroupNorm : OpTranslator GroupNormDesc := fun node shapes _ =>
  match getNodeInputNames node, getNodeOutputNames node with
  | x :: gamma :: beta :: _, output :: _ =>
    match shapes x, shapes gamma, shapes beta, shapes output with
    | some inInfo, some gammaInfo, some betaInfo, some outInfo =>
      let channelsLast := getAttributeInt node "channels_last" 1 != 0
      (groupNormDims channelsLast inInfo.sizes).map fun (b, c, h, w) =>
        let g := toUInt32 (getAttributeInt node "groups" 32)
        let cpg := c / g
        let s := h * w % 2 ^ 32
        let sizes := [b, g, cpg, s]
        let dtype := inInfo.dataType
        let input :=
          if channelsLast then
            stridedInfo sizes [s * c % 2 ^ 32, cpg, 1, c] dtype
              (b * h * w * c * dtype.size % 2 ^ 64)
          else makeTensorInfo sizes dtype
        let parameter := fun (info : DmlTensorInfo) =>
          stridedInfo sizes [0, cpg, 1, 0] info.dataType info.totalBytes
        let mvnOutput := makeTensorInfo sizes dtype
        let epsilon := getAttributeFloatOr node "epsilon" 0x3727C5AC
        { opDesc := .meanVariance epsilon false mvnOutput
          inputTensors := [input, parameter gammaInfo, parameter betaInfo]
          outputTensors := [makeTensorInfo outInfo.sizes dtype]
          subNodes := if getAttributeInt node "activation" 0 = 1 then siluNodes mvnOutput else [] }
    | _, _, _, _ => none
  | _, _ => none

/-! ## What the operators compute -/

/-- The arithmetic: a value is normalized among the values of its group. -/
structure NormOps (V : Type) where
  normalize : UInt32 → Multiset V → V → V → V → V
  sigmoid : V → V
  multiply : V → V → V

section

variable {V : Type} (ops : NormOps V)

/-- The values at the last two of four dimensions, in these channels. -/
def planeValues (info : DmlTensorInfo) (x : Nat → V) (n : Nat) (channels : List Nat) : Multiset V :=
  (channels.flatMap fun c => (List.range (info.sizes.getD 2 0)).flatMap fun i =>
    (List.range (info.sizes.getD 3 0)).map fun j => x (info.offset [n, c, i, j]) : List V)

/-- `DML_OPERATOR_MEAN_VARIANCE_NORMALIZATION`: it normalizes along the last two of four dimensions,
and with `CrossChannel` along the channels, too. -/
def meanVariance (epsilon : UInt32) (crossChannel : Bool) (inputs : List DmlTensorInfo)
    (x gamma beta : Nat → V) (idx : List Nat) : V :=
  let input := inputs.getD 0 {}
  let channels := if crossChannel then List.range (input.sizes.getD 1 0) else [idx.getD 1 0]
  ops.normalize epsilon (planeValues input x (idx.getD 0 0) channels) (x (input.offset idx))
    (gamma ((inputs.getD 1 {}).offset idx)) (beta ((inputs.getD 2 {}).offset idx))

/-- One sub-node; `values` are those of the nodes before it. All tensors of the nodes are one. -/
def subValue (values : Int → List Nat → V) (sn : SubNode GroupNormDesc) (idx : List Nat) : V :=
  let input := fun k => values (sn.inputFrom.getD k (-1, 0)).1 idx
  match sn.opDesc with
  | .sigmoid _ => ops.sigmoid (input 0)
  | .multiply _ => ops.multiply (input 0) (input 1)
  | .meanVariance _ _ _ => input 0

/-- The values of the last node. -/
def lastValue (primary : List Nat → V) (nodes : List (SubNode GroupNormDesc)) : List Nat → V :=
  let values := nodes.foldl (fun done sn => done ++ [subValue ops
    (fun i => if i < 0 then primary else done.getD i.toNat primary) sn]) []
  values.getLast?.getD primary

/-- The translated node leaves these values in the output buffer. -/
def RunsTo (t : TranslatedOp GroupNormDesc) (x gamma beta out : Nat → V) : Prop :=
  ∀ epsilon crossChannel output, t.opDesc = .meanVariance epsilon crossChannel output →
    ∀ idx, InBounds idx output.sizes → out (output.offset idx) =
      lastValue ops (meanVariance ops epsilon crossChannel t.inputTensors x gamma beta)
        t.subNodes idx

end

/-! ## What is asked of them -/

/-- The sizes of a group normalization. -/
structure GroupNormShape where
  batch : Nat
  height : Nat
  width : Nat
  channels : Nat
  groups : Nat
  positive : 0 < batch ∧ 0 < height ∧ 0 < width ∧ 0 < channels
  divides : groups ∣ channels
  fits : batch < 2 ^ 32 ∧ height < 2 ^ 32 ∧ width < 2 ^ 32 ∧ channels < 2 ^ 32

namespace GroupNormShape

variable (n : GroupNormShape)

/-- The channels of a group. -/
def perGroup : Nat :=
  n.channels / n.groups

def sizes (channelsLast : Bool) : List Nat :=
  if channelsLast then [n.batch, n.height, n.width, n.channels]
  else [n.batch, n.channels, n.height, n.width]

/-- The place of an element in the declared layout. -/
def place (channelsLast : Bool) (b h w c : Nat) : Nat :=
  rowMajor (n.sizes channelsLast) (if channelsLast then [b, h, w, c] else [b, c, h, w])

variable {V : Type} (ops : NormOps V)

/-- The values of a group of channels in one image. -/
def groupValues (channelsLast : Bool) (x : Nat → V) (b group : Nat) : Multiset V :=
  ((List.range n.perGroup).flatMap fun k => (List.range n.height).flatMap fun h =>
    (List.range n.width).map fun w =>
      x (n.place channelsLast b h w (group * n.perGroup + k)) : List V)

/-- The group normalization of one element, with or without a SiLU. -/
def value (channelsLast silu : Bool) (epsilon : UInt32) (x gamma beta : Nat → V) (b h w c : Nat) :
    V :=
  let normalized := ops.normalize epsilon (n.groupValues channelsLast x b (c / n.perGroup))
    (x (n.place channelsLast b h w c)) (gamma c) (beta c)
  if silu then ops.multiply normalized (ops.sigmoid normalized) else normalized

/-- The buffer has the group normalization of all elements, each in its place. -/
def IsNormalized (channelsLast silu : Bool) (epsilon : UInt32) (x gamma beta out : Nat → V) :
    Prop :=
  ∀ b < n.batch, ∀ h < n.height, ∀ w < n.width, ∀ c < n.channels,
    out (n.place channelsLast b h w c) = n.value ops channelsLast silu epsilon x gamma beta b h w c

end GroupNormShape

/-- What a node says and what is recorded of its tensors. -/
structure GroupNormNode (node : Node) (shapes : ValueShapes) (n : GroupNormShape)
    (channelsLast silu : Bool) (epsilon : UInt32) : Prop where
  inputs : ∃ x gamma beta rest inInfo, getNodeInputNames node = x :: gamma :: beta :: rest ∧
    shapes x = some inInfo ∧ inInfo.sizes = n.sizes channelsLast ∧ (shapes gamma).isSome ∧
    (shapes beta).isSome
  output : ∃ y rest, getNodeOutputNames node = y :: rest ∧ (shapes y).isSome
  groups : getAttributeInt node "groups" 32 = n.groups
  layout : (getAttributeInt node "channels_last" 1 != 0) = channelsLast
  activation : silu = (getAttributeInt node "activation" 0 == 1)
  epsilon : getAttributeFloatOr node "epsilon" 0x3727C5AC = epsilon

/-- The node is translated, and whatever the arithmetic, the output is the group normalization. -/
def Normalizes (node : Node) (shapes : ValueShapes) (initializers : String → Option Initializer)
    (n : GroupNormShape) (channelsLast silu : Bool) (epsilon : UInt32) : Prop :=
  ∃ t, translateGroupNorm node shapes initializers = some t ∧
    ∀ (V : Type) (ops : NormOps V) (x gamma beta out : Nat → V),
      RunsTo ops t x gamma beta out →
        n.IsNormalized ops channelsLast silu epsilon x gamma beta out

namespace GroupNormLemmas

section

variable {node : Node} {shapes : ValueShapes} {initializers : String → Option Initializer}
  {n : GroupNormShape} {channelsLast silu : Bool} {epsilon : UInt32}

/-- The sizes that the operators see. -/
def viewSizes (n : GroupNormShape) : List Nat :=
  [n.batch, n.groups, n.perGroup, n.height * n.width % 2 ^ 32]

/-- The strides of an input whose channels come last. -/
def lastStrides (n : GroupNormShape) : List Nat :=
  [n.height * n.width % 2 ^ 32 * n.channels % 2 ^ 32, n.perGroup, 1, n.channels]

theorem groups_pos (n : GroupNormShape) : 0 < n.groups :=
  Nat.pos_of_dvd_of_pos n.divides n.positive.2.2.2

theorem groups_mul (n : GroupNormShape) : n.groups * n.perGroup = n.channels :=
  Nat.mul_div_cancel' n.divides

theorem perGroup_pos (n : GroupNormShape) : 0 < n.perGroup :=
  Nat.div_pos (Nat.le_of_dvd n.positive.2.2.2 n.divides) (groups_pos n)

variable (initializers) in
/-- What the node is translated to. -/
theorem translateGroupNorm_eq (h : GroupNormNode node shapes n channelsLast silu epsilon) :
    ∃ (dtype : DmlDataType) (bytes : Nat) (gamma beta : DmlTensorInfo) (outSizes : List Nat),
    translateGroupNorm node shapes initializers = some
      { opDesc := .meanVariance epsilon false (makeTensorInfo (viewSizes n) dtype)
        inputTensors := [
          if channelsLast then stridedInfo (viewSizes n) (lastStrides n) dtype bytes
          else makeTensorInfo (viewSizes n) dtype,
          stridedInfo (viewSizes n) [0, n.perGroup, 1, 0] gamma.dataType gamma.totalBytes,
          stridedInfo (viewSizes n) [0, n.perGroup, 1, 0] beta.dataType beta.totalBytes]
        outputTensors := [makeTensorInfo outSizes dtype]
        subNodes := if silu then siluNodes (makeTensorInfo (viewSizes n) dtype) else [] } := by
  obtain ⟨x, gamma, beta, rest, inInfo, hin, hx, hsizes, hgamma, hbeta⟩ := h.inputs
  obtain ⟨y, outs, hout, hy⟩ := h.output
  obtain ⟨gammaInfo, hgamma⟩ := Option.isSome_iff_exists.1 hgamma
  obtain ⟨betaInfo, hbeta⟩ := Option.isSome_iff_exists.1 hbeta
  obtain ⟨outInfo, hy⟩ := Option.isSome_iff_exists.1 hy
  have hgroups : toUInt32 (getAttributeInt node "groups" 32) = n.groups := by
    have hle := Nat.le_of_dvd n.positive.2.2.2 n.divides
    have hfits := n.fits.2.2.2
    rw [h.groups, toUInt32]
    omega
  have hdims : groupNormDims channelsLast inInfo.sizes =
      some (n.batch, n.channels, n.height, n.width) := by
    rw [hsizes]
    cases channelsLast <;> rfl
  refine ⟨inInfo.dataType,
    n.batch * n.height * n.width * n.channels * inInfo.dataType.size % 2 ^ 64,
    gammaInfo, betaInfo, outInfo.sizes, ?_⟩
  simp only [translateGroupNorm, hin, hout, hx, hgamma, hbeta, hy, h.layout, hdims, hgroups,
    h.epsilon, Option.map_some, h.activation, beq_iff_eq]
  rfl

/-- The last node gives out the value of the primary one, or its product with the sigmoid. -/
theorem lastValue_eq {V : Type} (ops : NormOps V) (primary : List Nat → V) (tensor : DmlTensorInfo)
    (silu : Bool) (idx : List Nat) :
    lastValue ops primary (if silu then siluNodes tensor else []) idx =
      if silu then ops.multiply (primary idx) (ops.sigmoid (primary idx)) else primary idx := by
  cases silu <;> rfl

theorem view_stridedInfo {sizes strides : List Nat} {dtype : DmlDataType} {bytes : Nat}
    (hne : strides ≠ []) :
    (stridedInfo sizes strides dtype bytes).view = List.zipWith Dim.mk sizes strides := by
  simp [DmlTensorInfo.view, stridedInfo, hne]

theorem offset_parameter (b g k j : Nat) (dtype : DmlDataType) (bytes : Nat) :
    (stridedInfo (viewSizes n) [0, n.perGroup, 1, 0] dtype bytes).offset [b, g, k, j] =
      n.perGroup * g + k := by
  rw [DmlTensorInfo.offset, view_stridedInfo (by simp)]
  simp [viewSizes, address]

theorem offset_packed (b g k j : Nat) (dtype : DmlDataType) :
    (makeTensorInfo (viewSizes n) dtype).offset [b, g, k, j] =
      rowMajor (viewSizes n) [b, g, k, j] := by
  rw [DmlTensorInfo.offset, BroadcastingLemmas.view_makeTensorInfo, address_packed]
  rfl

theorem offset_last (b g k j : Nat) (dtype : DmlDataType) (bytes : Nat) :
    (stridedInfo (viewSizes n) (lastStrides n) dtype bytes).offset [b, g, k, j] =
      n.height * n.width % 2 ^ 32 * n.channels % 2 ^ 32 * b + n.perGroup * g + k +
        n.channels * j := by
  rw [DmlTensorInfo.offset, view_stridedInfo (by simp [lastStrides])]
  simp [viewSizes, lastStrides, address]
  ring

/-- The description of the input. -/
def inputInfo (n : GroupNormShape) (channelsLast : Bool) (dtype : DmlDataType) (bytes : Nat) :
    DmlTensorInfo :=
  if channelsLast then stridedInfo (viewSizes n) (lastStrides n) dtype bytes
  else makeTensorInfo (viewSizes n) dtype

theorem sizes_inputInfo (dtype : DmlDataType) (bytes : Nat) :
    (inputInfo n channelsLast dtype bytes).sizes = viewSizes n := by
  cases channelsLast <;> rfl

/-- Every element of the view is read and written in the place that the layout gives it. -/
def Placed (n : GroupNormShape) (channelsLast : Bool) : Prop :=
  ∀ dtype bytes, ∀ b g k, g < n.groups → k < n.perGroup → ∀ h < n.height, ∀ w < n.width,
    (inputInfo n channelsLast dtype bytes).offset [b, g, k, h * n.width + w] =
        n.place channelsLast b h w (g * n.perGroup + k) ∧
      rowMajor (viewSizes n) [b, g, k, h * n.width + w] =
        n.place channelsLast b h w (g * n.perGroup + k)

/-- The values of a plane of the view are those of a group. -/
theorem planeValues_eq (hfits : n.height * n.width < 2 ^ 32) (hplaced : Placed n channelsLast)
    {V : Type} (x : Nat → V) (dtype : DmlDataType) (bytes b g : Nat) (hg : g < n.groups) :
    planeValues (inputInfo n channelsLast dtype bytes) x b [g] =
      n.groupValues channelsLast x b g := by
  have hk : (inputInfo n channelsLast dtype bytes).sizes.getD 2 0 = n.perGroup := by
    rw [sizes_inputInfo]
    rfl
  have hj : (inputInfo n channelsLast dtype bytes).sizes.getD 3 0 = n.height * n.width := by
    rw [sizes_inputInfo]
    exact Nat.mod_eq_of_lt hfits
  unfold planeValues GroupNormShape.groupValues
  rw [List.flatMap_singleton, hk, hj]
  congr 1
  refine List.flatMap_congr fun k hk => ?_
  rw [map_range_mul]
  refine List.flatMap_congr fun i hi => List.map_congr_left fun j hj => ?_
  rw [(hplaced dtype bytes b g k hg (List.mem_range.1 hk) i (List.mem_range.1 hi) j
    (List.mem_range.1 hj)).1]

/-- Then the result is the group normalization. -/
theorem normalizes_of_placed (h : GroupNormNode node shapes n channelsLast silu epsilon)
    (hfits : n.height * n.width < 2 ^ 32) (hplaced : Placed n channelsLast) :
    Normalizes node shapes initializers n channelsLast silu epsilon := by
  obtain ⟨dtype, bytes, gammaInfo, betaInfo, outSizes, ht⟩ :=
    translateGroupNorm_eq initializers h
  refine ⟨_, ht, fun V ops x gamma beta out hcomputes => ?_⟩
  intro b hb i hi j hj c hc
  have hperGroup := perGroup_pos n
  have hc' : c < n.groups * n.perGroup := groups_mul n ▸ hc
  have hg : c / n.perGroup < n.groups := Nat.div_lt_of_lt_mul (Nat.mul_comm _ _ ▸ hc')
  have hk : c % n.perGroup < n.perGroup := Nat.mod_lt _ hperGroup
  have hsplit : c / n.perGroup * n.perGroup + c % n.perGroup = c := Nat.div_add_mod' c n.perGroup
  have hrow : i * n.width + j < n.height * n.width := by
    calc i * n.width + j < (i + 1) * n.width := by rw [Nat.succ_mul]; omega
      _ ≤ n.height * n.width := Nat.mul_le_mul_right _ hi
  have hin : InBounds [b, c / n.perGroup, c % n.perGroup, i * n.width + j] (viewSizes n) := by
    refine .cons hb (.cons hg (.cons hk (.cons ?_ .nil)))
    rwa [Nat.mod_eq_of_lt hfits]
  have hout := hcomputes _ _ _ rfl _ hin
  obtain ⟨hread, hwrite⟩ := hplaced dtype bytes b (c / n.perGroup) (c % n.perGroup) hg hk i hi j hj
  rw [offset_packed, hwrite, hsplit, lastValue_eq] at hout
  rw [hsplit] at hread
  have hvalue : meanVariance ops epsilon false
      [inputInfo n channelsLast dtype bytes,
        stridedInfo (viewSizes n) [0, n.perGroup, 1, 0] gammaInfo.dataType gammaInfo.totalBytes,
        stridedInfo (viewSizes n) [0, n.perGroup, 1, 0] betaInfo.dataType betaInfo.totalBytes]
      x gamma beta [b, c / n.perGroup, c % n.perGroup, i * n.width + j] =
        ops.normalize epsilon (n.groupValues channelsLast x b (c / n.perGroup))
          (x (n.place channelsLast b i j c)) (gamma c) (beta c) := by
    have hgroup := planeValues_eq hfits hplaced x dtype bytes b _ hg
    simp only [meanVariance, List.getD_cons_zero, List.getD_cons_succ, Bool.false_eq_true, if_false,
      hgroup, hread, offset_parameter, Nat.mul_comm n.perGroup, hsplit]
  rw [hout]
  unfold GroupNormShape.value
  rw [← hvalue]
  rfl

theorem place_false (n : GroupNormShape) (b i j c : Nat) :
    n.place false b i j c =
      n.channels * (n.height * n.width) * b + n.height * n.width * c + n.width * i + j := by
  simp [GroupNormShape.place, GroupNormShape.sizes, rowMajor]
  ring

theorem place_true (n : GroupNormShape) (b i j c : Nat) :
    n.place true b i j c =
      n.channels * (n.height * n.width) * b + n.channels * (n.width * i + j) + c := by
  simp [GroupNormShape.place, GroupNormShape.sizes, rowMajor]
  ring

theorem rowMajor_view (hfits : n.height * n.width < 2 ^ 32) (b g k j : Nat) :
    rowMajor (viewSizes n) [b, g, k, j] =
      n.channels * (n.height * n.width) * b + n.height * n.width * (g * n.perGroup + k) + j := by
  simp only [viewSizes, rowMajor, List.prod_cons, List.prod_nil, Nat.mod_eq_of_lt hfits,
    ← groups_mul n]
  ring

/-- Channels that come first are read and written in their places. -/
theorem placed_first (hfits : n.height * n.width < 2 ^ 32) : Placed n false := by
  intro dtype bytes b g k _ _ i _ j _
  have hplace : rowMajor (viewSizes n) [b, g, k, i * n.width + j] =
      n.place false b i j (g * n.perGroup + k) := by
    rw [rowMajor_view hfits, place_false]
    ring
  refine ⟨?_, hplace⟩
  rw [← hplace]
  exact offset_packed b g k _ dtype

/-- Of one position, or one channel, the two layouts are one. -/
theorem placed_last (hfits : n.height * n.width < 2 ^ 32)
    (hone : n.height * n.width = 1 ∨ n.channels = 1) : Placed n true := by
  intro dtype bytes b g k hg hk i hi j hj
  have hread : (inputInfo n true dtype bytes).offset [b, g, k, i * n.width + j] =
      n.height * n.width % 2 ^ 32 * n.channels % 2 ^ 32 * b + n.perGroup * g + k +
        n.channels * (i * n.width + j) := offset_last b g k _ dtype bytes
  have hchannels : n.channels < 2 ^ 32 := n.fits.2.2.2
  have hc : g * n.perGroup + k < n.channels := by
    calc g * n.perGroup + k < (g + 1) * n.perGroup := by rw [Nat.succ_mul]; omega
      _ ≤ n.groups * n.perGroup := Nat.mul_le_mul_right _ hg
      _ = n.channels := groups_mul n
  rw [hread, rowMajor_view hfits, place_true]
  rcases hone with hS | hC
  · have hH := Nat.eq_one_of_dvd_one (Dvd.intro _ hS)
    have hW := Nat.eq_one_of_dvd_one (Dvd.intro_left _ hS)
    obtain rfl : i = 0 := by omega
    obtain rfl : j = 0 := by omega
    rw [hS, Nat.mod_eq_of_lt (by norm_num : 1 < 2 ^ 32), Nat.one_mul, Nat.mod_eq_of_lt hchannels]
    constructor <;> ring
  · have hzero : g * n.perGroup + k = 0 := by omega
    have hg0 : n.perGroup * g = 0 := by rw [Nat.mul_comm]; omega
    have hk0 : k = 0 := by omega
    rw [hC, hzero, hg0, hk0, Nat.mul_one, Nat.mod_mod, Nat.mod_eq_of_lt hfits]
    constructor <;> ring

/-- With more positions than 32 bits count, the last element is not written. -/
theorem fits_of_normalizes (h : GroupNormNode node shapes n channelsLast silu epsilon)
    (hn : Normalizes node shapes initializers n channelsLast silu epsilon) :
    n.height * n.width < 2 ^ 32 := by
  by_contra hge
  obtain ⟨dtype, bytes, gammaInfo, betaInfo, outSizes, ht⟩ :=
    translateGroupNorm_eq initializers h
  obtain ⟨t, htranslated, hnormal⟩ := hn
  obtain rfl := Option.some.inj (ht.symm.trans htranslated)
  have hpos := n.positive
  -- nothing but zeros is computed, and beyond the view the buffer has ones
  let ops : NormOps Nat := ⟨fun _ _ _ _ _ => 0, fun _ => 0, fun _ _ => 0⟩
  let out : Nat → Nat := fun p => if p < (viewSizes n).prod then 0 else 1
  have hlast : out (n.place channelsLast (n.batch - 1) (n.height - 1) (n.width - 1)
      (n.channels - 1)) = 0 := by
    refine (hnormal Nat ops id id id out ?_ _ (by omega) _ (by omega) _ (by omega) _
      (by omega)).trans ?_
    · intro eps cross output hdesc idx hidx
      obtain ⟨-, -, rfl⟩ := GroupNormDesc.meanVariance.inj hdesc
      have hlt := rowMajor_lt hidx
      rw [DmlTensorInfo.offset, BroadcastingLemmas.view_makeTensorInfo, address_packed,
        lastValue_eq]
      cases silu <;> exact if_pos hlt
    · unfold GroupNormShape.value
      cases silu <;> rfl
  have hplace : n.place channelsLast (n.batch - 1) (n.height - 1) (n.width - 1)
      (n.channels - 1) + 1 = n.batch * n.channels * (n.height * n.width) := by
    have hsizes : ∀ d ∈ n.sizes channelsLast, 0 < d := by
      cases channelsLast <;> simp [GroupNormShape.sizes, hpos]
    have hall := rowMajor_last hsizes
    cases channelsLast
    · refine hall.trans ?_
      simp [GroupNormShape.sizes]
      ring
    · refine hall.trans ?_
      simp [GroupNormShape.sizes]
      ring
  have hview : (viewSizes n).prod = n.batch * n.channels * (n.height * n.width % 2 ^ 32) := by
    simp only [viewSizes, List.prod_cons, List.prod_nil, ← groups_mul n]
    ring
  have hshorter : (viewSizes n).prod < n.batch * n.channels * (n.height * n.width) := by
    rw [hview]
    have hmod : n.height * n.width % 2 ^ 32 < n.height * n.width := by
      have hlt := Nat.mod_lt (n.height * n.width) (show 2 ^ 32 > 0 by norm_num)
      omega
    exact Nat.mul_lt_mul_of_pos_left hmod (Nat.mul_pos hpos.1 hpos.2.2.2)
  simp only [out] at hlast
  rw [if_neg (by omega)] at hlast
  cases hlast

/-- With two channels and two positions, the second element is the first of the second position. -/
theorem one_of_normalizes (h : GroupNormNode node shapes n true silu epsilon)
    (hfits : n.height * n.width < 2 ^ 32)
    (hn : Normalizes node shapes initializers n true silu epsilon) :
    n.height * n.width = 1 ∨ n.channels = 1 := by
  by_contra hmany
  obtain ⟨hS, hC⟩ := not_or.1 hmany
  obtain ⟨dtype, bytes, gammaInfo, betaInfo, outSizes, ht⟩ :=
    translateGroupNorm_eq initializers h
  obtain ⟨t, htranslated, hnormal⟩ := hn
  obtain rfl := Option.some.inj (ht.symm.trans htranslated)
  have hpos := n.positive
  have hSpos : 0 < n.height * n.width := Nat.mul_pos hpos.2.1 hpos.2.2.1
  -- every element is normalized to itself, and the input numbers its places
  let ops : NormOps Nat := ⟨fun _ _ v _ _ => v, id, fun v _ => v⟩
  have hself : ∀ v, (if silu then ops.multiply v (ops.sigmoid v) else v) = v := by
    intro v
    cases silu <;> rfl
  obtain ⟨out, hout⟩ := exists_buffer (viewSizes n) fun idx =>
    (inputInfo n true dtype bytes).offset idx
  have hsecond : out (n.place true 0 0 0 1) = n.place true 0 0 0 1 := by
    refine (hnormal Nat ops id id id out ?_ 0 hpos.1 0 hpos.2.1 0 hpos.2.2.1 1 (by omega)).trans ?_
    · intro eps cross output hdesc idx hidx
      obtain ⟨-, -, rfl⟩ := GroupNormDesc.meanVariance.inj hdesc
      rw [DmlTensorInfo.offset, BroadcastingLemmas.view_makeTensorInfo, address_packed,
        lastValue_eq, hself]
      exact hout idx hidx
    · exact hself _
  have hplace : n.place true 0 0 0 1 = 1 := by
    rw [place_true]
    ring
  have hin : InBounds [0, 0, 0, 1] (viewSizes n) := by
    refine .cons hpos.1 (.cons (groups_pos n) (.cons (perGroup_pos n) (.cons ?_ .nil)))
    rw [Nat.mod_eq_of_lt hfits]
    omega
  have hread := hout _ hin
  have hfirst : rowMajor (viewSizes n) [0, 0, 0, 1] = 1 := by
    rw [rowMajor_view hfits]
    ring
  have hoffset : (inputInfo n true dtype bytes).offset [0, 0, 0, 1] = n.channels := by
    refine (offset_last 0 0 0 1 dtype bytes).trans ?_
    ring
  rw [hfirst, hoffset] at hread
  rw [hplace, hread] at hsecond
  exact hC hsecond

end

end GroupNormLemmas

open GroupNormLemmas

/-- Channels that come first are normalized in place. With the channels last the input is read by
strides, but the output is written with the channels first, so one of the two must be alone. -/
theorem groupNorm_iff {node : Node} {shapes : ValueShapes}
    {initializers : String → Option Initializer} {n : GroupNormShape} {channelsLast silu : Bool}
    {epsilon : UInt32} (h : GroupNormNode node shapes n channelsLast silu epsilon) :
    Normalizes node shapes initializers n channelsLast silu epsilon ↔
      n.height * n.width < 2 ^ 32 ∧
        (channelsLast = true → n.height * n.width = 1 ∨ n.channels = 1) := by
  constructor
  · intro hn
    have hfits := fits_of_normalizes h hn
    refine ⟨hfits, fun hlast => ?_⟩
    subst hlast
    exact one_of_normalizes h hfits hn
  · rintro ⟨hfits, hone⟩
    refine normalizes_of_placed h hfits ?_
    cases channelsLast with
    | false => exact placed_first hfits
    | true => exact placed_last hfits (hone rfl)

/-! ## An image of two positions -/

/-- An image of two positions in two channels, which are one group. -/
def smallShape : GroupNormShape where
  batch := 1
  height := 1
  width := 2
  channels := 2
  groups := 1
  positive := by decide
  divides := by decide
  fits := by decide

/-- `y` is the group normalization of `x`. -/
def smallGroupNorm (channelsLast : Int) : Node :=
  { id := 0, opType := "GroupNorm", inputs := [some "x", some "gamma", some "beta"],
    outputs := [some "y"],
    attributes := [("groups", .int 1), ("channels_last", .int channelsLast)] }

/-- ORT knows the shapes. -/
def smallShapes (channelsLast : Bool) : ValueShapes := fun name =>
  if name = "x" ∨ name = "y" then
    some { makeTensorInfo (smallShape.sizes channelsLast) .float32 with originalRank := 4 }
  else if name = "gamma" ∨ name = "beta" then
    some { makeTensorInfo [2] .float32 with originalRank := 1 }
  else none

theorem smallGroupNorm_node (channelsLast : Bool) :
    GroupNormNode (smallGroupNorm (if channelsLast then 1 else 0)) (smallShapes channelsLast)
      smallShape channelsLast false 0x3727C5AC where
  inputs := ⟨"x", "gamma", "beta", [], _, rfl, rfl, by cases channelsLast <;> rfl, rfl, rfl⟩
  output := ⟨"y", [], rfl, rfl⟩
  groups := by cases channelsLast <;> rfl
  layout := by cases channelsLast <;> rfl
  activation := by cases channelsLast <;> rfl
  epsilon := by cases channelsLast <;> rfl

/-- With the channels last, the values of the two positions are written behind each other for each
channel: the second place has the first channel of the second position. -/
theorem channelsLast_transposed :
    GroupNormNode (smallGroupNorm 1) (smallShapes true) smallShape true false 0x3727C5AC ∧
      (∃ t input,
        translateGroupNorm (smallGroupNorm 1) (smallShapes true) (fun _ => none) = some t ∧
          t.inputTensors.head? = some input ∧ input.offset [0, 0, 0, 1] = 2 ∧
            (makeTensorInfo input.sizes .float32).offset [0, 0, 0, 1] = 1) ∧
        ¬ Normalizes (smallGroupNorm 1) (smallShapes true) (fun _ => none) smallShape true false
          0x3727C5AC := by
  have hnode := smallGroupNorm_node true
  refine ⟨hnode, ⟨_, _, rfl, rfl, by decide, by decide⟩, fun hn => ?_⟩
  have hone := one_of_normalizes hnode (by decide) hn
  exact absurd hone (by decide)

/-- With the channels first they are in place. -/
theorem channelsFirst_normalized :
    Normalizes (smallGroupNorm 0) (smallShapes false) (fun _ => none) smallShape false false
      0x3727C5AC :=
  (groupNorm_iff (smallGroupNorm_node false)).2 ⟨by decide, by decide⟩

end AmdGpuEp.DirectML
