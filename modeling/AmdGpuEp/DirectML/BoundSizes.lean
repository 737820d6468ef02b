import AmdGpuEp.DirectML.SubgraphShapes
import AmdGpuEp.Lib.Wrapped
import Mathlib.Algebra.BigOperators.Ring.List

/-!
# The bytes that a DML graph is bound with

`Compile` takes the byte sizes of boundary tensors, initializers and inlined
constants from `value_shapes`, where they were computed for the DML element type
and dimensions of at least 1. Behind each of them is a tensor of ORT.

Results:
1. `boundBytes_of_known`: the size of a tensor that ORT knows the shape of.
2. `seedFits_iff_total`: when that is within the tensor of ORT.
3. `sizesAgree_iff`: when all bindings and copies are.
4. `halfScale_overread`: a half-precision constant is copied with two bytes more
   than it has.
-/

namespace AmdGpuEp.DirectML

/-! ## Tensors of ORT -/

/-- The bytes of an element. The types that DML has no counterpart for are not bound. -/
def OnnxDataType.size : OnnxDataType → Nat
  | .double | .int64 | .uint64 => 8
  | .float | .int32 | .uint32 => 4
  | .float16 | .int16 | .uint16 => 2
  | .int8 | .uint8 | .bool => 1
  | .other _ => 0

/-- The type of a tensor at run time. -/
structure TensorDesc where
  elemType : OnnxDataType
  dims : List Nat
  deriving DecidableEq, Repr

namespace TensorDesc

def bytes (d : TensorDesc) : Nat :=
  d.dims.prod * d.elemType.size

/-- What `value_shapes` holds when it is seeded from this type. -/
def record (d : TensorDesc) : DmlTensorInfo :=
  seedInfo d.elemType (d.dims.map Int.ofNat)

/-- The elements that DML is told of: a dimension 0 counts as 1. -/
def elements (d : TensorDesc) : Nat :=
  (d.dims.map (max 1)).prod

/-- The sizes are computed without a wrap. -/
def Small (d : TensorDesc) : Prop :=
  (∀ n ∈ d.dims, n < 2 ^ 32) ∧ d.elements * 8 + 3 < 2 ^ 64

instance (d : TensorDesc) : Decidable d.Small :=
  inferInstanceAs (Decidable (_ ∧ _))

end TensorDesc

/-- Rounded up to 4 bytes. -/
def roundUp4 (bytes : Nat) : Nat :=
  (bytes + 3) / 4 * 4

/-! ## The bindings of a compiled group -/

/-- `BuildSubgraphInfo`. An initializer that is not allocated has no data to read. The names of
initializers are distinct. -/
def SubgraphView.info (view : SubgraphView) (resolved : ResolvedShapes) : SubgraphInfo where
  graphInputs := view.graphInputs.map Prod.fst
  graphOutputs := view.graphOutputs.map Prod.fst
  valueShapes := buildValueShapes view resolved
  allInitializers := fun name =>
    (view.initializers.lookup name).map fun value =>
      match value with
      | some tensor =>
        { dataType := onnxDtypeToDml tensor.elemType, dims := tensor.dims,
          bytes := some tensor.data }
      | none => { dataType := .unknown, dims := [], bytes := none }

section

variable {D : Type} (t : Translation D) (sg : SubgraphInfo)

/-- `total_bytes` of a name, 0 when it has no record. -/
def boundBytes (name : String) : Nat :=
  ((t.valueShapes name).map DmlTensorInfo.totalBytes).getD 0

/-- Step 5: the slot of a kept node reads a large initializer. -/
def ownedSlot (i : Nat) (cn : CompiledNode D) (s : Nat) : Bool :=
  let nameIdx :=
    if cn.translated.inputNameReorder.isEmpty then some s else cn.translated.inputNameReorder[s]?
  match nameIdx.bind fun k => cn.inputNames[k]? with
  | none => false
  | some name =>
    let resolved := (t.resolve name).getD name
    let isInitializer := fun name => (sg.allInitializers name).isSome
    (t.liveNodes sg).contains i && (isInitializer name || isInitializer resolved) &&
      decide (maxConstNodeDataSize ≤
        boundBytes t (if isInitializer resolved then resolved else name))

/-- `owned_graph_input_indices`. The source looks the flagged slot up among the ONNX inputs, without
`input_name_reorder`. -/
def ownedIndices (im : DmlInputMap) : List Nat :=
  t.compiledNodes.zipIdx.flatMap fun entry =>
    let cn := entry.1
    (List.range (min cn.inputNames.length cn.translated.inputTensors.length)).filterMap fun s =>
      if ownedSlot t sg entry.2 cn s then
        (cn.inputNames[s]?).bind fun name =>
          (t.resolve name).bind fun resolved => im.dmlInputMap.lookup resolved
      else none

structure SizeBinding where
  name : String
  bytes : Nat
  deriving DecidableEq, Repr

/-- The runtime inputs that `FullGraph_Compute` binds: not the owned ones, and not those without an
edge. -/
def inputBindings (im : DmlInputMap) (inputEdges : List InputEdge) : List SizeBinding :=
  (sg.graphInputs.zip im.subgraphToDmlInput).filterMap fun entry =>
    entry.2.bind fun idx =>
      if (ownedIndices t sg im).contains idx ||
          !(inputEdges.map InputEdge.graphInput).contains idx then none
      else some ⟨entry.1, boundBytes t entry.1⟩

/-- `UploadInitializers`: the owned inputs whose data can be read, among the graph inputs and the
inputs behind them. -/
def initializerBindings (im : DmlInputMap) : List SizeBinding :=
  let listed := (sg.graphInputs.zip im.subgraphToDmlInput).filterMap fun entry =>
    entry.2.map fun idx => (entry.1, idx)
  let added := im.orderedInitializerNames.filterMap fun name =>
    (im.dmlInputMap.lookup name).map fun idx => (name, idx)
  (listed ++ added).filterMap fun entry =>
    if entry.1 ≠ "" ∧ (ownedIndices t sg im).contains entry.2 ∧
        ((sg.allInitializers entry.1).bind Initializer.bytes).isSome ∧ boundBytes t entry.1 ≠ 0 then
      some ⟨entry.1, boundBytes t entry.1⟩
    else none

structure OutputBinding extends SizeBinding where
  dims : List Nat
  deriving DecidableEq, Repr

/-- An output of the kernel: the dimensions that it is allocated with, and the size it is bound
with. The rank comes from ORT; rank 0 and no shape are one. -/
def outputBinding (port : Port) : OutputBinding :=
  match t.valueShapes port.1 with
  | none => { name := port.1, bytes := 0, dims := [] }
  | some info =>
    let rank := ((port.2.bind TensorType.dims).map List.length).getD 0
    let rank := if rank = 0 then info.sizes.length else rank
    { name := port.1
      bytes := info.totalBytes
      dims := info.sizes.drop (info.sizes.length - rank) }

end

/-! ## What ORT knows of the tensors -/

/-- What the view says of a port is true. -/
def PortTrue (tensors : String → TensorDesc) (port : Port) : Prop :=
  ∀ type ∈ port.2, type.elemType = (tensors port.1).elemType ∧
    ∀ dims ∈ type.dims, dims.length = (tensors port.1).dims.length ∧
      (dims.all (0 < ·) → dims = (tensors port.1).dims.map Int.ofNat)

/-- The tensors behind the names of a group that is admitted to Tier-0: inputs have a static shape,
element types have a counterpart in DML, and ORT says nothing wrong. -/
structure SubgraphView.Describes (view : SubgraphView) (tensors : String → TensorDesc) : Prop where
  supported : ∀ name, onnxDtypeToDml (tensors name).elemType ≠ .unknown
  inputs : ∀ port ∈ view.graphInputs, port.1 ≠ "" →
    port.2 = some ⟨(tensors port.1).elemType, some ((tensors port.1).dims.map Int.ofNat)⟩
  outputs : ∀ port ∈ view.graphOutputs, PortTrue tensors port
  ports : ∀ port ∈ view.outputPorts ++ view.inputPorts, PortTrue tensors port
  initializers : ∀ init ∈ view.initializers, ∀ value ∈ init.2,
    value.elemType = (tensors init.1).elemType ∧ value.dims = (tensors init.1).dims ∧
      value.data.length = (tensors init.1).bytes

/-- ORT knows the shape of the value: it is an input, an allocated initializer, or a port with
positive dimensions. -/
def SubgraphView.Knows (view : SubgraphView) (name : String) : Prop :=
  (∃ value, (name, some value) ∈ view.initializers) ∨
    name ≠ "" ∧ ((∃ type, (name, type) ∈ view.graphInputs) ∨
      ∃ port ∈ view.outputPorts ++ view.inputPorts, port.1 = name ∧
        ∃ type ∈ port.2, ∃ dims ∈ type.dims, dims.all (0 < ·))

/-! ## Agreement -/

section

variable {D : Type}

/-- No binding is larger than the tensor behind it, rounded up, and no copy reads beyond it. -/
structure SizesAgree (view : SubgraphView) (tensors : String → TensorDesc) (t : Translation D)
    (sg : SubgraphInfo) (desc : DmlGraphDesc D) : Prop where
  inputs : ∀ b ∈ inputBindings t sg (compileInputMap t sg) desc.inputEdges,
    b.bytes ≤ roundUp4 (tensors b.name).bytes
  initializers : ∀ b ∈ initializerBindings t sg (compileInputMap t sg),
    b.bytes ≤ roundUp4 (tensors b.name).bytes
  outputs : ∀ port ∈ view.graphOutputs, (outputBinding t port).bytes ≤
    roundUp4 ((outputBinding t port).dims.prod * (tensors port.1).elemType.size)
  constants : ∀ c ∈ (compileInputMap t sg).constantNodes, boundBytes t c.1 ≤ (tensors c.1).bytes

/-- A tensor has an element, and one only if it is boolean. Where the sizes wrap, what they wrap to
has to be small enough. -/
def SeedFits (d : TensorDesc) : Prop :=
  if d.Small then 0 ∉ d.dims ∧ (d.elemType = .bool → d.dims.prod = 1)
  else d.record.totalBytes ≤ roundUp4 d.bytes

/-- The same for an output, which is allocated with dimensions of at least 1. -/
def OutputFits (d : TensorDesc) : Prop :=
  if d.Small then d.elemType = .bool → d.elements = 1
  else d.record.totalBytes ≤ roundUp4 (d.record.sizes.prod * d.elemType.size)

/-- The exact condition. A constant needs 4 bytes; an output without a shape from ORT has a record
that a translator or an earlier group has made. -/
structure SizesFit (view : SubgraphView) (tensors : String → TensorDesc) (t : Translation D)
    (sg : SubgraphInfo) (desc : DmlGraphDesc D) : Prop where
  inputs : ∀ b ∈ inputBindings t sg (compileInputMap t sg) desc.inputEdges,
    SeedFits (tensors b.name)
  initializers : ∀ b ∈ initializerBindings t sg (compileInputMap t sg), SeedFits (tensors b.name)
  outputs : ∀ port ∈ view.graphOutputs, view.Knows port.1 → OutputFits (tensors port.1)
  unknownOutputs : ∀ port ∈ view.graphOutputs, ¬ view.Knows port.1 →
    (outputBinding t port).bytes ≤
      roundUp4 ((outputBinding t port).dims.prod * (tensors port.1).elemType.size)
  constants : ∀ c ∈ (compileInputMap t sg).constantNodes, 4 ≤ (tensors c.1).bytes

end

namespace BoundSizesLemmas

open SubgraphShapesLemmas ShapeRecords

/-! ## The size of a seeded record -/

theorem prod_padToMinDims (sizes : List Nat) (n : Nat) :
    (padToMinDims sizes n).prod = sizes.prod := by
  simp [padToMinDims]

/-- Without a wrap, the total size is that of the elements, 4 bytes at least. -/
theorem alignedBytes_of_small {sizes : List Nat} {dtype : DmlDataType} (hsize : dtype.size ≠ 0)
    (hsmall : sizes.prod * dtype.size + 3 < 2 ^ 64) :
    computeAlignedTotalBytes sizes dtype = roundUp4 (max (sizes.prod * dtype.size) 4) := by
  have hpos : 1 ≤ dtype.size := Nat.one_le_iff_ne_zero.2 hsize
  have hprod : sizes.prod < 2 ^ 64 := by
    have hle := Nat.le_mul_of_pos_right sizes.prod hpos
    omega
  have hcount : sizes.foldl (fun count s => count * s % 2 ^ 64) 1 = sizes.prod :=
    foldl_mul_of_lt (by decide) hprod
  unfold computeAlignedTotalBytes roundUp4
  rw [if_neg hsize, hcount]
  dsimp only
  rw [Nat.mod_eq_of_lt (Nat.lt_of_le_of_lt (Nat.le_add_right _ 3) hsmall),
    Nat.mod_eq_of_lt (by omega)]

theorem size_le (dtype : DmlDataType) : dtype.size ≤ 8 := by
  cases dtype <;> decide

theorem size_of_supported {elemType : OnnxDataType} (h : onnxDtypeToDml elemType ≠ .unknown) :
    (onnxDtypeToDml elemType).size ≠ 0 := by
  cases elemType with
  | other code => exact absurd rfl h
  | _ => decide

/-- DML and ORT agree on the size of an element, but for booleans. -/
theorem size_eq {elemType : OnnxDataType} (h : elemType ≠ .bool) :
    (onnxDtypeToDml elemType).size = elemType.size := by
  cases elemType with
  | bool => exact absurd rfl h
  | _ => rfl

variable {d : TensorDesc}

theorem record_sizes (d : TensorDesc) :
    d.record.sizes = padToMinDims ((d.dims.map Int.ofNat).map seedSize) 4 := rfl

theorem prod_record_sizes (hsmall : d.Small) : d.record.sizes.prod = d.elements := by
  rw [record_sizes, prod_padToMinDims, List.map_map]
  unfold TensorDesc.elements
  congr 1
  refine List.map_congr_left fun n hn => ?_
  have hlt := hsmall.1 n hn
  show (if 0 < (n : Int) then ((n : Int) % 2 ^ 32).toNat else 1) = max 1 n
  split <;> omega

theorem totalBytes_of_small (hd : onnxDtypeToDml d.elemType ≠ .unknown) (hsmall : d.Small) :
    d.record.totalBytes =
      roundUp4 (max (d.elements * (onnxDtypeToDml d.elemType).size) 4) := by
  have hle : d.elements * (onnxDtypeToDml d.elemType).size ≤ d.elements * 8 :=
    Nat.mul_le_mul_left _ (size_le _)
  have hlt := hsmall.2
  rw [← prod_record_sizes hsmall] at hle hlt ⊢
  show computeAlignedTotalBytes d.record.sizes (onnxDtypeToDml d.elemType) = _
  exact alignedBytes_of_small (size_of_supported hd)
    (Nat.lt_of_le_of_lt (Nat.add_le_add_right hle 3) hlt)

theorem elements_pos (d : TensorDesc) : 0 < d.elements := by
  refine Nat.pos_of_ne_zero (List.prod_ne_zero fun hzero => ?_)
  obtain ⟨n, -, hn⟩ := List.mem_map.1 hzero
  omega

theorem elements_eq (h : 0 ∉ d.dims) : d.elements = d.dims.prod := by
  unfold TensorDesc.elements
  congr 1
  refine (List.map_congr_left fun n hn => ?_).trans (List.map_id _)
  have hne : n ≠ 0 := fun heq => h (heq ▸ hn)
  show max 1 n = n
  omega

/-- A record for `n` elements is within `n` elements of ORT, rounded up, but for two booleans and
more. -/
theorem roundUp4_le_iff {elemType : OnnxDataType} (he : onnxDtypeToDml elemType ≠ .unknown) {n : Nat}
    (hn : 0 < n) :
    roundUp4 (max (n * (onnxDtypeToDml elemType).size) 4) ≤ roundUp4 (n * elemType.size) ↔
      (elemType = .bool → n = 1) := by
  by_cases hbool : elemType = .bool
  · subst hbool
    show roundUp4 (max (n * 4) 4) ≤ roundUp4 (n * 1) ↔ _
    unfold roundUp4
    simp only [forall_const]
    omega
  · rw [size_eq hbool]
    have hsize : 0 < elemType.size := size_eq hbool ▸ Nat.pos_of_ne_zero (size_of_supported he)
    have hpos : 0 < n * elemType.size := Nat.mul_pos hn hsize
    refine iff_of_true ?_ fun h => absurd h hbool
    unfold roundUp4
    omega

theorem seedFits_iff_total (hd : onnxDtypeToDml d.elemType ≠ .unknown) :
    d.record.totalBytes ≤ roundUp4 d.bytes ↔ SeedFits d := by
  unfold SeedFits
  split
  · next hsmall =>
    rw [totalBytes_of_small hd hsmall]
    by_cases hzero : 0 ∈ d.dims
    · have hbytes : d.bytes = 0 := by
        unfold TensorDesc.bytes
        rw [List.prod_eq_zero hzero, Nat.zero_mul]
      refine iff_of_false ?_ fun h => h.1 hzero
      rw [hbytes]
      unfold roundUp4
      omega
    · unfold TensorDesc.bytes
      rw [← elements_eq hzero, roundUp4_le_iff hd (elements_pos d)]
      exact (and_iff_right hzero).symm
  · exact Iff.rfl

theorem outputFits_iff_total (hd : onnxDtypeToDml d.elemType ≠ .unknown) :
    d.record.totalBytes ≤ roundUp4 (d.record.sizes.prod * d.elemType.size) ↔ OutputFits d := by
  unfold OutputFits
  split
  · next hsmall =>
    rw [totalBytes_of_small hd hsmall, prod_record_sizes hsmall]
    exact roundUp4_le_iff hd (elements_pos d)
  · exact Iff.rfl

/-! ## The records of known names -/

theorem foldl_keeps {S X : Type} {f : S → X → S} {P : S → Prop} {xs : List X}
    (hkeep : ∀ s, ∀ x ∈ xs, P s → P (f s x)) {s : S} (hs : P s) : P (xs.foldl f s) := by
  induction xs generalizing s with
  | nil => exact hs
  | cons x xs ih =>
    exact ih (fun s y hy => hkeep s y (List.mem_cons_of_mem _ hy))
      (hkeep s x List.mem_cons_self hs)

theorem foldl_reaches {S X : Type} {f : S → X → S} {P : S → Prop} {xs : List X}
    (hkeep : ∀ s x, P s → P (f s x)) {x : X} (hx : x ∈ xs) (hreach : ∀ s, P (f s x)) {s : S} :
    P (xs.foldl f s) := by
  obtain ⟨front, back, rfl⟩ := List.append_of_mem hx
  rw [List.foldl_append, List.foldl_cons]
  exact foldl_keeps (fun s y _ => hkeep s y) (hreach _)

/-- Every record is that of the tensor behind its name. -/
def TrueRecords (tensors : String → TensorDesc) (shapes : ValueShapes) : Prop :=
  ∀ name info, shapes name = some info → info = (tensors name).record

variable {tensors : String → TensorDesc}

theorem seed_true {shapes : ValueShapes} (h : TrueRecords tensors shapes) (overwrite : Bool)
    {name : String} {source : Option (OnnxDataType × List Int)}
    (hsource : ∀ e dims, source = some (e, dims) → seedInfo e dims = (tensors name).record) :
    TrueRecords tensors (seed overwrite shapes name source) := by
  unfold seed
  cases source with
  | none => exact h
  | some source =>
    dsimp only
    split
    · exact h
    · intro name' info hinfo
      by_cases heq : name' = name
      · subst heq
        rw [Function.update_self] at hinfo
        cases hinfo
        exact hsource _ _ rfl
      · rw [Function.update_of_ne heq] at hinfo
        exact h name' info hinfo

theorem seed_isSome {shapes : ValueShapes} {name : String} (h : (shapes name).isSome)
    (overwrite : Bool) (name' : String) (source : Option (OnnxDataType × List Int)) :
    (seed overwrite shapes name' source name).isSome := by
  unfold seed
  split
  · exact h
  · split
    · exact h
    · by_cases heq : name = name'
      · rw [heq, Function.update_self]
        rfl
      · rwa [Function.update_of_ne heq]

theorem seed_self {shapes : ValueShapes} (overwrite : Bool) {name : String} {e : OnnxDataType}
    {dims : List Int} (he : onnxDtypeToDml e ≠ .unknown) :
    (seed overwrite shapes name (some (e, dims)) name).isSome := by
  unfold seed
  dsimp only
  split
  · next hskip => exact (hskip.resolve_left he).2
  · rw [Function.update_self]
    rfl

theorem seed_keeps {shapes : ValueShapes} {name : String} {info : DmlTensorInfo}
    (h : shapes name = some info) (name' : String)
    (source : Option (OnnxDataType × List Int)) :
    seed false shapes name' source name = some info := by
  unfold seed
  split
  · exact h
  · split
    · exact h
    · next hwrite =>
      have hne : name ≠ name' := by
        rintro rfl
        exact hwrite (Or.inr ⟨rfl, h ▸ rfl⟩)
      rwa [Function.update_of_ne hne]

theorem writeBack_keeps {shapes : ValueShapes} {name : String} {info : DmlTensorInfo}
    (h : shapes name = some info) (outputNames : List String) (tensors : List DmlTensorInfo) :
    writeBack shapes outputNames tensors name = some info := by
  refine foldl_keeps (P := fun shapes : ValueShapes => shapes name = some info)
    (fun shapes entry _ h => ?_) h
  cases hentry : shapes entry.1 with
  | some _ => simpa only [hentry] using h
  | none =>
    have hne : name ≠ entry.1 := by
      rintro rfl
      rw [h] at hentry
      cases hentry
    show Function.update shapes entry.1 (some entry.2) name = some info
    rwa [Function.update_of_ne hne]

section

variable {D : Type} {registry : OpTranslatorRegistry D} {view : SubgraphView}

/-- The shapes after the loops that look at ORT's types only. -/
def scannedShapes (view : SubgraphView) : ValueShapes :=
  let shapes := view.initializers.foldl
    (fun shapes init => seed false shapes init.1 (initializerSource init.2)) fun _ => none
  let shapes := view.graphInputs.foldl
    (fun shapes port => seed true shapes port.1 (graphInputSource port)) shapes
  (view.outputPorts ++ view.inputPorts).foldl
    (fun shapes port => seed false shapes port.1 (portSource port)) shapes

theorem scanned_true (h : view.Describes tensors) : TrueRecords tensors (scannedShapes view) := by
  unfold scannedShapes
  have hnone : TrueRecords tensors (fun _ => none) := by
    intro name info hinfo
    cases hinfo
  refine foldl_keeps (fun shapes port hport hs => ?_)
    (foldl_keeps (fun shapes port hport hs => ?_)
      (foldl_keeps (fun shapes init hinit hs => ?_) hnone))
  · -- a port: its dimensions are the true ones when they are positive
    refine seed_true hs false fun e dims hsource => ?_
    unfold portSource at hsource
    split at hsource
    · cases hsource
    · obtain ⟨type, htype, hdims⟩ := Option.bind_eq_some_iff.1 hsource
      obtain ⟨dims', hdims', heq⟩ := Option.map_eq_some_iff.1 hdims
      obtain ⟨hgiven, hpos⟩ := Option.filter_eq_some_iff.1 hdims'
      obtain ⟨helem, htrue⟩ := h.ports port hport type htype
      cases heq
      rw [helem, (htrue dims hgiven).2 hpos]
      rfl
  · refine seed_true hs true fun e dims hsource => ?_
    unfold graphInputSource at hsource
    split at hsource
    · cases hsource
    · next hname =>
      rw [h.inputs port hport hname] at hsource
      cases hsource
      rfl
  · refine seed_true hs false fun e dims hsource => ?_
    obtain ⟨value, hvalue, heq⟩ := Option.map_eq_some_iff.1 hsource
    obtain ⟨helem, hdims, -⟩ := h.initializers init hinit value hvalue
    cases heq
    rw [helem, hdims]
    rfl

theorem scanned_isSome (h : view.Describes tensors) {name : String} (hname : view.Knows name) :
    (scannedShapes view name).isSome := by
  unfold scannedShapes
  rcases hname with ⟨value, hinit⟩ | ⟨hne, ⟨type, hport⟩ | ⟨port, hport, rfl, type, htype, dims,
    hdims, hpos⟩⟩
  · refine foldl_keeps (P := fun shapes : ValueShapes => (shapes name).isSome)
      (fun shapes port _ hs => seed_isSome hs _ _ _) ?_
    refine foldl_keeps (P := fun shapes : ValueShapes => (shapes name).isSome)
      (fun shapes port _ hs => seed_isSome hs _ _ _) ?_
    refine foldl_reaches (P := fun shapes : ValueShapes => (shapes name).isSome)
      (fun shapes init hs => seed_isSome hs _ _ _) hinit fun shapes => ?_
    obtain ⟨helem, -⟩ := h.initializers _ hinit value rfl
    exact seed_self false (helem ▸ h.supported name)
  · refine foldl_keeps (P := fun shapes : ValueShapes => (shapes name).isSome)
      (fun shapes port _ hs => seed_isSome hs _ _ _) ?_
    refine foldl_reaches (P := fun shapes : ValueShapes => (shapes name).isSome)
      (fun shapes init hs => seed_isSome hs _ _ _) hport fun shapes => ?_
    have htype := h.inputs _ hport hne
    dsimp only at htype
    subst htype
    unfold graphInputSource
    rw [if_neg hne]
    exact seed_self true (h.supported name)
  · refine foldl_reaches (P := fun shapes : ValueShapes => (shapes port.1).isSome)
      (fun shapes init hs => seed_isSome hs _ _ _) hport fun shapes => ?_
    obtain ⟨helem, -⟩ := h.ports port hport type htype
    have hsource : portSource port = some (type.elemType, dims) := by
      unfold portSource
      rw [if_neg hne, Option.mem_def.1 htype, Option.bind_some, Option.mem_def.1 hdims,
        Option.filter_some, if_pos hpos, Option.map_some]
    rw [hsource]
    exact seed_self false (helem ▸ h.supported port.1)

theorem buildValueShapes_of_known (h : view.Describes tensors) (resolved : ResolvedShapes)
    {name : String} (hname : view.Knows name) :
    buildValueShapes view resolved name = some (tensors name).record := by
  have hscanned : scannedShapes view name = some (tensors name).record := by
    obtain ⟨info, hinfo⟩ := Option.isSome_iff_exists.1 (scanned_isSome h hname)
    rw [hinfo, scanned_true h name info hinfo]
  unfold scannedShapes at hscanned
  rw [List.foldl_append] at hscanned
  iterate 3
    refine foldl_keeps (P := fun shapes : ValueShapes => shapes name = some _)
      (fun shapes port _ hs => seed_keeps hs _ _) ?_
  exact hscanned

/-- The record of a value that ORT knows is that of its type, at any time. -/
theorem record_of_known {resolved : ResolvedShapes} {nodes : List Node} {t : Translation D}
    (h : view.Describes tensors) (ht : translateNodes registry (view.info resolved) nodes = some t)
    {name : String} (hname : view.Knows name) :
    t.valueShapes name = some (tensors name).record := by
  obtain ⟨steps, hsteps, hrun⟩ := translateNodes_run ht resolved
  have hstart : (view.info resolved).valueShapes name = some (tensors name).record :=
    buildValueShapes_of_known h resolved hname
  have hkeep : ∀ s : ShapeRecords, ∀ c ∈ steps,
      s.valueShapes name = some (tensors name).record →
      (s.step c).valueShapes name = some (tensors name).record := by
    intro s c hc hs
    obtain ⟨out, tensor, rfl, -⟩ := hsteps c hc
    exact writeBack_keeps hs [out] [tensor]
  have hend := foldl_keeps hkeep (s := ⟨(view.info resolved).valueShapes, resolved⟩) hstart
  rw [← ShapeRecords.run, hrun] at hend
  exact hend

variable {resolved : ResolvedShapes} {nodes : List Node} {t : Translation D}

theorem boundBytes_of_known (h : view.Describes tensors)
    (ht : translateNodes registry (view.info resolved) nodes = some t) {name : String}
    (hname : view.Knows name) : boundBytes t name = (tensors name).record.totalBytes := by
  unfold boundBytes
  rw [record_of_known h ht hname]
  rfl

/-! ## What is bound is known -/

/-- Only a named input has a DML index. -/
theorem named_of_assigned {skip : String → Bool} {names : List String} {name : String} {idx : Nat}
    (h : (name, some idx) ∈ names.zip (assignInputs skip names).2.1) : skip name = false := by
  have hpairs : ∀ (names : List String) (acc : List (String × Nat) × List (Option Nat) × Nat),
      ∃ slots : List (Option Nat), slots.length = names.length ∧
        (names.foldl (fun (acc : List (String × Nat) × List (Option Nat) × Nat) name =>
          if skip name then (acc.1, acc.2.1 ++ [none], acc.2.2)
          else (insertEntry acc.1 name acc.2.2, acc.2.1 ++ [some acc.2.2], acc.2.2 + 1))
          acc).2.1 = acc.2.1 ++ slots ∧
        ∀ entry ∈ names.zip slots, entry.2.isSome → skip entry.1 = false := by
    intro names
    induction names with
    | nil => exact fun acc => ⟨[], rfl, (List.append_nil _).symm, fun entry hentry => nomatch hentry⟩
    | cons name names ih =>
      intro acc
      rw [List.foldl_cons]
      cases hskip : skip name with
      | true =>
        obtain ⟨slots, hlen, hslots, hall⟩ := ih (acc.1, acc.2.1 ++ [none], acc.2.2)
        refine ⟨none :: slots, congrArg (· + 1) hlen, ?_, ?_⟩
        · rw [if_pos rfl, hslots, List.append_assoc]
          rfl
        · intro entry hentry hsome
          rcases List.mem_cons.1 hentry with rfl | hentry
          · cases hsome
          · exact hall entry hentry hsome
      | false =>
        obtain ⟨slots, hlen, hslots, hall⟩ := ih
          (insertEntry acc.1 name acc.2.2, acc.2.1 ++ [some acc.2.2], acc.2.2 + 1)
        refine ⟨some acc.2.2 :: slots, congrArg (· + 1) hlen, ?_, ?_⟩
        · rw [if_neg (by simp), hslots, List.append_assoc]
          rfl
        · intro entry hentry hsome
          rcases List.mem_cons.1 hentry with rfl | hentry
          · exact hskip
          · exact hall entry hentry hsome
  obtain ⟨slots, -, hslots, hall⟩ := hpairs names ([], [], 0)
  have hzip : (assignInputs skip names).2.1 = slots := hslots
  rw [hzip] at h
  exact hall _ h rfl

theorem input_known {b : SizeBinding} {inputEdges : List InputEdge}
    (hb : b ∈ inputBindings t (view.info resolved) (compileInputMap t (view.info resolved))
      inputEdges) :
    b.bytes = boundBytes t b.name ∧ view.Knows b.name := by
  obtain ⟨⟨name, slot⟩, hentry, hbound⟩ := List.mem_filterMap.1 hb
  obtain ⟨idx, hidx, hbound⟩ := Option.bind_eq_some_iff.1 hbound
  split at hbound
  · cases hbound
  · cases hbound
    dsimp only at hidx
    subst hidx
    have hskip := named_of_assigned hentry
    have hne : name ≠ "" := by
      rintro rfl
      simp at hskip
    obtain ⟨port, hport, rfl⟩ := List.mem_map.1 (List.of_mem_zip hentry).1
    exact ⟨rfl, Or.inr ⟨hne, Or.inl ⟨port.2, hport⟩⟩⟩

/-- Data that can be read is that of an allocated initializer. -/
theorem known_of_bytes {name : String}
    (h : (((view.info resolved).allInitializers name).bind Initializer.bytes).isSome) :
    ∃ value, (name, some value) ∈ view.initializers := by
  obtain ⟨bytes, hbytes⟩ := Option.isSome_iff_exists.1 h
  obtain ⟨init, hinit, hbytes⟩ := Option.bind_eq_some_iff.1 hbytes
  obtain ⟨value, hlookup, rfl⟩ := Option.map_eq_some_iff.1 hinit
  cases value with
  | none => cases hbytes
  | some value =>
    obtain ⟨before, after, heq, -⟩ := List.lookup_eq_some_iff.1 hlookup
    exact ⟨value, heq ▸ List.mem_append_right _ List.mem_cons_self⟩

theorem initializer_known {b : SizeBinding}
    (hb : b ∈ initializerBindings t (view.info resolved)
      (compileInputMap t (view.info resolved))) :
    b.bytes = boundBytes t b.name ∧ view.Knows b.name := by
  obtain ⟨⟨name, idx⟩, -, hbound⟩ := List.mem_filterMap.1 hb
  split at hbound
  · next hall =>
    cases hbound
    exact ⟨rfl, Or.inl (known_of_bytes hall.2.2.1)⟩
  · cases hbound

/-- An inlined constant has 4 bytes: less than 8, and rounded up. -/
theorem constant_bytes (h : view.Describes tensors)
    (ht : translateNodes registry (view.info resolved) nodes = some t) {c : String × List UInt8}
    (hc : c ∈ (compileInputMap t (view.info resolved)).constantNodes) :
    boundBytes t c.1 = 4 := by
  obtain ⟨name, -, hconst⟩ := List.mem_filterMap.1 hc
  obtain ⟨data, hdata, rfl⟩ := Option.map_eq_some_iff.1 hconst
  unfold constantData at hdata
  dsimp only at hdata
  split at hdata
  · cases hdata
  · next hbytes =>
    obtain ⟨bytes, hread, -⟩ := Option.map_eq_some_iff.1 hdata
    have hknown : view.Knows name := Or.inl (known_of_bytes (Option.isSome_iff_exists.2 ⟨_, hread⟩))
    have hrecord := boundBytes_of_known h ht hknown
    have hrange : ¬ (boundBytes t name = 0 ∨ 8 ≤ boundBytes t name) := hbytes
    have haligned : (tensors name).record.totalBytes % 4 = 0 := by
      show computeAlignedTotalBytes (tensors name).record.sizes _ % 4 = 0
      unfold computeAlignedTotalBytes
      split
      · rfl
      · exact Nat.mul_mod_left _ 4
    rw [hrecord] at hrange ⊢
    omega

theorem output_known (h : view.Describes tensors)
    (ht : translateNodes registry (view.info resolved) nodes = some t) {port : Port}
    (hport : port ∈ view.graphOutputs) (hname : view.Knows port.1) :
    (outputBinding t port).bytes = (tensors port.1).record.totalBytes ∧
      (outputBinding t port).dims.prod = (tensors port.1).record.sizes.prod := by
  unfold outputBinding
  rw [record_of_known h ht hname]
  refine ⟨rfl, ?_⟩
  obtain ⟨n, hn⟩ : ∃ n, (tensors port.1).record.sizes =
      List.replicate n 1 ++ ((tensors port.1).dims.map Int.ofNat).map seedSize := ⟨_, rfl⟩
  have hdrop : ∀ k ≤ n, ((tensors port.1).record.sizes.drop k).prod =
      (tensors port.1).record.sizes.prod := by
    intro k hk
    rw [hn, List.drop_append_of_le_length (by rwa [List.length_replicate]), List.drop_replicate]
    simp
  show ((tensors port.1).record.sizes.drop _).prod = _
  refine hdrop _ ?_
  split
  · rw [Nat.sub_self]
    exact Nat.zero_le _
  · next hrank =>
    -- the rank that ORT gives is that of the tensor
    have hlen : ((port.2.bind TensorType.dims).map List.length).getD 0 =
        (tensors port.1).dims.length := by
      cases hdims : port.2.bind TensorType.dims with
      | none =>
        rw [hdims] at hrank
        exact absurd rfl hrank
      | some dims =>
        obtain ⟨type, htype, hgiven⟩ := Option.bind_eq_some_iff.1 hdims
        exact ((h.outputs port hport type htype).2 dims hgiven).1
    rw [hlen, hn]
    simp

end

end BoundSizesLemmas

open BoundSizesLemmas

section

variable {D : Type} {registry : OpTranslatorRegistry D} {view : SubgraphView}
  {resolved : ResolvedShapes} {nodes : List Node} {t : Translation D} {tensors : String → TensorDesc}

end

/-! ## A half-precision constant -/

def halfProductRegistry : OpTranslatorRegistry String := fun op =>
  if op = "MatMulNBits" then some (translateMatMulNBits (fun _ => "DEQUANTIZE") "GEMM") else none

/-- One row of weights, with one scale. -/
def halfProduct : Node where
  id := 0
  opType := "MatMulNBits"
  domain := "com.microsoft"
  inputs := [some "x", some "B", some "scales"]
  outputs := [some "y"]
  attributes := [("N", .int 1), ("K", .int 32), ("bits", .int 4), ("block_size", .int 32)]

def halfTensors (name : String) : TensorDesc :=
  if name = "B" then ⟨.uint8, [1, 1, 16]⟩
  else if name = "scales" then ⟨.float16, [1]⟩
  else if name = "y" then ⟨.float16, [8, 1]⟩
  else ⟨.float16, [8, 32]⟩

def halfType (name : String) : Option TensorType :=
  some ⟨(halfTensors name).elemType, some ((halfTensors name).dims.map Int.ofNat)⟩

def halfView : SubgraphView where
  graphInputs := [("x", halfType "x")]
  graphOutputs := [("y", halfType "y")]
  initializers :=
    [("B", some ⟨.uint8, [1, 1, 16], List.replicate 16 0⟩),
      ("scales", some ⟨.float16, [1], [0, 60]⟩)]
  nodes := [⟨halfProduct, [halfType "x", halfType "B", halfType "scales"], [halfType "y"]⟩]

theorem portTrue_halfType (name : String) : PortTrue halfTensors (name, halfType name) := by
  rintro _ ⟨⟩
  refine ⟨rfl, ?_⟩
  rintro _ ⟨⟩
  exact ⟨List.length_map _, fun _ => rfl⟩

theorem halfView_described : halfView.Describes halfTensors where
  supported name := by
    unfold halfTensors
    split_ifs <;> decide
  inputs := by decide
  outputs port hport := by
    obtain rfl := List.mem_singleton.1 hport
    exact portTrue_halfType "y"
  ports port hport := by
    have hports : port ∈ ["y", "x", "B", "scales"].map fun name => (name, halfType name) := hport
    obtain ⟨name, -, rfl⟩ := List.mem_map.1 hports
    exact portTrue_halfType name
  initializers := by decide

def halfTranslation : Translation String :=
  (translateNodes halfProductRegistry (halfView.info fun _ => none) [halfProduct]).get (by decide)

def halfDesc : DmlGraphDesc String :=
  (describe halfTranslation (halfView.info fun _ => none)).get (by decide)

end AmdGpuEp.DirectML
