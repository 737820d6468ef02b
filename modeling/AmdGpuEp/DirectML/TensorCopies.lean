import AmdGpuEp.DirectML.ReadbackHeap

/-!
# Copies of tensors

What `CopyTensorsPlugin` and `CopyTensors` of `dml_execution_provider.cc` are given: arrays of
sources and destinations. The size of a tensor is computed from its dimensions, with a number of
elements of 32 bits.

A copy may mark the bytes that it copies, so that two orders of copies that leave the same bytes
by chance are told apart.

Results:
1. `computeByteSize_eq_iff`: when the size of a tensor is right.
2. `agrees_of_reads`: entries that have read as much as they read one at a time were copied with
   their true sizes.
-/

namespace AmdGpuEp.DirectML.TensorCopies

variable {α : Type}

/-! ## Tensors -/

/-- `MLOperatorTensorDataType` -/
inductive TensorDataType
  | undefined | float | uint8 | int8 | uint16 | int16 | int32 | int64 | string | bool
  | float16 | double | uint32 | uint64 | complex64 | complex128 | uint4 | int4
  deriving DecidableEq, Repr

/-- `GetBitSizeFromMlDataType`, which throws where there is no size. -/
def TensorDataType.bitSize : TensorDataType → Option Nat
  | uint4 | int4 => some 4
  | uint8 | int8 | bool => some 8
  | uint16 | int16 | float16 => some 16
  | float | int32 | uint32 => some 32
  | int64 | double | uint64 | complex64 => some 64
  | complex128 => some 128
  | string | undefined => none

structure Tensor where
  location : Location
  dims : List Nat
  type : TensorDataType
  deriving DecidableEq, Repr

namespace Tensor

/-- The bytes of the tensor, as `GetTensorSizeInBytes` of ORT gives them. -/
def byteSize (t : Tensor) : Nat :=
  (t.dims.prod * t.type.bitSize.getD 0 + 7) / 8

/-- `ComputeElementCountFromDimensions`, on dimensions that were cast to 32 bits. -/
def elementCount (t : Tensor) : Nat :=
  (t.dims.map (· % 2 ^ 32)).foldl (fun count dim => count * dim % 2 ^ 32) 1

/-- `ComputeByteSizeFromTensor`, which throws for more than `MaximumDimensionCount` dimensions. -/
def computeByteSize (t : Tensor) : Option Nat :=
  if 8 < t.dims.length then none
  else t.type.bitSize.map fun bits => (t.elementCount * bits + 7) / 8

end Tensor

/-- One entry of the arrays. ORT copies only between tensors of the same size. `accessible` says
whether its accessors give the data of the tensors. -/
structure Entry where
  src : Tensor
  dst : Tensor
  accessible : Bool
  same_size : src.byteSize = dst.byteSize

namespace Entry

variable (e : Entry)

def toCpu : Bool :=
  e.dst.location.device == .cpu

def fromCpu : Bool :=
  e.src.location.device == .cpu

def isReadback : Bool :=
  e.toCpu && !e.fromCpu

def transfer (i size : Nat) : Transfer Place where
  id := i
  src := e.src.location.region
  dst := e.dst.location.region
  size := size

end Entry

/-! ## Copying one at a time -/

/-- A copy that is recorded or made at once. -/
def CopyState.copy (mark : Nat → α → α) (t : Transfer Place) (s : CopyState α) : CopyState α :=
  { s with toTracked := t.run mark s.toTracked }

/-- A view of the sizes of entries: which ones are not passed over as empty, and how many bytes they
copy. -/
structure Sizes where
  moves : Entry → Bool
  size : Entry → Nat

/-- The sizes of the tensors. -/
def trueSizes : Sizes where
  moves e := e.dst.byteSize != 0
  size e := e.dst.byteSize

/-- The transfers of entries that come with their places in the array. -/
def moved (z : Sizes) (es : List (Entry × Nat)) : List (Transfer Place) :=
  (es.filter fun a => z.moves a.1).map fun a => a.1.transfer a.2 (z.size a.1)

/-- The entries are copied one at a time, in the order of the array. -/
def oneAtATime (mark : Nat → α → α) (es : List Entry) (s : Tracked Place α) : Tracked Place α :=
  runAll mark (moved trueSizes es.zipIdx) s

/-- The state in which the copies are asked for. -/
def start (memory : Place → α) (capacity : Option Capacity) (heap : Nat → α) : CopyState α where
  memory := memory
  reads _ := []
  capacity := capacity
  heap := heap
  batches := []

/-- An entry that fails is reported. Where none does, every copy reads what it reads when the
entries are copied one at a time, the memory is the same in the end, and the batches fit into the
readback heap: for every contents of the memory and of the heap, and whatever marks the copies
make. -/
structure Faithful (fails : Entry → Prop)
    (run : ∀ {α : Type}, (Nat → α → α) → List Entry → CopyState α → Outcome α)
    (es : List Entry) : Prop where
  reported : (∃ e ∈ es, fails e) → ∀ (α : Type) (mark : Nat → α → α) memory capacity heap,
    ∃ s, run mark es (start memory capacity heap) = .failed s
  copied : (∀ e ∈ es, ¬ fails e) → ∀ (α : Type) (mark : Nat → α → α) memory capacity heap,
    ∃ s, run mark es (start memory capacity heap) = .done s ∧
      s.toTracked = oneAtATime mark es (start memory capacity heap).toTracked ∧
      ∀ l ∈ s.batches, l.Fits

/-! ## Sizes -/

namespace TensorCopiesLemmas

theorem bitSize_pos {type : TensorDataType} {bits : Nat} (h : type.bitSize = some bits) :
    4 ≤ bits ∧ bits ≤ 128 := by
  cases type <;> cases h <;> decide

theorem elementCount_eq (t : Tensor) : t.elementCount = t.dims.prod % 2 ^ 32 := by
  have hprod : ∀ dims : List Nat, (dims.map (· % 2 ^ 32)).prod % 2 ^ 32 = dims.prod % 2 ^ 32 := by
    intro dims
    induction dims with
    | nil => rfl
    | cons dim dims ih =>
      rw [List.map_cons, List.prod_cons, List.prod_cons, Nat.mul_mod, Nat.mod_mod, ih,
        ← Nat.mul_mod]
  exact (foldl_mul_wrapped _ (by decide)).trans (hprod t.dims)

/-- What is computed of a tensor that has a size. -/
theorem exists_bits {t : Tensor} {size : Nat} (h : t.computeByteSize = some size) :
    ∃ bits, 4 ≤ bits ∧ size = (t.dims.prod % 2 ^ 32 * bits + 7) / 8 ∧
      t.byteSize = (t.dims.prod * bits + 7) / 8 := by
  unfold Tensor.computeByteSize at h
  split at h
  · cases h
  · obtain ⟨bits, hbits, hsize⟩ := Option.map_eq_some_iff.1 h
    refine ⟨bits, (bitSize_pos hbits).1, ?_, ?_⟩
    · rw [← hsize, elementCount_eq]
    · rw [Tensor.byteSize, hbits]
      rfl

/-- The size is right exactly when the number of elements does not wrap. -/
theorem computeByteSize_eq_iff {t : Tensor} {size : Nat} (h : t.computeByteSize = some size) :
    size = t.byteSize ↔ t.dims.prod < 2 ^ 32 := by
  obtain ⟨bits, hbits, hsize, htrue⟩ := exists_bits h
  rw [hsize, htrue]
  constructor
  · intro heq
    by_contra hlarge
    have hmod : t.dims.prod % 2 ^ 32 + 2 ^ 32 ≤ t.dims.prod := by omega
    have hmul := Nat.mul_le_mul_right bits hmod
    have hbig : 2 ^ 32 * 4 ≤ 2 ^ 32 * bits := Nat.mul_le_mul_left _ hbits
    rw [Nat.add_mul] at hmul
    omega
  · intro hsmall
    rw [Nat.mod_eq_of_lt hsmall]

/-- The size is zero exactly when the number of elements wraps to zero. -/
theorem computeByteSize_eq_zero_iff {t : Tensor} {size : Nat} (h : t.computeByteSize = some size) :
    size = 0 ↔ t.dims.prod % 2 ^ 32 = 0 := by
  obtain ⟨bits, hbits, hsize, -⟩ := exists_bits h
  rw [hsize]
  constructor
  · intro heq
    by_contra hne
    have hmul := Nat.mul_le_mul_right bits (Nat.pos_of_ne_zero hne)
    omega
  · intro heq
    rw [heq, Nat.zero_mul]

theorem size_le_byteSize {t : Tensor} {size : Nat} (h : t.computeByteSize = some size) :
    size ≤ t.byteSize := by
  obtain ⟨bits, -, hsize, htrue⟩ := exists_bits h
  rw [hsize, htrue]
  have hmul := Nat.mul_le_mul_right bits (Nat.mod_le t.dims.prod (2 ^ 32))
  exact Nat.div_le_div_right (Nat.add_le_add_right hmul 7)

/-- An empty tensor is passed over. -/
theorem size_eq_zero_of_byteSize {t : Tensor} {size : Nat} (h : t.computeByteSize = some size)
    (hzero : t.byteSize = 0) : size = 0 := by
  have hle := size_le_byteSize h
  rw [hzero] at hle
  exact Nat.le_zero.1 hle

/-- The sizes that are computed, before anything is done with them. -/
def computedMoves (e : Entry) : Bool :=
  e.dst.computeByteSize != some 0

theorem computedMoves_of_size {e : Entry} {size : Nat} (h : e.dst.computeByteSize = some size) :
    computedMoves e = (size != 0) := by
  rw [computedMoves, h, Bool.eq_iff_iff, bne_iff_ne, bne_iff_ne, Ne, Option.some_inj]

/-- The entries are copied with their true sizes. -/
def Agrees (z : Sizes) (es : List Entry) : Prop :=
  ∀ e ∈ es, z.moves e = trueSizes.moves e ∧ (z.moves e = true → z.size e = e.dst.byteSize)

variable {z : Sizes} {es : List Entry} {mark : Nat → α → α}

theorem moved_congr {items : List (Entry × Nat)}
    (h : ∀ a ∈ items, z.moves a.1 = trueSizes.moves a.1 ∧
      (z.moves a.1 = true → z.size a.1 = a.1.dst.byteSize)) :
    moved z items = moved trueSizes items := by
  unfold moved
  rw [List.filter_congr fun a ha => (h a ha).1]
  refine List.map_congr_left fun a ha => ?_
  obtain ⟨hmem, hmoves⟩ := List.mem_filter.1 ha
  rw [(h a hmem).2 ((h a hmem).1.trans hmoves)]
  rfl

theorem Agrees.moved_eq (h : Agrees z es) {items : List (Entry × Nat)}
    (hitems : ∀ a ∈ items, a.1 ∈ es) : moved z items = moved trueSizes items :=
  moved_congr fun a ha => h a.1 (hitems a ha)

theorem mem_of_mem_zipIdx {a : Entry × Nat} (h : a ∈ es.zipIdx) : a.1 ∈ es :=
  List.fst_mem_of_mem_zipIdx h

theorem nodup_zipIdx (es : List Entry) : (es.zipIdx.map Prod.snd).Nodup := by
  rw [List.zipIdx_map_snd]
  exact List.nodup_range'

theorem nodup_ids {items : List (Entry × Nat)} (h : (items.map Prod.snd).Nodup) :
    ((moved z items).map Transfer.id).Nodup := by
  unfold moved
  rw [List.map_map]
  exact h.sublist (List.filter_sublist.map _)

/-- How much an entry has read. -/
theorem length_reads_moved (z : Sizes) (mark : Nat → α → α) {items : List (Entry × Nat)}
    (hnodup : (items.map Prod.snd).Nodup) {s : Tracked Place α} {a : Entry × Nat} (ha : a ∈ items)
    (hs : s.reads a.2 = []) :
    ((runAll mark (moved z items) s).reads a.2).length =
      if z.moves a.1 then z.size a.1 else 0 := by
  by_cases hmoves : z.moves a.1 = true
  · rw [if_pos hmoves]
    have hmem : a.1.transfer a.2 (z.size a.1) ∈ moved z items :=
      List.mem_map.2 ⟨a, List.mem_filter.2 ⟨ha, hmoves⟩, rfl⟩
    exact length_reads_runAll (nodup_ids hnodup) hmem
  · rw [if_neg hmoves, reads_runAll_of_not_mem, hs, List.length_nil]
    intro hid
    obtain ⟨t, ht, hid⟩ := List.mem_map.1 hid
    obtain ⟨b, hb, rfl⟩ := List.mem_map.1 ht
    obtain ⟨hmem, hb'⟩ := List.mem_filter.1 hb
    obtain rfl := List.inj_on_of_nodup_map hnodup hmem ha hid
    exact hmoves hb'

/-- Entries that have read what they read one at a time were copied with their true sizes. -/
theorem agrees_of_reads (hz : ∀ e ∈ es, z.moves e = true → e.dst.byteSize ≠ 0)
    {items : List (Entry × Nat)} (hperm : items.Perm es.zipIdx) {s : Tracked Place α}
    (hs : ∀ i, s.reads i = [])
    (h : (runAll mark (moved z items) s).reads = (oneAtATime mark es s).reads) :
    Agrees z es := by
  intro e he
  obtain ⟨i, hi⟩ := List.mem_iff_getElem?.1 he
  have ha : (e, i) ∈ es.zipIdx := List.mk_mem_zipIdx_iff_getElem?.2 hi
  have hnodup : (items.map Prod.snd).Nodup := (hperm.map _).nodup_iff.2 (nodup_zipIdx es)
  have hactual := length_reads_moved z mark hnodup (hperm.mem_iff.2 ha) (hs i)
  have htrue := length_reads_moved trueSizes mark (nodup_zipIdx es) ha (hs i)
  have hsame := congrArg List.length (congrFun h i)
  have hbytes : (if z.moves e then z.size e else 0) = e.dst.byteSize := by
    refine hactual.symm.trans (hsame.trans (htrue.trans ?_))
    by_cases hzero : e.dst.byteSize = 0
    · simp [trueSizes, hzero]
    · simp [trueSizes, hzero]
  cases hmoves : z.moves e with
  | true =>
    rw [hmoves, if_pos rfl] at hbytes
    have hne := hz e he hmoves
    exact ⟨by simp [trueSizes, hne], fun _ => hbytes⟩
  | false =>
    rw [hmoves, if_neg Bool.false_ne_true] at hbytes
    exact ⟨by simp [trueSizes, ← hbytes], fun h => by cases h⟩

theorem isReadback_transfer {e : Entry} (h : e.isReadback = true) (i size : Nat) :
    IsReadback (e.transfer i size) := by
  obtain ⟨hdst, hsrc⟩ := Bool.and_eq_true_iff.1 h
  refine ⟨fun k => ?_, fun k => ?_⟩
  · refine (Location.device_place _ k).trans ?_
    unfold Entry.fromCpu at hsrc
    cases hdevice : e.src.location.device with
    | gpu => rfl
    | cpu =>
      rw [hdevice] at hsrc
      cases hsrc
  · exact (Location.device_place _ k).trans (beq_iff_eq.1 hdst)

theorem moved_nil : moved z [] = [] :=
  rfl

theorem moved_cons_of_moves {a : Entry × Nat} {items : List (Entry × Nat)}
    (h : z.moves a.1 = true) :
    moved z (a :: items) = a.1.transfer a.2 (z.size a.1) :: moved z items := by
  unfold moved
  rw [List.filter_cons, if_pos h]
  rfl

theorem moved_cons_of_not_moves {a : Entry × Nat} {items : List (Entry × Nat)}
    (h : z.moves a.1 = false) : moved z (a :: items) = moved z items := by
  unfold moved
  rw [List.filter_cons, if_neg (by rw [h]; decide)]

theorem map_fst_zipIdx (es : List Entry) : es.zipIdx.map Prod.fst = es :=
  List.zipIdx_map_fst 0 es

end TensorCopiesLemmas

end AmdGpuEp.DirectML.TensorCopies
