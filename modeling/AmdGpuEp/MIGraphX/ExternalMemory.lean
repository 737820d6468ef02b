import AmdGpuEp.Lib.Wrapped
import AmdGpuEp.Shared.OpAttrToProto

/-!
# Tensors in imported memory

`CreateTensorFromMemory` of `mgx_interop.cc` lays a tensor over memory that another API has
allocated. Whether the tensor fits is decided in words of 64 bits: the product of the
dimensions, the rest of the memory behind the offset of the buffer, and the rest behind the
offset of the tensor, each of which wraps around.

Results:
1. `createTensorFromMemory_fits_iff`: when a tensor that is created lies in the memory.
2. `checked_fits_iff`: the same, where the call that makes the tensor compares its length, too.
3. `behindTheEnd_escapes`: a tensor that begins behind the end.
-/

namespace AmdGpuEp.MIGraphX

open OpAttrToProto (ElementType)

/-! ## The memory and the tensor -/

/-- `TensorElementSize`: zero for the types that are not supported. -/
def tensorElementSize : ElementType → UInt64
  | .float => 4
  | .double => 8
  | .float16 | .bfloat16 => 2
  | .uint8 | .int8 | .bool | .float8e4m3fn | .float8e4m3fnuz | .float8e5m2 | .float8e5m2fnuz => 1
  | .uint16 | .int16 => 2
  | .uint32 | .int32 => 4
  | .uint64 | .int64 => 8
  | _ => 0

/-- `OrtExternalMemoryDescriptor`: the allocation has `sizeBytes` bytes, and it is mapped from
`offsetBytes` on. -/
structure ExternalMemoryDescriptor where
  sizeBytes : UInt64
  offsetBytes : UInt64
  deriving DecidableEq, Repr

/-- `OrtExternalTensorDescriptor`. The offset is counted from where the memory is mapped. -/
structure ExternalTensorDescriptor where
  elementType : ElementType
  shape : List Int64
  offsetBytes : UInt64

/-- The tensor that is given to ORT: where it begins in the mapped memory, and how long it is. -/
structure ExternalTensor where
  offset : UInt64
  bytes : UInt64
  shape : List Int64
  elementType : ElementType

/-- The calls of ORT on the way to a tensor. Each may fail with a message. -/
structure TensorApi where
  createMemoryInfo : Except String Unit
  createTensorWithData : ExternalTensor → Except String Unit

/-- The loop over the dimensions. -/
def elementCount (shape : List Int64) : UInt64 :=
  shape.foldl (fun count dim => count * dim.toUInt64) 1

/-- `CreateTensorFromMemory`. -/
def createTensorFromMemory (api : TensorApi) (memory : ExternalMemoryDescriptor)
    (tensor : ExternalTensorDescriptor) : Except String ExternalTensor :=
  let elementSize := tensorElementSize tensor.elementType
  if elementSize = 0 then
    .error ("Unsupported tensor element type: " ++ toString tensor.elementType.number)
  else
    let tensorBytes := elementCount tensor.shape * elementSize
    let mappedBytes := memory.sizeBytes - memory.offsetBytes
    let availableBytes := mappedBytes - tensor.offsetBytes
    if availableBytes < tensorBytes then
      .error ("Tensor requires " ++ toString tensorBytes ++ " bytes but only " ++
        toString availableBytes ++ " bytes are available in the imported memory")
    else
      let made : ExternalTensor :=
        { offset := tensor.offsetBytes
          bytes := tensorBytes
          shape := tensor.shape
          elementType := tensor.elementType }
      api.createMemoryInfo.bind fun _ => (api.createTensorWithData made).map fun _ => made

/-! ## The property, and when it holds -/

/-- The product of the dimensions, as numbers. -/
def naturalCount (shape : List Int64) : Nat :=
  (shape.map fun dim => dim.toUInt64.toNat).prod

/-- The bytes that the tensor takes, as a number. -/
def naturalBytes (tensor : ExternalTensorDescriptor) : Nat :=
  naturalCount tensor.shape * (tensorElementSize tensor.elementType).toNat

/-- The tensor ends in the allocation. -/
def Fits (memory : ExternalMemoryDescriptor) (tensor : ExternalTensorDescriptor) : Prop :=
  memory.offsetBytes.toNat + tensor.offsetBytes.toNat + naturalBytes tensor ≤
    memory.sizeBytes.toNat

/-- A tensor that is created lies in the allocation. -/
def FitsIfCreated (api : TensorApi) (memory : ExternalMemoryDescriptor)
    (tensor : ExternalTensorDescriptor) : Prop :=
  ∀ made, createTensorFromMemory api memory tensor = .ok made → Fits memory tensor

/-- The two offsets leave something of the allocation, or nothing, but do not go beyond it. -/
def OffsetsInside (memory : ExternalMemoryDescriptor) (tensor : ExternalTensorDescriptor) : Prop :=
  memory.offsetBytes.toNat + tensor.offsetBytes.toNat ≤ memory.sizeBytes.toNat

/-- What is left of the allocation behind both offsets, in words. -/
def wrappedRest (memory : ExternalMemoryDescriptor) (tensor : ExternalTensorDescriptor) : Nat :=
  (memory.sizeBytes.toNat + (2 ^ 64 - memory.offsetBytes.toNat) +
    (2 ^ 64 - tensor.offsetBytes.toNat)) % 2 ^ 64

/-- The tensor that ORT is asked for. -/
def requested (tensor : ExternalTensorDescriptor) : ExternalTensor where
  offset := tensor.offsetBytes
  bytes := elementCount tensor.shape * tensorElementSize tensor.elementType
  shape := tensor.shape
  elementType := tensor.elementType

/-- ORT makes the tensor. -/
def Accepted (api : TensorApi) (tensor : ExternalTensorDescriptor) : Prop :=
  api.createMemoryInfo = .ok () ∧ api.createTensorWithData (requested tensor) = .ok ()

/-- The element type is not supported, or what is required, taken modulo the words, is more than
what is left, taken modulo the words. -/
def Refused (memory : ExternalMemoryDescriptor) (tensor : ExternalTensorDescriptor) : Prop :=
  tensorElementSize tensor.elementType = 0 ∨
    wrappedRest memory tensor < naturalBytes tensor % 2 ^ 64

/-! ## Words -/

namespace ExternalMemoryLemmas

theorem foldl_toNat (shape : List Int64) (count : UInt64) :
    (shape.foldl (fun count dim => count * dim.toUInt64) count).toNat =
      count.toNat * naturalCount shape % 2 ^ 64 := by
  have hloop : (shape.map fun dim => dim.toUInt64.toNat).foldl
      (fun count size => count * size % 2 ^ 64) count.toNat =
        (shape.foldl (fun count dim => count * dim.toUInt64) count).toNat := by
    rw [List.foldl_map]
    exact List.foldl_hom UInt64.toNat fun count dim => (UInt64.toNat_mul count _).symm
  rw [← hloop, foldl_mul_wrapped_from _ count.toNat_lt, naturalCount]

theorem elementCount_toNat (shape : List Int64) :
    (elementCount shape).toNat = naturalCount shape % 2 ^ 64 := by
  rw [elementCount, foldl_toNat, UInt64.toNat_one, Nat.one_mul]

theorem bytes_toNat (tensor : ExternalTensorDescriptor) :
    (requested tensor).bytes.toNat = naturalBytes tensor % 2 ^ 64 := by
  rw [requested, UInt64.toNat_mul, elementCount_toNat, Nat.mod_mul_mod, naturalBytes]

theorem available_toNat (memory : ExternalMemoryDescriptor) (tensor : ExternalTensorDescriptor) :
    (memory.sizeBytes - memory.offsetBytes - tensor.offsetBytes).toNat =
      wrappedRest memory tensor := by
  rw [UInt64.toNat_sub, UInt64.toNat_sub, Nat.add_mod_mod, wrappedRest, Nat.add_comm,
    Nat.add_comm (2 ^ 64 - memory.offsetBytes.toNat)]

theorem wrappedRest_of_inside {memory : ExternalMemoryDescriptor}
    {tensor : ExternalTensorDescriptor} (h : OffsetsInside memory tensor) :
    wrappedRest memory tensor =
      memory.sizeBytes.toNat - (memory.offsetBytes.toNat + tensor.offsetBytes.toNat) := by
  have hsize := memory.sizeBytes.toNat_lt
  have hbase := memory.offsetBytes.toNat_lt
  have hoffset := tensor.offsetBytes.toNat_lt
  unfold OffsetsInside at h
  unfold wrappedRest
  omega

theorem refused_iff (memory : ExternalMemoryDescriptor) (tensor : ExternalTensorDescriptor) :
    Refused memory tensor ↔ tensorElementSize tensor.elementType = 0 ∨
      memory.sizeBytes - memory.offsetBytes - tensor.offsetBytes < (requested tensor).bytes := by
  rw [Refused, UInt64.lt_iff_toNat_lt, available_toNat, bytes_toNat]

/-- The tensor is created when it is refused neither here nor by ORT. -/
theorem created_iff (api : TensorApi) (memory : ExternalMemoryDescriptor)
    (tensor : ExternalTensorDescriptor) :
    (∃ made, createTensorFromMemory api memory tensor = .ok made) ↔
      ¬ Refused memory tensor ∧ Accepted api tensor := by
  rw [refused_iff]
  by_cases helement : tensorElementSize tensor.elementType = 0
  · have hcreate : createTensorFromMemory api memory tensor = .error _ := if_pos helement
    simp [hcreate, helement]
  by_cases hshort :
      memory.sizeBytes - memory.offsetBytes - tensor.offsetBytes < (requested tensor).bytes
  · have hcreate : createTensorFromMemory api memory tensor = .error _ :=
      (if_neg helement).trans (if_pos hshort)
    simp [hcreate, hshort]
  have hcreate : createTensorFromMemory api memory tensor =
      api.createMemoryInfo.bind fun _ =>
        (api.createTensorWithData (requested tensor)).map fun _ => requested tensor :=
    (if_neg helement).trans (if_neg hshort)
  have hnot : ¬ (tensorElementSize tensor.elementType = 0 ∨
      memory.sizeBytes - memory.offsetBytes - tensor.offsetBytes < (requested tensor).bytes) :=
    not_or.2 ⟨helement, hshort⟩
  rw [and_iff_right hnot, Accepted, hcreate]
  cases api.createMemoryInfo with
  | error message => simp [Except.bind]
  | ok info =>
    cases api.createTensorWithData (requested tensor) with
    | error message => simp [Except.bind, Except.map]
    | ok value => simp [Except.bind, Except.map]

theorem fitsIfCreated_iff (api : TensorApi) (memory : ExternalMemoryDescriptor)
    (tensor : ExternalTensorDescriptor) :
    FitsIfCreated api memory tensor ↔
      (¬ Refused memory tensor ∧ Accepted api tensor → Fits memory tensor) := by
  rw [← created_iff, FitsIfCreated, exists_imp]

/-- A tensor that fits has sizes that do not wrap around. -/
theorem no_wrap_of_fits {memory : ExternalMemoryDescriptor} {tensor : ExternalTensorDescriptor}
    (h : Fits memory tensor) : OffsetsInside memory tensor ∧ naturalBytes tensor < 2 ^ 64 :=
  ⟨(Nat.le_add_right _ _).trans h,
    ((Nat.le_add_left _ _).trans h).trans_lt memory.sizeBytes.toNat_lt⟩

/-- Where nothing wraps around, the comparison of the words is the one of the numbers. -/
theorem fits_of_no_wrap {memory : ExternalMemoryDescriptor} {tensor : ExternalTensorDescriptor}
    (hinside : OffsetsInside memory tensor) (hbytes : naturalBytes tensor < 2 ^ 64)
    (h : ¬ Refused memory tensor) : Fits memory tensor := by
  have hle := Nat.le_of_not_lt fun hlt => h (Or.inr hlt)
  rw [Nat.mod_eq_of_lt hbytes, wrappedRest_of_inside hinside] at hle
  exact Nat.add_le_of_le_sub' hinside hle

end ExternalMemoryLemmas

open ExternalMemoryLemmas

/-- A tensor that is created lies in the allocation exactly when it is refused, here or by ORT, or
when the offsets are inside the allocation and its bytes are fewer than the words count. -/
theorem createTensorFromMemory_fits_iff (api : TensorApi) (memory : ExternalMemoryDescriptor)
    (tensor : ExternalTensorDescriptor) :
    FitsIfCreated api memory tensor ↔
      Refused memory tensor ∨ ¬ Accepted api tensor ∨
        OffsetsInside memory tensor ∧ naturalBytes tensor < 2 ^ 64 := by
  rw [fitsIfCreated_iff]
  constructor
  · intro h
    by_cases hrefused : Refused memory tensor
    · exact Or.inl hrefused
    by_cases haccepted : Accepted api tensor
    · exact Or.inr (Or.inr (no_wrap_of_fits (h ⟨hrefused, haccepted⟩)))
    · exact Or.inr (Or.inl haccepted)
  · rintro (h | h | ⟨hinside, hbytes⟩) ⟨hrefused, haccepted⟩
    · exact absurd h hrefused
    · exact absurd haccepted h
    · exact fits_of_no_wrap hinside hbytes hrefused

/-- A call that makes tensors only where the length that it is given suffices for the shape. -/
structure CheckedApi extends TensorApi where
  sufficient : ∀ tensor : ExternalTensorDescriptor,
    createTensorWithData (requested tensor) = .ok () →
      naturalBytes tensor ≤ (requested tensor).bytes.toNat

/-- With such a call only the offsets can go wrong. -/
theorem checked_fits_iff (api : CheckedApi) (memory : ExternalMemoryDescriptor)
    (tensor : ExternalTensorDescriptor) :
    FitsIfCreated api.toTensorApi memory tensor ↔
      Refused memory tensor ∨ ¬ Accepted api.toTensorApi tensor ∨ OffsetsInside memory tensor := by
  rw [fitsIfCreated_iff]
  constructor
  · intro h
    by_cases hrefused : Refused memory tensor
    · exact Or.inl hrefused
    by_cases haccepted : Accepted api.toTensorApi tensor
    · exact Or.inr (Or.inr (no_wrap_of_fits (h ⟨hrefused, haccepted⟩)).1)
    · exact Or.inr (Or.inl haccepted)
  · rintro (h | h | hinside) ⟨hrefused, haccepted⟩
    · exact absurd h hrefused
    · exact absurd haccepted h
    · have hbytes := (api.sufficient tensor haccepted.2).trans_lt (requested tensor).bytes.toNat_lt
      exact fits_of_no_wrap hinside hbytes hrefused

/-! ## A tensor behind the end -/

/-- A call that compares the length. -/
def comparingApi : TensorApi where
  createMemoryInfo := .ok ()
  createTensorWithData tensor :=
    if naturalCount tensor.shape * (tensorElementSize tensor.elementType).toNat ≤
        tensor.bytes.toNat then .ok ()
    else .error "not enough space"

def page : ExternalMemoryDescriptor where
  sizeBytes := 4096
  offsetBytes := 0

/-- One number, that begins behind the last byte of the page. -/
def behindTheEnd : ExternalTensorDescriptor where
  elementType := .float
  shape := [1]
  offsetBytes := 8192

/-- What is left is taken for nearly the whole range of the words. -/
theorem behindTheEnd_escapes : ¬ FitsIfCreated comparingApi page behindTheEnd := by
  intro h
  have hfits : Fits page behindTheEnd := h (requested behindTheEnd) (by rfl)
  exact absurd hfits (by unfold Fits; decide)

end AmdGpuEp.MIGraphX
