import AmdGpuEp.Lib.Runs
import Mathlib.Algebra.Order.Ring.Nat
import Mathlib.Data.List.Nodup
import Mathlib.Data.List.Perm.Basic
import Mathlib.Data.Nat.Log

/-!
# The allocator that pools buffers in buckets

`dml_bucketized_buffer_allocator.cc`. A request is served from the bucket of its size, when sizes
are rounded or when it has the size of the bucket. Any other request gets a resource of its own.
When an allocation is freed, the allocator does not know how it was served, and compares the width
of the resource with the size of the bucket.

Results:
1. `kept_step`: what the calls keep, in any order.
2. `allocations_sound_iff`: the runs in which all allocations and all pooled resources are right.
3. `free_outOfBounds`: a request that its rounding makes as large as a bucket that there is not.
-/

namespace AmdGpuEp.DirectML.BucketizedAllocator

/-- `AllocatorRoundingMode` -/
inductive AllocatorRoundingMode
  | disabled
  | enabled
  deriving DecidableEq, Repr

/-! ## Buckets -/

/-- The smallest bucket has 64 KB. -/
def c_minResourceSizeExponent : Nat := 16

/-- `GetBucketIndexFromSize`. The logarithm is exact. -/
def getBucketIndexFromSize (size : Nat) : Nat :=
  max (Nat.clog 2 size) c_minResourceSizeExponent - c_minResourceSizeExponent

/-- `GetBucketSizeFromIndex`. A shift by the width of the type, or by more, is not defined. -/
def getBucketSizeFromIndex (index : Nat) : Option Nat :=
  if index + c_minResourceSizeExponent < 64 then some (2 ^ (index + c_minResourceSizeExponent))
  else none

/-- The width of a resource that is not pooled: `(size + 3) & ~3`. -/
def roundUp4 (size : Nat) : Nat :=
  (size + 3) % 2 ^ 64 / 4 * 4

/-! ## The state -/

/-- A resource of the device. -/
structure Resource where
  handle : Nat
  width : Nat
  deriving DecidableEq, Repr

/-- An entry of a bucket, which is called `Resource` in the source. -/
structure Pooled where
  resource : Resource
  resourceId : Nat
  deriving DecidableEq, Repr

/-- `PluginDmlAllocationInfo`. Its owner is the allocator. -/
structure AllocationInfo where
  id : Nat
  pooledResourceId : Nat
  resource : Resource
  requestedSize : Nat
  deriving DecidableEq, Repr

/-- The allocator with the allocations that it has handed out. The back of a bucket is the head of
its list. -/
structure Allocator where
  pool : List (List Pooled) := []
  currentAllocationId : Nat := 0
  currentResourceId : Nat := 0
  defaultRoundingMode : AllocatorRoundingMode := .disabled
  live : List AllocationInfo := []
  nextHandle : Nat := 0
  deriving DecidableEq, Repr

inductive Outcome
  | done
  | allocated (info : AllocationInfo)
  | freed (info : AllocationInfo)
  | threw
  /-- A shift that is not defined. -/
  | undefined
  /-- `m_pool` is indexed where it has no bucket. -/
  | outOfBounds
  deriving DecidableEq, Repr

def Outcome.isDefined : Outcome → Bool
  | .undefined | .outOfBounds => false
  | _ => true

/-! ## Calls -/

/-- The test in `AllocImpl`: is the request served from the pool? -/
def pools (mode : AllocatorRoundingMode) (size : Nat) : Bool :=
  mode = .enabled || getBucketSizeFromIndex (getBucketIndexFromSize size) = some size

/-- A new resource of the sub-allocator, with the next resource id. -/
def newResource (s : Allocator) (width : Nat) (deviceFails : Bool) :
    Allocator × Except Outcome Pooled :=
  if deviceFails then (s, .error .threw)
  else
    ({ s with nextHandle := s.nextHandle + 1, currentResourceId := s.currentResourceId + 1 },
      .ok ⟨⟨s.nextHandle, width⟩, s.currentResourceId + 1⟩)

/-- `m_pool.resize`, where there are not sufficient buckets. -/
def ensureBuckets (s : Allocator) (bucketIndex : Nat) : Allocator :=
  { s with pool := s.pool.rightpad (bucketIndex + 1) [] }

/-- A resource from a bucket, or a new one if it is empty. -/
def fromBucket (s : Allocator) (bucketIndex bucketSize : Nat) (deviceFails : Bool) :
    Allocator × Except Outcome Pooled :=
  match s.pool[bucketIndex]? with
  | some (entry :: rest) => ({ s with pool := s.pool.set bucketIndex rest }, .ok entry)
  | _ => newResource s bucketSize deviceFails

/-- `AllocImpl` up to the resource. -/
def takeResource (s : Allocator) (size : Nat) (mode : AllocatorRoundingMode)
    (deviceFails : Bool) : Allocator × Except Outcome Pooled :=
  let bucketIndex := getBucketIndexFromSize size
  if pools mode size then
    let s := ensureBuckets s bucketIndex
    match getBucketSizeFromIndex bucketIndex with
    | none => (s, .error .undefined)
    | some bucketSize => fromBucket s bucketIndex bucketSize deviceFails
  else if getBucketSizeFromIndex bucketIndex = none then (s, .error .undefined)
  else newResource s (roundUp4 size) deviceFails

/-- `AllocImpl` behind the resource. What is taken is released if there is no memory for the
allocation info. -/
def makeInfo (s : Allocator) (size : Nat) (entry : Pooled) (infoFails : Bool) :
    Allocator × Outcome :=
  let id := s.currentAllocationId + 1
  let info : AllocationInfo := ⟨id, entry.resourceId, entry.resource, size⟩
  if infoFails then ({ s with currentAllocationId := id }, .threw)
  else ({ s with currentAllocationId := id, live := info :: s.live }, .allocated info)

/-- `AllocImpl` -/
def allocImpl (s : Allocator) (size : Nat) (mode : AllocatorRoundingMode)
    (deviceFails infoFails : Bool) : Allocator × Outcome :=
  let size := max 1 size
  match takeResource s size mode deviceFails with
  | (s, .error outcome) => (s, outcome)
  | (s, .ok entry) => makeInfo s size entry infoFails

/-- A freed resource goes to the back of its bucket. -/
def returnToBucket (s : Allocator) (bucketIndex : Nat) (info : AllocationInfo) :
    Allocator × Outcome :=
  match s.pool[bucketIndex]? with
  | none => (s, .outOfBounds)
  | some bucket =>
    ({ s with
        live := s.live.erase info
        pool := s.pool.set bucketIndex (⟨info.resource, info.pooledResourceId⟩ :: bucket) },
      .freed info)

/-- `FreeResource`. A resource that does not go to a bucket is released, after the work that is
queued. -/
def freeResource (s : Allocator) (info : AllocationInfo) : Allocator × Outcome :=
  match getBucketSizeFromIndex (getBucketIndexFromSize info.requestedSize) with
  | none => (s, .undefined)
  | some bucketSize =>
    if bucketSize = info.resource.width then
      returnToBucket s (getBucketIndexFromSize info.requestedSize) info
    else ({ s with live := s.live.erase info }, .freed info)

/-- The calls. `AllocImpl` is also called with a rounding mode of its own, and it fails where the
device or the heap has no memory. -/
inductive Call
  | setDefaultRoundingMode (mode : AllocatorRoundingMode)
  | alloc (size : Nat) (mode : Option AllocatorRoundingMode) (deviceFails infoFails : Bool)
  | free (id : Nat)
  deriving DecidableEq, Repr

/-- A pointer that is freed was handed out and is not freed yet. -/
def Allocator.find (s : Allocator) (id : Nat) : Option AllocationInfo :=
  s.live.find? fun info => info.id = id

def machine : Machine Allocator Call Outcome where
  step s
    | .setDefaultRoundingMode mode => some ({ s with defaultRoundingMode := mode }, .done)
    | .alloc size mode deviceFails infoFails =>
      some (allocImpl s size (mode.getD s.defaultRoundingMode) deviceFails infoFails)
    | .free id => (s.find id).map (freeResource s)

/-! ## The property -/

/-- What has happened: the allocations that were freed, the newest first, and the sizes of the
requests that were served from the pool. -/
structure History where
  freed : List AllocationInfo := []
  pooledSizes : List Nat := []
  deriving DecidableEq, Repr

/-- The resource id of the last caller that had a resource. -/
def History.callerId (h : History) (r : Resource) : Option Nat :=
  (h.freed.find? fun info => info.resource.handle = r.handle).map AllocationInfo.pooledResourceId

def History.request (h : History) (mode : AllocatorRoundingMode) (size : Nat) : History :=
  if pools mode size then { h with pooledSizes := size :: h.pooledSizes } else h

def History.next (h : History) (s : Allocator) (c : Call) (o : Outcome) : History :=
  match c, o with
  | .alloc size mode _ _, _ => h.request (mode.getD s.defaultRoundingMode) (max 1 size)
  | .free _, .freed info => { h with freed := info :: h.freed }
  | _, _ => h

/-- The allocator with its history. -/
def recording : Machine (Allocator × History) Call Outcome :=
  machine.withHistory fun h s c _ o => h.next s c o

/-- What is to hold of an allocator, at any time. -/
structure Sound (s : Allocator) (h : History) : Prop where
  /-- The resource of an allocation is large enough. -/
  backed : ∀ a ∈ s.live, a.requestedSize ≤ a.resource.width
  /-- No two allocations share one. -/
  unshared : (s.live.map fun a => a.resource.handle).Nodup
  /-- What lies in a bucket has its size and the id that the caller had. -/
  pooled : ∀ i bucket, s.pool[i]? = some bucket → ∀ entry ∈ bucket,
    getBucketSizeFromIndex i = some entry.resource.width ∧
      h.callerId entry.resource = some entry.resourceId

/-- A call does nothing that is not defined, and leaves the allocator sound. -/
def Good (_ : Allocator × History) (_ : Call) (t : Allocator × History) (o : Outcome) : Prop :=
  o.isDefined ∧ Sound t.1 t.2

/-- The size of the request reaches the size of its bucket when it is rounded up to 4 bytes. -/
def RoundsToBucket (size : Nat) : Prop :=
  getBucketSizeFromIndex (getBucketIndexFromSize size) = some (roundUp4 size)

/-- The calls that are safe: requests up to the largest bucket, and frees of allocations that do
not round to their bucket, unless a request for that bucket or one above was pooled before. -/
def Safe (t : Allocator × History) (c : Call) (_ : Allocator × History) (_ : Outcome) : Prop :=
  match c with
  | .setDefaultRoundingMode _ => True
  | .alloc size _ _ _ => size ≤ 2 ^ 63
  | .free id => ∀ a, t.1.find id = some a → RoundsToBucket a.requestedSize →
      ∃ size ∈ t.2.pooledSizes, getBucketIndexFromSize a.requestedSize ≤ getBucketIndexFromSize size

namespace BucketizedAllocatorLemmas

/-! ## Sizes -/

theorem bucketSize_eq_none_iff (size : Nat) :
    getBucketSizeFromIndex (getBucketIndexFromSize size) = none ↔ 2 ^ 63 < size := by
  have hclog : Nat.clog 2 size ≤ 63 ↔ size ≤ 2 ^ 63 := Nat.clog_le_iff_le_pow (by decide)
  rw [← not_le, ← hclog, getBucketSizeFromIndex, getBucketIndexFromSize, c_minResourceSizeExponent,
    Nat.sub_add_cancel (le_max_right _ _), ite_eq_right_iff]
  simp only [reduceCtorEq, imp_false]
  omega

theorem le_bucketSize {size bucketSize : Nat}
    (h : getBucketSizeFromIndex (getBucketIndexFromSize size) = some bucketSize) :
    size ≤ bucketSize := by
  rw [getBucketSizeFromIndex, getBucketIndexFromSize, Nat.sub_add_cancel (le_max_right _ _)] at h
  split at h
  · cases h
    exact (Nat.le_pow_clog (by decide) size).trans
      (Nat.pow_le_pow_right (by decide) (le_max_left _ _))
  · cases h

theorem le_roundUp4 {size : Nat} (h : size ≤ 2 ^ 63) : size ≤ roundUp4 size := by
  rw [roundUp4, Nat.mod_eq_of_lt (by omega)]
  omega

/-! ## Resources that have one holder -/

/-- No resource is held twice, and the next one is new. -/
structure Owned (rs : List Resource) (next : Nat) : Prop where
  nodup : (rs.map Resource.handle).Nodup
  lt : ∀ r ∈ rs, r.handle < next

variable {rs rs' : List Resource} {r : Resource} {next : Nat}

theorem Owned.perm (h : Owned rs next) (hperm : rs.Perm rs') : Owned rs' next where
  nodup := (hperm.map Resource.handle).nodup_iff.1 h.nodup
  lt := fun r hr => h.lt r (hperm.mem_iff.2 hr)

theorem Owned.tail (h : Owned (r :: rs) next) : Owned rs next where
  nodup := (List.nodup_cons.1 h.nodup).2
  lt := fun r hr => h.lt r (List.mem_cons_of_mem _ hr)

theorem Owned.cons (h : Owned rs next) (width : Nat) :
    Owned (⟨next, width⟩ :: rs) (next + 1) where
  nodup := by
    refine List.nodup_cons.2 ⟨fun hmem => ?_, h.nodup⟩
    obtain ⟨r, hr, heq⟩ := List.mem_map.1 hmem
    exact absurd (h.lt r hr) (heq ▸ lt_irrefl _)
  lt := fun r hr => by
    obtain rfl | hr := List.mem_cons.1 hr
    · exact Nat.lt_succ_self next
    · exact (h.lt r hr).trans (Nat.lt_succ_self next)

theorem Owned.handle_ne (h : Owned (r :: rs) next) {r' : Resource} (hr : r' ∈ rs) :
    r.handle ≠ r'.handle := fun heq =>
  (List.nodup_cons.1 h.nodup).1 (List.mem_map.2 ⟨r', hr, heq.symm⟩)

theorem flatten_perm_of_cons {α : Type} {pool : List (List α)} {i : Nat} {entry : α}
    {rest : List α} (h : pool[i]? = some (entry :: rest)) :
    pool.flatten.Perm (entry :: (pool.set i rest).flatten) := by
  induction pool generalizing i with
  | nil => cases h
  | cons bucket pool ih =>
    cases i with
    | zero =>
      obtain rfl : bucket = entry :: rest := Option.some.inj h
      exact List.Perm.refl _
    | succ i =>
      rw [List.set_cons_succ, List.flatten_cons, List.flatten_cons]
      exact ((ih h).append_left bucket).trans List.perm_middle

/-! ## The invariant -/

/-- The resources of the allocations and of the pool. -/
def resources (s : Allocator) : List Resource :=
  s.live.map AllocationInfo.resource ++ s.pool.flatten.map Pooled.resource

/-- The resource of an allocation has the width that its request was rounded to, or else the size of
the bucket of its request, and then the bucket is there. -/
def Fits (s : Allocator) (size : Nat) (r : Resource) : Prop :=
  r.width = roundUp4 size ∨
    getBucketSizeFromIndex (getBucketIndexFromSize size) = some r.width ∧
      getBucketIndexFromSize size < s.pool.length

/-- What the calls keep. The resources in hand are on their way between a bucket and an
allocation. -/
structure Kept (inHand : List Resource) (s : Allocator) (h : History) : Prop where
  requested : ∀ a ∈ s.live, a.requestedSize ≤ 2 ^ 63
  fits : ∀ a ∈ s.live, Fits s a.requestedSize a.resource
  buckets : ∀ i, i < s.pool.length ↔ ∃ size ∈ h.pooledSizes, i ≤ getBucketIndexFromSize size
  owned : Owned (inHand ++ resources s) s.nextHandle
  pooled : ∀ i bucket, s.pool[i]? = some bucket → ∀ entry ∈ bucket,
    getBucketSizeFromIndex i = some entry.resource.width ∧
      h.callerId entry.resource = some entry.resourceId

theorem kept_init : Kept [] {} {} where
  requested := by simp
  fits := by simp
  buckets := by simp
  owned := ⟨by simp [resources], by simp [resources]⟩
  pooled := by simp

variable {inHand : List Resource} {s s' : Allocator} {h : History} {size i : Nat}
  {entry : Pooled} {rest bucket : List Pooled} {a : AllocationInfo}

theorem Fits.le (hfits : Fits s size r) (hsize : size ≤ 2 ^ 63) : size ≤ r.width := by
  obtain hwidth | ⟨hwidth, _⟩ := hfits
  · rw [hwidth]
    exact le_roundUp4 hsize
  · exact le_bucketSize hwidth

theorem Kept.sound (hk : Kept inHand s h) : Sound s h where
  backed := fun a ha => (hk.fits a ha).le (hk.requested a ha)
  unshared := by
    have hnodup := hk.owned.nodup
    rw [resources, List.map_append, List.map_append, List.map_map] at hnodup
    exact hnodup.of_append_right.of_append_left
  pooled := hk.pooled

/-! ## What the parts of the calls do -/

theorem Kept.drop (hk : Kept [r] s h) : Kept [] s h :=
  { hk with owned := hk.owned.tail }

theorem Kept.setDefault (hk : Kept inHand s h) (mode : AllocatorRoundingMode) :
    Kept inHand { s with defaultRoundingMode := mode } h :=
  { hk with }

theorem ensureBuckets_pool (hbucket : (ensureBuckets s i).pool[size]? = some bucket) :
    s.pool[size]? = some bucket ∨ bucket = [] := by
  rw [ensureBuckets, List.rightpad, List.getElem?_append] at hbucket
  split at hbucket
  · exact .inl hbucket
  · exact .inr (List.eq_of_mem_replicate (List.mem_of_getElem? hbucket))

theorem Kept.ensureBuckets (hk : Kept inHand s h) (size : Nat) :
    Kept inHand (ensureBuckets s (getBucketIndexFromSize size))
      { h with pooledSizes := size :: h.pooledSizes } := by
  have hlength : (BucketizedAllocator.ensureBuckets s (getBucketIndexFromSize size)).pool.length =
      max (getBucketIndexFromSize size + 1) s.pool.length := List.length_rightpad
  refine ⟨hk.requested, fun a ha => ?_, fun i => ?_, ?_, fun i bucket hbucket entry hentry => ?_⟩
  · refine (hk.fits a ha).imp_right fun ⟨hwidth, hlt⟩ => ⟨hwidth, ?_⟩
    rw [hlength]
    exact lt_max_of_lt_right hlt
  · rw [hlength, lt_max_iff, hk.buckets i, Nat.lt_succ_iff]
    simp only [List.mem_cons, exists_eq_or_imp]
  · have hflatten : (BucketizedAllocator.ensureBuckets s
        (getBucketIndexFromSize size)).pool.flatten = s.pool.flatten := by
      simp [BucketizedAllocator.ensureBuckets, List.rightpad]
    rw [resources, hflatten]
    exact hk.owned
  · obtain hbucket | rfl := ensureBuckets_pool hbucket
    · exact hk.pooled i bucket hbucket entry hentry
    · cases hentry

/-- A bucket is replaced by one whose entries are right. -/
theorem Kept.set (hk : Kept inHand s h)
    (hbucket : ∀ entry ∈ bucket, getBucketSizeFromIndex i = some entry.resource.width ∧
      h.callerId entry.resource = some entry.resourceId) {inHand' : List Resource}
    (howned : Owned (inHand' ++ resources { s with pool := s.pool.set i bucket }) s.nextHandle) :
    Kept inHand' { s with pool := s.pool.set i bucket } h where
  requested := hk.requested
  fits := fun a ha => (hk.fits a ha).imp_right fun ⟨hwidth, hlt⟩ =>
    ⟨hwidth, hlt.trans_eq List.length_set.symm⟩
  buckets := fun j => by rw [List.length_set, hk.buckets j]
  owned := howned
  pooled := fun j bucket' hj => by
    rw [List.getElem?_set] at hj
    split at hj
    · next heq =>
      subst heq
      split at hj
      · cases hj
        exact hbucket
      · cases hj
    · exact hk.pooled j bucket' hj

theorem Kept.pop (hk : Kept [] s h) (hi : s.pool[i]? = some (entry :: rest)) :
    Kept [entry.resource] { s with pool := s.pool.set i rest } h := by
  refine hk.set (fun e he => hk.pooled i _ hi e (List.mem_cons_of_mem _ he)) (hk.owned.perm ?_)
  have hperm := ((flatten_perm_of_cons hi).map Pooled.resource).append_left
    (s.live.map AllocationInfo.resource)
  exact hperm.trans List.perm_middle

theorem Kept.putBack {resourceId : Nat} (hk : Kept [r] s h) (hi : s.pool[i]? = some bucket)
    (hwidth : getBucketSizeFromIndex i = some r.width)
    (hid : h.callerId r = some resourceId) :
    Kept [] { s with pool := s.pool.set i (⟨r, resourceId⟩ :: bucket) } h := by
  refine hk.set (fun e he => ?_) (hk.owned.perm ?_)
  · obtain rfl | he := List.mem_cons.1 he
    · exact ⟨hwidth, hid⟩
    · exact hk.pooled i bucket hi e he
  · obtain ⟨hlt, hget⟩ := List.getElem?_eq_some_iff.1 hi
    have hset : (s.pool.set i (⟨r, resourceId⟩ :: bucket)).set i bucket = s.pool := by
      rw [List.set_set, ← hget, List.set_getElem_self]
    have hperm := flatten_perm_of_cons
      (List.getElem?_set_self (a := ⟨r, resourceId⟩ :: bucket) hlt)
    rw [hset] at hperm
    exact (((hperm.map Pooled.resource).append_left _).trans List.perm_middle).symm

theorem kept_of_newResource {width : Nat} {deviceFails : Bool} (hk : Kept [] s h)
    (hnew : newResource s width deviceFails = (s', .ok entry)) :
    Kept [entry.resource] s' h ∧ entry.resource.width = width := by
  rw [newResource] at hnew
  split at hnew
  · cases hnew
  · cases hnew
    exact ⟨{ hk with owned := hk.owned.cons width }, rfl⟩

theorem newResource_error {width : Nat} {deviceFails : Bool} {o : Outcome}
    (hnew : newResource s width deviceFails = (s', .error o)) : s' = s ∧ o = .threw := by
  rw [newResource] at hnew
  split at hnew
  · cases hnew
    exact ⟨rfl, rfl⟩
  · cases hnew

theorem kept_of_fromBucket {bucketSize : Nat} {deviceFails : Bool} (hk : Kept [] s h)
    (hi : getBucketSizeFromIndex i = some bucketSize)
    (htake : fromBucket s i bucketSize deviceFails = (s', .ok entry)) :
    Kept [entry.resource] s' h ∧ entry.resource.width = bucketSize ∧
      s'.pool.length = s.pool.length := by
  rw [fromBucket] at htake
  split at htake
  · next hbucket =>
    cases htake
    have hwidth := (hk.pooled i _ hbucket entry List.mem_cons_self).1
    exact ⟨hk.pop hbucket, Option.some.inj (hwidth.symm.trans hi), List.length_set⟩
  · obtain ⟨hkept, hwidth⟩ := kept_of_newResource hk htake
    refine ⟨hkept, hwidth, ?_⟩
    rw [newResource] at htake
    split at htake <;> cases htake
    rfl

theorem fromBucket_error {bucketSize : Nat} {deviceFails : Bool} {o : Outcome}
    (htake : fromBucket s i bucketSize deviceFails = (s', .error o)) : s' = s ∧ o = .threw := by
  rw [fromBucket] at htake
  split at htake
  · cases htake
  · exact newResource_error htake

variable {mode : AllocatorRoundingMode} {deviceFails infoFails : Bool} {o : Outcome}

theorem kept_of_takeResource (hk : Kept [] s h)
    (htake : takeResource s size mode deviceFails = (s', .ok entry)) :
    Kept [entry.resource] s' (h.request mode size) ∧ Fits s' size entry.resource ∧
      size ≤ 2 ^ 63 := by
  rw [takeResource] at htake
  rw [History.request]
  split at htake
  · next hpools =>
    rw [if_pos hpools]
    have hgrown := hk.ensureBuckets size
    have hlt : getBucketIndexFromSize size <
        (ensureBuckets s (getBucketIndexFromSize size)).pool.length :=
      (hgrown.buckets _).2 ⟨size, List.mem_cons_self, le_rfl⟩
    split at htake
    · cases htake
    · next bucketSize hsize =>
      obtain ⟨hkept, hwidth, hlength⟩ := kept_of_fromBucket hgrown hsize htake
      refine ⟨hkept, .inr ⟨hwidth ▸ hsize, hlength ▸ hlt⟩, ?_⟩
      rw [← not_lt, ← bucketSize_eq_none_iff, hsize]
      exact Option.some_ne_none _
  · next hpools =>
    rw [if_neg hpools]
    split at htake
    · cases htake
    · next hsome =>
      obtain ⟨hkept, hwidth⟩ := kept_of_newResource hk htake
      exact ⟨hkept, .inl hwidth, not_lt.1 (mt (bucketSize_eq_none_iff size).2 hsome)⟩

theorem kept_of_takeResource_error (hk : Kept [] s h)
    (htake : takeResource s size mode deviceFails = (s', .error o)) :
    Kept [] s' (h.request mode size) ∧ (o.isDefined ↔ size ≤ 2 ^ 63) := by
  rw [takeResource] at htake
  rw [History.request]
  rw [← not_lt, ← bucketSize_eq_none_iff]
  split at htake
  · next hpools =>
    rw [if_pos hpools]
    split at htake
    · next hnone =>
      cases htake
      exact ⟨hk.ensureBuckets size, by simp [Outcome.isDefined, hnone]⟩
    · next bucketSize hsize =>
      obtain ⟨rfl, rfl⟩ := fromBucket_error htake
      exact ⟨hk.ensureBuckets size, by simp [Outcome.isDefined, hsize]⟩
  · next hpools =>
    rw [if_neg hpools]
    split at htake
    · next hnone =>
      cases htake
      exact ⟨hk, by simp [Outcome.isDefined, hnone]⟩
    · next hsome =>
      obtain ⟨rfl, rfl⟩ := newResource_error htake
      exact ⟨hk, by simp [Outcome.isDefined, hsome]⟩

theorem kept_of_makeInfo (hk : Kept [entry.resource] s h) (hsize : size ≤ 2 ^ 63)
    (hfits : Fits s size entry.resource) (hinfo : makeInfo s size entry infoFails = (s', o)) :
    Kept [] s' h ∧ o.isDefined := by
  rw [makeInfo] at hinfo
  split at hinfo
  · cases hinfo
    exact ⟨{ hk.drop with }, rfl⟩
  · cases hinfo
    refine ⟨⟨fun a ha => ?_, fun a ha => ?_, hk.buckets, hk.owned, hk.pooled⟩, rfl⟩
    · obtain rfl | ha := List.mem_cons.1 ha
      · exact hsize
      · exact hk.requested a ha
    · obtain rfl | ha := List.mem_cons.1 ha
      · exact hfits
      · exact hk.fits a ha

/-- A request leaves what is kept, and does nothing that is not defined unless it is too large. -/
theorem kept_of_allocImpl (hk : Kept [] s h)
    (halloc : allocImpl s size mode deviceFails infoFails = (s', o)) :
    Kept [] s' (h.request mode (max 1 size)) ∧ (o.isDefined ↔ size ≤ 2 ^ 63) := by
  have hmax : max 1 size ≤ 2 ^ 63 ↔ size ≤ 2 ^ 63 := by omega
  rw [allocImpl] at halloc
  split at halloc
  · next t o' htake =>
    cases halloc
    rw [← hmax]
    exact kept_of_takeResource_error hk htake
  · next t entry htake =>
    obtain ⟨hkept, hfits, hsize⟩ := kept_of_takeResource hk htake
    obtain ⟨hkept, hdefined⟩ := kept_of_makeInfo hkept hsize hfits halloc
    exact ⟨hkept, iff_of_true hdefined (hmax.1 hsize)⟩

theorem callerId_cons_ne {r : Resource} (hne : a.resource.handle ≠ r.handle) :
    History.callerId { h with freed := a :: h.freed } r = h.callerId r := by
  rw [History.callerId, List.find?_cons_of_neg (by simpa using hne), History.callerId]

/-- An allocation is taken out of those that are live. -/
theorem Kept.takeOut (hk : Kept [] s h) (ha : a ∈ s.live) :
    Kept [a.resource] { s with live := s.live.erase a }
      { h with freed := a :: h.freed } := by
  have howned : Owned ([a.resource] ++ resources { s with live := s.live.erase a })
      s.nextHandle :=
    hk.owned.perm
      (((List.perm_cons_erase ha).map AllocationInfo.resource).append_right _)
  refine ⟨fun b hb => hk.requested b (List.mem_of_mem_erase hb),
    fun b hb => hk.fits b (List.mem_of_mem_erase hb), hk.buckets, howned,
    fun i bucket hi entry hentry => ?_⟩
  obtain ⟨hwidth, hid⟩ := hk.pooled i bucket hi entry hentry
  refine ⟨hwidth, (callerId_cons_ne (howned.handle_ne ?_)).trans hid⟩
  exact List.mem_append_right _ (List.mem_append_right _ (List.mem_map_of_mem
    (List.mem_flatten.2 ⟨bucket, List.mem_of_getElem? hi, hentry⟩)))

/-- A free leaves what is kept. It finds a bucket for a resource of the size of one, unless it was
the rounding that gave the resource this size. -/
theorem kept_of_freeResource (hk : Kept [] s h) (ha : a ∈ s.live)
    (hfree : freeResource s a = (s', o)) (id : Nat) :
    Kept [] s' (h.next s (.free id) o) ∧ (o.isDefined ↔ (RoundsToBucket a.requestedSize →
      getBucketIndexFromSize a.requestedSize < s.pool.length)) := by
  have hout := hk.takeOut ha
  unfold freeResource at hfree
  rw [RoundsToBucket]
  split at hfree
  · next hnone => exact absurd ((bucketSize_eq_none_iff _).1 hnone) (not_lt.2 (hk.requested a ha))
  · next bucketSize hsize =>
    split at hfree
    · next hwidth =>
      subst hwidth
      rw [returnToBucket] at hfree
      split at hfree
      · next hbucket =>
        cases hfree
        have hge := List.getElem?_eq_none_iff.1 hbucket
        have hround : a.resource.width = roundUp4 a.requestedSize :=
          (hk.fits a ha).resolve_right fun hpooled => not_lt.2 hge hpooled.2
        refine ⟨hk, ?_⟩
        simp [Outcome.isDefined, hsize, hround, hge]
      · next bucket hbucket =>
        cases hfree
        have hlt := (List.getElem?_eq_some_iff.1 hbucket).1
        refine ⟨?_, iff_of_true rfl fun _ => hlt⟩
        exact hout.putBack hbucket hsize (by simp [History.callerId])
    · next hwidth =>
      cases hfree
      refine ⟨hout.drop, iff_of_true rfl fun hround => ?_⟩
      obtain heq | ⟨_, hlt⟩ := hk.fits a ha
      · exact absurd (Option.some.inj (hsize.symm.trans hround)) (heq ▸ hwidth)
      · exact hlt

end BucketizedAllocatorLemmas

open BucketizedAllocatorLemmas

/-! ## Runs -/

/-- A call leaves what is kept, and it is good exactly when it is safe. -/
theorem kept_step {t t' : Allocator × History} {c : Call} {o : Outcome}
    (hk : Kept [] t.1 t.2) (hstep : recording.step t c = some (t', o)) :
    Kept [] t'.1 t'.2 ∧ (Good t c t' o ↔ Safe t c t' o) := by
  obtain ⟨s, h⟩ := t
  obtain ⟨s', h'⟩ := t'
  obtain ⟨hcall, rfl⟩ := Machine.withHistory_step.1 hstep
  suffices hkept : Kept [] s' (h.next s c o) ∧
      (o.isDefined ↔ Safe (s, h) c (s', h.next s c o) o) by
    exact ⟨hkept.1, (and_iff_left hkept.1.sound).trans hkept.2⟩
  cases c with
  | setDefaultRoundingMode mode =>
    cases hcall
    exact ⟨hk.setDefault mode, iff_of_true rfl trivial⟩
  | alloc size mode deviceFails infoFails =>
    exact kept_of_allocImpl hk (Option.some.inj hcall)
  | free id =>
    obtain ⟨a, hfind, hfree⟩ := Option.map_eq_some_iff.1 hcall
    obtain ⟨hkept, hdefined⟩ := kept_of_freeResource hk (List.mem_of_find?_eq_some hfind) hfree id
    refine ⟨hkept, hdefined.trans ?_⟩
    rw [hk.buckets]
    constructor
    · rintro hsafe b hb
      cases hfind.symm.trans hb
      exact hsafe
    · exact fun hsafe => hsafe a hfind

/-- In a run, all allocations and all pooled resources are right exactly when all its calls are
safe. -/
theorem allocations_sound_iff (calls : List Call) :
    recording.Every Good ({}, {}) calls ↔ recording.Every Safe ({}, {}) calls :=
  Machine.Every.congr_of_kept (fun t => Kept [] t.1 t.2) (fun _ _ _ _ => kept_step) kept_init calls

/-- The allocator behind a request for 65533 bytes. They got a resource of 64 KB of their own. -/
def afterRequest : Allocator where
  currentAllocationId := 1
  currentResourceId := 1
  live := [⟨1, 1, ⟨0, 65536⟩, 65533⟩]
  nextHandle := 1

/-- Without rounding, there is no bucket for 65533 bytes. When they are freed, the resource has the
size of one, and the pool is indexed where it is empty. -/
theorem free_outOfBounds :
    ¬ recording.Every Good ({}, {}) [.alloc 65533 none false false, .free 1] := by
  intro hgood
  have halloc : recording.step ({}, {}) (.alloc 65533 none false false) =
      some ((afterRequest, {}), .allocated ⟨1, 1, ⟨0, 65536⟩, 65533⟩) := by decide
  have hfree : recording.step (afterRequest, {}) (.free 1) =
      some ((afterRequest, {}), .outOfBounds) := by decide
  obtain ⟨_, hgood⟩ := (Machine.Every.cons halloc).1 hgood
  obtain ⟨⟨hdefined, _⟩, _⟩ := (Machine.Every.cons hfree).1 hgood
  exact absurd hdefined (by decide)

end AmdGpuEp.DirectML.BucketizedAllocator
