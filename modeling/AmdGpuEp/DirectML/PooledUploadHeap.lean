import AmdGpuEp.Lib.RingRanges
import AmdGpuEp.Lib.Runs
import Mathlib.Algebra.Order.Ring.Nat
import Mathlib.Data.List.Nodup
import Mathlib.Data.List.TakeWhile

/-!
# The upload heap

`dml_pooled_upload_heap.cc`. What is uploaded is copied to a range of a chunk, from which the GPU
reads it later. Each chunk is used as a ring. A range is free again when the fence of its upload is
signaled, and whether the ring has wrapped is seen from the first and the last allocation alone.

Results:
1. `Placed.ring`, `Placed.apart`: where an allocation is placed, the chunk is still a ring, and
   nothing is overlapped.
2. `uploads_apart`: the runs in which no range leaves its chunk or overlaps one that is in use.
3. `emptyUpload_overlaps`: an empty upload behind which a chunk looks empty.
4. `largeUpload_overruns`: an upload that is larger than the largest chunk.
-/

namespace AmdGpuEp.DirectML.PooledUploadHeap

/-! ## Sizes -/

/-- `c_minChunkSize`: 1 MB -/
def c_minChunkSize : Nat := 1024 * 1024

/-- `c_allocationAlignment` -/
def c_allocationAlignment : Nat := 512

/-- `c_maxChunkSize` -/
def c_maxChunkSize : Nat := 0xFFFF0000

/-- A sum of the type `size_t`. -/
def addSize (a b : Nat) : Nat :=
  (a + b) % 2 ^ 64

/-- `Align`, for a power of two. -/
def align (offset alignment : Nat) : Nat :=
  addSize offset (alignment - 1) / alignment * alignment

/-! ## Chunks -/

structure Allocation where
  sizeInBytes : Nat
  offsetInChunk : Nat
  doneEvent : Nat
  deriving DecidableEq, Repr

/-- A chunk, with its resource by a number. -/
structure Chunk where
  capacityInBytes : Nat
  resource : Nat
  allocations : List Allocation := []
  deriving DecidableEq, Repr

def Allocation.span (a : Allocation) : Span Nat :=
  ⟨a.offsetInChunk, a.offsetInChunk + a.sizeInBytes, Nat.le_add_right _ _⟩

/-- The first place behind an allocation. -/
def Allocation.newBegin (a : Allocation) : Nat :=
  align (addSize a.offsetInChunk a.sizeInBytes) c_allocationAlignment

/-- `FindOffsetForAllocation` -/
def findOffsetForAllocation (chunk : Chunk) (sizeInBytes : Nat) : Option Nat :=
  if chunk.capacityInBytes < sizeInBytes then none
  else
    match chunk.allocations.head?, chunk.allocations.getLast? with
    | some first, some last =>
      if addSize last.newBegin sizeInBytes < last.newBegin then none
      else if first.offsetInChunk ≤ last.offsetInChunk then
        if addSize last.newBegin sizeInBytes ≤ chunk.capacityInBytes then some last.newBegin
        else if addSize 0 sizeInBytes ≤ first.offsetInChunk then some 0
        else none
      else if addSize last.newBegin sizeInBytes ≤ first.offsetInChunk then some last.newBegin
      else none
    | _, _ => some 0

/-! ## The heap -/

/-- The fence of the queue: the last value that was submitted, and the value it has. -/
structure Fence where
  submitted : Nat := 0
  completed : Nat := 0
  deriving DecidableEq, Repr

/-- The GPU executes `n` more submissions, those that there are. -/
def Fence.advance (f : Fence) (n : Nat) : Fence :=
  { f with completed := max f.completed (min f.submitted (f.completed + n)) }

def Fence.isSignaled (f : Fence) (event : Nat) : Bool :=
  event ≤ f.completed

structure Heap where
  chunks : List Chunk := []
  totalCapacity : Nat := 0
  fence : Fence := {}
  nextResource : Nat := 0
  deriving DecidableEq, Repr

/-- The loop of `ReclaimAllocations` over one chunk. -/
def Chunk.reclaim (chunk : Chunk) (f : Fence) : Chunk :=
  { chunk with allocations := chunk.allocations.dropWhile fun a => f.isSignaled a.doneEvent }

/-- `ReclaimAllocations`. The GPU may go on before each chunk is looked at. -/
def reclaimAllocations : List Chunk → List Nat → Fence → List Chunk × Fence
  | [], _, f => ([], f)
  | chunk :: chunks, progress, f =>
    let rest := reclaimAllocations chunks progress.tail (f.advance (progress.headD 0))
    (chunk.reclaim (f.advance (progress.headD 0)) :: rest.1, rest.2)

def Heap.reclaim (heap : Heap) (progress : List Nat) : Heap :=
  { heap with
    chunks := (reclaimAllocations heap.chunks progress heap.fence).1
    fence := (reclaimAllocations heap.chunks progress heap.fence).2 }

/-- The size of a new chunk. -/
def Heap.newChunkSize (heap : Heap) (sizeInBytes : Nat) : Nat :=
  min (max heap.totalCapacity (max c_minChunkSize sizeInBytes)) c_maxChunkSize

/-- `CreateChunk`, put to the back of the chunks. -/
def Heap.createChunk (heap : Heap) (sizeInBytes : Nat) : Heap :=
  { heap with
    chunks := heap.chunks ++ [⟨heap.newChunkSize sizeInBytes, heap.nextResource, []⟩]
    totalCapacity := heap.totalCapacity + heap.newChunkSize sizeInBytes
    nextResource := heap.nextResource + 1 }

/-- What may throw in an upload: the creation of a chunk, its mapping, the recording of the copy. -/
inductive Fault
  | none
  | create
  | map
  | copy
  deriving DecidableEq, Repr

/-- A range that was reserved: its chunk, and its allocation without the event. -/
structure Reservation where
  resource : Nat
  capacityInBytes : Nat
  offsetInChunk : Nat
  sizeInBytes : Nat
  deriving DecidableEq, Repr

/-- The chunk and the offset that the loop of `Reserve` finds. -/
def Heap.findReservation (heap : Heap) (sizeInBytes : Nat) : Option Reservation :=
  heap.chunks.findSome? fun chunk =>
    (findOffsetForAllocation chunk sizeInBytes).map fun offset =>
      ⟨chunk.resource, chunk.capacityInBytes, offset, sizeInBytes⟩

/-- `Reserve`. It throws where a chunk is needed that the device does not create. -/
def Heap.reserve (heap : Heap) (sizeInBytes : Nat) (fault : Fault) : Option (Heap × Reservation) :=
  match heap.findReservation sizeInBytes with
  | some reservation => some (heap, reservation)
  | none =>
    if fault = .create then none
    else
      some (heap.createChunk sizeInBytes,
        ⟨heap.nextResource, heap.newChunkSize sizeInBytes, 0, sizeInBytes⟩)

/-- The entry of an allocation is added to its chunk. -/
def Chunk.push (chunk : Chunk) (r : Reservation) (doneEvent : Nat) : Chunk :=
  if chunk.resource = r.resource then
    { chunk with
      allocations := chunk.allocations ++ [⟨r.sizeInBytes, r.offsetInChunk, doneEvent⟩] }
  else chunk

inductive Outcome
  | done
  /-- An upload has thrown, with what it had reserved. -/
  | threw (reservation : Option Reservation)
  | uploaded (reservation : Reservation) (doneEvent : Nat)
  deriving DecidableEq, Repr

def Outcome.reservation : Outcome → Option Reservation
  | .done => none
  | .threw reservation => reservation
  | .uploaded reservation _ => some reservation

/-- The end of `BeginUploadToGpu`. The copy is recorded for the next submission, and `submits` are
made before it. -/
def Heap.record (heap : Heap) (r : Reservation) (submits : Nat) : Heap × Outcome :=
  let doneEvent := heap.fence.submitted + submits + 1
  ({ heap with
      fence := { heap.fence with submitted := heap.fence.submitted + submits }
      chunks := heap.chunks.map fun chunk => chunk.push r doneEvent },
    .uploaded r doneEvent)

/-- `BeginUploadToGpu` -/
def Heap.beginUploadToGpu (heap : Heap) (sizeInBytes : Nat) (progress : List Nat) (submits : Nat)
    (fault : Fault) : Heap × Outcome :=
  match (heap.reclaim progress).reserve sizeInBytes fault with
  | none => (heap.reclaim progress, .threw none)
  | some (heap, reservation) =>
    if fault = .map ∨ fault = .copy then (heap, .threw (some reservation))
    else heap.record reservation submits

/-- `Trim` -/
def Heap.trim (heap : Heap) (progress : List Nat) : Heap :=
  let chunks := (heap.reclaim progress).chunks.filter fun chunk => !chunk.allocations.isEmpty
  { heap.reclaim progress with
    chunks
    totalCapacity := (chunks.map Chunk.capacityInBytes).sum }

/-- The calls of the heap, and what happens on the queue between them. -/
inductive Call
  | upload (sizeInBytes : Nat) (progress : List Nat) (submits : Nat) (fault : Fault)
  | trim (progress : List Nat)
  | submit
  | complete (n : Nat)
  deriving DecidableEq, Repr

def machine : Machine Heap Call Outcome where
  step heap
    | .upload sizeInBytes progress submits fault =>
      some (heap.beginUploadToGpu sizeInBytes progress submits fault)
    | .trim progress => some (heap.trim progress, .done)
    | .submit =>
      some ({ heap with fence := { heap.fence with submitted := heap.fence.submitted + 1 } }, .done)
    | .complete n => some ({ heap with fence := heap.fence.advance n }, .done)

/-! ## The property -/

/-- An allocation that was made, with its resource. -/
structure Upload where
  resource : Nat
  allocation : Allocation
  deriving DecidableEq, Repr

/-- All uploads so far, the newest first. -/
def next (uploads : List Upload) : Outcome → List Upload
  | .uploaded r doneEvent =>
    ⟨r.resource, ⟨r.sizeInBytes, r.offsetInChunk, doneEvent⟩⟩ :: uploads
  | _ => uploads

/-- The heap with its history. -/
def recording : Machine (Heap × List Upload) Call Outcome :=
  machine.withHistory fun uploads _ _ _ o => next uploads o

def Reservation.span (r : Reservation) : Span Nat :=
  ⟨r.offsetInChunk, r.offsetInChunk + r.sizeInBytes, Nat.le_add_right _ _⟩

/-- A range that a call reserves lies in its chunk, and apart from all uploads that were made there
and of which the fence is not signaled. -/
def Good (t : Heap × List Upload) (_ : Call) (t' : Heap × List Upload) (o : Outcome) : Prop :=
  ∀ r ∈ o.reservation, r.offsetInChunk + r.sizeInBytes ≤ r.capacityInBytes ∧
    ∀ u ∈ t.2, u.resource = r.resource → t'.1.fence.isSignaled u.allocation.doneEvent = false →
      ¬ u.allocation.span.Overlaps r.span

instance (t : Heap × List Upload) (c : Call) (t' : Heap × List Upload) (o : Outcome) :
    Decidable (Good t c t' o) := by
  unfold Good
  infer_instance

/-- A chunk in which an empty allocation would be put where the first one starts, though there are
others: its end is reached and the first one is at its bottom, or the ring is full. -/
def Chunk.Exhausted (chunk : Chunk) : Prop :=
  ∃ first ∈ chunk.allocations.head?, ∃ last ∈ chunk.allocations.getLast?,
    first.offsetInChunk ≤ last.offsetInChunk ∧ chunk.capacityInBytes < last.newBegin ∧
        first.offsetInChunk = 0 ∨
      last.offsetInChunk < first.offsetInChunk ∧ last.newBegin = first.offsetInChunk

instance (chunk : Chunk) : Decidable chunk.Exhausted := by
  unfold Chunk.Exhausted
  infer_instance

/-- The calls that are safe: no upload is larger than the largest chunk, and no empty one is made
while the first chunk is exhausted. -/
def Safe (t : Heap × List Upload) (c : Call) (_ : Heap × List Upload) (_ : Outcome) : Prop :=
  match c with
  | .upload sizeInBytes progress _ fault =>
    (sizeInBytes ≤ c_maxChunkSize ∨ fault = .create) ∧
      (sizeInBytes = 0 → ¬ (fault = .map ∨ fault = .copy) →
        ∀ chunk ∈ (t.1.reclaim progress).chunks.head?, ¬ chunk.Exhausted)
  | _ => True

instance (t : Heap × List Upload) (c : Call) (t' : Heap × List Upload) (o : Outcome) :
    Decidable (Safe t c t' o) := by
  cases c <;> unfold Safe <;> infer_instance

namespace PooledUploadHeapLemmas

/-! ## Offsets -/

theorem addSize_eq {a b : Nat} (h : a + b < 2 ^ 64) : addSize a b = a + b :=
  Nat.mod_eq_of_lt h

variable {chunk : Chunk} {a first last : Allocation} {sizeInBytes offset doneEvent : Nat}

/-- The next place that is aligned. -/
theorem newBegin_spec (h : a.span.stop ≤ c_maxChunkSize) :
    c_allocationAlignment ∣ a.newBegin ∧ a.span.stop ≤ a.newBegin ∧
      a.newBegin < a.span.stop + c_allocationAlignment := by
  rw [c_maxChunkSize] at h
  have hsum : addSize a.offsetInChunk a.sizeInBytes = a.span.stop :=
    addSize_eq (lt_of_le_of_lt h (by decide))
  rw [Allocation.newBegin, align, hsum, c_allocationAlignment, addSize_eq (by omega)]
  refine ⟨Nat.dvd_mul_left _ _, ?_, ?_⟩ <;> omega

/-- What holds of a chunk: its allocations are a ring. -/
structure Kept (chunk : Chunk) : Prop where
  capacity : chunk.capacityInBytes ≤ c_maxChunkSize
  ring : Ring chunk.capacityInBytes (chunk.allocations.map Allocation.span)
  aligned : ∀ a ∈ chunk.allocations, c_allocationAlignment ∣ a.offsetInChunk

theorem Kept.stop_le (hk : Kept chunk) (ha : a ∈ chunk.allocations) :
    a.span.stop ≤ chunk.capacityInBytes :=
  hk.ring.le_top _ (List.mem_map_of_mem ha)

theorem Kept.newBegin_spec (hk : Kept chunk) (ha : a ∈ chunk.allocations) :
    c_allocationAlignment ∣ a.newBegin ∧ a.span.stop ≤ a.newBegin ∧
      a.newBegin < a.span.stop + c_allocationAlignment :=
  PooledUploadHeapLemmas.newBegin_spec ((hk.stop_le ha).trans hk.capacity)

theorem head_span (h : chunk.allocations.head? = some a) :
    (chunk.allocations.map Allocation.span).head? = some a.span := by
  rw [List.head?_map, h, Option.map_some]

theorem last_span (h : chunk.allocations.getLast? = some a) :
    (chunk.allocations.map Allocation.span).getLast? = some a.span := by
  rw [List.getLast?_map, h, Option.map_some]

/-- The ways to find an offset: in an empty chunk, behind the last allocation, at the bottom below
the first one, and between the last one and the first one. -/
inductive Placed (chunk : Chunk) (sizeInBytes : Nat) : Nat → Prop
  | empty : chunk.allocations = [] → sizeInBytes ≤ chunk.capacityInBytes →
      Placed chunk sizeInBytes 0
  | after {first last : Allocation} : chunk.allocations.head? = some first →
      chunk.allocations.getLast? = some last → first.offsetInChunk ≤ last.offsetInChunk →
      last.newBegin + sizeInBytes ≤ chunk.capacityInBytes →
      Placed chunk sizeInBytes last.newBegin
  | below {first last : Allocation} : chunk.allocations.head? = some first →
      chunk.allocations.getLast? = some last → first.offsetInChunk ≤ last.offsetInChunk →
      chunk.capacityInBytes < last.newBegin + sizeInBytes →
      sizeInBytes ≤ first.offsetInChunk → Placed chunk sizeInBytes 0
  | between {first last : Allocation} : chunk.allocations.head? = some first →
      chunk.allocations.getLast? = some last → last.offsetInChunk < first.offsetInChunk →
      last.newBegin + sizeInBytes ≤ first.offsetInChunk → Placed chunk sizeInBytes last.newBegin

theorem addSize_newBegin (hk : Kept chunk) (ha : a ∈ chunk.allocations)
    (hsize : sizeInBytes ≤ chunk.capacityInBytes) :
    addSize a.newBegin sizeInBytes = a.newBegin + sizeInBytes := by
  have hlt := (hk.newBegin_spec ha).2.2
  have hstop := hk.stop_le ha
  have hcapacity := hk.capacity
  rw [c_maxChunkSize] at hcapacity
  rw [c_allocationAlignment] at hlt
  exact addSize_eq (by omega)

theorem placed_of_findOffset (hk : Kept chunk)
    (hfind : findOffsetForAllocation chunk sizeInBytes = some offset) :
    Placed chunk sizeInBytes offset := by
  rw [findOffsetForAllocation] at hfind
  split at hfind
  · cases hfind
  · next hsize =>
    rw [not_lt] at hsize
    split at hfind
    · next first last hfirst hlast =>
      have hsum := addSize_newBegin hk (List.mem_of_getLast? hlast) hsize
      have hzero : addSize 0 sizeInBytes = sizeInBytes := by
        have hcapacity := hsize.trans hk.capacity
        rw [c_maxChunkSize] at hcapacity
        rw [addSize_eq (by omega), Nat.zero_add]
      rw [hsum, hzero] at hfind
      split_ifs at hfind with hover hle hafter hbelow hbetween
      · cases hfind
        exact .after hfirst hlast hle hafter
      · cases hfind
        exact .below hfirst hlast hle (not_le.1 hafter) hbelow
      · cases hfind
        exact .between hfirst hlast (not_le.1 hle) hbetween
    · next hnot =>
      cases hfind
      refine .empty ?_ hsize
      cases hallocations : chunk.allocations with
      | nil => rfl
      | cons b rest =>
        refine absurd (hnot b ((b :: rest).getLast (List.cons_ne_nil b rest)) ?_ ?_) id
        · rw [hallocations]
          rfl
        · rw [hallocations]
          exact List.getLast?_eq_some_getLast _

theorem Kept.of_nil (hcapacity : chunk.capacityInBytes ≤ c_maxChunkSize)
    (hnil : chunk.allocations = []) : Kept chunk where
  capacity := hcapacity
  ring := by
    rw [hnil]
    exact Ring.of_sorted List.Pairwise.nil fun _ ha => nomatch ha
  aligned := by
    rw [hnil]
    exact fun _ ha => nomatch ha

theorem Kept.first_le (hk : Kept chunk) (hfirst : chunk.allocations.head? = some first) :
    first.offsetInChunk ≤ chunk.capacityInBytes :=
  first.span.start_le.trans (hk.stop_le (List.mem_of_head? hfirst))

/-- An allocation that is placed ends in the chunk. -/
theorem Placed.inside (hk : Kept chunk) (hplaced : Placed chunk sizeInBytes offset) :
    offset + sizeInBytes ≤ chunk.capacityInBytes := by
  cases hplaced with
  | empty _ hsize => rwa [Nat.zero_add]
  | after _ _ _ hafter => exact hafter
  | below hfirst _ _ _ hbelow =>
    rw [Nat.zero_add]
    exact hbelow.trans (hk.first_le hfirst)
  | between hfirst _ _ hbetween => exact hbetween.trans (hk.first_le hfirst)

theorem Placed.aligned (hk : Kept chunk) (hplaced : Placed chunk sizeInBytes offset) :
    c_allocationAlignment ∣ offset := by
  cases hplaced with
  | empty => exact Nat.dvd_zero _
  | after _ hlast => exact (hk.newBegin_spec (List.mem_of_getLast? hlast)).1
  | below => exact Nat.dvd_zero _
  | between _ hlast => exact (hk.newBegin_spec (List.mem_of_getLast? hlast)).1

/-- Unless an empty one is put into an exhausted chunk, the allocations are still a ring. -/
theorem Placed.ring (hk : Kept chunk) (hplaced : Placed chunk sizeInBytes offset)
    (hsafe : sizeInBytes = 0 → ¬ chunk.Exhausted) :
    Ring chunk.capacityInBytes (chunk.allocations.map Allocation.span ++
      [(⟨sizeInBytes, offset, doneEvent⟩ : Allocation).span]) := by
  have hinside := hplaced.inside hk
  cases hplaced with
  | empty hnil =>
    rw [hnil]
    exact Ring.of_sorted (List.pairwise_singleton _ _) fun a ha => by
      rw [List.mem_singleton.1 ha]
      exact hinside
  | after hfirst hlast hle =>
    exact hk.ring.push_after (head_span hfirst) (last_span hlast) hle
      (hk.newBegin_spec (List.mem_of_getLast? hlast)).2.1 hinside
  | @below first last hfirst hlast hle hfull hbelow =>
    refine hk.ring.push_below (head_span hfirst) (last_span hlast) hle ?_ ?_
    · exact (Nat.zero_add _).trans_le hbelow
    · show 0 < first.offsetInChunk
      refine Nat.pos_of_ne_zero fun hzero => ?_
      have hempty : sizeInBytes = 0 := Nat.le_zero.1 (hzero ▸ hbelow)
      rw [hempty, Nat.add_zero] at hfull
      exact hsafe hempty ⟨first, hfirst, last, hlast, .inl ⟨hle, hfull, hzero⟩⟩
  | @between first last hfirst hlast hlt hbetween =>
    refine hk.ring.push_between (head_span hfirst) (last_span hlast) hlt
      (hk.newBegin_spec (List.mem_of_getLast? hlast)).2.1 hbetween ?_
    show last.newBegin < first.offsetInChunk
    refine lt_of_le_of_ne ((Nat.le_add_right _ _).trans hbetween) fun heq => ?_
    have hempty : sizeInBytes = 0 := by
      rw [heq] at hbetween
      exact Nat.le_zero.1 (Nat.le_of_add_le_add_left hbetween)
    exact hsafe hempty ⟨first, hfirst, last, hlast, .inr ⟨hlt, heq⟩⟩

/-- What is placed overlaps no allocation of the chunk. -/
theorem Placed.apart (hk : Kept chunk) (hplaced : Placed chunk sizeInBytes offset)
    (ha : a ∈ chunk.allocations) (doneEvent : Nat) :
    ¬ a.span.Overlaps (⟨sizeInBytes, offset, doneEvent⟩ : Allocation).span := by
  rcases Nat.eq_zero_or_pos sizeInBytes with rfl | hpos
  · exact Span.not_overlaps_empty rfl
  · have hring : Ring chunk.capacityInBytes (chunk.allocations.map Allocation.span ++
        [(⟨sizeInBytes, offset, doneEvent⟩ : Allocation).span]) :=
      hplaced.ring hk fun hzero => absurd hzero hpos.ne'
    exact (List.pairwise_append.1 hring.pairwise).2.2 _ (List.mem_map_of_mem ha) _
      (List.mem_singleton_self _)

/-- An empty allocation is placed in every chunk. -/
theorem exists_findOffset_empty (hk : Kept chunk) :
    ∃ offset, findOffsetForAllocation chunk 0 = some offset := by
  rw [findOffsetForAllocation, if_neg (Nat.not_lt_zero _)]
  split
  · next first last hfirst hlast =>
    have hmem := List.mem_of_getLast? hlast
    have hspec := hk.newBegin_spec hmem
    rw [addSize_newBegin hk hmem (Nat.zero_le _), Nat.add_zero, if_neg (lt_irrefl _)]
    split_ifs with hle hafter hbelow hbetween
    · exact ⟨_, rfl⟩
    · exact ⟨_, rfl⟩
    · exact absurd (Nat.zero_le _) hbelow
    · exact ⟨_, rfl⟩
    · obtain ⟨upper, lower, heq, hruns, hupper, hlower⟩ :=
        hk.ring.runs (head_span hfirst) (last_span hlast) (not_le.1 hle)
      have hbelow : last.span.stop ≤ first.offsetInChunk :=
        (hruns.below _ (List.mem_of_getLast? hlower) _ (List.mem_of_head? hupper)).1
      have haligned := hk.aligned first (List.mem_of_head? hfirst)
      rw [c_allocationAlignment] at hspec haligned
      omega
  · exact ⟨_, rfl⟩

/-! ## Chunks whose allocations are given back -/

/-- Chunks and what is left of them, each at a time when the fence was not further than it is. -/
structure Reclaimed (f : Fence) (chunks chunks' : List Chunk) : Prop where
  resources : chunks'.map Chunk.resource = chunks.map Chunk.resource
  left : ∀ chunk ∈ chunks, ∃ g : Fence, g.completed ≤ f.completed ∧ chunk.reclaim g ∈ chunks'
  right : ∀ chunk' ∈ chunks', ∃ chunk ∈ chunks, ∃ g, chunk' = chunk.reclaim g

theorem reclaimAllocations_spec (chunks : List Chunk) (progress : List Nat) (f : Fence) :
    f.completed ≤ (reclaimAllocations chunks progress f).2.completed ∧
      Reclaimed (reclaimAllocations chunks progress f).2 chunks
        (reclaimAllocations chunks progress f).1 := by
  induction chunks generalizing progress f with
  | nil => exact ⟨le_rfl, rfl, (fun _ hmem => nomatch hmem), (fun _ hmem => nomatch hmem)⟩
  | cons chunk chunks ih =>
    obtain ⟨hle, hrest⟩ := ih progress.tail (f.advance (progress.headD 0))
    refine ⟨(le_max_left _ _).trans hle, congrArg (chunk.resource :: ·) hrest.resources, ?_, ?_⟩
    · intro c hc
      obtain rfl | hc := List.mem_cons.1 hc
      · exact ⟨_, hle, List.mem_cons_self⟩
      · obtain ⟨g, hg, hmem⟩ := hrest.left c hc
        exact ⟨g, hg, List.mem_cons_of_mem _ hmem⟩
    · intro c' hc'
      obtain rfl | hc' := List.mem_cons.1 hc'
      · exact ⟨chunk, List.mem_cons_self, _, rfl⟩
      · obtain ⟨c, hc, hg⟩ := hrest.right c' hc'
        exact ⟨c, List.mem_cons_of_mem _ hc, hg⟩

theorem isSignaled_mono {f g : Fence} (hle : g.completed ≤ f.completed) {event : Nat}
    (h : f.isSignaled event = false) : g.isSignaled event = false := by
  rw [Fence.isSignaled, decide_eq_false_iff_not] at h ⊢
  exact fun hg => h (hg.trans hle)

theorem Kept.reclaim (hk : Kept chunk) (f : Fence) : Kept (chunk.reclaim f) where
  capacity := hk.capacity
  ring := hk.ring.suffix ((List.dropWhile_suffix _).map _)
  aligned := fun a ha => hk.aligned a ((List.dropWhile_suffix _).subset ha)

theorem mem_dropWhile_of_not {α : Type} {p : α → Bool} {l : List α} {x : α} (hx : x ∈ l)
    (hp : p x = false) : x ∈ l.dropWhile p := by
  have hmem : x ∈ l.takeWhile p ++ l.dropWhile p := by rwa [List.takeWhile_append_dropWhile]
  refine (List.mem_append.1 hmem).resolve_left fun htaken => ?_
  exact absurd (List.mem_takeWhile_imp htaken) (by rw [hp]; exact Bool.false_ne_true)

/-! ## The invariant -/

variable {heap heap' : Heap} {uploads : List Upload} {r : Reservation} {fault : Fault}

/-- What the calls keep: every chunk is a ring, with its own resource, and it has the allocations of
the uploads of which the fence is not signaled. -/
structure Inv (heap : Heap) (uploads : List Upload) : Prop where
  kept : ∀ chunk ∈ heap.chunks, Kept chunk
  nodup : (heap.chunks.map Chunk.resource).Nodup
  fresh : ∀ chunk ∈ heap.chunks, chunk.resource < heap.nextResource
  known : ∀ u ∈ uploads, u.resource < heap.nextResource
  inUse : ∀ u ∈ uploads, heap.fence.isSignaled u.allocation.doneEvent = false →
    ∃ chunk ∈ heap.chunks, chunk.resource = u.resource ∧ u.allocation ∈ chunk.allocations

theorem inv_init : Inv {} [] where
  kept := fun _ hmem => nomatch hmem
  nodup := List.nodup_nil
  fresh := fun _ hmem => nomatch hmem
  known := fun _ hmem => nomatch hmem
  inUse := fun _ hmem => nomatch hmem

/-- The fence goes on. -/
theorem Inv.fence (h : Inv heap uploads) {f : Fence} (hle : heap.fence.completed ≤ f.completed) :
    Inv { heap with fence := f } uploads :=
  { h with inUse := fun u hu hsignaled => h.inUse u hu (isSignaled_mono hle hsignaled) }

theorem Inv.reclaim (h : Inv heap uploads) (progress : List Nat) :
    Inv (heap.reclaim progress) uploads := by
  obtain ⟨hle, hchunks⟩ := reclaimAllocations_spec heap.chunks progress heap.fence
  refine ⟨fun c' hc' => ?_, ?_, fun c' hc' => ?_, h.known, fun u hu hsignaled => ?_⟩
  · obtain ⟨c, hc, g, rfl⟩ := hchunks.right c' hc'
    exact (h.kept c hc).reclaim g
  · exact hchunks.resources ▸ h.nodup
  · obtain ⟨c, hc, g, rfl⟩ := hchunks.right c' hc'
    exact h.fresh c hc
  · obtain ⟨c, hc, hresource, hmem⟩ := h.inUse u hu (isSignaled_mono hle hsignaled)
    obtain ⟨g, hg, hc'⟩ := hchunks.left c hc
    exact ⟨_, hc', hresource, mem_dropWhile_of_not hmem (isSignaled_mono hg hsignaled)⟩

theorem Inv.trim (h : Inv heap uploads) (progress : List Nat) :
    Inv (heap.trim progress) uploads := by
  have hreclaimed := h.reclaim progress
  refine ⟨fun c hc => hreclaimed.kept c (List.mem_of_mem_filter hc),
    hreclaimed.nodup.sublist (List.filter_sublist.map _),
    fun c hc => hreclaimed.fresh c (List.mem_of_mem_filter hc), hreclaimed.known,
    fun u hu hsignaled => ?_⟩
  obtain ⟨c, hc, hresource, hmem⟩ := hreclaimed.inUse u hu hsignaled
  refine ⟨c, List.mem_filter.2 ⟨hc, ?_⟩, hresource, hmem⟩
  rw [Bool.not_eq_true', List.isEmpty_eq_false_iff]
  exact List.ne_nil_of_mem hmem

theorem Inv.createChunk (h : Inv heap uploads) (sizeInBytes : Nat) :
    Inv (heap.createChunk sizeInBytes) uploads := by
  refine ⟨fun c hc => ?_, ?_, fun c hc => ?_, fun u hu => Nat.lt_succ_of_lt (h.known u hu),
    fun u hu hsignaled => ?_⟩
  · obtain hc | hc := List.mem_append.1 hc
    · exact h.kept c hc
    · rw [List.mem_singleton.1 hc]
      exact .of_nil (min_le_right _ _) rfl
  · show ((heap.chunks ++ _).map Chunk.resource).Nodup
    rw [List.map_append, List.map_singleton, List.nodup_append]
    refine ⟨h.nodup, List.nodup_singleton _, fun n hn m hm => ?_⟩
    obtain ⟨c, hc, rfl⟩ := List.mem_map.1 hn
    rw [List.mem_singleton.1 hm]
    exact (h.fresh c hc).ne
  · obtain hc | hc := List.mem_append.1 hc
    · exact Nat.lt_succ_of_lt (h.fresh c hc)
    · rw [List.mem_singleton.1 hc]
      exact Nat.lt_succ_self _
  · obtain ⟨c, hc, hresource, hmem⟩ := h.inUse u hu hsignaled
    exact ⟨c, List.mem_append_left _ hc, hresource, hmem⟩

/-! ## Reservations -/

/-- A chunk in which the range of a reservation is placed, if the heap is not changed. -/
structure Found (heap : Heap) (r : Reservation) (chunk : Chunk) : Prop where
  mem : chunk ∈ heap.chunks
  resource : chunk.resource = r.resource
  capacity : chunk.capacityInBytes = r.capacityInBytes
  placed : Placed chunk r.sizeInBytes r.offsetInChunk

theorem find_spec (h : Inv heap uploads)
    (hfind : heap.findReservation sizeInBytes = some r) :
    ∃ chunk, Found heap r chunk ∧ r.sizeInBytes = sizeInBytes ∧
      (sizeInBytes = 0 → heap.chunks.head? = some chunk) := by
  obtain ⟨before, chunk, after, heq, hchunk, hbefore⟩ := List.findSome?_eq_some_iff.1 hfind
  obtain ⟨offset, hoffset, rfl⟩ := Option.map_eq_some_iff.1 hchunk
  have hmem : chunk ∈ heap.chunks := by
    rw [heq]
    exact List.mem_append_right _ List.mem_cons_self
  refine ⟨chunk, ⟨hmem, rfl, rfl, placed_of_findOffset (h.kept chunk hmem) hoffset⟩, rfl, ?_⟩
  rintro rfl
  cases before with
  | nil => rw [heq, List.nil_append, List.head?_cons]
  | cons first before =>
    have hfirst : first ∈ heap.chunks := by
      rw [heq]
      exact List.mem_cons_self
    obtain ⟨offset, hplaced⟩ := exists_findOffset_empty (h.kept first hfirst)
    have hnone := hbefore first List.mem_cons_self
    rw [hplaced] at hnone
    cases hnone

/-- Behind `Reserve` there is a chunk for the reservation: one that was there, the first one for an
empty upload, or a new one. -/
theorem reserve_spec (h : Inv heap uploads)
    (hsize : sizeInBytes ≤ c_maxChunkSize ∨ fault = .create)
    (hreserve : heap.reserve sizeInBytes fault = some (heap', r)) :
    Inv heap' uploads ∧ ∃ chunk, Found heap' r chunk ∧ heap'.fence = heap.fence ∧
      r.sizeInBytes = sizeInBytes ∧
      ((sizeInBytes = 0 → heap.chunks.head? = some chunk) ∨ chunk.allocations = []) := by
  rw [Heap.reserve] at hreserve
  split at hreserve
  · next reservation hfind =>
    cases hreserve
    obtain ⟨chunk, hfound, hempty, hhead⟩ := find_spec h hfind
    exact ⟨h, chunk, hfound, rfl, hempty, .inl hhead⟩
  · split at hreserve
    · cases hreserve
    · next hcreate =>
      cases hreserve
      have hle : sizeInBytes ≤ heap.newChunkSize sizeInBytes :=
        le_min ((le_max_right _ _).trans (le_max_right _ _)) (hsize.resolve_right hcreate)
      refine ⟨h.createChunk sizeInBytes, ⟨heap.newChunkSize sizeInBytes, heap.nextResource, []⟩,
        ⟨List.mem_append_right _ (List.mem_singleton_self _), rfl, rfl, .empty rfl hle⟩, rfl, rfl,
        .inr rfl⟩

theorem Found.unique (hfound : Found heap r chunk) (h : Inv heap uploads) {c : Chunk}
    (hc : c ∈ heap.chunks) (hresource : c.resource = r.resource) : c = chunk :=
  List.inj_on_of_nodup_map h.nodup hc hfound.mem (hresource.trans hfound.resource.symm)

/-- What is reserved lies in its chunk, and apart from what is in use. -/
theorem Found.good (hfound : Found heap r chunk) (h : Inv heap uploads) :
    r.offsetInChunk + r.sizeInBytes ≤ r.capacityInBytes ∧
      ∀ u ∈ uploads, u.resource = r.resource →
        heap.fence.isSignaled u.allocation.doneEvent = false →
          ¬ u.allocation.span.Overlaps r.span := by
  have hkept := h.kept chunk hfound.mem
  refine ⟨hfound.capacity ▸ hfound.placed.inside hkept, fun u hu hresource hsignaled => ?_⟩
  obtain ⟨c, hc, hsame, hmem⟩ := h.inUse u hu hsignaled
  obtain rfl := hfound.unique h hc (hsame.trans hresource)
  exact hfound.placed.apart hkept hmem 0

theorem push_resource (c : Chunk) (r : Reservation) (doneEvent : Nat) :
    (c.push r doneEvent).resource = c.resource := by
  rw [Chunk.push]
  split <;> rfl

theorem mem_push {c : Chunk} (ha : a ∈ c.allocations) (r : Reservation) (doneEvent : Nat) :
    a ∈ (c.push r doneEvent).allocations := by
  rw [Chunk.push]
  split
  · exact List.mem_append_left _ ha
  · exact ha

/-- The upload is entered into its chunk. -/
theorem Inv.record (h : Inv heap uploads) (hfound : Found heap r chunk)
    (hsafe : r.sizeInBytes = 0 → ¬ chunk.Exhausted) (submits : Nat) :
    Inv (heap.record r submits).1 (next uploads (heap.record r submits).2) := by
  refine ⟨fun c' hc' => ?_, ?_, fun c' hc' => ?_, fun u hu => ?_, fun u hu hsignaled => ?_⟩
  · obtain ⟨c, hc, rfl⟩ := List.mem_map.1 hc'
    have hkept := h.kept c hc
    rw [Chunk.push]
    split
    · next hresource =>
      obtain rfl := hfound.unique h hc hresource
      refine ⟨hkept.capacity, ?_, fun b hb => ?_⟩
      · rw [List.map_append]
        exact hfound.placed.ring hkept hsafe
      · obtain hb | hb := List.mem_append.1 hb
        · exact hkept.aligned b hb
        · rw [List.mem_singleton.1 hb]
          exact hfound.placed.aligned hkept
    · exact hkept
  · show ((heap.chunks.map _).map Chunk.resource).Nodup
    rw [List.map_map]
    exact (List.map_congr_left fun c _ => push_resource c r _) ▸ h.nodup
  · obtain ⟨c, hc, rfl⟩ := List.mem_map.1 hc'
    rw [push_resource]
    exact h.fresh c hc
  · obtain rfl | hu := List.mem_cons.1 hu
    · exact hfound.resource ▸ h.fresh chunk hfound.mem
    · exact h.known u hu
  · obtain rfl | hu := List.mem_cons.1 hu
    · refine ⟨_, List.mem_map_of_mem hfound.mem, (push_resource _ _ _).trans hfound.resource, ?_⟩
      rw [Chunk.push, if_pos hfound.resource]
      exact List.mem_append_right _ (List.mem_singleton_self _)
    · obtain ⟨c, hc, hresource, hmem⟩ := h.inUse u hu hsignaled
      exact ⟨_, List.mem_map_of_mem hc, (push_resource _ _ _).trans hresource, mem_push hmem _ _⟩

theorem not_exhausted_of_nil (hnil : chunk.allocations = []) : ¬ chunk.Exhausted := by
  rintro ⟨first, hfirst, _⟩
  rw [hnil] at hfirst
  cases hfirst

/-- An upload that is safe is good, and keeps the invariant. -/
theorem beginUpload_spec (h : Inv heap uploads) {progress : List Nat} {submits : Nat}
    (hsize : sizeInBytes ≤ c_maxChunkSize ∨ fault = .create)
    (hempty : sizeInBytes = 0 → ¬ (fault = .map ∨ fault = .copy) →
      ∀ chunk ∈ (heap.reclaim progress).chunks.head?, ¬ chunk.Exhausted)
    {o : Outcome}
    (hupload : heap.beginUploadToGpu sizeInBytes progress submits fault = (heap', o)) :
    Inv heap' (next uploads o) ∧
      Good (heap, uploads) (.upload sizeInBytes progress submits fault)
        (heap', next uploads o) o := by
  rw [Heap.beginUploadToGpu] at hupload
  split at hupload
  · cases hupload
    exact ⟨h.reclaim progress, fun r hr => nomatch hr⟩
  · next reserved r hreserve =>
    obtain ⟨hreserved, chunk, hfound, -, hrange, hfirst⟩ :=
      reserve_spec (h.reclaim progress) hsize hreserve
    have hgood := hfound.good hreserved
    split at hupload
    · cases hupload
      exact ⟨hreserved, fun r' hr' => Option.some.inj hr' ▸ hgood⟩
    · next hfault =>
      cases hupload
      refine ⟨?_, fun r' hr' => Option.some.inj hr' ▸ hgood⟩
      refine hreserved.record hfound (fun hzero => ?_) submits
      rw [hrange] at hzero
      obtain hhead | hnil := hfirst
      · exact hempty hzero hfault chunk (hhead hzero)
      · exact not_exhausted_of_nil hnil

end PooledUploadHeapLemmas

open PooledUploadHeapLemmas

/-! ## Runs -/

/-- A call that is safe keeps the invariant and is good. -/
theorem inv_step {t t' : Heap × List Upload} {c : Call} {o : Outcome} (h : Inv t.1 t.2)
    (hstep : recording.step t c = some (t', o)) (hsafe : Safe t c t' o) :
    Inv t'.1 t'.2 ∧ Good t c t' o := by
  obtain ⟨heap, uploads⟩ := t
  obtain ⟨heap', uploads'⟩ := t'
  obtain ⟨hcall, rfl⟩ := Machine.withHistory_step.1 hstep
  cases c with
  | upload sizeInBytes progress submits fault =>
    exact beginUpload_spec h hsafe.1 hsafe.2 (Option.some.inj hcall)
  | trim progress =>
    cases hcall
    exact ⟨h.trim progress, fun r hr => nomatch hr⟩
  | submit =>
    cases hcall
    exact ⟨h.fence le_rfl, fun r hr => nomatch hr⟩
  | complete n =>
    cases hcall
    exact ⟨h.fence (le_max_left _ _), fun r hr => nomatch hr⟩

/-- In a run whose calls are safe, every range that is reserved lies in its chunk, and apart from
all uploads that the GPU may still read. -/
theorem uploads_apart (calls : List Call) (hsafe : recording.Every Safe ({}, []) calls) :
    recording.Every Good ({}, []) calls :=
  Machine.Every.of_invariant (fun t => Inv t.1 t.2) (fun _ _ _ _ => inv_step) inv_init hsafe

/-- A ring that wraps: there is no room behind the second upload, and the third one is put where the
first one was. -/
theorem uploads_apart_wrapped :
    recording.Every Good ({}, []) [.upload 600000 [] 0 .none, .submit, .upload 400000 [] 0 .none,
      .complete 1, .upload 300000 [] 0 .none] :=
  uploads_apart _ (by decide)

/-- An empty upload is put to the bottom of a chunk that is full. Behind it the chunk looks empty,
and the next upload overlaps the first one. -/
theorem emptyUpload_overlaps :
    ¬ recording.Every Good ({}, []) [.upload (2 ^ 20 + 1) [] 0 .none, .upload 0 [] 0 .none,
      .upload 1 [] 0 .none] := by
  decide

/-- An upload that is larger than the largest chunk gets such a chunk, and is written past its
end. -/
theorem largeUpload_overruns :
    ¬ recording.Every Good ({}, []) [.upload (c_maxChunkSize + 1) [] 0 .none] := by
  decide

end AmdGpuEp.DirectML.PooledUploadHeap
