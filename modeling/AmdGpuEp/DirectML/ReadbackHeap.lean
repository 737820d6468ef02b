import AmdGpuEp.Lib.Transfers
import AmdGpuEp.Lib.Wrapped
import Mathlib.Algebra.BigOperators.Group.List.Basic

/-!
# The readback heap

`dml_readback_heap.cc`: what is read back from the GPU goes through one buffer that the CPU can
map. A batch of readbacks is copied into it, one behind the other, and then out of it. The sizes
of a batch, their sum and the offsets are numbers of 32 bits.

Results:
1. `computeNewCapacity_spec`: the heap grows to what is asked for.
2. `layout_fits_iff`: the ranges of a batch are inside what is reserved for them exactly when their
   sizes add up to less than 4 GiB.
3. `readbackAll_of_fits`: such a batch is read back one after the other.
-/

namespace AmdGpuEp.DirectML

/-! ## Memory -/

inductive Device
  | cpu
  | gpu
  deriving DecidableEq, Repr

/-- A byte: of the memory of the process, or of a resource of the GPU. -/
inductive Place
  | cpu (address : Nat)
  | gpu (resource offset : Nat)
  deriving DecidableEq, Repr

def Place.device : Place → Device
  | .cpu _ => .cpu
  | .gpu _ _ => .gpu

/-- Where the data of a tensor begins: at an address, or at the start of a resource. -/
structure Location where
  device : Device
  data : Nat
  deriving DecidableEq, Repr

namespace Location

def place (l : Location) (k : Nat) : Place :=
  match l.device with
  | .cpu => .cpu (l.data + k)
  | .gpu => .gpu l.data k

def offset (l : Location) : Place → Option Nat
  | .cpu address => if l.device = .cpu ∧ l.data ≤ address then some (address - l.data) else none
  | .gpu resource offset => if l.device = .gpu ∧ l.data = resource then some offset else none

def region (l : Location) : Region Place where
  place := l.place
  offset := l.offset
  offset_eq_some {p k} := by
    obtain ⟨device, data⟩ := l
    cases device <;> cases p <;> simp only [offset, place]
    · next address =>
      split
      · next h => rw [Option.some_inj, Nat.sub_eq_iff_eq_add' h.2, Place.cpu.injEq, eq_comm]
      · next h =>
        refine iff_of_false (fun heq => by cases heq) fun heq => h ⟨trivial, ?_⟩
        exact (Place.cpu.inj heq) ▸ Nat.le_add_right _ _
    · simp
    · simp
    · simp [and_comm, eq_comm]

theorem device_place (l : Location) (k : Nat) : (l.place k).device = l.device := by
  unfold place
  cases l.device <;> rfl

end Location

/-- A transfer from the GPU to the CPU. -/
structure IsReadback (t : Transfer Place) : Prop where
  src : ∀ k, (t.src.place k).device = .gpu
  dst : ∀ k, (t.dst.place k).device = .cpu

/-- Readbacks do not write what readbacks read. -/
theorem IsReadback.apart {t u : Transfer Place} (ht : IsReadback t) (hu : IsReadback u) :
    t.src.Apart t.size u.dst u.size := by
  rintro p ⟨k, -, rfl⟩ ⟨l, -, heq⟩
  have hdevice := hu.dst l
  rw [heq, ht.src k] at hdevice
  cases hdevice

/-! ## The heap -/

/-- `m_capacity` of a heap that was created. -/
structure Capacity where
  bytes : Nat
  pos : 0 < bytes

/-- `c_initialCapacity` -/
def initialCapacity : Capacity where
  bytes := 1024 * 1024
  pos := by decide

/-- `ComputeNewCapacity`. It throws where doubling would overflow. -/
def computeNewCapacity (existing : Capacity) (desired : Nat) : Option Capacity :=
  if existing.bytes < desired then
    if (2 ^ 64 - 1) / 2 ≤ existing.bytes then none
    else computeNewCapacity ⟨existing.bytes * 2, Nat.mul_pos existing.pos (by decide)⟩ desired
  else some existing
termination_by desired - existing.bytes
decreasing_by
  have hpos := existing.pos
  omega

/-- The sizes of a batch, as they lie in the heap: what is reserved, and where each one begins. -/
structure Layout where
  reserved : Nat
  ranges : List (Nat × Nat)
  deriving DecidableEq, Repr

/-- No range leaves what is reserved, and no two overlap. -/
structure Layout.Fits (l : Layout) : Prop where
  inside : ∀ r ∈ l.ranges, r.1 + r.2 ≤ l.reserved
  apart : l.ranges.Pairwise fun r r' => r.1 + r.2 ≤ r'.1 ∨ r'.1 + r'.2 ≤ r.1

/-- The loop that adds up the sizes. -/
def totalSize (sizes : List Nat) : Nat :=
  sizes.foldl (fun total size => (total + size) % 2 ^ 32) 0

/-- The offsets that the two loops over a batch go through. -/
def offsetsFrom : Nat → List Nat → List Nat
  | _, [] => []
  | offset, size :: sizes => offset :: offsetsFrom ((offset + size) % 2 ^ 32) sizes

def layout (sizes : List Nat) : Layout where
  reserved := totalSize sizes
  ranges := (offsetsFrom 0 sizes).zip sizes

/-- The memory with the readback heap. The batches that went through it are kept, and what the
copies so far have read. -/
structure CopyState (α : Type) extends Tracked Place α where
  capacity : Option Capacity
  heap : Nat → α
  batches : List Layout

/-- How a call ends: it returns, with or without a failure, it throws, or it is lost, because it
goes on for ever, leaves the readback heap, or ends the process. -/
inductive Outcome (α : Type)
  | done (s : CopyState α)
  | failed (s : CopyState α)
  | thrown (s : CopyState α)
  | lost

variable {α : Type}

/-- `EnsureReadbackHeap`, where it does not throw. What is in a new heap does not matter. -/
def ensureReadbackHeap (size : Nat) (s : CopyState α) : Option (CopyState α) :=
  match s.capacity with
  | none => (computeNewCapacity initialCapacity size).map fun c => { s with capacity := some c }
  | some c =>
    if c.bytes < size then
      (computeNewCapacity c size).map fun c => { s with capacity := some c }
    else some s

/-- Sources are copied into the heap on the GPU, and from there into their destinations once that is
done. -/
def readThrough (mark : Nat → α → α) (ts : List (Transfer Place × Nat)) (s : CopyState α) :
    CopyState α :=
  let heap := stage s.memory ts s.heap
  { s with toTracked := unstage mark heap ts s.toTracked, heap }

/-- The range is inside the heap. -/
def CopyState.InHeap (s : CopyState α) (r : Nat × Nat) : Prop :=
  ∃ c ∈ s.capacity, r.1 + r.2 ≤ c.bytes

instance (s : CopyState α) (r : Nat × Nat) : Decidable (s.InHeap r) := by
  unfold CopyState.InHeap
  exact inferInstance

/-- `ReadbackFromGpu` for one readback, where it does not throw. -/
def readback (mark : Nat → α → α) (t : Transfer Place) (s : CopyState α) : Option (CopyState α) :=
  (ensureReadbackHeap t.size s).map (readThrough mark [(t, 0)])

/-- `ReadbackFromGpu` for a batch, whose sizes are numbers of 32 bits, as is the counter of its
loops. -/
def readbackAll (mark : Nat → α → α) (ts : List (Transfer Place)) (s : CopyState α) : Outcome α :=
  let sizes := ts.map Transfer.size
  if ts = [] then .done s
  else
    match ensureReadbackHeap (totalSize sizes) s with
    | none => .thrown s
    | some s =>
      if ts.length < 2 ^ 32 ∧ ∀ r ∈ (layout sizes).ranges, s.InHeap r then
        let s := readThrough mark (ts.zip (offsetsFrom 0 sizes)) s
        .done { s with batches := s.batches ++ [layout sizes] }
      else .lost

/-! ## Capacity -/

/-- The heap grows to what is asked for. -/
theorem computeNewCapacity_spec (existing : Capacity) {desired : Nat} (h : desired ≤ 2 ^ 32) :
    ∃ c, computeNewCapacity existing desired = some c ∧ desired ≤ c.bytes := by
  fun_induction computeNewCapacity existing desired with
  | case1 existing hlt hlarge =>
    have hsmall : existing.bytes < 2 ^ 32 := Nat.lt_of_lt_of_le hlt h
    exact absurd hlarge (Nat.not_le.2 (Nat.lt_trans hsmall (by decide)))
  | case2 existing hlt hlarge ih => exact ih
  | case3 existing hle => exact ⟨existing, rfl, Nat.not_lt.1 hle⟩

theorem ensureReadbackHeap_spec (s : CopyState α) {size : Nat} (h : size ≤ 2 ^ 32) :
    ∃ c : Capacity, ensureReadbackHeap size s = some { s with capacity := some c } ∧
      size ≤ c.bytes := by
  unfold ensureReadbackHeap
  obtain ⟨tracked, capacity, heap, batches⟩ := s
  cases capacity with
  | none =>
    obtain ⟨c, hc, hsize⟩ := computeNewCapacity_spec initialCapacity h
    exact ⟨c, by rw [hc]; rfl, hsize⟩
  | some c =>
    dsimp only
    split
    · obtain ⟨c', hc', hsize⟩ := computeNewCapacity_spec c h
      exact ⟨c', by rw [hc']; rfl, hsize⟩
    · next hle => exact ⟨c, rfl, Nat.not_lt.1 hle⟩

/-! ## Batches -/

namespace ReadbackHeapLemmas

theorem totalSize_eq (sizes : List Nat) : totalSize sizes = sizes.sum % 2 ^ 32 :=
  foldl_add_wrapped sizes (by decide)

theorem length_offsetsFrom (offset : Nat) (sizes : List Nat) :
    (offsetsFrom offset sizes).length = sizes.length := by
  induction sizes generalizing offset with
  | nil => rfl
  | cons size sizes ih => rw [offsetsFrom, List.length_cons, ih, List.length_cons]

/-- Behind one another, as long as no offset wraps. -/
theorem ranges_spec (offset : Nat) {sizes : List Nat} (h : offset + sizes.sum < 2 ^ 32) :
    (∀ r ∈ (offsetsFrom offset sizes).zip sizes,
      offset ≤ r.1 ∧ r.1 + r.2 ≤ offset + sizes.sum) ∧
    ((offsetsFrom offset sizes).zip sizes).Pairwise fun r r' => r.1 + r.2 ≤ r'.1 := by
  induction sizes generalizing offset with
  | nil => exact ⟨fun r hr => absurd hr List.not_mem_nil, List.Pairwise.nil⟩
  | cons size sizes ih =>
    rw [List.sum_cons, ← Nat.add_assoc] at h ⊢
    have hlt : offset + size < 2 ^ 32 := Nat.lt_of_le_of_lt (Nat.le_add_right _ _) h
    obtain ⟨hinside, hapart⟩ := ih _ h
    rw [offsetsFrom, Nat.mod_eq_of_lt hlt, List.zip_cons_cons, List.forall_mem_cons,
      List.pairwise_cons]
    refine ⟨⟨⟨Nat.le_refl _, Nat.le_add_right _ _⟩, fun r hr => ?_⟩, fun r hr => ?_, hapart⟩
    · exact ⟨Nat.le_trans (Nat.le_add_right _ _) (hinside r hr).1, (hinside r hr).2⟩
    · exact (hinside r hr).1

/-- Where an offset wraps, the range before it is not inside. -/
theorem sum_lt_of_inside (offset : Nat) {sizes : List Nat} (hoffset : offset < 2 ^ 32)
    (h : ∀ r ∈ (offsetsFrom offset sizes).zip sizes, r.1 + r.2 < 2 ^ 32) :
    offset + sizes.sum < 2 ^ 32 := by
  induction sizes generalizing offset with
  | nil => exact hoffset
  | cons size sizes ih =>
    rw [offsetsFrom, List.zip_cons_cons, List.forall_mem_cons] at h
    obtain ⟨hsize, hrest⟩ := h
    have hlt : offset + size < 2 ^ 32 := hsize
    rw [Nat.mod_eq_of_lt hlt] at hrest
    rw [List.sum_cons, ← Nat.add_assoc]
    exact ih _ hlt hrest

end ReadbackHeapLemmas

open ReadbackHeapLemmas

/-- The ranges of a batch fit exactly when their sizes add up to less than 4 GiB. -/
theorem layout_fits_iff (sizes : List Nat) : (layout sizes).Fits ↔ sizes.sum < 2 ^ 32 := by
  constructor
  · intro h
    have hreserved : totalSize sizes < 2 ^ 32 := by
      rw [totalSize_eq]
      exact Nat.mod_lt _ (by decide)
    have hsum := sum_lt_of_inside 0 (by decide) fun r hr =>
      Nat.lt_of_le_of_lt (h.inside r hr) hreserved
    rwa [Nat.zero_add] at hsum
  · intro h
    obtain ⟨hinside, hapart⟩ := ranges_spec 0 (by rwa [Nat.zero_add])
    refine ⟨fun r hr => ?_, hapart.imp Or.inl⟩
    have hreserved : (layout sizes).reserved = sizes.sum :=
      (totalSize_eq sizes).trans (Nat.mod_eq_of_lt h)
    rw [hreserved]
    simpa using (hinside r hr).2

variable {mark : Nat → α → α} {ts : List (Transfer Place)} {s s' : CopyState α}

namespace ReadbackHeapLemmas

theorem rangesApart_of_fits (h : (layout (ts.map Transfer.size)).Fits) :
    RangesApart (ts.zip (offsetsFrom 0 (ts.map Transfer.size))) := by
  have hzip : ((ts.zip (offsetsFrom 0 (ts.map Transfer.size))).map fun a => (a.2, a.1.size)) =
      (layout (ts.map Transfer.size)).ranges := by
    rw [layout, List.zip_map_right, List.zip, List.zip, List.zipWith_comm, List.map_zipWith,
      List.map_zipWith]
    rfl
  have hapart := h.apart
  rw [← hzip, List.pairwise_map] at hapart
  exact hapart

theorem readThrough_of_fits (hts : ∀ t ∈ ts, IsReadback t)
    (h : (layout (ts.map Transfer.size)).Fits) :
    (readThrough mark (ts.zip (offsetsFrom 0 (ts.map Transfer.size))) s).toTracked =
      runAll mark ts s.toTracked := by
  have hfst : (ts.zip (offsetsFrom 0 (ts.map Transfer.size))).map Prod.fst = ts := by
    refine List.map_fst_zip (Nat.le_of_eq ?_)
    rw [length_offsetsFrom, List.length_map]
  have hmem : ∀ a ∈ ts.zip (offsetsFrom 0 (ts.map Transfer.size)), a.1 ∈ ts := fun a ha =>
    (List.of_mem_zip (Prod.eta a ▸ ha)).1
  unfold readThrough
  refine (unstage_stage (rangesApart_of_fits h)
    (fun a ha b hb => (hts _ (hmem a ha)).apart (hts _ (hmem b hb))) _).trans ?_
  rw [hfst]

end ReadbackHeapLemmas

theorem totalSize_le (sizes : List Nat) : totalSize sizes ≤ 2 ^ 32 := by
  rw [totalSize_eq]
  exact Nat.le_of_lt (Nat.mod_lt _ (by decide))

/-- A batch is read back, or the call is lost. -/
theorem readbackAll_cases (mark : Nat → α → α) (ts : List (Transfer Place)) (s : CopyState α) :
    readbackAll mark ts s = .lost ∨ ∃ s', readbackAll mark ts s = .done s' := by
  unfold readbackAll
  dsimp only
  split
  · exact Or.inr ⟨s, rfl⟩
  · obtain ⟨c, hensure, -⟩ := ensureReadbackHeap_spec s (totalSize_le (ts.map Transfer.size))
    rw [hensure]
    dsimp only
    split
    · exact Or.inr ⟨_, rfl⟩
    · exact Or.inl rfl

/-- A batch whose ranges fit is read back, one after the other. -/
theorem readbackAll_of_fits (mark : Nat → α → α) (s : CopyState α)
    (hts : ∀ t ∈ ts, IsReadback t) (hpos : ∀ t ∈ ts, 0 < t.size)
    (hsum : (ts.map Transfer.size).sum < 2 ^ 32) :
    ∃ s', readbackAll mark ts s = .done s' ∧ s'.toTracked = runAll mark ts s.toTracked ∧
      ∀ l ∈ s'.batches, l ∈ s.batches ∨ l.Fits := by
  unfold readbackAll
  dsimp only
  split
  · next hnil =>
    rw [hnil]
    exact ⟨s, rfl, rfl, fun l hl => Or.inl hl⟩
  · have hfits := (layout_fits_iff _).2 hsum
    obtain ⟨c, hensure, hc⟩ := ensureReadbackHeap_spec s (totalSize_le (ts.map Transfer.size))
    have hlength : ts.length < 2 ^ 32 := by
      have hle := List.length_le_sum_of_one_le (ts.map Transfer.size)
        (by simpa [Nat.succ_le_iff] using hpos)
      rw [List.length_map] at hle
      exact Nat.lt_of_le_of_lt hle hsum
    rw [hensure]
    dsimp only
    rw [if_pos ⟨hlength, fun r hr => ⟨c, rfl, Nat.le_trans (hfits.inside r hr) hc⟩⟩]
    refine ⟨_, rfl, readThrough_of_fits hts hfits, fun l hl => ?_⟩
    refine (List.mem_append.1 hl).imp_right fun h => ?_
    rw [List.mem_singleton.1 h]
    exact hfits

/-- What is known of a batch that was read back. -/
theorem readbackAll_done (hts : ∀ t ∈ ts, IsReadback t) (h : readbackAll mark ts s = .done s')
    (hfits : ∀ l ∈ s'.batches, l.Fits) :
    (∀ l ∈ s.batches, l.Fits) ∧ (ts.map Transfer.size).sum < 2 ^ 32 ∧
      s'.toTracked = runAll mark ts s.toTracked := by
  unfold readbackAll at h
  dsimp only at h
  split at h
  · next hnil =>
    cases h
    rw [hnil]
    exact ⟨hfits, by decide, rfl⟩
  · split at h
    · cases h
    · next s₁ hensure =>
      split at h
      · have hs₁ : s₁.toTracked = s.toTracked ∧ s₁.batches = s.batches := by
          obtain ⟨c, heq, -⟩ := ensureReadbackHeap_spec s (totalSize_le (ts.map Transfer.size))
          rw [heq] at hensure
          rw [← Option.some.inj hensure]
          exact ⟨rfl, rfl⟩
        cases h
        have hbatch : (layout (ts.map Transfer.size)).Fits :=
          hfits _ (List.mem_append_right _ (List.mem_singleton_self _))
        refine ⟨fun l hl => hfits l (List.mem_append_left _ ?_), (layout_fits_iff _).1 hbatch, ?_⟩
        · exact hs₁.2 ▸ hl
        · rw [← hs₁.1]
          exact readThrough_of_fits hts hbatch
      · cases h

end AmdGpuEp.DirectML
