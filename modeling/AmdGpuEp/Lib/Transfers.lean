import Mathlib.Logic.Function.Basic
import Mathlib.Data.List.GetD
import Mathlib.Data.List.Nodup
import Mathlib.Tactic.Common

/-!
# Transfers between regions of a memory

A transfer copies the values of one region of a memory to another. It may mark what it copies,
and what it has read is kept, so that one can see in whatever order transfers are made which of
them gave a value. Transfers that do not touch what the other one reads or writes can be made
in either order.

Results:
1. `Transfer.run_comm`: independent transfers commute.
2. `runAll_postponed`: some transfers of a list can be made after all others where those that
   overtake them are independent of them.
3. `reads_runAll`: what a transfer reads, from the memory that the transfers before it leave.
4. `runAll_holds`: a property of the value at a place, from its writers.
5. `unstage_stage`: transfers that go through a buffer, each through a range of its own.
-/

namespace AmdGpuEp

variable {P α : Type*}

/-! ## Regions -/

/-- A region of a memory, as far as it is used: its places by their numbers. -/
structure Region (P : Type*) where
  place : Nat → P
  offset : P → Option Nat
  offset_eq_some : ∀ {p k}, offset p = some k ↔ place k = p

namespace Region

variable (r : Region P)

/-- The place is among the first ones of the region. -/
def Covers (size : Nat) (p : P) : Prop :=
  ∃ k < size, r.place k = p

/-- No place is among the first ones of both. -/
def Apart (size : Nat) (r' : Region P) (size' : Nat) : Prop :=
  ∀ p, r.Covers size p → ¬ r'.Covers size' p

def load (size : Nat) (m : P → α) : List α :=
  (List.range size).map fun k => m (r.place k)

def store (values : List α) (m : P → α) : P → α := fun p =>
  match r.offset p with
  | some k => values.getD k (m p)
  | none => m p

variable {r} {size size' : Nat} {m : P → α} {values : List α} {r' : Region P}

@[simp]
theorem length_load : (r.load size m).length = size := by
  rw [load, List.length_map, List.length_range]

theorem getElem?_load {k : Nat} (h : k < size) : (r.load size m)[k]? = some (m (r.place k)) := by
  rw [load, List.getElem?_map, List.getElem?_range h]
  rfl

theorem store_place {k : Nat} (h : k < values.length) :
    r.store values m (r.place k) = values[k] := by
  rw [store, r.offset_eq_some.2 rfl]
  exact List.getD_eq_getElem _ _ h

theorem store_of_not_covers {p : P} (h : ¬ r.Covers values.length p) :
    r.store values m p = m p := by
  unfold store
  cases hoffset : r.offset p with
  | none => rfl
  | some k =>
    have hlength : values.length ≤ k := by
      by_contra hlt
      exact h ⟨k, Nat.not_le.1 hlt, r.offset_eq_some.1 hoffset⟩
    exact List.getD_eq_default _ _ hlength

theorem load_congr {m' : P → α} (h : ∀ p, r.Covers size p → m p = m' p) :
    r.load size m = r.load size m' :=
  List.map_congr_left fun k hk => h _ ⟨k, List.mem_range.1 hk, rfl⟩

theorem load_store_of_apart (h : r.Apart size r' values.length) :
    r.load size (r'.store values m) = r.load size m :=
  load_congr fun p hp => store_of_not_covers (h p hp)

theorem load_store_self (r : Region P) (values : List α) (m : P → α) :
    r.load values.length (r.store values m) = values := by
  refine List.ext_getElem length_load fun k hk hk' => ?_
  simp only [load, List.getElem_map, List.getElem_range, store_place hk']

theorem store_comm {values' : List α} (h : r.Apart values.length r' values'.length) :
    r.store values (r'.store values' m) = r'.store values' (r.store values m) := by
  funext p
  by_cases hp : r.Covers values.length p
  · rw [store_of_not_covers (h p hp)]
    obtain ⟨k, hk, rfl⟩ := hp
    rw [store_place hk, store_place hk]
  · rw [store_of_not_covers hp]
    by_cases hp' : r'.Covers values'.length p
    · obtain ⟨k, hk, rfl⟩ := hp'
      rw [store_place hk, store_place hk]
    · rw [store_of_not_covers hp', store_of_not_covers hp', store_of_not_covers hp]

end Region

/-! ## Transfers -/

/-- A memory, and what the transfers so far have read, by their numbers. -/
structure Tracked (P α : Type*) where
  memory : P → α
  reads : Nat → List α

/-- A copy of the first places of one region to those of another. -/
structure Transfer (P : Type*) where
  id : Nat
  src : Region P
  dst : Region P
  size : Nat

/-- The transfer, where `mark` says what becomes of a value that it copies. -/
def Transfer.run (mark : Nat → α → α) (t : Transfer P) (s : Tracked P α) : Tracked P α where
  memory := t.dst.store ((t.src.load t.size s.memory).map (mark t.id)) s.memory
  reads := Function.update s.reads t.id (t.src.load t.size s.memory)

def runAll (mark : Nat → α → α) (ts : List (Transfer P)) (s : Tracked P α) : Tracked P α :=
  ts.foldl (fun s t => t.run mark s) s

/-- The transfers have different numbers, and neither writes what the other one reads or writes. -/
structure Transfer.Independent (t u : Transfer P) : Prop where
  id_ne : t.id ≠ u.id
  apart : t.dst.Apart t.size u.dst u.size
  reads_left : t.src.Apart t.size u.dst u.size
  reads_right : u.src.Apart u.size t.dst t.size

namespace Transfer

variable {mark : Nat → α → α} {t u : Transfer P} {s : Tracked P α}

theorem load_run_of_apart (mark : Nat → α → α) (s : Tracked P α) {r : Region P} {size : Nat}
    (h : r.Apart size t.dst t.size) :
    r.load size (t.run mark s).memory = r.load size s.memory :=
  Region.load_store_of_apart (by rwa [List.length_map, Region.length_load])

theorem run_memory :
    (t.run mark s).memory = t.dst.store ((t.src.load t.size s.memory).map (mark t.id)) s.memory :=
  rfl

theorem run_reads :
    (t.run mark s).reads = Function.update s.reads t.id (t.src.load t.size s.memory) :=
  rfl

theorem run_apply_of_not_covers {p : P} (h : ¬ t.dst.Covers t.size p) :
    (t.run mark s).memory p = s.memory p := by
  refine Region.store_of_not_covers ?_
  rwa [List.length_map, Region.length_load]

theorem run_apply_of_covers (mark : Nat → α → α) (s : Tracked P α) {p : P}
    (h : t.dst.Covers t.size p) :
    ∃ v, (t.run mark s).memory p = mark t.id v := by
  obtain ⟨k, hk, rfl⟩ := h
  refine ⟨s.memory (t.src.place k), ?_⟩
  rw [run_memory, Region.store_place (by rwa [List.length_map, Region.length_load])]
  simp only [Region.load, List.getElem_map, List.getElem_range]

/-- Independent transfers commute. -/
theorem run_comm (h : t.Independent u) : t.run mark (u.run mark s) = u.run mark (t.run mark s) := by
  have ht := load_run_of_apart mark s h.reads_left
  have hu := load_run_of_apart mark s h.reads_right
  have hmemory : (t.run mark (u.run mark s)).memory = (u.run mark (t.run mark s)).memory := by
    rw [run_memory, ht, run_memory, run_memory, hu, run_memory]
    refine Region.store_comm ?_
    rw [List.length_map, List.length_map, Region.length_load, Region.length_load]
    exact h.apart
  have hreads : (t.run mark (u.run mark s)).reads = (u.run mark (t.run mark s)).reads := by
    rw [run_reads, ht, run_reads, run_reads, hu, run_reads]
    exact Function.update_comm h.id_ne.symm _ _ _
  exact congrArg₂ Tracked.mk hmemory hreads

end Transfer

/-! ## Lists of transfers -/

variable {mark : Nat → α → α} {ts us : List (Transfer P)} {s : Tracked P α}

theorem runAll_cons {t : Transfer P} : runAll mark (t :: ts) s = runAll mark ts (t.run mark s) :=
  rfl

theorem runAll_append : runAll mark (ts ++ us) s = runAll mark us (runAll mark ts s) :=
  List.foldl_append

theorem runAll_run {t : Transfer P} (h : ∀ u ∈ ts, t.Independent u) :
    runAll mark ts (t.run mark s) = t.run mark (runAll mark ts s) := by
  induction ts generalizing s with
  | nil => rfl
  | cons u ts ih =>
    rw [List.forall_mem_cons] at h
    rw [runAll_cons, runAll_cons, ← Transfer.run_comm h.1, ih h.2]

/-- Transfers are made after all others, where those that overtake them are independent of them. -/
theorem runAll_postponed (mark : Nat → α → α) (s : Tracked P α) {β : Type*} {f : β → Transfer P}
    {later : β → Bool} {items : List β} (h : items.Pairwise fun a b =>
      later a = true → later b = false → (f a).Independent (f b)) :
    runAll mark (items.map f) s =
      runAll mark ((items.filter later).map f)
        (runAll mark ((items.filter (!later ·)).map f) s) := by
  induction items generalizing s with
  | nil => rfl
  | cons a items ih =>
    rw [List.pairwise_cons] at h
    rw [List.map_cons, runAll_cons, ih _ h.2]
    cases ha : later a with
    | false =>
      rw [List.filter_cons_of_neg (by rw [ha]; exact Bool.false_ne_true),
        List.filter_cons_of_pos (by rw [ha]; rfl), List.map_cons, runAll_cons]
    | true =>
      rw [List.filter_cons_of_pos ha,
        List.filter_cons_of_neg (by rw [ha]; exact Bool.false_ne_true), List.map_cons, runAll_cons,
        runAll_run]
      intro u hu
      obtain ⟨b, hb, rfl⟩ := List.mem_map.1 hu
      obtain ⟨hmem, hlater⟩ := List.mem_filter.1 hb
      exact h.1 b hmem ha (Bool.not_eq_true' _ ▸ hlater)

theorem reads_runAll_of_not_mem {id : Nat} (h : id ∉ ts.map Transfer.id) :
    (runAll mark ts s).reads id = s.reads id := by
  induction ts generalizing s with
  | nil => rfl
  | cons t ts ih =>
    rw [List.map_cons, List.mem_cons, not_or] at h
    rw [runAll_cons, ih h.2, Transfer.run_reads, Function.update_of_ne h.1]

/-- What a transfer reads. -/
theorem reads_runAll {t : Transfer P} (h : ((ts ++ t :: us).map Transfer.id).Nodup) :
    (runAll mark (ts ++ t :: us) s).reads t.id = t.src.load t.size (runAll mark ts s).memory := by
  have hnot : t.id ∉ us.map Transfer.id := by
    rw [List.map_append, List.map_cons] at h
    exact (List.nodup_cons.1 (List.nodup_append.1 h).2.1).1
  rw [runAll_append, runAll_cons, reads_runAll_of_not_mem hnot, Transfer.run_reads,
    Function.update_self]

theorem length_reads_runAll {t : Transfer P} (hnodup : (ts.map Transfer.id).Nodup) (h : t ∈ ts) :
    ((runAll mark ts s).reads t.id).length = t.size := by
  obtain ⟨us, vs, rfl⟩ := List.append_of_mem h
  rw [reads_runAll hnodup, Region.length_load]

/-- The value at a place has a property that it has before, and that all its writers give it. -/
theorem runAll_holds {p : P} {Q : α → Prop} (hs : Q (s.memory p))
    (h : ∀ t ∈ ts, t.dst.Covers t.size p → ∀ v, Q (mark t.id v)) :
    Q ((runAll mark ts s).memory p) := by
  induction ts generalizing s with
  | nil => exact hs
  | cons t ts ih =>
    rw [List.forall_mem_cons] at h
    refine ih ?_ h.2
    by_cases hp : t.dst.Covers t.size p
    · obtain ⟨v, hv⟩ := Transfer.run_apply_of_covers mark s hp
      rw [hv]
      exact h.1 hp v
    · rw [Transfer.run_apply_of_not_covers hp]
      exact hs

/-! ## Buffers -/

/-- The numbers from the given one on. -/
def Region.startingAt (start : Nat) : Region Nat where
  place k := start + k
  offset p := if start ≤ p then some (p - start) else none
  offset_eq_some {p k} := by
    split
    · next h => rw [Option.some_inj, Nat.sub_eq_iff_eq_add' h, eq_comm]
    · next h =>
      exact iff_of_false (fun heq => by cases heq) fun heq => h (heq ▸ Nat.le_add_right _ _)

theorem Region.apart_startingAt {start size start' size' : Nat}
    (h : start + size ≤ start' ∨ start' + size' ≤ start) :
    (Region.startingAt start).Apart size (Region.startingAt start') size' := by
  rintro p ⟨k, hk, rfl⟩ ⟨l, hl, heq⟩
  have hplaces : start' + l = start + k := heq
  rcases h with h | h <;> omega

/-- The values are brought into a buffer, each to where the range of its transfer starts. -/
def stage (m : P → α) (ts : List (Transfer P × Nat)) (buffer : Nat → α) : Nat → α :=
  ts.foldl (fun buffer (t, start) =>
    (Region.startingAt start).store (t.src.load t.size m) buffer) buffer

/-- What a transfer writes when its values come out of a buffer. -/
def Transfer.runFrom (mark : Nat → α → α) (buffer : Nat → α) (start : Nat) (t : Transfer P)
    (s : Tracked P α) : Tracked P α where
  memory :=
    t.dst.store (((Region.startingAt start).load t.size buffer).map (mark t.id)) s.memory
  reads := Function.update s.reads t.id ((Region.startingAt start).load t.size buffer)

/-- The values are taken out of the buffer again. -/
def unstage (mark : Nat → α → α) (buffer : Nat → α) (ts : List (Transfer P × Nat))
    (s : Tracked P α) : Tracked P α :=
  ts.foldl (fun s (t, start) => t.runFrom mark buffer start s) s

/-- The ranges of the buffer do not overlap. -/
def RangesApart (ts : List (Transfer P × Nat)) : Prop :=
  ts.Pairwise fun a b => a.2 + a.1.size ≤ b.2 ∨ b.2 + b.1.size ≤ a.2

theorem load_stage_of_apart {m : P → α} {start size : Nat} {ts : List (Transfer P × Nat)}
    (h : ∀ a ∈ ts, start + size ≤ a.2 ∨ a.2 + a.1.size ≤ start) (buffer : Nat → α) :
    (Region.startingAt start).load size (stage m ts buffer) =
      (Region.startingAt start).load size buffer := by
  induction ts generalizing buffer with
  | nil => rfl
  | cons a ts ih =>
    rw [List.forall_mem_cons] at h
    refine (ih h.2 _).trans (Region.load_store_of_apart ?_)
    rw [Region.length_load]
    exact Region.apart_startingAt h.1

/-- A range holds what was brought into it. -/
theorem load_stage {m : P → α} {ts : List (Transfer P × Nat)} (h : RangesApart ts)
    (buffer : Nat → α) {a : Transfer P × Nat} (ha : a ∈ ts) :
    (Region.startingAt a.2).load a.1.size (stage m ts buffer) = a.1.src.load a.1.size m := by
  induction ts generalizing buffer with
  | nil => exact absurd ha List.not_mem_nil
  | cons b ts ih =>
    obtain ⟨hb, hts⟩ := List.pairwise_cons.1 h
    rcases List.mem_cons.1 ha with rfl | ha
    · refine (load_stage_of_apart hb _).trans ?_
      have hself := Region.load_store_self (Region.startingAt a.2) (a.1.src.load a.1.size m) buffer
      rwa [Region.length_load] at hself
    · exact ih hts _ ha

theorem unstage_eq {m : P → α} {buffer : Nat → α} {ts : List (Transfer P × Nat)}
    (hbuffer : ∀ a ∈ ts, (Region.startingAt a.2).load a.1.size buffer = a.1.src.load a.1.size m)
    (hapart : ∀ a ∈ ts, ∀ b ∈ ts, a.1.src.Apart a.1.size b.1.dst b.1.size)
    (hs : ∀ a ∈ ts, a.1.src.load a.1.size s.memory = a.1.src.load a.1.size m) :
    unstage mark buffer ts s = runAll mark (ts.map Prod.fst) s := by
  induction ts generalizing s with
  | nil => rfl
  | cons a ts ih =>
    have hrun : a.1.runFrom mark buffer a.2 s = a.1.run mark s := by
      rw [Transfer.runFrom, hbuffer a List.mem_cons_self, ← hs a List.mem_cons_self]
      rfl
    have hrest := ih (s := a.1.run mark s) (fun b hb => hbuffer b (List.mem_cons_of_mem _ hb))
      (fun b hb c hc => hapart b (List.mem_cons_of_mem _ hb) c (List.mem_cons_of_mem _ hc))
      fun b hb => by
        rw [Transfer.load_run_of_apart mark s
          (hapart b (List.mem_cons_of_mem _ hb) a List.mem_cons_self)]
        exact hs b (List.mem_cons_of_mem _ hb)
    rw [List.map_cons, runAll_cons, ← hrest, ← hrun]
    rfl

/-- Transfers through a buffer are made one after the other where their ranges do not overlap, and
none of them writes what one of them reads. -/
theorem unstage_stage {ts : List (Transfer P × Nat)} (h : RangesApart ts)
    (hapart : ∀ a ∈ ts, ∀ b ∈ ts, a.1.src.Apart a.1.size b.1.dst b.1.size) (buffer : Nat → α) :
    unstage mark (stage s.memory ts buffer) ts s = runAll mark (ts.map Prod.fst) s :=
  unstage_eq (fun _ ha => load_stage h buffer ha) hapart fun _ _ => rfl

end AmdGpuEp
