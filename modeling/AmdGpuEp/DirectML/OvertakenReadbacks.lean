import AmdGpuEp.DirectML.TensorCopies

/-!
# Readbacks that are overtaken

Readbacks that are put off are overtaken by the copies behind them that are not. That changes
nothing as long as none of those writes what a readback reads, or reads what it writes. Marks
show that it is the only case: a readback must not have the mark of a later copy, and a later
copy must have the one of the readback.

Results:
1. `runAll_inOrderOfRun`: readbacks that are not overtaken can be made at the end.
2. `notOvertaken_of_reads`: readbacks with the marks of the array's order are not overtaken.
-/

namespace AmdGpuEp.DirectML.TensorCopies

variable {α : Type}

/-- The first bytes of the two share some. -/
def Overlap (l : Location) (size : Nat) (l' : Location) (size' : Nat) : Prop :=
  0 < size ∧ 0 < size' ∧ l.device = l'.device ∧
    match l.device with
    | .cpu => l.data < l'.data + size' ∧ l'.data < l.data + size
    | .gpu => l.data = l'.data

/-- A readback is not overtaken by a copy that writes what it reads, or reads what it writes. -/
def NotOvertaken (e later : Entry) : Prop :=
  e.isReadback = true → later.isReadback = false →
    ¬ Overlap e.src.location e.dst.byteSize later.dst.location later.dst.byteSize ∧
    ¬ Overlap later.src.location later.dst.byteSize e.dst.location e.dst.byteSize

namespace TensorCopiesLemmas

variable {es : List Entry} {mark : Nat → α → α}

/-! ## Order -/

theorem overlap_iff {l l' : Location} {size size' : Nat} :
    Overlap l size l' size' ↔ ∃ p, l.region.Covers size p ∧ l'.region.Covers size' p := by
  obtain ⟨device, data⟩ := l
  obtain ⟨device', data'⟩ := l'
  constructor
  · rintro ⟨hsize, hsize', hdevice, hdata⟩
    obtain rfl : device = device' := hdevice
    cases device with
    | cpu =>
      obtain ⟨hlt, hlt'⟩ : data < data' + size' ∧ data' < data + size := hdata
      rcases Nat.le_total data data' with hle | hle
      · refine ⟨.cpu data', ⟨data' - data, by omega, ?_⟩, ⟨0, hsize', rfl⟩⟩
        exact congrArg Place.cpu (Nat.add_sub_cancel' hle)
      · refine ⟨.cpu data, ⟨0, hsize, rfl⟩, ⟨data - data', by omega, ?_⟩⟩
        exact congrArg Place.cpu (Nat.add_sub_cancel' hle)
    | gpu =>
      obtain rfl : data = data' := hdata
      exact ⟨.gpu data 0, ⟨0, hsize, rfl⟩, ⟨0, hsize', rfl⟩⟩
  · rintro ⟨p, ⟨k, hk, hp⟩, ⟨k', hk', hp'⟩⟩
    refine ⟨Nat.zero_lt_of_lt hk, Nat.zero_lt_of_lt hk', ?_⟩
    have hplace := hp.trans hp'.symm
    cases device <;> cases device'
    · have haddress : data + k = data' + k' := Place.cpu.inj hplace
      have hlt : data < data' + size' := by omega
      have hlt' : data' < data + size := by omega
      exact ⟨rfl, hlt, hlt'⟩
    · cases hplace
    · cases hplace
    · exact ⟨rfl, (Place.gpu.inj hplace).1⟩

theorem apart_of_not_overlap {l l' : Location} {size size' : Nat}
    (h : ¬ Overlap l size l' size') : l.region.Apart size l'.region size' :=
  fun p hp hp' => h (overlap_iff.2 ⟨p, hp, hp'⟩)

theorem device_of_toCpu {e : Entry} (h : e.toCpu = false) : e.dst.location.device = .gpu := by
  unfold Entry.toCpu at h
  cases hdevice : e.dst.location.device with
  | gpu => rfl
  | cpu =>
    rw [hdevice] at h
    cases h

/-- A readback that is not overtaken is independent of later copies. -/
theorem independent_of_notOvertaken {e later : Entry} {i j : Nat} (hid : i ≠ j)
    (hreadback : e.isReadback = true) (hlater : later.isReadback = false)
    (hto : later.toCpu = false) (h : NotOvertaken e later) :
    (e.transfer i e.dst.byteSize).Independent (later.transfer j later.dst.byteSize) := by
  obtain ⟨hwrites, hreads⟩ := h hreadback hlater
  refine ⟨hid, ?_, apart_of_not_overlap hwrites, apart_of_not_overlap hreads⟩
  rintro p ⟨k, -, rfl⟩ ⟨l, -, heq⟩
  have hcpu := (isReadback_transfer hreadback i e.dst.byteSize).dst k
  have hgpu : ((later.transfer j later.dst.byteSize).dst.place l).device = .gpu :=
    (Location.device_place _ l).trans (device_of_toCpu hto)
  rw [heq, hcpu] at hgpu
  cases hgpu

theorem pairwise_zipIdx {r : Entry → Entry → Prop} (h : es.Pairwise r) :
    es.zipIdx.Pairwise fun a b => r a.1 b.1 ∧ a.2 < b.2 := by
  refine List.Pairwise.and ?_ ?_
  · rw [← List.pairwise_map (f := Prod.fst) (R := r), map_fst_zipIdx]
    exact h
  · rw [← List.pairwise_map (f := Prod.snd) (R := (· < ·)), List.zipIdx_map_snd]
    exact List.pairwise_lt_range'

/-- The entries that are made at once, and those that are put off behind them. -/
def inOrderOfRun (es : List Entry) : List (Entry × Nat) :=
  (es.zipIdx.filter fun a => !a.1.isReadback) ++ es.zipIdx.filter fun a => a.1.isReadback

theorem inOrderOfRun_perm (es : List Entry) : (inOrderOfRun es).Perm es.zipIdx :=
  List.perm_append_comm.trans (List.filter_append_perm _ _)

theorem moved_append {z : Sizes} {items items' : List (Entry × Nat)} :
    moved z (items ++ items') = moved z items ++ moved z items' := by
  unfold moved
  rw [List.filter_append, List.map_append]

/-- Where no readback is overtaken, the copies are made as in the order of the array. -/
theorem runAll_inOrderOfRun
    (hto : ∀ e ∈ es, e.isReadback = false → e.dst.byteSize ≠ 0 → e.toCpu = false)
    (horder : es.Pairwise NotOvertaken) (t : Tracked Place α) :
    runAll mark (moved trueSizes (inOrderOfRun es)) t = oneAtATime mark es t := by
  have hpairwise : (es.zipIdx.filter fun a => trueSizes.moves a.1).Pairwise fun a b =>
      a.1.isReadback = true → b.1.isReadback = false →
        (a.1.transfer a.2 (trueSizes.size a.1)).Independent
          (b.1.transfer b.2 (trueSizes.size b.1)) := by
    refine ((pairwise_zipIdx horder).filter _).imp_of_mem ?_
    intro a b _ hb hab hreadback hlater
    obtain ⟨hmem, hmoves⟩ := List.mem_filter.1 hb
    have hgpu := hto _ (mem_of_mem_zipIdx hmem) hlater (bne_iff_ne.1 hmoves)
    exact independent_of_notOvertaken (Nat.ne_of_lt hab.2) hreadback hlater hgpu hab.1
  have hpostponed := runAll_postponed mark t
    (f := fun a : Entry × Nat => a.1.transfer a.2 (trueSizes.size a.1)) hpairwise
  rw [oneAtATime, inOrderOfRun, moved_append, runAll_append]
  refine Eq.trans ?_ hpostponed.symm
  unfold moved
  rw [List.filter_comm (p := fun a : Entry × Nat => a.1.isReadback),
    List.filter_comm (p := fun a : Entry × Nat => !a.1.isReadback)]

/-! ## Marks -/

/-- A copy marks what it copies with its number. -/
def stamp (i : Nat) (_ : Option Nat) : Option Nat :=
  some i

/-- A memory without marks. -/
def unmarked : Tracked Place (Option Nat) where
  memory _ := none
  reads _ := []

variable {ts us : List (Transfer Place)} {t : Transfer Place}

theorem getElem?_reads (h : ((ts ++ t :: us).map Transfer.id).Nodup) {k : Nat} (hk : k < t.size) :
    ((runAll stamp (ts ++ t :: us) unmarked).reads t.id)[k]? =
      some ((runAll stamp ts unmarked).memory (t.src.place k)) := by
  rw [reads_runAll h, Region.getElem?_load hk]

/-- Behind a copy that writes a place and copies that come after it, the mark is not older. -/
theorem mark_ge (ts : List (Transfer Place)) {p : Place} (hp : t.dst.Covers t.size p)
    (s : Tracked Place (Option Nat))
    (h : ∀ u ∈ us, u.dst.Covers u.size p → t.id ≤ u.id) :
    ∃ x ∈ (runAll stamp (ts ++ t :: us) s).memory p, t.id ≤ x := by
  rw [runAll_append, runAll_cons]
  refine runAll_holds (Q := fun tag => ∃ x ∈ tag, t.id ≤ x) ?_ fun u hu hcovers v =>
    ⟨u.id, rfl, h u hu hcovers⟩
  obtain ⟨v, hv⟩ := Transfer.run_apply_of_covers stamp (runAll stamp ts s) hp
  rw [hv]
  exact ⟨t.id, rfl, Nat.le_refl _⟩

/-- Behind older copies the mark is an older one, if there is one. -/
theorem mark_lt {i : Nat} (p : Place) (h : ∀ t ∈ ts, t.id < i) :
    ∀ x ∈ (runAll stamp ts unmarked).memory p, x < i := by
  refine runAll_holds (Q := fun tag => ∀ x ∈ tag, x < i) (fun x hx => by cases hx) ?_
  intro u hu _ v x hx
  rw [← Option.some.inj hx]
  exact h u hu

/-- A place that no copy writes has no mark. -/
theorem mark_none {p : Place} (h : ∀ t ∈ ts, ¬ t.dst.Covers t.size p) :
    (runAll stamp ts unmarked).memory p = none :=
  runAll_holds (Q := fun tag => tag = none) rfl fun u hu hcovers => absurd hcovers (h u hu)

theorem not_covers_of_device {l : Location} {size : Nat} {p : Place} (h : l.device ≠ p.device) :
    ¬ l.region.Covers size p := by
  rintro ⟨k, -, rfl⟩
  exact h (l.device_place k).symm

theorem sorted_ids (z : Sizes) (es : List Entry) :
    (moved z es.zipIdx).Pairwise fun t u => t.id < u.id := by
  unfold moved
  rw [List.pairwise_map]
  exact (List.Pairwise.filter _ (pairwise_zipIdx (r := fun _ _ => True)
    (List.pairwise_of_forall fun _ _ => trivial))).imp fun h => h.2

theorem mem_moved {items : List (Entry × Nat)} {e : Entry} {i : Nat} (h : (e, i) ∈ items)
    (hbytes : 0 < e.dst.byteSize) : e.transfer i e.dst.byteSize ∈ moved trueSizes items :=
  List.mem_map.2 ⟨(e, i), List.mem_filter.2 ⟨h, bne_iff_ne.2 (Nat.ne_of_gt hbytes)⟩, rfl⟩

theorem ids_lt_of_split {l : List (Transfer Place)} (hsorted : l.Pairwise fun t u => t.id < u.id)
    (h : l = ts ++ t :: us) : (∀ u ∈ ts, u.id < t.id) ∧ ∀ u ∈ us, t.id < u.id := by
  rw [h, List.pairwise_append, List.pairwise_cons] at hsorted
  exact ⟨fun u hu => hsorted.2.2 u hu t List.mem_cons_self, hsorted.2.1.1⟩

section

variable (h : (runAll stamp (moved trueSizes (inOrderOfRun es)) unmarked).reads =
  (oneAtATime stamp es unmarked).reads)

include h

/-- What is read at a place has the same mark in both orders. -/
theorem marks_eq {ts' us' : List (Transfer Place)}
    (hrun : moved trueSizes (inOrderOfRun es) = ts ++ t :: us)
    (harray : moved trueSizes es.zipIdx = ts' ++ t :: us') {k : Nat} (hk : k < t.size) :
    (runAll stamp ts unmarked).memory (t.src.place k) =
      (runAll stamp ts' unmarked).memory (t.src.place k) := by
  have hnodup : ((moved trueSizes es.zipIdx).map Transfer.id).Nodup := nodup_ids (nodup_zipIdx es)
  have hnodup' : ((moved trueSizes (inOrderOfRun es)).map Transfer.id).Nodup :=
    nodup_ids (((inOrderOfRun_perm es).map _).nodup_iff.2 (nodup_zipIdx es))
  rw [oneAtATime, hrun, harray] at h
  rw [hrun] at hnodup'
  rw [harray] at hnodup
  have hreads := congrArg (·[k]?) (congrFun h t.id)
  rw [getElem?_reads hnodup' hk, getElem?_reads hnodup hk] at hreads
  exact Option.some.inj hreads

/-- A readback does not see what a later copy writes. -/
theorem not_overlap_written {e later : Entry} {i j : Nat} (hi : (e, i) ∈ es.zipIdx)
    (hj : (later, j) ∈ es.zipIdx) (hij : i < j) (hreadback : e.isReadback = true)
    (hlater : later.isReadback = false) :
    ¬ Overlap e.src.location e.dst.byteSize later.dst.location later.dst.byteSize := by
  intro hoverlap
  obtain ⟨p, ⟨k, hk, hp⟩, hwritten⟩ := overlap_iff.1 hoverlap
  have hgpu : p.device = .gpu := by
    rw [← hp]
    exact (isReadback_transfer hreadback i e.dst.byteSize).src k
  obtain ⟨ts', us', harray⟩ := List.append_of_mem (mem_moved hi hoverlap.1)
  obtain ⟨rs, rs', hput⟩ := List.append_of_mem
    (mem_moved (List.mem_filter (p := fun a => a.1.isReadback) |>.2 ⟨hi, hreadback⟩) hoverlap.1)
  obtain ⟨qs, qs', hmade⟩ := List.append_of_mem
    (mem_moved (List.mem_filter (p := fun a => !a.1.isReadback) |>.2 ⟨hj, by rw [hlater]; rfl⟩)
      hoverlap.2.1)
  have hrun : moved trueSizes (inOrderOfRun es) =
      (qs ++ later.transfer j later.dst.byteSize :: (qs' ++ rs)) ++
        e.transfer i e.dst.byteSize :: rs' := by
    rw [inOrderOfRun, moved_append, hmade, hput]
    simp
  have hmarks := marks_eq h hrun harray hk
  have hplace : (e.transfer i e.dst.byteSize).src.place k = p := hp
  rw [hplace] at hmarks
  have holder := mark_lt p (ids_lt_of_split (sorted_ids _ es) harray).1
  have hmadeSorted : (moved trueSizes (es.zipIdx.filter fun a => !a.1.isReadback)).Pairwise
      fun t u => t.id < u.id :=
    (sorted_ids trueSizes es).sublist ((List.filter_sublist.filter _).map _)
  have hnewer : ∀ u ∈ qs' ++ rs, u.dst.Covers u.size p → j ≤ u.id := by
    intro u hu hcovers
    rcases List.mem_append.1 hu with hu | hu
    · exact Nat.le_of_lt ((ids_lt_of_split hmadeSorted hmade).2 u hu)
    · -- a readback writes no place of the GPU
      have hu : u ∈ moved trueSizes (es.zipIdx.filter fun a => a.1.isReadback) :=
        hput ▸ List.mem_append_left _ hu
      obtain ⟨a, ha, rfl⟩ := List.mem_map.1 hu
      have hback := (List.mem_filter.1 (List.mem_filter.1 ha).1).2
      obtain ⟨l, -, rfl⟩ := hcovers
      rw [(isReadback_transfer hback a.2 (trueSizes.size a.1)).dst l] at hgpu
      cases hgpu
  obtain ⟨x, hx, hjx⟩ := mark_ge (t := later.transfer j later.dst.byteSize) qs hwritten unmarked
    hnewer
  rw [hmarks] at hx
  exact absurd (Nat.lt_of_le_of_lt hjx (holder x hx)) (Nat.not_lt.2 (Nat.le_of_lt hij))

/-- A later copy sees what a readback writes. -/
theorem not_overlap_read
    (hto : ∀ e ∈ es, e.isReadback = false → e.dst.byteSize ≠ 0 → e.toCpu = false)
    {e later : Entry} {i j : Nat} (hi : (e, i) ∈ es.zipIdx) (hj : (later, j) ∈ es.zipIdx)
    (hij : i < j) (hreadback : e.isReadback = true) (hlater : later.isReadback = false) :
    ¬ Overlap later.src.location later.dst.byteSize e.dst.location e.dst.byteSize := by
  intro hoverlap
  obtain ⟨p, ⟨k, hk, hp⟩, hwritten⟩ := overlap_iff.1 hoverlap
  have hcpu : p.device = .cpu := by
    obtain ⟨l, -, rfl⟩ := hwritten
    exact (isReadback_transfer hreadback i e.dst.byteSize).dst l
  obtain ⟨ts', us', harray⟩ := List.append_of_mem (mem_moved hj hoverlap.1)
  obtain ⟨qs, qs', hmade⟩ := List.append_of_mem
    (mem_moved (List.mem_filter (p := fun a => !a.1.isReadback) |>.2 ⟨hj, by rw [hlater]; rfl⟩)
      hoverlap.1)
  have hrun : moved trueSizes (inOrderOfRun es) =
      qs ++ later.transfer j later.dst.byteSize :: (qs' ++
        moved trueSizes (es.zipIdx.filter fun a => a.1.isReadback)) := by
    rw [inOrderOfRun, moved_append, hmade]
    simp
  have hmarks := marks_eq h hrun harray hk
  have hplace : (later.transfer j later.dst.byteSize).src.place k = p := hp
  rw [hplace] at hmarks
  -- the copies that are made at once write no place of the CPU
  have hnone : (runAll stamp qs unmarked).memory p = none := by
    refine mark_none fun u hu => ?_
    have hu : u ∈ moved trueSizes (es.zipIdx.filter fun a => !a.1.isReadback) :=
      hmade ▸ List.mem_append_left _ hu
    obtain ⟨a, ha, rfl⟩ := List.mem_map.1 hu
    obtain ⟨hmem, hmoves⟩ := List.mem_filter.1 ha
    obtain ⟨hmem, hback⟩ := List.mem_filter.1 hmem
    have hgpu := hto _ (mem_of_mem_zipIdx hmem) (Bool.not_eq_true' _ ▸ hback)
      (bne_iff_ne.1 hmoves)
    refine not_covers_of_device ?_
    rw [device_of_toCpu hgpu, hcpu]
    decide
  have hbefore : e.transfer i e.dst.byteSize ∈ ts' := by
    have hmem := mem_moved hi hoverlap.2.1
    rw [harray] at hmem
    rcases List.mem_append.1 hmem with hmem | hmem
    · exact hmem
    · have hji : j ≤ i := by
        rcases List.mem_cons.1 hmem with heq | hmem
        · exact Nat.le_of_eq (congrArg Transfer.id heq).symm
        · exact Nat.le_of_lt ((ids_lt_of_split (sorted_ids _ es) harray).2 _ hmem)
      exact absurd hij (Nat.not_lt.2 hji)
  obtain ⟨ts₁, ts₂, hsplit⟩ := List.append_of_mem hbefore
  have hsorted : ts'.Pairwise fun t u => t.id < u.id := by
    have hall := sorted_ids trueSizes es
    rw [harray, List.pairwise_append] at hall
    exact hall.1
  obtain ⟨x, hx, -⟩ := mark_ge ts₁ hwritten unmarked fun u hu _ =>
    Nat.le_of_lt ((ids_lt_of_split hsorted hsplit).2 u hu)
  rw [← hsplit, ← hmarks, hnone] at hx
  cases hx

/-- Readbacks that have the same marks as in the order of the array are not overtaken. -/
theorem notOvertaken_of_reads
    (hto : ∀ e ∈ es, e.isReadback = false → e.dst.byteSize ≠ 0 → e.toCpu = false) :
    es.Pairwise NotOvertaken := by
  rw [List.pairwise_iff_getElem]
  intro i j hi hj hij hreadback hlater
  have hmem : ∀ {k : Nat} (hk : k < es.length), (es[k], k) ∈ es.zipIdx := fun hk =>
    List.mk_mem_zipIdx_iff_getElem?.2 (List.getElem?_eq_getElem hk)
  exact ⟨not_overlap_written h (hmem hi) (hmem hj) hij hreadback hlater,
    not_overlap_read h hto (hmem hi) (hmem hj) hij hreadback hlater⟩

end

end TensorCopiesLemmas

end AmdGpuEp.DirectML.TensorCopies
