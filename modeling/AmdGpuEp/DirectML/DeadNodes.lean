import AmdGpuEp.DirectML.TranslationWalk

/-!
# Dead-node elimination

`Compile` drops the compiled nodes whose values nothing reads. It counts, for
every node, the names among its outputs that are consumed; a dropped node then
lets go of its producers once for each slot it reads. A name that is read in two
slots is counted once and let go of twice, so a node can be dropped while a kept
node still reads it.

Results:
1. `keepsNeeded_iff`: what is kept is what a graph output needs exactly when
   every needed node has more consumed names than the unneeded nodes have slots
   that read it, and the unneeded nodes have an order in which the work queue
   can reach them.
2. `eliminable_of_named`: in a group without a missing output they have one.
3. `sharedRead_dropped`: a dead reader takes away the producer of a live one.
-/

namespace AmdGpuEp.DirectML

open FullGraphLemmas TranslationWalkLemmas

variable {D : Type}

/-! ## What a graph output needs -/

namespace Translation

/-- Node `j` reads a value of node `i` in a wired input. -/
def Feeds (t : Translation D) (i j : Nat) : Prop :=
  ∃ cn, t.compiledNodes[j]? = some cn ∧
    ∃ name ∈ cn.wiredInputs, name ≠ "" ∧ t.producerOf name = some i

/-- A graph output needs the node: it writes the output, or feeds a needed node. -/
inductive Needed (t : Translation D) (sg : SubgraphInfo) : Nat → Prop
  | output {entry : String × Nat} {i : Nat} (hentry : entry ∈ sg.graphOutputMap)
      (hi : t.producerOf entry.1 = some i) : Needed t sg i
  | feeds {i j : Nat} (hfeeds : t.Feeds i j) (hj : Needed t sg j) : Needed t sg i

open Classical in
/-- The compiled nodes that no graph output needs. -/
noncomputable def unneeded (t : Translation D) (sg : SubgraphInfo) : List Nat :=
  (List.range t.compiledNodes.length).filter fun i => ¬ t.Needed sg i

end Translation

/-- Dead-node elimination keeps exactly the needed nodes, and no kept node reads a dropped one. -/
def KeepsNeeded (t : Translation D) (sg : SubgraphInfo) : Prop :=
  (∀ i < t.compiledNodes.length, i ∈ t.liveNodes sg ↔ t.Needed sg i) ∧
    ∀ i j, j ∈ t.liveNodes sg → t.Feeds i j → i ∈ t.liveNodes sg

/-- Every needed node has more consumed names than the unneeded nodes have slots that read it. -/
def NeededCounted (t : Translation D) (sg : SubgraphInfo) : Prop :=
  ∀ i < t.compiledNodes.length, t.Needed sg i →
    RefCount.readsOf t.uses (t.unneeded sg) i < t.refcount sg i

/-- The unneeded nodes have an order in which the slots of the nodes before a node use up the
count of its consumed names. -/
def Eliminable (t : Translation D) (sg : SubgraphInfo) : Prop :=
  RefCount.Eliminable t.uses (t.refcount sg) (t.unneeded sg)

/-! ## Kept and needed -/

namespace DeadNodesLemmas

variable {t : Translation D} {sg : SubgraphInfo}

theorem mem_unneeded {i : Nat} :
    i ∈ t.unneeded sg ↔ i < t.compiledNodes.length ∧ ¬ t.Needed sg i := by
  simp [Translation.unneeded]

theorem unneeded_nodup : (t.unneeded sg).Nodup :=
  List.nodup_range.filter _

/-- A node that feeds another is a compiled node. -/
theorem lt_of_feeds (h : ProducersIn t) {i j : Nat} (hfeeds : t.Feeds i j) :
    i < t.compiledNodes.length := by
  obtain ⟨cn, -, name, -, -, hname⟩ := hfeeds
  obtain ⟨resolved, -, hlookup⟩ := Option.bind_eq_some_iff.1 hname
  obtain ⟨producer, hproducer, rfl⟩ := Option.map_eq_some_iff.1 hlookup
  exact h _ (mem_of_lookup hproducer)

/-- When the counts of the needed nodes outlast the unneeded ones, no needed node is starved. -/
theorem not_needed_of_starved (h : NeededCounted t sg) {i : Nat}
    (hi : RefCount.Starved t.uses (t.refcount sg) t.compiledNodes.length i) :
    ¬ t.Needed sg i := by
  induction hi with
  | @intro i dead hin hnodup hdead hreads ih =>
    intro hneeded
    have hlt : ∀ d ∈ dead, d < t.compiledNodes.length := by
      intro d hd
      cases hdead d hd with
      | intro _ hdn _ _ _ => exact hdn
    have hsub : dead ⊆ t.unneeded sg := fun d hd => mem_unneeded.2 ⟨hlt d hd, ih d hd⟩
    have hle := Nat.le_trans hreads (RefCount.readsOf_le hnodup hsub i)
    exact Nat.not_lt_of_le hle (h i hin hneeded)

/-! ## Groups without a missing output -/

/-- The slots of some nodes that read node `i`, as names. -/
def readers (t : Translation D) (dead : List Nat) : List String :=
  dead.flatMap fun j => (t.compiledNodes[j]?.map CompiledNode.wiredInputs).getD []

theorem readsOf_eq (dead : List Nat) (i : Nat) :
    RefCount.readsOf t.uses dead i =
      (readers t dead).countP fun name => (t.valueProducer.lookup name).map Prod.fst == some i := by
  induction dead with
  | nil => rfl
  | cons j dead ih =>
    have hcons : readers t (j :: dead) =
        ((t.compiledNodes[j]?.map CompiledNode.wiredInputs).getD []) ++ readers t dead := rfl
    rw [RefCount.readsOf_cons, ih, hcons, List.countP_append, Nat.add_comm]
    congr 1
    rw [Translation.uses, List.count, List.countP_filterMap]
    refine List.countP_congr fun name _ => ?_
    cases t.valueProducer.lookup name <;> simp

/-- A consumed name of an unneeded node is read by an unneeded node behind it. -/
theorem read_behind {done : List Node} (h : Walked done t) {i k : Nat} {name : String}
    (hi : i ∈ t.unneeded sg) (hname : name ≠ "") (hp : t.valueProducer.lookup name = some (i, k))
    (hconsumed : name ∈ t.consumedNames sg) :
    name ∈ readers t ((t.unneeded sg).filter (i < ·)) := by
  have hproducer : t.producerOf name = some i := producerOf_of_lookup h hname hp
  have hnot := (mem_unneeded.1 hi).2
  rcases List.mem_append.1 hconsumed with hwired | hout
  · obtain ⟨cn, hcn, hwired⟩ := List.mem_flatMap.1 hwired
    obtain ⟨j, hj⟩ := List.mem_iff_getElem?.1 hcn
    have hlt : i < j := h.before j cn hj name (mem_wiredInputs hwired) hname _ hp
    have hunneeded : j ∈ t.unneeded sg := by
      refine mem_unneeded.2 ⟨(List.getElem?_eq_some_iff.1 hj).1, fun hneeded => hnot ?_⟩
      exact .feeds ⟨cn, hj, name, hwired, hname, hproducer⟩ hneeded
    refine List.mem_flatMap.2 ⟨j, List.mem_filter.2 ⟨hunneeded, decide_eq_true hlt⟩, ?_⟩
    rwa [hj]
  · obtain ⟨entry, hentry, rfl⟩ := List.mem_map.1 hout
    exact absurd (.output hentry hproducer) hnot

/-- The slots of the unneeded nodes behind an unneeded node use up its count. -/
theorem refcount_le {done : List Node} (h : Walked done t)
    (hnamed : t.valueProducer.lookup "" = none) {i : Nat} (hi : i ∈ t.unneeded sg) :
    t.refcount sg i ≤ RefCount.readsOf t.uses ((t.unneeded sg).filter (i < ·)) i := by
  rw [readsOf_eq, Translation.refcount, List.countP_eq_length_filter, List.countP_eq_length_filter,
    ← List.length_map Prod.fst]
  refine (List.subperm_of_subset ?_ fun name hmem => ?_).length_le
  · exact h.keys.sublist (List.filter_sublist.map _)
  · obtain ⟨⟨name, i', k⟩, hentry, rfl⟩ := List.mem_map.1 hmem
    obtain ⟨hin, hcond⟩ := List.mem_filter.1 hentry
    obtain ⟨hi', hconsumed⟩ := Bool.and_eq_true_iff.1 hcond
    obtain rfl : i' = i := beq_iff_eq.1 hi'
    have hp : t.valueProducer.lookup name = some (i', k) := lookup_of_mem h.keys hin
    have hname : name ≠ "" := by
      rintro rfl
      rw [hnamed] at hp
      cases hp
    refine List.mem_filter.2 ⟨read_behind h hi hname hp (List.contains_iff_mem.1 hconsumed), ?_⟩
    rw [hp]
    exact beq_self_eq_true _

end DeadNodesLemmas

open DeadNodesLemmas

section

variable {t : Translation D} {sg : SubgraphInfo}

/-- With sound counts and an order of removal, the starved nodes are the unneeded ones. -/
theorem starved_iff (hcounted : NeededCounted t sg) (helim : Eliminable t sg) {i : Nat}
    (hi : i < t.compiledNodes.length) :
    RefCount.Starved t.uses (t.refcount sg) t.compiledNodes.length i ↔ ¬ t.Needed sg i := by
  constructor
  · exact not_needed_of_starved hcounted
  · intro hneeded
    obtain ⟨order, hperm, horder⟩ := helim
    refine RefCount.starved_of_unwinds (hperm.nodup_iff.2 unneeded_nodup) (fun j hj => ?_) horder i
      (hperm.mem_iff.2 (mem_unneeded.2 ⟨hi, hneeded⟩))
    exact (mem_unneeded.1 (hperm.mem_iff.1 hj)).1

theorem keepsNeeded_iff_balanced (h : ProducersIn t) :
    KeepsNeeded t sg ↔ NeededCounted t sg ∧ Eliminable t sg := by
  constructor
  · rintro ⟨hkept, -⟩
    have hstarved : ∀ i < t.compiledNodes.length,
        (RefCount.Starved t.uses (t.refcount sg) t.compiledNodes.length i ↔ ¬ t.Needed sg i) := by
      intro i hi
      rw [← hkept i hi, live_iff h, not_and, not_not]
      exact ⟨fun hs _ => hs, fun hs => hs hi⟩
    have hall : ∀ i ∈ t.unneeded sg,
        RefCount.Starved t.uses (t.refcount sg) t.compiledNodes.length i := by
      intro i hi
      obtain ⟨hlt, hneeded⟩ := mem_unneeded.1 hi
      exact (hstarved i hlt).2 hneeded
    constructor
    · intro i hi hneeded
      by_contra hle
      have hs := RefCount.Starved.intro (t.unneeded sg) hi unneeded_nodup hall (Nat.le_of_not_lt hle)
      exact (hstarved i hi).1 hs hneeded
    · refine (RefCount.eliminable_iff unneeded_nodup (fun i hi => (mem_unneeded.1 hi).1) ?_).2 hall
      intro i hs
      have hlt : i < t.compiledNodes.length := by
        cases hs with
        | intro _ hin _ _ _ => exact hin
      exact mem_unneeded.2 ⟨hlt, (hstarved i hlt).1 hs⟩
  · rintro ⟨hcounted, helim⟩
    have hkept : ∀ i < t.compiledNodes.length, i ∈ t.liveNodes sg ↔ t.Needed sg i := by
      intro i hi
      rw [live_iff h, starved_iff hcounted helim hi, not_not]
      exact and_iff_right hi
    refine ⟨hkept, fun i j hj hfeeds => ?_⟩
    have hjlt : j < t.compiledNodes.length := ((live_iff h).1 hj).1
    exact (hkept i (lt_of_feeds h hfeeds)).2 (.feeds hfeeds ((hkept j hjlt).1 hj))

end

section

variable {registry : OpTranslatorRegistry D} {sg : SubgraphInfo} {t : Translation D}

theorem keepsNeeded_iff {nodes : List Node} (h : translateNodes registry sg nodes = some t) :
    KeepsNeeded t sg ↔ NeededCounted t sg ∧ Eliminable t sg :=
  keepsNeeded_iff_balanced (producers_lt h)

/-- In a group without a missing output the work queue can reach every unneeded node. -/
theorem eliminable_of_named {g : Graph} (hlist : g.Listed)
    (hnamed : ∀ n ∈ g.nodes, "" ∉ getNodeOutputNames n)
    (h : translateNodes registry sg g.nodes = some t) : Eliminable t sg := by
  have hwalked : Walked g.nodes t := walked hlist h
  have hnone : t.valueProducer.lookup "" = none := by
    by_contra hsome
    obtain ⟨p, hp⟩ := Option.ne_none_iff_exists'.1 hsome
    obtain ⟨n, hn, hmem⟩ := hwalked.produced "" p hp
    exact hnamed n hn hmem
  have hsorted : (t.unneeded sg).Pairwise (· < ·) := List.pairwise_lt_range.filter _
  exact ⟨t.unneeded sg, .refl _,
    RefCount.unwinds_of_sorted hsorted fun i hi => refcount_le hwalked hnone hi⟩

end

/-! ## A dead reader beside a live one -/

def reluRegistry : OpTranslatorRegistry String := fun op =>
  if op = "Relu" then some (translateUnaryActivation "RELU") else none

def sharedReadInfo : SubgraphInfo where
  graphInputs := ["x"]
  graphOutputs := ["y"]
  valueShapes := fun _ => some (makeTensorInfo [2, 3] .float32)
  allInitializers := fun _ => none

/-- `v` is read by a node that nothing reads, and by the node of the graph output. -/
def sharedRead : List Node :=
  [{ id := 0, opType := "Relu", inputs := [some "x"], outputs := [some "v"] },
    { id := 1, opType := "Relu", inputs := [some "v"], outputs := [some "w"] },
    { id := 2, opType := "Relu", inputs := [some "v"], outputs := [some "y"] }]

/-- Its translation: three compiled nodes. -/
def sharedReadTranslation : Translation String :=
  (translateNodes reluRegistry sharedReadInfo sharedRead).get (by decide)

theorem sharedRead_balanced :
    KeepsNeeded sharedReadTranslation sharedReadInfo ↔
      NeededCounted sharedReadTranslation sharedReadInfo ∧
        Eliminable sharedReadTranslation sharedReadInfo :=
  keepsNeeded_iff (Option.some_get _).symm

/-- `v` is one consumed name. The dead reader lets go of it, and its producer is dropped under the
live one. -/
theorem sharedRead_dropped :
    translateNodes reluRegistry sharedReadInfo sharedRead = some sharedReadTranslation ∧
      sharedReadTranslation.liveNodes sharedReadInfo = [2] ∧
      sharedReadTranslation.Feeds 0 2 ∧
      ¬ KeepsNeeded sharedReadTranslation sharedReadInfo := by
  have hfeeds : sharedReadTranslation.Feeds 0 2 := ⟨_, rfl, "v", by decide, by decide, by decide⟩
  refine ⟨(Option.some_get _).symm, by decide, hfeeds, ?_⟩
  rintro ⟨-, hclosed⟩
  exact absurd (hclosed 0 2 (by decide) hfeeds) (by decide)

end AmdGpuEp.DirectML
