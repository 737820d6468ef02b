import AmdGpuEp.DirectML.FullGraphFusion

/-!
# The walk over a group in topological order

What `translateNodes` leaves behind when its nodes are those of a graph in the
order of `GetNodes`: who writes the names in `value_producer` and in
`graph_input_aliases`, and that a compiled node stands behind the nodes it reads.
The empty name of a missing output is a key like any other for the source, and
most of what is said here is said of proper names only.

Results:
1. `walked`: the invariant of the walk.
2. `producerOf_of_lookup`: a proper name that a compiled node writes stands for
   that node.
3. `resolve_isSome`: the chain of aliases behind a name ends.
-/

namespace AmdGpuEp.DirectML

open FullGraphLemmas

variable {D : Type}

namespace Translation

/-- The compiled node that writes what a name stands for. -/
def producerOf (t : Translation D) (name : String) : Option Nat :=
  (t.resolve name).bind fun resolved => (t.valueProducer.lookup resolved).map Prod.fst

end Translation

namespace TranslationWalkLemmas

/-! ## Maps -/

section

variable {β : Type}

/-- `map[key] = value` for each of the entries. -/
def insertAll (map entries : List (String × β)) : List (String × β) :=
  entries.foldl (fun map entry => insertEntry map entry.1 entry.2) map

theorem lookup_insertAll (map entries : List (String × β)) (k : String) :
    (insertAll map entries).lookup k = (entries.reverse.lookup k).or (map.lookup k) := by
  induction entries generalizing map with
  | nil => rfl
  | cons entry entries ih =>
    show (insertAll (insertEntry map entry.1 entry.2) entries).lookup k = _
    rw [ih, lookup_insertEntry, List.reverse_cons, List.lookup_append, Option.or_assoc]
    congr 1
    obtain ⟨key, value⟩ := entry
    by_cases hk : k = key
    · simp [hk]
    · simp [hk, List.lookup_cons, beq_false_of_ne hk]

/-- An entry of the result is a new one, or an old one whose key is not among the new. -/
theorem lookup_insertAll_cases {map entries : List (String × β)} {k : String} {value : β}
    (h : (insertAll map entries).lookup k = some value) :
    (k, value) ∈ entries ∨ k ∉ entries.map Prod.fst ∧ map.lookup k = some value := by
  rw [lookup_insertAll] at h
  cases hnew : entries.reverse.lookup k with
  | some v =>
    rw [hnew] at h
    cases h
    exact Or.inl (List.mem_reverse.1 (mem_of_lookup hnew))
  | none =>
    rw [hnew] at h
    refine Or.inr ⟨?_, h⟩
    intro hmem
    obtain ⟨entry, hentry, rfl⟩ := List.mem_map.1 hmem
    have hne := List.lookup_eq_none_iff.1 hnew entry (List.mem_reverse.2 hentry)
    simp at hne

theorem lookup_insertAll_old {map entries : List (String × β)} {k : String}
    (h : k ∉ entries.map Prod.fst) : (insertAll map entries).lookup k = map.lookup k := by
  rw [lookup_insertAll, List.lookup_eq_none_iff.2, Option.none_or]
  intro entry hentry
  rw [bne_iff_ne]
  rintro rfl
  exact h (List.mem_map.2 ⟨entry, List.mem_reverse.1 hentry, rfl⟩)

theorem mem_insertAll {map entries : List (String × β)} {entry : String × β}
    (h : entry ∈ insertAll map entries) : entry ∈ entries ∨ entry ∈ map := by
  induction entries generalizing map with
  | nil => exact Or.inr h
  | cons e entries ih =>
    rcases ih h with h | h
    · exact Or.inl (List.mem_cons_of_mem _ h)
    · rcases mem_insertEntry h with rfl | h
      · exact Or.inl List.mem_cons_self
      · exact Or.inr h

theorem keys_insertEntry {map : List (String × β)} (h : (map.map Prod.fst).Nodup) (key : String)
    (value : β) : ((insertEntry map key value).map Prod.fst).Nodup := by
  refine List.nodup_cons.2 ⟨?_, h.sublist (List.filter_sublist.map _)⟩
  intro hmem
  obtain ⟨entry, hentry, hkey⟩ := List.mem_map.1 hmem
  have hne := (List.mem_filter.1 hentry).2
  rw [hkey] at hne
  simp at hne

theorem keys_insertAll {map : List (String × β)} (h : (map.map Prod.fst).Nodup)
    (entries : List (String × β)) : ((insertAll map entries).map Prod.fst).Nodup := by
  induction entries generalizing map with
  | nil => exact h
  | cons entry entries ih => exact ih (keys_insertEntry h _ _)

/-- In a map every entry is the one that is found. -/
theorem lookup_of_mem {map : List (String × β)} (h : (map.map Prod.fst).Nodup)
    {entry : String × β} (hmem : entry ∈ map) : map.lookup entry.1 = some entry.2 := by
  induction map with
  | nil => cases hmem
  | cons e map ih =>
    obtain ⟨hnew, hrest⟩ := List.nodup_cons.1 h
    obtain ⟨key, value⟩ := e
    rcases List.mem_cons.1 hmem with rfl | hmem
    · exact List.lookup_cons_self
    · have hne : entry.1 ≠ key := by
        intro heq
        exact hnew (List.mem_map.2 ⟨entry, hmem, heq⟩)
      rw [List.lookup_cons, beq_false_of_ne hne]
      exact ih hrest hmem

end

/-! ## One turn of the walk -/

variable {registry : OpTranslatorRegistry D} {initializers : String → Option Initializer}
  {t t' : Translation D}

/-- The node has a translation for the shapes that the walk holds. -/
def Translates (registry : OpTranslatorRegistry D) (initializers : String → Option Initializer)
    (shapes : ValueShapes) (node : Node) (translated : TranslatedOp D) : Prop :=
  ∃ translator, registry node.opType = some translator ∧
    translator node shapes initializers = some translated

/-- The turn of the walk for a translated node. -/
def turn (t : Translation D) (node : Node) (translated : TranslatedOp D) : Translation D :=
  let shapes := writeBack t.valueShapes (getNodeOutputNames node) translated.outputTensors
  if translated.passthrough then
    elide { t with valueShapes := shapes } (getNodeInputNames node) (getNodeOutputNames node)
  else
    pushNode { t with valueShapes := shapes }
      { translated
        inputNames := getNodeInputNames node
        outputNames := getNodeOutputNames node
        opType := node.opType }

theorem translateNode_eq_some {node : Node} :
    translateNode registry initializers t node = some t' ↔
      ∃ translated, Translates registry initializers t.valueShapes node translated ∧
        turn t node translated = t' := by
  unfold translateNode Translates
  cases hreg : registry node.opType with
  | none => simp
  | some translator =>
    cases htranslated : translator node t.valueShapes initializers with
    | none => simp [htranslated]
    | some translated =>
      dsimp only
      simp only [htranslated, Option.some.injEq, exists_eq_left', turn]
      split <;> simp

/-- What an elided node does to the two maps. -/
theorem elide_cases (t : Translation D) (inputNames outputNames : List String) :
    elide t inputNames outputNames = t ∨
      ∃ src, inputNames.head? = some src ∧
        ((∃ producer, t.valueProducer.lookup src = some producer ∧
          elide t inputNames outputNames = { t with
            valueProducer := insertAll t.valueProducer (outputNames.map (·, producer)) }) ∨
        t.valueProducer.lookup src = none ∧
          elide t inputNames outputNames = { t with
            graphInputAliases := insertAll t.graphInputAliases (outputNames.map (·, src)) }) := by
  unfold elide
  cases hsrc : inputNames.head? with
  | none => exact Or.inl rfl
  | some src =>
    refine Or.inr ⟨src, rfl, ?_⟩
    dsimp only
    cases hproducer : t.valueProducer.lookup src with
    | some producer =>
      refine Or.inl ⟨producer, rfl, ?_⟩
      simp only [insertAll, List.foldl_map]
    | none =>
      refine Or.inr ⟨rfl, ?_⟩
      simp only [insertAll, List.foldl_map]

theorem pushNode_eq (t : Translation D) (cn : CompiledNode D) :
    pushNode t cn = { t with
      compiledNodes := t.compiledNodes ++ [cn]
      valueProducer := insertAll t.valueProducer
        (cn.outputNames.zipIdx.map fun entry => (entry.1, (t.compiledNodes.length, entry.2))) } := by
  simp only [pushNode, insertAll, List.foldl_map]

/-! ## The invariant -/

/-- What holds when the nodes `done` have been walked. -/
structure Walked (done : List Node) (t : Translation D) : Prop where
  keys : (t.valueProducer.map Prod.fst).Nodup
  producers : ProducersIn t
  produced : ∀ name p, t.valueProducer.lookup name = some p →
    ∃ n ∈ done, name ∈ getNodeOutputNames n
  aliased : ∀ entry ∈ t.graphInputAliases, ∃ n ∈ done, entry.1 ∈ getNodeOutputNames n ∧
    (getNodeInputNames n).head? = some entry.2
  apart : ∀ name, name ≠ "" → (t.graphInputAliases.lookup name).isSome →
    t.valueProducer.lookup name = none
  rooted : ∀ entry ∈ t.graphInputAliases, entry.2 ≠ "" →
    t.valueProducer.lookup entry.2 = none
  reads : ∀ (j : Nat) cn, t.compiledNodes[j]? = some cn →
    ∃ n ∈ done, cn.inputNames = getNodeInputNames n
  before : ∀ (j : Nat) cn, t.compiledNodes[j]? = some cn → ∀ name ∈ cn.inputNames, name ≠ "" →
    ∀ p, t.valueProducer.lookup name = some p → p.1 < j

section

variable {g : Graph} {done rest : List Node} {node : Node}

/-- No node before this one writes one of its outputs. -/
theorem not_written_before (hnodes : g.nodes = done ++ node :: rest) {name : String}
    (hname : name ≠ "") (hout : name ∈ getNodeOutputNames node) {n : Node} (hn : n ∈ done) :
    name ∉ getNodeOutputNames n := by
  intro hmem
  have hnodup : (done ++ node :: rest).Nodup := hnodes ▸ g.nodes_nodup
  have hne : n ≠ node := fun heq =>
    (List.nodup_append.1 hnodup).2.2 n hn node List.mem_cons_self heq
  refine hne (g.producer_unique ?_ ?_ ((mem_getNodeOutputNames hname).1 hmem)
    ((mem_getNodeOutputNames hname).1 hout))
  · rw [hnodes]
    exact List.mem_append_left _ hn
  · rw [hnodes]
    exact List.mem_append_right _ List.mem_cons_self

/-- No node up to this one reads one of its outputs. -/
theorem not_read_before (hlist : g.Listed) (hnodes : g.nodes = done ++ node :: rest)
    {name : String} (hname : name ≠ "") (hout : name ∈ getNodeOutputNames node) {n : Node}
    (hn : n ∈ done ++ [node]) : name ∉ getNodeInputNames n := by
  intro hmem
  refine hlist.no_dep_back hnodes n hn ⟨?_, ?_, name, (mem_getNodeOutputNames hname).1 hout, ?_⟩
  · rw [hnodes]
    exact List.mem_append_right _ List.mem_cons_self
  · rw [hnodes, ← List.singleton_append, ← List.append_assoc]
    exact List.mem_append_left _ hn
  · exact Node.uses_pos.2 (Or.inl ((mem_getNodeInputNames hname).1 hmem))

theorem getElem?_append_cases {α : Type} {l l' : List α} {j : Nat} {a : α}
    (h : (l ++ l')[j]? = some a) : l[j]? = some a ∨ l.length ≤ j ∧ a ∈ l' := by
  rw [List.getElem?_append] at h
  split at h
  · exact Or.inl h
  · next hj => exact Or.inr ⟨Nat.le_of_not_lt hj, List.mem_of_getElem? h⟩

theorem exists_mem_append {P : Node → Prop} (h : ∃ n ∈ done, P n) : ∃ n ∈ done ++ [node], P n := by
  obtain ⟨n, hn, hp⟩ := h
  exact ⟨n, List.mem_append_left _ hn, hp⟩

/-- The same, one node further, with other shapes. -/
theorem Walked.skip (h : Walked done t) (shapes : ValueShapes) (node : Node) :
    Walked (done ++ [node]) { t with valueShapes := shapes } where
  keys := h.keys
  producers := h.producers
  produced name p hp := exists_mem_append (h.produced name p hp)
  aliased entry hentry := exists_mem_append (h.aliased entry hentry)
  apart := h.apart
  rooted := h.rooted
  reads j cn hcn := exists_mem_append (h.reads j cn hcn)
  before := h.before

/-- The outputs of the node get producers among the compiled nodes. -/
theorem Walked.write (hlist : g.Listed) (hnodes : g.nodes = done ++ node :: rest)
    (h : Walked done t) (entries : List (String × (Nat × Nat)))
    (hkeys : entries.map Prod.fst = getNodeOutputNames node) (cns : List (CompiledNode D))
    (hentries : ∀ entry ∈ entries, entry.2.1 < (t.compiledNodes ++ cns).length)
    (hcns : ∀ cn ∈ cns, cn.inputNames = getNodeInputNames node) :
    Walked (done ++ [node]) { t with
      compiledNodes := t.compiledNodes ++ cns
      valueProducer := insertAll t.valueProducer entries } := by
  have hkey : ∀ {name : String} {p : Nat × Nat}, (name, p) ∈ entries →
      name ∈ getNodeOutputNames node := by
    intro name p hmem
    rw [← hkeys]
    exact List.mem_map_of_mem (f := Prod.fst) hmem
  refine ⟨keys_insertAll h.keys _, ?_, ?_, ?_, ?_, ?_, ?_, ?_⟩
  · intro entry hentry
    rcases mem_insertAll hentry with hentry | hentry
    · exact hentries entry hentry
    · have hlt := h.producers entry hentry
      rw [List.length_append]
      exact Nat.lt_add_right _ hlt
  · intro name p hp
    rcases lookup_insertAll_cases hp with hnew | ⟨-, hold⟩
    · exact ⟨node, List.mem_append_right _ (List.mem_singleton_self _), hkey hnew⟩
    · exact exists_mem_append (h.produced name p hold)
  · intro entry hentry
    exact exists_mem_append (h.aliased entry hentry)
  · intro name hname halias
    obtain ⟨src, hsrc⟩ := Option.isSome_iff_exists.1 halias
    obtain ⟨n, hn, hout, -⟩ := h.aliased _ (mem_of_lookup hsrc)
    have hnot : name ∉ entries.map Prod.fst := by
      rw [hkeys]
      exact fun hmem => not_written_before hnodes hname hmem hn hout
    rw [← h.apart name hname halias]
    exact lookup_insertAll_old hnot
  · intro entry hentry hname
    obtain ⟨n, hn, -, hhead⟩ := h.aliased entry hentry
    have hnot : entry.2 ∉ entries.map Prod.fst := by
      rw [hkeys]
      exact fun hmem => not_read_before hlist hnodes hname hmem (List.mem_append_left _ hn)
        (List.mem_of_head? hhead)
    rw [← h.rooted entry hentry hname]
    exact lookup_insertAll_old hnot
  · intro j cn hcn
    rcases getElem?_append_cases hcn with hcn | ⟨-, hcn⟩
    · exact exists_mem_append (h.reads j cn hcn)
    · exact ⟨node, List.mem_append_right _ (List.mem_singleton_self _), hcns cn hcn⟩
  · intro j cn hcn name hin hname p hp
    have hnot : ∀ n ∈ done ++ [node], name ∈ getNodeInputNames n →
        name ∉ getNodeOutputNames node := by
      intro n hn hmem hout
      exact not_read_before hlist hnodes hname hout hn hmem
    rcases getElem?_append_cases hcn with hcn | ⟨hj, hcn⟩
    · obtain ⟨n, hn, hinputs⟩ := h.reads j cn hcn
      rcases lookup_insertAll_cases hp with hnew | ⟨-, hold⟩
      · exact absurd (hkey hnew) (hnot n (List.mem_append_left _ hn) (hinputs ▸ hin))
      · exact h.before j cn hcn name hin hname p hold
    · rw [hcns cn hcn] at hin
      rcases lookup_insertAll_cases hp with hnew | ⟨-, hold⟩
      · exact absurd (hkey hnew)
          (hnot node (List.mem_append_right _ (List.mem_singleton_self _)) hin)
      · exact Nat.lt_of_lt_of_le (h.producers _ (mem_of_lookup hold)) hj

/-- The outputs of an elided node become aliases of a value from outside. -/
theorem Walked.alias (hnodes : g.nodes = done ++ node :: rest) (h : Walked done t) {src : String}
    (hsrc : (getNodeInputNames node).head? = some src)
    (hnone : t.valueProducer.lookup src = none) :
    Walked (done ++ [node]) { t with
      graphInputAliases :=
        insertAll t.graphInputAliases ((getNodeOutputNames node).map (·, src)) } where
  keys := h.keys
  producers := h.producers
  produced name p hp := exists_mem_append (h.produced name p hp)
  aliased := by
    intro entry hentry
    rcases mem_insertAll hentry with hnew | hold
    · obtain ⟨name, hname, rfl⟩ := List.mem_map.1 hnew
      exact ⟨node, List.mem_append_right _ (List.mem_singleton_self _), hname, hsrc⟩
    · exact exists_mem_append (h.aliased entry hold)
  apart := by
    intro name hname halias
    obtain ⟨src', hsrc'⟩ := Option.isSome_iff_exists.1 halias
    rcases lookup_insertAll_cases hsrc' with hnew | ⟨-, hold⟩
    · obtain ⟨name', hout, heq⟩ := List.mem_map.1 hnew
      obtain ⟨rfl, -⟩ := Prod.mk.inj heq
      by_contra hsome
      obtain ⟨p, hp⟩ := Option.ne_none_iff_exists'.1 hsome
      obtain ⟨n, hn, hmem⟩ := h.produced _ p hp
      exact not_written_before hnodes hname hout hn hmem
    · exact h.apart name hname (Option.isSome_iff_exists.2 ⟨src', hold⟩)
  rooted := by
    intro entry hentry hname
    rcases mem_insertAll hentry with hnew | hold
    · obtain ⟨name, -, rfl⟩ := List.mem_map.1 hnew
      exact hnone
    · exact h.rooted entry hold hname
  reads j cn hcn := exists_mem_append (h.reads j cn hcn)
  before := h.before

/-- The step lemma of the walk. -/
theorem walked_turn (hlist : g.Listed) (hnodes : g.nodes = done ++ node :: rest)
    (h : Walked done t) (translated : TranslatedOp D) :
    Walked (done ++ [node]) (turn t node translated) := by
  unfold turn
  generalize writeBack t.valueShapes (getNodeOutputNames node) translated.outputTensors = shapes
  have hskip : Walked done { t with valueShapes := shapes } :=
    ⟨h.keys, h.producers, h.produced, h.aliased, h.apart, h.rooted, h.reads, h.before⟩
  split
  · rcases elide_cases { t with valueShapes := shapes } (getNodeInputNames node)
      (getNodeOutputNames node) with hsame | ⟨src, hsrc, ⟨p, hp, heq⟩ | ⟨hnone, heq⟩⟩
    · rw [hsame]
      exact h.skip shapes node
    · rw [heq]
      have hwrite := Walked.write hlist hnodes hskip
        ((getNodeOutputNames node).map (·, p)) ?_ [] ?_ (by simp)
      · simpa using hwrite
      · rw [List.map_map]
        exact List.map_id _
      · intro entry hentry
        obtain ⟨name, -, rfl⟩ := List.mem_map.1 hentry
        rw [List.append_nil]
        exact h.producers (src, p) (mem_of_lookup hp)
    · rw [heq]
      exact Walked.alias hnodes hskip hsrc hnone
  · rw [pushNode_eq]
    refine Walked.write hlist hnodes hskip _ ?_ _ ?_ (by simp)
    · simp [List.map_map, Function.comp_def]
    · intro entry hentry
      obtain ⟨e, -, rfl⟩ := List.mem_map.1 hentry
      simp

end

/-! ## Alias chains -/

/-- Every alias is a proper name for a proper name, and no alias was added for a name that an older
one stands for. Newer aliases come first. -/
structure Chained (aliases : List (String × String)) : Prop where
  keyed : ∀ entry ∈ aliases, entry.1 ≠ ""
  named : ∀ entry ∈ aliases, entry.2 ≠ ""
  loopless : ∀ entry ∈ aliases, entry.2 ≠ entry.1
  ordered : aliases.Pairwise fun newer older => older.2 ≠ newer.1

theorem Chained.insertEntry {aliases : List (String × String)} (h : Chained aliases)
    {key src : String} (hname : key ≠ "") (hsrc : src ≠ "") (hkey : src ≠ key)
    (hold : ∀ e ∈ aliases, e.2 ≠ key) : Chained (insertEntry aliases key src) where
  keyed := by
    intro entry hentry
    rcases mem_insertEntry hentry with rfl | hentry
    · exact hname
    · exact h.keyed entry hentry
  named := by
    intro entry hentry
    rcases mem_insertEntry hentry with rfl | hentry
    · exact hsrc
    · exact h.named entry hentry
  loopless := by
    intro entry hentry
    rcases mem_insertEntry hentry with rfl | hentry
    · exact hkey
    · exact h.loopless entry hentry
  ordered := by
    refine List.pairwise_cons.2 ⟨fun entry hentry => ?_, h.ordered.filter _⟩
    exact hold entry (List.mem_filter.1 hentry).1

theorem Chained.insertAll {src : String} (hsrc : src ≠ "") {names : List String}
    (hnamed : "" ∉ names) (hnames : src ∉ names) {aliases : List (String × String)}
    (h : Chained aliases) (hold : ∀ e ∈ aliases, e.2 ∉ names) :
    Chained (insertAll aliases (names.map (·, src))) := by
  induction names generalizing aliases with
  | nil => exact h
  | cons name names ih =>
    obtain ⟨hname, hnamed⟩ := not_or.1 (mt List.mem_cons.2 hnamed)
    obtain ⟨hne, hnames⟩ := not_or.1 (mt List.mem_cons.2 hnames)
    refine ih hnamed hnames (h.insertEntry (Ne.symm hname) hsrc hne fun e he heq => ?_)
      fun e he hmem => ?_
    · exact hold e he (heq ▸ List.mem_cons_self)
    · rcases mem_insertEntry he with rfl | he
      · exact hnames hmem
      · exact hold e he (List.mem_cons_of_mem _ hmem)

/-- An alias is found behind the entries that are not for its name. -/
theorem split_at_alias {aliases front back : List (String × String)} {name src : String}
    (heq : aliases = front ++ back) (hfront : ∀ e ∈ front, name ≠ e.1)
    (hlookup : aliases.lookup name = some src) :
    ∃ mid rest, back = mid ++ (name, src) :: rest := by
  have hmem : (name, src) ∈ front ++ back := heq ▸ mem_of_lookup hlookup
  refine List.append_of_mem ((List.mem_append.1 hmem).resolve_left fun hin => ?_)
  exact hfront _ hin rfl

/-- The chain goes on behind the entries it has passed: induction on what is left of the list. -/
theorem resolveAlias_isSome {aliases : List (String × String)} (h : Chained aliases)
    (fuel : Nat) : ∀ (front back : List (String × String)) (name : String),
      aliases = front ++ back → (∀ e ∈ front, name ≠ e.1) → back.length ≤ fuel →
      (resolveAlias aliases fuel name).isSome := by
  induction fuel with
  | zero =>
    intro front back name heq hfront hback
    have hnone : aliases.lookup name = none := by
      by_contra hsome
      obtain ⟨src, hlookup⟩ := Option.ne_none_iff_exists'.1 hsome
      obtain ⟨mid, rest, rfl⟩ := split_at_alias heq hfront hlookup
      simp at hback
    simp [resolveAlias, hnone]
  | succ fuel ih =>
    intro front back name heq hfront hback
    rw [resolveAlias]
    cases hlookup : aliases.lookup name with
    | none => rfl
    | some src =>
      obtain ⟨mid, rest, rfl⟩ := split_at_alias heq hfront hlookup
      have hsplit : aliases = (front ++ mid) ++ (name, src) :: rest := by
        rw [heq, List.append_assoc]
      have hordered := List.pairwise_append.1 (hsplit ▸ h.ordered)
      refine ih (front ++ mid ++ [(name, src)]) rest src ?_ (fun e he => ?_) ?_
      · rw [hsplit, List.append_assoc _ [_], List.singleton_append]
      · rcases List.mem_append.1 he with he | he
        · exact hordered.2.2 e he _ List.mem_cons_self
        · rw [List.mem_singleton.1 he]
          exact h.loopless _ (mem_of_lookup hlookup)
      · rw [List.length_append, List.length_cons] at hback
        omega

section

variable {g : Graph} {done rest : List Node} {node : Node}

/-- A node that is elided has its first input and its outputs. -/
def FedTurn (node : Node) (translated : TranslatedOp D) : Prop :=
  translated.passthrough →
    (getNodeInputNames node).head? ≠ some "" ∧ "" ∉ getNodeOutputNames node

theorem chained_turn (hlist : g.Listed) (hnodes : g.nodes = done ++ node :: rest)
    (h : Walked done t) (hchained : Chained t.graphInputAliases) {translated : TranslatedOp D}
    (hfed : FedTurn node translated) : Chained (turn t node translated).graphInputAliases := by
  unfold turn
  generalize writeBack t.valueShapes (getNodeOutputNames node) translated.outputTensors = shapes
  split
  · next hpass =>
    rcases elide_cases { t with valueShapes := shapes } (getNodeInputNames node)
      (getNodeOutputNames node) with hsame | ⟨src, hsrc, ⟨p, -, heq⟩ | ⟨-, heq⟩⟩
    · rwa [hsame]
    · rwa [heq]
    · rw [heq]
      have hname : src ≠ "" := by
        rintro rfl
        exact (hfed hpass).1 hsrc
      have hback : ∀ {name : String} {n : Node}, name ≠ "" → n ∈ done ++ [node] →
          (getNodeInputNames n).head? = some name → name ∉ getNodeOutputNames node := by
        intro name n hname hn hhead hout
        exact not_read_before hlist hnodes hname hout hn (List.mem_of_head? hhead)
      refine hchained.insertAll hname (hfed hpass).2 ?_ fun e he => ?_
      · exact hback hname (List.mem_append_right _ (List.mem_singleton_self _)) hsrc
      · obtain ⟨n, hn, -, hhead⟩ := h.aliased e he
        exact hback (hchained.named e he) (List.mem_append_left _ hn) hhead
  · exact hchained

end

end TranslationWalkLemmas

open TranslationWalkLemmas

section

variable {registry : OpTranslatorRegistry D} {sg : SubgraphInfo} {g : Graph} {t : Translation D}

/-- A rule for the walk: what the turns keep holds at its end. -/
theorem walk_induction {P : List Node → Translation D → Prop}
    (hstart : P [] { valueShapes := sg.valueShapes })
    (hturn : ∀ done node rest s translated, g.nodes = done ++ node :: rest → P done s →
      Translates registry sg.allInitializers s.valueShapes node translated →
      P (done ++ [node]) (turn s node translated))
    (h : translateNodes registry sg g.nodes = some t) : P g.nodes t := by
  have hrun : ∀ (done rest : List Node) (s : Translation D), g.nodes = done ++ rest → P done s →
      rest.foldlM (translateNode registry sg.allInitializers) s = some t → P g.nodes t := by
    intro done rest
    induction rest generalizing done with
    | nil =>
      intro s hnodes hs hfold
      cases hfold
      rwa [hnodes, List.append_nil]
    | cons node rest ih =>
      intro s hnodes hs hfold
      rw [List.foldlM_cons] at hfold
      obtain ⟨mid, hmid, hrest⟩ := Option.bind_eq_some_iff.1 hfold
      obtain ⟨translated, htranslated, rfl⟩ := translateNode_eq_some.1 hmid
      refine ih (done ++ [node]) _ ?_ (hturn done node rest s translated hnodes hs htranslated) hrest
      rw [hnodes, List.append_assoc, List.singleton_append]
  exact hrun [] g.nodes _ rfl hstart h

/-- The run lemma of the walk. -/
theorem walked (hlist : g.Listed) (h : translateNodes registry sg g.nodes = some t) :
    Walked g.nodes t := by
  refine walk_induction ?_ (fun _ _ _ _ translated hnodes hs _ => ?_) h
  · refine ⟨List.nodup_nil, ?_, ?_, ?_, ?_, ?_, ?_, ?_⟩ <;> simp [ProducersIn]
  · exact walked_turn hlist hnodes hs translated

/-- What ORT promises of the nodes that the translators elide, operators with one output each:
input and output are there. -/
def PassthroughFed (registry : OpTranslatorRegistry D) (g : Graph) : Prop :=
  ∀ node ∈ g.nodes, ∀ initializers shapes translated,
    Translates registry initializers shapes node translated → FedTurn node translated

theorem chained (hlist : g.Listed) (hfed : PassthroughFed registry g)
    (h : translateNodes registry sg g.nodes = some t) : Chained t.graphInputAliases := by
  have hboth : Walked g.nodes t ∧ Chained t.graphInputAliases := by
    refine walk_induction (P := fun done s => Walked done s ∧ Chained s.graphInputAliases) ?_
      (fun done node rest s translated hnodes hs htranslated => ?_) h
    · refine ⟨⟨List.nodup_nil, ?_, ?_, ?_, ?_, ?_, ?_, ?_⟩, ?_, ?_, ?_, .nil⟩ <;> simp [ProducersIn]
    · have hmem : node ∈ g.nodes := hnodes ▸ List.mem_append_right _ List.mem_cons_self
      exact ⟨walked_turn hlist hnodes hs.1 translated,
        chained_turn hlist hnodes hs.1 hs.2 (hfed node hmem _ _ _ htranslated)⟩
  exact hboth.2

/-- The chain of aliases behind every name ends. -/
theorem resolve_isSome (h : Chained t.graphInputAliases) (name : String) :
    (t.resolve name).isSome :=
  resolveAlias_isSome h _ [] _ name rfl (by simp) (Nat.le_refl _)

theorem resolve_of_lookup_none {name : String} (h : t.graphInputAliases.lookup name = none) :
    t.resolve name = some name := by
  unfold Translation.resolve
  cases t.graphInputAliases.length with
  | zero => simp [resolveAlias, h]
  | succ n => simp [resolveAlias, h]

/-- What is found behind an alias comes from outside. -/
theorem resolve_rooted {done : List Node} (h : Walked done t)
    (hchained : Chained t.graphInputAliases) {name resolved : String}
    (hres : t.resolve name = some resolved) :
    resolved = name ∨ t.valueProducer.lookup resolved = none := by
  have hchain : ∀ fuel name, resolveAlias t.graphInputAliases fuel name = some resolved →
      resolved = name ∨ t.valueProducer.lookup resolved = none := by
    intro fuel
    induction fuel with
    | zero =>
      intro name hname
      obtain ⟨-, heq⟩ := Option.ite_none_right_eq_some.1 hname
      exact Or.inl (Option.some.inj heq).symm
    | succ fuel ih =>
      intro name hname
      rw [resolveAlias] at hname
      cases hlookup : t.graphInputAliases.lookup name with
      | none =>
        rw [hlookup] at hname
        exact Or.inl (Option.some.inj hname).symm
      | some src =>
        rw [hlookup] at hname
        have hentry := mem_of_lookup hlookup
        right
        rcases ih src hname with rfl | hnone
        · exact h.rooted _ hentry (hchained.named _ hentry)
        · exact hnone
  exact hchain _ name hres

theorem resolve_empty (h : Chained t.graphInputAliases) : t.resolve "" = some "" := by
  refine resolve_of_lookup_none ?_
  by_contra hsome
  obtain ⟨src, hsrc⟩ := Option.ne_none_iff_exists'.1 hsome
  exact h.keyed _ (mem_of_lookup hsrc) rfl

/-- A proper name with a producer is no alias, and stands for that producer. -/
theorem producerOf_of_lookup {done : List Node} (h : Walked done t) {name : String}
    (hname : name ≠ "") {p : Nat × Nat} (hp : t.valueProducer.lookup name = some p) :
    t.producerOf name = some p.1 := by
  have hnone : t.graphInputAliases.lookup name = none := by
    by_contra hsome
    rw [h.apart name hname (Option.isSome_iff_ne_none.2 hsome)] at hp
    cases hp
  unfold Translation.producerOf
  rw [resolve_of_lookup_none hnone, Option.bind_some, hp, Option.map_some]

end

end AmdGpuEp.DirectML
