import AmdGpuEp.DirectML.FusedMatMulMatch

/-!
# What is captured of a FusedMatMul match

The names under which a match of `fused_matmul_ep_fusion.cc` keeps its nodes,
and what `CapturePreFusionData` adds to them: the flags and the source of each
transpose that it leaves in the match.

Results:
1. `found_spec`: every capture that `Compile` reads, and the nodes in front of the
   exclusion pass.
-/

namespace AmdGpuEp.DirectML.FusedMatMul

open PatternMatcherLemmas

variable {F : Type}

/-! ## Looking up a capture -/

section

variable {already : List Node} {n : Node} {out : PatternMatch F}

theorem nodeIndices_commitAll {taken : List (String × Node)} (h : (taken.map Prod.fst).Nodup)
    {key : String} :
    (commitAll out taken).nodeIndices key = some n ↔
      (key, n) ∈ taken ∨ key ∉ taken.map Prod.fst ∧ out.nodeIndices key = some n := by
  induction taken generalizing out with
  | nil => simp [commitAll]
  | cons e taken ih =>
    obtain ⟨hnot, hrest⟩ := List.nodup_cons.1 h
    show (commitAll (out.commit e.1 e.2) taken).nodeIndices key = some n ↔ _
    rw [ih hrest]
    cases decEq key e.1 with
    | isTrue heq =>
      subst heq
      have hmem : (e.1, n) ∉ taken := fun hmem => hnot (List.mem_map.2 ⟨_, hmem, rfl⟩)
      simp [PatternMatch.commit, hmem, hnot, Prod.ext_iff, eq_comm]
    | isFalse hne =>
      simp [PatternMatch.commit, hne, Prod.ext_iff]

theorem valueNames_commitAll (out : PatternMatch F) (taken : List (String × Node)) :
    (commitAll out taken).valueNames = out.valueNames := by
  induction taken generalizing out with
  | nil => rfl
  | cons e taken ih => exact ih (out.commit e.1 e.2)

theorem scalarValues_commitAll (out : PatternMatch F) (taken : List (String × Node)) :
    (commitAll out taken).scalarValues = out.scalarValues := by
  induction taken generalizing out with
  | nil => rfl
  | cons e taken ih => exact ih (out.commit e.1 e.2)

theorem mem_takenActivations {gc : GraphConnectivity} {acts : List (String × String)}
    {last : Node} {key : String} :
    (key, n) ∈ takenActivations gc already last acts ↔
      ∃ op, (op, key) ∈ acts ∧ freeReader gc already last op = some n := by
  simp only [takenActivations, List.mem_filterMap, Option.map_eq_some_iff, Prod.mk.injEq]
  constructor
  · rintro ⟨a, ha, c, hc, rfl, rfl⟩
    exact ⟨a.1, ha, hc⟩
  · rintro ⟨op, hop, hread⟩
    exact ⟨(op, key), hop, n, hread, rfl, rfl⟩

/-- The captures of the activations that are taken are some of those of the pattern, in order. -/
theorem keys_takenActivations (gc : GraphConnectivity) (already : List Node) (n : Node)
    (acts : List (String × String)) :
    ((takenActivations gc already n acts).map Prod.fst).Sublist (acts.map Prod.snd) := by
  induction acts with
  | nil => exact List.Sublist.slnil
  | cons a acts ih =>
    rw [takenActivations, List.filterMap_cons, List.map_cons]
    cases freeReader gc already n a.1 with
    | none => exact ih.cons _
    | some c => exact ih.cons_cons _

end

def Input.side : Input → Side
  | .a => sideA
  | .b => sideB

theorem scaleNodeKey_mem (isDiv : Bool) :
    scaleNodeKey isDiv ∈ ["FusedMatMul.scale_mul", "FusedMatMul.scale_div"] := by
  cases isDiv <;> decide

theorem scaleNodeKey_inj {isDiv isDiv' : Bool} :
    scaleNodeKey isDiv = scaleNodeKey isDiv' ↔ isDiv = isDiv' := by
  cases isDiv <;> cases isDiv' <;> decide

theorem scaleNameKey_inj {isDiv isDiv' : Bool} :
    scaleNameKey isDiv = scaleNameKey isDiv' ↔ isDiv = isDiv' := by
  cases isDiv <;> cases isDiv' <;> decide

section

variable {out : PatternMatch F} {scale : Option Scale} {key key' : String} {t : Option Node}
  {n : Node}

theorem nodeIndices_commitOption_self (h : out.nodeIndices key = none) :
    (commitOption out key t).nodeIndices key = t := by
  cases t with
  | none => exact h
  | some n => simp [commitOption, PatternMatch.commit]

theorem nodeIndices_commitOption_of_ne (h : key ≠ key') :
    (commitOption out key' t).nodeIndices key = out.nodeIndices key := by
  cases t with
  | none => rfl
  | some n => simp [commitOption, PatternMatch.commit, h]

theorem nodeIndices_withScale_of_ne
    (h : key ∉ ["FusedMatMul.scale_mul", "FusedMatMul.scale_div"]) :
    (withScale out scale).nodeIndices key = out.nodeIndices key := by
  cases scale with
  | none => rfl
  | some s =>
    have hne : key ≠ scaleNodeKey s.isDiv := fun heq => h (heq ▸ scaleNodeKey_mem s.isDiv)
    simp [withScale, PatternMatch.commit, PatternMatch.setValueName, hne]

theorem nodeIndices_withScale {isDiv : Bool} (h : out.nodeIndices (scaleNodeKey isDiv) = none) :
    (withScale out scale).nodeIndices (scaleNodeKey isDiv) = some n ↔
      ∃ s, scale = some s ∧ s.isDiv = isDiv ∧ s.node = n := by
  cases scale with
  | none => simp [withScale, h]
  | some s =>
    show Function.update out.nodeIndices (scaleNodeKey s.isDiv) (some s.node) _ = _ ↔ _
    rw [Function.update_apply]
    split
    · next heq => simp [scaleNodeKey_inj.1 heq]
    · next hne =>
      have hkind : s.isDiv ≠ isDiv := fun heq => hne (heq ▸ rfl)
      simp [h, hkind]

theorem valueNames_withScale_of_ne
    (h : ∀ isDiv, key ≠ scaleNameKey isDiv) :
    (withScale out scale).valueNames key = out.valueNames key := by
  cases scale with
  | none => rfl
  | some s => simp [withScale, PatternMatch.commit, PatternMatch.setValueName, h]

theorem valueNames_withScale {isDiv : Bool} {v : String}
    (h : out.valueNames (scaleNameKey isDiv) = none) :
    (withScale out scale).valueNames (scaleNameKey isDiv) = some v ↔
      ∃ s, scale = some s ∧ s.isDiv = isDiv ∧ s.name = v := by
  cases scale with
  | none => simp [withScale, h]
  | some s =>
    show Function.update out.valueNames (scaleNameKey s.isDiv) (some s.name) _ = _ ↔ _
    rw [Function.update_apply]
    split
    · next heq => simp [scaleNameKey_inj.1 heq]
    · next hne =>
      have hkind : s.isDiv ≠ isDiv := fun heq => hne (heq ▸ rfl)
      simp [h, hkind]

theorem valueNames_commitOption : (commitOption out key t).valueNames = out.valueNames := by
  cases t <;> rfl

end

namespace Branches

/-- The transpose in front of an input. -/
def trans (b : Branches) : Input → Option Node
  | .a => b.transA
  | .b => b.transB

variable {b : Branches} {n : Node} {v : String}

theorem captured_matmul :
    (b.captured : PatternMatch F).nodeIndices "FusedMatMul.matmul" = some b.matmul := by
  rw [captured, nodeIndices_withScale_of_ne (by decide), nodeIndices_commitOption_of_ne (by decide),
    nodeIndices_commitOption_of_ne (by decide)]
  simp [PatternMatch.commit]

theorem captured_trans (i : Input) :
    (b.captured : PatternMatch F).nodeIndices i.side.idxKey = b.trans i := by
  cases i with
  | a =>
    show (captured b).nodeIndices "FusedMatMul.trans_a" = b.transA
    rw [captured, nodeIndices_withScale_of_ne (by decide),
      nodeIndices_commitOption_of_ne (by decide), nodeIndices_commitOption_self rfl]
  | b =>
    show (captured b).nodeIndices "FusedMatMul.trans_b" = b.transB
    rw [captured, nodeIndices_withScale_of_ne (by decide), nodeIndices_commitOption_self]
    exact nodeIndices_commitOption_of_ne (by decide)

theorem captured_scale {isDiv : Bool} :
    (b.captured : PatternMatch F).nodeIndices (scaleNodeKey isDiv) = some n ↔
      ∃ s, b.scale = some s ∧ s.isDiv = isDiv ∧ s.node = n := by
  refine nodeIndices_withScale ?_
  rw [nodeIndices_commitOption_of_ne (by cases isDiv <;> decide),
    nodeIndices_commitOption_of_ne (by cases isDiv <;> decide)]
  cases isDiv <;> rfl

theorem captured_activation {key : String} (h : key ∈ activations.map Prod.snd) :
    (b.captured : PatternMatch F).nodeIndices key = none := by
  have hkeys : ∀ k ∈ activations.map Prod.snd,
      k ∉ ["FusedMatMul.scale_mul", "FusedMatMul.scale_div"] ∧ k ≠ "FusedMatMul.trans_b" ∧
        k ≠ "FusedMatMul.trans_a" ∧ k ≠ "FusedMatMul.matmul" := by
    decide
  obtain ⟨hscale, hb, ha, hmatmul⟩ := hkeys key h
  rw [captured, nodeIndices_withScale_of_ne hscale, nodeIndices_commitOption_of_ne hb,
    nodeIndices_commitOption_of_ne ha]
  exact Function.update_of_ne hmatmul _ _

theorem captured_scaleName {isDiv : Bool} :
    (b.captured : PatternMatch F).valueNames (scaleNameKey isDiv) = some v ↔
      ∃ s, b.scale = some s ∧ s.isDiv = isDiv ∧ s.name = v := by
  refine valueNames_withScale ?_
  rw [valueNames_commitOption, valueNames_commitOption]
  rfl

theorem captured_valueNames {key : String} (h : ∀ isDiv, key ≠ scaleNameKey isDiv) :
    (b.captured : PatternMatch F).valueNames key = none := by
  rw [captured, valueNames_withScale_of_ne h, valueNames_commitOption, valueNames_commitOption]
  rfl

theorem captured_scalarValues (key : String) :
    (b.captured : PatternMatch F).scalarValues key = none := by
  obtain ⟨matmul, transA, transB, scale⟩ := b
  cases transA <;> cases transB <;> cases scale <;> rfl

end Branches

/-! ## `CapturePreFusionData` -/

/-- What one turn of the loop does to a match with the transpose `t` on the side: it leaves the
match alone, drops the transpose or records it. `t'` is the transpose that is left. -/
inductive Capture (env : MatchEnv Rat) (matmul : Node) (side : Side) (m : PatternMatch Rat) :
    PatternMatch Rat → Option Node → Prop
  | absent : m.nodeIndices side.idxKey = none → Capture env matmul side m m none
  | drop {n : Node} : m.nodeIndices side.idxKey = some n →
      Capture env matmul side m (dropTranspose m side.idxKey n) none
  | record {n : Node} {info : TransposeInfo} : m.nodeIndices side.idxKey = some n →
      capturedInfo (getAttributeInts n "perm") = some info →
      (info.isTransBatch = true →
        refusesBatch env matmul side (getAttributeInts n "perm") = false) →
      Capture env matmul side m (recordTranspose m side n info) (some n)

/-- The analysis of a `perm` that the pattern has accepted succeeds. -/
theorem analyzed_of_predicate {info : Option TensorInfo} {n : Node}
    (h : transposePermPredicate info n = true) :
    ∃ found, (if (getAttributeInts n "perm").isEmpty then some { isTrans := true }
      else analyzeTransposePerm (getAttributeInts n "perm")) = some found := by
  refine Option.isSome_iff_exists.1 ?_
  unfold transposePermPredicate at h
  dsimp only at h
  split
  · rfl
  · next hne =>
    rw [if_neg hne] at h
    exact h

theorem captureSide_spec (env : MatchEnv Rat) {matmul : Node} (side : Side) {m : PatternMatch Rat}
    (hmatmul : m.nodeIndices "FusedMatMul.matmul" = some matmul)
    (h : ∀ n, m.nodeIndices side.idxKey = some n →
      ∃ info, transposePermPredicate info n = true) :
    ∃ t, Capture env matmul side m (captureSide env m side) t := by
  unfold captureSide
  cases hside : m.nodeIndices side.idxKey with
  | none => exact ⟨none, .absent hside⟩
  | some n =>
    obtain ⟨tensor, hpredicate⟩ := h n hside
    obtain ⟨info, hinfo⟩ := analyzed_of_predicate hpredicate
    dsimp only
    rw [hinfo, hmatmul]
    dsimp only
    split
    · exact ⟨none, .drop hside⟩
    · next hlength =>
      have hcaptured : capturedInfo (getAttributeInts n "perm") = some info := by
        rw [capturedInfo, if_neg hlength, hinfo]
      split
      · split
        · exact ⟨none, .drop hside⟩
        · next hrank => exact ⟨some n, .record hside hcaptured fun _ => by simpa using hrank⟩
      · next hbatch => exact ⟨some n, .record hside hcaptured fun htrue => absurd htrue hbatch⟩

/-- The flags of a transpose that is not dropped. -/
def transposeInfoOf (n : Node) : TransposeInfo :=
  (capturedInfo (getAttributeInts n "perm")).getD {}

/-- The flags that `Compile` reads for a side. -/
def transposeFlags (m : PatternMatch Rat) (side : Side) : TransposeInfo where
  isTrans := m.scalarValue side.transKey 0 != 0
  isTransBatch := m.scalarValue side.batchKey 0 != 0

section

variable (m : PatternMatch Rat) (side : Side) (node : Node) (info : TransposeInfo)

theorem nodeIndices_recordTranspose :
    (recordTranspose m side node info).nodeIndices = m.nodeIndices := by
  unfold recordTranspose
  dsimp only
  split <;> rfl

theorem scalarValues_recordTranspose (key : String) :
    (recordTranspose m side node info).scalarValues key =
      if key = side.batchKey then some (if info.isTransBatch then 1 else 0)
      else if key = side.transKey then some (if info.isTrans then 1 else 0)
      else m.scalarValues key := by
  have hflags : (recordTranspose m side node info).scalarValues =
      Function.update (Function.update m.scalarValues side.transKey
        (some (if info.isTrans then 1 else 0))) side.batchKey
          (some (if info.isTransBatch then 1 else 0)) := by
    unfold recordTranspose
    dsimp only
    split <;> rfl
  rw [hflags, Function.update_apply, Function.update_apply]

theorem valueNames_recordTranspose (key : String) :
    (recordTranspose m side node info).valueNames key =
      if key = side.sourceKey then (getNodeInputNames node).head? <|> m.valueNames key
      else m.valueNames key := by
  unfold recordTranspose
  dsimp only
  split
  · next hnone => simp [hnone, PatternMatch.setScalarValue]
  · next name hsome =>
    show Function.update m.valueNames side.sourceKey (some name) key = _
    rw [Function.update_apply, hsome]
    rfl

end

theorem transposeFlags_congr {m m' : PatternMatch Rat} {side : Side}
    (htrans : m.scalarValues side.transKey = m'.scalarValues side.transKey)
    (hbatch : m.scalarValues side.batchKey = m'.scalarValues side.batchKey) :
    transposeFlags m side = transposeFlags m' side := by
  simp only [transposeFlags, PatternMatch.scalarValue, htrans, hbatch]

namespace Capture

variable {env : MatchEnv Rat} {matmul n : Node} {side : Side} {m m' : PatternMatch Rat}
  {t : Option Node} {key : String}

theorem nodeIndices_self (h : Capture env matmul side m m' t) :
    m'.nodeIndices side.idxKey = t := by
  cases h with
  | absent h => exact h
  | drop h => exact Function.update_self ..
  | record h => rw [nodeIndices_recordTranspose, h]

theorem nodeIndices_of_ne (h : Capture env matmul side m m' t) (hne : key ≠ side.idxKey) :
    m'.nodeIndices key = m.nodeIndices key := by
  cases h with
  | absent h => rfl
  | drop h => exact Function.update_of_ne hne ..
  | record h => rw [nodeIndices_recordTranspose]

theorem scalarValues_of_ne (h : Capture env matmul side m m' t) (htrans : key ≠ side.transKey)
    (hbatch : key ≠ side.batchKey) : m'.scalarValues key = m.scalarValues key := by
  cases h with
  | absent h => rfl
  | drop h => rfl
  | record h => rw [scalarValues_recordTranspose, if_neg hbatch, if_neg htrans]

theorem valueNames_of_ne (h : Capture env matmul side m m' t) (hne : key ≠ side.sourceKey) :
    m'.valueNames key = m.valueNames key := by
  cases h with
  | absent h => rfl
  | drop h => rfl
  | record h => rw [valueNames_recordTranspose, if_neg hne]

/-- A transpose that is left has been analyzed. -/
theorem analyzed (h : Capture env matmul side m m' t) (ht : t = some n) :
    m.nodeIndices side.idxKey = some n ∧
      capturedInfo (getAttributeInts n "perm") = some (transposeInfoOf n) ∧
      ((transposeInfoOf n).isTransBatch = true →
        refusesBatch env matmul side (getAttributeInts n "perm") = false) := by
  cases h with
  | absent h => cases ht
  | drop h => cases ht
  | record h hinfo hbatch =>
    cases ht
    rw [transposeInfoOf, hinfo]
    exact ⟨h, rfl, hbatch⟩

/-- The flags are those of the transpose that is left. -/
theorem flags (h : Capture env matmul side m m' t) (hkeys : side.transKey ≠ side.batchKey)
    (htrans : m.scalarValues side.transKey = none)
    (hbatch : m.scalarValues side.batchKey = none) :
    transposeFlags m' side = (t.map transposeInfoOf).getD {} := by
  cases h with
  | absent h => simp [transposeFlags, PatternMatch.scalarValue, htrans, hbatch]
  | drop h => simp [transposeFlags, PatternMatch.scalarValue, dropTranspose, htrans, hbatch]
  | @record _ info h hinfo =>
    rw [Option.map_some, Option.getD_some, transposeInfoOf, hinfo, Option.getD_some, transposeFlags,
      PatternMatch.scalarValue, PatternMatch.scalarValue, scalarValues_recordTranspose,
      scalarValues_recordTranspose, if_neg hkeys, if_pos rfl, if_pos rfl]
    obtain ⟨isTrans, isTransBatch⟩ := info
    cases isTrans <;> cases isTransBatch <;> rfl

/-- So is the source. -/
theorem source (h : Capture env matmul side m m' t) (hnone : m.valueNames side.sourceKey = none) :
    m'.valueNames side.sourceKey = t.bind fun n => (getNodeInputNames n).head? := by
  cases h with
  | absent h => exact hnone
  | drop h => exact hnone
  | record h =>
    rw [valueNames_recordTranspose, if_pos rfl, hnone]
    simp

/-- A transpose that is dropped is taken out of the nodes. -/
theorem mem_allNodes (h : Capture env matmul side m m' t) (hnodup : m.allNodes.Nodup) :
    n ∈ m'.allNodes ↔ n ∈ m.allNodes ∧ (m.nodeIndices side.idxKey = some n → t = some n) := by
  cases h with
  | absent h => simp [h]
  | @drop dropped h =>
    show n ∈ m.allNodes.erase dropped ↔ _
    rw [hnodup.mem_erase_iff, h]
    simp [and_comm, eq_comm]
  | record h => simp [allNodes_recordTranspose, h]

theorem nodup (h : Capture env matmul side m m' t) (hnodup : m.allNodes.Nodup) :
    m'.allNodes.Nodup := by
  cases h with
  | absent h => exact hnodup
  | drop h => exact hnodup.erase _
  | record h => rwa [allNodes_recordTranspose]

end Capture

/-! ## What a match has in front of the exclusion pass -/

/-- The captures of a match `m` with the branches `b`: the transposes that are left, the scale, and
the activations `acts`. -/
structure Found (env : MatchEnv Rat) (gc : GraphConnectivity) (b : Branches)
    (trans : Input → Option Node) (acts : List (String × Node)) (m : PatternMatch Rat) : Prop where
  taken : b.Taken env gc
  matmul : m.nodeIndices "FusedMatMul.matmul" = some b.matmul
  trans_taken : ∀ i n, trans i = some n → b.trans i = some n
  trans_info : ∀ i n, trans i = some n →
    capturedInfo (getAttributeInts n "perm") = some (transposeInfoOf n)
  trans_rank : ∀ i n, trans i = some n → (transposeInfoOf n).isTransBatch = true →
    refusesBatch env b.matmul i.side (getAttributeInts n "perm") = false
  trans_node : ∀ i, m.nodeIndices i.side.idxKey = trans i
  flags : ∀ i, transposeFlags m i.side = ((trans i).map transposeInfoOf).getD {}
  source : ∀ i, m.valueNames i.side.sourceKey = (trans i).bind fun n => (getNodeInputNames n).head?
  scale_node : ∀ isDiv n, m.nodeIndices (scaleNodeKey isDiv) = some n ↔
    ∃ s, b.scale = some s ∧ s.isDiv = isDiv ∧ s.node = n
  scale_name : ∀ isDiv v, m.valueNames (scaleNameKey isDiv) = some v ↔
    ∃ s, b.scale = some s ∧ s.isDiv = isDiv ∧ s.name = v
  activation : ∀ key ∈ activations.map Prod.snd, ∀ n,
    m.nodeIndices key = some n ↔ (key, n) ∈ acts
  mem : ∀ n, n ∈ m.allNodes ↔ n = b.matmul ∨ (∃ i, trans i = some n) ∨
    (∃ s, b.scale = some s ∧ s.node = n) ∨ n ∈ acts.map Prod.snd

/-- What the descent has committed, in front of `CapturePreFusionData`. -/
structure Committed (gc : GraphConnectivity) (b : Branches) (acts : List (String × Node))
    (m : PatternMatch Rat) : Prop where
  matmul : m.nodeIndices "FusedMatMul.matmul" = some b.matmul
  trans : ∀ i : Input, m.nodeIndices i.side.idxKey = b.trans i
  scale_node : ∀ isDiv n, m.nodeIndices (scaleNodeKey isDiv) = some n ↔
    ∃ s, b.scale = some s ∧ s.isDiv = isDiv ∧ s.node = n
  scale_name : ∀ isDiv v, m.valueNames (scaleNameKey isDiv) = some v ↔
    ∃ s, b.scale = some s ∧ s.isDiv = isDiv ∧ s.name = v
  activation : ∀ key ∈ activations.map Prod.snd, ∀ n,
    m.nodeIndices key = some n ↔ (key, n) ∈ acts
  scalars : ∀ key, m.scalarValues key = none
  values : ∀ key, (∀ isDiv, key ≠ scaleNameKey isDiv) → m.valueNames key = none
  nodes : m.allNodes = b.nodes ++ acts.map Prod.snd

theorem committed (gc : GraphConnectivity) (already : List Node) (b : Branches) :
    Committed gc b (takenActivations gc already b.last activations)
      (commitAll b.captured (takenActivations gc already b.last activations)) := by
  have hkeys := keys_takenActivations gc already b.last activations
  have hnodup : ((takenActivations gc already b.last activations).map Prod.fst).Nodup :=
    (by decide : (activations.map Prod.snd).Nodup).sublist hkeys
  have hframe : ∀ key, key ∉ activations.map Prod.snd →
      (commitAll b.captured (takenActivations gc already b.last activations) :
        PatternMatch Rat).nodeIndices key = (b.captured : PatternMatch Rat).nodeIndices key := by
    intro key hkey
    have hnot : key ∉ (takenActivations gc already b.last activations).map Prod.fst :=
      fun hmem => hkey (hkeys.subset hmem)
    refine Option.ext fun n => ?_
    rw [nodeIndices_commitAll hnodup]
    have hpair : (key, n) ∉ takenActivations gc already b.last activations :=
      fun hmem => hnot (List.mem_map.2 ⟨_, hmem, rfl⟩)
    simp [hnot, hpair]
  refine ⟨?_, fun i => ?_, fun isDiv n => ?_, fun isDiv v => ?_, fun key hkey n => ?_,
    fun key => ?_, fun key hkey => ?_, ?_⟩
  · rw [hframe _ (by decide), Branches.captured_matmul]
  · rw [hframe _ (by cases i <;> decide), Branches.captured_trans]
  · rw [hframe _ (by cases isDiv <;> decide), Branches.captured_scale]
  · rw [valueNames_commitAll, Branches.captured_scaleName]
  · rw [nodeIndices_commitAll hnodup, Branches.captured_activation hkey]
    simp
  · rw [scalarValues_commitAll, Branches.captured_scalarValues]
  · rw [valueNames_commitAll, Branches.captured_valueNames hkey]
  · rw [allNodes_commitAll, Branches.allNodes_captured]

/-- The place of an input among those of the `MatMul`. -/
def Input.index : Input → Nat
  | .a => 0
  | .b => 1

theorem Input.exists {P : Input → Prop} : (∃ i, P i) ↔ P .a ∨ P .b := by
  constructor
  · rintro ⟨_ | _, h⟩
    · exact Or.inl h
    · exact Or.inr h
  · rintro (h | h)
    · exact ⟨.a, h⟩
    · exact ⟨.b, h⟩

theorem Branches.Taken.trans {F : Type} {env : MatchEnv F} {gc : GraphConnectivity} {b : Branches}
    {n : Node} (h : b.Taken env gc) (i : Input) (hn : b.trans i = some n) :
    TransposeTaken env gc b.matmul i.index n := by
  cases i with
  | a => exact h.transA n hn
  | b => exact h.transB n hn

/-- Which nodes are left when one transpose or the other is taken out. -/
theorem Branches.mem_left {b : Branches} {acts : List Node} {ta tb : Option Node} {n : Node}
    (hnodup : (b.nodes ++ acts).Nodup) (hta : ∀ c, ta = some c → b.transA = some c)
    (htb : ∀ c, tb = some c → b.transB = some c) :
    ((n ∈ b.nodes ++ acts ∧ (b.transA = some n → ta = some n)) ∧
        (b.transB = some n → tb = some n)) ↔
      n = b.matmul ∨ (ta = some n ∨ tb = some n) ∨ (∃ s, b.scale = some s ∧ s.node = n) ∨
        n ∈ acts := by
  obtain ⟨matmul, transA, transB, scale⟩ := b
  simp only [nodes, List.cons_append, List.append_assoc, List.nodup_cons, List.nodup_append,
    List.mem_cons, List.mem_append, Option.mem_toList, Option.map_eq_some_iff, not_or,
    not_exists, not_and] at hnodup ⊢
  obtain ⟨⟨hmA, hmB, -, -⟩, -, ⟨-, -, hB⟩, hA⟩ := hnodup
  constructor
  · rintro ⟨⟨rfl | h | h | h, hleftA⟩, hleftB⟩
    · exact Or.inl rfl
    · exact Or.inr (Or.inl (Or.inl (hleftA h)))
    · exact Or.inr (Or.inl (Or.inr (hleftB h)))
    · exact Or.inr (Or.inr h)
  · rintro (rfl | (h | h) | h)
    · exact ⟨⟨Or.inl rfl, fun h => absurd h hmA⟩, fun h => absurd h hmB⟩
    · refine ⟨⟨Or.inr (Or.inl (hta n h)), fun _ => h⟩, fun h' => ?_⟩
      exact absurd rfl (hA n (hta n h) n (Or.inl h'))
    · refine ⟨⟨Or.inr (Or.inr (Or.inl (htb n h))), fun h' => ?_⟩, fun _ => h⟩
      exact absurd rfl (hA n h' n (Or.inl (htb n h)))
    · refine ⟨⟨Or.inr (Or.inr (Or.inr h)), fun h' => ?_⟩, fun h' => ?_⟩
      · exact absurd rfl (hA n h' n (Or.inr h))
      · exact absurd rfl (hB n h' n h)

/-- The loop runs over the two sides, whose captures do not meet. -/
theorem found_of_committed {env : MatchEnv Rat} {gc : GraphConnectivity} {b : Branches}
    {acts : List (String × Node)} {m : PatternMatch Rat} (hb : b.Taken env gc)
    (hm : Committed gc b acts m) (hnodup : m.allNodes.Nodup) :
    ∃ trans, Found env gc b trans acts (capturePreFusionData env m) := by
  have hpredicate : ∀ i n, b.trans i = some n → ∃ info, transposePermPredicate info n = true := by
    intro i n hn
    obtain ⟨name, -, hname⟩ := (hb.trans i hn).predicate
    exact ⟨_, hname⟩
  have htransA : m.nodeIndices sideA.idxKey = b.transA := hm.trans .a
  obtain ⟨ta, hta⟩ := captureSide_spec env sideA hm.matmul fun n hn =>
    hpredicate .a n (htransA.symm.trans hn)
  have htransB : (captureSide env m sideA).nodeIndices sideB.idxKey = b.transB :=
    (hta.nodeIndices_of_ne (by decide)).trans (hm.trans .b)
  obtain ⟨tb, htb⟩ := captureSide_spec env sideB
    ((hta.nodeIndices_of_ne (by decide)).trans hm.matmul) fun n hn =>
      hpredicate .b n (htransB.symm.trans hn)
  have hnodes : ∀ key, key ≠ sideA.idxKey → key ≠ sideB.idxKey →
      (capturePreFusionData env m).nodeIndices key = m.nodeIndices key := by
    intro key hA hB
    exact (htb.nodeIndices_of_ne hB).trans (hta.nodeIndices_of_ne hA)
  have hvalues : ∀ key, key ≠ sideA.sourceKey → key ≠ sideB.sourceKey →
      (capturePreFusionData env m).valueNames key = m.valueNames key := by
    intro key hA hB
    exact (htb.valueNames_of_ne hB).trans (hta.valueNames_of_ne hA)
  refine ⟨fun | .a => ta | .b => tb, ?_⟩
  exact {
    taken := hb
    matmul := (hnodes _ (by decide) (by decide)).trans hm.matmul
    trans_taken := by
      rintro (_ | _) n hn
      · exact htransA.symm.trans (hta.analyzed hn).1
      · exact htransB.symm.trans (htb.analyzed hn).1
    trans_info := by
      rintro (_ | _) n hn
      · exact (hta.analyzed hn).2.1
      · exact (htb.analyzed hn).2.1
    trans_rank := by
      rintro (_ | _) n hn
      · exact (hta.analyzed hn).2.2
      · exact (htb.analyzed hn).2.2
    trans_node := by
      rintro (_ | _)
      · exact (htb.nodeIndices_of_ne (by decide)).trans hta.nodeIndices_self
      · exact htb.nodeIndices_self
    flags := by
      rintro (_ | _)
      · rw [← hta.flags (by decide) (hm.scalars _) (hm.scalars _)]
        exact transposeFlags_congr (htb.scalarValues_of_ne (by decide) (by decide))
          (htb.scalarValues_of_ne (by decide) (by decide))
      · refine htb.flags (by decide) ?_ ?_
        · exact (hta.scalarValues_of_ne (by decide) (by decide)).trans (hm.scalars _)
        · exact (hta.scalarValues_of_ne (by decide) (by decide)).trans (hm.scalars _)
    source := by
      rintro (_ | _)
      · exact (htb.valueNames_of_ne (by decide)).trans
          (hta.source (hm.values _ fun isDiv => by cases isDiv <;> decide))
      · exact htb.source ((hta.valueNames_of_ne (by decide)).trans
          (hm.values _ fun isDiv => by cases isDiv <;> decide))
    scale_node := by
      intro isDiv n
      rw [hnodes _ (by cases isDiv <;> decide) (by cases isDiv <;> decide), hm.scale_node]
    scale_name := by
      intro isDiv v
      rw [hvalues _ (by cases isDiv <;> decide) (by cases isDiv <;> decide), hm.scale_name]
    activation := by
      have hkeys : ∀ key ∈ activations.map Prod.snd, key ≠ sideA.idxKey ∧ key ≠ sideB.idxKey := by
        decide
      intro key hkey n
      rw [hnodes key (hkeys key hkey).1 (hkeys key hkey).2, hm.activation key hkey]
    mem := by
      intro n
      rw [capturePreFusionData, List.foldl_cons, List.foldl_cons, List.foldl_nil,
        htb.mem_allNodes (hta.nodup hnodup), hta.mem_allNodes hnodup, htransB, htransA, hm.nodes]
      rw [hm.nodes] at hnodup
      rw [Branches.mem_left hnodup (fun c hc => htransA.symm.trans (hta.analyzed hc).1)
        fun c hc => htransB.symm.trans (htb.analyzed hc).1]
      simp only [Input.exists] }

theorem found_spec {env : MatchEnv Rat} {g : Graph} {already : List Node} {matmul : Node}
    {m : PatternMatch Rat} (hmatmul : matmul ∈ g.nodes)
    (h : matchPattern env (buildGraphConnectivity g) already matmul buildPattern = some m) :
    ∃ b : Branches, b.matmul = matmul ∧ ∃ trans, Found env (buildGraphConnectivity g) b trans
      (takenActivations (buildGraphConnectivity g) already b.last activations)
      (capturePreFusionData env m) := by
  obtain ⟨hnodup, -, -⟩ := matchPattern_spec hmatmul h
  obtain ⟨b, rfl, hb, rfl⟩ := matchPattern_eq h
  exact ⟨b, rfl, found_of_committed hb (committed _ already b) hnodup⟩

end AmdGpuEp.DirectML.FusedMatMul
