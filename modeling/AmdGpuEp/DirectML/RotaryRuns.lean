import AmdGpuEp.DirectML.RotaryLayout

/-!
# The runs of the chain of a `RotaryEmbedding`

The sub-nodes are followed from the input to the output, for local variables that are
what the shapes say. The stride of the batches in the gathered rows may still have
wrapped: then a pair is multiplied with the elements of the caches that were gathered
to another place.

Results:
1. `copied`, `swapped`, `gathered_row`, `signs`: what the sub-nodes leave.
2. `rotated`, `chain_output`: what the addition leaves, and where the output is from.
3. `exists_run`: there is a run.
-/

namespace AmdGpuEp.DirectML

namespace RotaryLemmas

/-! ## The input -/

section

variable {r : RotaryNode} {d : RotaryData} {v : Nat → Nat → Nat → ℝ} {b t h k q e : Nat}

/-- The elements that are rotated stand in front of the others. -/
theorem split_input (hpartly : (exactStorage r).partialRotary = true)
    (hrun : IsRun (exactStorage r).subNodes d.read v)
    (hidx : b < r.batch ∧ t < r.seq ∧ h < r.heads) :
    (e < r.rotary → v 0 0 (rowMajor (ioSizes r r.rotary) (ioIndex r b t h e)) =
      d.x (r.place b t h e)) ∧
    (e < r.headSize - r.rotary →
      v 0 1 (rowMajor (ioSizes r (r.headSize - r.rotary)) (ioIndex r b t h e)) =
        d.x (r.place b t h (r.rotary + e))) := by
  have hsplit := hrun 0 _ ((exactStorage r).getElem?_splitInput hpartly)
  have hop : (exactStorage r).splitInput.opDesc.op = .split 3 := rfl
  have hread : ∀ e', (exactStorage r).splitInput.opDesc.read
      ((exactStorage r).splitInput.delivered d.read v) 0 (ioIndex r b t h e') =
        d.x (r.place b t h e') := fun e' => by
    rw [DmlOperatorDesc.read_eq (exactStorage r).fullInOut rfl, fullInOut_offset]
    rfl
  constructor
  · intro he
    have hfirst := hsplit 0 _ rfl (ioIndex r b t h e) (by
      rw [splitIn1_eq, sizes_io]
      exact (inBounds_ioIndex r).2 ⟨hidx.1, hidx.2.1, hidx.2.2, he⟩)
    rw [splitIn1_eq, io_offset, DmlOperatorDesc.value_split hop, ioIndex_set, ioIndex_getD, hread]
      at hfirst
    rw [hfirst]
    exact congrArg (fun e' => d.x (r.place b t h e')) (Nat.zero_add e)
  · intro he
    have hsecond := hsplit 1 _ rfl (ioIndex r b t h e) (by
      rw [splitIn2_eq, sizes_io]
      exact (inBounds_ioIndex r).2 ⟨hidx.1, hidx.2.1, hidx.2.2, he⟩)
    rw [splitIn2_eq, io_offset, DmlOperatorDesc.value_split hop, ioIndex_set, ioIndex_getD, hread]
      at hsecond
    have hbefore : (DmlOperatorDesc.sizesAlong 3
        ((exactStorage r).splitInput.opDesc.outputs.take 1)).sum = r.rotary := by
      show (exactStorage r).splitIn1.sizes.getD 3 0 + 0 = _
      rw [splitIn1_eq, sizes_io, ioSizes_getD]
      rfl
    rw [hsecond, hbefore]

/-- The copy has the heads of a token one after the other. -/
theorem copied (hfits : LayoutFits r) (hrun : IsRun (exactStorage r).subNodes d.read v)
    (hidx : b < r.batch ∧ t < r.seq ∧ h < r.heads ∧ e < r.rotary) :
    v (exactStorage r).copyInputIdx 0 (copyPlace r b t h e) = d.x (r.place b t h e) := by
  have hcopy := hrun _ _ (exactStorage r).getElem?_copyInput 0 _ rfl [b, t, h, e]
    (inBounds_four.2 hidx)
  have hplace : (exactStorage r).partialInPacked.offset [b, t, h, e] = copyPlace r b t h e := rfl
  rw [hplace, DmlOperatorDesc.value_copy rfl,
    DmlOperatorDesc.read_eq (exactStorage r).partialStrided rfl,
    partialStrided_offset hfits hidx] at hcopy
  rw [hcopy]
  cases hpartly : (exactStorage r).partialRotary
  · have hsize : r.headSize = r.rotary := by simpa [partialRotary_eq] using hpartly
    rw [delivered_of_input (0, 0) (by simp [RotaryStorage.copyInput, hpartly]),
      place_eq, hsize]
    rfl
  · rw [delivered_of_output (k := 0) (o := 0) (by simp [RotaryStorage.copyInput, hpartly])
      (by simp [RotaryStorage.copyInput, hpartly])]
    exact (split_input hpartly hrun ⟨hidx.1, hidx.2.1, hidx.2.2.1⟩).1 hidx.2.2.2

theorem getElem?_twice (info : DmlTensorInfo) (hq : q < 2) : [info, info][q]? = some info :=
  two_cases (p := fun q => [info, info][q]? = some info) rfl rfl hq

theorem halves (hfits : LayoutFits r) (hrun : IsRun (exactStorage r).subNodes d.read v)
    (hidx : b < r.batch ∧ t < r.seq ∧ h < r.heads ∧ k < r.half) (hq : q < 2) :
    v (exactStorage r).splitHalfIdx q
        ((exactStorage r).splitHalfOut.offset (pairIndex r b t h k 0)) =
      d.x (r.place b t h (r.element k q)) := by
  obtain ⟨hb, ht, hh, hk⟩ := hidx
  have hsplit := hrun _ _ (exactStorage r).getElem?_splitHalf q (exactStorage r).splitHalfOut
    (getElem?_twice _ hq) (pairIndex r b t h k 0)
    (by
      rw [splitHalfOut_sizes]
      exact inBounds_pairIndex.2 ⟨hb, ht, hh, hk, Nat.one_pos⟩)
  have hbefore : (DmlOperatorDesc.sizesAlong (exactStorage r).splitAxis
      ((exactStorage r).splitHalf.opDesc.outputs.take q)).sum = q := by
    have hone : (exactStorage r).splitHalfOut.sizes.getD (exactStorage r).splitAxis 0 = 1 := by
      rw [splitHalfOut_sizes, pairSizes_getD]
    refine two_cases (p := fun q => (DmlOperatorDesc.sizesAlong (exactStorage r).splitAxis
      ((exactStorage r).splitHalf.opDesc.outputs.take q)).sum = q) rfl ?_ hq
    show (exactStorage r).splitHalfOut.sizes.getD (exactStorage r).splitAxis 0 + 0 = 1
    rw [hone]
  have hat : (pairIndex r b t h k 0).getD (exactStorage r).splitAxis 0 = 0 :=
    pairSizes_getD _ _ _ _ _
  rw [DmlOperatorDesc.value_split rfl, DmlOperatorDesc.read_eq (exactStorage r).data5d rfl, hbefore,
    hat, pairIndex_set, data5d_offset, delivered_of_output (k := (exactStorage r).copyInputIdx)
      (o := 0) rfl rfl] at hsplit
  rw [hsplit]
  exact copied hfits hrun ⟨hb, ht, hh, element_lt hk hq⟩

/-- The elements of every pair are swapped. -/
theorem swapped (hfits : LayoutFits r) (hrun : IsRun (exactStorage r).subNodes d.read v)
    (hidx : b < r.batch ∧ t < r.seq ∧ h < r.heads ∧ k < r.half) (hq : q < 2) :
    v ((exactStorage r).gatherCosIdx + 3) 0 (copyPlace r b t h (r.element k q)) =
      d.x (r.place b t h (r.element k (1 - q))) := by
  obtain ⟨hb, ht, hh, hk⟩ := hidx
  have hjoin := hrun _ _ (((exactStorage r).getElem?_behind 3).trans rfl) 0 (exactStorage r).data5d
    rfl (pairIndex r b t h k q)
    (by
      rw [data5d_sizes]
      exact inBounds_pairIndex.2 ⟨hb, ht, hh, hk, hq⟩)
  have hsizes : DmlOperatorDesc.sizesAlong (exactStorage r).splitAxis
      (exactStorage r).joinSwap.opDesc.inputs = [1, 1] := by
    show [(exactStorage r).splitHalfOut.sizes.getD (exactStorage r).splitAxis 0,
      (exactStorage r).splitHalfOut.sizes.getD (exactStorage r).splitAxis 0] = _
    rw [splitHalfOut_sizes, pairSizes_getD]
  have hat : (pairIndex r b t h k q).getD (exactStorage r).splitAxis 0 = q :=
    pairSizes_getD _ _ _ _ _
  have hpart : locatePart [1, 1] q = (q, 0) :=
    two_cases (p := fun q => locatePart [1, 1] q = (q, 0)) rfl rfl hq
  have hinput : (exactStorage r).joinSwap.opDesc.inputs[q]? = some (exactStorage r).splitHalfOut :=
    getElem?_twice _ hq
  have hdelivered : (exactStorage r).joinSwap.delivered d.read v q =
      v (exactStorage r).splitHalfIdx (1 - q) :=
    two_cases (p := fun q => (exactStorage r).joinSwap.delivered d.read v q =
      v (exactStorage r).splitHalfIdx (1 - q))
      (delivered_of_output (k := (exactStorage r).splitHalfIdx) (o := 1) rfl rfl)
      (delivered_of_output (k := (exactStorage r).splitHalfIdx) (o := 0) rfl rfl) hq
  rw [DmlOperatorDesc.value_join rfl, hat, hsizes, hpart,
    DmlOperatorDesc.read_eq (exactStorage r).splitHalfOut hinput, pairIndex_set, data5d_offset,
    hdelivered] at hjoin
  rw [hjoin]
  exact halves hfits hrun ⟨hb, ht, hh, hk⟩ (by omega)

end

/-! ## The rows of the caches -/

section

variable {r : RotaryNode} {d : RotaryData} {v : Nat → Nat → Nat → ℝ} {b t h k q e : Nat}

/-- `PosAddOffset` leaves the positions of the tokens. -/
theorem positions_added (hoffset : r.offset = true)
    (hrun : IsRun (exactStorage r).subNodes d.read v) (hidx : b < r.batch ∧ t < r.seq) :
    v (exactStorage r).posAddOffsetIdx 0 (r.seq * b + t) = r.position d b t := by
  have hrange := hrun _ _ ((exactStorage r).getElem?_posRange hoffset) 0 _ rfl [0, 0, 0, t]
    (inBounds_four.2 ⟨Nat.one_pos, Nat.one_pos, Nat.one_pos, hidx.2⟩)
  have hadd := hrun _ _ ((exactStorage r).getElem?_posAddOffset hoffset) 0 _ rfl [0, 0, b, t]
    (inBounds_four.2 ⟨Nat.one_pos, Nat.one_pos, hidx.1, hidx.2⟩)
  have htoken : (exactStorage r).posOffset.offset [0, 0, b, t] = r.seq * b + t :=
    (packed_offset _ _ _ _ _ _).trans token_place
  have hplace : rowMajor [1, 1, 1, r.seq] [0, 0, 0, t] = t := by simp [rowMajor]
  have hsequence : (makeTensorInfo [1, 1, 1, r.seq] (exactStorage r).posDtype).offset [0, 0, 0, t] =
      t := (packed_offset _ _ _ _ _ _).trans hplace
  have hinput : (exactStorage r).posAddOffset.delivered d.read v 1 = d.read 1 :=
    delivered_of_input (1, 1) rfl
  have hfrom : (exactStorage r).posAddOffset.delivered d.read v 0 =
      v (exactStorage r).posRangeIdx 0 := delivered_of_output rfl rfl
  rw [htoken, DmlOperatorDesc.value_add rfl,
    DmlOperatorDesc.read_eq (exactStorage r).posRangeBroadcast rfl,
    DmlOperatorDesc.read_eq (exactStorage r).posBroadcast rfl, posRange_offset hidx,
    posBroadcast_offset hoffset hidx, hinput, hfrom] at hadd
  have hop : (exactStorage r).posRange.opDesc.op = .fillValueSequence .int64 0 1 := rfl
  have hrange' : v (exactStorage r).posRangeIdx 0 t = t := by
    refine (congrArg _ hsequence.symm).trans (hrange.trans ?_)
    rw [DmlOperatorDesc.value_fill hop]
    show ((0 : ℚ) : ℝ) + ((1 : ℚ) : ℝ) * (rowMajor [1, 1, 1, r.seq] [0, 0, 0, t] : ℕ) = t
    rw [hplace]
    simp
  rw [hadd, hrange']
  have hposition : r.position d b t = d.positions 0 + t := by
    rw [RotaryNode.position, if_pos hoffset]
  rw [hposition, Nat.cast_add, add_comm]
  rfl

/-- The gathered row of a cache. -/
theorem gathered_row {cacheInfo : DmlTensorInfo} {i j : Nat}
    (hsizes : cacheInfo.sizes = padToMinDims [r.rows, r.half] 4)
    (hget : (exactStorage r).subNodes[j]? = some ((exactStorage r).gatherCache cacheInfo i))
    (hrun : IsRun (exactStorage r).subNodes d.read v)
    (hidx : b < r.batch ∧ t < r.seq ∧ k < r.half) :
    v j 0 (rowMajor [1, r.batch, r.seq, r.half] [0, b, t, k]) =
      d.read i (r.position d b t * r.half + k) := by
  have hgather := hrun _ _ hget 0 _ rfl [0, b, t, k]
    (inBounds_four.2 ⟨Nat.one_pos, hidx.1, hidx.2.1, hidx.2.2⟩)
  have hplace : (exactStorage r).gatheredCosSin.offset [0, b, t, k] =
      rowMajor [1, r.batch, r.seq, r.half] [0, b, t, k] := packed_offset _ _ _ _ _ _
  have hcache : makeTensorInfo cacheInfo.sizes r.x.dataType =
      makeTensorInfo [1, 1, r.rows, r.half] r.x.dataType := by
    rw [hsizes]
    rfl
  have htensor : ((exactStorage r).gatherCache cacheInfo i).opDesc.inputs[1]? =
      some (makeTensorInfo [1, 1, r.batch, r.seq] r.pos.dataType) := by
    show some (if r.offset then makeTensorInfo [1, 1, r.batch, r.seq] r.pos.dataType
      else makeTensorInfo r.pos.sizes r.pos.dataType) = _
    rw [r.sizesPos]
    cases r.offset <;> rfl
  have hinput : ((exactStorage r).gatherCache cacheInfo i).delivered d.read v 0 = d.read i := by
    refine delivered_of_input (i, 0) ?_
    unfold RotaryStorage.gatherCache
    split <;> rfl
  have hread : ∀ idx, ((exactStorage r).gatherCache cacheInfo i).opDesc.read
      (((exactStorage r).gatherCache cacheInfo i).delivered d.read v) 0 idx =
        d.read i (rowMajor [1, 1, r.rows, r.half] idx) := by
    intro idx
    rw [DmlOperatorDesc.read_eq (makeTensorInfo cacheInfo.sizes r.x.dataType) rfl, hcache,
      packed_offset, hinput]
  have hindices : ((exactStorage r).gatherCache cacheInfo i).opDesc.read
      (((exactStorage r).gatherCache cacheInfo i).delivered d.read v) 1 [0, 0, b, t] =
        r.position d b t := by
    rw [DmlOperatorDesc.read_eq _ htensor, packed_offset, token_place]
    cases hoffset : r.offset
    · have hslot : ((exactStorage r).gatherCache cacheInfo i).delivered d.read v 1 = d.read 1 := by
        refine delivered_of_input (1, 1) ?_
        unfold RotaryStorage.gatherCache
        rw [show (exactStorage r).positionIdsIsOffset = false from hoffset]
        rfl
      rw [hslot, RotaryNode.position, hoffset, Nat.mul_comm]
      rfl
    · have hslot : ((exactStorage r).gatherCache cacheInfo i).delivered d.read v 1 =
          v (exactStorage r).posAddOffsetIdx 0 := by
        refine delivered_of_output ?_ ?_ <;>
        · unfold RotaryStorage.gatherCache
          rw [show (exactStorage r).positionIdsIsOffset = true from hoffset]
          rfl
      rw [hslot]
      exact positions_added hoffset hrun ⟨hidx.1, hidx.2.1⟩
  rw [hplace, DmlOperatorDesc.value_gather rfl] at hgather
  rw [hgather]
  unfold DmlOperatorDesc.gathered
  have hlen0 :
      (((exactStorage r).gatherCache cacheInfo i).opDesc.inputs.getD 0 {}).sizes.length = 4 := by
    show (makeTensorInfo cacheInfo.sizes r.x.dataType).sizes.length = 4
    rw [hcache]
    rfl
  have hlen1 :
      (((exactStorage r).gatherCache cacheInfo i).opDesc.inputs.getD 1 {}).sizes.length = 4 := by
    rw [List.getD_eq_getElem?_getD, htensor]
    rfl
  rw [hlen0, hlen1]
  show DmlOperatorDesc.read _ _ 0 ([0, 0] ++ ⌊DmlOperatorDesc.read _ _ 1 [0, 0, b, t]⌋₊ :: [k]) = _
  rw [hindices, hread, Nat.floor_natCast]
  simp [rowMajor, Nat.mul_comm]

/-- The element of a cache that was gathered to a place. -/
def cacheAt (r : RotaryNode) (d : RotaryData) (p : Nat) : Nat :=
  r.position d (p / r.half / r.seq) (p / r.half % r.seq) * r.half + p % r.half

/-- The place in the gathered rows that a token and a pair are read at. -/
def rowPlace (r : RotaryNode) (b t k : Nat) : Nat :=
  r.seq * r.half % 2 ^ 32 * b + r.half * t + k

theorem rowPlace_lt (hidx : b < r.batch ∧ t < r.seq ∧ k < r.half) :
    rowPlace r b t k < r.batch * r.seq * r.half := by
  have hstride : r.seq * r.half % 2 ^ 32 * b ≤ r.seq * r.half * b :=
    Nat.mul_le_mul_right b (Nat.mod_le _ _)
  calc rowPlace r b t k
    _ < r.seq * r.half * b + r.half * (t + 1) := by
      rw [rowPlace, Nat.mul_succ]
      omega
    _ ≤ r.seq * r.half * b + r.half * r.seq :=
      Nat.add_le_add_left (Nat.mul_le_mul_left _ hidx.2.1) _
    _ = r.seq * r.half * (b + 1) := by ring
    _ ≤ r.seq * r.half * r.batch := Nat.mul_le_mul_left _ hidx.1
    _ = r.batch * r.seq * r.half := by ring

theorem batch_of_place {p : Nat} (hp : p < r.batch * r.seq * r.half) :
    p / r.half / r.seq < r.batch := by
  rw [Nat.div_div_eq_div_mul]
  refine Nat.div_lt_of_lt_mul ?_
  calc p
    _ < r.batch * r.seq * r.half := hp
    _ = r.half * r.seq * r.batch := by ring

theorem gathered_place {cacheInfo : DmlTensorInfo} {i j p : Nat}
    (hsizes : cacheInfo.sizes = padToMinDims [r.rows, r.half] 4)
    (hget : (exactStorage r).subNodes[j]? = some ((exactStorage r).gatherCache cacheInfo i))
    (hrun : IsRun (exactStorage r).subNodes d.read v) (hp : p < r.batch * r.seq * r.half) :
    v j 0 p = d.read i (cacheAt r d p) := by
  have hseq := r.positive.2.1
  have hhalf := half_pos r
  have hplace : rowMajor [1, r.batch, r.seq, r.half]
      [0, p / r.half / r.seq, p / r.half % r.seq, p % r.half] = p := by
    calc rowMajor [1, r.batch, r.seq, r.half]
          [0, p / r.half / r.seq, p / r.half % r.seq, p % r.half]
      _ = r.half * (r.seq * (p / r.half / r.seq) + p / r.half % r.seq) + p % r.half := by
        simp only [rowMajor, List.prod_cons, List.prod_nil]
        ring
      _ = p := by rw [Nat.div_add_mod, Nat.div_add_mod]
  have hrow := gathered_row hsizes hget hrun
    ⟨batch_of_place hp, Nat.mod_lt (p / r.half) hseq, Nat.mod_lt p hhalf⟩
  rw [hplace] at hrow
  exact hrow

end

/-! ## The products -/

section

variable {r : RotaryNode} {d : RotaryData} {v : Nat → Nat → Nat → ℝ} {b t h k q e : Nat}

theorem multiplied {second : DmlTensorInfo} {j first other : Nat}
    (hget : (exactStorage r).subNodes[j]? = some ((exactStorage r).mul second first other))
    (hrun : IsRun (exactStorage r).subNodes d.read v)
    (hidx : b < r.batch ∧ t < r.seq ∧ h < r.heads ∧ k < r.half ∧ q < 2) :
    v j 0 (copyPlace r b t h (r.element k q)) =
      v first 0 (copyPlace r b t h (r.element k q)) *
        v other 0 (second.offset (pairIndex r b t h k q)) := by
  have hmul := hrun _ _ hget 0 (exactStorage r).data5d rfl (pairIndex r b t h k q) (by
    rw [data5d_sizes]
    exact inBounds_pairIndex.2 hidx)
  have hfirst : ((exactStorage r).mul second first other).delivered d.read v 0 = v first 0 :=
    delivered_of_output rfl rfl
  have hother : ((exactStorage r).mul second first other).delivered d.read v 1 = v other 0 :=
    delivered_of_output rfl rfl
  rw [DmlOperatorDesc.value_multiply rfl, DmlOperatorDesc.read_eq (exactStorage r).data5d rfl,
    DmlOperatorDesc.read_eq second rfl, data5d_offset, hfirst, hother] at hmul
  exact hmul

/-- `SignRange` leaves -1 and 1. -/
theorem signs (hrun : IsRun (exactStorage r).subNodes d.read v) (hq : q < 2) :
    v ((exactStorage r).gatherCosIdx + 2) 0 q = -1 + 2 * q := by
  have hfill := hrun _ _ (((exactStorage r).getElem?_behind 2).trans rfl) 0 _ rfl [0, 0, 0, q]
    (inBounds_four.2 ⟨Nat.one_pos, Nat.one_pos, Nat.one_pos, hq⟩)
  have hop : (exactStorage r).signRange.opDesc.op = .fillValueSequence
      (if (exactStorage r).dataDtype = .float16 then .float16 else .float32) (-1) 2 := rfl
  have hplace : rowMajor [1, 1, 1, 2] [0, 0, 0, q] = q := by simp [rowMajor]
  have hoffset : (exactStorage r).sign.offset [0, 0, 0, q] = q :=
    (packed_offset 1 1 1 2 _ _).trans hplace
  rw [hoffset, DmlOperatorDesc.value_fill hop] at hfill
  rw [hfill]
  show ((-1 : ℚ) : ℝ) + ((2 : ℚ) : ℝ) * (rowMajor [1, 1, 1, 2] [0, 0, 0, q] : ℕ) = _
  rw [hplace]
  norm_num

/-- What the chain leaves in front of the elements that are not rotated. -/
theorem rotated (hfits : LayoutFits r) (hrun : IsRun (exactStorage r).subNodes d.read v)
    (hidx : b < r.batch ∧ t < r.seq ∧ h < r.heads ∧ k < r.half) (hq : q < 2) :
    v ((exactStorage r).gatherCosIdx + 7) 0
        (rowMajor (ioSizes r r.rotary) (ioIndex r b t h (r.element k q))) =
      d.x (r.place b t h (r.element k q)) * d.cos (cacheAt r d (rowPlace r b t k)) +
        d.x (r.place b t h (r.element k (1 - q))) * d.sin (cacheAt r d (rowPlace r b t k)) *
          (-1 + 2 * q) := by
  obtain ⟨hb, ht, hh, hk⟩ := hidx
  have hpair := And.intro hb (And.intro ht (And.intro hh (And.intro hk hq)))
  have helement := And.intro hb (And.intro ht (And.intro hh (element_lt hk hq)))
  have hbehind := (exactStorage r).getElem?_behind
  have hadd := hrun _ _ ((hbehind 7).trans rfl) 0 _ rfl [b, t, h, r.element k q] (by
    rw [partialStrided_sizes]
    exact inBounds_four.2 helement)
  have hfirst : (exactStorage r).add.delivered d.read v 0 =
      v ((exactStorage r).gatherCosIdx + 4) 0 := delivered_of_output rfl rfl
  have hsecond : (exactStorage r).add.delivered d.read v 1 =
      v ((exactStorage r).gatherCosIdx + 6) 0 := delivered_of_output rfl rfl
  have hplace : (exactStorage r).partialInPacked.offset [b, t, h, r.element k q] =
    copyPlace r b t h (r.element k q) := rfl
  rw [partialStrided_offset hfits helement, DmlOperatorDesc.value_add rfl,
    DmlOperatorDesc.read_eq (exactStorage r).partialInPacked rfl,
    DmlOperatorDesc.read_eq (exactStorage r).partialInPacked rfl, hplace, hfirst, hsecond] at hadd
  have hrow := rowPlace_lt ⟨hb, ht, hk⟩
  have hcos := gathered_place r.sizesCos ((hbehind 0).trans rfl) hrun hrow
  have hsin := gathered_place r.sizesSin ((hbehind 1).trans rfl) hrun hrow
  have hmulCos := multiplied ((hbehind 4).trans rfl) hrun hpair
  have hmulSin := multiplied ((hbehind 5).trans rfl) hrun hpair
  have hmulSign := multiplied ((hbehind 6).trans rfl) hrun hpair
  rw [cosBroadcast_offset hpair] at hmulCos hmulSin
  rw [copied hfits hrun helement] at hmulCos
  rw [swapped hfits hrun ⟨hb, ht, hh, hk⟩ hq] at hmulSin
  rw [signBroadcast_offset hpair, signs hrun hq, hmulSin] at hmulSign
  rw [hadd, hmulCos, hmulSign]
  exact congrArg₂ (fun x y => d.x (r.place b t h (r.element k q)) * x +
    d.x (r.place b t h (r.element k (1 - q))) * y * (-1 + 2 * q)) hcos hsin

end

/-! ## The output -/

section

variable {r : RotaryNode} {d : RotaryData} {v : Nat → Nat → Nat → ℝ} {b t h k q e : Nat}

/-- `JoinOutput` puts the rotated elements in front of the others. -/
theorem join_output (hpartly : (exactStorage r).partialRotary = true)
    (hrun : IsRun (exactStorage r).subNodes d.read v)
    (hidx : b < r.batch ∧ t < r.seq ∧ h < r.heads) (he : e < r.headSize) :
    v ((exactStorage r).gatherCosIdx + 8) 0 (r.place b t h e) =
      if e < r.rotary then
        v ((exactStorage r).gatherCosIdx + 7) 0 (rowMajor (ioSizes r r.rotary) (ioIndex r b t h e))
      else d.x (r.place b t h e) := by
  have hget : (exactStorage r).subNodes[(exactStorage r).gatherCosIdx + 8]? =
      some (exactStorage r).joinOutput := by
    rw [RotaryStorage.getElem?_behind, hpartly]
    rfl
  have hjoin := hrun _ _ hget 0 (exactStorage r).fullInOut rfl (ioIndex r b t h e) (by
    rw [fullInOut_eq, sizes_io]
    exact (inBounds_ioIndex r).2 ⟨hidx.1, hidx.2.1, hidx.2.2, he⟩)
  have hsizes : DmlOperatorDesc.sizesAlong 3 (exactStorage r).joinOutput.opDesc.inputs =
      [r.rotary, r.headSize - r.rotary] := by
    show [(exactStorage r).splitIn1.sizes.getD 3 0, (exactStorage r).splitIn2.sizes.getD 3 0] = _
    rw [splitIn1_eq, splitIn2_eq, sizes_io, sizes_io, ioSizes_getD, ioSizes_getD]
  rw [fullInOut_offset, DmlOperatorDesc.value_join rfl, hsizes, ioIndex_getD, ioIndex_set] at hjoin
  rw [hjoin]
  by_cases hlt : e < r.rotary
  · have hpart : locatePart [r.rotary, r.headSize - r.rotary] e = (0, e) := if_pos hlt
    have hslot : (exactStorage r).joinOutput.delivered d.read v 0 =
        v ((exactStorage r).gatherCosIdx + 7) 0 := delivered_of_output rfl rfl
    rw [hpart, if_pos hlt, DmlOperatorDesc.read_eq (exactStorage r).splitIn1 rfl, hslot,
      splitIn1_eq, io_offset]
  · have hrest : e - r.rotary < r.headSize - r.rotary := by omega
    have hpart : locatePart [r.rotary, r.headSize - r.rotary] e = (1, e - r.rotary) := by
      rw [locatePart, if_neg hlt, locatePart, if_pos hrest]
    have hslot : (exactStorage r).joinOutput.delivered d.read v 1 = v 0 1 :=
      delivered_of_output (k := 0) (o := 1) rfl rfl
    have hback : r.rotary + (e - r.rotary) = e := by omega
    rw [hpart, if_neg hlt, DmlOperatorDesc.read_eq (exactStorage r).splitIn2 rfl, hslot,
      splitIn2_eq, io_offset, (split_input hpartly hrun hidx).2 hrest, hback]

/-- The chain leaves what its last operators do, in the layout of the input. -/
theorem chain_output (hrun : IsRun (exactStorage r).subNodes d.read v)
    (hidx : b < r.batch ∧ t < r.seq ∧ h < r.heads) (he : e < r.headSize) :
    v ((exactStorage r).subNodes.length - 1) 0 (r.place b t h e) =
      if e < r.rotary then
        v ((exactStorage r).gatherCosIdx + 7) 0 (rowMajor (ioSizes r r.rotary) (ioIndex r b t h e))
      else d.x (r.place b t h e) := by
  rw [RotaryStorage.length_subNodes]
  cases hpartly : (exactStorage r).partialRotary
  · have hsize : r.headSize = r.rotary := by simpa [partialRotary_eq] using hpartly
    rw [hsize] at he
    rw [if_pos he, place_eq, hsize]
    rfl
  · exact join_output hpartly hrun hidx he

end

/-! ## Existence -/

section

variable {r : RotaryNode}

theorem add_separates (hlayout : LayoutFits r) :
    DmlOperatorDesc.Separates (exactStorage r).add.opDesc := by
  intro out hout value
  rw [List.mem_singleton.1 hout]
  obtain ⟨y, hy⟩ := exists_buffer (ioSizes r r.rotary) fun io =>
    value (if r.fourD then [io.getD 0 0, io.getD 2 0, io.getD 1 0, io.getD 3 0] else io)
  refine ⟨y, fun idx hidx => ?_⟩
  rw [partialStrided_sizes] at hidx
  obtain ⟨b, t, h, e, rfl, hplace⟩ := exists_four hidx
  rw [partialStrided_offset hlayout hplace, hy _ ((inBounds_ioIndex r).2 hplace)]
  unfold ioIndex
  split <;> rfl

theorem exists_run (hlayout : LayoutFits r) (inputs : Nat → Nat → ℝ) :
    ∃ v, IsRun (exactStorage r).subNodes inputs v := by
  have hnone : IsRun [] inputs fun _ _ _ => 0 := fun j sn hsn => by cases hsn
  have hseparates : ∀ sn ∈ (exactStorage r).subNodes, DmlOperatorDesc.Separates sn.opDesc := by
    intro sn hsn
    rcases RotaryStorage.packed_outputs hsn with rfl | hpacked
    · exact add_separates hlayout
    · exact DmlOperatorDesc.separates_of_packed hpacked
  have hwired : Wired ([] ++ (exactStorage r).subNodes) := (exactStorage r).subNodes_wired
  obtain ⟨v, hrun, -⟩ := hnone.extend hwired hseparates
  exact ⟨v, hrun⟩

end

end RotaryLemmas

end AmdGpuEp.DirectML
