import AmdGpuEp.DirectML.RotaryRuns

/-!
# What the chain of `RotaryEmbedding` computes

The elements of a pair are rotated by an angle whose cosine and sine are in the row of
the caches at the position of the token. The chain does this, and it leaves the other
elements as they are, in the layout of the input. Its strides are computed in 32 bits;
when one of them wraps, elements of the output are not written, or are rotated by the
angle of another token.

Results:
1. `rotaryEmbedding_iff`: the chain is exact when no stride that is used wraps.
2. `rotaryEmbedding_wraps`: a batch of two whose stride does.
-/

namespace AmdGpuEp.DirectML

/-! ## What is asked of the chain -/

namespace RotaryNode

variable (r : RotaryNode) (d : RotaryData)

/-- The positions are rows of the caches. -/
def Valid : Prop :=
  ∀ b < r.batch, ∀ t < r.seq, r.position d b t < r.rows

/-- The rotated input. -/
structure IsRotary (y : Nat → ℝ) : Prop where
  first : ∀ b < r.batch, ∀ t < r.seq, ∀ h < r.heads, ∀ k < r.half,
    y (r.place b t h (r.element k 0)) =
      d.x (r.place b t h (r.element k 0)) * d.cos (r.position d b t * r.half + k) -
        d.x (r.place b t h (r.element k 1)) * d.sin (r.position d b t * r.half + k)
  second : ∀ b < r.batch, ∀ t < r.seq, ∀ h < r.heads, ∀ k < r.half,
    y (r.place b t h (r.element k 1)) =
      d.x (r.place b t h (r.element k 1)) * d.cos (r.position d b t * r.half + k) +
        d.x (r.place b t h (r.element k 0)) * d.sin (r.position d b t * r.half + k)
  rest : ∀ b < r.batch, ∀ t < r.seq, ∀ h < r.heads, ∀ e < r.headSize, r.rotary ≤ e →
    y (r.place b t h e) = d.x (r.place b t h e)

/-- The node is translated, and the chain rotates every input. -/
structure Correct : Prop where
  translated : ∃ t, translateRotaryEmbedding r.node r.shapes r.initializers = some t ∧
    ∀ d, r.Valid d →
      (∃ y, t.ChainsTo d.read y) ∧ ∀ y, t.ChainsTo d.read y → r.IsRotary d y

/-- The strides that are used fit in 32 bits. Where only that of the batches in the caches does not,
the wrapped one may still lead to the row of the same position. -/
def Fits : Prop :=
  if r.fourD then
    r.heads * r.headSize < 2 ^ 32 ∧ (1 < r.batch → r.rotary * r.heads * r.seq < 2 ^ 32) ∧
      (1 < r.heads → r.seq * r.rotary < 2 ^ 32)
  else
    r.batch = 1 ∨ r.seq * r.half < 2 ^ 32 ∨
      if r.offset then 2 ^ 32 ∣ r.seq * r.half
      else r.rows = 1 ∧ r.half ∣ r.seq * r.half % 2 ^ 32

end RotaryNode

namespace RotaryLemmas

/-! ## Chains whose strides fit -/

section

variable {r : RotaryNode} {d : RotaryData} {v : Nat → Nat → Nat → ℝ} {b t h k q e : Nat}

/-- Every token is read with the row of its position. -/
def RowsFit (r : RotaryNode) (d : RotaryData) : Prop :=
  ∀ b < r.batch, ∀ t < r.seq, ∀ k < r.half,
    cacheAt r d (rowPlace r b t k) = r.position d b t * r.half + k

theorem isRotary_of_run (hlayout : LayoutFits r) (hrows : RowsFit r d)
    (hrun : IsRun (exactStorage r).subNodes d.read v) :
    r.IsRotary d (v ((exactStorage r).subNodes.length - 1) 0) := by
  have hsize := r.notAbove
  have hpair : ∀ b < r.batch, ∀ t < r.seq, ∀ h < r.heads, ∀ k < r.half, ∀ q < 2,
      v ((exactStorage r).subNodes.length - 1) 0 (r.place b t h (r.element k q)) =
        d.x (r.place b t h (r.element k q)) * d.cos (r.position d b t * r.half + k) +
          d.x (r.place b t h (r.element k (1 - q))) * d.sin (r.position d b t * r.half + k) *
            (-1 + 2 * q) := by
    intro b hb t ht h hh k hk q hq
    have hlt := element_lt (r := r) hk hq
    rw [chain_output hrun ⟨hb, ht, hh⟩ (by omega), if_pos hlt,
      rotated hlayout hrun ⟨hb, ht, hh, hk⟩ hq, hrows b hb t ht k hk]
  constructor
  · intro b hb t ht h hh k hk
    rw [hpair b hb t ht h hh k hk 0 (by decide)]
    push_cast
    ring
  · intro b hb t ht h hh k hk
    rw [hpair b hb t ht h hh k hk 1 (by decide)]
    push_cast
    ring
  · intro b hb t ht h hh e he hrotary
    rw [chain_output hrun ⟨hb, ht, hh⟩ he, if_neg (by omega)]

theorem cacheAt_place (ht : t < r.seq) (hk : k < r.half) :
    cacheAt r d (r.half * (r.seq * b + t) + k) = r.position d b t * r.half + k := by
  have hrow : (r.half * (r.seq * b + t) + k) / r.half = r.seq * b + t := by
    rw [Nat.mul_add_div (half_pos r), Nat.div_eq_of_lt hk, Nat.add_zero]
  have hpair : (r.half * (r.seq * b + t) + k) % r.half = k := by
    rw [Nat.mul_add_mod, Nat.mod_eq_of_lt hk]
  have hbatch : (r.seq * b + t) / r.seq = b := by
    rw [Nat.mul_add_div r.positive.2.1, Nat.div_eq_of_lt ht, Nat.add_zero]
  have htoken : (r.seq * b + t) % r.seq = t := by rw [Nat.mul_add_mod, Nat.mod_eq_of_lt ht]
  rw [cacheAt, hrow, hpair, hbatch, htoken]

/-- The wrapped stride of the batches is not seen in the caches. -/
theorem cacheAt_of_stride (hb : r.seq * r.half % 2 ^ 32 * b = r.seq * r.half * b) (ht : t < r.seq)
    (hk : k < r.half) : cacheAt r d (rowPlace r b t k) = r.position d b t * r.half + k := by
  have hplace : rowPlace r b t k = r.half * (r.seq * b + t) + k := by
    rw [rowPlace, hb]
    ring
  rw [hplace, cacheAt_place ht hk]

theorem stride_small (h : r.batch = 1 ∨ r.seq * r.half < 2 ^ 32) (hb : b < r.batch) :
    r.seq * r.half % 2 ^ 32 * b = r.seq * r.half * b := by
  rcases h with hone | hlt
  · obtain rfl : b = 0 := by omega
    rfl
  · rw [Nat.mod_eq_of_lt hlt]

/-- A batch of positions that are all 0 has one row. -/
theorem position_of_one_row (hvalid : r.Valid d) (hrows : r.rows = 1) (hb : b < r.batch)
    (ht : t < r.seq) : r.position d b t = 0 := by
  have := hvalid b hb t ht
  omega

theorem cacheAt_of_one_row (hvalid : r.Valid d) (hrows : r.rows = 1)
    (hdvd : r.half ∣ r.seq * r.half % 2 ^ 32) (hidx : b < r.batch ∧ t < r.seq ∧ k < r.half) :
    cacheAt r d (rowPlace r b t k) = r.position d b t * r.half + k := by
  obtain ⟨n, hn⟩ := hdvd
  have hpair : rowPlace r b t k % r.half = k := by
    have hplace : rowPlace r b t k = r.half * (n * b + t) + k := by
      rw [rowPlace, hn]
      ring
    rw [hplace, Nat.mul_add_mod, Nat.mod_eq_of_lt hidx.2.2]
  have hbatch := batch_of_place (rowPlace_lt hidx)
  rw [cacheAt, hpair, position_of_one_row hvalid hrows hidx.1 hidx.2.1,
    position_of_one_row hvalid hrows hbatch (Nat.mod_lt _ r.positive.2.1)]

theorem rowsFit_of_fits (hfits : r.Fits) (hvalid : r.Valid d) : RowsFit r d := by
  intro b hb t ht k hk
  unfold RotaryNode.Fits at hfits
  cases hfour : r.fourD
  · rw [hfour] at hfits
    rcases or_assoc.2 hfits with hsmall | hwraps
    · exact cacheAt_of_stride (stride_small hsmall hb) ht hk
    · cases hoffset : r.offset
      · rw [hoffset] at hwraps
        exact cacheAt_of_one_row hvalid hwraps.1 hwraps.2 ⟨hb, ht, hk⟩
      · rw [hoffset] at hwraps
        have hzero : r.seq * r.half % 2 ^ 32 = 0 := Nat.mod_eq_zero_of_dvd hwraps
        have hplace : rowPlace r b t k = rowPlace r 0 t k := by
          rw [rowPlace, rowPlace, hzero, Nat.zero_mul, Nat.zero_mul]
        rw [hplace, cacheAt_of_stride rfl ht hk, RotaryNode.position, RotaryNode.position, hoffset]
        rfl
  · rw [hfour] at hfits
    refine cacheAt_of_stride (stride_small ?_ hb) ht hk
    rcases Nat.lt_or_ge 1 r.batch with hlt | hle
    · right
      have heven := two_mul_half r
      have hheads := r.positive.2.2.1
      calc r.seq * r.half
        _ ≤ 2 * r.heads * (r.seq * r.half) := Nat.le_mul_of_pos_left _ (by omega)
        _ = r.rotary * r.heads * r.seq := by
          rw [heven]
          ring
        _ < 2 ^ 32 := hfits.2.1 hlt
    · left
      omega

theorem layoutFits_of_fits (hfits : r.Fits) : LayoutFits r := by
  intro hfour
  rw [RotaryNode.Fits, if_pos hfour] at hfits
  exact hfits.2

theorem translate_eq (r : RotaryNode) :
    ∃ t, translateRotaryEmbedding r.node r.shapes r.initializers = some t ∧
      t.subNodes = (rotaryStorage r.node r.x r.pos r.cos r.sin).subNodes := by
  unfold translateRotaryEmbedding
  rw [r.inputX, r.inputPos, r.inputCos, r.inputSin]
  have houtput : (getNodeOutputNames r.node).isEmpty = false := by simpa using r.output
  simp [houtput]

theorem correct_of_fits (hfits : r.Fits) : r.Correct := by
  obtain ⟨t, ht, hsubs⟩ := translate_eq r
  have hhidden : r.heads * r.headSize < 2 ^ 32 := by
    cases hfour : r.fourD
    · exact r.fitsHidden hfour
    · rw [RotaryNode.Fits, if_pos hfour] at hfits
      exact hfits.1
  obtain ⟨heads, headSize, rotary, hstorage, hexact, -⟩ := rotaryStorage_eq r
  obtain ⟨rfl, rfl, rfl⟩ := hexact hhidden
  rw [hstorage] at hsubs
  have hlayout := layoutFits_of_fits hfits
  refine ⟨t, ht, fun d hvalid => ⟨?_, ?_⟩⟩
  · obtain ⟨v, hrun⟩ := exists_run hlayout d.read
    exact ⟨_, v, by rwa [hsubs], rfl⟩
  · rintro y ⟨v, hrun, rfl⟩
    rw [hsubs] at hrun ⊢
    exact isRotary_of_run hlayout (rowsFit_of_fits hfits hvalid) hrun

end

/-! ## Places that are not written -/

section

variable {r : RotaryNode} {d : RotaryData} {b t h e heads headSize rotary : Nat}
  {idx : List Nat} {y y' : Nat → ℝ}

theorem isRotary_unique (hy : r.IsRotary d y) (hy' : r.IsRotary d y')
    (hidx : b < r.batch ∧ t < r.seq ∧ h < r.heads ∧ e < r.headSize) :
    y (r.place b t h e) = y' (r.place b t h e) := by
  obtain ⟨hb, ht, hh, he⟩ := hidx
  rcases Nat.lt_or_ge e r.rotary with hlt | hge
  · obtain ⟨k, q, hk, hq, rfl⟩ := exists_element hlt
    refine two_cases (p := fun q => y (r.place b t h (r.element k q)) =
      y' (r.place b t h (r.element k q))) ?_ ?_ hq
    · rw [hy.first b hb t ht h hh k hk, hy'.first b hb t ht h hh k hk]
    · rw [hy.second b hb t ht h hh k hk, hy'.second b hb t ht h hh k hk]
  · rw [hy.rest b hb t ht h hh e he hge, hy'.rest b hb t ht h hh e he hge]

/-- All positions are 0, or the offset is. -/
def zeroData : RotaryData where
  x := fun _ => 0
  positions := fun _ => 0
  cos := fun _ => 0
  sin := fun _ => 0

theorem zeroData_valid (r : RotaryNode) : r.Valid zeroData := by
  intro b _ t ht
  unfold RotaryNode.position
  split
  · next hoffset =>
    have := r.longEnough hoffset
    show 0 + t < r.rows
    omega
  · exact r.positive.2.2.2.2

/-- A chain cannot be exact when one of its operators does not write a place that the output is
taken from. -/
theorem not_exact_of_gap {front rest : List (SubNode DmlOperatorDesc)}
    {sn : SubNode DmlOperatorDesc} {p n : Nat}
    (hexact : ∀ v, IsRun (front ++ sn :: rest) zeroData.read v → r.IsRotary zeroData (v n 0))
    (hwired : Wired (front ++ sn :: rest))
    (hseparates : ∀ sn' ∈ rest, DmlOperatorDesc.Separates sn'.opDesc)
    (hrun : ∃ v, IsRun (front ++ sn :: rest) zeroData.read v)
    (hidx : b < r.batch ∧ t < r.seq ∧ h < r.heads ∧ e < r.headSize)
    (htaken : ∀ v, IsRun (front ++ sn :: rest) zeroData.read v →
      v n 0 (r.place b t h e) = v front.length 0 p)
    (hgap : ∀ out, sn.opDesc.outputs[0]? = some out → ∀ idx, InBounds idx out.sizes →
      out.offset idx ≠ p) : False := by
  obtain ⟨v, hv⟩ := hrun
  obtain ⟨v', hv', hne⟩ := hv.perturb hwired hseparates hgap
  rw [← htaken v hv, ← htaken v' hv'] at hne
  exact hne (isRotary_unique (hexact v' hv') (hexact v hv) hidx)

theorem runs_of_correct (hcorrect : r.Correct) {s : RotaryStorage}
    (hstorage : rotaryStorage r.node r.x r.pos r.cos r.sin = s) (hvalid : r.Valid d) :
    (∃ v, IsRun s.subNodes d.read v) ∧
      ∀ v, IsRun s.subNodes d.read v → r.IsRotary d (v (s.subNodes.length - 1) 0) := by
  obtain ⟨t, ht, hall⟩ := hcorrect.translated
  obtain ⟨t', ht', hsubs⟩ := translate_eq r
  obtain rfl : t = t' := Option.some.inj (ht.symm.trans ht')
  rw [hstorage] at hsubs
  rw [← hsubs]
  obtain ⟨⟨y, v, hrun, -⟩, hrotates⟩ := hall d hvalid
  exact ⟨⟨v, hrun⟩, fun v hv => hrotates _ ⟨v, hv, rfl⟩⟩

theorem strided_lt (hfour : r.fourD = true)
    (hidx : InBounds idx (r.storage heads headSize rotary).partialStrided.sizes) :
    (r.storage heads headSize rotary).partialStrided.offset idx <
      r.batch * r.seq * (heads * rotary) := by
  have hstrided : (r.storage heads headSize rotary).partialStrided =
      makeTensorInfoWithStrides [r.batch, r.seq, heads, rotary]
        [rotary * heads * r.seq % 2 ^ 32, rotary, r.seq * rotary % 2 ^ 32, 1] r.x.dataType
        (r.x.bytes r.x.dataType) := if_pos hfour
  rw [hstrided] at hidx ⊢
  obtain ⟨b, t, h, e, rfl, hb, ht, hh, he⟩ := exists_four hidx
  have hbatch : rotary * heads * r.seq % 2 ^ 32 * b ≤ rotary * heads * r.seq * b :=
    Nat.mul_le_mul_right b (Nat.mod_le _ _)
  have hheads : r.seq * rotary % 2 ^ 32 * h ≤ r.seq * rotary * h :=
    Nat.mul_le_mul_right h (Nat.mod_le _ _)
  have hlast := rowMajor_lt (inBounds_four.2 (And.intro hb (And.intro hh (And.intro ht he))))
  calc rotary * heads * r.seq % 2 ^ 32 * b +
        (rotary * t + (r.seq * rotary % 2 ^ 32 * h + (1 * e + 0)))
    _ ≤ rowMajor [r.batch, heads, r.seq, rotary] [b, h, t, e] := by
      have hplace : rowMajor [r.batch, heads, r.seq, rotary] [b, h, t, e] =
          rotary * heads * r.seq * b + (rotary * t + (r.seq * rotary * h + (1 * e + 0))) := by
        simp only [rowMajor, List.prod_cons, List.prod_nil]
        ring
      omega
    _ < [r.batch, heads, r.seq, rotary].prod := hlast
    _ = r.batch * r.seq * (heads * rotary) := by
      simp only [List.prod_cons, List.prod_nil]
      ring

theorem full_lt (hfour : r.fourD = true)
    (hidx : InBounds idx (r.storage heads headSize rotary).fullInOut.sizes) :
    (r.storage heads headSize rotary).fullInOut.offset idx <
      r.batch * r.seq * (heads * headSize) := by
  have hfull : (r.storage heads headSize rotary).fullInOut =
      makeTensorInfo [r.batch, heads, r.seq, headSize] r.x.dataType :=
    congrArg (fun sizes => makeTensorInfo sizes r.x.dataType) (if_pos hfour)
  rw [hfull] at hidx ⊢
  rw [packed_offset]
  calc rowMajor [r.batch, heads, r.seq, headSize] idx
    _ < [r.batch, heads, r.seq, headSize].prod := rowMajor_lt hidx
    _ = r.batch * r.seq * (heads * headSize) := by
      simp only [List.prod_cons, List.prod_nil]
      ring

/-- The last element of the input. -/
theorem last_place (hfour : r.fourD = true) :
    r.place (r.batch - 1) (r.seq - 1) (r.heads - 1) (r.headSize - 1) + 1 =
      r.batch * r.seq * (r.heads * r.headSize) := by
  obtain ⟨hbatch, hseq, hheads, hrotary, -⟩ := r.positive
  have hsize := r.notAbove
  have hpos : ∀ d ∈ [r.batch, r.heads, r.seq, r.headSize], 0 < d := by
    simp only [List.mem_cons, List.not_mem_nil, or_false]
    rintro d (rfl | rfl | rfl | rfl) <;> omega
  rw [RotaryNode.place, if_pos hfour]
  refine (rowMajor_last hpos).trans ?_
  simp only [List.prod_cons, List.prod_nil]
  ring

/-- The sizes of the heads do not wrap. -/
theorem hidden_fits_of_correct (hcorrect : r.Correct) : r.heads * r.headSize < 2 ^ 32 := by
  by_contra hwraps
  have hfour : r.fourD = true := by
    cases hcase : r.fourD
    · exact absurd (r.fitsHidden hcase) hwraps
    · rfl
  obtain ⟨heads, headSize, rotary, hstorage, -, hsmall⟩ := rotaryStorage_eq r
  have hsmall := hsmall (Nat.le_of_not_lt hwraps)
  obtain ⟨hruns, hexact⟩ := runs_of_correct hcorrect hstorage (zeroData_valid r)
  obtain ⟨hbatch, hseq, hheads, hrotary, -⟩ := r.positive
  have hsize := r.notAbove
  have hlast := last_place (r := r) hfour
  have hbound : r.batch * r.seq * (heads * headSize) < r.batch * r.seq * (r.heads * r.headSize) :=
    (Nat.mul_lt_mul_left (Nat.mul_pos hbatch hseq)).2 hsmall
  let last := r.place (r.batch - 1) (r.seq - 1) (r.heads - 1) (r.headSize - 1)
  have hidx : r.batch - 1 < r.batch ∧ r.seq - 1 < r.seq ∧ r.heads - 1 < r.heads ∧
      r.headSize - 1 < r.headSize := by omega
  have hwired := (r.storage heads headSize rotary).subNodes_wired
  rw [RotaryStorage.length_subNodes] at hexact
  -- the last operator does not reach the last element
  cases hpartly : (r.storage heads headSize rotary).partialRotary
  · have hwhole : headSize = rotary := bne_eq_false_iff_eq.1 hpartly
    rw [RotaryStorage.subNodes_add, hpartly] at hexact hruns hwired
    refine not_exact_of_gap (p := last) hexact hwired (fun _ h => by cases h) hruns hidx
      (fun v _ => ?_) fun out hout idx hbounds => ?_
    · rw [RotaryStorage.length_beforeAdd]
      rfl
    · cases hout
      have hlt := (strided_lt hfour hbounds).trans_eq (by rw [← hwhole])
      omega
  · rw [RotaryStorage.subNodes_eq, hpartly, if_pos rfl, ← List.append_assoc]
      at hexact hruns hwired
    refine not_exact_of_gap (p := last) hexact hwired (fun _ h => by cases h) hruns hidx
      (fun v _ => ?_) fun out hout idx hbounds => ?_
    · rw [List.length_append, RotaryStorage.length_preparation]
      rfl
    · cases hout
      have hlt := full_lt hfour hbounds
      omega

theorem exactStorage_of_correct (hcorrect : r.Correct) :
    rotaryStorage r.node r.x r.pos r.cos r.sin = exactStorage r := by
  obtain ⟨heads, headSize, rotary, hstorage, hexact, -⟩ := rotaryStorage_eq r
  obtain ⟨rfl, rfl, rfl⟩ := hexact (hidden_fits_of_correct hcorrect)
  exact hstorage

/-- The addition writes every element that is rotated. -/
theorem add_writes (hcorrect : r.Correct)
    (hidx : b < r.batch ∧ t < r.seq ∧ h < r.heads ∧ e < r.rotary) :
    ∃ idx, InBounds idx (exactStorage r).partialStrided.sizes ∧
      (exactStorage r).partialStrided.offset idx =
        rowMajor (ioSizes r r.rotary) (ioIndex r b t h e) := by
  by_contra hgap
  obtain ⟨hruns, hexact⟩ :=
    runs_of_correct hcorrect (exactStorage_of_correct hcorrect) (zeroData_valid r)
  have hsize := r.notAbove
  have hwired := (exactStorage r).subNodes_wired
  have htaken : ∀ v, IsRun (exactStorage r).subNodes zeroData.read v →
      v ((exactStorage r).subNodes.length - 1) 0 (r.place b t h e) =
        v ((exactStorage r).preparation ++ (exactStorage r).rotation.take 7).length 0
          (rowMajor (ioSizes r r.rotary) (ioIndex r b t h e)) := by
    intro v hv
    rw [chain_output hv ⟨hidx.1, hidx.2.1, hidx.2.2.1⟩ (by omega), if_pos hidx.2.2.2,
      RotaryStorage.length_beforeAdd]
  have hseparates : ∀ sn' ∈ if (exactStorage r).partialRotary then [(exactStorage r).joinOutput]
      else [], DmlOperatorDesc.Separates sn'.opDesc := by
    intro sn' hsn'
    refine DmlOperatorDesc.separates_of_packed fun out hout => ?_
    split at hsn'
    · rw [List.mem_singleton.1 hsn'] at hout
      rw [List.mem_singleton.1 hout]
      rfl
    · cases hsn'
  generalize (exactStorage r).subNodes.length - 1 = n at hexact htaken
  rw [RotaryStorage.subNodes_add] at hexact htaken hruns hwired
  refine not_exact_of_gap hexact hwired hseparates hruns ⟨hidx.1, hidx.2.1, hidx.2.2.1, by omega⟩
    htaken fun out hout idx hbounds heq => hgap ⟨idx, ?_⟩
  cases hout
  exact ⟨hbounds, heq⟩

/-- A stride that is seen at the last index does not wrap. -/
theorem stride_of_last {n m i : Nat} (hi : i ≤ n - 1) (h : m % 2 ^ 32 * i = m * (n - 1))
    (hn : 1 < n) : m < 2 ^ 32 := by
  have hle : m * (n - 1) ≤ m % 2 ^ 32 * (n - 1) := h ▸ Nat.mul_le_mul_left _ hi
  have hm := Nat.le_of_mul_le_mul_right hle (by omega)
  have hlt := Nat.mod_lt m (show 0 < 2 ^ 32 by decide)
  omega

theorem layoutFits_of_correct (hcorrect : r.Correct) : LayoutFits r := by
  intro hfour
  obtain ⟨hbatch, hseq, hheads, hrotary, -⟩ := r.positive
  have hidx : r.batch - 1 < r.batch ∧ r.seq - 1 < r.seq ∧ r.heads - 1 < r.heads ∧
      r.rotary - 1 < r.rotary := by omega
  obtain ⟨idx, hbounds, hoffset⟩ := add_writes hcorrect hidx
  rw [partialStrided_sizes] at hbounds
  obtain ⟨b, t, h, e, rfl, hb, ht, hh, he⟩ := exists_four hbounds
  have hstrided : (exactStorage r).partialStrided =
      makeTensorInfoWithStrides [r.batch, r.seq, r.heads, r.rotary]
        [r.rotary * r.heads * r.seq % 2 ^ 32, r.rotary, r.seq * r.rotary % 2 ^ 32, 1] r.x.dataType
        (r.x.bytes r.x.dataType) := if_pos hfour
  have hplace : (exactStorage r).partialStrided.offset [b, t, h, e] =
      r.rotary * r.heads * r.seq % 2 ^ 32 * b +
        (r.rotary * t + (r.seq * r.rotary % 2 ^ 32 * h + (1 * e + 0))) := by
    rw [hstrided]
    rfl
  have hlast : rowMajor (ioSizes r r.rotary)
      (ioIndex r (r.batch - 1) (r.seq - 1) (r.heads - 1) (r.rotary - 1)) =
      r.rotary * r.heads * r.seq * (r.batch - 1) + (r.rotary * (r.seq - 1) +
        (r.seq * r.rotary * (r.heads - 1) + (r.rotary - 1))) := by
    unfold ioSizes ioIndex
    rw [if_pos hfour, if_pos hfour]
    simp only [rowMajor, List.prod_cons, List.prod_nil]
    ring
  rw [hplace, hlast] at hoffset
  -- no term is above its last value
  have hbterm : r.rotary * r.heads * r.seq % 2 ^ 32 * b ≤
      r.rotary * r.heads * r.seq * (r.batch - 1) :=
    Nat.mul_le_mul (Nat.mod_le _ _) (by omega)
  have htterm : r.rotary * t ≤ r.rotary * (r.seq - 1) := Nat.mul_le_mul_left _ (by omega)
  have hhterm : r.seq * r.rotary % 2 ^ 32 * h ≤ r.seq * r.rotary * (r.heads - 1) :=
    Nat.mul_le_mul (Nat.mod_le _ _) (by omega)
  exact ⟨stride_of_last (i := b) (by omega) (by omega),
    stride_of_last (i := h) (by omega) (by omega)⟩

end

/-! ## Rows that are not read -/

section

variable {r : RotaryNode} {d : RotaryData}

/-- The row of a token is the one of its position, since any other element may differ. -/
theorem rowsFit_of_correct (hcorrect : r.Correct) (hvalid : r.Valid d) : RowsFit r d := by
  classical
  intro b hb t ht k hk
  let probe : RotaryData :=
    { x := fun _ => 1, positions := d.positions
      cos := fun p => if p = r.position d b t * r.half + k then 1 else 0, sin := fun _ => 0 }
  have hprobe : r.Valid probe := hvalid
  obtain ⟨⟨v, hrun⟩, hexact⟩ :=
    runs_of_correct hcorrect (exactStorage_of_correct hcorrect) hprobe
  have hheads := r.positive.2.2.1
  have hsize := r.notAbove
  have helement := element_lt (r := r) hk (show 0 < 2 by decide)
  have hdefined := (hexact v hrun).first b hb t ht 0 hheads k hk
  rw [chain_output hrun ⟨hb, ht, hheads⟩ (by omega), if_pos helement,
    rotated (layoutFits_of_correct hcorrect) hrun ⟨hb, ht, hheads, hk⟩ (by decide)] at hdefined
  have hplace : r.position probe b t = r.position d b t := rfl
  by_contra hne
  have hrow : ¬ cacheAt r probe (rowPlace r b t k) = r.position d b t * r.half + k := hne
  simp [probe, hplace, hrow] at hdefined

/-- What the rows of all positions say about the wrapped stride. -/
theorem fits_of_rows (hfour : r.fourD = false) (hrows : ∀ d, r.Valid d → RowsFit r d) : r.Fits := by
  rw [RotaryNode.Fits, hfour]
  refine or_assoc.1 (or_iff_not_imp_left.2 fun hlarge => ?_)
  obtain ⟨hone, hwraps⟩ := not_or.1 hlarge
  obtain ⟨hbatch, hseq, -, -, hpos⟩ := r.positive
  have hhalf := half_pos r
  have hsecond : 1 < r.batch := by omega
  have hlt := Nat.mod_lt (r.seq * r.half) (show 0 < 2 ^ 32 by decide)
  have htoken : r.seq * r.half % 2 ^ 32 / r.half < r.seq :=
    Nat.div_lt_of_lt_mul (by rw [Nat.mul_comm r.half]; omega)
  -- the first row of the second batch is read in the first one
  have hread : ∀ d, cacheAt r d (rowPlace r 1 0 0) =
      r.position d 0 (r.seq * r.half % 2 ^ 32 / r.half) * r.half +
        r.seq * r.half % 2 ^ 32 % r.half := by
    intro d
    have hplace : rowPlace r 1 0 0 = r.seq * r.half % 2 ^ 32 := by simp [rowPlace]
    rw [cacheAt, hplace, Nat.div_eq_of_lt htoken, Nat.mod_eq_of_lt htoken]
  cases hoffset : r.offset
  · have hposition : ∀ d b t, r.position d b t = d.positions (b * r.seq + t) := by
      intro d b t
      rw [RotaryNode.position, hoffset]
      rfl
    have hone : r.rows = 1 := by
      by_contra hmany
      let marked : RotaryData :=
        { zeroData with positions := fun p => if p = r.seq then 1 else 0 }
      have hmarked : ∀ p, marked.positions p = if p = r.seq then 1 else 0 := fun _ => rfl
      have hvalid : r.Valid marked := by
        intro b _ t _
        rw [hposition, hmarked]
        split <;> omega
      have hrow := hrows marked hvalid 1 hsecond 0 hseq 0 hhalf
      rw [hread, hposition, hposition, hmarked, hmarked, if_neg (by omega), if_pos (by omega)]
        at hrow
      have hrest := Nat.mod_lt (r.seq * r.half % 2 ^ 32) hhalf
      omega
    have hrow := hrows zeroData (zeroData_valid r) 1 hsecond 0 hseq 0 hhalf
    rw [hread, hposition, hposition] at hrow
    have hzero : ∀ p, zeroData.positions p = 0 := fun _ => rfl
    rw [hzero, hzero, Nat.zero_mul, Nat.zero_add] at hrow
    exact ⟨hone, Nat.dvd_of_mod_eq_zero hrow⟩
  · have hposition : ∀ b t, r.position zeroData b t = t := by
      intro b t
      rw [RotaryNode.position, hoffset]
      exact Nat.zero_add t
    have hrow := hrows zeroData (zeroData_valid r) 1 hsecond 0 hseq 0 hhalf
    rw [hread, hposition, hposition, Nat.div_add_mod', Nat.zero_mul] at hrow
    exact Nat.dvd_of_mod_eq_zero hrow

theorem fits_of_correct (hcorrect : r.Correct) : r.Fits := by
  cases hfour : r.fourD
  · exact fits_of_rows hfour fun d hvalid => rowsFit_of_correct hcorrect hvalid
  · rw [RotaryNode.Fits, if_pos hfour]
    exact ⟨hidden_fits_of_correct hcorrect, layoutFits_of_correct hcorrect hfour⟩

end

end RotaryLemmas

/-- The chain rotates every input, in the layout of the input, exactly when no stride wraps that is
used. -/
theorem rotaryEmbedding_iff (r : RotaryNode) : r.Correct ↔ r.Fits :=
  ⟨RotaryLemmas.fits_of_correct, RotaryLemmas.correct_of_fits⟩

/-! ## A batch that is not reached -/

/-- Two sequences of 65536 tokens, each with a head of 65536 elements. -/
def longSequences : RotaryNode where
  node :=
    { id := 0, opType := "RotaryEmbedding"
      inputs := [some "x", some "position_ids", some "cos_cache", some "sin_cache"]
      outputs := [some "y"] }
  shapes := fun name =>
    if name = "x" then some { sizes := [2, 1, 65536, 65536], originalRank := 4 }
    else if name = "position_ids" then some { sizes := [1, 1, 2, 65536], originalRank := 2 }
    else some { sizes := [1, 1, 65536, 32768], originalRank := 2 }
  initializers := fun _ => none
  batch := 2
  seq := 65536
  heads := 1
  headSize := 65536
  rotary := 65536
  rows := 65536
  fourD := true
  offset := false
  interleaved := false
  x := { sizes := [2, 1, 65536, 65536], originalRank := 4 }
  pos := { sizes := [1, 1, 2, 65536], originalRank := 2 }
  cos := { sizes := [1, 1, 65536, 32768], originalRank := 2 }
  sin := { sizes := [1, 1, 65536, 32768], originalRank := 2 }
  inputX := rfl
  inputPos := rfl
  inputCos := rfl
  inputSin := rfl
  output := by decide
  positive := by decide
  even := by decide
  notAbove := le_rfl
  fits := by decide
  fitsHidden := fun h => by cases h
  longEnough := fun h => by cases h
  attributeHeads := Or.inr ⟨rfl, rfl⟩
  attributeRotary := Or.inr ⟨rfl, rfl⟩
  attributeInterleaved := rfl
  sizesX := rfl
  rankX := rfl
  sizesPos := rfl
  rankPos := rfl
  sizesCos := rfl
  sizesSin := rfl

theorem rotaryEmbedding_wraps : ¬ longSequences.Correct := by
  intro hcorrect
  have hstride := (RotaryLemmas.layoutFits_of_correct hcorrect rfl).1 (by decide)
  exact absurd hstride (by decide)

end AmdGpuEp.DirectML
