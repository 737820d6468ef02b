import AmdGpuEp.DirectML.StockhamFft
import AmdGpuEp.Lib.Strided
import Mathlib.Data.Nat.Log

/-!
# The DFT kernel

`PluginGpuDFTOperator` runs the passes of `StockhamFft` on a length that is a power of two, and a
chirp-z transform made of three such runs on any other length.

Results:
1. `prepareStockhamFFTParams_spec`: the passes of a loop take turns between resources of which no
   two in a row are the same, and end in the output.
2. `stockham_iff`: for a length that is a power of two, when the output holds the transform.
-/

namespace AmdGpuEp.DirectML.Dft

/-! ## Shapes -/

/-- `reshapedDims[i] *= size` -/
def Dims4.mulAt (sizes : Dims4) (i size : ℕ) : Dims4 :=
  match i with
  | 0 => { sizes with before := u32 (sizes.before * size) }
  | 1 => { sizes with axis := u32 (sizes.axis * size) }
  | 2 => { sizes with after := u32 (sizes.after * size) }
  | _ => { sizes with complex := u32 (sizes.complex * size) }

/-- One turn of the loop of `GetReshapedDimensions`, on the sizes and `reshapedIndex`. -/
def reshapeStep (axis : ℕ) (state : Dims4 × ℕ) (dim : ℕ × ℕ) : Dims4 × ℕ :=
  let reshapedIndex := if dim.2 = axis ∨ dim.2 = axis + 1 then state.2 + 1 else state.2
  (state.1.mulAt reshapedIndex dim.1, reshapedIndex)

/-- `GetReshapedDimensions` -/
def getReshapedDimensions (dims : List ℕ) (axis : ℕ) : Dims4 :=
  (dims.dropLast.zipIdx.foldl (reshapeStep axis) (⟨1, 1, 1, 1⟩, 0)).1

def Dims4.toList (sizes : Dims4) : List ℕ :=
  [sizes.before, sizes.axis, sizes.after, sizes.complex]

/-! ## Preparation -/

/-- `IsPowerOfTwo` -/
def isPowerOfTwo (x : ℕ) : Bool :=
  x ≠ 0 ∧ x &&& (x - 1) = 0

/-- The loop of `NextPowerOf2`. After 32 turns `out` is 0, and the loop does not end. -/
def nextPowerOf2From (input : ℕ) : (turns out : ℕ) → Option ℕ
  | 0, _ => none
  | turns + 1, out => if out ≤ input then nextPowerOf2From input turns (u32 (out * 2)) else some out

/-- `NextPowerOf2` -/
def nextPowerOf2 (input : ℕ) : Option ℕ :=
  nextPowerOf2From (u32 (input + (2 ^ 32 - 1))) 33 1

/-- `PrepareStockhamFFTParams`, without the window. `next` is the first resource that is not in use
yet. -/
def prepareStockhamFFTParams (isOnesided : Bool) (inputResource : ℕ) (inputDims : List ℕ)
    (outputResource : ℕ) (outputDims : List ℕ) (dftLength inAxis outAxis : ℕ)
    (window : WindowDesc) (next : ℕ) : StockhamParameters × ℕ :=
  let reshapedInputSize :=
    { getReshapedDimensions inputDims inAxis with complex := inputDims.getLastD 0 }
  let reshapedOutputSize :=
    { getReshapedDimensions outputDims outAxis with complex := outputDims.getLastD 0 }
  let temporarySize :=
    { reshapedInputSize with axis := dftLength, complex := reshapedOutputSize.complex }
  let doesTemporaryShapeMatchOutput := decide (temporarySize = reshapedOutputSize)
  let numberOfPasses := Nat.log2 dftLength
  let hasOnePass := numberOfPasses == 1
  let hasOddPasses := numberOfPasses % 2 == 1
  let writeToOutput := hasOnePass
  let oscillateBetweenTwoTemporaries :=
    !hasOnePass && (isOnesided || !doesTemporaryShapeMatchOutput)
  let oscillateFirstOutputThenTemporary :=
    hasOddPasses && (!isOnesided && doesTemporaryShapeMatchOutput)
  let oscillateFirstTemporaryThenOutput :=
    !hasOddPasses && (!isOnesided && doesTemporaryShapeMatchOutput)
  let input : ResourceDesc := ⟨inputResource, reshapedInputSize, reshapedInputSize.packedStrides⟩
  let output : ResourceDesc := ⟨outputResource, reshapedOutputSize, reshapedOutputSize.packedStrides⟩
  let temporary (resource : ℕ) : ResourceDesc :=
    ⟨resource, temporarySize, temporarySize.packedStrides⟩
  let front :=
    if oscillateBetweenTwoTemporaries then [temporary next, temporary (next + 1)]
    else if oscillateFirstTemporaryThenOutput then [temporary next]
    else []
  let back := if oscillateFirstOutputThenTemporary then [temporary next] else []
  let loopRange : LoopRange :=
    if oscillateFirstTemporaryThenOutput then ⟨1, 2, numberOfPasses + 1⟩
    else if oscillateFirstOutputThenTemporary then ⟨1, 2, numberOfPasses + 1⟩
    else if oscillateBetweenTwoTemporaries then ⟨1, 2, numberOfPasses⟩
    else if writeToOutput then ⟨0, 1, numberOfPasses⟩
    else ⟨0, 0, 0⟩
  (⟨window, input :: front ++ output :: back, loopRange, 1 + front.length, numberOfPasses⟩,
    next + front.length + back.length)

/-- No window. -/
def noWindow : WindowDesc :=
  ⟨none, ⟨0, 0, 0, 0⟩, ⟨0, 0, 0, 0⟩⟩

/-- `BluesteinZChirpParameters` -/
structure BluesteinZChirpParameters where
  zChirp : ResourceDesc
  aFFT : ResourceDesc
  b : ResourceDesc
  bFFT : ResourceDesc
  aFFTParams : StockhamParameters
  aFFTInverseParams : StockhamParameters
  bFFTParams : StockhamParameters

inductive DFTParameters
  | stockham (params : StockhamParameters)
  | bluesteinZChirp (params : BluesteinZChirpParameters)

/-- The branch of `PrepareDFT` for a length that is no power of two. -/
def prepareBluestein (isOnesided : Bool) (inputResource : ℕ) (inputDims : List ℕ)
    (outputResource : ℕ) (outputDims : List ℕ) (dftLength axis M next : ℕ) :
    BluesteinZChirpParameters :=
  let zChirp : ResourceDesc :=
    ⟨next, ⟨1, 1, dftLength, 2⟩, ⟨u32 (dftLength * 2), u32 (dftLength * 2), 2, 1⟩⟩
  let aFFTSizes := { getReshapedDimensions inputDims axis with axis := M, complex := 2 }
  let aFFT : ResourceDesc := ⟨next + 1, aFFTSizes, aFFTSizes.packedStrides⟩
  let sizes : Dims4 := ⟨1, 1, M, 2⟩
  let strides : Dims4 := ⟨u32 (M * 2), u32 (M * 2), 2, 1⟩
  let b : ResourceDesc := ⟨next + 2, sizes, strides⟩
  let bFFT : ResourceDesc := ⟨next + 3, sizes, strides⟩
  let (aFFTParams, next') := prepareStockhamFFTParams isOnesided inputResource inputDims
    aFFT.resource aFFT.sizes.toList M axis 1 ⟨some zChirp.resource, zChirp.sizes, zChirp.strides⟩
    (next + 4)
  let (aFFTInverseParams, next'') := prepareStockhamFFTParams isOnesided aFFT.resource
    aFFT.sizes.toList outputResource outputDims M 1 axis
    ⟨some bFFT.resource, bFFT.sizes, bFFT.strides⟩ next'
  let (bFFTParams, _) := prepareStockhamFFTParams isOnesided b.resource b.sizes.toList bFFT.resource
    bFFT.sizes.toList M 2 2 noWindow next''
  { zChirp, aFFT, b, bFFT, aFFTParams, aFFTInverseParams, bFFTParams }

/-- `PrepareDFT` -/
def prepareDFT (isOnesided : Bool) (inputResource : ℕ) (inputDims : List ℕ) (outputResource : ℕ)
    (outputDims : List ℕ) (dftLength axis next : ℕ) : Option DFTParameters :=
  if isPowerOfTwo dftLength then
    some (.stockham (prepareStockhamFFTParams isOnesided inputResource inputDims outputResource
      outputDims dftLength axis axis noWindow next).1)
  else do
    let M ← nextPowerOf2 (u32 (2 * dftLength + (2 ^ 32 - 1)))
    some (.bluesteinZChirp (prepareBluestein isOnesided inputResource inputDims outputResource
      outputDims dftLength axis M next))

/-! ## The chirp-z transform -/

/-- `CalculateChirp` of `bluestein_chirp.hlsl` -/
noncomputable def calculateZChirp (n N : ℕ) (isInverse : Bool) : ℂ :=
  rotation ((if isInverse then 1 else -1) * Real.pi * n * n / N)

/-- `float2(x, -y)` -/
noncomputable def conj (v : ℂ) : ℂ :=
  ⟨v.re, -v.im⟩

/-- What `BluesteinZChirp` of the shader stores in the second resource. -/
noncomputable def reflectedChirp (dftLength M : ℕ) (isInverse : Bool) (n : ℕ) : ℂ :=
  if n < dftLength then conj (calculateZChirp n dftLength isInverse)
  else if M - dftLength + 1 ≤ n ∧ n < M then conj (calculateZChirp (M - n) dftLength isInverse)
  else 0

/-- The shader `bluestein_chirp.hlsl`, for the thread of an element. -/
noncomputable def chirpThread (dftLength : ℕ) (isInverse : Bool) (zChirp b n : ℕ) (mem : Memory) :
    Memory :=
  let M := (nextPowerOf2 (u32 (2 * dftLength + (2 ^ 32 - 1)))).getD 0
  let mem :=
    if n < dftLength then
      Function.update mem zChirp (store 2 1 n (calculateZChirp n dftLength isInverse) (mem zChirp))
    else mem
  Function.update mem b (store 2 1 n (reflectedChirp dftLength M isInverse n) (mem b))

/-- `BluesteinZChirp` -/
noncomputable def bluesteinZChirp (schedule : Schedule) (params : BluesteinZChirpParameters)
    (dftLength : ℕ) (isInverse : Bool) (g : Gpu) : Option Gpu := do
  let M := params.aFFT.sizes.axis
  let g := dispatch schedule (params.b.sizes.elementCount / params.b.sizes.complex)
    (chirpThread dftLength isInverse params.zChirp.resource params.b.resource) g
  let g ← stockhamFFT schedule params.bFFTParams M false 0 1 g
  let g ← stockhamFFT schedule params.aFFTParams M false 0 1 g
  let chirpLength : ℝ := params.zChirp.sizes.after * if isInverse then 1 else -1
  let scale : ℝ := if isInverse then 1 / dftLength else 1
  stockhamFFT schedule params.aFFTInverseParams M true chirpLength scale g

/-- The second `Compute`, with resources from `next` on not in use. There is no result when a
resource is read past the end of a list or a loop does not end. -/
noncomputable def compute (isOnesided isInverse : Bool) (schedule : Schedule) (inputResource : ℕ)
    (inputDims : List ℕ) (outputResource : ℕ) (outputDims : List ℕ) (dftLength axis next : ℕ)
    (g : Gpu) : Option Gpu := do
  match ← prepareDFT isOnesided inputResource inputDims outputResource outputDims dftLength axis
      next with
  | .stockham params => stockhamFFT schedule params dftLength isInverse 0 1 g
  | .bluesteinZChirp params => bluesteinZChirp schedule params dftLength isInverse g

/-! ## The node -/

/-- The attributes of a node, its axis (an attribute or the third input), and its second input. -/
structure DftNode where
  isOnesided : Bool
  isInverse : Bool
  axis : ℤ
  dftLength : Option ℤ

/-- `HandleNegativeAxis`, with the cast to 32 bits of its callers. -/
def handleNegativeAxis (axis : ℤ) (dimCount : ℕ) : Option ℕ :=
  let signedOnnxAxis := axis.bmod (2 ^ 32)
  let signedOnnxAxis := if signedOnnxAxis < 0 then signedOnnxAxis + dimCount else signedOnnxAxis
  if 0 ≤ signedOnnxAxis ∧ signedOnnxAxis < dimCount then some signedOnnxAxis.toNat else none

/-- The length of the transform: `gsl::narrow` of the second input, or the length on the axis. -/
def DftNode.length (node : DftNode) (inputDims : List ℕ) (axis : ℕ) : Option ℕ :=
  match node.dftLength with
  | some length => if 0 ≤ length ∧ length < 2 ^ 32 then some length.toNat else none
  | none => inputDims[axis]?

/-- `InferOutputShapes` of `PluginDFTShapeInferrer` -/
def DftNode.inferOutputShapes (node : DftNode) (inputDims : List ℕ) : Option (List ℕ) := do
  if node.isInverse ∧ node.isOnesided then none
  let axisIdx ← handleNegativeAxis node.axis inputDims.length
  let outputDims := inputDims.set (inputDims.length - 1) 2
  let dftLength ← node.length inputDims axisIdx
  let outputDims := outputDims.set axisIdx dftLength
  if node.isOnesided then some (outputDims.set axisIdx (dftLength / 2 + 1)) else some outputDims

/-- The first `Compute` -/
noncomputable def DftNode.compute (node : DftNode) (schedule : Schedule) (inputResource : ℕ)
    (inputDims : List ℕ) (outputResource : ℕ) (outputDims : List ℕ) (next : ℕ) (g : Gpu) :
    Option Gpu := do
  let axis ← handleNegativeAxis node.axis inputDims.length
  if inputDims.length ≠ outputDims.length then none
  let dftLength ← node.length inputDims axis
  Dft.compute node.isOnesided node.isInverse schedule inputResource inputDims outputResource
    outputDims dftLength axis next g

/-! ## The sizes of a resource -/

theorem u32_mul_u32 (a b : ℕ) : u32 (u32 a * b) = u32 (a * b) :=
  Nat.mod_mul_mod a b _

theorem mulAt_mulAt (sizes : Dims4) (i a b : ℕ) :
    (sizes.mulAt i a).mulAt i b = sizes.mulAt i (a * b) := by
  unfold Dims4.mulAt
  split <;> simp only [u32_mul_u32, Nat.mul_assoc]

/-- The dimensions off the axis are multiplied together. -/
theorem foldl_reshapeStep {axis : ℕ} (l : List ℕ) (start : ℕ)
    (h : ∀ i, start ≤ i → i < start + l.length → i ≠ axis ∧ i ≠ axis + 1)
    (sizes : Dims4) (i a : ℕ) :
    (l.zipIdx start).foldl (reshapeStep axis) (sizes.mulAt i a, i) =
      (sizes.mulAt i (a * l.prod), i) := by
  induction l generalizing start a with
  | nil => rw [List.prod_nil, Nat.mul_one]; rfl
  | cons d l ih =>
    obtain ⟨hne, hne'⟩ := h start le_rfl (by simp)
    have hstep : reshapeStep axis (sizes.mulAt i a, i) (d, start) = (sizes.mulAt i (a * d), i) := by
      simp only [reshapeStep, hne, hne', or_self, if_false, mulAt_mulAt]
    rw [List.zipIdx_cons, List.foldl_cons, hstep, ih (start + 1) fun j hj hj' =>
      h j (by omega) (by rw [List.length_cons]; omega), List.prod_cons, Nat.mul_assoc]

/-- A tensor with its dimensions before the axis and behind it. -/
theorem getReshapedDimensions_eq (outer inner : List ℕ) (n c : ℕ) :
    getReshapedDimensions (outer ++ n :: (inner ++ [c])) outer.length =
      ⟨u32 outer.prod, u32 n, u32 inner.prod, 1⟩ := by
  have hdrop : (outer ++ n :: (inner ++ [c])).dropLast = outer ++ (n :: inner) := by
    rw [← List.cons_append, ← List.append_assoc, List.dropLast_concat]
  have hstart : (⟨1, 1, 1, 1⟩ : Dims4) = Dims4.mulAt ⟨1, 1, 1, 1⟩ 0 1 := rfl
  rw [getReshapedDimensions, hdrop, List.zipIdx_append, List.foldl_append, hstart,
    foldl_reshapeStep outer 0 (fun i _ hi => by omega), Nat.one_mul, Nat.zero_add,
    List.zipIdx_cons, List.foldl_cons]
  set before := Dims4.mulAt ⟨1, 1, 1, 1⟩ 0 outer.prod with hbefore
  have haxis : reshapeStep outer.length (before, 0) (n, outer.length) = (before.mulAt 1 n, 1) := by
    simp [reshapeStep]
  rw [haxis]
  cases inner with
  | nil => simp [hbefore, Dims4.mulAt, u32]
  | cons d inner =>
    have hafter : reshapeStep outer.length (before.mulAt 1 n, 1) (d, outer.length + 1) =
        ((before.mulAt 1 n).mulAt 2 d, 2) := by
      simp [reshapeStep]
    rw [List.zipIdx_cons, List.foldl_cons, hafter, foldl_reshapeStep inner _ fun i hi _ => by omega,
      List.prod_cons]
    simp only [hbefore, Dims4.mulAt, Nat.one_mul]

/-- The sizes of a resource of `PrepareStockhamFFTParams`. -/
theorem reshapedSizes_eq (outer : List ℕ) (n : ℕ) (inner : List ℕ) (c : ℕ) (hn : n < 2 ^ 32)
    (hbefore : outer.prod < 2 ^ 32) (hafter : inner.prod < 2 ^ 32) :
    { getReshapedDimensions (outer ++ n :: (inner ++ [c])) outer.length with
      complex := (outer ++ n :: (inner ++ [c])).getLastD 0 } =
      (⟨outer.prod, n, inner.prod, c⟩ : Dims4) := by
  have hlast : (outer ++ n :: (inner ++ [c])).getLastD 0 = c := by
    rw [← List.cons_append, ← List.append_assoc, List.getLastD_concat]
  rw [getReshapedDimensions_eq, hlast, u32_of_lt hn, u32_of_lt hbefore, u32_of_lt hafter]

/-! ## The resources of a loop -/

/-- Whose turn it is: the input, then `a` and `b` in turn, and the output in the end. -/
def turn (numberOfPasses : ℕ) (input a b output : ResourceDesc) (i : ℕ) : ResourceDesc :=
  if i = 0 then input
  else if i = numberOfPasses then output
  else if i % 2 = 1 then a
  else b

/-- Turns between resources of which no two in a row are the same. -/
theorem turn_apart {numberOfPasses : ℕ} {input a b output : ResourceDesc}
    (hpasses : 0 < numberOfPasses)
    (hinput : input.resource ≠ if numberOfPasses = 1 then output.resource else a.resource)
    (hturns : a.resource ≠ b.resource)
    (houtput : 1 < numberOfPasses →
      (if numberOfPasses % 2 = 0 then a.resource else b.resource) ≠ output.resource)
    {i : ℕ} (hi : i < numberOfPasses) :
    (turn numberOfPasses input a b output i).resource ≠
      (turn numberOfPasses input a b output (i + 1)).resource := by
  rcases Nat.eq_zero_or_pos i with rfl | hpos
  · by_cases hone : numberOfPasses = 1
    · subst hone
      simpa [turn] using hinput
    · rw [if_neg hone] at hinput
      simpa [turn, show 1 ≠ numberOfPasses from fun h => hone h.symm] using hinput
  · have hthis : turn numberOfPasses input a b output i = if i % 2 = 1 then a else b := by
      rw [turn, if_neg (by omega), if_neg (by omega)]
    have hnext : turn numberOfPasses input a b output (i + 1) =
        if i + 1 = numberOfPasses then output else if (i + 1) % 2 = 1 then a else b := by
      rw [turn, if_neg (by omega)]
    rw [hthis, hnext]
    rcases Nat.mod_two_eq_zero_or_one i with heven | hodd
    · rw [if_neg (by omega)]
      split
      next hlast =>
        have hne := houtput (by omega)
        rwa [if_neg (by omega)] at hne
      next =>
        rw [if_pos (by omega)]
        exact hturns.symm
    · rw [if_pos hodd]
      split
      next hlast =>
        have hne := houtput (by omega)
        rwa [if_pos (by omega)] at hne
      next =>
        rw [if_neg (by omega)]
        exact hturns

theorem getElem?_calculateIndex {input a b : ResourceDesc} {rest : List ResourceDesc} {last i : ℕ}
    (hi : i ≤ last) (hlast : 0 < last) :
    (input :: a :: b :: rest)[(LoopRange.mk 1 2 last).calculateIndex i]? =
      if i = 0 then some input
      else if i = last then rest[0]?
      else if i % 2 = 1 then some a else some b := by
  rw [LoopRange.calculateIndex]
  dsimp only
  split
  next hinner =>
    rw [if_neg (by omega), if_neg (by omega)]
    split
    next hodd => rw [show 1 + (i - 1) % (2 - 1 + 1) = 1 by omega]; rfl
    next heven => rw [show 1 + (i - 1) % (2 - 1 + 1) = 2 by omega]; rfl
  next hends =>
    split
    next heq =>
      rw [if_neg (by omega)]
      rfl
    next hne =>
      obtain rfl : i = 0 := by omega
      rfl

/-- What the parameters of a loop promise its passes. -/
structure Prepared (prepared : StockhamParameters × ℕ) (window : WindowDesc)
    (input output p next before n m after c : ℕ) : Prop where
  window : prepared.1.window = window
  numberOfPasses : prepared.1.numberOfPasses = p
  later : next ≤ prepared.2
  resources : ∃ rs, ∃ h : PassResources prepared.1 rs before m after,
    rs 0 = ⟨input, ⟨before, n, after, c⟩, Dims4.packedStrides ⟨before, n, after, c⟩⟩ ∧
    (rs p).resource = output ∧
    ∀ r, h.Written r → r = output ∨ (next ≤ r ∧ r < prepared.2)

section

variable {isOnesided : Bool} {input output n m c p next before after inAxis outAxis : ℕ}
  {inputDims outputDims : List ℕ} {window : WindowDesc}

/-- A loop whose list and range give the turns. -/
theorem prepared_of_turns {list : List ResourceDesc} {range : LoopRange} {a b : ResourceDesc}
    {outputIndex next' : ℕ}
    (hlisted : ∀ i ≤ p, list[range.calculateIndex i]? = some (turn p
      ⟨input, ⟨before, n, after, c⟩, Dims4.packedStrides ⟨before, n, after, c⟩⟩ a b
      ⟨output, ⟨before, m, after, 2⟩, Dims4.packedStrides ⟨before, m, after, 2⟩⟩ i))
    (ha : 1 < p → a.sizes = ⟨before, 2 ^ p, after, 2⟩ ∧ a.strides = a.sizes.packedStrides)
    (hb : 1 < p → b.sizes = ⟨before, 2 ^ p, after, 2⟩ ∧ b.strides = b.sizes.packedStrides)
    (hwritten : ∀ d ∈ [a, b], d.resource = output ∨ (next ≤ d.resource ∧ d.resource < next'))
    (hturns : a.resource ≠ b.resource)
    (hend : 1 < p → (if p % 2 = 0 then a.resource else b.resource) ≠ output)
    (hp : 0 < p) (hm : m ≤ 2 ^ p) (hfits : before * 2 ^ p * after * 2 < 2 ^ 32)
    (hne : input ≠ output) (hinput : input < next) (hnext : next ≤ next')
    (hwindow : ∀ w, window.resource = some w → w < next ∧ w ≠ output) :
    Prepared (⟨window, list, range, outputIndex, p⟩, next') window input output p next before n m
      after c := by
  set inputDesc : ResourceDesc :=
    ⟨input, ⟨before, n, after, c⟩, Dims4.packedStrides ⟨before, n, after, c⟩⟩
  set outputDesc : ResourceDesc :=
    ⟨output, ⟨before, m, after, 2⟩, Dims4.packedStrides ⟨before, m, after, 2⟩⟩
  have hinside {d : ResourceDesc} (hd : d ∈ [a, b]) (r : ℕ) (hr : r < next) (hro : r ≠ output) :
      r ≠ d.resource := by
    rcases hwritten d hd with he | hd
    · rwa [he]
    · omega
  have hfirst (r : ℕ) (hr : r < next) (hro : r ≠ output) :
      r ≠ (turn p inputDesc a b outputDesc 1).resource := by
    rw [turn, if_neg one_ne_zero]
    split
    · exact hro
    · exact hinside List.mem_cons_self r hr hro
  have hapart (i : ℕ) (hi : i < p) : (turn p inputDesc a b outputDesc i).resource ≠
      (turn p inputDesc a b outputDesc (i + 1)).resource := by
    refine turn_apart hp ?_ hturns hend hi
    split
    · exact hne
    · exact hinside List.mem_cons_self _ hinput hne
  have hinner (i : ℕ) (hi : 0 < i) (hip : i < p) :
      (turn p inputDesc a b outputDesc i).sizes = ⟨before, 2 ^ p, after, 2⟩ ∧
        (turn p inputDesc a b outputDesc i).strides =
          (turn p inputDesc a b outputDesc i).sizes.packedStrides := by
    rw [turn, if_neg hi.ne', if_neg hip.ne]
    split
    · exact ha (by omega)
    · exact hb (by omega)
  have hlast : turn p inputDesc a b outputDesc p = outputDesc := by
    rw [turn, if_neg hp.ne', if_pos rfl]
  refine ⟨rfl, rfl, hnext, turn p inputDesc a b outputDesc, ?_, by rw [turn, if_pos rfl], by
    rw [hlast], ?_⟩
  · refine ⟨hp, hlisted, hapart, fun i hi hip => (hinner i hi hip).1, by rw [hlast], ?_, hm, hfits,
      ?_⟩
    · intro i hi hip
      rcases hip.lt_or_eq with hlt | heq
      · exact (hinner i hi hlt).2
      · rw [heq, hlast]
    · intro w hw
      obtain ⟨hlt, hne⟩ := hwindow w hw
      exact hfirst w hlt hne
  · rintro r ⟨i, hi, hip, rfl⟩
    rw [turn, if_neg hi.ne']
    split
    · exact .inl rfl
    · split
      · exact hwritten a (by simp)
      · exact hwritten b (by simp)

/-- The loop ends in the output, and reads nothing that it has written but its turns. -/
theorem prepareStockhamFFTParams_spec
    (hin : { getReshapedDimensions inputDims inAxis with complex := inputDims.getLastD 0 } =
      (⟨before, n, after, c⟩ : Dims4))
    (hout : { getReshapedDimensions outputDims outAxis with complex := outputDims.getLastD 0 } =
      (⟨before, m, after, 2⟩ : Dims4))
    (hp : 0 < p) (hone : p = 1 → isOnesided = false ∧ m = 2) (hm : m ≤ 2 ^ p)
    (hfits : before * 2 ^ p * after * 2 < 2 ^ 32) (hne : input ≠ output) (hinput : input < next)
    (houtput : output < next)
    (hwindow : ∀ w, window.resource = some w → w < next ∧ w ≠ output) :
    Prepared (prepareStockhamFFTParams isOnesided input inputDims output outputDims (2 ^ p) inAxis
      outAxis window next) window input output p next before n m after c := by
  have hlog : Nat.log2 (2 ^ p) = p := Nat.log2_two_pow
  simp only [Dims4.mk.injEq] at hin hout
  obtain ⟨hbefore, haxis, hafter, hcomplex⟩ := hin
  obtain ⟨hbefore', haxis', hafter', hcomplex'⟩ := hout
  simp only [prepareStockhamFFTParams, hbefore, haxis, hafter, hcomplex, hbefore', haxis', hafter',
    hcomplex', hlog, Dims4.mk.injEq, true_and, and_true]
  let temporary (resource : ℕ) : ResourceDesc :=
    ⟨resource, ⟨before, 2 ^ p, after, 2⟩, Dims4.packedStrides ⟨before, 2 ^ p, after, 2⟩⟩
  by_cases hdirect : isOnesided = false ∧ 2 ^ p = m
  · obtain ⟨rfl, rfl⟩ := hdirect
    rcases Nat.mod_two_eq_zero_or_one p with heven | hodd
    · have hmany : (p == 1) = false := beq_false_of_ne (by omega)
      simp only [hmany, heven, decide_true, Bool.not_true, Bool.or_false, Bool.and_false,
        Bool.and_true, if_true, Bool.false_eq_true, if_false, Bool.not_false, Nat.reduceBEq]
      refine prepared_of_turns (a := temporary next) (b := temporary output) (fun i hi => ?_)
        (fun _ => ⟨rfl, rfl⟩) (fun _ => ⟨rfl, rfl⟩) (by simp [temporary]) houtput.ne' (fun _ => ?_)
        hp hm hfits hne hinput (by simp) hwindow
      · refine (getElem?_calculateIndex (by omega) (by omega)).trans ?_
        rw [turn]
        split
        · rfl
        · rw [if_neg (by omega)]
          rcases hi.eq_or_lt with hip | hip
          · rw [if_neg (by omega), if_pos hip]
          · rw [if_neg hip.ne, apply_ite some]
      · rw [if_pos heven]
        exact houtput.ne'
    · simp only [hodd, decide_true, Bool.not_true, Bool.or_false, Bool.and_false,
        Bool.and_true, if_true, Bool.false_eq_true, if_false, Bool.not_false, beq_self_eq_true]
      refine prepared_of_turns (a := temporary output) (b := temporary next) (fun i hi => ?_)
        (fun _ => ⟨rfl, rfl⟩) (fun _ => ⟨rfl, rfl⟩) (by simp [temporary]) houtput.ne (fun _ => ?_)
        hp hm hfits hne hinput (by simp) hwindow
      · refine (getElem?_calculateIndex (by omega) (by omega)).trans ?_
        rw [turn]
        split
        · rfl
        · rw [if_neg (by omega)]
          rcases hi.eq_or_lt with hip | hip
          · rw [if_pos (by omega), if_pos hip]
          · rw [if_neg hip.ne, apply_ite some]
      · rw [if_neg (by omega)]
        exact houtput.ne'
  · have hmany : p ≠ 1 := by
      rintro rfl
      obtain ⟨hboth, rfl⟩ := hone rfl
      exact hdirect ⟨hboth, rfl⟩
    have hapart : (isOnesided || !decide (2 ^ p = m)) = true := by
      rw [Bool.or_eq_true, Bool.not_eq_true', decide_eq_false_iff_not]
      cases isOnesided with
      | true => exact .inl rfl
      | false => exact .inr fun h => hdirect ⟨rfl, h⟩
    have hdirect' : (!isOnesided && decide (2 ^ p = m)) = false := by
      rw [← Bool.not_eq_true', Bool.not_and, Bool.not_not, hapart]
    simp only [beq_false_of_ne hmany, hapart, hdirect', Bool.not_false, Bool.and_self,
      Bool.and_false, if_true, Bool.false_eq_true, if_false]
    refine prepared_of_turns (a := temporary next) (b := temporary (next + 1)) (fun i hi => ?_)
      (fun _ => ⟨rfl, rfl⟩) (fun _ => ⟨rfl, rfl⟩) (by simp [temporary]) (Nat.lt_succ_self next).ne
      (fun _ => ?_) hp hm hfits hne hinput (by simp) hwindow
    · refine (getElem?_calculateIndex hi hp).trans ?_
      rw [turn, apply_ite some, apply_ite some, apply_ite some]
      rfl
    · split
      · exact houtput.ne'
      · exact (Nat.lt_succ_of_lt houtput).ne'

/-! ## What a loop reads -/

/-- Element `i` of a packed tensor of real (`c` is 1) or of complex numbers. -/
def complexAt (c : ℕ) (buf : ℕ → ℝ) (i : ℕ) : ℂ :=
  ⟨buf (i * c), if c = 2 then buf (i * c + 1) else 0⟩

/-- The signal along the axis, with zeros beyond its end. -/
noncomputable def signal (n after c : ℕ) (buf : ℕ → ℝ) (x z y : ℕ) : ℂ :=
  if y < n then complexAt c buf (place n after x y z) else 0

/-- The weight of an entry of the signal. -/
noncomputable def weight (window : WindowDesc) (mem : Memory) (y : ℕ) : ℂ :=
  match window.resource with
  | some w => if y < window.sizes.after then pairAt (mem w) y else 1
  | none => 1

/-- A window of packed complex numbers. -/
structure WindowDesc.Pairs (window : WindowDesc) : Prop where
  complex : window.resource.isSome → window.sizes.complex = 2
  strides : window.resource.isSome → window.strides.after = 2 ∧ window.strides.complex = 1
  fits : window.resource.isSome → 2 * window.sizes.after < 2 ^ 32

theorem firstRead_eq {params : StockhamParameters} {rs : ℕ → ResourceDesc}
    (hinput : rs 0 = ⟨input, ⟨before, n, after, c⟩, Dims4.packedStrides ⟨before, n, after, c⟩⟩)
    (hfits : before * n * after * c < 2 ^ 32) (hwindow : params.window.Pairs) (mem : Memory)
    {x y z : ℕ} (hx : x < before) (hz : z < after) :
    firstRead params rs mem x z y =
      signal n after c (mem input) x z y * weight params.window mem y := by
  rw [firstRead, readSourceValue]
  simp only [passConstants, hinput, true_and, decide_eq_true_eq]
  congr 1
  · rw [signal]
    split
    next hy =>
      have hplane : n * after * c < 2 ^ 32 := by
        refine lt_of_le_of_lt ?_ hfits
        rw [Nat.mul_assoc before, Nat.mul_assoc before]
        exact Nat.le_mul_of_pos_left _ (by omega)
      rw [packedStrides_eq hplane (Nat.zero_lt_of_lt hy)]
      have haddress : x * (n * after * c) + y * (after * c) + z * c = place n after x y z * c := by
        rw [place]
        ring
      have hlt : (place n after x y z + 1) * c ≤ before * n * after * c :=
        Nat.mul_le_mul_right _ (place_lt hx hy hz)
      rw [Nat.succ_mul] at hlt
      simp only [haddress]
      rw [u32_of_lt (by omega), complexAt]
      refine Complex.ext rfl ?_
      split
      next hpair => rw [u32_of_lt (by omega)]
      next => rfl
    next => rfl
  · rw [weight]
    cases hw : params.window.resource with
    | none => simp
    | some w =>
      have hsome : params.window.resource.isSome := by rw [hw]; rfl
      simp only [Option.isSome_some, true_and, Option.getD_some]
      split
      next hy =>
        have hfit := hwindow.fits hsome
        rw [(hwindow.strides hsome).1, (hwindow.strides hsome).2, if_pos (hwindow.complex hsome),
          Nat.mul_comm y, u32_of_lt (by omega), u32_of_lt (by omega), pairAt]
      next => rfl

/-- A loop that was prepared. -/
theorem Prepared.run {prepared : StockhamParameters × ℕ}
    (h : Prepared prepared window input output p next before n m after c)
    (hfits : before * n * after * c < 2 ^ 32) (hwindow : window.Pairs) (schedule : Schedule)
    (isInverse : Bool) (chirpLength scale : ℝ) (g : Gpu) :
    ∃ g', stockhamFFT schedule prepared.1 (2 ^ p) isInverse chirpLength scale g = some g' ∧
      (∀ r ≠ output, r < next ∨ prepared.2 ≤ r → g'.mem r = g.mem r) ∧
      ∀ x < before, ∀ k < m, ∀ z < after,
        pairAt (g'.mem output) (place m after x k z) =
          (if isInverse then scale / (2 ^ p : ℕ) else 1 : ℝ) *
          dft (twiddle isInverse) (2 ^ p)
            (fun y => signal n after c (g.mem input) x z y * weight window g.mem y) k *
          if chirpLength ≠ 0 then calculateChirp k chirpLength else 1 := by
  obtain ⟨rfl, rfl, -, rs, hrs, hinput, rfl, hwritten⟩ := h
  obtain ⟨g', hrun, hframe, hvalue⟩ := stockhamFFT_spec hrs schedule isInverse chirpLength scale g
  refine ⟨g', hrun, fun r hne hr => hframe r fun hw => ?_, fun x hx k hk z hz => ?_⟩
  · rcases hwritten r hw with he | hin
    · exact hne he
    · omega
  · rw [hvalue x hx k hk z hz,
      dft_congr _ (fun y _ => firstRead_eq hinput hfits hwindow g.mem hx hz)]

theorem noWindow_pairs : noWindow.Pairs :=
  ⟨nofun, nofun, nofun⟩

end

/-! ## Lengths that are powers of two -/

theorem isPowerOfTwo_iff (x : ℕ) : isPowerOfTwo x ↔ ∃ p, x = 2 ^ p := by
  rw [isPowerOfTwo, decide_eq_true_eq]
  exact Nat.ne_zero_and_sub_one_eq_zero_iff_isPowerOfTwo

/-- The dimensions of a tensor: before the axis, on it, behind it, and the last. -/
def tensorDims (outer : List ℕ) (n : ℕ) (inner : List ℕ) (c : ℕ) : List ℕ :=
  outer ++ n :: (inner ++ [c])

theorem length_tensorDims (outer : List ℕ) (n : ℕ) (inner : List ℕ) (c : ℕ) :
    (tensorDims outer n inner c).length = outer.length + inner.length + 2 := by
  simp [tensorDims]
  omega

/-- The length of the output on the axis. -/
def DftNode.outputLength (node : DftNode) (L : ℕ) : ℕ :=
  if node.isOnesided then L / 2 + 1 else L

/-- The output is the transform of the signals along the axis, cut or filled up with zeros to the
length `L`. -/
def DftNode.Transforms (node : DftNode) (outer : List ℕ) (n : ℕ) (inner : List ℕ) (c L : ℕ)
    (src dst : ℕ → ℝ) : Prop :=
  ∀ x < outer.prod, ∀ k < node.outputLength L, ∀ z < inner.prod,
    pairAt dst (place (node.outputLength L) inner.prod x k z) =
      (if node.isInverse then 1 / L else 1 : ℝ) *
        dft (twiddle node.isInverse) L (signal n inner.prod c src x z) k

/-- A node whose tensors and resources fit: `p` is the length of the passes. -/
structure DftNode.Fits (node : DftNode) (outer : List ℕ) (n : ℕ) (inner : List ℕ) (c L p : ℕ)
    (outputDims : List ℕ) (input output next : ℕ) : Prop where
  axis : handleNegativeAxis node.axis (outer.length + inner.length + 2) = some outer.length
  length : node.length (tensorDims outer n inner c) outer.length = some L
  shape : node.inferOutputShapes (tensorDims outer n inner c) = some outputDims
  positive : 0 < outer.prod ∧ 0 < inner.prod
  complex : c = 1 ∨ c = 2
  inputFits : outer.prod * n * inner.prod * c < 2 ^ 32
  passesFit : outer.prod * 2 ^ p * inner.prod * 2 < 2 ^ 32
  resources : input ≠ output ∧ input < next ∧ output < next

section

variable {node : DftNode} {outer inner outputDims : List ℕ} {n c L p input output next : ℕ}

theorem DftNode.Fits.outputDims_eq
    (h : node.Fits outer n inner c L p outputDims input output next) :
    outputDims = tensorDims outer (node.outputLength L) inner 2 := by
  have hshape := h.shape
  have hset (v w : ℕ) : (tensorDims outer v inner 2).set outer.length w =
      tensorDims outer w inner 2 := by
    simp [tensorDims]
  have hlast : (tensorDims outer n inner c).set (outer.length + inner.length + 2 - 1) 2 =
      tensorDims outer n inner 2 := by
    simp [tensorDims, Nat.add_assoc]
  rw [DftNode.inferOutputShapes, length_tensorDims, h.axis] at hshape
  simp only [Option.bind_eq_bind, Option.bind_some, h.length, hlast, hset] at hshape
  rw [DftNode.outputLength]
  split at hshape
  · cases hshape
  · split at hshape
    next hone => rw [if_pos hone]; exact (Option.some.inj hshape).symm
    next htwo => rw [if_neg htwo]; exact (Option.some.inj hshape).symm

theorem DftNode.Fits.bounds (h : node.Fits outer n inner c L p outputDims input output next) :
    outer.prod < 2 ^ 32 ∧ inner.prod < 2 ^ 32 ∧ n < 2 ^ 32 := by
  obtain ⟨houter, hinner⟩ := h.positive
  have hp : 0 < 2 ^ p := Nat.two_pow_pos p
  have hpasses := h.passesFit
  have hinput := h.inputFits
  have hc : 0 < c := by rcases h.complex with rfl | rfl <;> decide
  refine ⟨?_, ?_, ?_⟩
  · refine lt_of_le_of_lt ?_ hpasses
    rw [Nat.mul_assoc, Nat.mul_assoc]
    exact Nat.le_mul_of_pos_right _ (by positivity)
  · refine lt_of_le_of_lt ?_ hpasses
    rw [Nat.mul_right_comm]
    exact Nat.le_mul_of_pos_left _ (by positivity)
  · refine lt_of_le_of_lt ?_ hinput
    rw [Nat.mul_assoc, Nat.mul_comm outer.prod, Nat.mul_assoc]
    exact Nat.le_mul_of_pos_right _ (by positivity)

/-- The node runs the second `Compute`. -/
theorem DftNode.Fits.compute_eq
    (h : node.Fits outer n inner c L p outputDims input output next) (schedule : Schedule)
    (g : Gpu) :
    node.compute schedule input (tensorDims outer n inner c) output outputDims next g =
      Dft.compute node.isOnesided node.isInverse schedule input (tensorDims outer n inner c) output
        (tensorDims outer (node.outputLength L) inner 2) L outer.length next g := by
  rw [DftNode.compute, h.outputDims_eq, length_tensorDims, length_tensorDims, h.axis]
  simp only [Option.bind_eq_bind, Option.bind_some, h.length, ne_eq, not_true_eq_false, if_false]

/-- The loop of a node whose length is a power of two. -/
theorem DftNode.Fits.prepared
    (h : node.Fits outer n inner c (2 ^ p) p outputDims input output next) (hp : 0 < p)
    (hone : p = 1 → node.isOnesided = false) :
    Prepared (prepareStockhamFFTParams node.isOnesided input (tensorDims outer n inner c) output
        (tensorDims outer (node.outputLength (2 ^ p)) inner 2) (2 ^ p) outer.length outer.length
        noWindow next)
      noWindow input output p next outer.prod n (node.outputLength (2 ^ p)) inner.prod c := by
  obtain ⟨houter, hinner, hn⟩ := h.bounds
  obtain ⟨hne, hinput, houtput⟩ := h.resources
  have hm : node.outputLength (2 ^ p) ≤ 2 ^ p := by
    have htwo : 2 ^ 1 ≤ 2 ^ p := Nat.pow_le_pow_right two_pos hp
    rw [DftNode.outputLength]
    split <;> omega
  have hmfits : node.outputLength (2 ^ p) < 2 ^ 32 := by
    refine hm.trans_lt (lt_of_le_of_lt ?_ h.passesFit)
    obtain ⟨hpos, hpos'⟩ := h.positive
    rw [Nat.mul_comm outer.prod, Nat.mul_assoc, Nat.mul_assoc]
    exact Nat.le_mul_of_pos_right _ (by positivity)
  refine prepareStockhamFFTParams_spec (reshapedSizes_eq outer n inner c hn houter hinner)
    (reshapedSizes_eq outer _ inner 2 hmfits houter hinner) hp (fun h1 => ⟨hone h1, ?_⟩) hm
    h.passesFit hne hinput houtput nofun
  rw [DftNode.outputLength, hone h1, h1]
  rfl

/-- The threads in the order of their dispatch. -/
def Schedule.inOrder : Schedule :=
  ⟨fun _ l => l, fun _ l => .refl l⟩

/-- No pass runs for the length 1. -/
theorem stockhamFFT_one (isOnesided isInverse : Bool) (inputDims outputDims : List ℕ)
    (inAxis outAxis : ℕ) (window : WindowDesc) (schedule : Schedule) (chirpLength scale : ℝ)
    (g : Gpu) :
    stockhamFFT schedule (prepareStockhamFFTParams isOnesided input inputDims output outputDims 1
      inAxis outAxis window next).1 1 isInverse chirpLength scale g = some g :=
  rfl

/-- One pass from the input to the output would need a third resource. -/
theorem stockhamFFT_half (isInverse : Bool) (inputDims outputDims : List ℕ)
    (inAxis outAxis : ℕ) (window : WindowDesc) (schedule : Schedule) (chirpLength scale : ℝ)
    (g : Gpu) :
    stockhamFFT schedule (prepareStockhamFFTParams true input inputDims output outputDims 2
      inAxis outAxis window next).1 2 isInverse chirpLength scale g = none := by
  have hlog : Nat.log2 2 = 1 := by decide
  simp [stockhamFFT, prepareStockhamFFTParams, hlog, stockhamPass, LoopRange.calculateIndex]

/-- Nothing reaches the output: what it holds before is not the transform of zeros. -/
theorem not_transforms_ones (node : DftNode) {src dst : ℕ → ℝ} (hsrc : ∀ i, src i = 0)
    (hdst : ∀ i, dst i = 1) (hpos : 0 < outer.prod ∧ 0 < inner.prod)
    (hlength : 0 < node.outputLength L) : ¬ node.Transforms outer n inner c L src dst := by
  intro h
  have hzero := h 0 hpos.1 0 hlength 0 hpos.2
  have hsignal : signal n inner.prod c src 0 0 = fun _ => 0 := by
    funext y
    rw [signal, complexAt]
    simp only [hsrc, ite_self]
    split <;> rfl
  rw [hsignal, dft] at hzero
  simp only [zero_mul, Finset.sum_const_zero, mul_zero] at hzero
  have hre := congrArg Complex.re hzero
  rw [pairAt, hdst] at hre
  exact one_ne_zero hre

/-- The passes of a length that is a power of two. -/
theorem DftNode.Fits.compute_power
    (h : node.Fits outer n inner c L p outputDims input output next) (hL : L = 2 ^ p)
    (schedule : Schedule) (g : Gpu) :
    node.compute schedule input (tensorDims outer n inner c) output outputDims next g =
      stockhamFFT schedule (prepareStockhamFFTParams node.isOnesided input
        (tensorDims outer n inner c) output (tensorDims outer (node.outputLength L) inner 2)
        L outer.length outer.length noWindow next).1 L node.isInverse 0 1 g := by
  have hpower : isPowerOfTwo L := (isPowerOfTwo_iff _).2 ⟨p, hL⟩
  rw [h.compute_eq]
  simp only [Dft.compute, prepareDFT, hpower, if_true, Option.bind_eq_bind, Option.bind_some]

theorem DftNode.Fits.transforms_power
    (h : node.Fits outer n inner c (2 ^ p) p outputDims input output next) (hp : 0 < p)
    (hhalf : ¬ (p = 1 ∧ node.isOnesided)) (schedule : Schedule) (g : Gpu) :
    ∃ g', node.compute schedule input (tensorDims outer n inner c) output outputDims next g =
        some g' ∧
      (∀ r < next, r ≠ output → g'.mem r = g.mem r) ∧
      node.Transforms outer n inner c (2 ^ p) (g.mem input) (g'.mem output) := by
  have hprepared := h.prepared hp fun h1 => by
    rw [← Bool.not_eq_true]
    exact fun hone => hhalf ⟨h1, hone⟩
  obtain ⟨g', hrun, hframe, hvalue⟩ :=
    hprepared.run h.inputFits noWindow_pairs schedule node.isInverse 0 1 g
  refine ⟨g', (h.compute_power rfl schedule g).trans hrun,
    fun r hr hne => hframe r hne (.inl hr), fun x hx k hk z hz => ?_⟩
  rw [hvalue x hx k hk z hz, if_neg (not_not.2 rfl), mul_one]
  congr 1
  exact dft_congr _ (fun y _ => mul_one _) k

/-- A node whose length is a power of two computes the transform, for any order of the threads and
any contents of the memory, but for the length 1 and one half of the length 2. It leaves the
resources in use as they are. -/
theorem stockham_iff (h : node.Fits outer n inner c (2 ^ p) p outputDims input output next) :
    (∀ schedule g, ∃ g',
      node.compute schedule input (tensorDims outer n inner c) output outputDims next g = some g' ∧
        (∀ r < next, r ≠ output → g'.mem r = g.mem r) ∧
        node.Transforms outer n inner c (2 ^ p) (g.mem input) (g'.mem output)) ↔
      p ≠ 0 ∧ ¬ (p = 1 ∧ node.isOnesided) := by
  constructor
  · intro hall
    refine ⟨?_, ?_⟩
    · rintro rfl
      obtain ⟨g', hrun, -, hvalue⟩ :=
        hall .inOrder ⟨fun r _ => if r = output then 1 else 0, 0⟩
      rw [h.compute_power rfl, pow_zero, stockhamFFT_one] at hrun
      obtain rfl := Option.some.inj hrun
      refine not_transforms_ones node (fun _ => if_neg h.resources.1) (fun _ => if_pos rfl)
        h.positive ?_ hvalue
      rw [DftNode.outputLength]
      split <;> decide
    · rintro ⟨rfl, hone⟩
      obtain ⟨g', hrun, -⟩ := hall .inOrder ⟨fun _ _ => 0, 0⟩
      rw [h.compute_power rfl, hone, pow_one, stockhamFFT_half] at hrun
      exact absurd hrun (by simp)
  · rintro ⟨hp, hhalf⟩ schedule g
    exact h.transforms_power (Nat.pos_of_ne_zero hp) hhalf schedule g

end

/-- A node over a tensor of four real numbers. -/
def fourPoints : DftNode :=
  ⟨false, true, -2, none⟩

theorem fourPoints_fits : fourPoints.Fits [] 4 [] 1 (2 ^ 2) 2 [4, 2] 0 1 2 where
  axis := by decide
  length := by decide
  shape := by decide
  positive := by decide
  complex := by decide
  inputFits := by decide
  passesFit := by decide
  resources := by decide

/-- Buffers that hold the numbers from 0 on. -/
noncomputable def countingBuffers : Gpu := ⟨fun _ i => i, 0⟩

theorem stockham_fourPoints :
    ∃ g', fourPoints.compute .inOrder 0 [4, 1] 1 [4, 2] 2 countingBuffers = some g' ∧
      (∀ r < 2, r ≠ 1 → g'.mem r = countingBuffers.mem r) ∧
      fourPoints.Transforms [] 4 [] 1 (2 ^ 2) (countingBuffers.mem 0) (g'.mem 1) :=
  (stockham_iff fourPoints_fits).2 (by decide) Schedule.inOrder countingBuffers

end AmdGpuEp.DirectML.Dft
