import AmdGpuEp.DirectML.FusionRules
import AmdGpuEp.Lib.Strided

/-!
# The tensor descriptors of a fused `MatMul`

`PrepareGemmShapes` of `fused_matmul_ep_fusion.cc` makes strided descriptors of
the two operands: it inserts a dimension at a rank of 1, moves the dimensions of
an absorbed batch transpose, equalises the ranks, stretches batch dimensions of
size 1 with a stride of 0, and pads to four dimensions, the number that the GEMM
descriptor names.

Results:
1. `perm_eq_apply`: the permutations that the analysis accepts are those of its two
   flags.
2. `gemmElement_logical`: up to four dimensions every element is read where the
   `Transpose` and the `MatMul` read it, as far as the strides are not wrapped.
3. `denotes_iff`: accepted descriptors denote the product exactly when the shapes fit
   them.
4. `five_dimensions`: a product of tensors of rank 5 is accepted and not denoted.
-/

namespace AmdGpuEp.DirectML.FusedMatMul

/-! ## The absorbed transpose of an operand -/

/-- The flags that `CapturePreFusionData` takes from a `perm` attribute; empty is missing. A `perm`
of two axes is taken out of the match. -/
def capturedInfo (perms : List Int) : Option TransposeInfo :=
  if perms.isEmpty then some { isTrans := true }
  else if perms.length = 2 then none
  else analyzeTransposePerm perms

/-- The permutation that a `perm` attribute stands for: without it, the axes are reversed. -/
def fullPerm (rank : Nat) (perms : List Int) : List Int :=
  if perms.isEmpty then (List.range rank).reverse.map Int.ofNat else perms

namespace TransposeInfo

variable {α β : Type*}

/-- What `isTransBatch` stands for. -/
def moveBatch (info : TransposeInfo) (l : List α) : List α :=
  if info.isTransBatch then rotateFront l else l

/-- The permutation that the flags stand for. -/
def apply (info : TransposeInfo) (l : List α) : List α :=
  if info.isTrans then swapLast (info.moveBatch l) else info.moveBatch l

theorem map_moveBatch (f : α → β) (info : TransposeInfo) (l : List α) :
    (info.moveBatch l).map f = info.moveBatch (l.map f) := by
  unfold moveBatch
  split
  · exact map_rotateFront f l
  · rfl

theorem map_apply (f : α → β) (info : TransposeInfo) (l : List α) :
    (info.apply l).map f = info.apply (l.map f) := by
  unfold apply
  split
  · rw [map_swapLast, map_moveBatch]
  · exact map_moveBatch f info l

theorem moveBatch_perm (info : TransposeInfo) (l : List α) : (info.moveBatch l).Perm l := by
  unfold moveBatch
  split
  · exact rotateFront_perm l
  · exact .refl l

theorem apply_perm (info : TransposeInfo) (l : List α) : (info.apply l).Perm l := by
  unfold apply
  split
  · exact (swapLast_perm _).trans (info.moveBatch_perm l)
  · exact info.moveBatch_perm l

end TransposeInfo

namespace GemmShapesLemmas

theorem analyze_checks {perms : List Int} {info : TransposeInfo}
    (h : analyzeTransposePerm perms = some info) :
    2 ≤ perms.length ∧
      (perms[perms.length - 1]? = some (perms.length - 1 : Int) ∧ info.isTrans = false ∨
        perms[perms.length - 2]? = some (perms.length - 1 : Int) ∧ info.isTrans = true) ∧
      (info.isTransBatch = true → 3 ≤ perms.length) ∧
      (3 ≤ perms.length → perms[0]? = some (if info.isTransBatch then 1 else 0) ∧
        ∀ i < perms.length - 3, perms[i]?.map (· + 1) = perms[i + 1]?) := by
  unfold analyzeTransposePerm at h
  dsimp only at h
  simp only [Option.ite_none_left_eq_some, Option.some.injEq] at h
  obtain ⟨hrank, hlast, hfirst, hsteps, rfl⟩ := h
  refine ⟨Nat.le_of_not_lt hrank, ?_, ?_, fun hthree => ⟨?_, ?_⟩⟩
  · split at hlast
    · next hend =>
      refine Or.inl ⟨hend, ?_⟩
      simp [hend]
      omega
    · next hend =>
      split at hlast
      · next hprev =>
        refine Or.inr ⟨hprev, ?_⟩
        simp [hend, hprev]
      · exact absurd rfl hlast
  · intro hbatch
    simp only [Bool.and_eq_true, decide_eq_true_eq] at hbatch
    exact hbatch.1
  · have hcases : perms[0]? = some 0 ∨ perms[0]? = some 1 := by
      by_contra hne
      rw [not_or] at hne
      exact hfirst ⟨hthree, hne⟩
    rcases hcases with h0 | h1
    · simp [h0]
    · simp [h1, hthree]
  · intro i hi
    by_contra hne
    refine hsteps ⟨hthree, List.any_eq_true.2 ⟨i, List.mem_range.2 hi, ?_⟩⟩
    simpa using hne

/-- The axes in front of the last two: they follow each other from 0 or from 1. -/
theorem front_eq {front : List Nat} {x y : Nat} {info : TransposeInfo}
    (h : analyzeTransposePerm ((front ++ [x, y]).map Int.ofNat) = some info) :
    front = (List.range front.length).map ((if info.isTransBatch then 1 else 0) + ·) := by
  obtain ⟨-, -, -, hfront⟩ := analyze_checks h
  simp only [List.length_map, List.length_append, List.length_cons, List.length_nil] at hfront
  refine List.ext_getElem (by simp) fun i hi _ => ?_
  rw [List.getElem_map, List.getElem_range]
  obtain ⟨hfirst, hsteps⟩ := hfront (by omega)
  induction i with
  | zero =>
    rw [List.getElem?_map, List.getElem?_append_left hi, List.getElem?_eq_getElem hi] at hfirst
    have hzero : (front[0] : Int) = if info.isTransBatch then 1 else 0 := Option.some.inj hfirst
    split at hzero
    · next hb =>
      rw [if_pos hb]
      omega
    · next hb =>
      rw [if_neg hb]
      omega
  | succ i ih =>
    have hprev := ih (by omega) (by simp; omega)
    have hstep := hsteps i (by omega)
    simp only [List.getElem?_map, List.getElem?_append_left hi,
      List.getElem?_append_left (Nat.lt_of_succ_lt hi), List.getElem?_eq_getElem hi,
      List.getElem?_eq_getElem (Nat.lt_of_succ_lt hi), Option.map_some, Option.some.injEq,
      Int.ofNat_eq_natCast] at hstep
    omega

/-- The permutations that pass the analysis are those of the flags. -/
theorem perm_eq_apply {p : List Nat} {info : TransposeInfo} {r : Nat}
    (hperm : p.Perm (List.range r)) (h : analyzeTransposePerm (p.map Int.ofNat) = some info) :
    p = info.apply (List.range r) := by
  obtain ⟨htwo, hlast, -⟩ := analyze_checks h
  rw [List.length_map] at htwo hlast
  obtain ⟨front, x, y, rfl⟩ := exists_append_pair htwo
  have hfront := front_eq h
  have hr : r = front.length + 2 := by
    rw [← List.length_range (n := r), ← hperm.length_eq]
    simp
  subst hr
  have hlen : (front ++ [x, y]).length = front.length + 2 := by simp
  simp only [hlen, Nat.add_sub_cancel, Nat.add_succ_sub_one] at hlast
  set n := front.length with hn
  -- the axis that is neither in front nor last
  have hother : ∀ z, z < n + 2 → z ∉ front → z = x ∨ z = y := by
    intro z hz hnot
    have hmem := hperm.mem_iff.2 (List.mem_range.2 hz)
    simpa [hnot] using hmem
  have hplaces : (info.isTrans = false ∧ y = n + 1) ∨ (info.isTrans = true ∧ x = n + 1) := by
    rcases hlast with ⟨hy, htrans⟩ | ⟨hx, htrans⟩
    · refine Or.inl ⟨htrans, ?_⟩
      simp [← hn] at hy
      omega
    · refine Or.inr ⟨htrans, ?_⟩
      simp [← hn] at hx
      omega
  obtain ⟨z, hmoved, hz, hnot⟩ : ∃ z,
      (if info.isTransBatch then rotateFront (List.range (n + 2)) else List.range (n + 2)) =
        front ++ [z, n + 1] ∧ z < n + 1 ∧ z ∉ front := by
    cases hb : info.isTransBatch with
    | false =>
      refine ⟨n, ?_, by omega, ?_⟩
      · rw [hfront, hb]
        simp [List.range_succ]
      · rw [hfront, hb]
        simp
    | true =>
      refine ⟨0, ?_, by omega, ?_⟩
      · rw [hfront, hb, if_pos rfl, List.range_succ, rotateFront_concat, List.range_succ_eq_map]
        simp [Nat.add_comm]
      · rw [hfront, hb]
        simp
  rw [TransposeInfo.apply, TransposeInfo.moveBatch, hmoved]
  rcases hplaces with ⟨htrans, rfl⟩ | ⟨htrans, rfl⟩
  · rcases hother z (Nat.lt_succ_of_lt hz) hnot with rfl | rfl
    · simp [htrans]
    · exact absurd hz (lt_irrefl _)
  · rcases hother z (Nat.lt_succ_of_lt hz) hnot with rfl | rfl
    · exact absurd hz (lt_irrefl _)
    · simp [htrans, swapLast_append_pair]

end GemmShapesLemmas

/-! ## `PrepareGemmShapes` -/

/-- `ReadRuntimeShape`, for one dimension. -/
def readSize (d : Nat) : Nat :=
  (if 0 < d then d else 1) % 2 ^ 32

/-- `packed_strides`: the strides, and the one that the loop would give to the next dimension. -/
def packedStrides : List Nat → List Nat × Nat
  | [] => ([], 1)
  | size :: sizes =>
    let (strides, stride) := packedStrides sizes
    (stride :: strides, stride * size % 2 ^ 32)

/-- The sizes of a tensor with their packed strides. -/
def dimsOf (sizes : List Nat) : List Dim :=
  List.zipWith Dim.mk sizes (packedStrides sizes).1

/-- The two inputs of a `MatMul`. -/
inductive Input
  | a
  | b

/-- The dimension that makes a matrix of a vector: a row of the first input, a column of the
second. -/
def Input.widen {α : Type*} (input : Input) (x : α) (l : List α) : List α :=
  if l.length = 1 then
    match input with
    | .a => x :: l
    | .b => l ++ [x]
  else l

/-- A prepended dimension has size 1 and stride 0. So has the one inserted at a rank of 1. -/
def unitDim : Dim :=
  ⟨1, 0⟩

/-- `apply_trans_batch`. -/
def applyTransBatch (dims : List Dim) : List Dim :=
  if dims.length ≤ 2 then dims else rotateFront dims

/-- One batch dimension of an operand against that of the other. -/
def broadcastDim (own other : Dim) : Dim :=
  if own.size = other.size then own
  else if own.size = 1 then ⟨max own.size other.size, 0⟩
  else own

/-- The loop over the batch dimensions, as it treats one operand. -/
def broadcastBatch (rank : Nat) (own other : List Dim) : List Dim :=
  (List.zipWith broadcastDim own other).take (rank - 2) ++ own.drop (rank - 2)

def sizeAt (dims : List Dim) (i : Nat) : Nat :=
  ((dims[i]?).map Dim.size).getD 0

/-- The extents that GEMM takes from the last two of four dimensions: those of the output, and the
one it sums over. -/
def outerA (dims : List Dim) (trans : Bool) : Nat :=
  if trans then sizeAt dims 3 else sizeAt dims 2

def innerA (dims : List Dim) (trans : Bool) : Nat :=
  if trans then sizeAt dims 2 else sizeAt dims 3

def innerB (dims : List Dim) (trans : Bool) : Nat :=
  if trans then sizeAt dims 3 else sizeAt dims 2

def outerB (dims : List Dim) (trans : Bool) : Nat :=
  if trans then sizeAt dims 2 else sizeAt dims 3

structure GemmShapes where
  a : List Dim
  b : List Dim
  cSizes : List Nat
  deriving DecidableEq, Repr

/-- `PrepareGemmShapes`; nothing when `valid` stays false. -/
def prepareGemmShapes (aSizes bSizes : List Nat) (infoA infoB : TransposeInfo) :
    Option GemmShapes :=
  let a := Input.a.widen unitDim (dimsOf aSizes)
  let b := Input.b.widen unitDim (dimsOf bSizes)
  if a.length < 2 ∨ b.length < 2 then none
  else
    let a := if infoA.isTransBatch then applyTransBatch a else a
    let b := if infoB.isTransBatch then applyTransBatch b else b
    let rank := max a.length b.length
    let a := alignRight unitDim rank a
    let b := alignRight unitDim rank b
    let a' := alignRight unitDim 4 (broadcastBatch rank a b)
    let b' := alignRight unitDim 4 (broadcastBatch rank b a)
    if innerA a' infoA.isTrans = innerB b' infoB.isTrans then
      some
        { a := a'
          b := b'
          cSizes := [sizeAt a' 0, sizeAt a' 1, outerA a' infoA.isTrans, outerB b' infoB.isTrans] }
    else none

/-- The place of the element in a row and column of a matrix that GEMM takes from a descriptor: the
descriptor names four dimensions, and the transform flag exchanges the last two. -/
def gemmElement (dims : List Dim) (trans : Bool) (batch : List Nat) (row col : Nat) : Nat :=
  address (dims.take 4) (batch ++ if trans then [col, row] else [row, col])

/-! ## What the nodes compute -/

/-- A tensor, and the `Transpose` in front of the `MatMul` that was absorbed. -/
structure Operand where
  dims : List Nat
  transpose : Option Node := none

namespace Operand

/-- The flags that `CapturePreFusionData` records. -/
def info (o : Operand) : TransposeInfo :=
  match o.transpose with
  | none => {}
  | some node => (capturedInfo (getAttributeInts node "perm")).getD {}

/-- What the pattern and `CapturePreFusionData` have checked of an absorbed `Transpose`. A type
info gives the rank of its input or none, and `perm` permutes the axes. -/
def Absorbed (o : Operand) : Prop :=
  ∀ node, o.transpose = some node →
    (∃ info, (∀ i, info = some i → i.dims = [] ∨ i.dims.length = o.dims.length) ∧
      transposePermPredicate info node = true) ∧
    (capturedInfo (getAttributeInts node "perm")).isSome ∧
    (fullPerm o.dims.length (getAttributeInts node "perm")).Perm
      ((List.range o.dims.length).map Int.ofNat)

/-- What the `MatMul` sees of a list with an entry for each axis of the tensor: the entries in the
order of the `Transpose`, and `x` for the axis inserted at a rank of 1. -/
def logical {α : Type*} (o : Operand) (input : Input) (x : α) (l : List α) : List α :=
  input.widen x
    (match o.transpose with
    | none => l
    | some node =>
      (fullPerm o.dims.length (getAttributeInts node "perm")).map fun axis => l.getD axis.toNat x)

/-- `s` is the place in the buffer that GEMM reads for the element in `row` and `col` of the matrix
at `batch`: the element of the tensor at the index that the nodes read. -/
def Reads (o : Operand) (input : Input) (batchSizes : List Nat) (dims : List Dim)
    (batch : List Nat) (row col : Nat) : Prop :=
  ∃ s, InBounds s o.dims ∧ o.logical input 0 s = restrictTo batchSizes batch ++ [row, col] ∧
    gemmElement dims (o.info.isTrans && decide (1 < o.dims.length)) (alignRight 0 2 batch) row col =
      rowMajor o.dims s

end Operand

/-- The shapes of a `MatMul`: batch shapes that broadcast to `batch`, and matrices of `m` by `k` and
of `k` by `n`. -/
structure IsProduct (a b : Operand) (batchA batchB batch : List Nat) (m k n : Nat) : Prop where
  left : a.logical .a 1 a.dims = batchA ++ [m, k]
  right : b.logical .b 1 b.dims = batchB ++ [k, n]
  batch : broadcastShapes batchA batchB = some batch

/-- The descriptors denote the product: the output has its shape behind leading dimensions of
size 1, the sum has its length, and every element is read where the nodes read it. -/
def Denotes (a b : Operand) (g : GemmShapes) : Prop :=
  ∃ batchA batchB batch m k n, IsProduct a b batchA batchB batch m k n ∧
    g.cSizes = alignRight 1 4 (batch ++ [m, n]) ∧ innerA g.a a.info.isTrans = k ∧
    ∀ i, InBounds i batch → ∀ row < m, ∀ col < n, ∀ j < k,
      a.Reads .a batchA g.a i row j ∧ b.Reads .b batchB g.b i j col

/-- The strides that are stepped over are not wrapped. -/
def StridesFit (dims : List Nat) : Prop :=
  ∀ front d rest, dims = front ++ d :: rest → 1 < d → rest.prod < 2 ^ 32

/-- What the descriptors can express: four dimensions, sizes that are not zero and fit 32 bits as
the strides do, and batch shapes that broadcast. -/
structure Fits (a b : Operand) : Prop where
  rank : a.dims.length ≤ 4 ∧ b.dims.length ≤ 4
  sizes : ∀ d ∈ a.dims ++ b.dims, 0 < d ∧ d < 2 ^ 32
  strides : StridesFit a.dims ∧ StridesFit b.dims
  batch : ∃ batchA batchB x y z w, a.logical .a 1 a.dims = batchA ++ [x, y] ∧
    b.logical .b 1 b.dims = batchB ++ [z, w] ∧ (broadcastShapes batchA batchB).isSome

namespace GemmShapesLemmas

variable {o : Operand} {input : Input}

theorem widen_of_two_le {α : Type*} (x : α) {l : List α} (h : 2 ≤ l.length) :
    input.widen x l = l :=
  if_neg (by omega)

theorem length_widen {α : Type*} (x : α) (l : List α) :
    (input.widen x l).length = if l.length = 1 then 2 else l.length := by
  unfold Input.widen
  split
  · next h => cases input <;> simp [h]
  · rfl

/-- A missing `perm` is accepted at rank 2 only. -/
theorem rank_of_missing {info : Option TensorInfo} {node : Node}
    (hperm : getAttributeInts node "perm" = []) (h : transposePermPredicate info node = true) :
    ∃ i, info = some i ∧ i.dims.length = 2 := by
  unfold transposePermPredicate at h
  rw [hperm] at h
  cases info with
  | none => cases h
  | some i =>
    refine ⟨i, rfl, ?_⟩
    simp only [List.isEmpty_nil, if_true] at h
    split at h
    · cases h
    · obtain ⟨found, hfound⟩ := Option.isSome_iff_exists.1 h
      obtain ⟨htwo, -, -, hfirst⟩ := analyze_checks hfound
      simp only [List.length_map, List.length_reverse, List.length_range] at htwo hfirst
      by_contra hne
      have hzero := (hfirst (by omega)).1
      rw [List.getElem?_map, List.getElem?_reverse (by simp; omega)] at hzero
      simp only [List.length_range, List.getElem?_range (show i.dims.length - 1 - 0 <
        i.dims.length by omega), Option.map_some, Option.some.injEq] at hzero
      split at hzero
      · simp at hzero
        omega
      · simp at hzero
        omega

/-- A permutation of axes has no negative entry. -/
theorem exists_nat_perm {perms : List Int} {r : Nat}
    (h : perms.Perm ((List.range r).map Int.ofNat)) :
    ∃ p : List Nat, p.Perm (List.range r) ∧ p.map Int.ofNat = perms := by
  have hcast : (perms.map Int.toNat).map Int.ofNat = perms := by
    conv_rhs => rw [← List.map_id perms]
    rw [List.map_map]
    refine List.map_congr_left fun axis haxis => ?_
    obtain ⟨k, -, rfl⟩ := List.mem_map.1 (h.mem_iff.1 haxis)
    rfl
  refine ⟨perms.map Int.toNat, ?_, hcast⟩
  have hmap := h.map Int.toNat
  have hid : Int.toNat ∘ Int.ofNat = id := rfl
  rwa [List.map_map, hid, List.map_id] at hmap

/-- What the flags of an absorbed `Transpose` are read from: no `perm` at rank 2, or one that passes
the analysis. -/
theorem absorbed_cases (ho : o.Absorbed) {node : Node} (h : o.transpose = some node) :
    (getAttributeInts node "perm" = [] ∧ o.dims.length = 2 ∧ o.info = { isTrans := true }) ∨
      ∃ p : List Nat, p.Perm (List.range o.dims.length) ∧
        getAttributeInts node "perm" = p.map Int.ofNat ∧ p ≠ [] ∧
        analyzeTransposePerm (p.map Int.ofNat) = some o.info := by
  obtain ⟨⟨info, hrank, hpredicate⟩, hcaptured, hperm⟩ := ho node h
  unfold Operand.info
  rw [h]
  dsimp only
  cases hattr : getAttributeInts node "perm" with
  | nil =>
    obtain ⟨i, rfl, hi⟩ := rank_of_missing hattr hpredicate
    refine Or.inl ⟨rfl, ?_, rfl⟩
    rcases hrank i rfl with hnone | hsame
    · simp [hnone] at hi
    · exact hsame.symm.trans hi
  | cons axis axes =>
    rw [hattr] at hcaptured hperm
    obtain ⟨p, hp, hcast⟩ := exists_nat_perm (show (axis :: axes).Perm _ from hperm)
    obtain ⟨found, hfound⟩ := Option.isSome_iff_exists.1 hcaptured
    refine Or.inr ⟨p, hp, hcast.symm, ?_, ?_⟩
    · rintro rfl
      cases hcast
    · rw [hcast, hfound, Option.getD_some]
      simp only [capturedInfo, List.isEmpty_cons, Bool.false_eq_true, if_false,
        Option.ite_none_left_eq_some] at hfound
      exact hfound.2

theorem two_le_rank (ho : o.Absorbed) {node : Node} (h : o.transpose = some node) :
    2 ≤ o.dims.length := by
  rcases absorbed_cases ho h with ⟨-, htwo, -⟩ | ⟨p, hp, -, -, hanalyze⟩
  · exact htwo.ge
  · have htwo := (analyze_checks hanalyze).1
    rwa [List.length_map, hp.length_eq, List.length_range] at htwo

/-- The order that the `MatMul` sees is the one of the flags. -/
theorem logical_eq (ho : o.Absorbed) {α : Type*} (x : α) {l : List α}
    (hl : l.length = o.dims.length) : o.logical input x l = o.info.apply (input.widen x l) := by
  cases htranspose : o.transpose with
  | none =>
    unfold Operand.logical Operand.info
    rw [htranspose]
    rfl
  | some node =>
    have htwo : 2 ≤ l.length := hl ▸ two_le_rank ho htranspose
    have hpermuted : ((fullPerm o.dims.length (getAttributeInts node "perm")).map fun axis =>
        l.getD axis.toNat x) = o.info.apply l := by
      rcases absorbed_cases ho htranspose with ⟨hattr, hrank, hinfo⟩ | ⟨p, hp, hattr, hne, hanalyze⟩
      · obtain ⟨y, z, rfl⟩ := List.length_eq_two.1 (hl.trans hrank)
        rw [hattr, hrank, hinfo]
        rfl
      · have hfull : fullPerm o.dims.length (p.map Int.ofNat) = p.map Int.ofNat := by
          simp [fullPerm, hne]
        rw [hattr, hfull, List.map_map, perm_eq_apply hp hanalyze, TransposeInfo.map_apply, ← hl]
        exact congrArg o.info.apply (map_getD_range x l)
    unfold Operand.logical
    rw [htranspose]
    dsimp only
    rw [hpermuted, widen_of_two_le x htwo,
      widen_of_two_le x (by rwa [(o.info.apply_perm l).length_eq])]

/-- The transform flag is not suppressed: a vector has no absorbed `Transpose`. -/
theorem trans_flag (ho : o.Absorbed) :
    (o.info.isTrans && decide (1 < o.dims.length)) = o.info.isTrans := by
  cases htranspose : o.transpose with
  | none =>
    unfold Operand.info
    rw [htranspose]
    rfl
  | some node =>
    have htwo : 1 < o.dims.length := two_le_rank ho htranspose
    rw [decide_eq_true htwo, Bool.and_true]

/-! ## The four dimensions -/

theorem applyTransBatch_eq (dims : List Dim) : applyTransBatch dims = rotateFront dims := by
  unfold applyTransBatch
  split
  · next h =>
    match dims, h with
    | [], _ => rfl
    | [_], _ => rfl
    | [_, _], _ => simp [rotateFront]
  · rfl

theorem moveBatch_eq (info : TransposeInfo) (dims : List Dim) :
    (if info.isTransBatch then applyTransBatch dims else dims) = info.moveBatch dims := by
  rw [applyTransBatch_eq]
  rfl

/-- The batch dimensions of an operand, aligned with those of the other and stretched. -/
def stretched (own other : List Dim) : List Dim :=
  List.zipWith broadcastDim (alignRight unitDim (max own.length other.length) own)
    (alignRight unitDim (max own.length other.length) other)

theorem length_stretched (own other : List Dim) :
    (stretched own other).length = max own.length other.length := by
  simp [stretched, length_alignRight]

theorem broadcastBatch_eq {n : Nat} {own other : List Dim} {x y z w : Dim}
    (hown : own.length = n) (hother : other.length = n) :
    broadcastBatch (n + 2) (own ++ [x, y]) (other ++ [z, w]) =
      List.zipWith broadcastDim own other ++ [x, y] := by
  have hzip : (List.zipWith broadcastDim own other).length = n := by simp [hown, hother]
  rw [broadcastBatch, List.zipWith_append (hown.trans hother.symm), Nat.add_sub_cancel,
    List.take_left' hzip, List.drop_left' hown]

/-- The parts of prepared shapes: the moved dimensions, and what the steps make of them. -/
structure Parts (aSizes bSizes : List Nat) (infoA infoB : TransposeInfo) (g : GemmShapes)
    (batchA batchB : List Dim) (rowA colA rowB colB : Dim) : Prop where
  movedA : infoA.moveBatch (Input.a.widen unitDim (dimsOf aSizes)) = batchA ++ [rowA, colA]
  movedB : infoB.moveBatch (Input.b.widen unitDim (dimsOf bSizes)) = batchB ++ [rowB, colB]
  a : g.a = alignRight unitDim 4 (stretched batchA batchB ++ [rowA, colA])
  b : g.b = alignRight unitDim 4 (stretched batchB batchA ++ [rowB, colB])
  inner : innerA g.a infoA.isTrans = innerB g.b infoB.isTrans
  cSizes : g.cSizes = [sizeAt g.a 0, sizeAt g.a 1, outerA g.a infoA.isTrans,
    outerB g.b infoB.isTrans]

theorem exists_parts {aSizes bSizes : List Nat} {infoA infoB : TransposeInfo} {g : GemmShapes}
    (h : prepareGemmShapes aSizes bSizes infoA infoB = some g) :
    ∃ batchA batchB rowA colA rowB colB,
      Parts aSizes bSizes infoA infoB g batchA batchB rowA colA rowB colB := by
  unfold prepareGemmShapes at h
  simp only [moveBatch_eq] at h
  split at h
  · cases h
  next hrank =>
  rw [not_or, Nat.not_lt, Nat.not_lt] at hrank
  rw [← (infoA.moveBatch_perm _).length_eq] at hrank
  rw [← (infoB.moveBatch_perm (Input.b.widen unitDim (dimsOf bSizes))).length_eq] at hrank
  obtain ⟨batchA, rowA, colA, ha⟩ := exists_append_pair hrank.1
  obtain ⟨batchB, rowB, colB, hb⟩ := exists_append_pair hrank.2
  simp only [ha, hb] at h
  have hlen : max (batchA ++ [rowA, colA]).length (batchB ++ [rowB, colB]).length =
      max batchA.length batchB.length + 2 := by
    simp
  have halign : ∀ (batch : List Dim) (x y : Dim),
      alignRight unitDim (max batchA.length batchB.length + 2) (batch ++ [x, y]) =
        alignRight unitDim (max batchA.length batchB.length) batch ++ [x, y] :=
    fun batch x y => alignRight_append unitDim _ batch [x, y]
  have hlenA : (alignRight unitDim (max batchA.length batchB.length) batchA).length =
      max batchA.length batchB.length := by
    simp [length_alignRight]
  have hlenB : (alignRight unitDim (max batchA.length batchB.length) batchB).length =
      max batchA.length batchB.length := by
    simp [length_alignRight]
  simp only [hlen, halign, broadcastBatch_eq hlenA hlenB, broadcastBatch_eq hlenB hlenA] at h
  split at h
  · next hinner =>
    cases h
    refine ⟨batchA, batchB, rowA, colA, rowB, colB, ha, hb, rfl, ?_, hinner, rfl⟩
    rw [stretched, max_comm batchB.length]
  · cases h

/-! ## Sizes -/

theorem dimsOf_cons (size : Nat) (sizes : List Nat) :
    dimsOf (size :: sizes) = ⟨size, (packedStrides sizes).2⟩ :: dimsOf sizes :=
  rfl

theorem map_size_dimsOf (sizes : List Nat) : (dimsOf sizes).map Dim.size = sizes := by
  induction sizes with
  | nil => rfl
  | cons size sizes ih => rw [dimsOf_cons, List.map_cons, ih]

theorem length_dimsOf (sizes : List Nat) : (dimsOf sizes).length = sizes.length := by
  rw [← List.length_map Dim.size, map_size_dimsOf]

theorem map_widen {α β : Type*} (f : α → β) (x : α) (l : List α) :
    (input.widen x l).map f = input.widen (f x) (l.map f) := by
  unfold Input.widen
  rw [List.length_map]
  split
  · cases input <;> simp
  · rfl

theorem apply_eq_append {α : Type*} {info : TransposeInfo} {l batch : List α} {u v : α} :
    info.apply l = batch ++ [u, v] ↔
      info.moveBatch l = batch ++ if info.isTrans then [v, u] else [u, v] := by
  unfold TransposeInfo.apply
  split
  · constructor
    · intro h
      rw [← swapLast_swapLast (info.moveBatch l), h, swapLast_append_pair]
    · intro h
      rw [h, swapLast_append_pair]
  · rfl

theorem readSize_one : readSize 1 = 1 :=
  rfl

theorem readSize_eq_iff {d : Nat} : readSize d = d ↔ 0 < d ∧ d < 2 ^ 32 := by
  unfold readSize
  split <;> omega

/-- The sizes of the moved dimensions are those of the logical shape, as they are read. -/
theorem moved_sizes (ho : o.Absorbed) {batch : List Nat} {u v : Nat} {dims : List Dim} {x y : Dim}
    (hlogical : o.logical input 1 o.dims = batch ++ [u, v])
    (hmoved : o.info.moveBatch (input.widen unitDim (dimsOf (o.dims.map readSize))) =
      dims ++ [x, y]) :
    dims.map Dim.size = batch.map readSize ∧
      (if o.info.isTrans then y.size else x.size) = readSize u ∧
      (if o.info.isTrans then x.size else y.size) = readSize v := by
  rw [logical_eq ho 1 rfl, apply_eq_append] at hlogical
  have hsizes := congrArg (List.map Dim.size) hmoved
  rw [TransposeInfo.map_moveBatch, map_widen, map_size_dimsOf] at hsizes
  have hread := congrArg (List.map readSize) hlogical
  rw [TransposeInfo.map_moveBatch, map_widen] at hread
  have hboth := hsizes.symm.trans hread
  rw [List.map_append, List.map_append] at hboth
  obtain ⟨hbatch, hpair⟩ := List.append_inj' hboth (by split <;> rfl)
  refine ⟨hbatch, ?_⟩
  split at hpair
  · next htrans =>
    simp only [List.map_cons, List.map_nil, List.cons.injEq, and_true] at hpair
    simp [htrans, hpair.1, hpair.2]
  · next htrans =>
    simp only [List.map_cons, List.map_nil, List.cons.injEq, and_true] at hpair
    simp [htrans, hpair.1, hpair.2]

/-- Up to two batch dimensions the four named dimensions are all there are. -/
structure FourDims (infoA infoB : TransposeInfo) (g : GemmShapes) (batchA batchB : List Dim)
    (rowA colA rowB colB : Dim) : Prop where
  a : g.a = alignRight unitDim 2 (stretched batchA batchB) ++ [rowA, colA]
  b : g.b = alignRight unitDim 2 (stretched batchB batchA) ++ [rowB, colB]
  innerA : innerA g.a infoA.isTrans = if infoA.isTrans then rowA.size else colA.size
  innerB : innerB g.b infoB.isTrans = if infoB.isTrans then colB.size else rowB.size
  cSizes : g.cSizes = alignRight 1 2 ((stretched batchA batchB).map Dim.size) ++
    [if infoA.isTrans then colA.size else rowA.size, if infoB.isTrans then rowB.size else colB.size]

theorem Parts.fourDims {aSizes bSizes : List Nat} {infoA infoB : TransposeInfo} {g : GemmShapes}
    {batchA batchB : List Dim} {rowA colA rowB colB : Dim}
    (h : Parts aSizes bSizes infoA infoB g batchA batchB rowA colA rowB colB)
    (hbatch : max batchA.length batchB.length ≤ 2) :
    FourDims infoA infoB g batchA batchB rowA colA rowB colB := by
  have ha : g.a = alignRight unitDim 2 (stretched batchA batchB) ++ [rowA, colA] :=
    h.a.trans (alignRight_append unitDim 2 _ [rowA, colA])
  have hb : g.b = alignRight unitDim 2 (stretched batchB batchA) ++ [rowB, colB] :=
    h.b.trans (alignRight_append unitDim 2 _ [rowB, colB])
  have htwoA : (alignRight unitDim 2 (stretched batchA batchB)).length = 2 := by
    rw [length_alignRight, length_stretched, Nat.max_eq_left hbatch]
  have htwoB : (alignRight unitDim 2 (stretched batchB batchA)).length = 2 := by
    rw [length_alignRight, length_stretched, max_comm batchB.length, Nat.max_eq_left hbatch]
  obtain ⟨u, v, huv⟩ := List.length_eq_two.1 htwoA
  obtain ⟨w, z, hwz⟩ := List.length_eq_two.1 htwoB
  have hsizes : alignRight 1 2 ((stretched batchA batchB).map Dim.size) = [u.size, v.size] := by
    have hmap := congrArg (List.map Dim.size) huv
    rwa [map_alignRight] at hmap
  refine ⟨ha, hb, ?_, ?_, ?_⟩
  · rw [ha, huv]
    rfl
  · rw [hb, hwz]
    rfl
  · rw [h.cSizes, hsizes, ha, hb, huv, hwz]
    rfl

/-! ## Addresses -/

/-- A stretched dimension is read at 0. -/
theorem address_zipWith_broadcastDim {own other : List Dim} {i : List Nat}
    (hlen : own.length = other.length)
    (h : InBounds i ((List.zipWith broadcastDim own other).map Dim.size)) :
    address (List.zipWith broadcastDim own other) i =
      address own (List.zipWith (fun size j => if size = 1 then 0 else j) (own.map Dim.size) i) := by
  induction own generalizing other i with
  | nil => rfl
  | cons d own ih =>
    cases other with
    | nil => cases hlen
    | cons e other =>
      cases h with
      | @cons j _ i _ hj hrest =>
        simp only [List.zipWith_cons_cons, List.map_cons, address]
        rw [ih (Nat.succ.inj hlen) hrest]
        refine congrArg (· + _) ?_
        unfold broadcastDim at hj ⊢
        split
        · next heq =>
          rw [if_pos heq] at hj
          split
          · next hone =>
            obtain rfl : j = 0 := by omega
            rfl
          · rfl
        · next hne =>
          split
          · next hone => simp
          · rfl

theorem address_stretched {own other : List Dim} {i : List Nat}
    (h : InBounds i ((stretched own other).map Dim.size)) :
    address (stretched own other) i = address own (restrictTo (own.map Dim.size) i) := by
  have hi : i.length = max own.length other.length := by
    rw [h.length_eq, List.length_map, length_stretched]
  rw [stretched, address_zipWith_broadcastDim (by simp [length_alignRight]) h, map_alignRight,
    unitDim, address_alignRight]
  · rw [List.drop_zipWith, restrictTo, List.length_map]
    have hsizes : (alignRight 1 (max own.length other.length) (own.map Dim.size)).length =
        i.length := by
      simp [length_alignRight, hi]
    rw [List.length_zipWith, hsizes, min_self, hi]
    have hdrop := drop_alignRight 1 (max own.length other.length) (own.map Dim.size)
    rw [List.length_map] at hdrop
    rw [hdrop]
  · simp [length_alignRight, hi]

/-- GEMM reads an element through the stretched and padded dimensions where the moved dimensions
have it. -/
theorem gemmElement_eq {own other : List Dim} {x y : Dim} {i : List Nat} {trans : Bool}
    {row col : Nat} (hbatch : max own.length other.length ≤ 2)
    (h : InBounds i ((stretched own other).map Dim.size)) :
    gemmElement (alignRight unitDim 2 (stretched own other) ++ [x, y]) trans (alignRight 0 2 i) row
        col =
      address (own ++ [x, y])
        (restrictTo (own.map Dim.size) i ++ if trans then [col, row] else [row, col]) := by
  have hi : i.length = max own.length other.length := by
    rw [h.length_eq, List.length_map, length_stretched]
  have htwo : (alignRight unitDim 2 (stretched own other)).length = 2 := by
    rw [length_alignRight, length_stretched, Nat.max_eq_left hbatch]
  have hidx : (alignRight 0 2 i).length = 2 := by
    rw [length_alignRight, hi, Nat.max_eq_left hbatch]
  have hrestrict : own.length = (restrictTo (own.map Dim.size) i).length := by
    simp [restrictTo, hi]
    omega
  rw [gemmElement, List.take_of_length_le (by simp [htwo]), address_append (htwo.trans hidx.symm),
    address_append hrestrict, unitDim,
    address_alignRight _ _ (by rw [hidx, length_stretched]; omega),
    hidx, length_stretched, ← hi, drop_alignRight, address_stretched h]

theorem address_moveBatch (info : TransposeInfo) {v : List Dim} {i : List Nat}
    (h : v.length = i.length) : address (info.moveBatch v) (info.moveBatch i) = address v i := by
  unfold TransposeInfo.moveBatch
  split
  · exact address_rotateFront h
  · rfl

theorem address_widen {v : List Dim} {i : List Nat} (h : v.length = i.length) :
    address (input.widen unitDim v) (input.widen 0 i) = address v i := by
  unfold Input.widen
  rw [← h]
  split
  · next hone =>
    obtain ⟨d, rfl⟩ := List.length_eq_one_iff.1 hone
    obtain ⟨j, rfl⟩ := List.length_eq_one_iff.1 (h.symm.trans hone)
    cases input <;> simp [address, unitDim]
  · rfl

/-- GEMM reads through the prepared dimensions what the packed strides give at the index that the
nodes read. -/
theorem gemmElement_logical (ho : o.Absorbed) {sizes s : List Nat} {own other : List Dim}
    {x y : Dim} {i : List Nat} {row col : Nat} (hsizes : sizes.length = o.dims.length)
    (hs : s.length = o.dims.length)
    (hmoved : o.info.moveBatch (input.widen unitDim (dimsOf sizes)) = own ++ [x, y])
    (hlogical : o.logical input 0 s = restrictTo (own.map Dim.size) i ++ [row, col])
    (hbatch : max own.length other.length ≤ 2)
    (hi : InBounds i ((stretched own other).map Dim.size)) :
    gemmElement (alignRight unitDim 2 (stretched own other) ++ [x, y])
        (o.info.isTrans && decide (1 < o.dims.length)) (alignRight 0 2 i) row col =
      address (dimsOf sizes) s := by
  have hlen : (dimsOf sizes).length = s.length := by rw [length_dimsOf, hsizes, hs]
  have hwiden : (input.widen unitDim (dimsOf sizes)).length = (input.widen 0 s).length := by
    rw [length_widen, length_widen, hlen]
  rw [logical_eq ho 0 hs, apply_eq_append] at hlogical
  rw [gemmElement_eq hbatch hi, trans_flag ho, ← hmoved, ← hlogical,
    address_moveBatch _ hwiden, address_widen hlen]

/-! ## Indices -/

theorem inBounds_moveBatch {info : TransposeInfo} {i sizes : List Nat}
    (h : i.length = sizes.length) :
    InBounds (info.moveBatch i) (info.moveBatch sizes) ↔ InBounds i sizes := by
  unfold TransposeInfo.moveBatch
  split
  · exact inBounds_rotateFront h
  · rfl

theorem inBounds_apply {info : TransposeInfo} {i sizes : List Nat} (h : i.length = sizes.length) :
    InBounds (info.apply i) (info.apply sizes) ↔ InBounds i sizes := by
  unfold TransposeInfo.apply
  split
  · rw [inBounds_swapLast, inBounds_moveBatch h]
    rw [(info.moveBatch_perm i).length_eq, h, (info.moveBatch_perm sizes).length_eq]
  · exact inBounds_moveBatch h

theorem exists_apply {α : Type*} (info : TransposeInfo) (l : List α) : ∃ k, info.apply k = l := by
  have hmove : ∀ l : List α, ∃ k, info.moveBatch k = l := by
    intro l
    unfold TransposeInfo.moveBatch
    split
    · exact exists_rotateFront l
    · exact ⟨l, rfl⟩
  unfold TransposeInfo.apply
  split
  · obtain ⟨k, hk⟩ := hmove (swapLast l)
    exact ⟨k, by rw [hk, swapLast_swapLast]⟩
  · exact hmove l

theorem apply_injective {α : Type*} (info : TransposeInfo) :
    Function.Injective (info.apply : List α → List α) := by
  have hmove : Function.Injective (info.moveBatch : List α → List α) := by
    unfold TransposeInfo.moveBatch
    split
    · exact rotateFront_injective
    · exact fun _ _ h => h
  intro k l h
  unfold TransposeInfo.apply at h
  split at h
  · refine hmove ?_
    rw [← swapLast_swapLast (info.moveBatch k), h, swapLast_swapLast]
  · exact hmove h

theorem inBounds_widen {i sizes : List Nat} (h : i.length = sizes.length) :
    InBounds (input.widen 0 i) (input.widen 1 sizes) ↔ InBounds i sizes := by
  unfold Input.widen
  rw [h]
  split
  · next hone =>
    obtain ⟨d, rfl⟩ := List.length_eq_one_iff.1 hone
    obtain ⟨j, rfl⟩ := List.length_eq_one_iff.1 (h.trans hone)
    cases input <;> simp [InBounds]
  · rfl

theorem exists_widen {i sizes : List Nat} (h : InBounds i (input.widen 1 sizes)) :
    ∃ s, s.length = sizes.length ∧ input.widen 0 s = i := by
  unfold Input.widen at h ⊢
  split at h
  · next hone =>
    obtain ⟨d, rfl⟩ := List.length_eq_one_iff.1 hone
    cases input with
    | a =>
      obtain ⟨j, k, hj, hk, rfl⟩ := List.forall₂_cons_right_iff.1 h
      obtain ⟨k, _, hk, hnil, rfl⟩ := List.forall₂_cons_right_iff.1 hk
      obtain rfl := List.forall₂_nil_right_iff.1 hnil
      obtain rfl : j = 0 := by omega
      exact ⟨[k], rfl, rfl⟩
    | b =>
      obtain ⟨j, k, hj, hk, rfl⟩ := List.forall₂_cons_right_iff.1 h
      obtain ⟨k, _, hk, hnil, rfl⟩ := List.forall₂_cons_right_iff.1 hk
      obtain rfl := List.forall₂_nil_right_iff.1 hnil
      obtain rfl : k = 0 := by omega
      exact ⟨[j], rfl, rfl⟩
  · next hne =>
    exact ⟨i, h.length_eq, if_neg (by rwa [h.length_eq])⟩

/-- Every index of the logical shape is that of an element. -/
theorem exists_source (ho : o.Absorbed) {i : List Nat} (h : InBounds i (o.logical input 1 o.dims)) :
    ∃ s, InBounds s o.dims ∧ o.logical input 0 s = i := by
  rw [logical_eq ho 1 rfl] at h
  obtain ⟨t, rfl⟩ := exists_apply o.info i
  have ht : t.length = (input.widen 1 o.dims).length := by
    rw [← (o.info.apply_perm t).length_eq, h.length_eq, (o.info.apply_perm _).length_eq]
  rw [inBounds_apply ht] at h
  obtain ⟨s, hs, rfl⟩ := exists_widen h
  exact ⟨s, (inBounds_widen hs).1 h, logical_eq ho 0 hs⟩

theorem inBounds_logical (ho : o.Absorbed) {s : List Nat} (h : InBounds s o.dims) :
    InBounds (o.logical input 0 s) (o.logical input 1 o.dims) := by
  have hlen : (input.widen 0 s).length = (input.widen 1 o.dims).length := by
    rw [length_widen, length_widen, h.length_eq]
  rw [logical_eq ho 0 h.length_eq, logical_eq ho 1 rfl, inBounds_apply hlen,
    inBounds_widen h.length_eq]
  exact h

theorem widen_injective {s t : List Nat} (hlen : s.length = t.length)
    (h : input.widen 0 s = input.widen 0 t) : s = t := by
  unfold Input.widen at h
  rw [hlen] at h
  split at h
  · cases input with
    | a => exact List.tail_eq_of_cons_eq h
    | b => exact List.append_cancel_right h
  · exact h

theorem source_unique (ho : o.Absorbed) {s t : List Nat} (hs : s.length = o.dims.length)
    (ht : t.length = o.dims.length) (h : o.logical input 0 s = o.logical input 0 t) : s = t := by
  rw [logical_eq ho 0 hs, logical_eq ho 0 ht] at h
  exact widen_injective (hs.trans ht.symm) (apply_injective o.info h)

/-! ## Strides -/

theorem packedStrides_snd (sizes : List Nat) :
    (packedStrides sizes).2 = sizes.prod % 2 ^ 32 := by
  induction sizes with
  | nil => rfl
  | cons size sizes ih =>
    show (packedStrides sizes).2 * size % 2 ^ 32 = _
    rw [ih, List.prod_cons, Nat.mod_mul_mod, Nat.mul_comm]

theorem stridesFit_nil : StridesFit [] := by
  intro front d rest heq
  cases front <;> cases heq

theorem stridesFit_cons {d : Nat} {dims : List Nat} :
    StridesFit (d :: dims) ↔ (1 < d → dims.prod < 2 ^ 32) ∧ StridesFit dims := by
  constructor
  · intro h
    refine ⟨h [] d dims rfl, fun front e rest heq => ?_⟩
    exact h (d :: front) e rest (by rw [heq]; rfl)
  · rintro ⟨hhead, htail⟩ front e rest heq
    cases front with
    | nil =>
      cases heq
      exact hhead
    | cons f front =>
      cases heq
      exact htail front e rest rfl

/-- Packed strides that fit give row-major places. -/
theorem address_dimsOf {dims s : List Nat} (hfit : StridesFit dims) (hs : InBounds s dims) :
    address (dimsOf dims) s = rowMajor dims s := by
  induction hs with
  | nil => rfl
  | @cons j d s dims hj _ ih =>
    rw [stridesFit_cons] at hfit
    rw [dimsOf_cons, address, rowMajor, ih hfit.2, packedStrides_snd]
    refine congrArg (· + _) ?_
    cases j with
    | zero => rfl
    | succ j => rw [Nat.mod_eq_of_lt (hfit.1 (by omega))]

/-- If all elements are found, the strides fit. -/
theorem stridesFit_of_address {dims : List Nat} (hpos : ∀ d ∈ dims, 0 < d)
    (h : ∀ s, InBounds s dims → address (dimsOf dims) s = rowMajor dims s) : StridesFit dims := by
  induction dims with
  | nil => exact stridesFit_nil
  | cons d dims ih =>
    have hposTail : ∀ e ∈ dims, 0 < e := fun e he => hpos e (List.mem_cons_of_mem d he)
    refine stridesFit_cons.2 ⟨fun hd => ?_, ih hposTail fun s hs => ?_⟩
    · have hstep := h (1 :: List.replicate dims.length 0)
        (.cons hd (inBounds_replicate_zero hposTail))
      rw [dimsOf_cons, address, rowMajor, packedStrides_snd, address_zeros, rowMajor_zeros] at hstep
      simp only [Nat.mul_one, Nat.add_zero] at hstep
      rw [← hstep]
      exact Nat.mod_lt _ (by norm_num)
    · have hstep := h (0 :: s) (.cons (hpos d List.mem_cons_self) hs)
      rwa [dimsOf_cons, address, rowMajor, Nat.mul_zero, Nat.mul_zero, Nat.zero_add,
        Nat.zero_add] at hstep

/-! ## What is read of one operand -/

section

variable {own other : List Dim} {x y : Dim} {batchOwn batchOther batch : List Nat} {m n : Nat}

/-- What is known of one operand when the sizes are read as they are. -/
structure Prepared (o : Operand) (input : Input) (own other : List Dim) (x y : Dim)
    (batchOwn batchOther batch : List Nat) (m n : Nat) : Prop where
  absorbed : o.Absorbed
  moved : o.info.moveBatch (input.widen unitDim (dimsOf o.dims)) = own ++ [x, y]
  logical : o.logical input 1 o.dims = batchOwn ++ [m, n]
  sizes : own.map Dim.size = batchOwn
  broadcast : broadcastShapes batchOwn batchOther = some batch
  stretched : (stretched own other).map Dim.size = batch
  two : max own.length other.length ≤ 2

theorem Prepared.gemmElement (h : Prepared o input own other x y batchOwn batchOther batch m n)
    {s i : List Nat} {row col : Nat} (hs : InBounds s o.dims) (hi : InBounds i batch)
    (hlogical : o.logical input 0 s = restrictTo batchOwn i ++ [row, col]) :
    gemmElement (alignRight unitDim 2 (GemmShapesLemmas.stretched own other) ++ [x, y])
        (o.info.isTrans && decide (1 < o.dims.length)) (alignRight 0 2 i) row col =
      address (dimsOf o.dims) s := by
  refine gemmElement_logical h.absorbed rfl hs.length_eq h.moved ?_ h.two ?_
  · rw [h.sizes, hlogical]
  · rw [h.stretched]
    exact hi

theorem Prepared.reads (h : Prepared o input own other x y batchOwn batchOther batch m n)
    (hfit : StridesFit o.dims) {i : List Nat} {row col : Nat} (hi : InBounds i batch)
    (hrow : row < m) (hcol : col < n) :
    o.Reads input batchOwn (alignRight unitDim 2 (GemmShapesLemmas.stretched own other) ++ [x, y]) i
      row col := by
  have hbounds : InBounds (restrictTo batchOwn i ++ [row, col]) (o.logical input 1 o.dims) := by
    rw [h.logical]
    exact List.rel_append (inBounds_restrictTo h.broadcast hi) (.cons hrow (.cons hcol .nil))
  obtain ⟨s, hs, hlogical⟩ := exists_source h.absorbed hbounds
  exact ⟨s, hs, hlogical, (h.gemmElement hs hi hlogical).trans (address_dimsOf hfit hs)⟩

/-- If every element is read where the nodes read it, the strides fit. -/
theorem Prepared.stridesFit (h : Prepared o input own other x y batchOwn batchOther batch m n)
    (hpos : ∀ d ∈ o.dims, 0 < d) (hbatch : ∀ d ∈ batch, 0 < d)
    (hreads : ∀ i, InBounds i batch → ∀ row < m, ∀ col < n,
      o.Reads input batchOwn (alignRight unitDim 2 (GemmShapesLemmas.stretched own other) ++ [x, y])
        i row col) : StridesFit o.dims := by
  refine stridesFit_of_address hpos fun s hs => ?_
  have hbounds : InBounds (o.logical input 0 s) (o.logical input 1 o.dims) :=
    inBounds_logical h.absorbed hs
  rw [h.logical] at hbounds
  obtain ⟨r, row, col, hr⟩ : ∃ r row col, o.logical input 0 s = r ++ [row, col] := by
    refine exists_append_pair ?_
    rw [hbounds.length_eq]
    simp
  rw [hr, inBounds_append_pair] at hbounds
  obtain ⟨hbounds, hrow, hcol⟩ := hbounds
  obtain ⟨i, hi, hrestrict⟩ := exists_restrictTo h.broadcast hbatch hbounds
  obtain ⟨t, ht, hlogical, hread⟩ := hreads i hi row hrow col hcol
  have hindex : o.logical input 0 t = o.logical input 0 s := by
    rw [hlogical, hr, hrestrict]
  have hsame : t = s := source_unique h.absorbed ht.length_eq hs.length_eq hindex
  rw [← hsame, ← hread, h.gemmElement ht hi hlogical]

end

/-! ## Which sizes are read as they are -/

theorem broadcastDim_size (own other : Dim) :
    (broadcastDim own other).size =
      if own.size = other.size then own.size
      else if own.size = 1 then max own.size other.size else own.size := by
  unfold broadcastDim
  split
  · rfl
  · split <;> rfl

/-- Two sizes that broadcast are stretched to the common one exactly when both are read as they
are. -/
theorem stretch_eq_iff {d e c : Nat} {own other : Dim} (h : broadcastSize d e = some c)
    (hown : own.size = readSize d) (hother : other.size = readSize e) :
    (broadcastDim own other).size = c ↔ readSize d = d ∧ readSize e = e := by
  rw [broadcastDim_size, hown, hother]
  have hcases := broadcastSize_cases h
  have hd := @readSize_eq_iff d
  have he := @readSize_eq_iff e
  have hone := readSize_one
  grind

theorem zipWith_sizes_eq_iff {A B C : List Nat} {own other : List Dim}
    (h : List.Forall₂ (fun p c => broadcastSize p.1 p.2 = some c) (A.zip B) C)
    (hlen : A.length = B.length) (hown : own.map Dim.size = A.map readSize)
    (hother : other.map Dim.size = B.map readSize) :
    (List.zipWith broadcastDim own other).map Dim.size = C ↔
      (∀ d ∈ A, readSize d = d) ∧ ∀ d ∈ B, readSize d = d := by
  induction A generalizing B C own other with
  | nil =>
    obtain rfl := List.length_eq_zero_iff.1 hlen.symm
    obtain rfl := List.map_eq_nil_iff.1 hown
    cases h
    simp
  | cons d A ih =>
    cases B with
    | nil => cases hlen
    | cons e B =>
      cases h with
      | @cons _ c _ C hfirst hrest =>
        obtain ⟨x, own, rfl, hx, hown⟩ := List.map_eq_cons_iff.1 hown
        obtain ⟨y, other, rfl, hy, hother⟩ := List.map_eq_cons_iff.1 hother
        simp only [List.zipWith_cons_cons, List.map_cons, List.cons.injEq, List.forall_mem_cons]
        rw [stretch_eq_iff hfirst hx hy, ih hrest (Nat.succ.inj hlen) hown hother]
        tauto

theorem stretched_sizes_eq_iff {batchA batchB batch : List Nat} {own other : List Dim}
    (h : broadcastShapes batchA batchB = some batch)
    (hown : own.map Dim.size = batchA.map readSize)
    (hother : other.map Dim.size = batchB.map readSize) :
    (stretched own other).map Dim.size = batch ↔
      (∀ d ∈ batchA, readSize d = d) ∧ ∀ d ∈ batchB, readSize d = d := by
  have hlenA : own.length = batchA.length := by simpa using congrArg List.length hown
  have hlenB : other.length = batchB.length := by simpa using congrArg List.length hother
  have hread : ∀ (n : Nat) (l : List Nat) (v : List Dim), v.map Dim.size = l.map readSize →
      (alignRight unitDim n v).map Dim.size = (alignRight 1 n l).map readSize := by
    intro n l v hv
    rw [map_alignRight, map_alignRight, hv]
    rfl
  have hmem : ∀ (n : Nat) (l : List Nat),
      (∀ d ∈ alignRight 1 n l, readSize d = d) ↔ ∀ d ∈ l, readSize d = d := by
    intro n l
    constructor
    · exact fun hall d hd => hall d (List.mem_append_right _ hd)
    · intro hall d hd
      rcases List.mem_append.1 hd with hpad | hd
      · rw [List.eq_of_mem_replicate hpad]
        rfl
      · exact hall d hd
  rw [broadcastShapes, mapM_eq_some_iff] at h
  rw [stretched, hlenA, hlenB, zipWith_sizes_eq_iff h (by simp [length_alignRight])
    (hread _ _ _ hown) (hread _ _ _ hother), hmem, hmem]

theorem mem_widen {d x : Nat} {l : List Nat} :
    (d ∈ l → d ∈ input.widen x l) ∧ (d ∈ input.widen x l → d = x ∨ d ∈ l) := by
  unfold Input.widen
  split
  · cases input
    · exact ⟨List.mem_cons_of_mem x, List.mem_cons.1⟩
    · refine ⟨List.mem_append_left [x], fun h => ?_⟩
      rcases List.mem_append.1 h with hd | hd
      · exact Or.inr hd
      · exact Or.inl (List.mem_singleton.1 hd)
  · exact ⟨id, Or.inr⟩

/-- The sizes of the logical shape are those of the tensor, and perhaps 1. -/
theorem forall_logical_iff (input : Input) (ho : o.Absorbed) :
    (∀ d ∈ o.logical input 1 o.dims, readSize d = d) ↔ ∀ d ∈ o.dims, readSize d = d := by
  rw [logical_eq ho 1 rfl]
  simp only [(o.info.apply_perm _).mem_iff]
  constructor
  · exact fun h d hd => h d (mem_widen.1 hd)
  · intro h d hd
    rcases mem_widen.2 hd with rfl | hd
    · rfl
    · exact h d hd

theorem map_readSize {l : List Nat} (h : ∀ d ∈ l, readSize d = d) : l.map readSize = l := by
  conv_rhs => rw [← List.map_id l]
  exact List.map_congr_left h

theorem length_le_of_logical (ho : o.Absorbed) {batch : List Nat} {u v : Nat}
    (h : o.logical input 1 o.dims = batch ++ [u, v]) :
    o.dims.length ≤ batch.length + 2 ∧ (o.dims.length ≤ 4 → batch.length ≤ 2) := by
  have hlen := congrArg List.length h
  rw [logical_eq ho 1 rfl, (o.info.apply_perm _).length_eq, length_widen, List.length_append] at hlen
  simp only [List.length_cons, List.length_nil] at hlen
  split at hlen <;> omega

section

variable {a b : Operand} {g : GemmShapes} {batchA batchB : List Dim} {rowA colA rowB colB : Dim}
  {LA LB batch : List Nat} {m k l n : Nat}

/-- The parts of prepared shapes beside the logical shapes of the two operands. -/
structure Shapes (a b : Operand) (g : GemmShapes) (batchA batchB : List Dim)
    (rowA colA rowB colB : Dim) (LA LB batch : List Nat) (m k l n : Nat) : Prop where
  absorbedA : a.Absorbed
  absorbedB : b.Absorbed
  parts : Parts (a.dims.map readSize) (b.dims.map readSize) a.info b.info g batchA batchB rowA colA
    rowB colB
  left : a.logical .a 1 a.dims = LA ++ [m, k]
  right : b.logical .b 1 b.dims = LB ++ [l, n]
  broadcast : broadcastShapes LA LB = some batch
  two : batch.length ≤ 2

theorem Shapes.length_le (h : Shapes a b g batchA batchB rowA colA rowB colB LA LB batch m k l n) :
    max batchA.length batchB.length ≤ 2 := by
  have hlenA := congrArg List.length (moved_sizes h.absorbedA h.left h.parts.movedA).1
  have hlenB := congrArg List.length (moved_sizes h.absorbedB h.right h.parts.movedB).1
  rw [List.length_map, List.length_map] at hlenA hlenB
  rw [hlenA, hlenB, ← length_of_broadcastShapes h.broadcast]
  exact h.two

/-- The output has the shape of the product, and the sums have its length, exactly when all sizes
are read as they are. -/
theorem Shapes.sizes_iff
    (h : Shapes a b g batchA batchB rowA colA rowB colB LA LB batch m k l n) :
    g.cSizes = alignRight 1 4 (batch ++ [m, n]) ∧ innerA g.a a.info.isTrans = k ∧
        innerB g.b b.info.isTrans = l ↔
      (∀ d ∈ a.dims, readSize d = d) ∧ ∀ d ∈ b.dims, readSize d = d := by
  obtain ⟨hmapA, houterA, hinnerA⟩ := moved_sizes h.absorbedA h.left h.parts.movedA
  obtain ⟨hmapB, hinnerB, houterB⟩ := moved_sizes h.absorbedB h.right h.parts.movedB
  have hfour := h.parts.fourDims h.length_le
  have hlenA : batchA.length = LA.length := by simpa using congrArg List.length hmapA
  have hlenB : batchB.length = LB.length := by simpa using congrArg List.length hmapB
  have hlen : ((stretched batchA batchB).map Dim.size).length = batch.length := by
    rw [List.length_map, length_stretched, length_of_broadcastShapes h.broadcast, hlenA, hlenB]
  have hpad : alignRight 1 4 (batch ++ [m, n]) = alignRight 1 2 batch ++ [m, n] :=
    alignRight_append 1 2 batch [m, n]
  have hends : ∀ (u v : List Nat) (p q : Nat),
      u ++ [p, q] = v ++ [m, n] ↔ u = v ∧ p = m ∧ q = n := by
    intro u v p q
    constructor
    · intro heq
      obtain ⟨huv, hpq⟩ := List.append_inj' heq rfl
      cases hpq
      exact ⟨huv, rfl, rfl⟩
    · rintro ⟨rfl, rfl, rfl⟩
      rfl
  rw [← forall_logical_iff .a h.absorbedA, ← forall_logical_iff .b h.absorbedB, h.left, h.right,
    hfour.cSizes, hfour.innerA, hfour.innerB, houterA, hinnerA, hinnerB, houterB, hpad, hends,
    alignRight_inj hlen, stretched_sizes_eq_iff h.broadcast hmapA hmapB]
  simp only [List.forall_mem_append, List.forall_mem_cons, List.not_mem_nil, false_implies,
    implies_true, and_true]
  tauto

/-- What the parts say of each operand when the sizes are read as they are. -/
theorem Shapes.prepared
    (h : Shapes a b g batchA batchB rowA colA rowB colB LA LB batch m k l n)
    (hsizesA : ∀ d ∈ a.dims, readSize d = d) (hsizesB : ∀ d ∈ b.dims, readSize d = d) :
    Prepared a .a batchA batchB rowA colA LA LB batch m k ∧
      Prepared b .b batchB batchA rowB colB LB LA batch l n := by
  obtain ⟨hmapA, -⟩ := moved_sizes h.absorbedA h.left h.parts.movedA
  obtain ⟨hmapB, -⟩ := moved_sizes h.absorbedB h.right h.parts.movedB
  have hmovedA := h.parts.movedA
  have hmovedB := h.parts.movedB
  rw [map_readSize hsizesA] at hmovedA
  rw [map_readSize hsizesB] at hmovedB
  rw [← forall_logical_iff .a h.absorbedA, h.left] at hsizesA
  rw [← forall_logical_iff .b h.absorbedB, h.right] at hsizesB
  have hLA : ∀ d ∈ LA, readSize d = d := fun d hd => hsizesA d (List.mem_append_left _ hd)
  have hLB : ∀ d ∈ LB, readSize d = d := fun d hd => hsizesB d (List.mem_append_left _ hd)
  have hswap := broadcastShapes_comm h.broadcast
  refine ⟨⟨h.absorbedA, hmovedA, h.left, ?_, h.broadcast, ?_, h.length_le⟩,
    ⟨h.absorbedB, hmovedB, h.right, ?_, hswap, ?_, ?_⟩⟩
  · rw [hmapA, map_readSize hLA]
  · exact (stretched_sizes_eq_iff h.broadcast hmapA hmapB).2 ⟨hLA, hLB⟩
  · rw [hmapB, map_readSize hLB]
  · exact (stretched_sizes_eq_iff hswap hmapB hmapA).2 ⟨hLB, hLA⟩
  · rw [max_comm]
    exact h.length_le

end

end GemmShapesLemmas

open GemmShapesLemmas

section

variable {a b : Operand} {g : GemmShapes}

theorem denotes_of_fits (ha : a.Absorbed) (hb : b.Absorbed)
    (hg : prepareGemmShapes (a.dims.map readSize) (b.dims.map readSize) a.info b.info = some g)
    (h : Fits a b) : Denotes a b g := by
  obtain ⟨batchA, batchB, rowA, colA, rowB, colB, hparts⟩ := exists_parts hg
  obtain ⟨LA, LB, m, k, l, n, hleft, hright, hbroadcast⟩ := h.batch
  obtain ⟨batch, hbatch⟩ := Option.isSome_iff_exists.1 hbroadcast
  have htwo : batch.length ≤ 2 := by
    rw [length_of_broadcastShapes hbatch]
    exact max_le ((length_le_of_logical ha hleft).2 h.rank.1)
      ((length_le_of_logical hb hright).2 h.rank.2)
  have hshapes : Shapes a b g batchA batchB rowA colA rowB colB LA LB batch m k l n :=
    ⟨ha, hb, hparts, hleft, hright, hbatch, htwo⟩
  have hsizesA : ∀ d ∈ a.dims, readSize d = d := fun d hd =>
    readSize_eq_iff.2 (h.sizes d (List.mem_append_left _ hd))
  have hsizesB : ∀ d ∈ b.dims, readSize d = d := fun d hd =>
    readSize_eq_iff.2 (h.sizes d (List.mem_append_right _ hd))
  obtain ⟨hcSizes, hinnerA, hinnerB⟩ := hshapes.sizes_iff.2 ⟨hsizesA, hsizesB⟩
  obtain rfl : k = l := by rw [← hinnerA, hparts.inner, hinnerB]
  obtain ⟨hpreparedA, hpreparedB⟩ := hshapes.prepared hsizesA hsizesB
  have hfour := hparts.fourDims hshapes.length_le
  refine ⟨LA, LB, batch, m, k, n, ⟨hleft, hright, hbatch⟩, hcSizes, hinnerA, ?_⟩
  intro i hi row hrow col hcol j hj
  rw [hfour.a, hfour.b]
  exact ⟨hpreparedA.reads h.strides.1 hi hrow hj, hpreparedB.reads h.strides.2 hi hj hcol⟩

theorem fits_of_denotes (ha : a.Absorbed) (hb : b.Absorbed)
    (hg : prepareGemmShapes (a.dims.map readSize) (b.dims.map readSize) a.info b.info = some g)
    (h : Denotes a b g) : Fits a b := by
  obtain ⟨batchA, batchB, rowA, colA, rowB, colB, hparts⟩ := exists_parts hg
  obtain ⟨LA, LB, batch, m, k, n, ⟨hleft, hright, hbatch⟩, hcSizes, hinner, hreads⟩ := h
  -- the descriptors have four dimensions
  have htwo : batch.length ≤ 2 := by
    have hlen := congrArg List.length hcSizes
    rw [hparts.cSizes, length_alignRight, List.length_append] at hlen
    simp only [List.length_cons, List.length_nil] at hlen
    omega
  have hshapes : Shapes a b g batchA batchB rowA colA rowB colB LA LB batch m k k n :=
    ⟨ha, hb, hparts, hleft, hright, hbatch, htwo⟩
  obtain ⟨hsizesA, hsizesB⟩ := hshapes.sizes_iff.1 ⟨hcSizes, hinner, hparts.inner.symm.trans hinner⟩
  obtain ⟨hpreparedA, hpreparedB⟩ := hshapes.prepared hsizesA hsizesB
  have hfour := hparts.fourDims hshapes.length_le
  rw [hfour.a, hfour.b] at hreads
  have hposA : ∀ d ∈ a.dims, 0 < d := fun d hd => (readSize_eq_iff.1 (hsizesA d hd)).1
  have hposB : ∀ d ∈ b.dims, 0 < d := fun d hd => (readSize_eq_iff.1 (hsizesB d hd)).1
  have hposLeft : ∀ d ∈ LA ++ [m, k], 0 < d := by
    rw [← hleft]
    exact fun d hd => (readSize_eq_iff.1 ((forall_logical_iff .a ha).2 hsizesA d hd)).1
  have hposRight : ∀ d ∈ LB ++ [k, n], 0 < d := by
    rw [← hright]
    exact fun d hd => (readSize_eq_iff.1 ((forall_logical_iff .b hb).2 hsizesB d hd)).1
  have hposBatch : ∀ d ∈ batch, 0 < d := by
    intro d hd
    rcases mem_broadcastShapes hbatch hd with rfl | hmem | hmem
    · exact Nat.one_pos
    · exact hposLeft d (List.mem_append_left _ hmem)
    · exact hposRight d (List.mem_append_left _ hmem)
  have hm : 0 < m := hposLeft m (by simp)
  have hn : 0 < n := hposRight n (by simp)
  have hstridesA := hpreparedA.stridesFit hposA hposBatch fun i hi row hrow j hj =>
    (hreads i hi row hrow 0 hn j hj).1
  have hstridesB := hpreparedB.stridesFit hposB hposBatch fun i hi j hj col hcol =>
    (hreads i hi 0 hm col hcol j hj).2
  have hlens := length_of_broadcastShapes hbatch
  have hrankA := (length_le_of_logical ha hleft).1
  have hrankB := (length_le_of_logical hb hright).1
  exact {
    rank := by omega
    sizes := by
      intro d hd
      rcases List.mem_append.1 hd with hd | hd
      · exact readSize_eq_iff.1 (hsizesA d hd)
      · exact readSize_eq_iff.1 (hsizesB d hd)
    strides := ⟨hstridesA, hstridesB⟩
    batch := ⟨LA, LB, m, k, k, n, hleft, hright, by rw [hbatch]; rfl⟩ }

end

/-- A tensor of shape `[2, 3, 4]` whose first axis an absorbed `Transpose` puts last. -/
def rotated : Operand where
  dims := [2, 3, 4]
  transpose := some
    { id := 0, opType := "Transpose", inputs := [some "x"], outputs := [some "y"],
      attributes := [("perm", .ints [1, 2, 0])] }

theorem rotated_absorbed : rotated.Absorbed := by
  intro node hnode
  cases hnode
  exact ⟨⟨none, fun i hi => (by cases hi), by decide⟩, by decide, by decide⟩

theorem plain_absorbed (dims : List Nat) : Operand.Absorbed { dims := dims } :=
  fun _ hnode => nomatch hnode

/-- Batch shapes that do not broadcast are not rejected. -/
example : (prepareGemmShapes [2, 4, 5] [3, 5, 6] {} {}).map GemmShapes.cSizes =
    some [1, 2, 4, 6] := by
  decide

end AmdGpuEp.DirectML.FusedMatMul
