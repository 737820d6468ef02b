import AmdGpuEp.DirectML.Transpose

/-!
# Pads of the true rank

`TranslatePad` reads the pads of a tensor from its second input, or from an
attribute, and counts them by the recorded sizes, which are padded to four
dimensions. An input is read without a look at its length; a list from an attribute
that is too short is not read at all. The axes and the constant are not read.

Results:
1. `pad_iff`: when the description has the ONNX pads.
2. `matrixPad_misread`: a matrix whose pads are read beyond their end.
-/

namespace AmdGpuEp.DirectML

/-! ## ONNX pads -/

/-- The dimension that an ONNX axis names. -/
def placeOfAxis (rank : Nat) (axis : Int) : Nat :=
  (if axis < 0 then axis + rank else axis).toNat

/-- The dimension behind the padding to four. -/
def paddedPlace (rank : Nat) (axis : Int) : Nat :=
  placeOfAxis rank axis + (4 - rank)

def ValidAxis (rank : Nat) (axis : Int) : Prop :=
  -rank ≤ axis ∧ axis < rank

instance (rank : Nat) (axis : Int) : Decidable (ValidAxis rank axis) :=
  inferInstanceAs (Decidable (_ ∧ _))

/-- The values of the listed axes, in the order of the dimensions, 0 for the others. -/
def alongAxes (rank : Nat) (places : List Nat) (values : List Int) : List Int :=
  (List.range rank).map fun d => if d ∈ places then values.getD (places.idxOf d) 0 else 0

/-- The dimensions that the pads are listed for. -/
def padPlaces (rank : Nat) (axes : Option (List Int)) : List Nat :=
  ((axes.map fun given => given.map (placeOfAxis rank))).getD (List.range rank)

/-- The pads at the begin and at the end of every dimension. -/
def onnxPads (rank : Nat) (pads : List Int) (axes : Option (List Int)) : List Int × List Int :=
  let places := padPlaces rank axes
  (alongAxes rank places (pads.take places.length),
    alongAxes rank places (pads.drop places.length))

/-- What a node says: its pads, which are constant, the axes that they are for, and the bits of the
value that is padded with. -/
structure PadNode (node : Node) (initializers : String → Option Initializer) (rank : Nat)
    (pads : List Int) (axes : Option (List Int)) (constant : Nat) : Prop where
  fromInput : (presentInput node 1).isSome → ∃ init data,
    constantInput initializers node 1 = some (init, data) ∧ data.length = 8 * pads.length ∧
      ∀ beyond, readInt64s beyond (init, data) = pads
  fromAttribute : presentInput node 1 = none → getAttributeInts node "pads" = pads ∧ axes = none
  axesGiven : presentInput node 3 = none → axes = none
  places : (padPlaces rank axes).Nodup ∧ ∀ d ∈ padPlaces rank axes, d < rank
  count : pads.length = 2 * (padPlaces rank axes).length
  constantBits : ∀ constantInit data, constantInput initializers node 2 = some (constantInit, data) →
    ∀ beyond, constant = readBits beyond data 0 data.length
  constantAttribute : presentInput node 1 = none →
    constant = ((getAttributeFloat node "value").getD 0).toNat
  noConstant : (presentInput node 1).isSome → presentInput node 2 = none → constant = 0

/-- `desc.PaddingValue`, which is initialized with zeros and not written. -/
def paddingValue : ScalarUnion :=
  .bits 0

/-- The description has the pads behind those of the dimensions that were added, and pads with the
constant when it pads with one. -/
def PadsAs (shape : List Nat) (begins ends : List Int) (constant : Nat) (desc : ValueOpDesc) : Prop :=
  ∃ mode dtype starts stops, desc = .padding mode dtype starts stops ∧
    starts.map Int.ofNat = List.replicate (4 - shape.length) 0 ++ begins ∧
    stops.map Int.ofNat = List.replicate (4 - shape.length) 0 ++ ends ∧
    (mode = .constant → paddingValue = .bits constant)

/-- Whatever lies behind the pads, so that none but the pads are read. -/
def PadsExactly (node : Node) (shapes : ValueShapes) (initializers : String → Option Initializer)
    (shape : List Nat) (begins ends : List Int) (constant : Nat) : Prop :=
  ∀ beyond t, translatePad beyond node shapes initializers = some t →
    PadsAs shape begins ends constant t.opDesc

/-- The translator pads with 0, and does not wrap. -/
structure Paddable (node : Node) (shape : List Nat) (pads : List Int) (axes : Option (List Int))
    (constant : Nat) : Prop where
  constant : paddingMode (getAttributeString node "mode" "constant") = .constant → constant = 0
  fits : ∀ p ∈ pads, 0 ≤ p ∧ p < 2 ^ 32
  fromInput : (presentInput node 1).isSome → 4 ≤ shape.length ∧
    pads.length = 2 * shape.length ∧
    onnxPads shape.length pads axes = (pads.take shape.length, pads.drop shape.length)
  fromAttribute : presentInput node 1 = none → shape.length < 4 → ∀ p ∈ pads, p = 0

namespace PadLemmas

theorem toUInt32_eq_iff {p : Int} : Int.ofNat (toUInt32 p) = p ↔ 0 ≤ p ∧ p < 2 ^ 32 := by
  unfold toUInt32
  rw [Int.ofNat_eq_natCast]
  omega

theorem toUInt32_lt (p : Int) : 0 ≤ Int.ofNat (toUInt32 p) ∧ Int.ofNat (toUInt32 p) < 2 ^ 32 := by
  unfold toUInt32
  rw [Int.ofNat_eq_natCast]
  omega

/-- What has been converted fits. -/
theorem fits_of_map {l k : List Int} (h : (l.map toUInt32).map Int.ofNat = k) :
    ∀ p ∈ k, 0 ≤ p ∧ p < 2 ^ 32 := by
  subst h
  intro p hp
  rw [List.map_map] at hp
  obtain ⟨q, -, rfl⟩ := List.mem_map.1 hp
  exact toUInt32_lt q

theorem map_toUInt32_eq {l : List Int} (h : ∀ p ∈ l, 0 ≤ p ∧ p < 2 ^ 32) :
    (l.map toUInt32).map Int.ofNat = l := by
  rw [List.map_map]
  conv_rhs => rw [← List.map_id l]
  exact List.map_congr_left fun p hp => toUInt32_eq_iff.2 (h p hp)

/-! ## Pads along axes -/

section

variable {rank : Nat} {places : List Nat} {values : List Int}

/-- Every value stands at its place. -/
theorem mem_alongAxes (hnodup : places.Nodup) (hlt : ∀ d ∈ places, d < rank)
    (hlen : values.length = places.length) {p : Int} (hp : p ∈ values) :
    p ∈ alongAxes rank places values := by
  obtain ⟨j, hj, rfl⟩ := List.getElem_of_mem hp
  have hj' : j < places.length := hlen ▸ hj
  refine List.mem_map.2 ⟨places[j], List.mem_range.2 (hlt _ (List.getElem_mem hj')), ?_⟩
  rw [if_pos (List.getElem_mem hj'), hnodup.idxOf_getElem, List.getD_eq_getElem?_getD,
    List.getElem?_eq_getElem hj, Option.getD_some]

theorem alongAxes_range (hlen : values.length = rank) :
    alongAxes rank (List.range rank) values = values := by
  conv_rhs => rw [← map_getD_range 0 values, hlen]
  refine List.map_congr_left fun d hd => ?_
  have hidx : (List.range rank).idxOf d = d := by
    have hlt : d < (List.range rank).length := by simpa using hd
    have hget := List.nodup_range.idxOf_getElem d hlt
    rwa [List.getElem_range] at hget
  rw [if_pos hd, hidx]

theorem length_places_le (hnodup : places.Nodup) (hlt : ∀ d ∈ places, d < rank) :
    places.length ≤ rank := by
  have hsub : places ⊆ List.range rank := fun d hd => List.mem_range.2 (hlt d hd)
  simpa using (hnodup.subperm hsub).length_le

end

/-! ## Reading -/

section

variable {beyond : Nat → UInt8} {init : Initializer} {data : List UInt8} {pads : List Int}

theorem readInt64_of_lt (hread : readInt64s beyond (init, data) = pads) {i : Nat}
    (hi : i < pads.length) : readInt64 beyond data i = pads[i] := by
  subst hread
  simp [readInt64s]

theorem readInt64_beyond (b : UInt8) {i : Nat} (hi : data.length ≤ 8 * i) :
    readInt64 (fun _ => b) data i =
      (BitVec.ofNat 64 ((List.range 8).foldr (fun _ acc => b.toNat + 256 * acc) 0)).toInt := by
  unfold readInt64 readBits
  refine congrArg (fun n => (BitVec.ofNat 64 n).toInt) (List.foldr_ext _ _ _ fun k _ acc => ?_)
  rw [List.getD_eq_default _ _ (by omega)]

/-- What lies behind the data is not seen within it. -/
theorem readInt64s_inside (beyond' : Nat → UInt8) (h : 8 * init.dims.prod ≤ data.length) :
    readInt64s beyond (init, data) = readInt64s beyond' (init, data) := by
  refine List.map_congr_left fun i hi => ?_
  have hi : i < init.dims.prod := List.mem_range.1 hi
  unfold readInt64 readBits
  refine congrArg (fun n => (BitVec.ofNat 64 n).toInt) (List.foldr_ext _ _ _ fun k hk acc => ?_)
  have hk : k < 8 := List.mem_range.1 hk
  have hlt : 8 * i + k < data.length := by omega
  simp only [List.getD_eq_getElem?_getD, List.getElem?_eq_getElem hlt, Option.getD_some]

/-- What is read there is not the same for all that may lie there. -/
theorem read_beyond_differs {i : Nat} (hi : data.length ≤ 8 * i) (p : Int) :
    ¬ ∀ beyond, Int.ofNat (toUInt32 (readInt64 beyond data i)) = p := by
  intro h
  have hzero := h fun _ => 0
  have hones := h fun _ => 255
  rw [readInt64_beyond 0 hi] at hzero
  rw [readInt64_beyond 255 hi, ← hzero] at hones
  exact absurd hones (by decide)

end

/-! ## The two sources -/

section

variable {node : Node} {shapes : ValueShapes} {initializers : String → Option Initializer}
  {shape : List Nat} {pads : List Int} {axes : Option (List Int)} {constant : Nat}

variable (initializers) in
theorem translatePad_of_begins {info : DmlTensorInfo} (hbegins : Begins node shapes info)
    (hinfo : info.sizes = padToMinDims shape 4) (beyond : Nat → UInt8) :
    (translatePad beyond node shapes initializers).map TranslatedOp.opDesc =
      some (.padding (paddingMode (getAttributeString node "mode" "constant")) info.dataType
        (paddings beyond node initializers (max 4 shape.length)).1
        (paddings beyond node initializers (max 4 shape.length)).2) := by
  obtain ⟨outEdge, hedge⟩ := ValueInputsLemmas.withShapes_of_begins hbegins
  have hrank : info.sizes.length = max 4 shape.length := by
    rw [hinfo, BroadcastingLemmas.length_padToMinDims]
  have hfront : max (max 4 shape.length) 4 - max 4 shape.length = 0 := by omega
  simp only [translatePad, hedge, hrank, hfront, List.replicate_zero, List.nil_append]
  rfl

/-- The description, for all that may lie behind the pads. -/
theorem padsExactly_iff {info : DmlTensorInfo} (hbegins : Begins node shapes info)
    (hinfo : info.sizes = padToMinDims shape 4) (begins ends : List Int) :
    PadsExactly node shapes initializers shape begins ends constant ↔
      (paddingMode (getAttributeString node "mode" "constant") = .constant → constant = 0) ∧
        ∀ beyond, (paddings beyond node initializers (max 4 shape.length)).1.map Int.ofNat =
            List.replicate (4 - shape.length) 0 ++ begins ∧
          (paddings beyond node initializers (max 4 shape.length)).2.map Int.ofNat =
            List.replicate (4 - shape.length) 0 ++ ends := by
  have hdesc := translatePad_of_begins initializers hbegins hinfo
  constructor
  · intro h
    have hall : ∀ beyond, PadsAs shape begins ends constant (.padding
        (paddingMode (getAttributeString node "mode" "constant")) info.dataType
        (paddings beyond node initializers (max 4 shape.length)).1
        (paddings beyond node initializers (max 4 shape.length)).2) := by
      intro beyond
      obtain ⟨t, ht, hop⟩ := Option.map_eq_some_iff.1 (hdesc beyond)
      exact hop ▸ h beyond t ht
    refine ⟨fun hmode => ?_, fun beyond => ?_⟩
    · obtain ⟨_, _, _, _, ⟨⟩, -, -, hvalue⟩ := hall fun _ => 0
      exact (ScalarUnion.bits.inj (hvalue hmode)).symm
    · obtain ⟨_, _, _, _, ⟨⟩, hstarts, hstops, -⟩ := hall beyond
      exact ⟨hstarts, hstops⟩
  · rintro ⟨hvalue, hpads⟩ beyond t ht
    have hop := hdesc beyond
    rw [ht] at hop
    exact ⟨_, _, _, _, Option.some.inj hop, (hpads beyond).1, (hpads beyond).2,
      fun hmode => congrArg ScalarUnion.bits (hvalue hmode).symm⟩

/-- All values are among the pads of the dimensions. -/
theorem fits_of_onnxPads (h : PadNode node initializers shape.length pads axes constant)
    (hbegins : ∀ p ∈ (onnxPads shape.length pads axes).1, 0 ≤ p ∧ p < 2 ^ 32)
    (hends : ∀ p ∈ (onnxPads shape.length pads axes).2, 0 ≤ p ∧ p < 2 ^ 32) :
    ∀ p ∈ pads, 0 ≤ p ∧ p < 2 ^ 32 := by
  have hcount := h.count
  intro p hp
  rw [← List.take_append_drop (padPlaces shape.length axes).length pads] at hp
  rcases List.mem_append.1 hp with hp | hp
  · refine hbegins p (mem_alongAxes h.places.1 h.places.2 ?_ hp)
    rw [List.length_take]
    omega
  · refine hends p (mem_alongAxes h.places.1 h.places.2 ?_ hp)
    rw [List.length_drop]
    omega

theorem paddings_input {init : Initializer} {data : List UInt8}
    (hconst : constantInput initializers node 1 = some (init, data)) (beyond : Nat → UInt8)
    (rank : Nat) :
    paddings beyond node initializers rank =
      ((List.range rank).map fun i => toUInt32 (readInt64 beyond data i),
        (List.range rank).map fun i => toUInt32 (readInt64 beyond data (rank + i))) := by
  have hpresent : (presentInput node 1).isSome := by
    rw [Option.isSome_iff_ne_none]
    intro hnone
    rw [constantInput, hnone] at hconst
    cases hconst
  rw [paddings, if_pos hpresent, hconst]

/-- An input is right when it has four dimensions or more, lists the pads of all of them in their
order, and nothing wraps. -/
theorem input_iff (h : PadNode node initializers shape.length pads axes constant)
    (hinput : (presentInput node 1).isSome) :
    (∀ beyond, (paddings beyond node initializers (max 4 shape.length)).1.map Int.ofNat =
          List.replicate (4 - shape.length) 0 ++ (onnxPads shape.length pads axes).1 ∧
        (paddings beyond node initializers (max 4 shape.length)).2.map Int.ofNat =
          List.replicate (4 - shape.length) 0 ++ (onnxPads shape.length pads axes).2) ↔
      (∀ p ∈ pads, 0 ≤ p ∧ p < 2 ^ 32) ∧ 4 ≤ shape.length ∧ pads.length = 2 * shape.length ∧
        onnxPads shape.length pads axes = (pads.take shape.length, pads.drop shape.length) := by
  obtain ⟨init, data, hconst, hdata, hread⟩ := h.fromInput hinput
  have hcount := h.count
  have hplaces := length_places_le h.places.1 h.places.2
  simp only [paddings_input hconst]
  -- the values that are listed
  have hlisted : ∀ beyond rank offset, offset + rank ≤ pads.length →
      (List.range rank).map (fun i => toUInt32 (readInt64 beyond data (offset + i))) =
        ((pads.drop offset).take rank).map toUInt32 := by
    intro beyond rank offset hle
    refine List.ext_getElem (by simp; omega) fun i hi _ => ?_
    have hi : i < rank := by simpa using hi
    have hvalue := readInt64_of_lt (hread beyond) (i := offset + i) (by omega)
    simp [hvalue]
  constructor
  · intro hall
    have henough : 2 * max 4 shape.length ≤ pads.length := by
      by_contra hshort
      -- the last value that is read is behind the pads
      have hlast : data.length ≤ 8 * (max 4 shape.length + (max 4 shape.length - 1)) := by omega
      refine read_beyond_differs hlast ((List.replicate (4 - shape.length) 0 ++
        (onnxPads shape.length pads axes).2).getD (max 4 shape.length - 1) 0) fun beyond => ?_
      have hlt : max 4 shape.length - 1 < max 4 shape.length := by omega
      rw [← (hall beyond).2, List.map_map, List.getD_eq_getElem _ _
        (by rw [List.length_map, List.length_range]; exact hlt), List.getElem_map,
        List.getElem_range, Function.comp_apply]
    have hrank : 4 ≤ shape.length := by omega
    have hlen : pads.length = 2 * shape.length := by omega
    have hmax : max 4 shape.length = shape.length := Nat.max_eq_right hrank
    have hfront : 4 - shape.length = 0 := Nat.sub_eq_zero_of_le hrank
    obtain ⟨hbegins, hends⟩ := hall fun _ => 0
    rw [hmax, hfront, List.replicate_zero, List.nil_append] at hbegins hends
    rw [hlisted (fun _ => 0) shape.length shape.length (by omega)] at hends
    have hstart := hlisted (fun _ => 0) shape.length 0 (by omega)
    simp only [Nat.zero_add, List.drop_zero] at hstart
    rw [hstart] at hbegins
    have hfits := fits_of_onnxPads h (fits_of_map hbegins) (fits_of_map hends)
    rw [map_toUInt32_eq fun p hp => hfits p (List.mem_of_mem_take hp)] at hbegins
    rw [map_toUInt32_eq fun p hp => hfits p (List.mem_of_mem_drop (List.mem_of_mem_take hp)),
      List.take_of_length_le (by rw [List.length_drop]; omega)] at hends
    exact ⟨hfits, hrank, hlen, Prod.ext hbegins.symm hends.symm⟩
  · rintro ⟨hfits, hrank, hlen, hpads⟩ beyond
    have hmax : max 4 shape.length = shape.length := Nat.max_eq_right hrank
    have hfront : 4 - shape.length = 0 := Nat.sub_eq_zero_of_le hrank
    have hstart := hlisted beyond shape.length 0 (by omega)
    simp only [Nat.zero_add, List.drop_zero] at hstart
    rw [hmax, hfront, List.replicate_zero, List.nil_append, List.nil_append, hpads, hstart,
      hlisted beyond shape.length shape.length (by omega),
      map_toUInt32_eq fun p hp => hfits p (List.mem_of_mem_take hp),
      map_toUInt32_eq fun p hp => hfits p (List.mem_of_mem_drop (List.mem_of_mem_take hp)),
      List.take_of_length_le (l := pads.drop shape.length) (by rw [List.length_drop]; omega)]
    exact ⟨rfl, rfl⟩

/-- An attribute is right when nothing wraps, and below four dimensions when all pads are 0. -/
theorem attribute_iff (h : PadNode node initializers shape.length pads axes constant)
    (hinput : presentInput node 1 = none) :
    (∀ beyond, (paddings beyond node initializers (max 4 shape.length)).1.map Int.ofNat =
          List.replicate (4 - shape.length) 0 ++ (onnxPads shape.length pads axes).1 ∧
        (paddings beyond node initializers (max 4 shape.length)).2.map Int.ofNat =
          List.replicate (4 - shape.length) 0 ++ (onnxPads shape.length pads axes).2) ↔
      (∀ p ∈ pads, 0 ≤ p ∧ p < 2 ^ 32) ∧ (shape.length < 4 → ∀ p ∈ pads, p = 0) := by
  obtain ⟨hattr, rfl⟩ := h.fromAttribute hinput
  have hlen : pads.length = 2 * shape.length := by
    rw [h.count]
    simp [padPlaces]
  have htake : (pads.take shape.length).length = shape.length := by
    rw [List.length_take]
    omega
  have hdrop : (pads.drop shape.length).length = shape.length := by
    rw [List.length_drop]
    omega
  have honnx : onnxPads shape.length pads none =
      (pads.take shape.length, pads.drop shape.length) := by
    simp only [onnxPads, padPlaces, Option.map_none, Option.getD_none, List.length_range]
    rw [alongAxes_range htake, alongAxes_range hdrop]
  have hnone : ¬ (presentInput node 1).isSome := by simp [hinput]
  simp only [paddings, if_neg hnone, hattr, honnx, forall_const]
  by_cases hrank : 4 ≤ shape.length
  · have hmax : max 4 shape.length = shape.length := Nat.max_eq_right hrank
    have hfront : 4 - shape.length = 0 := Nat.sub_eq_zero_of_le hrank
    rw [hmax, hfront, if_pos (by omega), List.replicate_zero, List.nil_append, List.nil_append,
      List.take_of_length_le hdrop.le]
    constructor
    · rintro ⟨hbegins, hends⟩
      refine ⟨fun p hp => ?_, fun hlt => absurd hrank (Nat.not_le.2 hlt)⟩
      rw [← List.take_append_drop shape.length pads] at hp
      rcases List.mem_append.1 hp with hp | hp
      · exact fits_of_map hbegins p hp
      · exact fits_of_map hends p hp
    · rintro ⟨hfits, -⟩
      exact ⟨map_toUInt32_eq fun p hp => hfits p (List.mem_of_mem_take hp),
        map_toUInt32_eq fun p hp => hfits p (List.mem_of_mem_drop hp)⟩
  · have hlt : shape.length < 4 := Nat.not_le.1 hrank
    rw [if_neg (by omega), List.map_replicate]
    have hzeros : ∀ l : List Int, l.length = shape.length →
        (List.replicate (max 4 shape.length) (Int.ofNat 0) =
          List.replicate (4 - shape.length) 0 ++ l ↔ ∀ p ∈ l, p = 0) := by
      intro l hl
      have hsplit : max 4 shape.length = 4 - shape.length + l.length := by omega
      rw [hsplit, List.replicate_add]
      refine (List.append_cancel_left_eq _ _ _).to_iff.trans ?_
      rw [eq_comm, List.eq_replicate_iff]
      exact and_iff_right rfl
    rw [hzeros _ htake, hzeros _ hdrop]
    constructor
    · rintro ⟨hbegins, hends⟩
      have hall : ∀ p ∈ pads, p = 0 := by
        intro p hp
        rw [← List.take_append_drop shape.length pads] at hp
        exact (List.mem_append.1 hp).elim (hbegins p) (hends p)
      refine ⟨fun p hp => ?_, fun _ => hall⟩
      rw [hall p hp]
      decide
    · rintro ⟨-, hall⟩
      exact ⟨fun p hp => hall hlt p (List.mem_of_mem_take hp),
        fun p hp => hall hlt p (List.mem_of_mem_drop hp)⟩

end

end PadLemmas

open PadLemmas

/-- The pads are those of the node when it pads with 0, no pad is negative or needs more than 32
bits, and an input lists the pads of all of four dimensions or more in their order; an attribute,
below four dimensions, has to be all 0. -/
theorem pad_iff {node : Node} {shapes : ValueShapes} {initializers : String → Option Initializer}
    {info : DmlTensorInfo} {shape : List Nat} {pads : List Int} {axes : Option (List Int)}
    {constant : Nat} (hbegins : Begins node shapes info)
    (hinfo : info.sizes = padToMinDims shape 4)
    (h : PadNode node initializers shape.length pads axes constant) :
    PadsExactly node shapes initializers shape (onnxPads shape.length pads axes).1
        (onnxPads shape.length pads axes).2 constant ↔
      Paddable node shape pads axes constant := by
  rw [padsExactly_iff hbegins hinfo]
  cases hinput : presentInput node 1 with
  | none =>
    rw [attribute_iff h hinput]
    constructor
    · rintro ⟨hconstant, hfits, hzero⟩
      exact ⟨hconstant, hfits, by simp [hinput], fun _ => hzero⟩
    · intro hpad
      exact ⟨hpad.constant, hpad.fits, hpad.fromAttribute hinput⟩
  | some name =>
    have hsome : (presentInput node 1).isSome := by rw [hinput]; rfl
    rw [input_iff h hsome]
    constructor
    · rintro ⟨hconstant, hfits, hrest⟩
      exact ⟨hconstant, hfits, fun _ => hrest, by simp [hinput]⟩
    · intro hpad
      exact ⟨hpad.constant, hpad.fits, hpad.fromInput hsome⟩

/-! ## A column before and behind -/

/-- The bytes of small values. -/
def int64Bytes (values : List Nat) : List UInt8 :=
  values.flatMap fun value => UInt8.ofNat value :: List.replicate 7 0

def padNode : Node :=
  { id := 0, opType := "Pad", inputs := [some "x", some "pads"], outputs := [some "y"] }

def padShapes (shape : List Nat) : ValueShapes := fun name =>
  if name = "x" then some { makeTensorInfo shape .float32 with originalRank := shape.length }
  else none

def int64Init (values : List Nat) : Initializer :=
  { dataType := .int64, dims := [values.length], bytes := some (int64Bytes values) }

def padInitializers (pads : List Nat) : String → Option Initializer := fun name =>
  if name = "pads" then some (int64Init pads) else none

theorem length_int64Bytes (values : List Nat) : (int64Bytes values).length = 8 * values.length := by
  simp [int64Bytes, List.length_flatMap, Nat.mul_comm]

/-- The values are read, whatever lies behind them. -/
theorem readInt64s_int64Init {values : List Nat} {read : List Int}
    (h : readInt64s (fun _ => 0) (int64Init values, int64Bytes values) = read)
    (beyond : Nat → UInt8) :
    readInt64s beyond (int64Init values, int64Bytes values) = read := by
  rw [readInt64s_inside (fun _ => 0) (by simp [int64Init, length_int64Bytes]), h]

theorem padNode_given (shape pads : List Nat)
    (hread : readInt64s (fun _ => 0) (int64Init pads, int64Bytes pads) = pads.map Int.ofNat)
    (hcount : pads.length = 2 * shape.length) :
    PadNode padNode (padInitializers pads) shape.length (pads.map Int.ofNat) none 0 where
  fromInput := fun _ => ⟨_, _, rfl, by rw [length_int64Bytes, List.length_map],
    readInt64s_int64Init hread⟩
  fromAttribute := fun hnone => by cases hnone
  axesGiven := fun _ => rfl
  places := ⟨List.nodup_range, fun _ hd => List.mem_range.1 hd⟩
  count := by rw [List.length_map, hcount, padPlaces, Option.map_none, Option.getD_none,
    List.length_range]
  constantBits := fun _ _ hsome => by cases hsome
  constantAttribute := fun hnone => by cases hnone
  noConstant := fun _ _ => rfl

/-- Of a matrix the pads of the columns are taken for those of the dimensions that were added, and
four values are read behind the list. -/
theorem matrixPad_misread :
    PadNode padNode (padInitializers [0, 1, 0, 1]) 2 [0, 1, 0, 1] none 0 ∧
      ¬ PadsExactly padNode (padShapes [2, 3]) (padInitializers [0, 1, 0, 1]) [2, 3] [0, 1] [0, 1]
        0 := by
  refine ⟨padNode_given [2, 3] [0, 1, 0, 1] (by decide) rfl, fun h => ?_⟩
  obtain ⟨_, _, _, _, ⟨⟩, hstarts, -⟩ := h (fun _ => 0) _ rfl
  exact absurd hstarts (by decide)

/-- With the four dimensions of an image they are right. -/
theorem imagePad_exact :
    PadsExactly padNode (padShapes [1, 1, 2, 3]) (padInitializers [0, 0, 0, 1, 0, 0, 0, 1])
      [1, 1, 2, 3] [0, 0, 0, 1] [0, 0, 0, 1] 0 := by
  have h := padNode_given [1, 1, 2, 3] [0, 0, 0, 1, 0, 0, 0, 1]
    (by decide) rfl
  have hbegins : Begins padNode (padShapes [1, 1, 2, 3])
      { makeTensorInfo [1, 1, 2, 3] .float32 with originalRank := 4 } := ⟨by decide, by decide⟩
  have hsizes : padToMinDims [1, 1, 2, 3] 4 = padToMinDims [1, 1, 2, 3] 4 := rfl
  exact (pad_iff hbegins hsizes h).2
    ⟨fun _ => rfl, by decide, fun _ => ⟨by decide, by decide, by decide⟩, fun hnone => by
      cases hnone⟩

end AmdGpuEp.DirectML
