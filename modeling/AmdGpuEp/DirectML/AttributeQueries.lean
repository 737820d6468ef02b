import AmdGpuEp.DirectML.AbiOutputShapes

/-!
# Attribute queries

`dml_abi_kernel.cc`: a shape inferrer reads the attributes of its node from an
`AbiSafeShapeInferenceContext`, a kernel factory from an `AbiSafeKernelCreationContext`.
Each class looks at the node by way of `OrtKernelInfo` and then at the defaults that the
operator was registered with, in a switch of its own, and they fall back on the defaults for
different reasons.

The kernel info knows an attribute under the type that the node sets it with. A string is
known by its UTF-8 bytes, and its size counts the null at its end.

Results:
1. `elementCount_iff`, `numeric_iff`, `string_iff`: where a count, a number and a string that is
   asked of `GetAttribute` are answered as they should be by both contexts.
2. `stringLength_iff`, `stringElement_iff`: the same for the strings of a string attribute.
3. `queries_agree_iff`: the queries that both contexts answer as they should; a number that is
   asked for with another size is one that they do not.
-/

namespace AmdGpuEp.DirectML.AbiOutputShapes

/-! ## Contents -/

/-- All elements, of which there may be none. -/
def Attribute.elements : Attribute → AttributeContent
  | .float v => .floats [v]
  | .int v => .ints [v]
  | .string v => .strings [v]
  | .floats v => .floats v
  | .ints v => .ints v
  | .strings v => .strings v

def AttributeContent.length : AttributeContent → Nat
  | .floats v => v.length
  | .ints v => v.length
  | .strings v => v.length

/-- A type that a content can be read as. -/
def AttributeType.describes : AttributeType → AttributeContent → Bool
  | .float, .floats v => v.length == 1
  | .floatArray, .floats _ => true
  | .int, .ints v => v.length == 1
  | .intArray, .ints _ => true
  | .string, .strings v => v.length == 1
  | .stringArray, .strings _ => true
  | _, _ => false

/-- The size of an element. -/
def AttributeType.byteSize : AttributeType → Option Nat
  | .float | .floatArray => some 4
  | .int | .intArray => some 8
  | .string | .stringArray => none

def AttributeType.isScalar : AttributeType → Bool
  | .float | .int | .string => true
  | .floatArray | .intArray | .stringArray => false

/-- `GetDefaultAttributes`, of one default. -/
def Attribute.value (a : Attribute) : AttributeValue :=
  match a.elements with
  | .floats v => { type := a.type, ints := [], strings := [], floats := v }
  | .ints v => { type := a.type, ints := v, strings := [], floats := [] }
  | .strings v => { type := a.type, ints := [], strings := v, floats := [] }

end AmdGpuEp.DirectML.AbiOutputShapes

namespace AmdGpuEp.DirectML.AttributeQueries

open AbiOutputShapes

/-! ## Nodes -/

/-- A type that is asked for: `undefined` stands for every number that is no type. -/
inductive QueriedType
  | plain (type : AttributeType)
  | tensor
  | undefined
  deriving DecidableEq, Repr

/-- Of tensors and of graphs it only matters that they are set. -/
inductive NodeAttribute
  | plain (a : Attribute)
  | tensor
  | other
  deriving DecidableEq, Repr

/-- A default, with a `valueCount` of 32 bits. -/
structure RegisteredDefault where
  entry : Attribute
  valueCount_lt : entry.elements.length < 2 ^ 32

/-- A node, the defaults of its operator (no map is an empty one), and the tensors that were
fetched for its kernel. -/
structure Node where
  attributes : List (String × NodeAttribute)
  defaultAttributes : List (String × RegisteredDefault)
  tensorAttributeCache : List String
  cached : ∀ name ∈ tensorAttributeCache, attributes.lookup name = some .tensor

inductive Query
  | elementCount (name : String) (type : QueriedType)
  | value (name : String) (type : QueriedType) (elementCount elementByteSize : Nat)
  | stringLength (name : String) (elementIndex : Nat)
  | stringElement (name : String) (elementIndex byteSize : Nat)
  deriving DecidableEq, Repr

/-- `unfilled` is a success without the value in the buffer. `terminated` is what a throw in a
`noexcept` function does. -/
inductive Answer
  | value (c : AttributeContent)
  | number (k : Nat)
  | absent
  | unfilled
  | terminated
  deriving DecidableEq, Repr

/-- A count of zero says that the attribute is not set. -/
def Answer.count (k : Nat) : Answer :=
  if k = 0 then .absent else .number k

/-- The size of a string with the null at its end. -/
def stringSize (s : String) : Nat :=
  s.utf8ByteSize + 1

/-- A buffer that a content fills. A buffer takes a single string, which may be shorter. -/
def fits (type : AttributeType) (elementCount elementByteSize : Nat) : AttributeContent → Bool
  | .strings v =>
    type == .string && elementCount == 1 && v.all fun s => decide (stringSize s ≤ elementByteSize)
  | c => c.length == elementCount && type.byteSize == some elementByteSize

namespace Node

variable (n : Node)

def own (name : String) : Option NodeAttribute :=
  n.attributes.lookup name

def registered (name : String) : Option Attribute :=
  (n.defaultAttributes.lookup name).map RegisteredDefault.entry

/-- What the node sets with a type. -/
def ownAs (name : String) (type : AttributeType) : Option AttributeContent :=
  match n.own name with
  | some (.plain a) => if a.type = type then some a.elements else none
  | _ => none

/-- `KernelInfoGetAttribute_…`: there is no query for lists of strings. -/
def kernelInfo (name : String) (type : AttributeType) : Option AttributeContent :=
  if type = .stringArray then none else n.ownAs name type

/-- `KernelInfoGetAttributeArray_…`: success when the buffer is large enough. -/
def kernelInfoArray (name : String) (type : AttributeType) (elementCount elementByteSize : Nat) :
    Option Answer :=
  ((n.kernelInfo name type).filter fun c => decide (c.length ≤ elementCount)).map fun c =>
    if fits type elementCount elementByteSize c then .value c else .unfilled

/-- `KernelInfoGetAttribute_string`. -/
def kernelInfoString (name : String) (elementIndex : Nat) : Option String :=
  match elementIndex, n.own name with
  | 0, some (.plain (.string s)) => some s
  | _, _ => none

/-- `ElementCount` of the default. It throws for none that was registered. -/
def registeredCount (name : String) : Nat :=
  ((n.registered name).map fun a => a.value.elementCount % 2 ^ 32).getD 0

/-- `AttributeValue::GetAttribute` of the default, where it is not said what a throw does. -/
def registeredAttribute (thrown : Answer) (name : String) (type : QueriedType)
    (elementCount elementByteSize : Nat) : Answer :=
  match n.registered name with
  | none => .absent
  | some a =>
    match type with
    | .plain t =>
      if t.byteSize = some elementByteSize then
        ((a.value.getAttribute t elementCount).map Answer.value).getD thrown
      else thrown
    | _ => thrown

def registeredString (name : String) (elementIndex : Nat) : Option String :=
  (n.registered name).bind fun a => a.value.getStringAttribute elementIndex

/-- `GetStringAttributeElementLength` of either context. -/
def stringLength (name : String) (elementIndex : Nat) : Answer :=
  match (n.kernelInfoString name elementIndex).or (n.registeredString name elementIndex) with
  | some s => .number (stringSize s % 2 ^ 32)
  | none => .absent

/-- `GetStringAttributeElement` of either context. -/
def stringElement (name : String) (elementIndex byteSize : Nat) : Answer :=
  let small := fun s => decide (stringSize s ≤ byteSize)
  match ((n.kernelInfoString name elementIndex).filter small).or
      ((n.registeredString name elementIndex).filter small) with
  | some s => .value (.strings [s])
  | none => .absent

end Node

/-! ## The two contexts -/

namespace AbiSafeShapeInferenceContext

variable (n : Node)

def getAttributeElementCount (name : String) (type : QueriedType) : Answer :=
  let found :=
    match type with
    | .plain t => n.kernelInfo name t
    | _ => none
  match found with
  | some c => .count (c.length % 2 ^ 32)
  | none => .count (n.registeredCount name)

/-- What is thrown is caught and returned. -/
def getAttribute (name : String) (type : QueriedType) (elementCount elementByteSize : Nat) :
    Answer :=
  let found :=
    match type with
    | .plain .int =>
      if elementCount = 1 ∧ elementByteSize = 8 then (n.kernelInfo name .int).map Answer.value
      else none
    | .plain .intArray => n.kernelInfoArray name .intArray elementCount elementByteSize
    | .plain .float =>
      if elementCount = 1 ∧ elementByteSize = 4 then (n.kernelInfo name .float).map Answer.value
      else none
    | .plain .floatArray => n.kernelInfoArray name .floatArray elementCount elementByteSize
    | _ => none
  found.getD (n.registeredAttribute .absent name type elementCount elementByteSize)

def answer : Query → Answer
  | .elementCount name type => getAttributeElementCount n name type
  | .value name type elementCount elementByteSize =>
    getAttribute n name type elementCount elementByteSize
  | .stringLength name elementIndex => n.stringLength name elementIndex
  | .stringElement name elementIndex byteSize => n.stringElement name elementIndex byteSize

end AbiSafeShapeInferenceContext

namespace AbiSafeKernelCreationContext

variable (n : Node)

def getAttributeElementCount (name : String) (type : QueriedType) : Answer :=
  let elementCount :=
    match type with
    | .plain t => ((n.kernelInfo name t).map fun c => c.length % 2 ^ 32).getD 0
    | .tensor => if name ∈ n.tensorAttributeCache then 1 else 0
    | .undefined => 0
  if type = .undefined then .absent
  else if elementCount = 0 then .count (n.registeredCount name)
  else .count elementCount

/-- Without a call there is no status, and that is a success. -/
def getAttribute (name : String) (type : QueriedType) (elementCount elementByteSize : Nat) :
    Answer :=
  let fallback := n.registeredAttribute .terminated name type elementCount elementByteSize
  match type with
  | .plain .float =>
    if elementCount = 1 ∧ elementByteSize = 4 then
      ((n.kernelInfo name .float).map Answer.value).getD fallback
    else .unfilled
  | .plain .floatArray =>
    (n.kernelInfoArray name .floatArray elementCount elementByteSize).getD fallback
  | .plain .int =>
    if elementCount = 1 ∧ elementByteSize = 8 then
      ((n.kernelInfo name .int).map Answer.value).getD fallback
    else .unfilled
  | .plain .intArray =>
    (n.kernelInfoArray name .intArray elementCount elementByteSize).getD fallback
  | .plain .string =>
    if elementCount = 1 then
      (((n.kernelInfo name .string).filter (fits .string 1 elementByteSize)).map
        Answer.value).getD fallback
    else .unfilled
  | .plain .stringArray | .tensor | .undefined => .absent

def answer : Query → Answer
  | .elementCount name type => getAttributeElementCount n name type
  | .value name type elementCount elementByteSize =>
    getAttribute n name type elementCount elementByteSize
  | .stringLength name elementIndex => n.stringLength name elementIndex
  | .stringElement name elementIndex byteSize => n.stringElement name elementIndex byteSize

end AbiSafeKernelCreationContext

/-! ## The answers that are due -/

namespace Node

variable (n : Node)

/-- The node's own value, else the default. -/
def content (name : String) (type : AttributeType) : Option AttributeContent :=
  (n.ownAs name type).or (((n.registered name).map Attribute.elements).filter type.describes)

/-- The node's own strings. -/
def ownStrings (name : String) : Option (List String) :=
  match n.own name with
  | some (.plain (.string s)) => some [s]
  | some (.plain (.strings v)) => some v
  | _ => none

/-- An element of the node's own strings, else of the default. -/
def string (name : String) (elementIndex : Nat) : Option String :=
  match n.ownStrings name with
  | some v => v[elementIndex]?
  | none => n.registeredString name elementIndex

/-- The answer to a query. A buffer that the value does not fill is refused. -/
def due : Query → Answer
  | .elementCount name (.plain t) => .count (((n.content name t).map (·.length)).getD 0)
  | .elementCount name .tensor => if n.own name = some .tensor then .number 1 else .absent
  | .elementCount _ .undefined => .absent
  | .value name (.plain t) elementCount elementByteSize =>
    (((n.content name t).filter (fits t elementCount elementByteSize)).map Answer.value).getD
      .absent
  | .value _ _ _ _ => .absent
  | .stringLength name elementIndex =>
    ((n.string name elementIndex).map fun s => Answer.number (stringSize s)).getD .absent
  | .stringElement name elementIndex byteSize =>
    (((n.string name elementIndex).filter fun s => decide (stringSize s ≤ byteSize)).map
      fun s => Answer.value (.strings [s])).getD .absent

end Node

/-- Both contexts answer a query as they should. -/
structure Agree (n : Node) (q : Query) : Prop where
  shape : AbiSafeShapeInferenceContext.answer n q = n.due q
  kernel : AbiSafeKernelCreationContext.answer n q = n.due q

/-! ## Where the answers are right -/

namespace Node

variable (n : Node)

/-- The number of elements of the default. -/
def registeredLength (name : String) : Nat :=
  ((n.registered name).map fun a => a.elements.length).getD 0

/-- A default may only be asked for as what it is, and a list that the node sets is counted when
it is not empty, or when there is no default to take its place. The kernel info counts neither
lists of strings nor, for a shape inferrer, tensors. -/
def Counted (name : String) : QueriedType → Prop
  | .undefined => n.registeredLength name = 0
  | .tensor => n.registeredLength name = if n.own name = some .tensor then 1 else 0
  | .plain t =>
    match n.ownAs name t with
    | some c =>
      if t = .stringArray then n.registeredLength name = c.length
      else c.length < 2 ^ 32 ∧ (c.length = 0 → n.registeredLength name = 0)
    | none =>
      n.registeredLength name = 0 ∨ ∃ a, n.registered name = some a ∧ t.describes a.elements

/-- A number is asked for with its count and size. A list that is too long is refused when it has
no default. -/
def Readable (name : String) (elementCount elementByteSize : Nat) : AttributeType → Prop
  | .stringArray => True
  | .string =>
    elementCount = 1 ∧ n.registered name = none ∧
      ∀ s, n.own name = some (.plain (.string s)) → elementByteSize < stringSize s
  | t =>
    (t.isScalar → elementCount = 1 ∧ t.byteSize = some elementByteSize) ∧
      match n.ownAs name t with
      | some c =>
        fits t elementCount elementByteSize c ∨
          (elementCount < c.length ∧ n.registered name = none)
      | none => ∀ a, n.registered name = some a →
          t.describes a.elements ∧ fits t elementCount elementByteSize a.elements

/-- The sizes that are reported for a string of the node are those of its default, unless the node
sets a single string and its first element is asked for. -/
def Measured (name : String) (elementIndex : Nat) : Prop :=
  match n.own name, elementIndex with
  | some (.plain (.string s)), 0 => stringSize s < 2 ^ 32
  | _, _ =>
    (n.registeredString name elementIndex).map (fun s => stringSize s % 2 ^ 32) =
      (n.string name elementIndex).map stringSize

/-- The same for the strings. A single string is read into a buffer that it fits in, or when
there is no default that does. -/
def Copied (name : String) (elementIndex byteSize : Nat) : Prop :=
  let small := fun s => decide (stringSize s ≤ byteSize)
  match n.own name, elementIndex with
  | some (.plain (.string s)), 0 =>
    small s ∨ (n.registeredString name 0).filter small = none
  | _, _ =>
    (n.registeredString name elementIndex).filter small =
      (n.string name elementIndex).filter small

def Answerable : Query → Prop
  | .elementCount name type => n.Counted name type
  | .value name (.plain t) elementCount elementByteSize =>
    n.Readable name elementCount elementByteSize t
  | .value _ _ _ _ => True
  | .stringLength name elementIndex => n.Measured name elementIndex
  | .stringElement name elementIndex byteSize => n.Copied name elementIndex byteSize

end Node

namespace AttributeQueriesLemmas

/-! ## Contents -/

theorem describes_elements (a : Attribute) : a.type.describes a.elements = true := by
  cases a <;> rfl

theorem value_elementCount (a : Attribute) : a.value.elementCount = a.elements.length := by
  cases a <;> rfl

theorem length_of_describes {t : AttributeType} {c : AttributeContent}
    (hscalar : t.isScalar = true) (hdescribes : t.describes c = true) : c.length = 1 := by
  cases t <;> cases c <;>
    simp_all [AttributeType.isScalar, AttributeType.describes, AttributeContent.length]

/-- A number fits by its count and size. -/
theorem fits_iff {t : AttributeType} {w : Nat} (hsize : t.byteSize = some w)
    {c : AttributeContent} (hdescribes : t.describes c = true) (elementCount byteSize : Nat) :
    fits t elementCount byteSize c = true ↔ c.length = elementCount ∧ byteSize = w := by
  have hnumber : fits t elementCount byteSize c =
      (c.length == elementCount && t.byteSize == some byteSize) := by
    cases c with
    | floats v => rfl
    | ints v => rfl
    | strings v =>
      cases t with
      | string | stringArray => cases hsize
      | float | floatArray | int | intArray => cases hdescribes
  rw [hnumber, Bool.and_eq_true, beq_iff_eq, beq_iff_eq, hsize, Option.some_inj]
  exact and_congr_right fun _ => eq_comm

/-- What a default can be read as is read by its count. -/
theorem getAttribute_value {t : AttributeType} {w : Nat} (hsize : t.byteSize = some w)
    {a : Attribute} (hdescribes : t.describes a.elements = true) (elementCount : Nat) :
    a.value.getAttribute t elementCount =
      if a.elements.length = elementCount then some a.elements else none := by
  cases t with
  | string | stringArray => cases hsize
  | float | floatArray | int | intArray =>
    clear hsize
    by_cases hlength : a.elements.length = elementCount
    all_goals
      cases a <;>
        simp_all [Attribute.value, Attribute.elements, AttributeValue.getAttribute,
          AttributeType.describes, AttributeContent.length]

/-! ## Nodes -/

variable {n : Node} {name : String}

theorem agree_iff {q : Query} :
    Agree n q ↔ AbiSafeShapeInferenceContext.answer n q = n.due q ∧
      AbiSafeKernelCreationContext.answer n q = n.due q :=
  ⟨fun h => ⟨h.shape, h.kernel⟩, fun h => ⟨h.1, h.2⟩⟩

theorem count_inj {k m : Nat} : Answer.count k = Answer.count m ↔ k = m := by
  unfold Answer.count
  split <;> split <;> simp_all [eq_comm]

theorem count_eq_absent {k : Nat} : Answer.count k = .absent ↔ k = 0 :=
  count_inj (m := 0)

theorem registeredCount_eq : n.registeredCount name = n.registeredLength name := by
  unfold Node.registeredCount Node.registeredLength Node.registered
  cases n.defaultAttributes.lookup name with
  | none => rfl
  | some d =>
    simp only [Option.map_some, Option.getD_some, value_elementCount]
    exact Nat.mod_eq_of_lt d.valueCount_lt

theorem describes_of_ownAs {t : AttributeType} {c : AttributeContent}
    (hown : n.ownAs name t = some c) : t.describes c = true := by
  unfold Node.ownAs at hown
  split at hown
  · rename_i a _
    split at hown
    · rename_i htype
      rw [← htype, ← Option.some.inj hown]
      exact describes_elements a
    · cases hown
  · cases hown

theorem content_of_ownAs {t : AttributeType} {c : AttributeContent}
    (hown : n.ownAs name t = some c) : n.content name t = some c := by
  rw [Node.content, hown, Option.some_or]

/-- What the node does not set is the default's, if it is what is asked for. -/
theorem content_of_registered {t : AttributeType} (hown : n.ownAs name t = none) :
    n.content name t = ((n.registered name).map Attribute.elements).filter t.describes := by
  rw [Node.content, hown, Option.none_or]

theorem kernelInfo_of_ne {t : AttributeType} (ht : t ≠ .stringArray) :
    n.kernelInfo name t = n.ownAs name t :=
  if_neg ht

/-- A default is counted as what it is. -/
theorem registeredLength_eq_iff {t : AttributeType} (hown : n.ownAs name t = none) :
    n.registeredLength name = ((n.content name t).map (·.length)).getD 0 ↔
      n.registeredLength name = 0 ∨ ∃ a, n.registered name = some a ∧ t.describes a.elements := by
  rw [content_of_registered hown]
  unfold Node.registeredLength
  cases n.registered name with
  | none => simp
  | some a =>
    by_cases hdescribes : t.describes a.elements = true <;>
      simp [Option.filter_some, hdescribes]

/-- A default is read when it is what is asked for and fills the buffer. -/
theorem registeredAttribute_of_describes {t : AttributeType} {w : Nat}
    (hsize : t.byteSize = some w) {a : Attribute} (ha : n.registered name = some a)
    (hdescribes : t.describes a.elements = true) (thrown : Answer)
    (elementCount byteSize : Nat) :
    n.registeredAttribute thrown name (.plain t) elementCount byteSize =
      if fits t elementCount byteSize a.elements = true then .value a.elements else thrown := by
  unfold Node.registeredAttribute
  rw [ha]
  simp only [hsize, Option.some_inj, getAttribute_value hsize hdescribes,
    fits_iff hsize hdescribes, eq_comm (a := w)]
  by_cases hw : byteSize = w
  · by_cases hlength : a.elements.length = elementCount <;> simp [hw, hlength]
  · simp [hw]

theorem registeredAttribute_of_none (hnone : n.registered name = none) (thrown : Answer)
    (type : QueriedType) (elementCount byteSize : Nat) :
    n.registeredAttribute thrown name type elementCount byteSize = .absent := by
  unfold Node.registeredAttribute
  rw [hnone]

/-- A kernel factory is never told that a default is absent. -/
theorem registeredAttribute_eq_absent {type : QueriedType} {elementCount byteSize : Nat} :
    n.registeredAttribute .terminated name type elementCount byteSize = .absent ↔
      n.registered name = none := by
  constructor
  · intro habsent
    unfold Node.registeredAttribute at habsent
    split at habsent
    · assumption
    · split at habsent
      · split at habsent
        · revert habsent
          cases AttributeValue.getAttribute _ _ _ <;> simp
        · cases habsent
      · cases habsent
  · exact fun hnone => registeredAttribute_of_none hnone _ _ _ _

/-- What the node does not set. -/
theorem fallback_iff {t : AttributeType} {w : Nat} (hsize : t.byteSize = some w)
    (hown : n.ownAs name t = none) {elementCount byteSize : Nat} :
    (n.registeredAttribute .absent name (.plain t) elementCount byteSize =
        n.due (.value name (.plain t) elementCount byteSize) ∧
      n.registeredAttribute .terminated name (.plain t) elementCount byteSize =
        n.due (.value name (.plain t) elementCount byteSize)) ↔
      ∀ a, n.registered name = some a →
        t.describes a.elements ∧ fits t elementCount byteSize a.elements := by
  have hcontent := content_of_registered hown
  cases hregistered : n.registered name with
  | none =>
    simp [Node.due, hcontent, hregistered, registeredAttribute_of_none hregistered]
  | some a =>
    have hpresent : n.registeredAttribute .terminated name (.plain t) elementCount byteSize ≠
        .absent := fun habsent => by
      rw [registeredAttribute_eq_absent, hregistered] at habsent
      cases habsent
    by_cases hdescribes : t.describes a.elements = true
    · simp only [registeredAttribute_of_describes hsize hregistered hdescribes]
      by_cases hfits : fits t elementCount byteSize a.elements = true <;>
        simp [Node.due, hcontent, hregistered, Option.filter_some, hdescribes, hfits]
    · have hdue : n.due (.value name (.plain t) elementCount byteSize) = .absent := by
        simp [Node.due, hcontent, hregistered, Option.filter_some, hdescribes]
      rw [hdue]
      exact iff_of_false (fun h => hpresent h.2) fun h => hdescribes (h a rfl).1

/-! ## Counts -/

/-- The tensors that were fetched are attributes of the node. -/
theorem tensorCount_iff :
    (AbiSafeShapeInferenceContext.answer n (.elementCount name .tensor) =
        n.due (.elementCount name .tensor) ∧
      AbiSafeKernelCreationContext.answer n (.elementCount name .tensor) =
        n.due (.elementCount name .tensor)) ↔
      n.Counted name .tensor := by
  have hdue : n.due (.elementCount name .tensor) =
      .count (if n.own name = some .tensor then 1 else 0) := by
    simp only [Node.due]
    split <;> rfl
  have hshape : AbiSafeShapeInferenceContext.answer n (.elementCount name .tensor) =
      .count (n.registeredLength name) := congrArg Answer.count registeredCount_eq
  have hkernel : AbiSafeKernelCreationContext.answer n (.elementCount name .tensor) =
      .count (if name ∈ n.tensorAttributeCache then 1 else n.registeredLength name) := by
    simp only [AbiSafeKernelCreationContext.answer,
      AbiSafeKernelCreationContext.getAttributeElementCount, registeredCount_eq]
    by_cases hcached : name ∈ n.tensorAttributeCache <;> simp [hcached]
  rw [hdue, hshape, hkernel, count_inj, count_inj]
  refine ⟨fun h => h.1, fun h => ⟨h, ?_⟩⟩
  split
  · rename_i hcached
    exact (if_pos (n.cached name hcached)).symm
  · exact h

/-- Lists of strings are counted in the default. -/
theorem stringArrayCount_iff :
    (AbiSafeShapeInferenceContext.answer n (.elementCount name (.plain .stringArray)) =
        n.due (.elementCount name (.plain .stringArray)) ∧
      AbiSafeKernelCreationContext.answer n (.elementCount name (.plain .stringArray)) =
        n.due (.elementCount name (.plain .stringArray))) ↔
      n.Counted name (.plain .stringArray) := by
  have hboth : AbiSafeKernelCreationContext.answer n (.elementCount name (.plain .stringArray)) =
      AbiSafeShapeInferenceContext.answer n (.elementCount name (.plain .stringArray)) := rfl
  have hshape : AbiSafeShapeInferenceContext.answer n (.elementCount name (.plain .stringArray)) =
      .count (n.registeredLength name) := congrArg Answer.count registeredCount_eq
  rw [hboth, and_self_iff, hshape]
  refine count_inj.trans ?_
  cases hown : n.ownAs name .stringArray with
  | some c => simp [Node.Counted, hown, content_of_ownAs hown]
  | none =>
    rw [registeredLength_eq_iff hown]
    simp only [Node.Counted, hown]

theorem plainCount_iff {t : AttributeType} (ht : t ≠ .stringArray) :
    (AbiSafeShapeInferenceContext.answer n (.elementCount name (.plain t)) =
        n.due (.elementCount name (.plain t)) ∧
      AbiSafeKernelCreationContext.answer n (.elementCount name (.plain t)) =
        n.due (.elementCount name (.plain t))) ↔
      n.Counted name (.plain t) := by
  have hplain : QueriedType.plain t ≠ .undefined := nofun
  simp only [AbiSafeShapeInferenceContext.answer, AbiSafeKernelCreationContext.answer,
    AbiSafeShapeInferenceContext.getAttributeElementCount,
    AbiSafeKernelCreationContext.getAttributeElementCount, kernelInfo_of_ne ht,
    registeredCount_eq, Node.due, Node.Counted, if_neg hplain]
  cases hown : n.ownAs name t with
  | some c =>
    simp only [content_of_ownAs hown, Option.map_some, Option.getD_some, count_inj, if_neg ht,
      Nat.mod_eq_iff_lt (show (2 ^ 32 : Nat) ≠ 0 by decide)]
    refine and_congr_right fun hlt => ?_
    rw [Nat.mod_eq_of_lt hlt]
    by_cases hempty : c.length = 0 <;> simp [hempty, count_inj]
  | none =>
    simp only [Option.map_none, Option.getD_none, if_pos, count_inj, and_self_iff]
    exact registeredLength_eq_iff hown

/-! ## Numbers -/

/-- The value that is due to a buffer is what the node sets, if it fills the buffer. -/
theorem due_of_ownAs {t : AttributeType} {c : AttributeContent} (hown : n.ownAs name t = some c)
    (elementCount byteSize : Nat) :
    n.due (.value name (.plain t) elementCount byteSize) =
      if fits t elementCount byteSize c = true then .value c else .absent := by
  simp only [Node.due, content_of_ownAs hown, Option.filter_some]
  split <;> rfl

theorem due_ne_unfilled (t : AttributeType) (elementCount byteSize : Nat) :
    n.due (.value name (.plain t) elementCount byteSize) ≠ .unfilled := by
  simp only [Node.due]
  cases (n.content name t).filter (fits t elementCount byteSize) <;> simp

section

variable {t : AttributeType} {w elementCount byteSize : Nat}

theorem readable_of_own (hsize : t.byteSize = some w) {c : AttributeContent}
    (hown : n.ownAs name t = some c) :
    n.Readable name elementCount byteSize t ↔
      (t.isScalar → elementCount = 1 ∧ t.byteSize = some byteSize) ∧
        (fits t elementCount byteSize c ∨
          (elementCount < c.length ∧ n.registered name = none)) := by
  cases t with
  | string | stringArray => cases hsize
  | float | floatArray | int | intArray => simp only [Node.Readable, hown]

theorem readable_of_registered (hsize : t.byteSize = some w) (hown : n.ownAs name t = none) :
    n.Readable name elementCount byteSize t ↔
      (t.isScalar → elementCount = 1 ∧ t.byteSize = some byteSize) ∧
        ∀ a, n.registered name = some a →
          t.describes a.elements ∧ fits t elementCount byteSize a.elements := by
  cases t with
  | string | stringArray => cases hsize
  | float | floatArray | int | intArray => simp only [Node.Readable, hown]

/-- A scalar is asked for at the node with its count and size. -/
theorem scalar_iff (hsize : t.byteSize = some w) (hscalar : t.isScalar = true)
    {shape kernel : Answer}
    (hshape : shape = (if elementCount = 1 ∧ byteSize = w then
      (n.ownAs name t).map Answer.value else none).getD
        (n.registeredAttribute .absent name (.plain t) elementCount byteSize))
    (hkernel : kernel = if elementCount = 1 ∧ byteSize = w then
      ((n.ownAs name t).map Answer.value).getD
        (n.registeredAttribute .terminated name (.plain t) elementCount byteSize)
      else .unfilled) :
    (shape = n.due (.value name (.plain t) elementCount byteSize) ∧
        kernel = n.due (.value name (.plain t) elementCount byteSize)) ↔
      n.Readable name elementCount byteSize t := by
  by_cases hbuffer : elementCount = 1 ∧ byteSize = w
  · rw [if_pos hbuffer] at hshape hkernel
    have hasked : t.isScalar = true → elementCount = 1 ∧ t.byteSize = some byteSize :=
      fun _ => ⟨hbuffer.1, hsize.trans (congrArg some hbuffer.2.symm)⟩
    cases hown : n.ownAs name t with
    | some c =>
      have hdescribes := describes_of_ownAs hown
      have hfits : fits t elementCount byteSize c = true :=
        (fits_iff hsize hdescribes _ _).2
          ⟨(length_of_describes hscalar hdescribes).trans hbuffer.1.symm, hbuffer.2⟩
      rw [readable_of_own hsize hown, due_of_ownAs hown, if_pos hfits, hshape, hkernel, hown]
      exact iff_of_true ⟨rfl, rfl⟩ ⟨hasked, .inl hfits⟩
    | none =>
      rw [hown] at hshape hkernel
      rw [readable_of_registered hsize hown, hshape, hkernel, ← fallback_iff hsize hown]
      exact (and_iff_right hasked).symm
  · rw [if_neg hbuffer] at hkernel
    refine iff_of_false (fun h => due_ne_unfilled t _ _ (h.2.symm.trans hkernel)) fun h => ?_
    have hasked : elementCount = 1 ∧ t.byteSize = some byteSize := by
      cases hown : n.ownAs name t with
      | some c => exact ((readable_of_own hsize hown).1 h).1 hscalar
      | none => exact ((readable_of_registered hsize hown).1 h).1 hscalar
    exact hbuffer ⟨hasked.1, Option.some.inj (hasked.2.symm.trans hsize)⟩

/-- A list is asked for at the node with its count alone. -/
theorem array_iff (hsize : t.byteSize = some w) (hscalar : t.isScalar = false) :
    ((n.kernelInfoArray name t elementCount byteSize).getD
          (n.registeredAttribute .absent name (.plain t) elementCount byteSize) =
        n.due (.value name (.plain t) elementCount byteSize) ∧
      (n.kernelInfoArray name t elementCount byteSize).getD
          (n.registeredAttribute .terminated name (.plain t) elementCount byteSize) =
        n.due (.value name (.plain t) elementCount byteSize)) ↔
      n.Readable name elementCount byteSize t := by
  have hinfo : n.kernelInfo name t = n.ownAs name t :=
    kernelInfo_of_ne fun ht => by rw [ht] at hsize; cases hsize
  have hasked : t.isScalar = true → elementCount = 1 ∧ t.byteSize = some byteSize :=
    fun h => absurd h (by rw [hscalar]; decide)
  cases hown : n.ownAs name t with
  | some c =>
    rw [readable_of_own hsize hown, due_of_ownAs hown, and_iff_right hasked]
    simp only [Node.kernelInfoArray, hinfo, hown, Option.filter_some, decide_eq_true_eq]
    by_cases hlength : c.length ≤ elementCount
    · rw [if_pos hlength, or_iff_left fun h => Nat.not_lt.2 hlength h.1]
      by_cases hfits : fits t elementCount byteSize c = true <;> simp [hfits]
    · have hfits : ¬ fits t elementCount byteSize c = true := fun h =>
        hlength (Nat.le_of_eq ((fits_iff hsize (describes_of_ownAs hown) _ _).1 h).1)
      rw [if_neg hlength, if_neg hfits, or_iff_right hfits,
        and_iff_right (Nat.lt_of_not_le hlength), Option.map_none, Option.getD_none,
        Option.getD_none]
      constructor
      · exact fun h => registeredAttribute_eq_absent.1 h.2
      · intro hnone
        exact ⟨registeredAttribute_of_none hnone _ _ _ _,
          registeredAttribute_of_none hnone _ _ _ _⟩
  | none =>
    rw [readable_of_registered hsize hown, and_iff_right hasked, ← fallback_iff hsize hown]
    simp only [Node.kernelInfoArray, hinfo, hown, Option.filter_none, Option.map_none,
      Option.getD_none]

end

/-! ## Strings -/

/-- A single string is the node's at the first index alone. -/
theorem kernelInfoString_cases (elementIndex : Nat) :
    (∃ s, n.own name = some (.plain (.string s)) ∧ elementIndex = 0 ∧
        n.kernelInfoString name elementIndex = some s) ∨
      ((∀ s, n.own name = some (.plain (.string s)) → elementIndex ≠ 0) ∧
        n.kernelInfoString name elementIndex = none) := by
  unfold Node.kernelInfoString
  split
  · rename_i s hown
    exact .inl ⟨s, hown, rfl, rfl⟩
  · rename_i hother
    exact .inr ⟨fun s hown hzero => hother s hzero hown, rfl⟩

theorem string_of_own {s : String} (hown : n.own name = some (.plain (.string s))) :
    n.string name 0 = some s := by
  simp [Node.string, Node.ownStrings, hown]

theorem measured_of_own {s : String} (hown : n.own name = some (.plain (.string s))) :
    n.Measured name 0 ↔ stringSize s < 2 ^ 32 := by
  simp only [Node.Measured, hown]

theorem measured_of_registered {elementIndex : Nat}
    (hother : ∀ s, n.own name = some (.plain (.string s)) → elementIndex ≠ 0) :
    n.Measured name elementIndex ↔
      (n.registeredString name elementIndex).map (fun s => stringSize s % 2 ^ 32) =
        (n.string name elementIndex).map stringSize := by
  unfold Node.Measured
  split
  · exact absurd rfl (hother _ ‹_›)
  · rfl

theorem copied_of_own {s : String} (hown : n.own name = some (.plain (.string s)))
    (byteSize : Nat) :
    n.Copied name 0 byteSize ↔ stringSize s ≤ byteSize ∨
      (n.registeredString name 0).filter (fun s => decide (stringSize s ≤ byteSize)) = none := by
  simp only [Node.Copied, hown, decide_eq_true_eq]

theorem copied_of_registered {elementIndex : Nat}
    (hother : ∀ s, n.own name = some (.plain (.string s)) → elementIndex ≠ 0) (byteSize : Nat) :
    n.Copied name elementIndex byteSize ↔
      (n.registeredString name elementIndex).filter
          (fun s => decide (stringSize s ≤ byteSize)) =
        (n.string name elementIndex).filter fun s => decide (stringSize s ≤ byteSize) := by
  unfold Node.Copied
  split
  · exact absurd rfl (hother _ ‹_›)
  · rfl

/-- Only nothing is answered with nothing. -/
theorem getD_absent_inj {α : Type} {f : α → Answer} (hinj : Function.Injective f)
    (hf : ∀ x, f x ≠ .absent) {o p : Option α} :
    (o.map f).getD .absent = (p.map f).getD .absent ↔ o = p := by
  cases o <;> cases p <;> simp [hf, (hf _).symm, hinj.eq_iff]

theorem stringLength_eq (elementIndex : Nat) :
    n.stringLength name elementIndex =
      ((((n.kernelInfoString name elementIndex).or
        (n.registeredString name elementIndex)).map fun s => stringSize s % 2 ^ 32).map
          Answer.number).getD .absent := by
  unfold Node.stringLength
  cases (n.kernelInfoString name elementIndex).or (n.registeredString name elementIndex) <;> rfl

theorem stringElement_eq (elementIndex byteSize : Nat) :
    n.stringElement name elementIndex byteSize =
      ((((n.kernelInfoString name elementIndex).filter
          fun s => decide (stringSize s ≤ byteSize)).or
        ((n.registeredString name elementIndex).filter
          fun s => decide (stringSize s ≤ byteSize))).map
          fun s => Answer.value (.strings [s])).getD .absent := by
  simp only [Node.stringElement]
  cases Option.or _ _ <;> rfl

/-- What is no number is not read from a default. -/
theorem registeredAttribute_of_byteSize {t : AttributeType} (hsize : t.byteSize = none)
    (thrown : Answer) (elementCount byteSize : Nat) :
    n.registeredAttribute thrown name (.plain t) elementCount byteSize =
      if n.registered name = none then .absent else thrown := by
  unfold Node.registeredAttribute
  cases n.registered name with
  | none => rfl
  | some a => simp [hsize]

theorem ownAs_string {c : AttributeContent} :
    n.ownAs name .string = some c ↔
      ∃ s, n.own name = some (.plain (.string s)) ∧ c = .strings [s] := by
  unfold Node.ownAs
  constructor
  · intro hown
    split at hown
    · rename_i a ha
      cases a with
      | string s =>
        exact ⟨s, ha, (Option.some.inj hown).symm⟩
      | float | int | floats | ints | strings => cases hown
    · cases hown
  · rintro ⟨s, hown, rfl⟩
    rw [hown]
    rfl

theorem describes_of_content {t : AttributeType} {c : AttributeContent}
    (hcontent : n.content name t = some c) : t.describes c = true := by
  cases hown : n.ownAs name t with
  | some own =>
    rw [content_of_ownAs hown] at hcontent
    rw [← Option.some.inj hcontent]
    exact describes_of_ownAs hown
  | none =>
    rw [content_of_registered hown] at hcontent
    exact (Option.filter_eq_some_iff.1 hcontent).2

/-- No buffer takes a list of strings. -/
theorem due_stringArray (elementCount byteSize : Nat) :
    n.due (.value name (.plain .stringArray) elementCount byteSize) = .absent := by
  have hnone : (n.content name .stringArray).filter (fits .stringArray elementCount byteSize) =
      none := by
    rw [Option.filter_eq_none_iff]
    intro c hcontent
    have hdescribes := describes_of_content hcontent
    cases c with
    | floats | ints => cases hdescribes
    | strings v => exact Bool.false_ne_true
  simp only [Node.due, hnone, Option.map_none, Option.getD_none]

end AttributeQueriesLemmas

open AttributeQueriesLemmas

/-! ## Results -/

section

variable (n : Node) (name : String)

theorem elementCount_iff (type : QueriedType) :
    Agree n (.elementCount name type) ↔ n.Counted name type := by
  rw [agree_iff]
  cases type with
  | undefined =>
    have hshape : AbiSafeShapeInferenceContext.answer n (.elementCount name .undefined) =
        .count (n.registeredLength name) := congrArg Answer.count registeredCount_eq
    rw [hshape]
    exact (and_iff_left rfl).trans count_eq_absent
  | tensor => exact tensorCount_iff
  | plain t =>
    by_cases ht : t = .stringArray
    · subst ht
      exact stringArrayCount_iff
    · exact plainCount_iff ht

theorem numeric_iff {t : AttributeType} (hnumber : t.byteSize.isSome)
    (elementCount byteSize : Nat) :
    Agree n (.value name (.plain t) elementCount byteSize) ↔
      n.Readable name elementCount byteSize t := by
  rw [agree_iff]
  cases t with
  | float | int => exact scalar_iff rfl rfl rfl rfl
  | floatArray | intArray => exact array_iff rfl rfl
  | string | stringArray => cases hnumber

theorem string_iff (elementCount byteSize : Nat) :
    Agree n (.value name (.plain .string) elementCount byteSize) ↔
      n.Readable name elementCount byteSize .string := by
  have hshape : AbiSafeShapeInferenceContext.answer n
      (.value name (.plain .string) elementCount byteSize) = .absent := by
    refine (registeredAttribute_of_byteSize rfl _ _ _).trans ?_
    exact ite_self _
  have hkernel : AbiSafeKernelCreationContext.answer n
        (.value name (.plain .string) elementCount byteSize) = .absent ↔
      elementCount = 1 ∧ n.registered name = none ∧
        (n.ownAs name .string).filter (fits .string 1 byteSize) = none := by
    simp only [AbiSafeKernelCreationContext.answer, AbiSafeKernelCreationContext.getAttribute,
      kernelInfo_of_ne (t := .string) (by decide)]
    split
    · cases (n.ownAs name .string).filter (fits .string 1 byteSize) with
      | none => simp [registeredAttribute_eq_absent, *]
      | some c => simp
    · simp [*]
  have hown : (n.ownAs name .string).filter (fits .string 1 byteSize) = none ↔
      ∀ s, n.own name = some (.plain (.string s)) → byteSize < stringSize s := by
    simp only [Option.filter_eq_none_iff, ownAs_string]
    constructor
    · intro h s hs
      simpa [fits] using h _ ⟨s, hs, rfl⟩
    · rintro h _ ⟨s, hs, rfl⟩
      simpa [fits] using h s hs
  rw [agree_iff, hshape]
  constructor
  · rintro ⟨hdue, hsame⟩
    obtain ⟨hcount, hnone, hsmall⟩ := hkernel.1 (hsame.trans hdue.symm)
    exact ⟨hcount, hnone, hown.1 hsmall⟩
  · rintro ⟨rfl, hnone, hsmall⟩
    have hdue : n.due (.value name (.plain .string) 1 byteSize) = .absent := by
      simp only [Node.due, Node.content, hnone, Option.map_none, Option.filter_none,
        Option.or_none, hown.2 hsmall, Option.getD_none]
    exact ⟨hdue.symm, (hkernel.2 ⟨rfl, hnone, hown.2 hsmall⟩).trans hdue.symm⟩

theorem stringLength_iff (elementIndex : Nat) :
    Agree n (.stringLength name elementIndex) ↔ n.Measured name elementIndex := by
  have hagree : Agree n (.stringLength name elementIndex) ↔
      n.stringLength name elementIndex = n.due (.stringLength name elementIndex) :=
    agree_iff.trans (and_self_iff)
  have hdue : n.due (.stringLength name elementIndex) =
      (((n.string name elementIndex).map stringSize).map Answer.number).getD .absent := by
    rw [Option.map_map]
    rfl
  rw [hagree, stringLength_eq, hdue, getD_absent_inj (fun _ _ => Answer.number.inj) nofun]
  obtain ⟨s, hown, rfl, hinfo⟩ | ⟨hother, hinfo⟩ := kernelInfoString_cases (n := n) elementIndex
  · rw [measured_of_own hown, hinfo, string_of_own hown, Option.some_or, Option.map_some,
      Option.map_some, Option.some_inj]
    exact Nat.mod_eq_iff_lt (by decide)
  · rw [measured_of_registered hother, hinfo, Option.none_or]

theorem stringElement_iff (elementIndex byteSize : Nat) :
    Agree n (.stringElement name elementIndex byteSize) ↔
      n.Copied name elementIndex byteSize := by
  have hagree : Agree n (.stringElement name elementIndex byteSize) ↔
      n.stringElement name elementIndex byteSize =
        n.due (.stringElement name elementIndex byteSize) :=
    agree_iff.trans and_self_iff
  have hinj : Function.Injective fun s => Answer.value (.strings [s]) := fun s s' h => by
    simpa using h
  rw [hagree, stringElement_eq, Node.due, getD_absent_inj hinj nofun]
  obtain ⟨s, hown, rfl, hinfo⟩ | ⟨hother, hinfo⟩ := kernelInfoString_cases (n := n) elementIndex
  · rw [copied_of_own hown, hinfo, string_of_own hown, Option.filter_some]
    by_cases hsmall : stringSize s ≤ byteSize <;> simp [hsmall]
  · rw [copied_of_registered hother, hinfo, Option.filter_none, Option.none_or]

end

/-- Both contexts answer a query as they should exactly when it is answerable. -/
theorem queries_agree_iff (n : Node) (q : Query) : Agree n q ↔ n.Answerable q := by
  cases q with
  | elementCount name type => exact elementCount_iff n name type
  | value name type elementCount byteSize =>
    cases type with
    | plain t =>
      cases t with
      | float | floatArray | int | intArray => exact numeric_iff n name rfl elementCount byteSize
      | string => exact string_iff n name elementCount byteSize
      | stringArray =>
        have hshape : AbiSafeShapeInferenceContext.answer n
            (.value name (.plain .stringArray) elementCount byteSize) = .absent :=
          (registeredAttribute_of_byteSize rfl _ _ _).trans (ite_self _)
        exact iff_of_true ⟨hshape.trans (due_stringArray _ _).symm, (due_stringArray _ _).symm⟩
          trivial
    | tensor | undefined =>
      refine iff_of_true ⟨?_, rfl⟩ trivial
      simp only [AbiSafeShapeInferenceContext.answer, AbiSafeShapeInferenceContext.getAttribute,
        Option.getD_none, Node.registeredAttribute, Node.due]
      cases n.registered name <;> rfl
  | stringLength name elementIndex => exact stringLength_iff n name elementIndex
  | stringElement name elementIndex byteSize =>
    exact stringElement_iff n name elementIndex byteSize

/-- A node that sets its axis. -/
def axisNode : Node where
  attributes := [("axis", .plain (.int 1))]
  defaultAttributes := []
  tensorAttributeCache := []
  cached := nofun

/-- A kernel factory that reads an axis of 32 bits is told that it did. -/
theorem narrowAxis_disagrees : ¬ Agree axisNode (.value "axis" (.plain .int) 1 4) := fun h =>
  absurd h.kernel (by decide)

end AmdGpuEp.DirectML.AttributeQueries
