import AmdGpuEp.DirectML.KernelRegistration
import AmdGpuEp.Lib.Stratified
import Mathlib.Data.List.MinMax

/-!
# The nodes that stay on the CPU

`GetCpuPreferredNodes` of `dml_ep.cc`. A node for which the provider has a kernel is left to the
CPU when all that it reads is there. Values that are on the CPU make their consumers candidates,
and so do values that a kernel requires as constants with their producers. The candidates are
judged once each, in the order of the graph.

Results:
1. `cpuSide_solves`: there is one set of nodes that belong on the CPU.
2. `getCpuPreferredNodes_spec`: what the worklist finds, in whatever order it was seeded.
-/

namespace AmdGpuEp.DirectML.CpuPreferredNodes

open KernelRegistration (KernelDef OrtMemType InternalRegistrationInfo find versionedKey)
open OpAttrToProto (ElementType)

/-! ## What is given -/

/-- `ONNXTensorElementDataType`. The last type is none that an attribute can have. -/
inductive TensorElementType
  | known (type : ElementType)
  | float4e2m1
  deriving DecidableEq, Repr

/-- The types of which no input may be, so that a node stays on the CPU. -/
def TensorElementType.isNarrowFloat : TensorElementType → Bool
  | .known type =>
    type ∈ [.float16, .bfloat16, .float8e4m3fn, .float8e4m3fnuz, .float8e5m2, .float8e5m2fnuz]
  | .float4e2m1 => true

/-- `OrtTensorTypeAndShapeInfo`. A dimension that is not known is -1. -/
structure TensorInfo where
  elementType : TensorElementType
  dims : List Int
  deriving DecidableEq, Repr

/-- The number of elements, as `IsSmallInitializer` multiplies it in 64 bits. -/
def TensorInfo.size (info : TensorInfo) : Int :=
  info.dims.foldl (fun size dim => (size * dim).bmod (2 ^ 64)) 1

def kSmallInitializerThreshold : Int := 100

/-- The graph with the nodes that the provider has a kernel for, and what is looked up of nodes and
values. A value without a tensor type has no `tensorInfo`. -/
structure Problem where
  graph : Graph
  listed : graph.Listed
  tentativeNodes : List Node
  tentative_mem : ∀ n ∈ tentativeNodes, n ∈ graph.nodes
  kernelDef : Node → KernelDef
  internalRegInfo : String → Option InternalRegistrationInfo
  epName : Node → Option String
  tensorInfo : String → Option TensorInfo
  hasInitializerValue : String → Bool

namespace Problem

variable (p : Problem)

/-- `IsSmallInitializer` -/
def isSmallInitializer (v : String) : Bool :=
  p.hasInitializerValue v &&
    (p.tensorInfo v).any fun info => decide (info.size ≤ kSmallInitializerThreshold)

/-- `KernelDef_GetInputMemType` -/
def inputMemType (n : Node) (i : Nat) : OrtMemType :=
  (find (p.kernelDef n).inputMemTypes i).getD .default

/-- `KernelDef_GetOutputMemType` -/
def outputMemType (n : Node) (i : Nat) : OrtMemType :=
  (find (p.kernelDef n).outputMemTypes i).getD .default

/-- The outputs that the kernel declares on the CPU. -/
def cpuOutputs (n : Node) : List (Option String) :=
  (n.outputs.zipIdx.filter fun a => p.outputMemType n a.2 ≠ .default).map Prod.fst

/-- `requiredConstantCpuInputs` of the registration of the kernel. -/
def requiredConstants (n : Node) : List Nat :=
  ((p.internalRegInfo (versionedKey (p.kernelDef n))).map
    InternalRegistrationInfo.requiredConstantCpuInputs).getD []

/-- The inputs that are required as constants, those that exist. -/
def requiredValues (n : Node) : List String :=
  (p.requiredConstants n).filterMap fun i => n.inputs[i]?.join

-- Named once, for the membership tests of `fallsBack` and `handOutputs`.
local instance : LawfulBEq (Option String) := inferInstance

/-- A node without a kernel of the provider is assumed to be left to the CPU. -/
def fallsBack (n : Node) : Bool :=
  p.epName n ∈ [none, some "", some "CPUExecutionProvider"]

/-! ## The loops -/

/-- What the loops keep. -/
structure State where
  candidates : List Node := []
  cpuOutputArgs : List String := []
  visited : List Node := []
  cpuNodes : List Node := []

/-- Values are known to be on the CPU, and their consumers become candidates. -/
def handOut (values : List String) (s : State) : State :=
  { s with
    cpuOutputArgs := s.cpuOutputArgs ++ values
    candidates := s.candidates ++ values.flatMap p.graph.consumers }

/-- The same for outputs of a node. A missing one is a null pointer, whose consumers are asked
for. -/
def handOutputs (outputs : List (Option String)) (s : State) : Option State :=
  if none ∈ outputs then none else some (p.handOut outputs.reduceOption s)

/-- The first pass, over the tentative nodes. -/
def seedOutputs (order : List Node) : Option State :=
  order.foldlM (fun s n => p.handOutputs (p.cpuOutputs n) s) {}

/-- The second pass, over the kernels, in the order of a hash map. -/
def seedConstants (order : List Node) (s : State) : State :=
  (order.flatMap p.requiredValues).foldl
    (fun s v =>
      { s with
        cpuOutputArgs := s.cpuOutputArgs ++ [v]
        candidates := s.candidates ++
          (p.graph.producer v).toList.filter (· ∈ p.tentativeNodes) }) s

/-- The loop over the inputs of a candidate. -/
def placeInCpu (cpuOutputArgs : List String) (n : Node) : Bool :=
  n.inputs.zipIdx.all fun (input, i) =>
    match input with
    | none => false
    | some v =>
      match p.tensorInfo v with
      | none => false
      | some info =>
        !info.elementType.isNarrowFloat &&
          (p.isSmallInitializer v || decide (v ∈ p.graph.inputs) ||
            (decide (v ∈ cpuOutputArgs) && decide (p.inputMemType n i ≠ .cpuInput)))

/-- What the loop does with the candidate that it takes. -/
def visit (n : Node) (s : State) : Option State :=
  if n ∈ s.visited then some s
  else if n ∉ p.tentativeNodes then
    if p.fallsBack n then p.handOutputs n.outputs { s with visited := n :: s.visited }
    else some { s with visited := n :: s.visited }
  else if p.placeInCpu s.cpuOutputArgs n then
    p.handOutputs n.outputs { s with visited := n :: s.visited, cpuNodes := n :: s.cpuNodes }
  else some { s with visited := n :: s.visited }

/-- `node_id_to_order_map` -/
def order (n : Node) : Nat :=
  p.graph.nodes.idxOf n

/-- How a call ends: it returns, it follows a null pointer, or it has more to do than it was given
turns for. -/
inductive Outcome
  | returned (s : State)
  | nullOutput
  | unfinished

/-- The loop over the candidates, of which the first one in the order of the graph is taken. -/
def drain : Nat → State → Outcome
  | 0, s => if s.candidates = [] then .returned s else .unfinished
  | turns + 1, s =>
    match s.candidates.argmin p.order with
    | none => .returned s
    | some n =>
      match p.visit n { s with candidates := s.candidates.erase n } with
      | none => .nullOutput
      | some s => drain turns s

/-- The candidates that a node hands out. -/
def handed (n : Node) : Nat :=
  (n.outputNames.flatMap p.graph.consumers).length

/-- `GetCpuPreferredNodes`, with the orders of both passes. No node is handed out by another one
twice, so that the turns are enough. -/
def getCpuPreferredNodes (first second : List Node) : Outcome :=
  match p.seedOutputs first with
  | none => .nullOutput
  | some s =>
    let s := p.seedConstants second s
    p.drain (s.candidates.length + (p.graph.nodes.map p.handed).sum) s

/-! ## The nodes that belong on the CPU -/

def Writes (m : Node) (v : String) : Prop :=
  m ∈ p.graph.nodes ∧ v ∈ m.outputNames

/-- A kernel declares the value on the CPU. -/
def Declared (v : String) : Prop :=
  ∃ t ∈ p.tentativeNodes, some v ∈ p.cpuOutputs t

/-- A kernel requires the value as a constant. -/
def Required (v : String) : Prop :=
  ∃ t ∈ p.tentativeNodes, v ∈ p.requiredValues t

/-- The values that are produced on the CPU: those that a kernel declares there, and the outputs of
the nodes that stay there or have no kernel. -/
def ProducedOnCpu (s : Set Node) (v : String) : Prop :=
  p.Declared v ∨ (∃ m ∈ s, p.Writes m v) ∨
    ∃ m, m ∉ p.tentativeNodes ∧ p.fallsBack m = true ∧ p.Writes m v

/-- The values that the loops take to be on the CPU. -/
def Seen (s : Set Node) (v : String) : Prop :=
  p.Declared v ∨ p.Required v ∨ ∃ m ∈ s, p.Writes m v

/-- What is asked of an input that exists: it is a small initializer, an input of the graph, or on
the CPU without being consumed there. -/
def InputFits (onCpu : String → Prop) (n : Node) (i : Nat) (v : String) : Prop :=
  p.isSmallInitializer v = true ∨ v ∈ p.graph.inputs ∨ (onCpu v ∧ p.inputMemType n i ≠ .cpuInput)

/-- All inputs of the node exist, have a type that may stay on the CPU, and fit. -/
def Qualifies (onCpu : String → Prop) (n : Node) : Prop :=
  ∀ i input, n.inputs[i]? = some input → ∃ v info, input = some v ∧ p.tensorInfo v = some info ∧
    info.elementType.isNarrowFloat = false ∧ p.InputFits onCpu n i v

/-- A node is a candidate because it reads a value that a kernel declares on the CPU, because it
produces one that a kernel requires as a constant, or because it reads an output of a node of the
set. -/
def Candidate (s : Set Node) (n : Node) : Prop :=
  (∃ v, p.Declared v ∧ n ∈ p.graph.consumers v) ∨
    (n ∈ p.tentativeNodes ∧ ∃ v, p.Required v ∧ p.Writes n v) ∨ ∃ m ∈ s, p.graph.Dep m n

/-- A candidate that qualifies, or has no kernel. -/
def Belongs (onCpu : Set Node → String → Prop) (s : Set Node) (n : Node) : Prop :=
  n ∈ p.graph.nodes ∧ p.Candidate s n ∧
    ((n ∈ p.tentativeNodes ∧ p.Qualifies (onCpu s) n) ∨
      (n ∉ p.tentativeNodes ∧ p.fallsBack n = true))

namespace CpuPreferredLemmas

variable {p}

/-! ### One set -/

theorem wellFounded_dep (p : Problem) : WellFounded p.graph.Dep :=
  Subrelation.wf (fun {m n} h => idxOf_lt_of_sublist p.graph.nodes_nodup (p.listed m n h))
    (measure p.order).wf

theorem dep_of_input {m n : Node} {v : String} {i : Nat} (hn : n ∈ p.graph.nodes)
    (hm : p.Writes m v) (hi : n.inputs[i]? = some (some v)) : p.graph.Dep m n :=
  ⟨hm.1, hn, v, hm.2, Node.uses_pos.2 (Or.inl (List.mem_of_getElem? hi))⟩

theorem qualifies_congr {onCpu onCpu' : String → Prop} {n : Node}
    (h : ∀ (i : Nat) v, n.inputs[i]? = some (some v) → (onCpu v ↔ onCpu' v)) :
    p.Qualifies onCpu n ↔ p.Qualifies onCpu' n := by
  refine forall_congr' fun i => forall_congr' fun input => imp_congr_right fun hi => ?_
  refine exists_congr fun v => exists_congr fun info => and_congr_right fun hv => ?_
  subst hv
  unfold InputFits
  rw [h i v hi]

/-- The values that may be on the CPU depend on the writers in the set. -/
theorem looksBelow_belongs {onCpu : Set Node → String → Prop}
    (h : ∀ s t v, (∀ m, p.Writes m v → (m ∈ s ↔ m ∈ t)) → (onCpu s v ↔ onCpu t v)) :
    LooksBelow p.graph.Dep (p.Belongs onCpu) := by
  intro s t n hbelow
  refine and_congr_right fun hn => and_congr ?_ (or_congr_left ?_)
  · refine or_congr_right (or_congr_right (exists_congr fun m => ?_))
    exact and_congr_left fun hdep => hbelow m hdep
  · refine and_congr_right fun _ => qualifies_congr fun i v hi => ?_
    exact h s t v fun m hm => hbelow m (dep_of_input hn hm hi)

theorem looksBelow_produced (p : Problem) :
    LooksBelow p.graph.Dep (p.Belongs p.ProducedOnCpu) := by
  refine looksBelow_belongs fun s t v h => or_congr_right (or_congr_left ?_)
  exact exists_congr fun m => and_congr_left fun hm => h m hm

theorem looksBelow_seen (p : Problem) : LooksBelow p.graph.Dep (p.Belongs p.Seen) := by
  refine looksBelow_belongs fun s t v h => or_congr_right (or_congr_right ?_)
  exact exists_congr fun m => and_congr_left fun hm => h m hm

/-! ### What the loops compute -/

theorem placeInCpu_iff {args : List String} {n : Node} :
    p.placeInCpu args n = true ↔ p.Qualifies (· ∈ args) n := by
  have hslot : ∀ i input, (match input with
      | none => false
      | some v => match p.tensorInfo v with
        | none => false
        | some info => !info.elementType.isNarrowFloat &&
          (p.isSmallInitializer v || decide (v ∈ p.graph.inputs) ||
            (decide (v ∈ args) && decide (p.inputMemType n i ≠ .cpuInput)))) = true ↔
      ∃ v info, input = some v ∧ p.tensorInfo v = some info ∧
        info.elementType.isNarrowFloat = false ∧ p.InputFits (· ∈ args) n i v := by
    intro i input
    cases input with
    | none => simp
    | some v =>
      cases hinfo : p.tensorInfo v with
      | none => simp [hinfo]
      | some info => simp [hinfo, InputFits, or_assoc]
  unfold placeInCpu Qualifies
  rw [List.all_eq_true]
  constructor
  · intro h i input hi
    exact (hslot i input).1 (h (input, i) (List.mk_mem_zipIdx_iff_getElem?.2 hi))
  · rintro h ⟨input, i⟩ hmem
    exact (hslot i input).2 (h i input (List.mk_mem_zipIdx_iff_getElem?.1 hmem))

theorem producer_eq_some_iff {v : String} {n : Node} :
    p.graph.producer v = some n ↔ p.Writes n v := by
  have hwrites : ∀ {m}, p.graph.producer v = some m → p.Writes m v := fun hm =>
    ⟨List.mem_of_find?_eq_some hm, of_decide_eq_true (List.find?_some hm :)⟩
  refine ⟨hwrites, fun hn => ?_⟩
  obtain ⟨m, hm⟩ := Option.isSome_iff_exists.1
    (Graph.producer_isSome.2 (List.mem_flatMap.2 ⟨n, hn.1, hn.2⟩))
  have hmv := hwrites hm
  rw [hm, Graph.producer_unique hmv.1 hn.1 hmv.2 hn.2]

theorem mem_consumers {n : Node} {v : String} :
    n ∈ p.graph.consumers v ↔ n ∈ p.graph.nodes ∧ 0 < n.uses v := by
  constructor
  · intro h
    have hn := p.graph.consumers_mem v n h
    rw [← p.graph.consumers_count v n hn]
    exact ⟨hn, List.count_pos_iff.2 h⟩
  · rintro ⟨hn, huses⟩
    rw [← p.graph.consumers_count v n hn] at huses
    exact List.count_pos_iff.1 huses

theorem dep_iff {m n : Node} (hm : m ∈ p.graph.nodes) :
    p.graph.Dep m n ↔ n ∈ m.outputNames.flatMap p.graph.consumers := by
  rw [List.mem_flatMap]
  constructor
  · rintro ⟨-, hn, v, hv, huses⟩
    exact ⟨v, hv, mem_consumers.2 ⟨hn, huses⟩⟩
  · rintro ⟨v, hv, hmem⟩
    obtain ⟨hn, huses⟩ := mem_consumers.1 hmem
    exact ⟨hm, hn, v, hv, huses⟩

theorem order_lt_of_dep {m n : Node} (h : p.graph.Dep m n) : p.order m < p.order n :=
  idxOf_lt_of_sublist p.graph.nodes_nodup (p.listed m n h)

theorem handOut_append (vs ws : List String) (s : State) :
    p.handOut (vs ++ ws) s = p.handOut ws (p.handOut vs s) := by
  unfold handOut
  rw [List.flatMap_append, List.append_assoc, List.append_assoc]

/-- The first pass, where no output that is declared on the CPU is missing. -/
theorem seedOutputs_of_present {order : List Node} (h : ∀ t ∈ order, none ∉ p.cpuOutputs t) :
    p.seedOutputs order =
      some (p.handOut (order.flatMap fun t => (p.cpuOutputs t).reduceOption) {}) := by
  unfold seedOutputs
  generalize ({} : State) = s
  induction order generalizing s with
  | nil => simp [handOut]
  | cons t order ih =>
    rw [List.forall_mem_cons] at h
    rw [List.foldlM_cons, handOutputs, if_neg h.1, List.flatMap_cons, handOut_append]
    exact ih h.2 _

theorem seedOutputs_of_missing {order : List Node} (h : ∃ t ∈ order, none ∈ p.cpuOutputs t) :
    p.seedOutputs order = none := by
  unfold seedOutputs
  generalize ({} : State) = s
  induction order generalizing s with
  | nil =>
    obtain ⟨t, ht, -⟩ := h
    cases ht
  | cons t order ih =>
    rw [List.exists_mem_cons_iff] at h
    rw [List.foldlM_cons, handOutputs]
    by_cases hmissing : none ∈ p.cpuOutputs t
    · rw [if_pos hmissing]
      rfl
    · rw [if_neg hmissing]
      exact ih (h.resolve_left hmissing) _

/-- The second pass. -/
theorem seedConstants_eq (order : List Node) (s : State) :
    p.seedConstants order s =
      { s with
        cpuOutputArgs := s.cpuOutputArgs ++ order.flatMap p.requiredValues
        candidates := s.candidates ++ (order.flatMap p.requiredValues).flatMap fun v =>
          (p.graph.producer v).toList.filter (· ∈ p.tentativeNodes) } := by
  unfold seedConstants
  generalize order.flatMap p.requiredValues = vs
  induction vs generalizing s with
  | nil => simp
  | cons v vs ih =>
    rw [List.foldl_cons, ih, List.flatMap_cons]
    simp only [List.append_assoc, List.singleton_append]

/-! ### The loop over the candidates -/

/-- What holds while candidates are taken, where the set is the one that the seen values give. -/
structure Inv (p : Problem) (s : Set Node) (w : State) : Prop where
  candidates : ∀ n ∈ w.candidates, n ∈ p.graph.nodes ∧ p.Candidate s n
  visited : ∀ n ∈ w.visited, p.Candidate s n
  sorted : ∀ m ∈ w.visited, ∀ n ∈ w.candidates, p.order m ≤ p.order n
  seeded : ∀ n, p.Candidate ∅ n → n ∈ w.visited ∨ n ∈ w.candidates
  successors : ∀ m ∈ w.visited, m ∈ s → ∀ n, p.graph.Dep m n → n ∈ w.visited ∨ n ∈ w.candidates
  present : ∀ m ∈ w.visited, m ∈ s → none ∉ m.outputs
  cpuNodes : ∀ n, n ∈ w.cpuNodes ↔ n ∈ w.visited ∧ n ∈ s ∧ n ∈ p.tentativeNodes
  args : ∀ v, v ∈ w.cpuOutputArgs ↔ p.Seen {m | m ∈ s ∧ m ∈ w.visited} v

variable {s : Set Node} {w : State} {n : Node}

theorem candidate_cases (h : p.Candidate s n) : p.Candidate ∅ n ∨ ∃ m ∈ s, p.graph.Dep m n := by
  rcases h with h | h | h
  · exact Or.inl (Or.inl h)
  · exact Or.inl (Or.inr (Or.inl h))
  · exact Or.inr h

/-- The members of the set that stand before all candidates were visited. -/
theorem Inv.mem_visited (h : Inv p s w) (hs : Solves (p.Belongs p.Seen) s) {m : Node} (hm : m ∈ s)
    (hbefore : ∀ k ∈ w.candidates, p.order m < p.order k) : m ∈ w.visited := by
  induction hr : p.order m using Nat.strong_induction_on generalizing m with
  | _ r ih =>
    have hnot : m ∉ w.candidates := fun hmem => Nat.lt_irrefl _ (hbefore m hmem)
    rcases candidate_cases ((hs m).1 hm).2.1 with hseed | ⟨k, hk, hdep⟩
    · exact (h.seeded m hseed).resolve_right hnot
    · have hlt := order_lt_of_dep hdep
      have hkvisited := ih _ (hr ▸ hlt) hk (fun c hc => Nat.lt_trans hlt (hbefore c hc)) rfl
      exact (h.successors k hkvisited hk m hdep).resolve_right hnot

/-- The test on a candidate that is taken decides whether it is in the set. -/
theorem Inv.mem_iff (h : Inv p s w) (hs : Solves (p.Belongs p.Seen) s) (hn : n ∈ w.candidates)
    (hfirst : ∀ k ∈ w.candidates, p.order n ≤ p.order k) :
    n ∈ s ↔ (n ∈ p.tentativeNodes ∧ p.placeInCpu w.cpuOutputArgs n = true) ∨
      (n ∉ p.tentativeNodes ∧ p.fallsBack n = true) := by
  obtain ⟨hnodes, hcandidate⟩ := h.candidates n hn
  have hqualifies : p.Qualifies (· ∈ w.cpuOutputArgs) n ↔ p.Qualifies (p.Seen s) n := by
    refine qualifies_congr fun i v hi => (h.args v).trans ?_
    refine or_congr_right (or_congr_right (exists_congr fun m => and_congr_left fun hm => ?_))
    refine and_iff_left_of_imp fun hmem => h.mem_visited hs hmem fun k hk => ?_
    exact Nat.lt_of_lt_of_le (order_lt_of_dep (dep_of_input hnodes hm hi)) (hfirst k hk)
  rw [hs n, placeInCpu_iff, hqualifies]
  exact ⟨fun h => h.2.2, fun h => ⟨hnodes, hcandidate, h⟩⟩

/-- A candidate that was visited before is dropped. -/
theorem Inv.dropped (h : Inv p s w) (hn : n ∈ w.visited) :
    Inv p s { w with candidates := w.candidates.erase n } := by
  have hkept : ∀ {k}, k ∈ w.visited ∨ k ∈ w.candidates →
      k ∈ w.visited ∨ k ∈ w.candidates.erase n := by
    rintro k (hk | hk)
    · exact Or.inl hk
    · by_cases hkn : k = n
      · exact Or.inl (hkn ▸ hn)
      · exact Or.inr ((List.mem_erase_of_ne hkn).2 hk)
  exact {
    candidates := fun k hk => h.candidates k (List.mem_of_mem_erase hk)
    visited := h.visited
    sorted := fun m hm k hk => h.sorted m hm k (List.mem_of_mem_erase hk)
    seeded := fun k hk => hkept (h.seeded k hk)
    successors := fun m hm hms k hdep => hkept (h.successors m hm hms k hdep)
    present := h.present
    cpuNodes := h.cpuNodes
    args := h.args }

/-- A candidate is visited, and hands out its outputs if it is in the set. -/
theorem Inv.taken (h : Inv p s w) (hn : n ∈ w.candidates)
    (hfirst : ∀ k ∈ w.candidates, p.order n ≤ p.order k) {w' : State}
    (hvisited : w'.visited = n :: w.visited)
    (hcandidates : ∀ k, k ∈ w'.candidates ↔
      k ∈ w.candidates.erase n ∨ (n ∈ s ∧ p.graph.Dep n k))
    (hpresent : n ∈ s → none ∉ n.outputs)
    (hcpu : ∀ k, k ∈ w'.cpuNodes ↔ k ∈ w.cpuNodes ∨ (k = n ∧ n ∈ s ∧ n ∈ p.tentativeNodes))
    (hargs : ∀ v, v ∈ w'.cpuOutputArgs ↔ v ∈ w.cpuOutputArgs ∨ (n ∈ s ∧ p.Writes n v)) :
    Inv p s w' := by
  have hmem : ∀ {k}, k ∈ w'.visited ↔ k = n ∨ k ∈ w.visited := fun {k} => by
    rw [hvisited, List.mem_cons]
  have hkept : ∀ {k}, k ∈ w.visited ∨ k ∈ w.candidates → k ∈ w'.visited ∨ k ∈ w'.candidates := by
    rintro k (hk | hk)
    · exact Or.inl (hmem.2 (Or.inr hk))
    · by_cases hkn : k = n
      · exact Or.inl (hmem.2 (Or.inl hkn))
      · exact Or.inr ((hcandidates k).2 (Or.inl ((List.mem_erase_of_ne hkn).2 hk)))
  refine ⟨?_, ?_, ?_, fun k hk => hkept (h.seeded k hk), ?_, ?_, ?_, ?_⟩
  · intro k hk
    rcases (hcandidates k).1 hk with hk | ⟨hns, hdep⟩
    · exact h.candidates k (List.mem_of_mem_erase hk)
    · exact ⟨hdep.2.1, Or.inr (Or.inr ⟨n, hns, hdep⟩)⟩
  · rw [hvisited]
    exact List.forall_mem_cons.2 ⟨(h.candidates n hn).2, h.visited⟩
  · intro m hm k hk
    have hmn : p.order m ≤ p.order n := by
      rcases hmem.1 hm with rfl | hm
      · exact Nat.le_refl _
      · exact h.sorted m hm n hn
    refine Nat.le_trans hmn ?_
    rcases (hcandidates k).1 hk with hk | ⟨-, hdep⟩
    · exact hfirst k (List.mem_of_mem_erase hk)
    · exact Nat.le_of_lt (order_lt_of_dep hdep)
  · intro m hm hms k hdep
    rcases hmem.1 hm with rfl | hm
    · exact Or.inr ((hcandidates k).2 (Or.inr ⟨hms, hdep⟩))
    · exact hkept (h.successors m hm hms k hdep)
  · intro m hm hms
    rcases hmem.1 hm with rfl | hm
    · exact hpresent hms
    · exact h.present m hm hms
  · intro k
    rw [hcpu, h.cpuNodes, hmem]
    constructor
    · rintro (hk | ⟨rfl, hk⟩)
      · exact ⟨Or.inr hk.1, hk.2⟩
      · exact ⟨Or.inl rfl, hk⟩
    · rintro ⟨rfl | hk, hks⟩
      · exact Or.inr ⟨rfl, hks⟩
      · exact Or.inl ⟨hk, hks⟩
  · intro v
    rw [hargs, h.args]
    unfold Seen
    rw [or_assoc, or_assoc]
    refine or_congr_right (or_congr_right ?_)
    constructor
    · rintro (⟨m, ⟨hms, hm⟩, hmv⟩ | ⟨hns, hv⟩)
      · exact ⟨m, ⟨hms, hmem.2 (Or.inr hm)⟩, hmv⟩
      · exact ⟨n, ⟨hns, hmem.2 (Or.inl rfl)⟩, hv⟩
    · rintro ⟨m, ⟨hms, hm⟩, hmv⟩
      rcases hmem.1 hm with rfl | hm
      · exact Or.inr ⟨hms, hmv⟩
      · exact Or.inl ⟨m, ⟨hms, hm⟩, hmv⟩

/-- One turn: an output of a node of the set is missing, or the invariant holds again. -/
theorem Inv.visit (h : Inv p s w) (hs : Solves (p.Belongs p.Seen) s) (hn : n ∈ w.candidates)
    (hfirst : ∀ k ∈ w.candidates, p.order n ≤ p.order k) :
    (p.visit n { w with candidates := w.candidates.erase n } = none ∧ n ∈ s ∧ none ∈ n.outputs) ∨
      ∃ w', p.visit n { w with candidates := w.candidates.erase n } = some w' ∧ Inv p s w' := by
  have hmem := h.mem_iff hs hn hfirst
  have hnodes := (h.candidates n hn).1
  have hrejected : n ∉ s →
      Inv p s { w with candidates := w.candidates.erase n, visited := n :: w.visited } := by
    intro hns
    exact h.taken hn hfirst rfl (fun k => (or_iff_left fun hk => hns hk.1).symm)
      (fun hk => absurd hk hns) (fun k => (or_iff_left fun hk => hns hk.2.1).symm)
      fun v => (or_iff_left fun hv => hns hv.1).symm
  have hhanded : n ∈ s → none ∉ n.outputs → ∀ cpuNodes : List Node,
      (∀ k, k ∈ cpuNodes ↔ k ∈ w.cpuNodes ∨ (k = n ∧ n ∈ s ∧ n ∈ p.tentativeNodes)) →
      Inv p s (p.handOut n.outputs.reduceOption
        { w with candidates := w.candidates.erase n, visited := n :: w.visited, cpuNodes }) := by
    intro hns hpresent cpuNodes hcpu
    refine h.taken hn hfirst rfl (fun k => ?_) (fun _ => hpresent) hcpu fun v => ?_
    · rw [and_iff_right hns, dep_iff hnodes]
      exact List.mem_append
    · rw [and_iff_right hns]
      exact List.mem_append.trans (or_congr_right ⟨fun hv => ⟨hnodes, hv⟩, fun hv => hv.2⟩)
  unfold Problem.visit
  by_cases hvisited : n ∈ w.visited
  · rw [if_pos hvisited]
    exact Or.inr ⟨_, rfl, h.dropped hvisited⟩
  · rw [if_neg hvisited]
    by_cases htentative : n ∈ p.tentativeNodes
    · rw [if_neg (not_not_intro htentative)]
      rw [and_iff_right htentative, or_iff_left fun hk => hk.1 htentative] at hmem
      by_cases hplace : p.placeInCpu w.cpuOutputArgs n = true
      · rw [if_pos hplace, handOutputs]
        by_cases hmissing : none ∈ n.outputs
        · rw [if_pos hmissing]
          exact Or.inl ⟨rfl, hmem.2 hplace, hmissing⟩
        · rw [if_neg hmissing]
          refine Or.inr ⟨_, rfl, hhanded (hmem.2 hplace) hmissing _ fun k => ?_⟩
          rw [List.mem_cons, and_iff_left ⟨hmem.2 hplace, htentative⟩, or_comm]
      · rw [if_neg hplace]
        exact Or.inr ⟨_, rfl, hrejected fun hns => hplace (hmem.1 hns)⟩
    · rw [if_pos htentative]
      rw [and_iff_right htentative, or_iff_right fun hk => htentative hk.1] at hmem
      by_cases hback : p.fallsBack n = true
      · rw [if_pos hback, handOutputs]
        by_cases hmissing : none ∈ n.outputs
        · rw [if_pos hmissing]
          exact Or.inl ⟨rfl, hmem.2 hback, hmissing⟩
        · rw [if_neg hmissing]
          refine Or.inr ⟨_, rfl, hhanded (hmem.2 hback) hmissing _ fun k => ?_⟩
          exact (or_iff_left fun hk => htentative hk.2.2).symm
      · rw [if_neg hback]
        exact Or.inr ⟨_, rfl, hrejected fun hns => hback (hmem.1 hns)⟩

/-! ### Turns -/

/-- What can still become a candidate: those that are there, and what the nodes that were not
visited hand out. -/
def potential (p : Problem) (w : State) : Nat :=
  w.candidates.length + ((p.graph.nodes.filter (· ∉ w.visited)).map p.handed).sum

theorem handOutputs_length {outputs : List (Option String)} {w' : State}
    (h : p.handOutputs outputs w = some w') : w'.visited = w.visited ∧
      w'.candidates.length =
        w.candidates.length + (outputs.reduceOption.flatMap p.graph.consumers).length := by
  unfold handOutputs at h
  split at h
  · cases h
  · rw [← Option.some.inj h]
    exact ⟨rfl, List.length_append⟩

theorem visit_cases {w' : State} (h : p.visit n w = some w') :
    (n ∈ w.visited ∧ w' = w) ∨ (n ∉ w.visited ∧ w'.visited = n :: w.visited ∧
      w'.candidates.length ≤ w.candidates.length + p.handed n) := by
  unfold Problem.visit at h
  split at h
  · next hvisited => exact Or.inl ⟨hvisited, (Option.some.inj h).symm⟩
  · next hvisited =>
    refine Or.inr ⟨hvisited, ?_⟩
    split_ifs at h
    · obtain ⟨hsame, hlength⟩ := handOutputs_length h
      exact ⟨hsame, Nat.le_of_eq hlength⟩
    · rw [← Option.some.inj h]
      exact ⟨rfl, Nat.le_add_right _ _⟩
    · obtain ⟨hsame, hlength⟩ := handOutputs_length h
      exact ⟨hsame, Nat.le_of_eq hlength⟩
    · rw [← Option.some.inj h]
      exact ⟨rfl, Nat.le_add_right _ _⟩

/-- Every turn uses up what can become a candidate. -/
theorem potential_visit {w' : State} (hnodes : n ∈ p.graph.nodes) (hn : n ∈ w.candidates)
    (h : p.visit n { w with candidates := w.candidates.erase n } = some w') :
    potential p w' < potential p w := by
  have hlength : (w.candidates.erase n).length + 1 = w.candidates.length := by
    rw [List.length_erase_of_mem hn]
    exact Nat.sub_add_cancel (List.length_pos_of_mem hn)
  unfold potential
  rcases visit_cases h with ⟨-, rfl⟩ | ⟨hnew, hvisited, hgrown⟩
  · rw [← hlength]
    exact Nat.add_lt_add_right (Nat.lt_succ_self _) _
  · have hleft : n ∈ p.graph.nodes.filter (· ∉ w.visited) :=
      List.mem_filter.2 ⟨hnodes, decide_eq_true hnew⟩
    have hfilter : p.graph.nodes.filter (· ∉ n :: w.visited) =
        (p.graph.nodes.filter (· ∉ w.visited)).erase n := by
      rw [(p.graph.nodes_nodup.filter _).erase_eq_filter, List.filter_filter]
      refine List.filter_congr fun k _ => ?_
      rw [Bool.eq_iff_iff, decide_eq_true_iff, Bool.and_eq_true_iff, bne_iff_ne,
        decide_eq_true_iff, List.mem_cons, not_or]
    have hsum := List.sum_map_erase p.handed hleft
    dsimp only at hgrown hvisited
    rw [hvisited, hfilter, ← hsum]
    calc w'.candidates.length + _
        ≤ ((w.candidates.erase n).length + p.handed n) + _ := Nat.add_le_add_right hgrown _
      _ = (w.candidates.erase n).length + (p.handed n + _) := Nat.add_assoc _ _ _
      _ < w.candidates.length + _ := Nat.add_lt_add_right (hlength ▸ Nat.lt_succ_self _) _

/-- The loop comes to its end: at a missing output of a node of the set, or without candidates. -/
theorem drain_spec (hs : Solves (p.Belongs p.Seen) s) {turns : Nat} (h : Inv p s w)
    (hturns : potential p w ≤ turns) :
    (p.drain turns w = .nullOutput ∧ ∃ n ∈ s, none ∈ n.outputs) ∨
      ∃ w', p.drain turns w = .returned w' ∧ Inv p s w' ∧ w'.candidates = [] := by
  induction turns generalizing w with
  | zero =>
    have hempty : w.candidates = [] :=
      List.length_eq_zero_iff.1 (Nat.eq_zero_of_add_eq_zero (Nat.le_zero.1 hturns)).1
    rw [drain, if_pos hempty]
    exact Or.inr ⟨w, rfl, h, hempty⟩
  | succ turns ih =>
    rw [drain]
    cases hn : w.candidates.argmin p.order with
    | none => exact Or.inr ⟨w, rfl, h, List.argmin_eq_none.1 hn⟩
    | some n =>
      have hmem := List.argmin_mem hn
      have hfirst : ∀ k ∈ w.candidates, p.order n ≤ p.order k := fun k hk =>
        List.le_of_mem_argmin hk hn
      rcases h.visit hs hmem hfirst with ⟨hmissing, hns⟩ | ⟨w', hvisit, hw'⟩
      · dsimp only
        rw [hmissing]
        exact Or.inl ⟨rfl, n, hns⟩
      · have hless := potential_visit (h.candidates n hmem).1 hmem hvisit
        dsimp only
        rw [hvisit]
        exact ih hw' (Nat.le_of_lt_succ (Nat.lt_of_lt_of_le hless hturns))

/-! ### The seeds -/

theorem declared_iff {first : List Node} (hfirst : first.Perm p.tentativeNodes) {v : String} :
    v ∈ first.flatMap (fun t => (p.cpuOutputs t).reduceOption) ↔ p.Declared v := by
  rw [List.mem_flatMap]
  refine exists_congr fun t => and_congr hfirst.mem_iff ?_
  exact List.reduceOption_mem_iff

theorem required_iff {second : List Node} (hsecond : second.Perm p.tentativeNodes) {v : String} :
    v ∈ second.flatMap p.requiredValues ↔ p.Required v := by
  rw [List.mem_flatMap]
  exact exists_congr fun t => and_congr_left fun _ => hsecond.mem_iff

theorem mem_producers_iff {v : String} :
    n ∈ (p.graph.producer v).toList.filter (· ∈ p.tentativeNodes) ↔
      n ∈ p.tentativeNodes ∧ p.Writes n v := by
  rw [List.mem_filter, Option.mem_toList, producer_eq_some_iff, decide_eq_true_iff, and_comm]

/-- The seeds are the candidates without a set. -/
theorem mem_seeds_iff {first second : List Node} (hfirst : first.Perm p.tentativeNodes)
    (hsecond : second.Perm p.tentativeNodes) :
    n ∈ (first.flatMap fun t => (p.cpuOutputs t).reduceOption).flatMap p.graph.consumers ++
        (second.flatMap p.requiredValues).flatMap (fun v =>
          (p.graph.producer v).toList.filter (· ∈ p.tentativeNodes)) ↔ p.Candidate ∅ n := by
  rw [List.mem_append, List.mem_flatMap, List.mem_flatMap]
  refine or_congr ?_ ?_
  · exact exists_congr fun v => and_congr_left fun _ => declared_iff hfirst
  · constructor
    · rintro ⟨v, hv, hn⟩
      obtain ⟨htentative, hwrites⟩ := mem_producers_iff.1 hn
      exact Or.inl ⟨htentative, v, (required_iff hsecond).1 hv, hwrites⟩
    · rintro (⟨htentative, v, hv, hwrites⟩ | ⟨m, hm, -⟩)
      · exact ⟨v, (required_iff hsecond).2 hv, mem_producers_iff.2 ⟨htentative, hwrites⟩⟩
      · exact absurd hm (Set.notMem_empty m)

/-- The invariant holds of what the passes leave. -/
theorem inv_seeded (s : Set Node) {first second : List Node}
    (hfirst : first.Perm p.tentativeNodes) (hsecond : second.Perm p.tentativeNodes) :
    Inv p s (p.seedConstants second
      (p.handOut (first.flatMap fun t => (p.cpuOutputs t).reduceOption) {})) := by
  have hseeds := fun n => mem_seeds_iff (n := n) hfirst hsecond
  have hvisited : ∀ {n : Node}, n ∈ ([] : List Node) → False := fun hn => List.not_mem_nil hn
  rw [seedConstants_eq, handOut, List.nil_append, List.nil_append]
  refine ⟨fun n hn => ?_, fun n hn => (hvisited hn).elim, fun m hm => (hvisited hm).elim,
    fun n hn => Or.inr ((hseeds n).2 hn), fun m hm => (hvisited hm).elim,
    fun m hm => (hvisited hm).elim, fun n => ?_, fun v => ?_⟩
  · have hseed := (hseeds n).1 hn
    rcases hseed with ⟨v, hv, hmem⟩ | ⟨htentative, h⟩ | ⟨m, hm, -⟩
    · exact ⟨(mem_consumers.1 hmem).1, Or.inl ⟨v, hv, hmem⟩⟩
    · exact ⟨p.tentative_mem n htentative, Or.inr (Or.inl ⟨htentative, h⟩)⟩
    · exact absurd hm (Set.notMem_empty m)
  · exact iff_of_false (fun hn => hvisited hn) fun hn => hvisited hn.1
  · refine List.mem_append.trans ?_
    rw [declared_iff hfirst, required_iff hsecond]
    refine or_congr_right (or_iff_left ?_).symm
    rintro ⟨m, ⟨-, hm⟩, -⟩
    exact hvisited hm

end CpuPreferredLemmas

open CpuPreferredLemmas

/-- There is one set of nodes that belong on the CPU. -/
theorem cpuSide_solves : ∃ s, Solves (p.Belongs p.ProducedOnCpu) s ∧
    ∀ t, Solves (p.Belongs p.ProducedOnCpu) t → t = s := by
  obtain ⟨s, hs⟩ := exists_solves (wellFounded_dep p) (looksBelow_produced p)
  exact ⟨s, hs, fun t ht => ht.unique (wellFounded_dep p) (looksBelow_produced p) hs⟩

/-- There is one set of nodes that qualify by what the loops take to be on the CPU. -/
theorem exists_seen_solves : ∃ s, Solves (p.Belongs p.Seen) s :=
  exists_solves (wellFounded_dep p) (looksBelow_seen p)

variable {p}

/-- What is found, whatever the order of the seeds: the nodes that qualify by what the loops take to
be on the CPU, unless an output is missing. -/
theorem getCpuPreferredNodes_spec {s : Set Node} (hs : Solves (p.Belongs p.Seen) s)
    {first second : List Node} (hfirst : first.Perm p.tentativeNodes)
    (hsecond : second.Perm p.tentativeNodes) :
    (p.getCpuPreferredNodes first second = .nullOutput ∧
      ((∃ t ∈ p.tentativeNodes, none ∈ p.cpuOutputs t) ∨ ∃ n ∈ s, none ∈ n.outputs)) ∨
    ∃ w, p.getCpuPreferredNodes first second = .returned w ∧
      (∀ t ∈ p.tentativeNodes, none ∉ p.cpuOutputs t) ∧ (∀ n ∈ s, none ∉ n.outputs) ∧
      (∀ n, n ∈ w.cpuNodes ↔ n ∈ s ∧ n ∈ p.tentativeNodes) ∧
      ∀ n, n ∈ w.visited ↔ p.Candidate s n := by
  unfold getCpuPreferredNodes
  by_cases hmissing : ∃ t ∈ first, none ∈ p.cpuOutputs t
  · rw [seedOutputs_of_missing hmissing]
    obtain ⟨t, ht, hnone⟩ := hmissing
    exact Or.inl ⟨rfl, Or.inl ⟨t, hfirst.mem_iff.1 ht, hnone⟩⟩
  · push Not at hmissing
    rw [seedOutputs_of_present hmissing]
    have hinv := inv_seeded s hfirst hsecond
    dsimp only
    generalize p.seedConstants second _ = w at hinv
    have hturns : potential p w ≤ w.candidates.length + (p.graph.nodes.map p.handed).sum :=
      Nat.add_le_add_left ((List.filter_sublist.map _).sum_le_sum fun _ _ => Nat.zero_le _) _
    rcases drain_spec hs hinv hturns with ⟨hnull, h⟩ | ⟨w', hdone, hinv', hempty⟩
    · exact Or.inl ⟨hnull, Or.inr h⟩
    · have hmem : ∀ n ∈ s, n ∈ w'.visited := fun n hn =>
        hinv'.mem_visited hs hn fun k hk => by
          rw [hempty] at hk
          exact absurd hk List.not_mem_nil
      have hall : ∀ {n}, n ∈ w'.visited ∨ n ∈ w'.candidates → n ∈ w'.visited := fun hn =>
        hn.resolve_right (by rw [hempty]; exact List.not_mem_nil)
      refine Or.inr ⟨w', hdone, fun t ht => hmissing t (hfirst.mem_iff.2 ht),
        fun n hn => hinv'.present n (hmem n hn) hn, fun n => ?_, fun n => ?_⟩
      · rw [hinv'.cpuNodes n]
        exact ⟨fun h => h.2, fun h => ⟨hmem n h.1, h⟩⟩
      · refine ⟨hinv'.visited n, fun hn => ?_⟩
        rcases candidate_cases hn with hseed | ⟨m, hm, hdep⟩
        · exact hall (hinv'.seeded n hseed)
        · exact hall (hinv'.successors m (hmem m hm) hm n hdep)

end Problem

end AmdGpuEp.DirectML.CpuPreferredNodes
