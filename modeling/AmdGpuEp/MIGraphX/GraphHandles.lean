import AmdGpuEp.MIGraphX.Residue
import Mathlib.Data.List.Nodup
import Mathlib.Data.List.Perm.Basic

/-!
# Handles of captured graphs

`WarmupAndCaptureHipGraph` of `mgx_hip_graph.cc` captures a program into a `hipGraph`, of which it
makes a `hipGraphExec`, and keeps both with the node. Any of its calls may fail. Some of them
throw out of it, and others are caught behind the point where the handles exist.

A handle is known by its number; the runtime gives each number once. `hipStreamEndCapture` takes
the stream out of capture mode in any case, and gives no graph when it fails.

Results:
1. `capture_backsOut`, `capture_settles`, `capture_leaks`: what the `try` block and its handler
   leave behind.
2. `handles_kept_iff`: the runs in which every handle is destroyed once or kept, the stream is left
   idle, and a failed capture is followed by an eager execution.
3. `instantiate_leaks`: a graph that nobody destroys.
-/

namespace AmdGpuEp.MIGraphX.GraphHandles

/-! ## The runtime -/

inductive HandleKind
  | graph
  | exec
  deriving DecidableEq, Repr

/-- A `hipGraph_t` or a `hipGraphExec_t`. -/
structure Handle where
  kind : HandleKind
  number : Nat
  deriving DecidableEq, Repr

/-- The stream, and the handles that were created and destroyed, the last ones first. -/
structure Runtime where
  capturing : Bool := false
  created : List Handle := []
  destroyed : List Handle := []
  deriving DecidableEq, Repr

/-- How a program runs: a stream that captures only records it. -/
inductive Execution (P : Type)
  | eager (params : P)
  | recorded (params : P)
  deriving DecidableEq, Repr

namespace Runtime

/-- `program.run_async` -/
def runAsync {P : Type} (r : Runtime) (params : P) : Execution P :=
  if r.capturing then .recorded params else .eager params

/-- The next handle. -/
def fresh (r : Runtime) (kind : HandleKind) : Handle :=
  { kind, number := r.created.length }

def create (r : Runtime) (kind : HandleKind) : Runtime :=
  { r with created := r.fresh kind :: r.created }

/-- `hipGraphDestroy` and `hipGraphExecDestroy`, of handles that are no null pointers. -/
def destroy (r : Runtime) (handles : List Handle) : Runtime :=
  { r with destroyed := handles ++ r.destroyed }

/-- `hipStreamBeginCapture` -/
def beginCapture (r : Runtime) : Runtime :=
  { r with capturing := true }

/-- The graph that `hipStreamEndCapture` gives. -/
def capturedGraph (r : Runtime) (fails : Bool) : Option Handle :=
  if r.capturing && !fails then some (r.fresh .graph) else none

/-- `hipStreamEndCapture` -/
def endCapture (r : Runtime) (fails : Bool) : Runtime :=
  { r with
    capturing := false
    created := (r.capturedGraph fails).toList ++ r.created }

end Runtime

/-! ## Nodes and calls -/

structure CapturedHipGraph where
  graph : Option Handle := none
  exec : Option Handle := none
  captured : Bool := false
  capturedScratchPtr : Option Nat := none
  deriving DecidableEq, Repr

/-- The handles of an entry, in the order in which they are destroyed. -/
def CapturedHipGraph.handles (entry : CapturedHipGraph) : List Handle :=
  entry.exec.toList ++ entry.graph.toList

/-- The entry without its handles. -/
def CapturedHipGraph.reset (entry : CapturedHipGraph) : CapturedHipGraph :=
  { entry with graph := none, exec := none, captured := false }

/-- What may fail in an attempt. -/
inductive CaptureStep
  | zeroOutput (i : Nat)
  | zeroScratch
  | warmupRun (i : Nat)
  | warmupSync
  | parameterShapes
  | rezeroScratch
  | captureSync
  | beginCapture
  | captureRun
  | endCapture
  | abandonCapture
  | instantiate
  | recordBuffers
  | warminLaunch (i : Nat)
  | warminSync
  | recordOutputs
  deriving DecidableEq, Repr

/-- One call of `RunProgramOrHipGraph`: its shapes, its scratch buffer, its parameters, how many
output buffers are staged, the batch that the program was compiled for, and what fails. -/
structure Call (K P : Type) where
  shapeHash : K
  scratch : Option Nat := none
  params : P
  stagingOutputs : Nat := 0
  compiledBatch : Nat := 0
  fails : CaptureStep → Bool := fun _ => false

namespace Call

variable {K P : Type} (call : Call K P)

/-- `ZeroScratchFor` -/
def zeroScratchFor (step : CaptureStep) : List CaptureStep :=
  if call.scratch.isSome then [step] else []

/-- What is done before the entry is looked up. -/
def warmupSteps : List CaptureStep :=
  (List.range call.stagingOutputs).map .zeroOutput ++ call.zeroScratchFor .zeroScratch ++
    (List.range kCaptureFinalizeIterations).map .warmupRun ++ [.warmupSync, .parameterShapes]

/-- What is done between that and the `try` block. -/
def anchorSteps : List CaptureStep :=
  call.zeroScratchFor .rezeroScratch ++ [.captureSync]

/-- What is done with the instantiated graph. -/
def settleSteps : List CaptureStep :=
  .recordBuffers ::
    (List.range (postCaptureWarminFor call.compiledBatch)).map .warminLaunch ++
    [.warminSync, .recordOutputs]

def goThrough (steps : List CaptureStep) : Bool :=
  steps.all fun step => !call.fails step

end Call

/-! ## `WarmupAndCaptureHipGraph` -/

/-- What the `try` block changes, and whether it returns `true`, returns `false` or throws. -/
structure Capture where
  entry : CapturedHipGraph
  runtime : Runtime
  returns : Option Bool
  deriving DecidableEq, Repr

section

variable {K P : Type}

/-- The `try` block behind `hipStreamEndCapture`, with its graph. -/
def instantiateGraph (call : Call K P) (entry : CapturedHipGraph) (r : Runtime) : Capture :=
  if call.fails .instantiate then ⟨entry, r, none⟩
  else
    let entry := { entry with
      exec := some (r.fresh .exec)
      captured := true
      capturedScratchPtr := call.scratch }
    ⟨entry, r.create .exec, if call.goThrough call.settleSteps then some true else none⟩

/-- The `try` block. -/
def tryCapture (call : Call K P) (entry : CapturedHipGraph) (r : Runtime) : Capture :=
  if call.fails .beginCapture then ⟨entry, r, none⟩
  else if call.fails .captureRun then ⟨entry, r.beginCapture, none⟩
  else
    match r.beginCapture.capturedGraph (call.fails .endCapture) with
    | none =>
      ⟨{ entry with graph := none, captured := false },
        r.beginCapture.endCapture (call.fails .endCapture), some false⟩
    | some graph =>
      instantiateGraph call { entry with graph := some graph }
        (r.beginCapture.endCapture (call.fails .endCapture))

/-- The `try` block with its handler. -/
def captureOrAbandon (call : Call K P) (entry : CapturedHipGraph) (r : Runtime) :
    CapturedHipGraph × Runtime × Bool :=
  match tryCapture call entry r with
  | ⟨entry, r, some captured⟩ => (entry, r, captured)
  | ⟨entry, r, none⟩ =>
    (entry.reset,
      (r.endCapture (call.fails .abandonCapture)).destroy
        (r.capturedGraph (call.fails .abandonCapture)).toList,
      false)

/-- A node, with the runtime. The keys of its graphs are shape hashes. -/
structure Node (K : Type) where
  runtime : Runtime := {}
  hipGraphEnable : Bool := true
  hipGraphCache : List (K × CapturedHipGraph) := []
  deriving DecidableEq, Repr

namespace Node

variable [DecidableEq K] (node : Node K)

/-- `hip_graph_cache.find` -/
def find (key : K) : Option CapturedHipGraph :=
  (node.hipGraphCache.find? fun e => e.1 = key).map Prod.snd

/-- The other entries. -/
def others (key : K) : List (K × CapturedHipGraph) :=
  node.hipGraphCache.eraseP fun e => e.1 = key

/-- An entry is written, and the runtime behind it. -/
def store (key : K) (entry : CapturedHipGraph) (r : Runtime) : Node K :=
  { node with runtime := r, hipGraphCache := (key, entry) :: node.others key }

/-- The handles that the node holds. -/
def held : List Handle :=
  node.hipGraphCache.flatMap fun e => e.2.handles

end Node

/-- How a call went: without a capture, with one, with one that failed, or with an exception out of
the attempt. -/
inductive Attempt
  | none
  | captured
  | failed
  | threw
  deriving DecidableEq, Repr

/-- What a call did, with what it ran behind the attempt. A replay runs no program. -/
structure Outcome (P : Type) where
  attempt : Attempt := .none
  executions : List (Execution P) := []
  deriving DecidableEq, Repr

variable [DecidableEq K]

/-- `WarmupAndCaptureHipGraph`. The entry is made before the scratch buffer is zeroed again. -/
def warmupAndCaptureHipGraph (node : Node K) (call : Call K P) : Node K × Attempt :=
  if !call.goThrough call.warmupSteps then (node, .threw)
  else
    let entry := (node.find call.shapeHash).getD {}
    if !call.goThrough call.anchorSteps then
      (node.store call.shapeHash entry node.runtime, .threw)
    else
      match captureOrAbandon call entry node.runtime with
      | (entry, r, true) => (node.store call.shapeHash entry r, .captured)
      | (entry, r, false) =>
        ({ node.store call.shapeHash entry r with hipGraphEnable := false }, .failed)

/-! ## `RunProgramOrHipGraph` -/

/-- The end of `RunProgramOrHipGraph`. -/
def captureOrRun (node : Node K) (call : Call K P) : Node K × Outcome P :=
  match warmupAndCaptureHipGraph node call with
  | (node, .failed) =>
    (node, { attempt := .failed, executions := [node.runtime.runAsync call.params] })
  | (node, attempt) => (node, { attempt })

/-- The entry of which the graph is replayed, or of which the scratch buffer was reallocated. -/
def Node.capturedEntry (node : Node K) (key : K) : Option CapturedHipGraph :=
  (node.find key).filter CapturedHipGraph.captured

/-- `RunProgramOrHipGraph` -/
def runProgramOrHipGraph (node : Node K) (call : Call K P) : Node K × Outcome P :=
  if !node.hipGraphEnable then (node, { executions := [node.runtime.runAsync call.params] })
  else
    match node.capturedEntry call.shapeHash with
    | none => captureOrRun node call
    | some entry =>
      if entry.capturedScratchPtr ≠ call.scratch then
        captureOrRun
          (node.store call.shapeHash entry.reset (node.runtime.destroy entry.handles)) call
      else (node, {})

/-- `DestroyHipGraphs` -/
def Node.destroyHipGraphs (node : Node K) : Node K :=
  { node with runtime := node.runtime.destroy node.held, hipGraphCache := [] }

/-- What the destructor of the provider does with the graphs of a node. -/
def Node.teardown (node : Node K) : Node K :=
  { node with
    runtime := node.runtime.destroy node.held
    hipGraphCache := node.hipGraphCache.map fun e => (e.1, e.2.reset) }

inductive Operation (K P : Type)
  | run (call : Call K P)
  | destroyHipGraphs
  | teardown

/-- A node and what is done with it. -/
def machine : Machine (Node K) (Operation K P) (Outcome P) where
  step node
    | .run call => some (runProgramOrHipGraph node call)
    | .destroyHipGraphs => some (node.destroyHipGraphs, {})
    | .teardown => some (node.teardown, {})

/-! ## The property -/

/-- Every handle that was created is destroyed once or held. -/
def Node.Accounted (node : Node K) : Prop :=
  node.runtime.created.Nodup ∧
    (node.runtime.destroyed ++ node.held).Perm node.runtime.created

/-- A capture that failed is followed by one eager execution of the call. -/
def Recovers : Operation K P → Outcome P → Prop
  | .run call, o =>
    o.attempt = .failed ∨ o.attempt = .threw → o.executions = [.eager call.params]
  | _, _ => True

structure Good (_ : Node K) (op : Operation K P) (node : Node K) (o : Outcome P) : Prop where
  accounted : node.Accounted
  idle : node.runtime.capturing = false
  recovers : Recovers op o

/-- The capture fails before there is a handle. -/
def Call.backsOut (call : Call K P) : Bool :=
  call.fails .beginCapture || call.fails .captureRun || call.fails .endCapture

/-- Nothing fails behind `hipStreamEndCapture`. -/
def Call.settles (call : Call K P) : Bool :=
  !call.fails .instantiate && call.goThrough call.settleSteps

/-- An attempt reaches its `try` block, and fails there before there is a handle or not at all. -/
def Call.isSafe (call : Call K P) : Bool :=
  call.goThrough call.warmupSteps && call.goThrough call.anchorSteps &&
    (call.backsOut || call.settles)

/-- The call finds no graph that it can replay. -/
def Node.attempts (node : Node K) (call : Call K P) : Bool :=
  node.hipGraphEnable &&
    !(node.capturedEntry call.shapeHash).any fun entry => entry.capturedScratchPtr = call.scratch

/-- The calls that are safe. -/
def Safe (node : Node K) (op : Operation K P) (_ : Node K) (_ : Outcome P) : Prop :=
  match op with
  | .run call => node.attempts call → call.isSafe
  | _ => True

end

namespace GraphHandlesLemmas

/-! ## Handles of the runtime -/

/-- The handles that were created and are not destroyed are those that are held. -/
structure Tracked (held : List Handle) (r : Runtime) : Prop where
  numbered : ∀ h ∈ r.created, h.number < r.created.length
  nodup : r.created.Nodup
  perm : (r.destroyed ++ held).Perm r.created

variable {held held' hs : List Handle} {r : Runtime}

theorem Tracked.of_perm (h : Tracked held r) (hperm : held.Perm held') : Tracked held' r :=
  { h with perm := (hperm.symm.append_left _).trans h.perm }

theorem Tracked.destroy (h : Tracked (hs ++ held) r) : Tracked held (r.destroy hs) := by
  refine { h with perm := ?_ }
  refine List.Perm.trans ?_ h.perm
  rw [Runtime.destroy, ← List.append_assoc]
  exact List.perm_append_comm.append_right held

theorem Tracked.create (h : Tracked held r) (kind : HandleKind) :
    Tracked (r.fresh kind :: held) (r.create kind) where
  numbered := fun g hg => by
    obtain rfl | hg := List.mem_cons.1 hg
    · exact Nat.lt_succ_self _
    · exact Nat.lt_succ_of_lt (h.numbered g hg)
  nodup := List.nodup_cons.2 ⟨fun hmem => lt_irrefl _ (h.numbered _ hmem), h.nodup⟩
  perm := List.perm_middle.trans (h.perm.cons _)

theorem Tracked.beginCapture (h : Tracked held r) : Tracked held r.beginCapture :=
  { h with }

theorem Tracked.endCapture (h : Tracked held r) (fails : Bool) :
    Tracked ((r.capturedGraph fails).toList ++ held) (r.endCapture fails) := by
  rw [Runtime.endCapture]
  cases hgraph : r.capturedGraph fails with
  | none => exact { h with }
  | some graph =>
    have heq : r.fresh .graph = graph := by
      rw [Runtime.capturedGraph] at hgraph
      split at hgraph
      · exact Option.some.inj hgraph
      · cases hgraph
    subst heq
    exact { h.create .graph with }

/-! ## The `try` block and its handler -/

variable {K P : Type} {call : Call K P} {entry : CapturedHipGraph}

theorem reset_handles (entry : CapturedHipGraph) : entry.reset.handles = [] := rfl

/-- An attempt that fails before there is a handle leaves none. -/
theorem capture_backsOut (h : Tracked held r) (hentry : entry.handles = [])
    (hback : call.backsOut = true) :
    ∃ entry' r', captureOrAbandon call entry r = (entry', r', false) ∧ entry'.handles = [] ∧
      Tracked held r' ∧ r'.capturing = false := by
  have habandon : ∀ r, Tracked held r → Tracked held
      ((r.endCapture (call.fails .abandonCapture)).destroy
        (r.capturedGraph (call.fails .abandonCapture)).toList) :=
    fun r h => (h.endCapture _).destroy
  rw [captureOrAbandon, tryCapture]
  rw [Call.backsOut, Bool.or_eq_true, Bool.or_eq_true] at hback
  split_ifs with hbegin hrun
  · exact ⟨_, _, rfl, rfl, habandon r h, rfl⟩
  · exact ⟨_, _, rfl, rfl, habandon _ h.beginCapture, rfl⟩
  · have hend : call.fails .endCapture = true :=
      hback.resolve_left fun hor => hor.elim hbegin hrun
    have hgraph : r.beginCapture.capturedGraph (call.fails .endCapture) = none := by
      rw [Runtime.capturedGraph, hend]
      simp
    have hended := h.beginCapture.endCapture (call.fails .endCapture)
    rw [hgraph] at hended ⊢
    refine ⟨_, _, rfl, ?_, hended, rfl⟩
    rw [CapturedHipGraph.handles, List.append_eq_nil_iff] at hentry
    simp [CapturedHipGraph.handles, hentry.1]

/-- Behind `hipStreamEndCapture` there is a graph. -/
theorem tryCapture_of_not_backsOut (hback : call.backsOut = false) :
    tryCapture call entry r =
      instantiateGraph call { entry with graph := some (r.fresh .graph) }
        { r.create .graph with capturing := false } := by
  rw [Call.backsOut, Bool.or_eq_false_iff, Bool.or_eq_false_iff] at hback
  obtain ⟨⟨hbegin, hrun⟩, hend⟩ := hback
  simp [tryCapture, hbegin, hrun, hend, Runtime.capturedGraph, Runtime.beginCapture,
    Runtime.endCapture, Runtime.create, Runtime.fresh]

/-- An attempt that goes through leaves the graph and its executable to the entry. -/
theorem capture_settles (entry : CapturedHipGraph) (h : Tracked held r)
    (hback : call.backsOut = false) (hsettle : call.settles = true) :
    ∃ entry' r', captureOrAbandon call entry r = (entry', r', true) ∧ entry'.captured = true ∧
      Tracked (entry'.handles ++ held) r' ∧ r'.capturing = false := by
  rw [Call.settles, Bool.and_eq_true, Bool.not_eq_true'] at hsettle
  rw [captureOrAbandon, tryCapture_of_not_backsOut hback, instantiateGraph,
    if_neg (by rw [hsettle.1]; decide), if_pos hsettle.2]
  refine ⟨_, _, rfl, rfl, ?_, rfl⟩
  have hgraph : Tracked (r.fresh .graph :: held) { r.create .graph with capturing := false } :=
    { h.create .graph with }
  exact hgraph.create .exec

/-- An attempt that fails behind `hipStreamEndCapture` leaves handles that nobody has. -/
theorem capture_leaks (entry : CapturedHipGraph) (r : Runtime) (hback : call.backsOut = false)
    (hsettle : call.settles = false) :
    ∃ entry' r', captureOrAbandon call entry r = (entry', r', false) ∧ entry'.handles = [] ∧
      r'.destroyed = r.destroyed ∧ r.created.length < r'.created.length ∧
      r'.capturing = false := by
  rw [Call.settles, Bool.and_eq_false_iff, Bool.not_eq_false'] at hsettle
  rw [captureOrAbandon, tryCapture_of_not_backsOut hback, instantiateGraph]
  split_ifs with hinstantiate hgo
  · refine ⟨_, _, rfl, rfl, rfl, ?_, rfl⟩
    simp [Runtime.destroy, Runtime.endCapture, Runtime.capturedGraph, Runtime.create]
  · exact absurd hsettle (by simp [hinstantiate, hgo])
  · refine ⟨_, _, rfl, rfl, rfl, ?_, rfl⟩
    simp only [Runtime.destroy, Runtime.endCapture, Runtime.capturedGraph, Runtime.create,
      List.length_append, List.length_cons]
    exact Nat.lt_add_left _ (Nat.lt_succ_of_lt (Nat.lt_succ_self _))

/-! ## Entries of the cache -/

theorem flatMap_perm_eraseP {α β : Type} (p : α → Bool) (f : α → List β) (l : List α) :
    (l.flatMap f).Perm (((l.find? p).map f).getD [] ++ (l.eraseP p).flatMap f) := by
  induction l with
  | nil => exact List.Perm.refl _
  | cons a l ih =>
    cases hp : p a with
    | true =>
      rw [List.find?_cons_of_pos hp, List.eraseP_cons_of_pos hp]
      exact List.Perm.refl _
    | false =>
      rw [List.find?_cons_of_neg (by simp [hp]), List.eraseP_cons_of_neg (by simp [hp]),
        List.flatMap_cons, List.flatMap_cons]
      refine (ih.append_left (f a)).trans ?_
      rw [← List.append_assoc, ← List.append_assoc]
      exact List.perm_append_comm.append_right _

variable {node node' : Node K} {key : K}

/-- What holds of a node between the calls that are safe. -/
structure Inv (node : Node K) : Prop where
  tracked : Tracked node.held node.runtime
  idle : node.runtime.capturing = false
  /-- An entry without a graph has no handles. -/
  uncaptured : ∀ e ∈ node.hipGraphCache, e.2.captured = false → e.2.handles = []

theorem Inv.accounted (h : Inv node) : node.Accounted :=
  ⟨h.tracked.nodup, h.tracked.perm⟩

theorem Inv.good (h : Inv node) (before : Node K) (op : Operation K P) {o : Outcome P}
    (hattempt : o.attempt = .none) : Good before op node o := by
  refine ⟨h.accounted, h.idle, ?_⟩
  cases op with
  | run call => exact fun hfails => by rw [hattempt] at hfails; simp at hfails
  | destroyHipGraphs => trivial
  | teardown => trivial

theorem Inv.destroyHipGraphs (h : Inv node) : Inv node.destroyHipGraphs where
  tracked := Tracked.destroy (h.tracked.of_perm (List.Perm.of_eq (List.append_nil _).symm))
  idle := h.idle
  uncaptured := fun e he => by cases he

theorem Inv.teardown (h : Inv node) : Inv node.teardown where
  tracked := by
    have hheld : node.teardown.held = [] := by
      simp [Node.held, Node.teardown, List.flatMap_map, reset_handles]
    rw [hheld]
    exact Tracked.destroy (h.tracked.of_perm (List.Perm.of_eq (List.append_nil _).symm))
  idle := h.idle
  uncaptured := fun e he _ => by
    obtain ⟨e, _, rfl⟩ := List.mem_map.1 he
    rfl

variable [DecidableEq K]

/-- The handles that are held apart from an entry. -/
def heldApart (node : Node K) (key : K) : List Handle :=
  (node.others key).flatMap fun e => e.2.handles

theorem held_perm (node : Node K) (key : K) :
    node.held.Perm (((node.find key).getD {}).handles ++ heldApart node key) := by
  have hperm := flatMap_perm_eraseP (fun e : K × CapturedHipGraph => decide (e.1 = key))
    (fun e => e.2.handles) node.hipGraphCache
  rw [Node.find]
  cases hfind : node.hipGraphCache.find? fun e => decide (e.1 = key) with
  | none =>
    rw [hfind] at hperm
    exact hperm
  | some e =>
    rw [hfind] at hperm
    exact hperm

theorem Inv.tracked_apart (h : Inv node) (key : K) :
    Tracked (((node.find key).getD {}).handles ++ heldApart node key) node.runtime :=
  h.tracked.of_perm (held_perm node key)

/-- Another entry is written. -/
theorem Inv.store (h : Inv node) {entry : CapturedHipGraph} {r : Runtime}
    (htracked : Tracked (entry.handles ++ heldApart node key) r) (hidle : r.capturing = false)
    (hentry : entry.captured = false → entry.handles = []) :
    Inv (node.store key entry r) where
  tracked := htracked
  idle := hidle
  uncaptured := fun e he => by
    obtain rfl | he := List.mem_cons.1 he
    · exact hentry
    · exact h.uncaptured e (List.mem_of_mem_eraseP he)

theorem Inv.handles_of_find (h : Inv node)
    (hfind : ((node.find key).getD {}).captured = false) :
    ((node.find key).getD {}).handles = [] := by
  cases hentry : node.find key with
  | none => rfl
  | some entry =>
    rw [hentry] at hfind
    obtain ⟨e, he, rfl⟩ := Option.map_eq_some_iff.1 hentry
    exact h.uncaptured e (List.mem_of_find?_eq_some he) hfind

/-! ## Calls -/

/-- What throws before the `try` block is not caught. -/
theorem captureOrRun_threw (node : Node K)
    (hgo : (call.goThrough call.warmupSteps && call.goThrough call.anchorSteps) = false) :
    ∃ node', captureOrRun node call = (node', { attempt := .threw }) := by
  rw [captureOrRun, warmupAndCaptureHipGraph]
  cases hwarmup : call.goThrough call.warmupSteps with
  | false => exact ⟨_, rfl⟩
  | true =>
    rw [hwarmup, Bool.true_and] at hgo
    rw [hgo]
    exact ⟨_, rfl⟩

theorem captureOrRun_of_captured {entry : CapturedHipGraph}
    (hgo : (call.goThrough call.warmupSteps && call.goThrough call.anchorSteps) = true)
    (hcapture : captureOrAbandon call ((node.find call.shapeHash).getD {}) node.runtime =
      (entry, r, true)) :
    captureOrRun node call = (node.store call.shapeHash entry r, { attempt := .captured }) := by
  rw [Bool.and_eq_true] at hgo
  rw [captureOrRun, warmupAndCaptureHipGraph, hgo.1, hgo.2]
  simp [hcapture]

theorem captureOrRun_of_failed {entry : CapturedHipGraph}
    (hgo : (call.goThrough call.warmupSteps && call.goThrough call.anchorSteps) = true)
    (hcapture : captureOrAbandon call ((node.find call.shapeHash).getD {}) node.runtime =
      (entry, r, false)) (hidle : r.capturing = false) :
    captureOrRun node call =
      ({ node.store call.shapeHash entry r with hipGraphEnable := false },
        { attempt := .failed, executions := [.eager call.params] }) := by
  rw [Bool.and_eq_true] at hgo
  rw [captureOrRun, warmupAndCaptureHipGraph, hgo.1, hgo.2]
  simp [hcapture, Runtime.runAsync, Node.store, hidle]

/-- As many handles are destroyed or held as before, and more have been created. -/
theorem not_accounted_of_created {entry : CapturedHipGraph} {key : K}
    (htracked : Tracked (heldApart node key) node.runtime) (hentry : entry.handles = [])
    (hdestroyed : r.destroyed = node.runtime.destroyed)
    (hcreated : node.runtime.created.length < r.created.length) (enable : Bool) :
    ¬ Node.Accounted { node.store key entry r with hipGraphEnable := enable } := by
  rintro ⟨_, hperm⟩
  have hheld : Node.held { node.store key entry r with hipGraphEnable := enable } =
      heldApart node key := by
    show entry.handles ++ heldApart node key = _
    rw [hentry, List.nil_append]
  rw [hheld] at hperm
  have hlength : (r.destroyed ++ heldApart node key).length = r.created.length := hperm.length_eq
  rw [hdestroyed, htracked.perm.length_eq] at hlength
  exact hcreated.ne hlength

/-- What an attempt leaves: it is good exactly when it is safe, and then the invariant holds. -/
theorem captureOrRun_spec (h : Inv node)
    (hfind : ((node.find call.shapeHash).getD {}).captured = false)
    {o : Outcome P} (hrun : captureOrRun node call = (node', o)) (before : Node K) :
    (Good before (.run call) node' o ↔ call.isSafe = true) ∧
      (call.isSafe = true → Inv node') := by
  have hnone := h.handles_of_find hfind
  have htracked := h.tracked_apart call.shapeHash
  rw [hnone, List.nil_append] at htracked
  rw [Call.isSafe]
  cases hgo : call.goThrough call.warmupSteps && call.goThrough call.anchorSteps with
  | false =>
    obtain ⟨_, hthrew⟩ := captureOrRun_threw node hgo
    cases hthrew.symm.trans hrun
    rw [Bool.false_and]
    exact ⟨iff_of_false (fun hgood => nomatch hgood.recovers (.inr rfl)) Bool.false_ne_true,
      fun hsafe => absurd hsafe Bool.false_ne_true⟩
  | true =>
    rw [Bool.true_and]
    cases hback : call.backsOut with
    | true =>
      obtain ⟨entry', r', hcapture, hentry, htracked', hidle⟩ :=
        capture_backsOut htracked hnone hback
      cases (captureOrRun_of_failed hgo hcapture hidle).symm.trans hrun
      have hstore : Inv (node.store call.shapeHash entry' r') :=
        h.store (by rwa [hentry]) hidle fun _ => hentry
      have hinv : Inv { node.store call.shapeHash entry' r' with hipGraphEnable := false } :=
        { hstore with }
      exact ⟨iff_of_true ⟨hinv.accounted, hidle, fun _ => rfl⟩ rfl, fun _ => hinv⟩
    | false =>
      rw [Bool.false_or]
      cases hsettle : call.settles with
      | true =>
        obtain ⟨entry', r', hcapture, hcaptured, htracked', hidle⟩ :=
          capture_settles ((node.find call.shapeHash).getD {}) htracked hback hsettle
        cases (captureOrRun_of_captured hgo hcapture).symm.trans hrun
        have hinv : Inv (node.store call.shapeHash entry' r') :=
          h.store htracked' hidle fun hnot => absurd hcaptured (by simp [hnot])
        exact ⟨iff_of_true ⟨hinv.accounted, hidle, by rintro (h | h) <;> cases h⟩ rfl,
          fun _ => hinv⟩
      | false =>
        obtain ⟨entry', r', hcapture, hentry, hdestroyed, hcreated, hidle⟩ :=
          capture_leaks ((node.find call.shapeHash).getD {}) node.runtime hback hsettle
        cases (captureOrRun_of_failed hgo hcapture hidle).symm.trans hrun
        have hleak := not_accounted_of_created htracked hentry hdestroyed hcreated false
        exact ⟨iff_of_false (fun hgood => hleak hgood.accounted) Bool.false_ne_true,
          fun hsafe => absurd hsafe Bool.false_ne_true⟩

/-- The handles of an entry are destroyed before it is captured again. -/
theorem Inv.release (h : Inv node) {entry : CapturedHipGraph} (hfind : node.find key = some entry) :
    Inv (node.store key entry.reset (node.runtime.destroy entry.handles)) := by
  have htracked := h.tracked_apart key
  rw [hfind] at htracked
  exact h.store htracked.destroy h.idle fun _ => rfl

theorem find_store (node : Node K) (key : K) (entry : CapturedHipGraph) (r : Runtime) :
    (node.store key entry r).find key = some entry := by
  simp [Node.find, Node.store]

theorem uncaptured_of_capturedEntry (hentry : node.capturedEntry key = none) :
    ((node.find key).getD {}).captured = false := by
  rw [Node.capturedEntry] at hentry
  cases hfind : node.find key with
  | none => rfl
  | some entry =>
    rw [hfind, Option.filter_eq_none_iff] at hentry
    simpa using hentry entry rfl

theorem runProgram_spec (h : Inv node) {o : Outcome P}
    (hrun : runProgramOrHipGraph node call = (node', o)) :
    (Good node (.run call) node' o ↔ Safe node (.run call) node' o) ∧
      (Safe node (.run call) node' o → Inv node') := by
  rw [Safe]
  rw [runProgramOrHipGraph] at hrun
  cases henable : node.hipGraphEnable with
  | false =>
    rw [henable] at hrun
    cases hrun
    exact ⟨iff_of_true (h.good node _ rfl) (by simp [Node.attempts, henable]), fun _ => h⟩
  | true =>
    rw [henable] at hrun
    cases hentry : node.capturedEntry call.shapeHash with
    | none =>
      rw [hentry] at hrun
      rw [Node.attempts, henable, hentry]
      simpa using captureOrRun_spec h (uncaptured_of_capturedEntry hentry) hrun node
    | some entry =>
      rw [hentry] at hrun
      have hfind : node.find call.shapeHash = some entry :=
        (Option.filter_eq_some_iff.1 hentry).1
      by_cases hscratch : entry.capturedScratchPtr = call.scratch
      · simp only [Bool.not_true, Bool.false_eq_true, ↓reduceIte, ne_eq, hscratch,
          not_true_eq_false] at hrun
        cases hrun
        exact ⟨iff_of_true (h.good node _ rfl) (by simp [Node.attempts, hentry, hscratch]),
          fun _ => h⟩
      · simp only [Bool.not_true, Bool.false_eq_true, ↓reduceIte, ne_eq, hscratch,
          not_false_eq_true] at hrun
        rw [Node.attempts, henable, hentry]
        simpa [hscratch] using
          captureOrRun_spec (h.release hfind) (by rw [find_store]; rfl) hrun node

end GraphHandlesLemmas

open GraphHandlesLemmas

/-! ## Runs -/

variable {K P : Type}

theorem inv_init : Inv ({} : Node K) where
  tracked := {
    numbered := fun _ hmem => nomatch hmem
    nodup := List.nodup_nil
    perm := List.Perm.refl _ }
  idle := rfl
  uncaptured := fun _ hmem => nomatch hmem

variable [DecidableEq K]

/-- What is done with a node is good exactly when it is safe, and then the invariant is kept. -/
theorem inv_step {node node' : Node K} {op : Operation K P} {o : Outcome P} (h : Inv node)
    (hstep : machine.step node op = some (node', o)) :
    (Good node op node' o ↔ Safe node op node' o) ∧ (Safe node op node' o → Inv node') := by
  cases op with
  | run call => exact runProgram_spec h (Option.some.inj hstep)
  | destroyHipGraphs =>
    cases hstep
    exact ⟨iff_of_true (h.destroyHipGraphs.good node _ rfl) trivial, fun _ => h.destroyHipGraphs⟩
  | teardown =>
    cases hstep
    exact ⟨iff_of_true (h.teardown.good node _ rfl) trivial, fun _ => h.teardown⟩

/-- In a run from a new node, every call keeps account of the handles, leaves the stream idle and
recovers from a capture that failed, exactly when all its calls are safe. -/
theorem handles_kept_iff (ops : List (Operation K P)) :
    (machine : Machine (Node K) (Operation K P) (Outcome P)).Every Good {} ops ↔
      (machine : Machine (Node K) (Operation K P) (Outcome P)).Every Safe {} ops :=
  Machine.Every.congr_of_invariant Inv (fun _ _ _ _ => inv_step) inv_init ops

/-- A call of which the graph cannot be instantiated. -/
def uninstantiated : Call Unit Unit where
  shapeHash := ()
  params := ()
  fails step := step = .instantiate

/-- The graph that `hipStreamEndCapture` has given is neither held nor destroyed. -/
theorem instantiate_leaks :
    ¬ (machine : Machine (Node Unit) (Operation Unit Unit) (Outcome Unit)).Every Good {}
      [.run uninstantiated] := by
  intro hgood
  have hrun : machine.step {} (.run uninstantiated) =
      some ({
        runtime := { created := [⟨.graph, 0⟩] }
        hipGraphEnable := false
        hipGraphCache := [((), {})] }, { attempt := .failed, executions := [.eager ()] }) := by
    decide
  obtain ⟨⟨⟨_, hperm⟩, _⟩, _⟩ := (Machine.Every.cons hrun).1 hgood
  exact absurd hperm.length_eq (by decide)

end AmdGpuEp.MIGraphX.GraphHandles
