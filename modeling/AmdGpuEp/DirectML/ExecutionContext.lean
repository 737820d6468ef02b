import AmdGpuEp.Lib.FencedQueue
import Mathlib.Logic.Function.Basic
import Mathlib.Data.Fin.Basic
import Mathlib.Data.List.TakeWhile

/-!
# The execution context of the DirectML provider

`dml_execution_context.cc` with the command queue, the command recorder and the ring of
command allocators behind it. Commands are recorded into an open command list and
submitted with it; objects and allocators are kept until the fence of the queue has a
value that is chosen before the list is submitted.

The GPU makes progress between any two reads of the fence. What was recorded when an
object was queued, an allocator used or an event given is noted beside the state; the
code does not keep it.

Results:
1. `Inv.apply`: what every operation keeps.
2. `run_safe`: in every run, objects are released and allocators are reset when what was
   recorded before is completed, commands are submitted in the order of recording, and an
   event is signaled when what was recorded before it is completed.
-/

namespace AmdGpuEp.DirectML.ExecutionContext

/-! ## Commands -/

/-- A transition of a resource between two states. -/
structure Transition where
  resource : Nat
  stateBefore : Nat
  stateAfter : Nat
  deriving DecidableEq, Repr

inductive Command
  | initializeOperator (op : Nat)
  | execute (op : Nat)
  | resourceBarrier (barriers : List Transition)
  | uavBarrier
  | copyBufferRegion (dst dstOffset src srcOffset byteCount : Nat)
  | clear (dst : Nat) (pattern : List UInt8)
  | other (id : Nat)
  deriving DecidableEq, Repr

/-! ## State -/

/-- An object that is kept until the fence has a value. `before` is what was recorded when it was
queued. -/
structure QueuedReference (O : Type) where
  fenceValue : Nat
  object : O
  before : List Command
  deriving DecidableEq, Repr

/-- An allocator with the value at which its lists are completed. `recordedWith` is what was recorded
up to the last command of its lists. -/
structure CommandAllocator where
  completionEvent : Nat
  recordedWith : List Command := []
  deriving DecidableEq, Repr

/-- An object that is released, and what is completed then. -/
structure Release (O : Type) where
  reference : QueuedReference O
  completed : List Command
  deriving DecidableEq, Repr

/-- An allocator that is reset, and what is completed then. -/
structure Reset where
  allocator : CommandAllocator
  completed : List Command
  deriving DecidableEq, Repr

/-- A value of the fence that a caller is given, and what is recorded then. -/
structure CompletionEvent where
  fenceValue : Nat
  recorded : List Command
  deriving DecidableEq, Repr

/-- `m_currentCommandList` is missing while the recorder is closed. There is one recorder, and
`currentRecorder` says whether it is set. The ring has `n + 1` allocators. `polls` counts the reads
of the fence. The fields from `recorded` on are what has happened. -/
structure Context (O : Type) (n : Nat) where
  queue : FencedQueue Command := {}
  queuedReferences : List (QueuedReference O) := []
  commandAllocators : Fin (n + 1) → CommandAllocator
  currentCommandAllocator : Fin (n + 1)
  currentCommandList : Option (List Command) := none
  operationsRecorded : Bool := false
  currentRecorder : Bool := false
  polls : Nat := 0
  recorded : List Command := []
  released : List (Release O) := []
  resets : List Reset := []
  events : List CompletionEvent := []

variable {O : Type} {n : Nat}

/-- A new context: all allocators have the current completion event. -/
def Context.new : Context O n where
  commandAllocators _ := { completionEvent := 0 }
  currentCommandAllocator := 0

section

variable (gpu : Nat → Nat)

/-! ## `CommandQueue` -/

/-- `GetCompletedValue`: by then the GPU has done some more batches. -/
def readFence (s : Context O n) : Context O n :=
  { s with queue := s.queue.advance (gpu s.polls), polls := s.polls + 1 }

/-- `CommandQueue::ExecuteCommandLists`. -/
def executeCommandLists (lists : List (List Command)) (s : Context O n) : Context O n :=
  { s with queue := s.queue.submit lists.flatten }

/-- `CommandQueue::GetNextCompletionEvent`. -/
def nextCompletionEvent (s : Context O n) : Nat :=
  s.queue.last + 1

/-- `CommandQueue::QueueReference`. -/
def queueReferenceUntil (object : O) (waitForUnsubmittedWork : Bool) (s : Context O n) :
    Context O n :=
  { s with
    queuedReferences := s.queuedReferences ++
      [{ fenceValue := if waitForUnsubmittedWork then s.queue.last + 1 else s.queue.last
         object, before := s.recorded }] }

/-- `CommandQueue::ReleaseCompletedReferences`. -/
def releaseCompletedReferences (s : Context O n) : Context O n :=
  let s := readFence gpu s
  let completed := fun r : QueuedReference O => decide (r.fenceValue ≤ s.queue.fenceValue)
  { s with
    queuedReferences := s.queuedReferences.dropWhile completed
    released := s.released ++ (s.queuedReferences.takeWhile completed).map fun reference =>
      { reference, completed := s.queue.completed } }

/-! ## `CommandAllocatorRing` -/

/-- `GetNextAllocator`: the other allocator is reset when its event is signaled. -/
def getNextAllocator (nextCompletionEvent : Nat) (s : Context O n) : Context O n :=
  let s := readFence gpu s
  let earliestOtherAllocator := s.currentCommandAllocator + 1
  let other := s.commandAllocators earliestOtherAllocator
  if other.completionEvent ≤ s.queue.fenceValue then
    { s with
      commandAllocators := Function.update s.commandAllocators earliestOtherAllocator
        { completionEvent := nextCompletionEvent }
      currentCommandAllocator := earliestOtherAllocator
      resets := s.resets ++ [{ allocator := other, completed := s.queue.completed }] }
  else
    { s with
      commandAllocators := Function.update s.commandAllocators s.currentCommandAllocator
        { s.commandAllocators s.currentCommandAllocator with
          completionEvent := nextCompletionEvent } }

/-- `UpdateCurrentAllocatorCompletionEvent`. -/
def updateCurrentAllocatorCompletionEvent (nextCompletionEvent : Nat) (s : Context O n) :
    Context O n :=
  { s with
    commandAllocators := Function.update s.commandAllocators s.currentCommandAllocator
      { s.commandAllocators s.currentCommandAllocator with
        completionEvent := nextCompletionEvent } }

/-! ## `PluginDmlCommandRecorder` -/

/-- `Open`. A list that is created and one that is reset are both empty. -/
def openRecorder (s : Context O n) : Context O n :=
  { getNextAllocator gpu (nextCompletionEvent s) s with currentCommandList := some [] }

/-- `CloseAndExecute`, with a list of the caller behind the recorded one. -/
def closeAndExecute (commandList : Option (List Command)) (s : Context O n) : Context O n :=
  let lists := (if s.operationsRecorded then s.currentCommandList.toList else []) ++
    commandList.toList
  let s := if lists = [] then s else executeCommandLists lists s
  { s with currentCommandList := none, operationsRecorded := false }

/-- Commands are recorded into the current list. -/
def record (commands : List Command) (s : Context O n) : Context O n :=
  { s with
    currentCommandList := s.currentCommandList.map (· ++ commands)
    operationsRecorded := true
    commandAllocators := Function.update s.commandAllocators s.currentCommandAllocator
      { s.commandAllocators s.currentCommandAllocator with
        recordedWith := s.recorded ++ commands }
    recorded := s.recorded ++ commands }

/-- A value of the fence is given to the caller. -/
def giveEvent (fenceValue : Nat) (s : Context O n) : Context O n :=
  { s with events := s.events ++ [{ fenceValue, recorded := s.recorded }] }

/-- `PluginDmlCommandRecorder::ExecuteCommandList`. -/
def recorderExecuteCommandList (commandList : List Command) (s : Context O n) : Context O n :=
  let called := { s with recorded := s.recorded ++ commandList }
  if !s.operationsRecorded then
    let executed := executeCommandLists [commandList] (giveEvent (nextCompletionEvent s) called)
    updateCurrentAllocatorCompletionEvent (nextCompletionEvent executed) executed
  else
    let opened := openRecorder gpu (closeAndExecute (some commandList) called)
    giveEvent opened.queue.last opened

/-! ## `ExecutionContext` -/

/-- `SetCommandRecorder`, for the one recorder there is. `Flush`, which is called when no recorder is
set, has nothing to flush then. -/
def setCommandRecorder (s : Context O n) : Context O n :=
  if s.currentRecorder then s else openRecorder gpu { s with currentRecorder := true }

/-- `Flush`. -/
def flush (s : Context O n) : Context O n :=
  if !s.currentRecorder || !s.operationsRecorded then s
  else
    setCommandRecorder gpu
      { releaseCompletedReferences gpu (closeAndExecute none s) with currentRecorder := false }

/-- `ExecutionContext::QueueReference`. -/
def queueReference (object : O) (s : Context O n) : Context O n :=
  queueReferenceUntil object s.currentRecorder s

/-- `ExecutionContext::GetCurrentCompletionEvent`. -/
def getCurrentCompletionEvent (s : Context O n) : Context O n :=
  let unflushedWorkExists := s.currentRecorder && s.operationsRecorded
  giveEvent (if unflushedWorkExists then s.queue.last + 1 else s.queue.last) s

/-- The temporary buffer of an operator goes back to the pool, or its resource is queued. -/
inductive Temporary (O : Type)
  | none
  | pooled
  | freed (resource : O)
  deriving DecidableEq, Repr

/-- `FreeImpl` of the buffer. -/
def freeTemporary : Temporary O → Context O n → Context O n
  | .freed resource, s => queueReference resource s
  | _, s => s

/-- `InitializeOperator`. There is a barrier when something is written. -/
def initializeOperator (op : Nat) (persistentResource : Bool) (temporary : Temporary O)
    (s : Context O n) : Context O n :=
  let barrier := if persistentResource ∨ temporary matches .pooled | .freed _ then
    [Command.uavBarrier] else []
  record (.initializeOperator op :: barrier) (freeTemporary temporary (setCommandRecorder gpu s))

/-- `ExecuteOperator`. -/
def executeOperator (op : Nat) (temporary : Temporary O) (s : Context O n) : Context O n :=
  record [.execute op, .uavBarrier] (freeTemporary temporary (setCommandRecorder gpu s))

/-- `D3D12_RESOURCE_STATE_COPY_DEST` and `D3D12_RESOURCE_STATE_COPY_SOURCE`. -/
def stateCopyDest : Nat := 0x400

def stateCopySource : Nat := 0x800

/-- `CopyBufferRegion`: the resources are brought into the states of a copy, and back. -/
def copyBufferRegion (dst dstOffset dstState src srcOffset srcState byteCount : Nat)
    (s : Context O n) : Context O n :=
  let barriers :=
    (if dstState &&& stateCopyDest = 0 then [Transition.mk dst dstState stateCopyDest] else []) ++
      if srcState &&& stateCopySource = 0 then [Transition.mk src srcState stateCopySource] else []
  let back := barriers.map fun b => Transition.mk b.resource b.stateAfter b.stateBefore
  let before := if barriers = [] then [] else [Command.resourceBarrier barriers]
  let after := if barriers = [] then [] else [Command.resourceBarrier back]
  record (before ++ [.copyBufferRegion dst dstOffset src srcOffset byteCount] ++ after)
    (setCommandRecorder gpu s)

/-- The pattern of `FillBufferWithPattern`, repeated to 16 bytes. -/
def fillPattern (value : List UInt8) : List UInt8 :=
  (List.range 16).map fun i => value.getD (i % value.length) 0

/-- `FillBufferWithPattern`. -/
def fillBufferWithPattern (dst : Nat) (value : List UInt8) (s : Context O n) : Context O n :=
  record [.clear dst (fillPattern value), .uavBarrier] (setCommandRecorder gpu s)

/-- An operation of a caller. -/
inductive Operation (O : Type)
  | initializeOperator (op : Nat) (persistentResource : Bool) (temporary : Temporary O)
  | executeOperator (op : Nat) (temporary : Temporary O)
  | copyBufferRegion (dst dstOffset dstState src srcOffset srcState byteCount : Nat)
  | fillBufferWithPattern (dst : Nat) (value : List UInt8)
  | addUAVBarrier
  | resourceBarrier (barriers : List Transition)
  | getCommandListForRecording (commands : List Command)
  | executeCommandList (commandList : List Command)
  | flush
  | queueReference (object : O)
  | getCurrentCompletionEvent
  | releaseCompletedReferences
  deriving DecidableEq, Repr

/-- The caller of `GetCommandListForRecordingAndInvalidateState` records before its next
operation. -/
def Operation.apply : Operation O → Context O n → Context O n
  | initializeOperator op persistentResource temporary =>
    ExecutionContext.initializeOperator gpu op persistentResource temporary
  | executeOperator op temporary => ExecutionContext.executeOperator gpu op temporary
  | copyBufferRegion dst dstOffset dstState src srcOffset srcState byteCount =>
    ExecutionContext.copyBufferRegion gpu dst dstOffset dstState src srcOffset srcState byteCount
  | fillBufferWithPattern dst value => ExecutionContext.fillBufferWithPattern gpu dst value
  | addUAVBarrier => record [.uavBarrier] ∘ setCommandRecorder gpu
  | resourceBarrier barriers => record [.resourceBarrier barriers] ∘ setCommandRecorder gpu
  | getCommandListForRecording commands => record commands ∘ setCommandRecorder gpu
  | executeCommandList commandList =>
    recorderExecuteCommandList gpu commandList ∘ setCommandRecorder gpu
  | flush => ExecutionContext.flush gpu
  | queueReference object => ExecutionContext.queueReference object
  | getCurrentCompletionEvent => ExecutionContext.getCurrentCompletionEvent
  | releaseCompletedReferences => ExecutionContext.releaseCompletedReferences gpu

/-- The operations, one after the other. -/
def run (ops : List (Operation O)) (s : Context O n) : Context O n :=
  ops.foldl (fun s op => op.apply gpu s) s

end

/-! ## What is kept -/

/-- The value `v` promises `l`. -/
def Context.Promises (s : Context O n) (v : Nat) (l : List Command) : Prop :=
  s.queue.Promises s.recorded v l

/-- What holds of the queue and of what waits for it. -/
structure Kept (s : Context O n) : Prop where
  inOrder : s.queue.InOrder
  whole : s.queue.submitted ++ s.currentCommandList.getD [] = s.recorded
  flagged : s.currentCommandList.getD [] ≠ [] → s.operationsRecorded = true
  references : ∀ r ∈ s.queuedReferences, s.Promises r.fenceValue r.before
  allocators : ∀ a, s.Promises (s.commandAllocators a).completionEvent
    (s.commandAllocators a).recordedWith
  events : ∀ e ∈ s.events, s.Promises e.fenceValue e.recorded
  released : ∀ r ∈ s.released, r.reference.before <+: r.completed
  resets : ∀ r ∈ s.resets, r.allocator.recordedWith <+: r.completed

/-- What holds between operations: the list is open when the recorder is set, and the event of its
allocator is not yet submitted. -/
structure Inv (s : Context O n) : Prop extends Kept s where
  opened : s.currentCommandList.isSome = s.currentRecorder
  current : s.currentCommandList.isSome = true →
    s.queue.last < (s.commandAllocators s.currentCommandAllocator).completionEvent

theorem inv_new : Inv (Context.new : Context O n) where
  inOrder := FencedQueue.inOrder_empty
  whole := rfl
  flagged h := absurd rfl h
  references _ h := absurd h List.not_mem_nil
  allocators _ := Or.inl (FencedQueue.covers_nil _ _)
  events _ h := absurd h List.not_mem_nil
  released _ h := absurd h List.not_mem_nil
  resets _ h := absurd h List.not_mem_nil
  opened := rfl
  current h := absurd h Bool.false_ne_true

section

variable {gpu : Nat → Nat} {s : Context O n}

/-- The next value promises all that is recorded. -/
theorem promises_next (s : Context O n) : s.Promises (s.queue.last + 1) s.recorded :=
  Or.inr ⟨Nat.lt_succ_self _, List.prefix_rfl⟩

namespace Kept

/-- Without recorded work the current value does, too. -/
theorem promises_last (h : Kept s) (hnone : s.currentCommandList.getD [] = []) :
    s.Promises s.queue.last s.recorded := by
  have hcovers := FencedQueue.covers_last h.inOrder (Nat.le_refl s.queue.last)
  have hwhole := h.whole
  rw [hnone, List.append_nil] at hwhole
  rw [hwhole] at hcovers
  exact Or.inl hcovers

theorem submitted_prefix (h : Kept s) : s.queue.submitted <+: s.recorded :=
  h.whole ▸ List.prefix_append _ _

/-- What is promised is recorded. -/
theorem prefix_recorded (h : Kept s) {v : Nat} {l : List Command} (hl : s.Promises v l) :
    l <+: s.recorded := by
  rcases hl with ⟨front, hfront, hsub, -⟩ | ⟨-, hsub⟩
  · exact (hsub.trans (FencedQueue.prefix_flatMap hfront)).trans h.submitted_prefix
  · exact hsub

/-- Promises are kept when all that is recorded is submitted. -/
theorem promises_execute (h : Kept s) {lists : List (List Command)} {more : List Command}
    (hall : s.queue.submitted ++ lists.flatten = s.recorded ++ more) {v : Nat} {l : List Command}
    (hl : s.Promises v l) :
    (s.queue.submit lists.flatten).Promises (s.recorded ++ more) v l :=
  (FencedQueue.Promises.record hl more).submit h.inOrder hall

/-- An allocator may wait for a value that is not submitted. -/
theorem promises_update (h : Kept s) {v : Nat} (hv : s.queue.last < v)
    (i a : Fin (n + 1)) :
    let allocators := Function.update s.commandAllocators i
      { s.commandAllocators i with completionEvent := v }
    s.Promises (allocators a).completionEvent (allocators a).recordedWith := by
  dsimp only
  by_cases ha : a = i
  · subst ha
    rw [Function.update_self]
    exact Or.inr ⟨hv, h.prefix_recorded (h.allocators a)⟩
  · rw [Function.update_of_ne ha]
    exact h.allocators a

/-! ## Reads of the fence -/

theorem readFence (h : Kept s) : Kept (readFence gpu s) where
  inOrder := h.inOrder.advance _
  whole := h.whole
  flagged := h.flagged
  references r hr := (h.references r hr).advance _
  allocators a := (h.allocators a).advance _
  events e he := (h.events e he).advance _
  released := h.released
  resets := h.resets

/-- The objects that are released waited for values that the fence has. -/
theorem releaseCompletedReferences (h : Kept s) : Kept (releaseCompletedReferences gpu s) := by
  have hread : Kept (ExecutionContext.readFence gpu s) := h.readFence
  refine { hread with references := fun r hr => ?_, released := fun r hr => ?_ }
  · exact hread.references r ((List.dropWhile_sublist _).mem hr)
  · rcases List.mem_append.1 hr with hold | hnew
    · exact hread.released r hold
    · obtain ⟨reference, hmem, rfl⟩ := List.mem_map.1 hnew
      have hvalue := List.mem_takeWhile_imp hmem
      exact (hread.references reference ((List.takeWhile_prefix _).subset hmem)).completed
        hread.inOrder (of_decide_eq_true hvalue)

/-- The allocator that is reset waited for a value that the fence has. -/
theorem getNextAllocator (h : Kept s) {v : Nat} (hv : s.queue.last < v) :
    Kept (getNextAllocator gpu v s) := by
  have hread : Kept (ExecutionContext.readFence gpu s) := h.readFence
  unfold ExecutionContext.getNextAllocator
  dsimp only
  split
  · next hsignaled =>
    refine { hread with allocators := fun a => ?_, resets := fun r hr => ?_ }
    · dsimp only
      by_cases ha : a = (ExecutionContext.readFence gpu s).currentCommandAllocator + 1
      · rw [ha, Function.update_self]
        exact Or.inl (FencedQueue.covers_nil _ _)
      · rw [Function.update_of_ne ha]
        exact hread.allocators a
    · rcases List.mem_append.1 hr with hold | hnew
      · exact hread.resets r hold
      · obtain rfl := List.mem_singleton.1 hnew
        exact (hread.allocators _).completed hread.inOrder hsignaled
  · exact { hread with allocators := fun a => hread.promises_update hv _ a }

end Kept

theorem current_getNextAllocator {v : Nat} (hv : s.queue.last < v) :
    let next := getNextAllocator gpu v s
    next.queue.last < (next.commandAllocators next.currentCommandAllocator).completionEvent := by
  unfold getNextAllocator
  dsimp only
  split
  · dsimp only
    rw [Function.update_self]
    exact hv
  · dsimp only
    rw [Function.update_self]
    exact hv

@[simp] theorem getNextAllocator_list (v : Nat) (s : Context O n) :
    (getNextAllocator gpu v s).currentCommandList = s.currentCommandList := by
  unfold getNextAllocator
  dsimp only
  split <;> rfl

@[simp] theorem getNextAllocator_recorder (v : Nat) (s : Context O n) :
    (getNextAllocator gpu v s).currentRecorder = s.currentRecorder := by
  unfold getNextAllocator
  dsimp only
  split <;> rfl

/-! ## The recorder -/

/-- The recorder is opened when nothing is recorded. -/
theorem inv_openRecorder (h : Kept s) (hnone : s.currentCommandList.getD [] = [])
    (hset : s.currentRecorder = true) : Inv (openRecorder gpu s) := by
  have hnext : s.queue.last < nextCompletionEvent s := Nat.lt_succ_self _
  have hkept : Kept (getNextAllocator gpu _ s) := h.getNextAllocator hnext
  have hwhole := hkept.whole
  rw [getNextAllocator_list, hnone] at hwhole
  exact
    { hkept with
      whole := hwhole
      flagged := fun hne => absurd rfl hne
      opened := by
        show true = (getNextAllocator gpu _ s).currentRecorder
        rw [getNextAllocator_recorder, hset]
      current := fun _ => current_getNextAllocator hnext }

theorem Kept.list_of_unflagged (h : Kept s) (hflag : s.operationsRecorded = false) :
    s.currentCommandList.getD [] = [] := by
  by_contra hne
  rw [h.flagged hne] at hflag
  cases hflag

@[simp] theorem closeAndExecute_recorder (commandList : Option (List Command))
    (s : Context O n) : (closeAndExecute commandList s).currentRecorder = s.currentRecorder := by
  unfold closeAndExecute
  dsimp only
  split <;> split <;> rfl

/-- The recorded list and the caller's are submitted in this order. -/
theorem kept_closeAndExecute (h : Kept s) (commandList : Option (List Command)) :
    Kept (closeAndExecute commandList
      { s with recorded := s.recorded ++ commandList.getD [] }) := by
  have htoList : ∀ l : Option (List Command), l.toList.flatten = l.getD [] := by
    intro l
    cases l <;> simp
  have hlists : ((if s.operationsRecorded then s.currentCommandList.toList else []) ++
      commandList.toList).flatten = s.currentCommandList.getD [] ++ commandList.getD [] := by
    rw [List.flatten_append, htoList]
    congr 1
    split
    · exact htoList _
    · next hflag => exact (h.list_of_unflagged (by simpa using hflag)).symm
  have hall : s.queue.submitted ++ ((if s.operationsRecorded then s.currentCommandList.toList
      else []) ++ commandList.toList).flatten = s.recorded ++ commandList.getD [] := by
    rw [hlists, ← List.append_assoc, h.whole]
  unfold closeAndExecute
  dsimp only
  generalize (if s.operationsRecorded = true then s.currentCommandList.toList else []) ++
    commandList.toList = lists at hall ⊢
  split
  · next hnil =>
    rw [hnil, List.flatten_nil, List.append_nil] at hall
    exact
      { inOrder := h.inOrder
        whole := (List.append_nil _).trans hall
        flagged := fun hne => absurd rfl hne
        references := fun r hr => (h.references r hr).record _
        allocators := fun a => (h.allocators a).record _
        events := fun e he => (h.events e he).record _
        released := h.released
        resets := h.resets }
  · exact
      { inOrder := h.inOrder.submit _
        whole := by
          show (s.queue.submit lists.flatten).submitted ++ [] = _
          rw [FencedQueue.submitted_submit, List.append_nil, hall]
          rfl
        flagged := fun hne => absurd rfl hne
        references := fun r hr => h.promises_execute hall (h.references r hr)
        allocators := fun a => h.promises_execute hall (h.allocators a)
        events := fun e he => h.promises_execute hall (h.events e he)
        released := h.released
        resets := h.resets }

namespace Inv

/-- The list is open when the recorder is set. -/
theorem list_eq_some (h : Inv s) (hset : s.currentRecorder = true) :
    ∃ l, s.currentCommandList = some l :=
  Option.isSome_iff_exists.1 (h.opened.trans hset)

theorem record (h : Inv s) (hset : s.currentRecorder = true) (commands : List Command) :
    Inv (record commands s) := by
  obtain ⟨l, hl⟩ := h.list_eq_some hset
  have hcurrent := h.current (by rw [hl]; rfl)
  have hwhole := h.whole
  rw [hl, Option.getD_some] at hwhole
  exact
    { inOrder := h.inOrder
      whole := by
        show s.queue.submitted ++ (s.currentCommandList.map (· ++ commands)).getD [] =
          s.recorded ++ commands
        rw [hl, Option.map_some, Option.getD_some, ← List.append_assoc, hwhole]
      flagged := fun _ => rfl
      references := fun r hr => (h.references r hr).record commands
      allocators := fun a => by
        unfold Context.Promises ExecutionContext.record
        dsimp only
        by_cases ha : a = s.currentCommandAllocator
        · rw [ha, Function.update_self]
          exact Or.inr ⟨hcurrent, List.prefix_rfl⟩
        · rw [Function.update_of_ne ha]
          exact (h.allocators a).record commands
      events := fun e he => (h.events e he).record commands
      released := h.released
      resets := h.resets
      opened := by
        show (s.currentCommandList.map (· ++ commands)).isSome = _
        rw [Option.isSome_map, h.opened]
        rfl
      current := fun _ => by
        unfold ExecutionContext.record
        dsimp only
        rw [Function.update_self]
        exact hcurrent }

theorem giveEvent (h : Inv s) {v : Nat} (hv : s.Promises v s.recorded) :
    Inv (giveEvent v s) :=
  { h with
    events := fun e he => by
      rcases List.mem_append.1 he with hold | hnew
      · exact h.events e hold
      · obtain rfl := List.mem_singleton.1 hnew
        exact hv }

theorem setCommandRecorder (h : Inv s) :
    Inv (setCommandRecorder gpu s) ∧ (setCommandRecorder gpu s).currentRecorder = true := by
  unfold ExecutionContext.setCommandRecorder
  split
  · next hset => exact ⟨h, hset⟩
  · next hset =>
    have hnone : s.currentCommandList = none := by
      rw [← Option.not_isSome_iff_eq_none, h.opened]
      exact hset
    refine ⟨inv_openRecorder (s := { s with currentRecorder := true }) { h with } ?_ rfl, ?_⟩
    · show s.currentCommandList.getD [] = []
      rw [hnone, Option.getD_none]
    · show (getNextAllocator gpu _ _).currentRecorder = true
      rw [getNextAllocator_recorder]

theorem flush (h : Inv s) : Inv (flush gpu s) := by
  unfold ExecutionContext.flush
  split
  · exact h
  · have hclosed := kept_closeAndExecute h.toKept none
    rw [Option.getD_none, List.append_nil] at hclosed
    have hreleased : Kept (ExecutionContext.releaseCompletedReferences gpu _) :=
      hclosed.releaseCompletedReferences
    refine (setCommandRecorder ?_).1
    exact
      { hreleased with
        opened := rfl
        current := fun hsome => absurd hsome Bool.false_ne_true }

/-- An object waits for the value of what is recorded. -/
theorem queueReference (h : Inv s) (object : O) : Inv (queueReference object s) := by
  refine { h with references := fun r hr => ?_ }
  rcases List.mem_append.1 hr with hold | hnew
  · exact h.references r hold
  · obtain rfl := List.mem_singleton.1 hnew
    dsimp only
    split
    · exact promises_next s
    · next hset =>
      refine h.promises_last ?_
      have hopened := h.opened
      cases hlist : s.currentCommandList with
      | none => rfl
      | some l =>
        rw [hlist] at hopened
        exact absurd hopened.symm hset

theorem getCurrentCompletionEvent (h : Inv s) : Inv (getCurrentCompletionEvent s) := by
  refine h.giveEvent ?_
  split
  · exact promises_next s
  · next hwork =>
    refine h.promises_last ?_
    by_contra hne
    have hflag := h.flagged hne
    have hset : s.currentRecorder = true := by
      rw [← h.opened]
      cases hlist : s.currentCommandList with
      | none => exact absurd (congrArg (Option.getD · []) hlist) hne
      | some l => rfl
    rw [hset, hflag] at hwork
    exact hwork rfl

/-- A list of the caller is submitted behind what is recorded. -/
theorem executeCommandList (h : Inv s) (hset : s.currentRecorder = true)
    (commandList : List Command) : Inv (recorderExecuteCommandList gpu commandList s) := by
  unfold recorderExecuteCommandList
  dsimp only
  split
  · next hflag =>
    have hnone := h.list_of_unflagged (by simpa using hflag)
    have hwhole := h.whole
    rw [hnone, List.append_nil] at hwhole
    have hall : s.queue.submitted ++ [commandList].flatten = s.recorded ++ commandList := by
      rw [hwhole, List.flatten_singleton]
    have hexecuted : Kept (executeCommandLists [commandList] (ExecutionContext.giveEvent
        (nextCompletionEvent s) { s with recorded := s.recorded ++ commandList })) :=
      { inOrder := h.inOrder.submit _
        whole := by
          show (s.queue.submit [commandList].flatten).submitted ++
            s.currentCommandList.getD [] = _
          rw [FencedQueue.submitted_submit, hnone, List.append_nil, hall]
          rfl
        flagged := h.flagged
        references := fun r hr => h.promises_execute hall (h.references r hr)
        allocators := fun a => h.promises_execute hall (h.allocators a)
        events := fun e he => by
          rcases List.mem_append.1 he with hold | hnew
          · exact h.promises_execute hall (h.events e hold)
          · obtain rfl := List.mem_singleton.1 hnew
            have hnext : s.queue.Promises (s.recorded ++ commandList) (s.queue.last + 1)
                (s.recorded ++ commandList) := Or.inr ⟨Nat.lt_succ_self _, List.prefix_rfl⟩
            exact hnext.submit h.inOrder hall
        released := h.released
        resets := h.resets }
    -- the value that the allocator waited for is now taken by the caller's list
    exact
      { hexecuted with
        allocators := fun a => hexecuted.promises_update (Nat.lt_succ_self _) _ a
        opened := h.opened
        current := fun _ => by
          unfold updateCurrentAllocatorCompletionEvent
          dsimp only
          rw [Function.update_self]
          exact Nat.lt_succ_self _ }
  · have hclosed := kept_closeAndExecute h.toKept (some commandList)
    have hopened : Inv (openRecorder gpu _) := inv_openRecorder hclosed rfl
      ((closeAndExecute_recorder _ _).trans hset)
    exact hopened.giveEvent (hopened.promises_last rfl)

theorem freeTemporary (h : Inv s) (temporary : Temporary O) : Inv (freeTemporary temporary s) := by
  cases temporary with
  | none => exact h
  | pooled => exact h
  | freed resource => exact h.queueReference resource

/-- Commands are recorded behind the setting of the recorder. -/
theorem recordSet (h : Inv s) (commands : List Command) :
    Inv (ExecutionContext.record commands (ExecutionContext.setCommandRecorder gpu s)) :=
  h.setCommandRecorder.1.record h.setCommandRecorder.2 commands

/-- The same, with a temporary buffer that is freed before. -/
theorem recordFreed (h : Inv s) (temporary : Temporary O) (commands : List Command) :
    Inv (ExecutionContext.record commands
      (ExecutionContext.freeTemporary temporary (ExecutionContext.setCommandRecorder gpu s))) := by
  obtain ⟨hinv, hset⟩ : Inv (ExecutionContext.setCommandRecorder gpu s) ∧ _ :=
    h.setCommandRecorder
  refine (hinv.freeTemporary temporary).record ?_ commands
  cases temporary <;> exact hset

/-- Every operation keeps the invariant. -/
theorem apply (h : Inv s) (op : Operation O) : Inv (op.apply gpu s) := by
  cases op with
  | initializeOperator op persistentResource temporary => exact h.recordFreed temporary _
  | executeOperator op temporary => exact h.recordFreed temporary _
  | copyBufferRegion dst dstOffset dstState src srcOffset srcState byteCount =>
    exact h.recordSet _
  | fillBufferWithPattern dst value => exact h.recordSet _
  | addUAVBarrier => exact h.recordSet _
  | resourceBarrier barriers => exact h.recordSet _
  | getCommandListForRecording commands => exact h.recordSet _
  | executeCommandList commandList =>
    obtain ⟨hinv, hset⟩ : Inv (ExecutionContext.setCommandRecorder gpu s) ∧ _ :=
      h.setCommandRecorder
    exact hinv.executeCommandList hset commandList
  | flush => exact h.flush
  | queueReference object => exact h.queueReference object
  | getCurrentCompletionEvent => exact h.getCurrentCompletionEvent
  | releaseCompletedReferences =>
    exact { h.releaseCompletedReferences with opened := h.opened, current := h.current }

end Inv

theorem inv_run (h : Inv s) (ops : List (Operation O)) : Inv (run gpu ops s) := by
  induction ops generalizing s with
  | nil => exact h
  | cons op ops ih => exact ih (h.apply op)

end

/-! ## Every run -/

/-- Nothing is taken away from the GPU while it is needed: what was recorded before an object was
queued is completed when it is released, what was recorded with an allocator is completed when it is
reset, commands are submitted and completed in the order of recording, and an event that was given
is signaled, now or later, only when what was recorded before is completed. -/
structure Safe (s : Context O n) : Prop where
  released : ∀ r ∈ s.released, r.reference.before <+: r.completed
  resets : ∀ r ∈ s.resets, r.allocator.recordedWith <+: r.completed
  submitted : s.queue.submitted <+: s.recorded
  completed : s.queue.completed <+: s.queue.submitted
  signaled : ∀ e ∈ s.events, ∀ k, e.fenceValue ≤ (s.queue.advance k).fenceValue →
    e.recorded <+: (s.queue.advance k).completed

/-- Every run of a new context is safe, however the GPU makes progress. -/
theorem run_safe (gpu : Nat → Nat) (ops : List (Operation O)) :
    Safe (run gpu ops (Context.new : Context O n)) := by
  have h : Inv (run gpu ops (Context.new : Context O n)) := inv_run inv_new ops
  exact
    { released := h.released
      resets := h.resets
      submitted := h.submitted_prefix
      completed := FencedQueue.completed_prefix_submitted _
      signaled := fun e he k hk =>
        ((h.events e he).advance k).completed (h.inOrder.advance k) hk }

end AmdGpuEp.DirectML.ExecutionContext
