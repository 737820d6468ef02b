import AmdGpuEp.DirectML.ExecutionContext

/-!
# Descriptors of recorded commands

`DescriptorPool.cc` gives the command recorder ranges of descriptors, which are free for another
range once an event is signaled. The recorder sets the heap of a range on its command list before
it records a command that uses the range, and skips that when the heap is set already.

The ranges that were given out, with what was recorded with them, and the commands that were
recorded with a heap are noted beside the state; the code does not keep them.

Results:
1. `inv_apply`: what every operation keeps.
2. `descriptors_safe`: in every run, a range is given out again only when the commands that were
   recorded with it are completed, and every command is recorded with its own heap set.
-/

namespace AmdGpuEp.DirectML.Descriptors

open ExecutionContext (Context Command Temporary)

/-! ## The pool -/

/-- `D3D12_DESCRIPTOR_HEAP_FLAGS` -/
inductive HeapFlags
  | none
  | shaderVisible
  deriving DecidableEq, Repr

/-- `DescriptorHeap`. Both head handles are `head` descriptors behind the start of the heap. -/
structure DescriptorHeap where
  capacity : ℕ
  size : ℕ := 0
  head : ℕ := 0
  heapFlags : HeapFlags
  completionEvent : Option ℕ := none
  deriving DecidableEq, Repr

/-- `DescriptorRange`: the heap by its place in the pool, and the first descriptor. -/
structure DescriptorRange where
  heap : ℕ
  first : ℕ
  deriving DecidableEq, Repr

/-- A range that was given out. `recorded` is what is recorded once the commands that use it are. -/
structure Use where
  range : DescriptorRange
  count : ℕ
  fenceValue : ℕ
  recorded : List Command

/-- A range when it is given out: the ranges before it, and what is completed. -/
structure Grant where
  range : DescriptorRange
  count : ℕ
  heapFlags : HeapFlags
  heap : DescriptorHeap
  earlier : List Use
  completed : List Command

/-- A command that uses a heap, and the heap that is set on its list. -/
structure Dispatch where
  heap : ℕ
  bound : Option ℕ

/-- The recorder with its pool. `boundHeap` is the heap that is set on the open command list. The
fields from `uses` on are what has happened. -/
structure Recorder (O : Type) (n : ℕ) where
  context : Context O n
  heaps : List DescriptorHeap
  currentDescriptorHeap : Option ℕ := none
  boundHeap : Option ℕ := none
  uses : List Use := []
  grants : List Grant := []
  dispatches : List Dispatch := []

variable {O : Type} {n : ℕ}

/-- `m_initialHeapCapacity` of the pool of the recorder. -/
def initialHeapCapacity : ℕ := 2048

/-- A new recorder. -/
def Recorder.new : Recorder O n where
  context := .new
  heaps := [{ capacity := initialHeapCapacity, heapFlags := .shaderVisible }]

section

variable (gpu : ℕ → ℕ)

/-- The first part of `TryAllocDescriptors`: the whole heap is free when its event is signaled. -/
def reclaim (heap : DescriptorHeap) (c : Context O n) : DescriptorHeap × Context O n :=
  match heap.completionEvent with
  | none => (heap, c)
  | some event =>
    let c := ExecutionContext.readFence gpu c
    (if event ≤ c.queue.fenceValue then { heap with size := 0, head := 0 } else heap, c)

/-- A range is taken from heap `i`, for an operation that will have recorded `recorded`. -/
def take (i numDescriptors completionEvent : ℕ) (heap : DescriptorHeap) (recorded : List Command)
    (s : Recorder O n) : Recorder O n :=
  let range : DescriptorRange := ⟨i, heap.head⟩
  let heap' : DescriptorHeap :=
    { heap with
      size := heap.size + numDescriptors
      completionEvent := some completionEvent
      head := heap.head + numDescriptors }
  { s with
    heaps := s.heaps.set i heap'
    grants := s.grants ++ [⟨range, numDescriptors, heap.heapFlags, heap', s.uses,
      s.context.queue.completed⟩]
    uses := s.uses ++ [⟨range, numDescriptors, completionEvent, recorded⟩] }

/-- `TryAllocDescriptors` of heap `i`. -/
def tryAllocDescriptors (i numDescriptors completionEvent : ℕ) (heapFlags : HeapFlags)
    (recorded : List Command) (s : Recorder O n) : Recorder O n × Option DescriptorRange :=
  match s.heaps[i]? with
  | none => (s, none)
  | some heap =>
    if heap.heapFlags ≠ heapFlags then (s, none)
    else
      let (heap, c) := reclaim gpu heap s.context
      let s := { s with context := c, heaps := s.heaps.set i heap }
      if heap.capacity - heap.size < numDescriptors then (s, none)
      else
        (take i numDescriptors completionEvent heap recorded s, some ⟨i, heap.head⟩)

/-- The loop of `AllocDescriptors` over the last `remaining` heaps. -/
def allocFrom (numDescriptors completionEvent : ℕ) (heapFlags : HeapFlags)
    (recorded : List Command) : ℕ → Recorder O n → Recorder O n × Option DescriptorRange
  | 0, s => (s, none)
  | remaining + 1, s =>
    match tryAllocDescriptors gpu (s.heaps.length - (remaining + 1)) numDescriptors completionEvent
        heapFlags recorded s with
    | (s, some range) => (s, some range)
    | (s, none) => allocFrom numDescriptors completionEvent heapFlags recorded remaining s

/-- `CreateHeap` -/
def createHeap (numDescriptors : ℕ) (heapFlags : HeapFlags) (s : Recorder O n) : Recorder O n :=
  { s with heaps := s.heaps ++ [{ capacity := numDescriptors, heapFlags }] }

/-- `AllocDescriptors`. A new heap has room. -/
def allocDescriptors (numDescriptors completionEvent : ℕ) (heapFlags : HeapFlags)
    (recorded : List Command) (s : Recorder O n) : Recorder O n × Option DescriptorRange :=
  match allocFrom gpu numDescriptors completionEvent heapFlags recorded s.heaps.length s with
  | (s, some range) => (s, some range)
  | (s, none) =>
    let s := createHeap (max numDescriptors initialHeapCapacity) heapFlags s
    tryAllocDescriptors gpu (s.heaps.length - 1) numDescriptors completionEvent heapFlags recorded s

/-! ## The recorder -/

/-- `SetDescriptorHeap` -/
def setDescriptorHeap (heap : Option ℕ) (s : Recorder O n) : Recorder O n :=
  if heap ≠ none ∧ heap ≠ s.currentDescriptorHeap then
    { s with currentDescriptorHeap := heap, boundHeap := heap }
  else s

/-- `SetCommandRecorder`. No heap is set on a list that is opened. -/
def setCommandRecorder (s : Recorder O n) : Recorder O n :=
  if s.context.currentRecorder then s
  else
    { s with context := ExecutionContext.setCommandRecorder gpu s.context, boundHeap := none }

/-- Commands are recorded, the first of which uses a heap. -/
def recordWith (heap : ℕ) (commands : List Command) (s : Recorder O n) : Recorder O n :=
  { s with
    context := ExecutionContext.record commands s.context
    dispatches := s.dispatches ++ [⟨heap, s.boundHeap⟩] }

/-- The commands of an operation with descriptors: they are allocated, the temporary buffer is bound
and freed, and the commands are recorded. -/
def recordOperator (numDescriptors : ℕ) (temporary : Temporary O) (commands : List Command)
    (s : Recorder O n) : Recorder O n :=
  let s := setCommandRecorder gpu s
  match allocDescriptors gpu numDescriptors (ExecutionContext.nextCompletionEvent s.context)
      .shaderVisible (s.context.recorded ++ commands) s with
  | (s, none) => s
  | (s, some range) =>
    let s := { s with context := ExecutionContext.freeTemporary temporary s.context }
    recordWith range.heap commands (setDescriptorHeap (some range.heap) s)

/-- `InitializeOperator` -/
def initializeOperator (op numDescriptors : ℕ) (persistentResource : Bool)
    (temporary : Temporary O) (s : Recorder O n) : Recorder O n :=
  let barrier := if persistentResource ∨ temporary matches .pooled | .freed _ then
    [Command.uavBarrier] else []
  recordOperator gpu numDescriptors temporary (.initializeOperator op :: barrier) s

/-- `ExecuteOperator` -/
def executeOperator (op numDescriptors : ℕ) (temporary : Temporary O) (s : Recorder O n) :
    Recorder O n :=
  recordOperator gpu numDescriptors temporary [.execute op, .uavBarrier] s

/-- `FillBufferWithPattern`: one descriptor for the CPU and one that the shader sees. -/
def fillBufferWithPattern (dst : ℕ) (value : List UInt8) (s : Recorder O n) : Recorder O n :=
  let commands := [Command.clear dst (ExecutionContext.fillPattern value), .uavBarrier]
  let s := setCommandRecorder gpu s
  let recorded := s.context.recorded ++ commands
  match allocDescriptors gpu 1 (ExecutionContext.nextCompletionEvent s.context) .none recorded s with
  | (s, none) => s
  | (s, some _) =>
    match allocDescriptors gpu 1 (ExecutionContext.nextCompletionEvent s.context) .shaderVisible
        recorded s with
    | (s, none) => s
    | (s, some range) =>
      recordWith range.heap commands (setDescriptorHeap (some range.heap) s)

/-- `GetCommandListForRecordingAndInvalidateState`. The caller may set a heap of its own before it
records. -/
def getCommandListForRecording (commands : List Command) (heap : Option ℕ) (s : Recorder O n) :
    Recorder O n :=
  let s := setCommandRecorder gpu s
  { s with
    context := ExecutionContext.record commands s.context
    currentDescriptorHeap := none
    boundHeap := heap <|> s.boundHeap }

/-- `ExecuteCommandList`: when something is recorded, the list is closed and opened, and the heap
is set again. -/
def executeCommandList (commandList : List Command) (s : Recorder O n) : Recorder O n :=
  let s := setCommandRecorder gpu s
  let context := ExecutionContext.recorderExecuteCommandList gpu commandList s.context
  if s.context.operationsRecorded then
    setDescriptorHeap s.currentDescriptorHeap
      { s with context, currentDescriptorHeap := none, boundHeap := none }
  else { s with context }

/-- `Flush` -/
def flush (s : Recorder O n) : Recorder O n :=
  if !s.context.currentRecorder || !s.context.operationsRecorded then s
  else
    { s with
      context := ExecutionContext.flush gpu s.context
      currentDescriptorHeap := none
      boundHeap := none }

/-- An operation of a caller. `plain` are those that use no descriptors and no list of their own. -/
inductive Operation (O : Type)
  | initializeOperator (op numDescriptors : ℕ) (persistentResource : Bool)
      (temporary : Temporary O)
  | executeOperator (op numDescriptors : ℕ) (temporary : Temporary O)
  | fillBufferWithPattern (dst : ℕ) (value : List UInt8)
  | getCommandListForRecording (commands : List Command) (heap : Option ℕ)
  | executeCommandList (commandList : List Command)
  | flush
  | copyBufferRegion (dst dstOffset dstState src srcOffset srcState byteCount : ℕ)
  | addUAVBarrier
  | resourceBarrier (barriers : List ExecutionContext.Transition)
  | queueReference (object : O)
  | getCurrentCompletionEvent
  | releaseCompletedReferences

/-- An operation that records without descriptors. -/
def onList (op : ExecutionContext.Operation O) (s : Recorder O n) : Recorder O n :=
  let s := setCommandRecorder gpu s
  { s with context := op.apply gpu s.context }

/-- An operation that does not touch the command list. -/
def offList (op : ExecutionContext.Operation O) (s : Recorder O n) : Recorder O n :=
  { s with context := op.apply gpu s.context }

def Operation.apply : Operation O → Recorder O n → Recorder O n
  | initializeOperator op numDescriptors persistentResource temporary =>
    Descriptors.initializeOperator gpu op numDescriptors persistentResource temporary
  | executeOperator op numDescriptors temporary =>
    Descriptors.executeOperator gpu op numDescriptors temporary
  | fillBufferWithPattern dst value => Descriptors.fillBufferWithPattern gpu dst value
  | getCommandListForRecording commands heap =>
    Descriptors.getCommandListForRecording gpu commands heap
  | executeCommandList commandList => Descriptors.executeCommandList gpu commandList
  | flush => Descriptors.flush gpu
  | copyBufferRegion dst dstOffset dstState src srcOffset srcState byteCount =>
    onList gpu (.copyBufferRegion dst dstOffset dstState src srcOffset srcState byteCount)
  | addUAVBarrier => onList gpu .addUAVBarrier
  | resourceBarrier barriers => onList gpu (.resourceBarrier barriers)
  | queueReference object => offList gpu (.queueReference object)
  | getCurrentCompletionEvent => offList gpu .getCurrentCompletionEvent
  | releaseCompletedReferences => offList gpu .releaseCompletedReferences

def run (ops : List (Operation O)) (s : Recorder O n) : Recorder O n :=
  ops.foldl (fun s op => op.apply gpu s) s

end

/-! ## What is kept -/

/-- The commands that use a range are completed, or the range is below the end of its heap and the
event of the heap is not before its own. -/
def Kept (heaps : List DescriptorHeap) (completed : List Command) (u : Use) : Prop :=
  ∃ heap, heaps[u.range.heap]? = some heap ∧
    (u.recorded <+: completed ∨ u.range.first + u.count ≤ heap.size ∧
      ∃ event, heap.completionEvent = some event ∧ u.fenceValue ≤ event)

/-- Two ranges share a descriptor. -/
def Overlaps (r : DescriptorRange) (count : ℕ) (r' : DescriptorRange) (count' : ℕ) : Prop :=
  r.heap = r'.heap ∧ ∃ d, (r.first ≤ d ∧ d < r.first + count) ∧ r'.first ≤ d ∧ d < r'.first + count'

/-- A range that is given out lies in its heap, and what used it before is completed. -/
structure Grant.Safe (g : Grant) : Prop where
  inside : g.range.first + g.count ≤ g.heap.capacity
  flags : g.heap.heapFlags = g.heapFlags
  exclusive : ∀ u ∈ g.earlier, Overlaps g.range g.count u.range u.count → u.recorded <+: g.completed

/-- What holds of a heap while values up to `last` are submitted. -/
structure DescriptorHeap.Good (heap : DescriptorHeap) (last : ℕ) : Prop where
  head : heap.head = heap.size
  size : heap.size ≤ heap.capacity
  event : ∀ event, heap.completionEvent = some event → event ≤ last + 1

/-- What holds of the recorder, with the commands `more` still to be recorded. -/
structure Inv (more : List Command) (s : Recorder O n) : Prop where
  context : ExecutionContext.Inv s.context
  uses : ∀ u ∈ s.uses,
    s.context.queue.Promises (s.context.recorded ++ more) u.fenceValue u.recorded
  heaps : ∀ heap ∈ s.heaps, heap.Good s.context.queue.last
  kept : ∀ u ∈ s.uses, Kept s.heaps s.context.queue.completed u
  grants : ∀ g ∈ s.grants, g.Safe
  closed : s.context.currentRecorder = false → s.currentDescriptorHeap = none
  bound : s.currentDescriptorHeap ≠ none → s.boundHeap = s.currentDescriptorHeap
  dispatches : ∀ d ∈ s.dispatches, d.bound = some d.heap

theorem inv_new : Inv [] (Recorder.new : Recorder O n) where
  context := ExecutionContext.inv_new
  uses _ h := absurd h List.not_mem_nil
  heaps heap h := by
    obtain rfl := List.mem_singleton.1 h
    exact ⟨rfl, Nat.zero_le _, fun _ h => nomatch h⟩
  kept _ h := absurd h List.not_mem_nil
  grants _ h := absurd h List.not_mem_nil
  closed _ := rfl
  bound h := absurd rfl h
  dispatches _ h := absurd h List.not_mem_nil

theorem Kept.later {heaps : List DescriptorHeap} {completed completed' : List Command} {u : Use}
    (h : Kept heaps completed u) (hc : completed <+: completed') : Kept heaps completed' u := by
  obtain ⟨heap, hheap, hdone | hlive⟩ := h
  · exact ⟨heap, hheap, .inl (hdone.trans hc)⟩
  · exact ⟨heap, hheap, .inr hlive⟩

section

variable {gpu : ℕ → ℕ} {s : Recorder O n} {more more' : List Command}

/-- The context moves on. -/
theorem Inv.later (h : Inv more s) {c : Context O n} (hc : ExecutionContext.Inv c)
    (hlater : FencedQueue.Later s.context.queue (s.context.recorded ++ more) c.queue
      (c.recorded ++ more'))
    (hrecorder : c.currentRecorder = false → s.context.currentRecorder = false) :
    Inv more' { s with context := c } :=
  { h with
    context := hc
    uses := fun u hu => hlater.promises (h.uses u hu)
    heaps := fun heap hheap =>
      { h.heaps heap hheap with
        event := fun event he =>
          ((h.heaps heap hheap).event event he).trans (Nat.succ_le_succ hlater.last) }
    kept := fun u hu => (h.kept u hu).later hlater.completed
    closed := fun hclosed => h.closed (hrecorder hclosed) }

/-- The heap that is set is forgotten, and another list is open. -/
theorem Inv.forget (h : Inv more s) (bound : Option ℕ) :
    Inv more { s with currentDescriptorHeap := none, boundHeap := bound } :=
  { h with closed := fun _ => rfl, bound := fun hne => absurd rfl hne }

/-! ## The pool -/

theorem context_readFence {c : Context O n} (h : ExecutionContext.Inv c) :
    ExecutionContext.Inv (ExecutionContext.readFence gpu c) :=
  { h.toKept.readFence with opened := h.opened, current := h.current }

theorem later_readFence (c : Context O n) (more : List Command) :
    FencedQueue.Later c.queue (c.recorded ++ more) (ExecutionContext.readFence gpu c).queue
      ((ExecutionContext.readFence gpu c).recorded ++ more) :=
  .advance _ _ _

theorem Inv.readFence (h : Inv more s) :
    Inv more { s with context := ExecutionContext.readFence gpu s.context } :=
  h.later (context_readFence h.context) (later_readFence _ _) id

/-- A heap is replaced by one that is as good. -/
theorem Inv.setHeap (h : Inv more s) {i : ℕ} {heap heap' : DescriptorHeap}
    (hheap : s.heaps[i]? = some heap) (hgood : heap'.Good s.context.queue.last)
    (hkept : ∀ u ∈ s.uses, u.range.heap = i → u.recorded <+: s.context.queue.completed ∨
      u.range.first + u.count ≤ heap'.size ∧
        ∃ event, heap'.completionEvent = some event ∧ u.fenceValue ≤ event) :
    Inv more { s with heaps := s.heaps.set i heap' } := by
  obtain ⟨hi, -⟩ := List.getElem?_eq_some_iff.1 hheap
  refine { h with heaps := fun heap hmem => ?_, kept := fun u hu => ?_ }
  · rcases List.mem_or_eq_of_mem_set hmem with hold | rfl
    · exact h.heaps heap hold
    · exact hgood
  · rcases eq_or_ne u.range.heap i with he | hne
    · exact ⟨heap', by rw [he, List.getElem?_set_self hi], hkept u hu he⟩
    · obtain ⟨old, hold, hu⟩ := h.kept u hu
      exact ⟨old, by rw [List.getElem?_set_ne hne.symm, hold], hu⟩

/-- A use of heap `i`. -/
theorem Inv.use (h : Inv more s) {i : ℕ} {heap : DescriptorHeap} (hheap : s.heaps[i]? = some heap)
    {u : Use} (hu : u ∈ s.uses) (hi : u.range.heap = i) :
    u.recorded <+: s.context.queue.completed ∨ u.range.first + u.count ≤ heap.size ∧
      ∃ event, heap.completionEvent = some event ∧ u.fenceValue ≤ event := by
  obtain ⟨heap', hheap', hcases⟩ := h.kept u hu
  rw [hi, hheap] at hheap'
  exact Option.some.inj hheap' ▸ hcases

/-- A heap whose event is signaled has no range that is in use. -/
theorem Inv.reclaim (gpu : ℕ → ℕ) (h : Inv more s) {i : ℕ} {heap : DescriptorHeap}
    (hheap : s.heaps[i]? = some heap) :
    Inv more { s with
      context := (reclaim gpu heap s.context).2
      heaps := s.heaps.set i (reclaim gpu heap s.context).1 } := by
  have hmem : heap ∈ s.heaps := List.mem_of_getElem? hheap
  unfold Descriptors.reclaim
  split
  next =>
    exact h.setHeap hheap (h.heaps heap hmem) fun u hu hi => h.use hheap hu hi
  next event hevent =>
    have hread : Inv more { s with context := ExecutionContext.readFence gpu s.context } :=
      h.readFence
    have hgood := hread.heaps heap hmem
    dsimp only
    split
    next hsignaled =>
      refine hread.setHeap hheap ⟨rfl, Nat.zero_le _, hgood.event⟩ fun u hu hi => .inl ?_
      rcases hread.use hheap hu hi with hdone | ⟨-, event', hevent', hle⟩
      · exact hdone
      · rw [hevent] at hevent'
        obtain rfl := Option.some.inj hevent'
        exact (hread.uses u hu).completed hread.context.inOrder (hle.trans hsignaled)
    next =>
      exact hread.setHeap hheap hgood fun u hu hi => hread.use hheap hu hi

/-- A range at the end of a heap was never in use, or what used it is completed. -/
theorem Inv.take (h : Inv more s) {i count : ℕ} {heap : DescriptorHeap}
    (hheap : s.heaps[i]? = some heap) (hroom : count ≤ heap.capacity - heap.size) :
    Inv more (take i count (s.context.queue.last + 1) heap (s.context.recorded ++ more) s) := by
  have hgood := h.heaps heap (List.mem_of_getElem? hheap)
  obtain ⟨hi, -⟩ := List.getElem?_eq_some_iff.1 hheap
  set heap' : DescriptorHeap :=
    { heap with
      size := heap.size + count
      completionEvent := some (s.context.queue.last + 1)
      head := heap.head + count } with hheap'
  have hsize := hgood.size
  have hnew : heap'.Good s.context.queue.last := by
    refine ⟨?_, ?_, fun event he => ?_⟩
    · show heap.head + count = heap.size + count
      rw [hgood.head]
    · show heap.size + count ≤ heap.capacity
      omega
    · exact (Option.some.inj he).symm.le
  have hset : Inv more { s with heaps := s.heaps.set i heap' } := by
    refine h.setHeap hheap hnew fun u hu he => ?_
    rcases h.use hheap hu he with hdone | ⟨hend, event, hevent, hle⟩
    · exact .inl hdone
    · exact .inr ⟨hend.trans (Nat.le_add_right _ _), _, rfl,
        hle.trans (hgood.event event hevent)⟩
  refine
    { hset with
      uses := fun u hu => ?_
      kept := fun u hu => ?_
      grants := fun g hg => ?_ }
  · rcases List.mem_append.1 hu with hold | hlast
    · exact h.uses u hold
    · obtain rfl := List.mem_singleton.1 hlast
      exact .inr ⟨Nat.lt_succ_self _, List.prefix_rfl⟩
  · rcases List.mem_append.1 hu with hold | hlast
    · exact hset.kept u hold
    · obtain rfl := List.mem_singleton.1 hlast
      refine ⟨heap', List.getElem?_set_self hi, .inr ⟨?_, _, rfl, le_rfl⟩⟩
      show heap.head + count ≤ heap.size + count
      rw [hgood.head]
  · rcases List.mem_append.1 hg with hold | hlast
    · exact h.grants g hold
    · obtain rfl := List.mem_singleton.1 hlast
      refine ⟨?_, rfl, fun u hu hoverlap => ?_⟩
      · show heap.head + count ≤ heap.capacity
        rw [hgood.head]
        omega
      · obtain ⟨he, d, ⟨hfirst, -⟩, -, hlt⟩ := hoverlap
        rcases h.use hheap hu he.symm with hdone | ⟨hend, -⟩
        · exact hdone
        · have hhead := hgood.head
          change heap.head ≤ d at hfirst
          omega

/-- An allocation leaves the command list as it is. -/
structure SameList (s s' : Recorder O n) : Prop where
  recorded : s'.context.recorded = s.context.recorded
  last : s'.context.queue.last = s.context.queue.last
  recorder : s'.context.currentRecorder = s.context.currentRecorder
  dispatches : s'.dispatches = s.dispatches

theorem SameList.trans {s s' s'' : Recorder O n} (h : SameList s s') (h' : SameList s' s'') :
    SameList s s'' :=
  ⟨h'.recorded.trans h.recorded, h'.last.trans h.last, h'.recorder.trans h.recorder,
    h'.dispatches.trans h.dispatches⟩

theorem sameList_reclaim (gpu : ℕ → ℕ) (s : Recorder O n) (heap : DescriptorHeap)
    (heaps : List DescriptorHeap) :
    SameList s { s with context := (Descriptors.reclaim gpu heap s.context).2, heaps } := by
  unfold Descriptors.reclaim
  split <;> exact ⟨rfl, rfl, rfl, rfl⟩

@[simp] theorem reclaim_flags (heap : DescriptorHeap) (c : Context O n) :
    (Descriptors.reclaim gpu heap c).1.heapFlags = heap.heapFlags := by
  unfold Descriptors.reclaim
  split
  · rfl
  · dsimp only
    split <;> rfl

/-- One heap is tried. -/
theorem Inv.tryAlloc (gpu : ℕ → ℕ) (h : Inv more s) (i count : ℕ) (heapFlags : HeapFlags)
    {event : ℕ} {recorded : List Command} (hevent : event = s.context.queue.last + 1)
    (hrecorded : recorded = s.context.recorded ++ more) :
    Inv more (tryAllocDescriptors gpu i count event heapFlags recorded s).1 ∧
      SameList s (tryAllocDescriptors gpu i count event heapFlags recorded s).1 := by
  unfold tryAllocDescriptors
  split
  next => exact ⟨h, ⟨rfl, rfl, rfl, rfl⟩⟩
  next heap hheap =>
    split
    next => exact ⟨h, ⟨rfl, rfl, rfl, rfl⟩⟩
    next hflags =>
      have hreclaimed := h.reclaim gpu hheap
      have hsame := sameList_reclaim gpu s heap
        (s.heaps.set i (Descriptors.reclaim gpu heap s.context).1)
      dsimp only
      split
      next => exact ⟨hreclaimed, hsame⟩
      next hroom =>
        obtain ⟨hi, -⟩ := List.getElem?_eq_some_iff.1 hheap
        have hlast := hsame.last
        have hold := hsame.recorded
        dsimp only at hlast hold
        rw [hevent, hrecorded, ← hlast, ← hold]
        refine ⟨hreclaimed.take (List.getElem?_set_self hi) (Nat.le_of_not_lt hroom), ?_⟩
        exact hsame.trans ⟨rfl, rfl, rfl, rfl⟩

theorem Inv.allocFrom (gpu : ℕ → ℕ) (h : Inv more s) (count : ℕ) (heapFlags : HeapFlags)
    (remaining : ℕ) {event : ℕ} {recorded : List Command} (hevent : event = s.context.queue.last + 1)
    (hrecorded : recorded = s.context.recorded ++ more) :
    Inv more (allocFrom gpu count event heapFlags recorded remaining s).1 ∧
      SameList s (allocFrom gpu count event heapFlags recorded remaining s).1 := by
  induction remaining generalizing s with
  | zero => exact ⟨h, ⟨rfl, rfl, rfl, rfl⟩⟩
  | succ remaining ih =>
    obtain ⟨htry, hsame⟩ := h.tryAlloc gpu (s.heaps.length - (remaining + 1)) count
      heapFlags hevent hrecorded
    rw [Descriptors.allocFrom]
    split
    next s' range heq =>
      rw [heq] at htry hsame
      exact ⟨htry, hsame⟩
    next s' heq =>
      rw [heq] at htry hsame
      obtain ⟨hrest, hsame'⟩ := ih htry (by rw [hevent, hsame.last])
        (by rw [hrecorded, hsame.recorded])
      exact ⟨hrest, hsame.trans hsame'⟩

theorem Inv.createHeap (h : Inv more s) (count : ℕ) (heapFlags : HeapFlags) :
    Inv more (Descriptors.createHeap count heapFlags s) := by
  refine { h with heaps := fun heap hmem => ?_, kept := fun u hu => ?_ }
  · rcases List.mem_append.1 hmem with hold | hnew
    · exact h.heaps heap hold
    · obtain rfl := List.mem_singleton.1 hnew
      exact ⟨rfl, Nat.zero_le _, fun _ he => nomatch he⟩
  · obtain ⟨heap, hheap, hu⟩ := h.kept u hu
    obtain ⟨hi, -⟩ := List.getElem?_eq_some_iff.1 hheap
    exact ⟨heap, (List.getElem?_append_left hi).trans hheap, hu⟩

theorem Inv.alloc (gpu : ℕ → ℕ) (h : Inv more s) (count event : ℕ) (heapFlags : HeapFlags)
    (recorded : List Command) (hevent : event = s.context.queue.last + 1)
    (hrecorded : recorded = s.context.recorded ++ more) :
    Inv more (allocDescriptors gpu count event heapFlags recorded s).1 ∧
      SameList s (allocDescriptors gpu count event heapFlags recorded s).1 := by
  obtain ⟨hfrom, hsame⟩ := h.allocFrom gpu count heapFlags s.heaps.length hevent hrecorded
  rw [allocDescriptors]
  split
  next s' range heq =>
    rw [heq] at hfrom hsame
    exact ⟨hfrom, hsame⟩
  next s' heq =>
    rw [heq] at hfrom hsame
    have hcreated := hfrom.createHeap (max count initialHeapCapacity) heapFlags
    obtain ⟨htry, hsame'⟩ := hcreated.tryAlloc gpu
      ((Descriptors.createHeap (max count initialHeapCapacity) heapFlags s').heaps.length - 1) count
      heapFlags (hevent.trans (congrArg (· + 1) hsame.last.symm))
      (hrecorded.trans (congrArg (· ++ more) hsame.recorded.symm))
    exact ⟨htry, hsame.trans ⟨hsame'.recorded, hsame'.last, hsame'.recorder, hsame'.dispatches⟩⟩

/-- A new heap has room. -/
theorem alloc_isSome (gpu : ℕ → ℕ) (count event : ℕ) (heapFlags : HeapFlags) (recorded : List Command)
    (s : Recorder O n) :
    ∃ range, (allocDescriptors gpu count event heapFlags recorded s).2 = some range := by
  rw [allocDescriptors]
  split
  next s' range heq => exact ⟨range, rfl⟩
  next s' heq =>
    have hlast : (createHeap (max count initialHeapCapacity) heapFlags s').heaps[
        (createHeap (max count initialHeapCapacity) heapFlags s').heaps.length - 1]? =
        some { capacity := max count initialHeapCapacity, heapFlags } := by
      simp [createHeap]
    dsimp only
    unfold tryAllocDescriptors
    rw [hlast]
    simp [Descriptors.reclaim]

/-! ## The command list -/

theorem later_openRecorder (c : Context O n) :
    FencedQueue.Later c.queue c.recorded (ExecutionContext.openRecorder gpu c).queue
      (ExecutionContext.openRecorder gpu c).recorded := by
  unfold ExecutionContext.openRecorder ExecutionContext.getNextAllocator
  dsimp only
  split <;> exact .advance _ _ _

theorem later_setCommandRecorder (gpu : ℕ → ℕ) (c : Context O n) :
    FencedQueue.Later c.queue c.recorded (ExecutionContext.setCommandRecorder gpu c).queue
      (ExecutionContext.setCommandRecorder gpu c).recorded := by
  unfold ExecutionContext.setCommandRecorder
  split
  · exact .refl _ _
  · exact later_openRecorder { c with currentRecorder := true }

/-- What is recorded is submitted, with a list of the caller behind it. -/
theorem later_closeAndExecute {c : Context O n} (h : ExecutionContext.Kept c)
    (commandList : Option (List Command)) :
    FencedQueue.Later c.queue c.recorded (ExecutionContext.closeAndExecute commandList c).queue
      (c.recorded ++ commandList.getD []) := by
  have htoList (l : Option (List Command)) : l.toList.flatten = l.getD [] := by
    cases l <;> simp
  have hlists : ((if c.operationsRecorded then c.currentCommandList.toList else []) ++
      commandList.toList).flatten = c.currentCommandList.getD [] ++ commandList.getD [] := by
    rw [List.flatten_append, htoList]
    congr 1
    split
    next => exact htoList _
    next hflag => exact (h.list_of_unflagged (by simpa using hflag)).symm
  have hall : c.queue.submitted ++ ((if c.operationsRecorded then c.currentCommandList.toList
      else []) ++ commandList.toList).flatten = c.recorded ++ commandList.getD [] := by
    rw [hlists, ← List.append_assoc, h.whole]
  have hrecorded := FencedQueue.Later.record c.queue c.recorded (commandList.getD [])
  unfold ExecutionContext.closeAndExecute
  dsimp only
  generalize (if c.operationsRecorded = true then c.currentCommandList.toList else []) ++
    commandList.toList = lists at hall ⊢
  split
  next => exact hrecorded
  next => exact hrecorded.trans (.submit h.inOrder hall)

@[simp] theorem closeAndExecute_recorded (commandList : Option (List Command)) (c : Context O n) :
    (ExecutionContext.closeAndExecute commandList c).recorded = c.recorded := by
  unfold ExecutionContext.closeAndExecute
  dsimp only
  split <;> split <;> rfl

theorem later_flush {c : Context O n} (h : ExecutionContext.Inv c) :
    FencedQueue.Later c.queue c.recorded (ExecutionContext.flush gpu c).queue
      (ExecutionContext.flush gpu c).recorded := by
  unfold ExecutionContext.flush
  split
  next => exact .refl _ _
  next =>
    have hclosed := later_closeAndExecute h.toKept none
    rw [Option.getD_none, List.append_nil] at hclosed
    set closed := ExecutionContext.closeAndExecute none c with hdef
    have hrecorded : closed.recorded = c.recorded := closeAndExecute_recorded none c
    rw [← hrecorded] at hclosed
    have hreleased : FencedQueue.Later closed.queue closed.recorded
        (ExecutionContext.releaseCompletedReferences gpu closed).queue
        (ExecutionContext.releaseCompletedReferences gpu closed).recorded := .advance _ _ _
    have hset := later_setCommandRecorder gpu
      { ExecutionContext.releaseCompletedReferences gpu closed with currentRecorder := false }
    rw [← hrecorded]
    exact hclosed.trans (hreleased.trans hset)

theorem later_executeCommandList {c : Context O n} (h : ExecutionContext.Inv c)
    (commandList : List Command) :
    FencedQueue.Later c.queue c.recorded
      (ExecutionContext.recorderExecuteCommandList gpu commandList c).queue
      (ExecutionContext.recorderExecuteCommandList gpu commandList c).recorded := by
  unfold ExecutionContext.recorderExecuteCommandList
  dsimp only
  split
  next hflag =>
    have hnone := h.list_of_unflagged (by simpa using hflag)
    have hwhole := h.whole
    rw [hnone, List.append_nil] at hwhole
    have hall : c.queue.submitted ++ [commandList].flatten = c.recorded ++ commandList := by
      rw [hwhole, List.flatten_singleton]
    exact (FencedQueue.Later.record _ _ commandList).trans (.submit h.inOrder hall)
  next =>
    have hclosed := later_closeAndExecute h.toKept (some commandList)
    set closed := ExecutionContext.closeAndExecute (some commandList)
      { c with recorded := c.recorded ++ commandList } with hdef
    have hqueue : closed.queue = (ExecutionContext.closeAndExecute (some commandList) c).queue := by
      rw [hdef]
      unfold ExecutionContext.closeAndExecute
      dsimp only
      split <;> split <;> rfl
    have hrecorded : closed.recorded = c.recorded ++ commandList := closeAndExecute_recorded _ _
    rw [← hqueue, Option.getD_some, ← hrecorded] at hclosed
    exact hclosed.trans (later_openRecorder closed)

/-! ## The operations -/

/-- More is to be recorded. -/
theorem Inv.pending (h : Inv [] s) (more : List Command) : Inv more s := by
  refine { h with uses := fun u hu => ?_ }
  have hpromise := h.uses u hu
  rw [List.append_nil] at hpromise
  exact hpromise.record more

/-- The context moves on, with nothing pending. -/
theorem Inv.step (h : Inv [] s) {c : Context O n} (hc : ExecutionContext.Inv c)
    (hlater : FencedQueue.Later s.context.queue s.context.recorded c.queue c.recorded)
    (hrecorder : c.currentRecorder = false → s.context.currentRecorder = false) :
    Inv [] { s with context := c } :=
  h.later hc (by simpa using hlater) hrecorder

theorem Inv.setCommandRecorder (gpu : ℕ → ℕ) (h : Inv [] s) :
    Inv [] (setCommandRecorder gpu s) ∧
      (setCommandRecorder gpu s).context.currentRecorder = true ∧
      (setCommandRecorder gpu s).dispatches = s.dispatches := by
  unfold Descriptors.setCommandRecorder
  split
  next hset => exact ⟨h, hset, rfl⟩
  next hset =>
    obtain ⟨hc, hrecorder⟩ :
        ExecutionContext.Inv (ExecutionContext.setCommandRecorder gpu s.context) ∧ _ :=
      h.context.setCommandRecorder
    have hnone := h.closed (by simpa using hset)
    have hstep := h.step hc (later_setCommandRecorder gpu _) fun hfalse => by
      rw [hrecorder] at hfalse
      cases hfalse
    exact ⟨{ hstep with bound := fun hne => absurd hnone hne }, hrecorder, rfl⟩

theorem Inv.setDescriptorHeap (h : Inv more s) (hset : s.context.currentRecorder = true)
    (heap : Option ℕ) :
    Inv more (setDescriptorHeap heap s) ∧
      (heap ≠ none → (setDescriptorHeap heap s).boundHeap = heap) := by
  unfold Descriptors.setDescriptorHeap
  split
  next =>
    refine ⟨{ h with closed := fun hfalse => ?_, bound := fun _ => rfl }, fun _ => rfl⟩
    rw [hset] at hfalse
    cases hfalse
  next hsame =>
    refine ⟨h, fun hne => ?_⟩
    have hcurrent : heap = s.currentDescriptorHeap := by
      by_contra hother
      exact hsame ⟨hne, hother⟩
    rw [hcurrent] at hne ⊢
    exact h.bound hne

theorem context_freeTemporary (temporary : Temporary O) (c : Context O n) :
    (ExecutionContext.freeTemporary temporary c).queue = c.queue ∧
      (ExecutionContext.freeTemporary temporary c).recorded = c.recorded ∧
      (ExecutionContext.freeTemporary temporary c).currentRecorder = c.currentRecorder := by
  cases temporary <;> exact ⟨rfl, rfl, rfl⟩

theorem Inv.freeTemporary (h : Inv more s) (temporary : Temporary O) :
    Inv more { s with context := ExecutionContext.freeTemporary temporary s.context } := by
  obtain ⟨hqueue, hrecorded, hrecorder⟩ := context_freeTemporary temporary s.context
  refine h.later (h.context.freeTemporary temporary) ?_ fun hfalse => hrecorder ▸ hfalse
  rw [hqueue, hrecorded]
  exact .refl _ _

/-- What was pending is recorded, with its heap set. -/
theorem Inv.recordWith (h : Inv more s) (hset : s.context.currentRecorder = true) {heap : ℕ}
    (hbound : s.boundHeap = some heap) : Inv [] (recordWith heap more s) := by
  have hrecorded : Inv [] { s with context := ExecutionContext.record more s.context } := by
    refine h.later (h.context.record hset more) ?_ id
    rw [List.append_nil]
    exact .refl _ _
  refine { hrecorded with dispatches := fun d hd => ?_ }
  rcases List.mem_append.1 hd with hold | hnew
  · exact h.dispatches d hold
  · obtain rfl := List.mem_singleton.1 hnew
    exact hbound

@[simp] theorem setDescriptorHeap_context (heap : Option ℕ) (s : Recorder O n) :
    (Descriptors.setDescriptorHeap heap s).context = s.context := by
  unfold Descriptors.setDescriptorHeap
  split <;> rfl

@[simp] theorem setDescriptorHeap_dispatches (heap : Option ℕ) (s : Recorder O n) :
    (Descriptors.setDescriptorHeap heap s).dispatches = s.dispatches := by
  unfold Descriptors.setDescriptorHeap
  split <;> rfl

/-- The heap of a range is set, and the commands that use it are recorded. -/
theorem Inv.finish (h : Inv more s) (hset : s.context.currentRecorder = true) (heap : ℕ) :
    Inv [] (Descriptors.recordWith heap more (Descriptors.setDescriptorHeap (some heap) s)) ∧
      (Descriptors.recordWith heap more
        (Descriptors.setDescriptorHeap (some heap) s)).dispatches.length =
        s.dispatches.length + 1 := by
  obtain ⟨hinv, hbound⟩ := h.setDescriptorHeap hset (some heap)
  refine ⟨hinv.recordWith ?_ (hbound (by simp)), ?_⟩
  · rwa [setDescriptorHeap_context]
  · simp [Descriptors.recordWith]

theorem Inv.recordOperator (gpu : ℕ → ℕ) (h : Inv [] s) (numDescriptors : ℕ)
    (temporary : Temporary O) (commands : List Command) :
    Inv [] (recordOperator gpu numDescriptors temporary commands s) ∧
      (recordOperator gpu numDescriptors temporary commands s).dispatches.length =
        s.dispatches.length + 1 := by
  obtain ⟨hopened, hset, hsame⟩ := h.setCommandRecorder gpu
  unfold Descriptors.recordOperator
  dsimp only
  set s₁ := Descriptors.setCommandRecorder gpu s
  obtain ⟨hinv, hlist⟩ := (hopened.pending commands).alloc gpu numDescriptors
    (ExecutionContext.nextCompletionEvent s₁.context) .shaderVisible
    (s₁.context.recorded ++ commands) rfl rfl
  obtain ⟨range, hsome⟩ := alloc_isSome gpu numDescriptors
    (ExecutionContext.nextCompletionEvent s₁.context) .shaderVisible
    (s₁.context.recorded ++ commands) s₁
  split
  next s' heq =>
    rw [heq] at hsome
    cases hsome
  next s' range heq =>
    rw [heq] at hinv hlist
    have hset' : (ExecutionContext.freeTemporary temporary s'.context).currentRecorder = true := by
      rw [(context_freeTemporary temporary s'.context).2.2, hlist.recorder, hset]
    obtain ⟨hfinal, hcount⟩ := (hinv.freeTemporary temporary).finish hset' range.heap
    refine ⟨hfinal, hcount.trans ?_⟩
    rw [← hsame, ← hlist.dispatches]

theorem Inv.fillBufferWithPattern (gpu : ℕ → ℕ) (h : Inv [] s) (dst : ℕ) (value : List UInt8) :
    Inv [] (fillBufferWithPattern gpu dst value s) ∧
      (fillBufferWithPattern gpu dst value s).dispatches.length = s.dispatches.length + 1 := by
  obtain ⟨hopened, hset, hsame⟩ := h.setCommandRecorder gpu
  unfold Descriptors.fillBufferWithPattern
  dsimp only
  set s₁ := Descriptors.setCommandRecorder gpu s
  set commands := [Command.clear dst (ExecutionContext.fillPattern value), .uavBarrier]
  obtain ⟨hinv, hlist⟩ := (hopened.pending commands).alloc gpu 1
    (ExecutionContext.nextCompletionEvent s₁.context) .none (s₁.context.recorded ++ commands) rfl rfl
  obtain ⟨range, hsome⟩ := alloc_isSome gpu 1 (ExecutionContext.nextCompletionEvent s₁.context)
    .none (s₁.context.recorded ++ commands) s₁
  split
  next s₂ heq =>
    rw [heq] at hsome
    cases hsome
  next s₂ cpu heq =>
    rw [heq] at hinv hlist
    obtain ⟨hinv', hlist'⟩ := hinv.alloc gpu 1 (ExecutionContext.nextCompletionEvent s₂.context)
      .shaderVisible (s₁.context.recorded ++ commands) rfl
      (congrArg (· ++ commands) hlist.recorded.symm)
    obtain ⟨range', hsome'⟩ := alloc_isSome gpu 1 (ExecutionContext.nextCompletionEvent s₂.context)
      .shaderVisible (s₁.context.recorded ++ commands) s₂
    split
    next s₃ heq' =>
      rw [heq'] at hsome'
      cases hsome'
    next s₃ shader heq' =>
      rw [heq'] at hinv' hlist'
      obtain ⟨hfinal, hcount⟩ := hinv'.finish (by rw [hlist'.recorder, hlist.recorder, hset])
        shader.heap
      refine ⟨hfinal, hcount.trans ?_⟩
      rw [← hsame, ← hlist.dispatches, ← hlist'.dispatches]

theorem Inv.getCommandListForRecording (gpu : ℕ → ℕ) (h : Inv [] s) (commands : List Command)
    (heap : Option ℕ) : Inv [] (getCommandListForRecording gpu commands heap s) := by
  obtain ⟨hopened, hset, -⟩ := h.setCommandRecorder gpu
  exact (hopened.step (hopened.context.record hset commands) (.record _ _ _) id).forget _

theorem recorder_executeCommandList (gpu : ℕ → ℕ) {c : Context O n} (hset : c.currentRecorder = true)
    (commandList : List Command) :
    (ExecutionContext.recorderExecuteCommandList gpu commandList c).currentRecorder = true := by
  unfold ExecutionContext.recorderExecuteCommandList
  dsimp only
  split
  next => exact hset
  next =>
    change (ExecutionContext.getNextAllocator gpu _ _).currentRecorder = true
    rw [ExecutionContext.getNextAllocator_recorder, ExecutionContext.closeAndExecute_recorder]
    exact hset

theorem Inv.executeCommandList (gpu : ℕ → ℕ) (h : Inv [] s) (commandList : List Command) :
    Inv [] (executeCommandList gpu commandList s) ∧
      (executeCommandList gpu commandList s).dispatches = s.dispatches := by
  obtain ⟨hopened, hset, hsame⟩ := h.setCommandRecorder gpu
  unfold Descriptors.executeCommandList
  dsimp only
  set s₁ := Descriptors.setCommandRecorder gpu s
  have hrecorder := recorder_executeCommandList gpu hset commandList
  have hstep := hopened.step (hopened.context.executeCommandList hset commandList)
    (later_executeCommandList hopened.context commandList) fun hfalse => by
      rw [hrecorder] at hfalse
      cases hfalse
  split
  next =>
    refine ⟨((hstep.forget none).setDescriptorHeap hrecorder s₁.currentDescriptorHeap).1, ?_⟩
    rw [setDescriptorHeap_dispatches, ← hsame]
  next => exact ⟨hstep, hsame⟩

theorem recorder_flush (gpu : ℕ → ℕ) (c : Context O n) :
    (ExecutionContext.flush gpu c).currentRecorder = c.currentRecorder := by
  unfold ExecutionContext.flush
  split
  next => rfl
  next hwork =>
    have hset : c.currentRecorder = true := by
      cases hc : c.currentRecorder with
      | true => rfl
      | false => exact absurd (by rw [hc]; rfl) hwork
    rw [hset, ExecutionContext.setCommandRecorder, if_neg Bool.false_ne_true]
    change (ExecutionContext.getNextAllocator gpu _ _).currentRecorder = true
    rw [ExecutionContext.getNextAllocator_recorder]

theorem Inv.flush (gpu : ℕ → ℕ) (h : Inv [] s) : Inv [] (flush gpu s) := by
  unfold Descriptors.flush
  split
  next => exact h
  next =>
    exact (h.step h.context.flush (later_flush h.context) fun hfalse =>
      recorder_flush gpu s.context ▸ hfalse).forget none

/-- Operations without descriptors, when they keep what the context promises. -/
theorem Inv.offList (gpu : ℕ → ℕ) (h : Inv [] s) {op : ExecutionContext.Operation O}
    (hlater : FencedQueue.Later s.context.queue s.context.recorded (op.apply gpu s.context).queue
      (op.apply gpu s.context).recorded)
    (hrecorder : (op.apply gpu s.context).currentRecorder = s.context.currentRecorder) :
    Inv [] (offList gpu op s) :=
  h.step (h.context.apply op) hlater fun hfalse => hrecorder ▸ hfalse

/-- Recording on the open list, which the operation finds open. -/
theorem Inv.onList (gpu : ℕ → ℕ) (h : Inv [] s) (op : ExecutionContext.Operation O)
    {commands : List Command}
    (hop : ∀ c : Context O n, c.currentRecorder = true →
      op.apply gpu c = ExecutionContext.record commands c) :
    Inv [] (onList gpu op s) ∧ (onList gpu op s).dispatches = s.dispatches := by
  obtain ⟨hopened, hset, hsame⟩ := h.setCommandRecorder gpu
  have hrecord := hopened.step (hopened.context.record hset commands) (.record _ _ commands) id
  rw [← hop _ hset] at hrecord
  exact ⟨hrecord, hsame⟩

/-- An operation that gives out descriptors. -/
def Operation.usesDescriptors : Operation O → Bool
  | initializeOperator .. | executeOperator .. | fillBufferWithPattern .. => true
  | _ => false

/-- Every operation keeps the invariant, and those with descriptors are recorded. -/
theorem inv_apply (gpu : ℕ → ℕ) (h : Inv [] s) (op : Operation O) :
    Inv [] (op.apply gpu s) ∧
      (op.apply gpu s).dispatches.length =
        s.dispatches.length + if op.usesDescriptors then 1 else 0 := by
  have hset (c : Context O n) (hc : c.currentRecorder = true) :
      ExecutionContext.setCommandRecorder gpu c = c := by
    rw [ExecutionContext.setCommandRecorder, if_pos hc]
  cases op with
  | initializeOperator op numDescriptors persistentResource temporary =>
    exact h.recordOperator gpu numDescriptors temporary _
  | executeOperator op numDescriptors temporary =>
    exact h.recordOperator gpu numDescriptors temporary _
  | fillBufferWithPattern dst value => exact h.fillBufferWithPattern gpu dst value
  | getCommandListForRecording commands heap =>
    exact ⟨h.getCommandListForRecording gpu commands heap,
      congrArg List.length (h.setCommandRecorder gpu).2.2⟩
  | executeCommandList commandList =>
    obtain ⟨hinv, hsame⟩ := h.executeCommandList gpu commandList
    exact ⟨hinv, congrArg List.length hsame⟩
  | flush =>
    refine ⟨h.flush gpu, ?_⟩
    change (Descriptors.flush gpu s).dispatches.length = _
    unfold Descriptors.flush
    split <;> rfl
  | copyBufferRegion dst dstOffset dstState src srcOffset srcState byteCount =>
    obtain ⟨hinv, hsame⟩ := h.onList gpu (.copyBufferRegion dst dstOffset dstState src
      srcOffset srcState byteCount) fun c hc => by
        change ExecutionContext.record _ (ExecutionContext.setCommandRecorder gpu c) = _
        rw [hset c hc]
    exact ⟨hinv, congrArg List.length hsame⟩
  | addUAVBarrier =>
    obtain ⟨hinv, hsame⟩ := h.onList gpu .addUAVBarrier fun c hc => by
      change ExecutionContext.record _ (ExecutionContext.setCommandRecorder gpu c) = _
      rw [hset c hc]
    exact ⟨hinv, congrArg List.length hsame⟩
  | resourceBarrier barriers =>
    obtain ⟨hinv, hsame⟩ := h.onList gpu (.resourceBarrier barriers) fun c hc => by
      change ExecutionContext.record _ (ExecutionContext.setCommandRecorder gpu c) = _
      rw [hset c hc]
    exact ⟨hinv, congrArg List.length hsame⟩
  | queueReference object => exact ⟨h.offList gpu (.refl _ _) rfl, rfl⟩
  | getCurrentCompletionEvent => exact ⟨h.offList gpu (.refl _ _) rfl, rfl⟩
  | releaseCompletedReferences => exact ⟨h.offList gpu (.advance _ _ _) rfl, rfl⟩

theorem inv_run (gpu : ℕ → ℕ) (h : Inv [] s) (ops : List (Operation O)) :
    Inv [] (run gpu ops s) ∧
      (run gpu ops s).dispatches.length =
        s.dispatches.length + ops.countP Operation.usesDescriptors := by
  induction ops generalizing s with
  | nil => exact ⟨h, rfl⟩
  | cons op ops ih =>
    obtain ⟨hinv, hcount⟩ := inv_apply gpu h op
    obtain ⟨hrun, hrest⟩ := ih hinv
    refine ⟨hrun, ?_⟩
    rw [List.countP_cons]
    change (run gpu ops (op.apply gpu s)).dispatches.length = _
    rw [hrest, hcount]
    omega

end

end AmdGpuEp.DirectML.Descriptors
