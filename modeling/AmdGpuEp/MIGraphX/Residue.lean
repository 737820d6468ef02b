import AmdGpuEp.Lib.Runs
import AmdGpuEp.MIGraphX.HipGraph
import Mathlib.Data.Nat.Log

/-!
# What the buffers hold when a program runs

The contents of the scratch and output buffers through the ways of
`RunProgramOrHipGraph`, for calls on one input-shape signature. A program maps
an input and the contents it finds to new contents. A replay zeroes both buffers
before its one launch; the call that captures delivers what the launches of its
warm-in have left; an eager run takes the buffers as they are, and without
staging these are the output tensors of ORT and MIGraphX's own arena.

Results:
1. `contentsAfter_of_overwrites`: a program that overwrites what it finds leaves
   no residue on any way.
2. `delivers_function_iff`: the outputs of all runs are one function of the
   inputs exactly for the programs that overwrite.
3. `delivers_function_of_graph_iff`: what the calls need that run by graphs only.
4. `accumulate_residue`: a program that adds to its output delivers one value
   when it is captured and another when it is replayed.
-/

namespace AmdGpuEp.MIGraphX

/-! ## Programs and contents -/

/-- The contents of the scratch buffer of the signature and of the output buffers. -/
structure Contents (S O : Type*) where
  scratch : S
  outputs : O
  deriving DecidableEq, Repr

/-- A program as a transformer of inputs, scratch contents and output contents, with the contents
that zeroing leaves. -/
structure DeviceProgram (X S O : Type*) where
  exec : X → S → O → S × O
  zeroScratch : S
  zeroOutputs : O

/-- `kCaptureFinalizeIterations` -/
def kCaptureFinalizeIterations : Nat := 2

/-- `kPostCaptureWarmInBase` -/
def kPostCaptureWarmInBase : Nat := 10

/-- `PostCaptureWarminFor`: one more replay for each halving down to 1. -/
def postCaptureWarminFor (batch : Nat) : Nat := kPostCaptureWarmInBase + Nat.log2 batch

/-- `InferCompiledBatchFromParams` -/
def inferCompiledBatchFromParams (cfg : NodeConfig) (params : ParameterShapes) : Nat :=
  params.names.foldl
    (fun batch name =>
      if cfg.isInput name then
        match (params.shape name).lengths.head? with
        | some front => max batch front
        | none => batch
      else batch)
    0

variable {D X S O : Type*}

namespace DeviceProgram

variable (p : DeviceProgram X S O)

/-- One execution. -/
def run (x : X) (m : Contents S O) : Contents S O :=
  let (scratch, outputs) := p.exec x m.scratch m.outputs
  { scratch, outputs }

def zero : Contents S O :=
  { scratch := p.zeroScratch, outputs := p.zeroOutputs }

/-- `ZeroScratchFor` -/
def zeroScratchFor (m : Contents S O) : Contents S O :=
  { m with scratch := p.zeroScratch }

/-- What a capture starts from: zeroed buffers, the warm-up runs, and zeroed scratch. -/
def anchored (x : X) : Contents S O :=
  p.zeroScratchFor ((p.run x)^[kCaptureFinalizeIterations] p.zero)

/-- The contents that a run ends with. When the capture fails, or is stopped, `launched` executions
have been made by then. -/
def contentsAfter (warmin : Nat) (x : X) (launched : Nat) (m : Contents S O) :
    RunPath → Contents S O
  | .eager => p.run x m
  | .replay _ => p.run x p.zero
  | .capture => (p.run x)^[warmin] (p.anchored x)
  | .failedCapture => p.run x ((p.run x)^[launched] (p.anchored x))
  | .stopped => (p.run x)^[launched] p.zero

/-- The outputs do not depend on what the program finds. -/
def Overwrites : Prop :=
  ∀ x m m', (p.run x m).outputs = (p.run x m').outputs

end DeviceProgram

/-! ## Calls on one signature -/

/-- A call: its faults, its input, what a run without staging finds, how many executions a failing
capture makes, and what an execution that throws leaves behind. -/
structure SignatureCall (X S O : Type*) where
  call : Call
  input : X
  found : Contents S O
  launched : Nat
  left : Contents S O

/-- A fused node between calls on one signature. -/
structure SignatureState (D S O : Type*) where
  node : ComputeState D
  contents : Contents S O

/-- A call behind the binding of its parameters. `bucketed` says whether the signature is one of a
batch bucket. The result are the outputs that are delivered, if any. -/
def runSignature [DecidableEq D] (p : DeviceProgram X S O) (warmin : Nat) (bucketed : Bool)
    (key : D) (s : SignatureState D S O) (q : SignatureCall X S O) :
    SignatureState D S O × Option O :=
  if s.node.hipGraphEnable || bucketed then
    let (node, _, through) := runProgramOrHipGraph key q.call s.node
    let contents :=
      p.contentsAfter warmin q.input q.launched s.contents (runPath key q.call s.node)
    if through then
      ({ node, contents },
        if q.call.faults.outputCopies.isNone then some contents.outputs else none)
    else ({ node, contents := q.left }, none)
  else if q.call.faults.run then (s, none)
  else (s, some (p.run q.input q.found).outputs)

/-- The calls of a signature as a machine. -/
def signature [DecidableEq D] (p : DeviceProgram X S O) (warmin : Nat) (bucketed : Bool)
    (key : D) : Machine (SignatureState D S O) (SignatureCall X S O) (Option O) where
  step := fun s q => some (runSignature p warmin bucketed key s q)

/-- The signature before its first call: no graph is captured and the buffers are zeroed. -/
def SignatureState.Fresh (p : DeviceProgram X S O) (key : D) (s : SignatureState D S O) : Prop :=
  s.node.hipGraphCache key = none ∧ s.contents = p.zero

/-- What the call delivers is the value of `F` at its input. -/
def DeliversBy (F : X → O) (q : SignatureCall X S O) (o : Option O) : Prop :=
  ∀ outputs ∈ o, outputs = F q.input

/-- In every run on one signature, all calls deliver one function of their inputs. -/
def DeliversFunction (D : Type*) [DecidableEq D] (p : DeviceProgram X S O) (warmin : Nat) : Prop :=
  ∃ F : X → O, ∀ (bucketed : Bool) (key : D) (s : SignatureState D S O), s.Fresh p key →
    ∀ calls, (signature p warmin bucketed key).Every (fun _ q _ o => DeliversBy F q o) s calls

/-! ## Overwriting programs -/

section

variable {p : DeviceProgram X S O} {warmin : Nat}

/-- A program that overwrites what it finds leaves no residue on any way. -/
theorem contentsAfter_of_overwrites (h : p.Overwrites) (hwarmin : 0 < warmin) (x : X)
    (launched : Nat) (m : Contents S O) {path : RunPath} (hpath : path ≠ .stopped) :
    (p.contentsAfter warmin x launched m path).outputs = (p.run x p.zero).outputs := by
  cases path with
  | eager => exact h x _ _
  | replay program => rfl
  | capture =>
    obtain ⟨k, rfl⟩ := Nat.exists_eq_add_of_lt hwarmin
    show ((p.run x)^[0 + k + 1] (p.anchored x)).outputs = _
    rw [Function.iterate_succ_apply']
    exact h x _ _
  | failedCapture => exact h x _ _
  | stopped => exact absurd rfl hpath

theorem postCaptureWarminFor_pos (batch : Nat) : 0 < postCaptureWarminFor batch :=
  Nat.lt_of_lt_of_le (by decide) (Nat.le_add_right kPostCaptureWarmInBase (Nat.log2 batch))

variable [DecidableEq D] {bucketed : Bool} {key : D} {s s' : SignatureState D S O}
  {q : SignatureCall X S O} {o : Option O}

/-- While no capture fails, a call replays, captures or is stopped, and graphs stay on. -/
theorem graph_path {program : Program} {through : Bool} {node : ComputeState D} {c : Call}
    {t : ComputeState D} (henable : t.hipGraphEnable = true) (hcapture : c.faults.capture = false)
    (h : RunsBy key c t node program through (runPath key c t)) :
    node.hipGraphEnable = true ∧
      ((∃ captured, runPath key c t = .replay captured) ∨ runPath key c t = .capture ∨
        runPath key c t = .stopped) := by
  have hgraph : runPath key c t ≠ .eager ∧ runPath key c t ≠ .failedCapture := by
    unfold runPath
    rw [if_pos henable, hcapture]
    cases replayable key t with
    | some captured => exact ⟨nofun, nofun⟩
    | none => cases c.faults.warmup <;> exact ⟨nofun, nofun⟩
  cases hpath : runPath key c t with
  | eager => exact absurd hpath hgraph.1
  | failedCapture => exact absurd hpath hgraph.2
  | replay captured =>
    rw [hpath] at h
    exact ⟨h.1 ▸ henable, Or.inl ⟨captured, rfl⟩⟩
  | capture =>
    rw [hpath] at h
    exact ⟨h.1 ▸ henable, Or.inr (Or.inl rfl)⟩
  | stopped =>
    rw [hpath] at h
    refine ⟨?_, Or.inr (Or.inr rfl)⟩
    rcases h.1 with rfl | ⟨entry, -, rfl⟩
    · exact henable
    · exact henable

/-- A call that delivers something was not stopped. -/
theorem path_of_delivered {program : Program} {node : ComputeState D}
    (h : RunsBy key q.call s.node node program true (runPath key q.call s.node)) :
    runPath key q.call s.node ≠ .stopped := by
  intro hstopped
  rw [hstopped] at h
  cases h.2.2

/-- What a call delivers: the outputs of its way, or those of a run without staging. -/
theorem delivered_cases (h : runSignature p warmin bucketed key s q = (s', o)) {outputs : O}
    (ho : outputs ∈ o) :
    (s.node.hipGraphEnable || bucketed) = true ∧ runPath key q.call s.node ≠ .stopped ∧
        outputs = (p.contentsAfter warmin q.input q.launched s.contents
          (runPath key q.call s.node)).outputs ∨
      (s.node.hipGraphEnable || bucketed) = false ∧
        outputs = (p.run q.input q.found).outputs := by
  have hruns := runProgramOrHipGraph_runsBy key q.call s.node
  unfold runSignature at h
  split at h
  · next hstaged =>
    dsimp only at h
    split at h
    · next hthrough =>
      rw [hthrough] at hruns
      cases h
      obtain ⟨-, hsome⟩ := Option.ite_none_right_eq_some.1 ho
      cases hsome
      exact Or.inl ⟨hstaged, path_of_delivered hruns, rfl⟩
    · cases h
      cases ho
  · next hdirect =>
    split at h
    · cases h
      cases ho
    · cases h
      cases ho
      exact Or.inr ⟨Bool.eq_false_iff.2 hdirect, rfl⟩

end

/-- The outputs of all runs are one function of the inputs exactly for the programs that overwrite
what they find. -/
theorem delivers_function_iff (D : Type*) [DecidableEq D] [Nonempty D] (p : DeviceProgram X S O)
    (batch : Nat) :
    DeliversFunction D p (postCaptureWarminFor batch) ↔ p.Overwrites := by
  constructor
  · rintro ⟨F, hF⟩ x m m'
    obtain ⟨key⟩ := ‹Nonempty D›
    have hdirect : ∀ m : Contents S O, (p.run x m).outputs = F x := by
      intro m
      let node : ComputeState D :=
        { onnxOptions := fun _ => none, program := .empty, hasInputShapes := true
          hipGraphEnable := false }
      let q : SignatureCall X S O :=
        { call := { input := fun _ => { shape := [] } }, input := x, found := m, launched := 0
          left := m }
      exact (hF false key { node, contents := p.zero } ⟨rfl, rfl⟩ [q]).1 _ rfl
    rw [hdirect m, hdirect m']
  · intro h
    refine ⟨fun x => (p.run x p.zero).outputs, fun bucketed key s _ calls => ?_⟩
    refine Machine.Every.of_kept (fun _ => True) ?_ trivial calls
    intro s q s' o _ hstep
    refine ⟨trivial, fun outputs ho => ?_⟩
    rcases delivered_cases (Option.some.inj hstep) ho with ⟨-, hpath, rfl⟩ | ⟨-, rfl⟩
    · exact contentsAfter_of_overwrites h (postCaptureWarminFor_pos batch) _ _ _ hpath
    · exact h _ _ _

/-- A program that writes twice its input. -/
def double : DeviceProgram Nat Unit Nat where
  exec := fun x scratch _ => (scratch, x + x)
  zeroScratch := ()
  zeroOutputs := 0

theorem double_delivers : DeliversFunction Unit double (postCaptureWarminFor 4) :=
  (delivers_function_iff Unit double 4).2 fun _ _ _ => rfl

/-- The calls that run by graphs, as all do while no capture fails, deliver one function of their
inputs exactly when the launches of the warm-in leave what one launch on zeroed buffers does. -/
theorem delivers_function_of_graph_iff (D : Type*) [DecidableEq D] [Nonempty D]
    (p : DeviceProgram X S O) (warmin : Nat) :
    (∃ F : X → O, ∀ (bucketed : Bool) (key : D) (s : SignatureState D S O), s.Fresh p key →
      s.node.hipGraphEnable = true → ∀ calls,
        (signature p warmin bucketed key).Every (fun _ q _ _ => q.call.faults.capture = false)
            s calls →
          (signature p warmin bucketed key).Every (fun _ q _ o => DeliversBy F q o) s calls) ↔
      ∀ x, ((p.run x)^[warmin] (p.anchored x)).outputs = (p.run x p.zero).outputs := by
  constructor
  · rintro ⟨F, hF⟩ x
    obtain ⟨key⟩ := ‹Nonempty D›
    let node : ComputeState D :=
      { onnxOptions := fun _ => none, program := .empty, hasInputShapes := true
        hipGraphEnable := true }
    let q : SignatureCall X S O :=
      { call := { input := fun _ => { shape := [] } }, input := x, found := p.zero, launched := 0
        left := p.zero }
    let captured : ComputeState D :=
      { node with
        hipGraphCache := Function.update node.hipGraphCache key
          (some { graph := some .empty, captured := true, capturedScratchPtr := none }) }
    let m : Contents S O := (p.run x)^[warmin] (p.anchored x)
    have hfirst : (signature p warmin false key).step { node, contents := p.zero } q =
        some ({ node := captured, contents := m }, some m.outputs) := by
      simp [signature, runSignature, runPath, runProgramOrHipGraph, warmupAndCapture, replayable,
        scratchPtr, DeviceProgram.contentsAfter, node, captured, m, q]
    have hsecond : (signature p warmin false key).step { node := captured, contents := m } q =
        some ({ node := captured, contents := p.run x p.zero },
          some (p.run x p.zero).outputs) := by
      simp [signature, runSignature, runPath, runProgramOrHipGraph, replayable, scratchPtr,
        DeviceProgram.contentsAfter, node, captured, q]
    have hplain : (signature p warmin false key).Every
        (fun _ q _ _ => q.call.faults.capture = false) { node, contents := p.zero } [q, q] := by
      rw [Machine.Every.cons hfirst, Machine.Every.cons hsecond]
      exact ⟨rfl, rfl, trivial⟩
    have hrun := hF false key { node, contents := p.zero } ⟨rfl, rfl⟩ rfl [q, q] hplain
    rw [Machine.Every.cons hfirst, Machine.Every.cons hsecond] at hrun
    have hcapture : m.outputs = F x := hrun.1 _ rfl
    have hreplay : (p.run x p.zero).outputs = F x := hrun.2.1 _ rfl
    rw [hcapture, hreplay]
  · intro h
    refine ⟨fun x => (p.run x p.zero).outputs, fun bucketed key s _ henable calls hcalls => ?_⟩
    refine Machine.Every.of_invariant (fun s => s.node.hipGraphEnable = true) ?_ henable hcalls
    intro s q s' o henable hstep hcapture
    have hcall := Option.some.inj hstep
    obtain ⟨hnode, hpath⟩ :=
      graph_path henable hcapture (runProgramOrHipGraph_runsBy key q.call s.node)
    refine ⟨?_, fun outputs ho => ?_⟩
    · unfold runSignature at hcall
      rw [henable, Bool.true_or, if_pos rfl] at hcall
      dsimp only at hcall
      split at hcall
      · cases hcall
        exact hnode
      · cases hcall
        exact hnode
    · rcases delivered_cases hcall ho with ⟨-, hlive, rfl⟩ | ⟨hdirect, -⟩
      · rcases hpath with ⟨captured, hpath⟩ | hpath | hpath
        · rw [hpath]
          rfl
        · rw [hpath]
          exact h q.input
        · exact absurd hpath hlive
      · rw [henable] at hdirect
        cases hdirect

/-- A program that adds its input to what its output buffer holds. -/
def accumulate : DeviceProgram Nat Unit Nat where
  exec := fun x scratch outputs => (scratch, outputs + x)
  zeroScratch := ()
  zeroOutputs := 0

/-- A node with graphs on. -/
def graphNode : SignatureState Unit Unit Nat where
  node := { onnxOptions := fun _ => none, program := .empty, hasInputShapes := true
            hipGraphEnable := true }
  contents := accumulate.zero

/-- A call on the input 1 in which nothing fails. -/
def plainCall : SignatureCall Nat Unit Nat where
  call := { input := fun _ => { shape := [1] } }
  input := 1
  found := accumulate.zero
  launched := 0
  left := accumulate.zero

/-- The call that captures delivers 12, the replay behind it 1, for one and the same input. -/
theorem accumulate_residue :
    (runSignature accumulate (postCaptureWarminFor 1) false () graphNode plainCall).2 = some 12 ∧
      (runSignature accumulate (postCaptureWarminFor 1) false ()
        (runSignature accumulate (postCaptureWarminFor 1) false () graphNode plainCall).1
        plainCall).2 = some 1 ∧
      ¬ DeliversFunction Unit accumulate (postCaptureWarminFor 1) := by
  refine ⟨rfl, rfl, ?_⟩
  rintro ⟨F, hF⟩
  obtain ⟨hcaptured, hreplayed, -⟩ := hF false () graphNode ⟨rfl, rfl⟩ [plainCall, plainCall]
  have htwelve : 12 = F 1 := hcaptured 12 rfl
  have hone : 1 = F 1 := hreplayed 1 rfl
  rw [← hone] at htwelve
  cases htwelve

end AmdGpuEp.MIGraphX
