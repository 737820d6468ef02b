import AmdGpuEp.Lib.Runs

/-!
# The factory of the amdgpu provider

`gpu_factory.h`, `gpu_ep.cc`, `gpu_allocator.cc` and `gpu_data_transfer.cc`: one
factory serves all sessions of the process. It keeps a pointer to the backend
factory that was used last, one allocator wrapper and one data-transfer wrapper;
the wrappers ask the backend factory for the object behind them on first use and
keep it.

What a backend does is a parameter of the calls: whether it creates what it is
asked for.

Results:
1. `freed_by_owner`: a block goes back to the backend allocator that allocated
   it, in every run.
2. `requests_served_iff`: when all requests of a run are served by the backend of
   their session.
3. `requests_served_of_one_backend`: sessions of one backend do not disturb each
   other.
4. `migraphx_redirects_release`: a session of another profile takes over the
   release of an older one.
-/

namespace AmdGpuEp.Amdgpu

/-! ## Backends -/

inductive Backend
  | directML | migraphx | hip
  deriving DecidableEq, Repr

inductive Profile
  | auto | eager | optimized | migraphx | directML | llm
  deriving DecidableEq, Repr

/-- The backend that `ExecutionProvider` creates. -/
def Profile.backend : Profile → Backend
  | .eager | .directML => .directML
  | .migraphx => .migraphx
  | .llm => .hip
  | .auto | .optimized => .migraphx

/-- An `ExecutionProvider` with the backend of its `backend_ep_`. -/
structure Session where
  id : Nat
  backend : Backend
  deriving DecidableEq, Repr

/-- `OrtEp::CreateAllocator` is set for DirectML sessions only. -/
def Session.hasAllocator (s : Session) : Bool :=
  s.backend == .directML

/-- An allocator of a backend: that of a DirectML session, or that of a backend factory. -/
inductive BackendAllocator
  | session (id : Nat)
  | factory (backend : Backend)
  deriving DecidableEq, Repr

/-- The `OrtAllocator` that ORT holds: that of a session, or the wrapper of the factory. -/
inductive Handle
  | session (id : Nat)
  | wrapper
  deriving DecidableEq, Repr

/-- A block of memory, with the handle it came through and the allocator that it came from. -/
structure Block where
  id : Nat
  handle : Handle
  owner : BackendAllocator
  deriving DecidableEq, Repr

/-- `ProviderFactory` with its wrappers, the live sessions and the live blocks. -/
structure ProviderFactory where
  backendEpFactory : Option Backend := none
  backendAllocator : Option Backend := none
  backendDataTransfer : Option Backend := none
  sessions : List Session := []
  nextSession : Nat := 0
  blocks : List Block := []
  nextBlock : Nat := 0
  deriving DecidableEq, Repr

/-! ## Calls -/

/-- What ORT asks for. `created` says whether the backend creates the object that the call needs,
if it needs one; `fits` whether there is memory. The last one is the stream of the factory, for
work of a session. -/
inductive Call
  | createEp (profile : Profile) (created : Bool)
  | releaseEp (session : Nat)
  | alloc (session : Nat) (created fits : Bool)
  | free (block : Nat) (created : Bool)
  | canCopy (session : Nat) (created : Bool)
  | copyTensors (session : Nat) (created : Bool)
  | createStream (session : Nat)
  | createFactoryStream (session : Nat)
  deriving DecidableEq, Repr

/-- What a call has come to, and which backend it went to. -/
inductive Outcome
  | done
  | failed
  | released (session : Session) (backend : Backend)
  | freed (block : Block) (allocator : BackendAllocator)
  | served (session : Session) (backend : Backend)
  deriving DecidableEq, Repr

/-- The backend behind a wrapper: the one it has, or the one of the current backend factory. -/
def lazyBackend (kept current : Option Backend) (created : Bool) : Option Backend :=
  match kept with
  | some backend => some backend
  | none => if created then current else none

namespace ProviderFactory

variable (f : ProviderFactory)

def session? (id : Nat) : Option Session :=
  f.sessions.find? fun s => s.id == id

def block? (id : Nat) : Option Block :=
  f.blocks.find? fun k => k.id == id

def addBlock (handle : Handle) (owner : BackendAllocator) : ProviderFactory :=
  { f with
    blocks := ⟨f.nextBlock, handle, owner⟩ :: f.blocks
    nextBlock := f.nextBlock + 1 }

/-- `CreateDirectMLBackend`, `CreateMIGraphXBackend` and `CreateHipBackend` for the profile. -/
def createEp (profile : Profile) (created : Bool) : ProviderFactory × Outcome :=
  if created then
    ({ f with
        backendEpFactory := some profile.backend
        sessions := ⟨f.nextSession, profile.backend⟩ :: f.sessions
        nextSession := f.nextSession + 1 }, .done)
  else (f, .failed)

/-- `~ExecutionProvider`: the backend EP goes to the current backend factory. -/
def releaseEp (s : Session) : ProviderFactory × Outcome :=
  ({ f with sessions := f.sessions.erase s },
    match f.backendEpFactory with
    | some backend => .released s backend
    | none => .failed)

/-- `Allocator::Alloc`; `none` when it follows a null pointer. -/
def wrapperAlloc (created fits : Bool) : Option (ProviderFactory × Outcome) :=
  if f.backendAllocator.isNone && f.backendEpFactory.isNone then none
  else
    match lazyBackend f.backendAllocator f.backendEpFactory created with
    | none => some (f, .failed)
    | some backend =>
      let f := { f with backendAllocator := some backend }
      if fits then some (f.addBlock .wrapper (.factory backend), .done) else some (f, .failed)

/-- The allocator of the session, if its EP has one, or the wrapper. -/
def alloc (s : Session) (created fits : Bool) : Option (ProviderFactory × Outcome) :=
  if s.hasAllocator then
    if fits then some (f.addBlock (.session s.id) (.session s.id), .done) else some (f, .failed)
  else f.wrapperAlloc created fits

/-- A block is freed through the handle it came from; for the wrapper this is `Allocator::Free`. -/
def free (k : Block) (created : Bool) : Option (ProviderFactory × Outcome) :=
  match k.handle with
  | .session id => some ({ f with blocks := f.blocks.erase k }, .freed k (.session id))
  | .wrapper =>
    if f.backendAllocator.isNone && f.backendEpFactory.isNone then none
    else
      match lazyBackend f.backendAllocator f.backendEpFactory created with
      | none => some (f, .failed)
      | some backend =>
        some ({ f with backendAllocator := some backend, blocks := f.blocks.erase k },
          .freed k (.factory backend))

/-- `DataTransfer::CanCopy` and `DataTransfer::CopyTensors`. -/
def transfer (s : Session) (created : Bool) : ProviderFactory × Outcome :=
  match lazyBackend f.backendDataTransfer f.backendEpFactory created with
  | none => (f, .failed)
  | some backend => ({ f with backendDataTransfer := some backend }, .served s backend)

/-- `OrtEpFactory::CreateSyncStreamForDevice`. -/
def createFactoryStream (s : Session) : ProviderFactory × Outcome :=
  (f, match f.backendEpFactory with
    | some backend => .served s backend
    | none => .failed)

/-- One call. ORT makes no call for a session or a block that is gone. -/
def step : Call → Option (ProviderFactory × Outcome)
  | .createEp profile created => some (f.createEp profile created)
  | .releaseEp id => (f.session? id).map f.releaseEp
  | .alloc id created fits => (f.session? id).bind fun s => f.alloc s created fits
  | .free id created => (f.block? id).bind fun k => f.free k created
  | .canCopy id created | .copyTensors id created =>
    (f.session? id).map fun s => f.transfer s created
  | .createStream id => (f.session? id).map fun s => (f, .served s s.backend)
  | .createFactoryStream id => (f.session? id).map f.createFactoryStream

end ProviderFactory

def machine : Machine ProviderFactory Call Outcome where
  step := ProviderFactory.step

/-- The call went to where it belongs: a session is released by, and served by, its own backend,
and a block goes back to the allocator that it came from. -/
def Outcome.Proper : Outcome → Prop
  | .done | .failed => True
  | .released s backend | .served s backend => backend = s.backend
  | .freed k allocator => allocator = k.owner

instance : DecidablePred Outcome.Proper
  | .done | .failed => inferInstanceAs (Decidable True)
  | .released s backend | .served s backend => inferInstanceAs (Decidable (backend = s.backend))
  | .freed k allocator => inferInstanceAs (Decidable (allocator = k.owner))

/-! ## The calls so far

Histories list the newest call first. -/

/-- The backends of the sessions by session id. -/
def created : List Call → List Backend
  | [] => []
  | .createEp profile true :: h => created h ++ [profile.backend]
  | _ :: h => created h

/-- The backend of the newest session, live or not. -/
def newestBackend : List Call → Option Backend
  | [] => none
  | .createEp profile true :: _ => some profile.backend
  | _ :: h => newestBackend h

/-- The call opens a data transfer unless there is one. -/
def Call.opensTransfer : Call → Bool
  | .canCopy _ created | .copyTensors _ created => created
  | _ => false

/-- The backend of the session that was newest when the first data transfer was opened. -/
def transferBackend : List Call → Option Backend
  | [] => none
  | c :: h => lazyBackend (transferBackend h) (newestBackend h) c.opensTransfer

/-- What the sessions created so far must not have done before the call: no session of another
backend is newer than the one that is released or asks the factory for a stream, and none was the
newest when the data transfer was opened that a copy goes to. -/
def Undisturbed (h : List Call) (c : Call) : Prop :=
  match c with
  | .releaseEp id | .createFactoryStream id => newestBackend h = (created h)[id]?
  | .canCopy id _ | .copyTensors id _ =>
    ∀ backend ∈ transferBackend (c :: h), (created h)[id]? = some backend
  | _ => True

/-! ## The invariant of the factory -/

namespace FactoryLemmas

variable {f f' : ProviderFactory} {h : List Call} {c : Call} {o : Outcome}

/-- The allocator that a handle leads to. -/
def Leads (f : ProviderFactory) : Handle → BackendAllocator → Prop
  | .session id, owner => owner = .session id
  | .wrapper, owner => ∃ backend, f.backendAllocator = some backend ∧ owner = .factory backend

structure Inv (f : ProviderFactory) (h : List Call) : Prop where
  current : f.backendEpFactory = newestBackend h
  transfer : f.backendDataTransfer = transferBackend h
  sessions : ∀ s ∈ f.sessions, (created h)[s.id]? = some s.backend
  next : f.nextSession = (created h).length
  blocks : ∀ k ∈ f.blocks, Leads f k.handle k.owner

theorem inv_init : Inv {} [] :=
  ⟨rfl, rfl, (fun _ h => nomatch h), rfl, (fun _ h => nomatch h)⟩

theorem newestBackend_isSome {id : Nat} {backend : Backend}
    (hid : (created h)[id]? = some backend) : (newestBackend h).isSome := by
  induction h generalizing id backend with
  | nil => cases hid
  | cons c h ih =>
    cases c with
    | createEp profile ok =>
      cases ok with
      | true => rfl
      | false => exact ih hid
    | _ => exact ih hid

theorem session?_spec {id : Nat} {s : Session} (hs : f.session? id = some s) :
    s ∈ f.sessions ∧ s.id = id := by
  unfold ProviderFactory.session? at hs
  exact ⟨List.mem_of_find?_eq_some hs, by simpa using List.find?_some hs⟩

theorem block?_spec {id : Nat} {k : Block} (hk : f.block? id = some k) : k ∈ f.blocks :=
  List.mem_of_find?_eq_some hk

theorem transferBackend_cons (hc : c.opensTransfer = false) :
    transferBackend (c :: h) = transferBackend h := by
  show lazyBackend (transferBackend h) (newestBackend h) c.opensTransfer = transferBackend h
  rw [hc]
  cases transferBackend h <;> rfl

/-- A live session has its backend on record, and then there is a newest backend. -/
theorem live_session (hinv : Inv f h) {id : Nat} {s : Session} (hs : f.session? id = some s) :
    (created h)[id]? = some s.backend ∧ ∃ backend, f.backendEpFactory = some backend := by
  obtain ⟨hmem, rfl⟩ := session?_spec hs
  have hcreated := hinv.sessions s hmem
  refine ⟨hcreated, Option.isSome_iff_exists.1 ?_⟩
  rw [hinv.current]
  exact newestBackend_isSome hcreated

/-- Once the wrapper has an allocator, it keeps it. -/
theorem leads_keep {backend : Backend}
    (hkeep : ∀ b, f.backendAllocator = some b → b = backend) {handle : Handle}
    {owner : BackendAllocator} (hleads : Leads f handle owner) :
    Leads { f with backendAllocator := some backend } handle owner := by
  cases handle with
  | session id => exact hleads
  | wrapper =>
    obtain ⟨b, hb, rfl⟩ := hleads
    exact ⟨backend, rfl, by rw [hkeep b hb]⟩

theorem lazyBackend_keep {kept current : Option Backend} {ok : Bool} {backend : Backend}
    (hlazy : lazyBackend kept current ok = some backend) : ∀ b, kept = some b → b = backend := by
  rintro b rfl
  exact Option.some.inj hlazy

/-- A new allocator behind the wrapper and a new block keep the invariant, if the handle of the
block leads to its owner. -/
theorem inv_addBlock (hinv : Inv f h) {handle : Handle} {owner : BackendAllocator}
    (hleads : Leads f handle owner) : Inv (f.addBlock handle owner) h := by
  refine ⟨hinv.current, hinv.transfer, hinv.sessions, hinv.next, fun k hk => ?_⟩
  rcases List.mem_cons.1 hk with rfl | hk
  · exact hleads
  · exact hinv.blocks k hk

theorem inv_setAllocator (hinv : Inv f h) {backend : Backend}
    (hkeep : ∀ b, f.backendAllocator = some b → b = backend) :
    Inv { f with backendAllocator := some backend } h :=
  ⟨hinv.current, hinv.transfer, hinv.sessions, hinv.next,
    fun k hk => leads_keep hkeep (hinv.blocks k hk)⟩

/-- A call that creates no session and opens no data transfer leaves the records as they are. -/
theorem inv_cons (hinv : Inv f h) (hcreated : created (c :: h) = created h)
    (hnewest : newestBackend (c :: h) = newestBackend h) (hopens : c.opensTransfer = false) :
    Inv f (c :: h) := by
  refine ⟨?_, ?_, ?_, ?_, hinv.blocks⟩
  · rw [hnewest, hinv.current]
  · rw [transferBackend_cons hopens, hinv.transfer]
  · rw [hcreated]
    exact hinv.sessions
  · rw [hcreated, hinv.next]

theorem wrapperAlloc_spec (hinv : Inv f h) {ok fits : Bool}
    (hstep : f.wrapperAlloc ok fits = some (f', o)) : Inv f' h ∧ o.Proper := by
  unfold ProviderFactory.wrapperAlloc at hstep
  split at hstep
  · cases hstep
  · split at hstep
    · cases hstep
      exact ⟨hinv, trivial⟩
    · next backend hlazy =>
      have hset := inv_setAllocator hinv (lazyBackend_keep hlazy)
      dsimp only at hstep
      split at hstep
      · cases hstep
        exact ⟨inv_addBlock hset ⟨backend, rfl, rfl⟩, trivial⟩
      · cases hstep
        exact ⟨hset, trivial⟩

theorem alloc_spec (hinv : Inv f h) {s : Session} {ok fits : Bool}
    (hstep : f.alloc s ok fits = some (f', o)) : Inv f' h ∧ o.Proper := by
  unfold ProviderFactory.alloc at hstep
  split at hstep
  · split at hstep
    · cases hstep
      exact ⟨inv_addBlock hinv rfl, trivial⟩
    · cases hstep
      exact ⟨hinv, trivial⟩
  · exact wrapperAlloc_spec hinv hstep

theorem inv_eraseBlock (hinv : Inv f h) (k : Block) :
    Inv { f with blocks := f.blocks.erase k } h :=
  ⟨hinv.current, hinv.transfer, hinv.sessions, hinv.next,
    fun k' hk' => hinv.blocks k' (List.mem_of_mem_erase hk')⟩

theorem free_spec (hinv : Inv f h) {k : Block} (hk : k ∈ f.blocks) {ok : Bool}
    (hstep : f.free k ok = some (f', o)) : Inv f' h ∧ o.Proper := by
  have hleads := hinv.blocks k hk
  unfold ProviderFactory.free at hstep
  split at hstep
  · next id hid =>
    cases hstep
    rw [hid] at hleads
    exact ⟨inv_eraseBlock hinv k, hleads.symm⟩
  · next hwrapper =>
    rw [hwrapper] at hleads
    obtain ⟨backend, hbackend, howner⟩ := hleads
    split at hstep
    · cases hstep
    · -- the wrapper has had its allocator since the block was allocated
      rw [hbackend] at hstep
      cases hstep
      have hset := inv_setAllocator hinv fun b hb => Option.some.inj (hb.symm.trans hbackend)
      exact ⟨inv_eraseBlock hset k, howner.symm⟩

theorem transfer_spec (hinv : Inv f h) {id : Nat} {s : Session} (hs : f.session? id = some s)
    {ok : Bool} (hc : c = .canCopy id ok ∨ c = .copyTensors id ok)
    (hstep : f.transfer s ok = (f', o)) :
    Inv f' (c :: h) ∧
      (o.Proper ↔ ∀ backend ∈ transferBackend (c :: h), (created h)[id]? = some backend) := by
  obtain ⟨hbackend, -⟩ := live_session hinv hs
  have hcreated : created (c :: h) = created h := by rcases hc with rfl | rfl <;> rfl
  have hnewest : newestBackend (c :: h) = newestBackend h := by rcases hc with rfl | rfl <;> rfl
  have htransfer : transferBackend (c :: h) =
      lazyBackend f.backendDataTransfer f.backendEpFactory ok := by
    rw [hinv.transfer, hinv.current]
    rcases hc with rfl | rfl <;> rfl
  have hrecord : ∀ s ∈ f.sessions, (created (c :: h))[s.id]? = some s.backend := by
    rw [hcreated]
    exact hinv.sessions
  rw [htransfer, hbackend]
  unfold ProviderFactory.transfer at hstep
  cases hlazy : lazyBackend f.backendDataTransfer f.backendEpFactory ok with
  | none =>
    rw [hlazy] at hstep
    cases hstep
    refine ⟨⟨hnewest ▸ hinv.current, ?_, hrecord, hcreated ▸ hinv.next, hinv.blocks⟩,
      by simp [Outcome.Proper]⟩
    rw [htransfer, hlazy]
    cases hkept : f.backendDataTransfer with
    | none => rfl
    | some b =>
      rw [hkept] at hlazy
      cases hlazy
  | some backend =>
    rw [hlazy] at hstep
    cases hstep
    refine ⟨⟨hnewest ▸ hinv.current, ?_, hrecord, hcreated ▸ hinv.next, hinv.blocks⟩, ?_⟩
    · rw [htransfer, hlazy]
    · simp [Outcome.Proper, eq_comm]

/-- What every call keeps, and when it goes where it belongs. -/
theorem step_spec (hinv : Inv f h) (hstep : f.step c = some (f', o)) :
    Inv f' (c :: h) ∧ (o.Proper ↔ Undisturbed h c) := by
  cases c with
  | createEp profile ok =>
    cases ok with
    | false =>
      cases hstep
      exact ⟨inv_cons hinv rfl rfl rfl, Iff.rfl⟩
    | true =>
      cases hstep
      refine ⟨⟨rfl, ?_, fun s hs => ?_, ?_, hinv.blocks⟩, Iff.rfl⟩
      · rw [transferBackend_cons rfl]
        exact hinv.transfer
      · show (created h ++ [profile.backend])[s.id]? = some s.backend
        rcases List.mem_cons.1 hs with rfl | hs
        · show (created h ++ [profile.backend])[f.nextSession]? = some profile.backend
          rw [hinv.next, List.getElem?_concat_length]
        · have hold := hinv.sessions s hs
          rw [List.getElem?_append_left (List.getElem?_eq_some_iff.1 hold).1, hold]
      · show f.nextSession + 1 = (created h ++ [profile.backend]).length
        rw [hinv.next, List.length_append, List.length_singleton]
  | releaseEp id =>
    obtain ⟨s, hs, hrelease⟩ := Option.map_eq_some_iff.1 hstep
    obtain ⟨hbackend, current, hcurrent⟩ := live_session hinv hs
    cases hrelease
    have herase : Inv { f with sessions := f.sessions.erase s } h :=
      ⟨hinv.current, hinv.transfer, fun s' hs' => hinv.sessions s' (List.mem_of_mem_erase hs'),
        hinv.next, hinv.blocks⟩
    refine ⟨inv_cons herase rfl rfl rfl, ?_⟩
    show _ ↔ newestBackend h = (created h)[id]?
    rw [hbackend, ← hinv.current, hcurrent, Option.some.injEq]
    exact Iff.rfl
  | alloc id ok fits =>
    obtain ⟨s, -, halloc⟩ := Option.bind_eq_some_iff.1 hstep
    obtain ⟨hinv', hproper⟩ := alloc_spec hinv halloc
    exact ⟨inv_cons hinv' rfl rfl rfl, iff_of_true hproper trivial⟩
  | free id ok =>
    obtain ⟨k, hk, hfree⟩ := Option.bind_eq_some_iff.1 hstep
    obtain ⟨hinv', hproper⟩ := free_spec hinv (block?_spec hk) hfree
    exact ⟨inv_cons hinv' rfl rfl rfl, iff_of_true hproper trivial⟩
  | canCopy id ok =>
    obtain ⟨s, hs, htransfer⟩ := Option.map_eq_some_iff.1 hstep
    exact transfer_spec hinv hs (Or.inl rfl) htransfer
  | copyTensors id ok =>
    obtain ⟨s, hs, htransfer⟩ := Option.map_eq_some_iff.1 hstep
    exact transfer_spec hinv hs (Or.inr rfl) htransfer
  | createStream id =>
    obtain ⟨s, -, hstream⟩ := Option.map_eq_some_iff.1 hstep
    cases hstream
    exact ⟨inv_cons hinv rfl rfl rfl, iff_of_true rfl trivial⟩
  | createFactoryStream id =>
    obtain ⟨s, hs, hstream⟩ := Option.map_eq_some_iff.1 hstep
    obtain ⟨hbackend, current, hcurrent⟩ := live_session hinv hs
    cases hstream
    refine ⟨inv_cons hinv rfl rfl rfl, ?_⟩
    show _ ↔ newestBackend h = (created h)[id]?
    rw [hbackend, ← hinv.current, hcurrent, Option.some.injEq]
    exact Iff.rfl

/-! ### One backend -/

theorem created_one {backend : Backend} (hall : ∀ b ∈ created h, b = backend)
    (hc : ∀ profile, c = .createEp profile true → profile.backend = backend) :
    ∀ b ∈ created (c :: h), b = backend := by
  cases c with
  | createEp profile ok =>
    cases ok with
    | false => exact hall
    | true =>
      intro b hb
      rcases List.mem_append.1 hb with hb | hb
      · exact hall b hb
      · rw [List.mem_singleton.1 hb]
        exact hc profile rfl
  | _ => exact hall

theorem newestBackend_mem {b : Backend} (hb : newestBackend h = some b) : b ∈ created h := by
  induction h with
  | nil => cases hb
  | cons c h ih =>
    cases c with
    | createEp profile ok =>
      cases ok with
      | true =>
        cases hb
        exact List.mem_append_right _ List.mem_cons_self
      | false => exact ih hb
    | _ => exact ih hb

theorem created_mono {b : Backend} (hb : b ∈ created h) : b ∈ created (c :: h) := by
  cases c with
  | createEp profile ok =>
    cases ok with
    | true => exact List.mem_append_left _ hb
    | false => exact hb
  | _ => exact hb

theorem transferBackend_mem {b : Backend} (hb : transferBackend h = some b) : b ∈ created h := by
  induction h with
  | nil => cases hb
  | cons c h ih =>
    unfold transferBackend lazyBackend at hb
    split at hb
    · next kept hkept =>
      cases hb
      exact created_mono (ih hkept)
    · split at hb
      · exact created_mono (newestBackend_mem hb)
      · cases hb

theorem undisturbed_of_one (hinv : Inv f h) {backend : Backend}
    (hall : ∀ b ∈ created h, b = backend) (hstep : f.step c = some (f', o)) :
    Undisturbed h c := by
  have hrecord : ∀ {id s}, f.session? id = some s → (created h)[id]? = some backend := by
    intro id s hs
    have hs := (live_session hinv hs).1
    rw [hs, hall s.backend (List.mem_of_getElem? hs)]
  have hnewest : ∀ {id s}, f.session? id = some s → newestBackend h = (created h)[id]? := by
    intro id s hs
    obtain ⟨b, hb⟩ := Option.isSome_iff_exists.1 (newestBackend_isSome (hrecord hs))
    rw [hrecord hs, hb, hall b (newestBackend_mem hb)]
  have htransfer : ∀ {id s ok}, c = .canCopy id ok ∨ c = .copyTensors id ok →
      f.session? id = some s → ∀ b ∈ transferBackend (c :: h), (created h)[id]? = some b := by
    intro id s ok hc hs b hb
    have hmem := transferBackend_mem hb
    have hcreated : created (c :: h) = created h := by rcases hc with rfl | rfl <;> rfl
    rw [hcreated] at hmem
    rw [hrecord hs, hall b hmem]
  cases c with
  | releaseEp id =>
    obtain ⟨s, hs, -⟩ := Option.map_eq_some_iff.1 hstep
    exact hnewest hs
  | createFactoryStream id =>
    obtain ⟨s, hs, -⟩ := Option.map_eq_some_iff.1 hstep
    exact hnewest hs
  | canCopy id ok =>
    obtain ⟨s, hs, -⟩ := Option.map_eq_some_iff.1 hstep
    exact htransfer (Or.inl rfl) hs
  | copyTensors id ok =>
    obtain ⟨s, hs, -⟩ := Option.map_eq_some_iff.1 hstep
    exact htransfer (Or.inr rfl) hs
  | _ => trivial

end FactoryLemmas

open FactoryLemmas

/-! ## Runs -/

/-- The factory with the calls it has got, the newest first. -/
def recording : Machine (ProviderFactory × List Call) Call Outcome :=
  machine.withHistory fun h _ c _ _ => c :: h

/-- All requests of a run are served by the backend of their session exactly when no call comes
after a session that disturbs it. -/
theorem requests_served_iff (calls : List Call) :
    machine.Every (fun _ _ _ o => o.Proper) {} calls ↔
      recording.Every (fun s c _ _ => Undisturbed s.2 c) ({}, []) calls := by
  rw [← Machine.every_withHistory fun h _ c _ _ => c :: h]
  refine Machine.Every.congr_of_kept (fun s => Inv s.1 s.2) ?_ inv_init calls
  rintro ⟨f, h⟩ c ⟨f', h'⟩ o hinv hstep
  obtain ⟨hcall, rfl⟩ := Machine.withHistory_step.1 hstep
  exact step_spec hinv hcall

/-- A block goes back to the backend allocator that allocated it, whatever else happens. -/
theorem freed_by_owner (calls : List Call) :
    machine.Every (fun _ c _ o => ∀ block created, c = .free block created → o.Proper) {}
      calls := by
  rw [← Machine.every_withHistory fun h _ c _ _ => c :: h]
  refine Machine.Every.of_kept (fun s => Inv s.1 s.2) ?_ inv_init calls
  rintro ⟨f, h⟩ c ⟨f', h'⟩ o hinv hstep
  obtain ⟨hcall, rfl⟩ := Machine.withHistory_step.1 hstep
  obtain ⟨hinv', hproper⟩ := step_spec hinv hcall
  refine ⟨hinv', ?_⟩
  rintro block created rfl
  exact hproper.2 trivial

/-- Sessions of one backend do not disturb each other. -/
theorem requests_served_of_one_backend (backend : Backend) (calls : List Call)
    (hone : machine.Every
      (fun _ c _ _ => ∀ profile, c = .createEp profile true → profile.backend = backend) {} calls) :
    machine.Every (fun _ _ _ o => o.Proper) {} calls := by
  rw [← Machine.every_withHistory fun h _ c _ _ => c :: h] at hone ⊢
  refine Machine.Every.of_invariant (fun s => Inv s.1 s.2 ∧ ∀ b ∈ created s.2, b = backend) ?_
    ⟨inv_init, fun _ h => nomatch h⟩ hone
  rintro ⟨f, h⟩ c ⟨f', h'⟩ o ⟨hinv, hall⟩ hstep hc
  obtain ⟨hcall, rfl⟩ := Machine.withHistory_step.1 hstep
  obtain ⟨hinv', hproper⟩ := step_spec hinv hcall
  exact ⟨⟨hinv', created_one hall hc⟩, hproper.2 (undisturbed_of_one hinv hall hcall)⟩

/-- The session of a MIGraphX profile takes over the release of the DirectML session. -/
theorem migraphx_redirects_release :
    ¬ machine.Every (fun _ _ _ o => o.Proper) {}
      [.createEp .directML true, .createEp .migraphx true, .releaseEp 0] := by
  decide

end AmdGpuEp.Amdgpu
