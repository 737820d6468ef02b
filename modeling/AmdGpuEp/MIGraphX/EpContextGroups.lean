import AmdGpuEp.MIGraphX.EpContext

/-!
# Loading a model of EPContext nodes

A model that was partitioned into several fused nodes becomes a model with as
many EPContext nodes. `GetCapability` claims all of them as one group, and
`Compile` reads one program for the group.

Results:
1. `getCapability_contexts`: the claim for a graph with EPContext nodes.
2. `contextsServed_iff`: every node is executed by its own program exactly when
   there is one node, whose program can be read.
3. `twoContexts_merged`: two nodes around a foreign one depend on each other
   through it, and the program of the second one is dropped.
-/

namespace AmdGpuEp.MIGraphX

variable {P Loc : Type*} [DecidableEq Loc]

/-- Each EPContext node of this provider is executed by its own program: a fused node has been
compiled from a graph with the node, and the reader has taken its program from the node. The fused
nodes leave an acyclic graph. `view` gives the graph of a claim to `Compile`. -/
structure ContextsServed (lib : Serializer P) (host : Host Loc) (dir : FsPath) (files : Files Loc)
    (view : List Node → List Node) (g : Graph) (claims : List Claim) : Prop where
  own : ∀ e ∈ g.nodes, isContextNode e = true → ∃ nodes, .fuse nodes ∈ claims ∧ e ∈ nodes ∧
    findContextNode none (view nodes) = some e ∧
    ∃ program, (readEpContext lib host dir files (view nodes)).1 = .ok program
  acyclic : Acyclic (Contract g.Dep (blockOf (claims.map Claim.nodes)))

namespace EpContextGroupsLemmas

variable {env : Support} {parentOp : Option String} {g : Graph} {claims : List Claim} {e : Node}

theorem getCapability_contexts (hbody : isControlFlowBody parentOp = false)
    (hctx : g.nodes.filter isContextNode ≠ []) :
    getCapability env parentOp g = some (.ok [.fuse (g.nodes.filter isContextNode)]) := by
  have hnil : g.nodes ≠ [] := fun h => hctx (by simp [h])
  rw [getCapability, if_neg hnil, if_neg (by simp [hbody])]
  simp only [if_pos hctx]

theorem findContextNode_singleton (h : isContextNode e = true) :
    findContextNode none [e] = some e := by
  rw [isContextNode, Bool.and_eq_true, beq_iff_eq] at h
  obtain ⟨hop, hsource⟩ := h
  rw [findContextNode, if_neg (not_not.2 hop), contextSource]
  cases hlookup : e.attributes.lookup "source" with
  | none => rfl
  | some v =>
    rw [hlookup] at hsource
    cases v with
    | string source => simp [beq_iff_eq.1 hsource]
    | _ => rfl

/-- A group of one node leaves an acyclic graph as it is. -/
theorem acyclic_singleton (h : Acyclic g.Dep) (e : Node) :
    Acyclic (Contract g.Dep (blockOf [[e]])) := by
  refine (acyclic_contract_iff_of_exits h (List.pairwise_singleton ..)).2 ?_
  intro s hs a ha b hab _ hback
  obtain rfl := List.mem_singleton.1 hs
  obtain rfl := List.mem_singleton.1 ha
  obtain ⟨k, hk, hpath⟩ := reflTransGen_contract_iff.1 hback
  obtain rfl := List.mem_singleton.1 hk
  exact h k (.head' hab hpath)

end EpContextGroupsLemmas

open EpContextGroupsLemmas

theorem contextsServed_iff (lib : Serializer P) (host : Host Loc) (dir : FsPath)
    (files : Files Loc) (view : List Node → List Node) (hview : ∀ nodes, (view nodes).Perm nodes)
    (env : Support) (parentOp : Option String) (hbody : isControlFlowBody parentOp = false)
    {g : Graph} (hacyclic : Acyclic g.Dep) (hctx : g.nodes.filter isContextNode ≠ []) :
    ∃ claims, getCapability env parentOp g = some (.ok claims) ∧
      (ContextsServed lib host dir files view g claims ↔
        ∃ e, g.nodes.filter isContextNode = [e] ∧
          ∃ program, (readEpContext lib host dir files [e]).1 = .ok program) := by
  refine ⟨_, getCapability_contexts hbody hctx, ?_⟩
  have hsingle : ∀ e, view [e] = [e] := fun e => List.perm_singleton.1 (hview [e])
  constructor
  · rintro ⟨hown, -⟩
    have hserved : ∀ e ∈ g.nodes.filter isContextNode,
        findContextNode none (view (g.nodes.filter isContextNode)) = some e ∧
          ∃ program,
            (readEpContext lib host dir files (view (g.nodes.filter isContextNode))).1 =
              .ok program := by
      intro e he
      obtain ⟨hmem, hcontext⟩ := List.mem_filter.1 he
      obtain ⟨nodes, hclaim, -, hfind, hread⟩ := hown e hmem hcontext
      obtain rfl : nodes = g.nodes.filter isContextNode := by simpa using hclaim
      exact ⟨hfind, hread⟩
    -- the reader takes one node of the group, so there is no other one
    obtain ⟨e, he⟩ := List.exists_mem_of_ne_nil _ hctx
    have honly : ∀ e' ∈ g.nodes.filter isContextNode, e' = e := by
      intro e' he'
      exact Option.some.inj ((hserved e' he').1.symm.trans (hserved e he).1)
    have hlist : g.nodes.filter isContextNode = [e] := by
      have hreplicate := List.eq_replicate_of_mem honly
      have hnodup := g.nodes_nodup.filter isContextNode
      rw [hreplicate, List.nodup_replicate] at hnodup
      have hpos := List.length_pos_of_mem he
      rw [hreplicate, show (g.nodes.filter isContextNode).length = 1 by omega]
      rfl
    refine ⟨e, hlist, ?_⟩
    have hread := (hserved e he).2
    rwa [hlist, hsingle] at hread
  · rintro ⟨e, hlist, hread⟩
    have he : e ∈ g.nodes.filter isContextNode := by rw [hlist]; exact List.mem_singleton_self e
    refine ⟨fun e' hmem hcontext => ?_, ?_⟩
    · have he' : e' ∈ g.nodes.filter isContextNode := List.mem_filter.2 ⟨hmem, hcontext⟩
      rw [hlist, List.mem_singleton] at he'
      subst he'
      refine ⟨[e'], by simp [hlist], List.mem_singleton_self e', ?_⟩
      rw [hsingle]
      exact ⟨findContextNode_singleton hcontext, hread⟩
    · rw [hlist]
      exact acyclic_singleton hacyclic e

/-! ### One context, and two around a foreign node -/

/-- An embedded context for a subgraph with one input and one output. -/
def embeddedContext (id : Nat) (input output payload : String) : Node :=
  { epContextNode plainHost { contextEnable := true, contextEmbedMode := true }
      { staticSubgraph with nodeInputs := [{ name := input }], nodeOutputs := [output] }
      payload with id }

/-- A provider that knows no operator. -/
def noSupport : Support where
  operators := []
  isTypeSupported := fun _ => true
  isUnsupportedOpMode := fun _ _ => false

def oneContext : Graph :=
  Graph.ofNodes
    [embeddedContext 0 "x" "a" "1",
     { id := 1, opType := "Softmax", inputs := [some "a"], outputs := [some "b"] }]
    ["x"] ["b"] (by decide) (by decide) (by decide) (by decide)

theorem oneContext_served :
    ∃ claims, getCapability noSupport none oneContext = some (.ok claims) ∧
      ContextsServed digitSerializer plainHost {} (fun _ => none) id oneContext claims := by
  obtain ⟨claims, hclaims, hiff⟩ := contextsServed_iff digitSerializer plainHost {}
    (fun _ => none) id (fun _ => .refl _) noSupport none rfl (g := oneContext)
    (Graph.acyclic_of_ids (by decide)) (by decide)
  exact ⟨claims, hclaims, hiff.2 ⟨oneContext.nodes[0], by decide, true, by decide +kernel⟩⟩

/-- The node in the middle is no node of this provider. -/
def twoContexts : Graph :=
  Graph.ofNodes
    [embeddedContext 0 "x" "a" "1",
     { id := 1, opType := "Softmax", inputs := [some "a"], outputs := [some "b"] },
     embeddedContext 2 "b" "y" "0"]
    ["x"] ["y"] (by decide) (by decide) (by decide) (by decide)

theorem twoContexts_merged :
    Acyclic twoContexts.Dep ∧
      (readEpContext digitSerializer plainHost {} (fun _ => none)
        [twoContexts.nodes[0]]).1.toOption = some true ∧
      (readEpContext digitSerializer plainHost {} (fun _ => none)
        [twoContexts.nodes[2]]).1.toOption = some false ∧
      ∃ claims, getCapability noSupport none twoContexts = some (.ok claims) ∧
        ¬ ContextsServed digitSerializer plainHost {} (fun _ => none) id twoContexts claims ∧
        ¬ Acyclic (Contract twoContexts.Dep (blockOf (claims.map Claim.nodes))) := by
  refine ⟨Graph.acyclic_of_ids (by decide), by decide +kernel, by decide +kernel,
    [.fuse [twoContexts.nodes[0], twoContexts.nodes[2]]], by decide +kernel, ?_, fun h => ?_⟩
  · rintro ⟨hown, -⟩
    obtain ⟨nodes, hclaim, -, hfind, -⟩ := hown twoContexts.nodes[2] (by decide) (by decide)
    obtain rfl : nodes = [twoContexts.nodes[0], twoContexts.nodes[2]] := by simpa using hclaim
    exact absurd hfind (by decide +kernel)
  · have hforth : twoContexts.Dep twoContexts.nodes[0] twoContexts.nodes[1] := by decide
    have hback : twoContexts.Dep twoContexts.nodes[1] twoContexts.nodes[2] := by decide
    refine h [twoContexts.nodes[1]] (.tail (.single ⟨?_, _, _, ?_, rfl, hback⟩)
      ⟨?_, _, _, ?_, ?_, hforth⟩)
    all_goals decide

end AmdGpuEp.MIGraphX
