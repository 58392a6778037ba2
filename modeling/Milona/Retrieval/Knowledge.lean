import Milona.Core.Traits
import Milona.Foundation.Congruence

/-!
# Retrieval

`Knowledge` is the one retrieval entry point: it asks the policy, searches the
vector store, and for each match asks the graph store for the edges around the
chunk.  A failed search fails the retrieval; a failed traversal only leaves its
item without edges.
-/

namespace Milona.Retrieval

open Milona.Core Milona.Foundation

structure RetrievedItem where
  chunkId : ChunkId
  score : Float32
  relatedEdges : List GraphEdge
  deriving DecidableEq

def RetrievedItem.toMatch (item : RetrievedItem) : VectorMatch :=
  ⟨item.chunkId, item.score⟩

structure Knowledge (σ : Type) where
  vectorStore : VectorStore σ
  graphStore : GraphStore σ
  policy : AuthzPolicy
  graphTraversalDepth : Nat

def chunkIdAsNode (chunkId : ChunkId) : String := chunkId.debug

namespace Knowledge

variable {σ : Type}

def new (vectorStore : VectorStore σ) (graphStore : GraphStore σ)
    (policy : AuthzPolicy) : Knowledge σ :=
  ⟨vectorStore, graphStore, policy, 2⟩

def withGraphTraversalDepth (knowledge : Knowledge σ) (depth : Nat) :
    Knowledge σ :=
  { knowledge with graphTraversalDepth := depth }

def denied (ctx : TenantContext) : CoreError :=
  .unauthorized ("tenant " ++ ctx.tenantId.display ++ " (role " ++
    ctx.role.debug ++ ") is not permitted to read its own knowledge scope")

/-- The edges around one chunk; a failed traversal counts as none. -/
def relatedEdges (knowledge : Knowledge σ) (ctx : TenantContext)
    (chunkId : ChunkId) : Action σ (List GraphEdge) :=
  if knowledge.graphStore.supportsTraversal then do
    match ← knowledge.graphStore.traverse ctx (chunkIdAsNode chunkId)
        knowledge.graphTraversalDepth with
    | .ok edges => return edges
    | .error _ => return []
  else return []

def collectItems (knowledge : Knowledge σ) (ctx : TenantContext) :
    List VectorMatch → Action σ (List RetrievedItem)
  | [] => return []
  | found :: rest => do
      let edges ← knowledge.relatedEdges ctx found.chunkId
      let items ← knowledge.collectItems ctx rest
      return ⟨found.chunkId, found.score, edges⟩ :: items

def retrieve (knowledge : Knowledge σ) (ctx : TenantContext)
    (queryEmbedding : List Float32) (topK : Nat) :
    Action σ (Result (List RetrievedItem)) :=
  if !knowledge.policy.canRead ctx ctx.tenantId then
    return .error (denied ctx)
  else do
    match ← knowledge.vectorStore.search ctx queryEmbedding topK with
    | .error e => return .error e
    | .ok matches_ => return .ok (← knowledge.collectItems ctx matches_)

theorem retrieve_of_permitted {knowledge : Knowledge σ} {ctx : TenantContext}
    (h : knowledge.policy.canRead ctx ctx.tenantId = true)
    (query : List Float32) (topK : Nat) (s : σ) :
    knowledge.retrieve ctx query topK s =
      match knowledge.vectorStore.search ctx query topK s with
      | (.returned (.error e), s') => (.returned (.error e), s')
      | (.returned (.ok found), s') =>
          match knowledge.collectItems ctx found s' with
          | (.returned items, s'') => (.returned (.ok items), s'')
          | (.panicked, s'') => (.panicked, s'')
      | (.panicked, s') => (.panicked, s') := by
  rw [retrieve, h, Bool.not_true, if_neg Bool.false_ne_true, Action.bind_apply]
  rcases knowledge.vectorStore.search ctx query topK s with
    ⟨(e | found) | _, s'⟩
  · rfl
  · dsimp only
    rw [Action.bind_apply]
    rcases knowledge.collectItems ctx found s' with ⟨items | _, s''⟩ <;> rfl
  · rfl

/-! ## One retrieval over two states -/

variable {τ : Type}

/-- Facades whose stores answer alike and that agree on the rest. -/
structure Counterpart (R : ∀ α : Type, Action σ α → Action τ α → Prop)
    (knowledge : Knowledge σ) (knowledge' : Knowledge τ) : Prop where
  search : ∀ ctx query topK,
    R _ (knowledge.vectorStore.search ctx query topK)
      (knowledge'.vectorStore.search ctx query topK)
  traverse : ∀ ctx startNode maxDepth,
    R _ (knowledge.graphStore.traverse ctx startNode maxDepth)
      (knowledge'.graphStore.traverse ctx startNode maxDepth)
  supportsTraversal : knowledge'.graphStore.supportsTraversal =
    knowledge.graphStore.supportsTraversal
  policy : knowledge'.policy = knowledge.policy
  graphTraversalDepth :
    knowledge'.graphTraversalDepth = knowledge.graphTraversalDepth

namespace Counterpart

variable {R : ∀ α : Type, Action σ α → Action τ α → Prop}
variable {knowledge : Knowledge σ} {knowledge' : Knowledge τ}

theorem relatedEdges (h : Counterpart R knowledge knowledge')
    (hR : Action.Congruence R) (ctx : TenantContext) (chunkId : ChunkId) :
    R _ (knowledge.relatedEdges ctx chunkId)
      (knowledge'.relatedEdges ctx chunkId) := by
  unfold Knowledge.relatedEdges
  rw [h.supportsTraversal, h.graphTraversalDepth]
  split
  · apply hR.bind (h.traverse _ _ _)
    intro result
    cases result <;> exact hR.pure _
  · exact hR.pure _

theorem collectItems (h : Counterpart R knowledge knowledge')
    (hR : Action.Congruence R) (ctx : TenantContext)
    (matches_ : List VectorMatch) :
    R _ (knowledge.collectItems ctx matches_)
      (knowledge'.collectItems ctx matches_) := by
  induction matches_ with
  | nil => exact hR.pure _
  | cons found rest ih =>
      apply hR.bind (h.relatedEdges hR ctx found.chunkId)
      intro edges
      apply hR.bind ih
      intro items
      exact hR.pure _

/-- A retrieval that asks related stores is related. -/
theorem retrieve (h : Counterpart R knowledge knowledge')
    (hR : Action.Congruence R) (ctx : TenantContext) (query : List Float32)
    (topK : Nat) :
    R _ (knowledge.retrieve ctx query topK)
      (knowledge'.retrieve ctx query topK) := by
  unfold Knowledge.retrieve
  rw [h.policy]
  split
  · exact hR.pure _
  · apply hR.bind (h.search ctx query topK)
    intro result
    cases result with
    | error e => exact hR.pure _
    | ok matches_ =>
        apply hR.bind (h.collectItems hR ctx matches_)
        intro items
        exact hR.pure _

end Counterpart

def zoom (lens : Lens τ σ) (knowledge : Knowledge σ) : Knowledge τ where
  vectorStore := knowledge.vectorStore.zoom lens
  graphStore := knowledge.graphStore.zoom lens
  policy := knowledge.policy
  graphTraversalDepth := knowledge.graphTraversalDepth

theorem counterpart_zoom (lens : Lens τ σ) (knowledge : Knowledge σ) :
    Counterpart (fun _ x y => y = Action.zoom lens x) knowledge
      (knowledge.zoom lens) where
  search _ _ _ := rfl
  traverse _ _ _ := rfl
  supportsTraversal := rfl
  policy := rfl
  graphTraversalDepth := rfl

theorem retrieve_zoom (lens : Lens τ σ) (knowledge : Knowledge σ)
    (ctx : TenantContext) (query : List Float32) (topK : Nat) :
    (knowledge.zoom lens).retrieve ctx query topK =
      Action.zoom lens (knowledge.retrieve ctx query topK) :=
  (knowledge.counterpart_zoom lens).retrieve (Action.congruence_zoom lens) ctx
    query topK

/-! ## One item for each match -/

/-- The loop keeps the matches and their order, whatever the graph store does. -/
theorem collectItems_matches (knowledge : Knowledge σ) (ctx : TenantContext)
    {matches_ : List VectorMatch} {items : List RetrievedItem} {s s' : σ}
    (h : knowledge.collectItems ctx matches_ s = (.returned items, s')) :
    items.map RetrievedItem.toMatch = matches_ := by
  induction matches_ generalizing items s s' with
  | nil =>
      cases h
      rfl
  | cons found rest ih =>
      obtain ⟨edges, s₁, -, h⟩ := Action.returned_bind h
      obtain ⟨tail, s₂, hrest, h⟩ := Action.returned_bind h
      cases h
      simp [RetrievedItem.toMatch, ih hrest]

theorem retrieve_of_found {knowledge : Knowledge σ} {ctx : TenantContext}
    {query : List Float32} {topK : Nat} {s s₁ s₂ : σ}
    {found : List VectorMatch} {items : List RetrievedItem}
    (hread : knowledge.policy.canRead ctx ctx.tenantId = true)
    (hsearch : knowledge.vectorStore.search ctx query topK s =
      (.returned (.ok found), s₁))
    (hitems : knowledge.collectItems ctx found s₁ = (.returned items, s₂)) :
    knowledge.retrieve ctx query topK s = (.returned (.ok items), s₂) := by
  rw [retrieve, hread]
  exact (Action.bind_of_returned hsearch).trans (Action.bind_of_returned hitems)

/-- A retrieval that returns items made one for each match of its search. -/
theorem search_of_retrieve {knowledge : Knowledge σ}
    {ctx : TenantContext} {query : List Float32} {topK : Nat} {s : σ}
    {items : List RetrievedItem}
    (h : (knowledge.retrieve ctx query topK s).1 = .returned (.ok items)) :
    (knowledge.vectorStore.search ctx query topK s).1 =
      .returned (.ok (items.map RetrievedItem.toMatch)) := by
  obtain ⟨s₂, hretrieve⟩ := Action.exists_of_outcome h
  rw [retrieve] at hretrieve
  split at hretrieve
  · cases hretrieve
  · obtain ⟨result, s₁, hsearch, hrest⟩ := Action.returned_bind hretrieve
    cases result with
    | error e => cases hrest
    | ok found =>
        obtain ⟨items', s₃, hitems, hreturn⟩ := Action.returned_bind hrest
        cases hreturn
        rw [collectItems_matches knowledge ctx hitems, hsearch]

end Knowledge

end Milona.Retrieval
