import Milona.Retrieval.GraphFailures
import Milona.Storage.GraphAgreement
import Milona.Storage.VectorRefinement

/-!
# Retrieval over the MongoDB stores

The vector documents and the edge documents are two collections, written by any
callers; writes run before a retrieval and between its traversals, and each may
fail.  A retrieval whose search is answered returns live chunks of the caller,
and around each chunk the edges that the tenant had when that chunk's traversal
ran.
-/

namespace Milona.Retrieval

open Milona.Core Milona.Foundation
open Milona.Storage Milona.Storage.Memory Milona.Storage.Mongo
open MongoGraphStore (lookupStage pipeline seedDocument)

/-! ## Loops that keep an invariant -/

/-- The `n`-th traversal starts in a state of `I n` and keeps what `P n` says. -/
theorem collectItems_of_step {σ : Type} {knowledge : Knowledge σ}
    {ctx : TenantContext} {I : Nat → σ → Prop}
    {P : Nat → ChunkId → List GraphEdge → Prop}
    (hstep : ∀ n s chunkId, I n s → ∃ edges s',
      knowledge.relatedEdges ctx chunkId s = (.returned edges, s') ∧
      P n chunkId edges ∧ I (n + 1) s')
    (found : List VectorMatch) {n : Nat} {s : σ} (h : I n s) :
    ∃ items s', knowledge.collectItems ctx found s = (.returned items, s') ∧
      (∀ i item, items[i]? = some item →
        P (n + i) item.chunkId item.relatedEdges) ∧
      I (n + found.length) s' := by
  induction found generalizing n s with
  | nil => exact ⟨[], s, rfl, fun i item hitem => by simp at hitem, h⟩
  | cons first rest ih =>
      obtain ⟨edges, s₁, hrelated, hedges, hafter⟩ := hstep n s first.chunkId h
      obtain ⟨items, s₂, hcollect, hitems, hlast⟩ := ih hafter
      have hshift : ∀ i, n + 1 + i = n + (i + 1) := by omega
      refine ⟨⟨first.chunkId, first.score, edges⟩ :: items, s₂, ?_, ?_, ?_⟩
      · rw [Knowledge.collectItems, Action.bind_of_returned hrelated,
          Action.bind_of_returned hcollect]
        rfl
      · intro i item hitem
        cases i with
        | zero =>
            cases hitem
            exact hedges
        | succ i =>
            rw [← hshift]
            exact hitems i item hitem
      · rwa [hshift] at hlast

/-! ## Calls on the two collections -/

open Classical in
/-- The documented behaviour of the two commands where they succeed. -/
structure Sound (server : MongoServer) : Prop where
  insertOne : ∀ doc docs docs', server.insertOne doc docs = .ok docs' →
    docs'.Perm (doc :: docs)
  answered : ∀ tenantId startNode maxDepth docs found,
    0 ≤ (lookupStage tenantId maxDepth).maxDepth →
      server.aggregate (pipeline tenantId startNode maxDepth) docs = .ok found →
        ∃ starts,
          (lookupStage tenantId maxDepth).starts server.systemVariable
            (seedDocument startNode) = some starts ∧
          found.Perm (docs.filter fun doc =>
            (lookupStage tenantId maxDepth).Selects starts docs doc)

theorem Sound.of_documented {server : MongoServer} (h : server.Documented) :
    Sound server where
  insertOne doc docs docs' hinsert := by
    obtain ⟨docs'', hok, hperm⟩ := h.insertOne doc docs
    cases hok.symm.trans hinsert
    exact hperm
  answered tenantId startNode maxDepth docs found hdepth hfound := by
    cases hstarts : (lookupStage tenantId maxDepth).starts server.systemVariable
        (seedDocument startNode) with
    | none =>
        obtain ⟨e, he⟩ := h.refused tenantId startNode maxDepth docs hstarts
        cases he.symm.trans hfound
    | some starts =>
        obtain ⟨found', hok, hperm⟩ :=
          h.answered tenantId startNode maxDepth docs starts hdepth hstarts
        cases hok.symm.trans hfound
        exact ⟨starts, rfl, hperm⟩

abbrev MongoStores : Type := VectorCollection × List EdgeDocument

structure MongoBackends where
  vector : MongoVectorStore
  graph : MongoGraphStore

/-- An `addEdge` meets the database as it is then, which may fail. -/
inductive MongoCall where
  | vector (call : MongoVectorCall)
  | addEdge (server : MongoServer) (sound : Sound server) (ctx : TenantContext)
      (edge : GraphEdge)

namespace MongoCall

def next (stores : MongoBackends) (s : MongoStores) : MongoCall → MongoStores
  | .vector call => (MongoVectorCall.next stores.vector s.1 call, s.2)
  | .addEdge server _ ctx edge =>
      (s.1, (MongoGraphStore.addEdge ⟨server, stores.graph.backend⟩
        ctx edge s.2).2)

def after (stores : MongoBackends) (calls : List MongoCall) (s : MongoStores) :
    MongoStores :=
  calls.foldl (next stores) s

theorem after_append (stores : MongoBackends) (calls later : List MongoCall)
    (s : MongoStores) :
    after stores (calls ++ later) s = after stores later (after stores calls s) :=
  List.foldl_append

def vectorCall? : MongoCall → Option MongoVectorCall
  | .vector call => some call
  | .addEdge .. => none

/-- The edge of a call that succeeds. -/
def added (stores : MongoBackends) (s : MongoStores) : MongoCall → List EdgeCall
  | .vector _ => []
  | .addEdge server _ ctx edge =>
      match (MongoGraphStore.addEdge
        ⟨server, stores.graph.backend⟩ ctx edge s.2).1 with
      | .returned (.ok ()) => [⟨ctx, edge⟩]
      | .returned (.error _) | .panicked => []

def acknowledgedEdges (stores : MongoBackends) :
    MongoStores → List MongoCall → List EdgeCall
  | _, [] => []
  | s, call :: calls =>
      call.added stores s ++ acknowledgedEdges stores (next stores s call) calls

private theorem after_fst (stores : MongoBackends) (calls : List MongoCall)
    (s : MongoStores) :
    (after stores calls s).1 =
      (calls.filterMap vectorCall?).foldl (MongoVectorCall.next stores.vector)
        s.1 := by
  induction calls generalizing s with
  | nil => rfl
  | cons call calls ih =>
      refine (ih (next stores s call)).trans ?_
      cases call <;> rfl

/-- The writes of the vector store that were acknowledged, from empty collections on. -/
def acknowledgedWrites (stores : MongoBackends) (calls : List MongoCall) :
    List VectorWrite :=
  acknowledged stores.vector Collection.empty (calls.filterMap vectorCall?)

/-- Run lemma: the vector documents are those of the acknowledged writes. -/
theorem corresponds_after (stores : MongoBackends) (calls : List MongoCall) :
    Corresponds (VectorWrite.records (acknowledgedWrites stores calls))
      (after stores calls (Collection.empty, [])).1 := by
  rw [after_fst]
  exact (refines_run stores.vector corresponds_empty
    (calls.filterMap vectorCall?)).1

private theorem next_snd_perm (stores : MongoBackends) (s : MongoStores)
    (call : MongoCall) :
    (next stores s call).2.Perm
      (s.2 ++ (call.added stores s).map edgeDocument) := by
  cases call with
  | vector call => simp [next, added]
  | addEdge server sound ctx edge =>
      simp only [next, added, MongoGraphStore.addEdge]
      split
      next docs' hinsert =>
        refine (sound.insertOne _ _ _ hinsert).trans ?_
        exact (List.perm_append_singleton _ _).symm
      next e hinsert => simp

/-- Run lemma: the edge documents are those of the acknowledged edges. -/
theorem after_snd_perm (stores : MongoBackends) (calls : List MongoCall)
    (s : MongoStores) :
    (after stores calls s).2.Perm
      (s.2 ++ (acknowledgedEdges stores s calls).map edgeDocument) := by
  induction calls generalizing s with
  | nil => simp [after, acknowledgedEdges]
  | cons call calls ih =>
      refine (ih (next stores s call)).trans ?_
      rw [acknowledgedEdges, List.map_append, ← List.append_assoc]
      exact (next_snd_perm stores s call).append_right _

end MongoCall

/-! ## Interrupted retrievals -/

abbrev ScheduledMongo : Type := MongoStores × List (List MongoCall)

namespace MongoBackends

variable (stores : MongoBackends)

def runBatch : Action ScheduledMongo Unit :=
  Action.modify fun (s, schedule) =>
    (MongoCall.after stores (schedule.headD []) s, schedule.tail)

def vectorLens : Lens ScheduledMongo VectorCollection where
  view s := s.1.1
  put part s := ((part, s.1.2), s.2)
  view_put _ _ := rfl
  put_view _ := rfl
  put_put _ _ _ := rfl

def graphLens : Lens ScheduledMongo (List EdgeDocument) where
  view s := s.1.2
  put part s := ((s.1.1, part), s.2)
  view_put _ _ := rfl
  put_view _ := rfl
  put_put _ _ _ := rfl

/-- The facade over the two stores, with a batch of calls before each traversal. -/
def knowledge (link : Link) (depth : Nat) : Knowledge ScheduledMongo where
  vectorStore := (stores.vector.vectorStore link).zoom vectorLens
  graphStore :=
    { stores.graph.graphStore.zoom graphLens with
      traverse := fun ctx startNode maxDepth => do
        stores.runBatch
        (stores.graph.graphStore.zoom graphLens).traverse ctx startNode maxDepth }
  policy := sameTenantPolicy
  graphTraversalDepth := depth

/-- The calls before the traversal that `n` others precede. -/
def callsBefore (schedule : List (List MongoCall)) (n : Nat) : List MongoCall :=
  (schedule.take (n + 1)).flatten

/-- The edges around a chunk, traversed after the given calls from empty stores. -/
inductive Enriched (ctx : TenantContext) (depth : Nat) (calls : List MongoCall)
    (chunkId : ChunkId) (edges : List GraphEdge) : Prop where
  | walked : edges.Perm (reachedEdges ctx.tenantId
        (MongoCall.acknowledgedEdges stores (Collection.empty, []) calls)
        (chunkIdAsNode chunkId) (max depth 1)) →
      Enriched ctx depth calls chunkId edges
  | failed (e : String) : stores.graph.server.aggregate
        (pipeline ctx.tenantId (chunkIdAsNode chunkId) depth)
        (MongoCall.after stores calls (Collection.empty, [])).2 = .error e →
      edges = [] → Enriched ctx depth calls chunkId edges
  | unsupported : stores.graph.backend = .documentDb → edges = [] →
      Enriched ctx depth calls chunkId edges

variable {stores : MongoBackends}

/-- The node of a chunk is plain text to the database. -/
theorem startsOf_chunkIdAsNode (server : MongoServer) (chunkId : ChunkId) :
    server.startsOf (chunkIdAsNode chunkId) = some [chunkIdAsNode chunkId] := by
  refine MongoServer.startsOf_eq_some_iff.mpr (.inl ⟨?_, rfl⟩)
  simp [chunkIdAsNode, ChunkId.debug]

theorem traverse_cases (hserver : Sound stores.graph.server)
    (ctx : TenantContext) (chunkId : ChunkId) {depth : Nat}
    (hdepth : depth < 2 ^ 63) (calls : List MongoCall) :
    ∃ result, stores.graph.traverse ctx (chunkIdAsNode chunkId) depth
        (MongoCall.after stores calls (Collection.empty, [])).2 =
          (.returned result, (MongoCall.after stores calls
              (Collection.empty, [])).2) ∧
      stores.Enriched ctx depth calls chunkId (edgesOf result) := by
  have hdocs := MongoCall.after_snd_perm stores calls (Collection.empty, [])
  generalize hs : MongoCall.after stores calls (Collection.empty, []) =
    s at hdocs ⊢
  unfold MongoGraphStore.traverse
  split
  next hunsupported =>
    refine ⟨_, rfl, .unsupported ?_ rfl⟩
    cases hbackend : stores.graph.backend with
    | atlas => simp [hbackend, MongoBackend.supportsGraphTraversal] at hunsupported
    | documentDb => rfl
  next =>
    split
    next found hlookup =>
      refine ⟨_, rfl, .walked ?_⟩
      obtain ⟨starts, hstarts, hperm⟩ := hserver.answered _ _ _ _ _
        (by rw [MongoGraphStore.maxDepth_lookupStage _ hdepth]; omega) hlookup
      rw [starts_lookupStage, startsOf_chunkIdAsNode] at hstarts
      cases hstarts
      have hedges : (MongoGraphStore.edgesOf ctx.tenantId s.2).Perm
        (addedBy ctx.tenantId
          (MongoCall.acknowledgedEdges stores (Collection.empty, []) calls)) := by
        rw [← mongo_edgesOf]
        exact (hdocs.filter _).map _
      refine (hperm.map EdgeDocument.toEdge).trans ?_
      rw [MongoGraphStore.map_toEdge_selected ctx.tenantId _ hdepth,
        ← reachedFrom_singleton]
      exact reachedFrom_perm hedges _ _
    next e hlookup => exact ⟨_, rfl, .failed e (by rw [hs, hlookup]) rfl⟩

/-- The edges around a chunk come from its traversal, if the graph store has one. -/
theorem relatedEdges_of_traverse {σ : Type} {knowledge : Knowledge σ}
    {ctx : TenantContext} {calls : List MongoCall} {chunkId : ChunkId} {s : σ}
    {J : σ → Prop}
    (hsupports : knowledge.graphStore.supportsTraversal =
      stores.graph.backend.supportsGraphTraversal)
    (hdocumentDb : stores.graph.backend = .documentDb → J s)
    (hatlas : stores.graph.backend = .atlas → ∃ result s',
      knowledge.graphStore.traverse ctx (chunkIdAsNode chunkId)
      knowledge.graphTraversalDepth s = (.returned result, s') ∧
      stores.Enriched ctx knowledge.graphTraversalDepth calls chunkId
      (edgesOf result) ∧ J s') :
    ∃ edges s', knowledge.relatedEdges ctx chunkId s = (.returned edges, s') ∧
      stores.Enriched ctx knowledge.graphTraversalDepth calls chunkId edges ∧
      J s' := by
  cases hbackend : stores.graph.backend with
  | documentDb =>
      rw [hbackend, MongoBackend.supportsGraphTraversal] at hsupports
      refine ⟨[], s, ?_, .unsupported hbackend rfl, hdocumentDb hbackend⟩
      rw [Knowledge.relatedEdges, hsupports]
      rfl
  | atlas =>
      rw [hbackend, MongoBackend.supportsGraphTraversal] at hsupports
      obtain ⟨result, s', htraverse, henriched, hafter⟩ := hatlas hbackend
      refine ⟨edgesOf result, s', ?_, henriched, hafter⟩
      rw [Knowledge.relatedEdges, hsupports, if_pos rfl]
      refine (Action.bind_of_returned htraverse).trans ?_
      cases result <;> rfl

private theorem callsBefore_eq (schedule : List (List MongoCall)) (n : Nat) :
    callsBefore schedule n =
      (schedule.take n).flatten ++ (schedule.drop n).headD [] := by
  rw [callsBefore, List.take_add_one, List.flatten_append,
    List.headD_eq_head?_getD,
    List.head?_drop]
  cases schedule[n]? <;> simp

/-- The loop before its `n`-th traversal; without support no batch is run. -/
def Before (stores : MongoBackends) (history : List MongoCall)
    (schedule : List (List MongoCall)) (n : Nat) (s : ScheduledMongo) : Prop :=
  stores.graph.backend = .documentDb ∨
    s = (MongoCall.after stores (history ++ (schedule.take n).flatten)
      (Collection.empty, []), schedule.drop n)

private theorem relatedEdges_of_before (hserver : Sound stores.graph.server)
    (link : Link) (ctx : TenantContext) {depth : Nat} (hdepth : depth < 2 ^ 63)
    (history : List MongoCall) (schedule : List (List MongoCall)) (n : Nat)
    (s : ScheduledMongo) (chunkId : ChunkId)
    (h : Before stores history schedule n s) :
    ∃ edges s', (stores.knowledge link depth).relatedEdges ctx chunkId s =
        (.returned edges, s') ∧
      stores.Enriched ctx depth (history ++ callsBefore schedule n) chunkId edges ∧
      Before stores history schedule (n + 1) s' := by
  refine @relatedEdges_of_traverse stores _ (stores.knowledge link depth)
      ctx _ chunkId s
    (Before stores history schedule (n + 1)) rfl .inl fun hatlas => ?_
  obtain hdocumentDb | rfl := h
  · cases hatlas.symm.trans hdocumentDb
  obtain ⟨result, htraverse, henriched⟩ :=
    traverse_cases hserver ctx chunkId hdepth
    (history ++ callsBefore schedule n)
  have hbatch : stores.runBatch
      (MongoCall.after stores (history ++ (schedule.take n).flatten)
        (Collection.empty, []), schedule.drop n) =
      (.returned (), (MongoCall.after stores (history ++ callsBefore schedule n)
        (Collection.empty, []), schedule.drop (n + 1))) := by
    rw [callsBefore_eq, ← List.append_assoc,
      MongoCall.after_append stores (history ++ (schedule.take n).flatten),
        ← List.tail_drop]
    rfl
  refine ⟨result, _, ?_, henriched, .inr rfl⟩
  exact (Action.bind_of_returned hbatch).trans
    (@Action.zoom_of_unchanged _ _ _ graphLens _ _ _ htraverse)

end MongoBackends

/-! ## What a retrieval returns -/

/--
If the database answers the search of a retrieval, the retrieval returns
distinct live chunks of the caller, as of the search, and around each chunk the
tenant's edges near it, as of its own traversal, or none if that traversal
fails; whatever was called before and runs in between.
-/
theorem mongo_retrieve_current {stores : MongoBackends}
    (hatlas : stores.vector.backend = .atlas)
    (hvector : Selective stores.vector.server)
    (hgraph : Sound stores.graph.server) (history : List MongoCall)
    (schedule : List (List MongoCall)) (link : Link) (ctx : TenantContext)
    (query : List Float32) (topK : Nat) {depth : Nat} (hdepth : depth < 2 ^ 63)
    {rows : List (Except String ScoredRow)}
    (hrows : stores.vector.server.vectorSearch
        (stores.vector.searchStage ctx query topK)
        (MongoCall.after stores history (Collection.empty, [])).1 =
      .ok rows) :
    let start := MongoCall.after stores history (Collection.empty, [])
    let writes := MongoCall.acknowledgedWrites stores history
    ∃ items, ((stores.knowledge link depth).retrieve ctx query topK
        (start, schedule)).1 =
        .returned (.ok items) ∧
      ListsLive writes ctx.tenantId
        (Exhaustive (stores.vector.searchStage ctx query topK) start.1 rows)
        (items.map RetrievedItem.toMatch) ∧
      ∀ i item, items[i]? = some item →
        stores.Enriched ctx depth (history ++ MongoBackends.callsBefore schedule i)
          item.chunkId item.relatedEdges := by
  intro start writes
  obtain ⟨found, hsearch, hlists⟩ := search_of_rows hatlas hvector
    (MongoCall.corresponds_after stores history) hrows
  have hzoom : (stores.knowledge link depth).vectorStore.search ctx query topK
      (start, schedule) = (.returned (.ok found), (start, schedule)) :=
    @Action.zoom_of_unchanged _ _ _ MongoBackends.vectorLens _ _ _
      (Prod.ext hsearch (stores.vector.search_snd ctx query topK start.1))
  have hbefore : MongoBackends.Before stores history schedule 0
      (start, schedule) := by
    refine .inr ?_
    rw [List.take_zero, List.flatten_nil, List.append_nil, List.drop_zero]
  obtain ⟨items, s', hcollect, hitems, -⟩ := collectItems_of_step
    (MongoBackends.relatedEdges_of_before hgraph link ctx hdepth history
        schedule) found
      hbefore
  have hretrieve := Knowledge.retrieve_of_found (sameTenantPolicy_canRead ctx)
    hzoom hcollect
  refine ⟨items, by rw [hretrieve], ?_, fun i item hitem => ?_⟩
  · rwa [Knowledge.collectItems_matches _ ctx hcollect]
  · rw [← Nat.zero_add i]
    exact hitems i item hitem

noncomputable def sampleBackends : MongoBackends := ⟨atlasStore, referenceStore⟩

noncomputable def edgeThenChunk : List MongoCall :=
  [.addEdge Mongo.referenceServer (.of_documented referenceServer_documented)
    sampleCaller
      ⟨chunkIdAsNode sampleChunk.id, "b", "mentions"⟩,
    .vector (.upsert ⟨.arbitrary, none⟩ sampleCaller sampleChunk [1])]

theorem mongo_retrieve_current_edgeThenChunk :
    let start := MongoCall.after sampleBackends edgeThenChunk
      (Collection.empty, [])
    let writes := MongoCall.acknowledgedWrites sampleBackends edgeThenChunk
    ∃ rows, atlasStore.server.vectorSearch
      (atlasStore.searchStage sampleCaller [1] 5)
        start.1 = .ok rows ∧
      ∃ items, ((sampleBackends.knowledge ⟨.arbitrary, none⟩ 2).retrieve
        sampleCaller [1] 5
          (start, [edgeThenChunk])).1 = .returned (.ok items) ∧
        ListsLive writes sampleCaller.tenantId
          (Exhaustive (atlasStore.searchStage sampleCaller [1] 5) start.1 rows)
          (items.map RetrievedItem.toMatch) ∧
        ∀ i item, items[i]? = some item →
          sampleBackends.Enriched sampleCaller 2
            (edgeThenChunk ++ MongoBackends.callsBefore [edgeThenChunk] i)
            item.chunkId item.relatedEdges := by
  intro start writes
  have hlimit : 1 ≤ (atlasStore.searchStage sampleCaller [1] 5).limit ∧
      (atlasStore.searchStage sampleCaller [1] 5).limit ≤
        (atlasStore.searchStage sampleCaller [1] 5).numCandidates := by
    rw [limit_searchStage, numCandidates_searchStage]
    decide
  obtain ⟨rows, hrows⟩ := referenceServer_answers .arbitrary hlimit start.1
  exact ⟨rows, hrows, @mongo_retrieve_current sampleBackends rfl
    (selective_referenceServer _) (.of_documented referenceServer_documented)
    edgeThenChunk [edgeThenChunk] ⟨.arbitrary, none⟩ sampleCaller [1] 5 2
      (by decide) rows hrows⟩

end Milona.Retrieval
