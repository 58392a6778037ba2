import Milona.Retrieval.Knowledge
import Milona.Storage.Memory.Stores

/-!
# Isolation of tenants in retrieval

A retrieval searches once and then traverses once for each match, and other
callers may write between these steps.  The state below pairs the stores with a
schedule: the calls that run before the first traversal, before the second, and
so on.  Whatever the schedule and the iteration order of the map, a retrieval
is determined by the caller's own records and edges.
-/

namespace Milona.Retrieval

open Milona.Core Milona.Foundation Milona.Storage.Memory

/-- Stores, and the calls that other callers make before each traversal. -/
abbrev Scheduled : Type := InMemoryStores × List (List StoreCall)

def runBatch : Action Scheduled Unit :=
  Action.modify fun (stores, schedule) =>
    (StoreCall.after (schedule.headD []) stores, schedule.tail)

def vectorLens : Lens Scheduled InMemoryVectorStore where
  view s := s.1.1
  put part s := ((part, s.1.2), s.2)
  view_put _ _ := rfl
  put_view _ := rfl
  put_put _ _ _ := rfl

def graphLens : Lens Scheduled InMemoryGraphStore where
  view s := s.1.2
  put part s := ((s.1.1, part), s.2)
  view_put _ _ := rfl
  put_view _ := rfl
  put_put _ _ _ := rfl

/-- A graph store that lets a batch run before each traversal. -/
def interrupted (store : GraphStore Scheduled) : GraphStore Scheduled :=
  { store with
    traverse := fun ctx startNode maxDepth => do
      runBatch
      store.traverse ctx startNode maxDepth }

def scheduledKnowledge (order : IterationOrder ChunkId StoredVector)
    (depth : Nat) : Knowledge Scheduled where
  vectorStore := (InMemoryVectorStore.vectorStore order).zoom vectorLens
  graphStore := interrupted (InMemoryGraphStore.graphStore.zoom graphLens)
  policy := sameTenantPolicy
  graphTraversalDepth := depth

/-- Every scheduled call is made by another tenant. -/
def ByOthers (tenantId : TenantId) (schedule : List (List StoreCall)) : Prop :=
  ∀ batch ∈ schedule, ∀ call ∈ batch, call.tenantId ≠ tenantId

instance (tenantId : TenantId) (schedule : List (List StoreCall)) :
    Decidable (ByOthers tenantId schedule) :=
  inferInstanceAs (Decidable (∀ batch ∈ _, ∀ call ∈ batch, _))

theorem ByOthers.eraseOthers {tenantId : TenantId}
    {schedule : List (List StoreCall)} (h : ByOthers tenantId schedule) :
    ByOthers tenantId (schedule.map (StoreCall.eraseOthers tenantId)) := by
  intro batch hbatch call hcall
  obtain ⟨batch', hbatch', rfl⟩ := List.mem_map.mp hbatch
  exact h batch' hbatch' call (List.mem_filter.mp hcall).1

def itemOf (tenantEdges : List GraphEdge) (depth : Nat) (found : VectorMatch) :
    RetrievedItem :=
  ⟨found.chunkId, found.score,
    Walk.collect tenantEdges depth [chunkIdAsNode found.chunkId]
      (Walk.start (chunkIdAsNode found.chunkId))⟩

@[simp] theorem toMatch_itemOf (tenantEdges : List GraphEdge) (depth : Nat)
    (found : VectorMatch) : (itemOf tenantEdges depth found).toMatch = found := rfl

private theorem runBatch_unlocked (contents : Contents)
    (schedule : List (List StoreCall)) :
    runBatch (contents.unlocked, schedule) =
      (.returned (),
        (((schedule.headD []).foldl StoreCall.effect contents).unlocked,
          schedule.tail)) := by
  rw [← StoreCall.after_unlocked]
  rfl

theorem relatedEdges_scheduled (order : IterationOrder ChunkId StoredVector)
    (depth : Nat) (ctx : TenantContext) (found : VectorMatch)
    (contents : Contents) (schedule : List (List StoreCall)) :
    let contents' := (schedule.headD []).foldl StoreCall.effect contents
    (scheduledKnowledge order depth).relatedEdges ctx found.chunkId
        (contents.unlocked, schedule) =
      (.returned (itemOf (InMemoryGraphStore.edgesOf ctx.tenantId
          contents'.edges) depth found).relatedEdges,
        (contents'.unlocked, schedule.tail)) := by
  intro contents'
  have htraverse : (scheduledKnowledge order depth).graphStore.traverse ctx
      (chunkIdAsNode found.chunkId) depth (contents.unlocked, schedule) =
        (.returned (.ok (itemOf (InMemoryGraphStore.edgesOf ctx.tenantId
          contents'.edges) depth found).relatedEdges),
          (contents'.unlocked, schedule.tail)) :=
    Action.bind_of_returned (runBatch_unlocked contents schedule)
  exact Action.bind_of_returned htraverse

private theorem collectItems_scheduled
    (order : IterationOrder ChunkId StoredVector)
    (depth : Nat) (ctx : TenantContext) (matches_ : List VectorMatch)
    (contents : Contents) {schedule : List (List StoreCall)}
    (hothers : ByOthers ctx.tenantId schedule) :
    ((scheduledKnowledge order depth).collectItems ctx matches_
        (contents.unlocked, schedule)).1 =
      .returned (matches_.map (itemOf (InMemoryGraphStore.edgesOf ctx.tenantId
        contents.edges) depth)) := by
  induction matches_ generalizing contents schedule with
  | nil => rfl
  | cons found rest ih =>
      have hhead : ∀ call ∈ schedule.headD [], call.tenantId ≠ ctx.tenantId := by
        cases schedule with
        | nil => simp
        | cons batch schedule => exact hothers batch List.mem_cons_self
      have htail : ByOthers ctx.tenantId schedule.tail :=
        fun batch hbatch => hothers batch (List.mem_of_mem_tail hbatch)
      have hedges := StoreCall.edgesOf_foldl_of_others hhead contents
      have hrelated := relatedEdges_scheduled order depth ctx found contents
        schedule
      rw [← hedges]
      obtain ⟨s', hrest⟩ := Action.exists_of_outcome
        (ih ((schedule.headD []).foldl StoreCall.effect contents) htail)
      rw [Knowledge.collectItems, Action.bind_of_returned hrelated,
        Action.bind_of_returned hrest]
      rfl

/-- A retrieval selects among the own scores and walks the own edges. -/
theorem retrieve_scheduled (order : IterationOrder ChunkId StoredVector)
    (depth : Nat) (ctx : TenantContext) (query : List Float32) (topK : Nat)
    {contents : Contents} {schedule : List (List StoreCall)}
    (hothers : ByOthers ctx.tenantId schedule)
    (hsortable : InMemoryVectorStore.Sortable ctx.tenantId query
      contents.records) :
    ∃ found,
      IsTopK InMemoryVectorStore.matchRank
        (InMemoryVectorStore.scoredPool ctx.tenantId query contents.records)
        topK found ∧
      ((scheduledKnowledge order depth).retrieve ctx query topK
          (contents.unlocked, schedule)).1 =
        .returned (.ok (found.map (itemOf (InMemoryGraphStore.edgesOf
          ctx.tenantId contents.edges) depth))) := by
  obtain ⟨found, hsearch, htop⟩ :=
    InMemoryVectorStore.search_of_sortable order ctx query topK hsortable
  refine ⟨found, htop, ?_⟩
  have hzoom : (scheduledKnowledge order depth).vectorStore.search ctx query
      topK (contents.unlocked, schedule) =
        (.returned (.ok found), (contents.unlocked, schedule)) :=
    Action.zoom_of_unchanged hsearch
  obtain ⟨s', hitems⟩ := Action.exists_of_outcome
    (collectItems_scheduled order depth ctx found contents hothers)
  rw [Knowledge.retrieve_of_found (sameTenantPolicy_canRead ctx) hzoom hitems]

/-! ## Two runs -/

def storesAfter (history : List StoreCall) : InMemoryStores :=
  StoreCall.after history Contents.empty.unlocked

abbrev poolOf (tenantId : TenantId) (query : List Float32)
    (stores : InMemoryStores) : Multiset VectorMatch :=
  InMemoryVectorStore.scoredPool tenantId query stores.1.value

/--
Two results of one retrieval that differ at most by the choice among equal
scores: both select from the same pool, and a chunk in both has the same edges.
-/
structure SameUpToTies (pool : Multiset VectorMatch) (topK : Nat)
    (items items' : List RetrievedItem) : Prop where
  selects : IsTopK InMemoryVectorStore.matchRank pool topK
    (items.map RetrievedItem.toMatch)
  selects' : IsTopK InMemoryVectorStore.matchRank pool topK
    (items'.map RetrievedItem.toMatch)
  edges : ∀ item ∈ items, ∀ item' ∈ items', item.chunkId = item'.chunkId →
    item.relatedEdges = item'.relatedEdges
  identical : (∀ a ∈ pool, ∀ b ∈ pool,
    partialCmp a.score b.score = some .eq → a = b) → items = items'

/-- The chunk and the edges of an item were written by the tenant. -/
def OwnedItem (history : List StoreCall) (tenantId : TenantId)
    (item : RetrievedItem) : Prop :=
  StoreCall.Upserted history tenantId item.chunkId ∧
    ∀ edge ∈ item.relatedEdges, StoreCall.EdgeAdded history tenantId edge

theorem map_toMatch_itemOf (tenantEdges : List GraphEdge) (depth : Nat)
    (found : List VectorMatch) :
    (found.map (itemOf tenantEdges depth)).map RetrievedItem.toMatch = found := by
  simp [List.map_map, Function.comp_def]

theorem sameUpToTies_of_isTopK {pool : Multiset VectorMatch} {topK : Nat}
    {found found' : List VectorMatch}
    (hnumbers : ∀ a ∈ pool, a.score.isNaN = false)
    (h : IsTopK InMemoryVectorStore.matchRank pool topK found)
    (h' : IsTopK InMemoryVectorStore.matchRank pool topK found')
    (tenantEdges : List GraphEdge) (depth : Nat) :
    SameUpToTies pool topK (found.map (itemOf tenantEdges depth))
      (found'.map (itemOf tenantEdges depth)) where
  selects := by rwa [map_toMatch_itemOf]
  selects' := by rwa [map_toMatch_itemOf]
  edges := by
    intro item hitem item' hitem' hid
    obtain ⟨a, -, rfl⟩ := List.mem_map.mp hitem
    obtain ⟨b, -, rfl⟩ := List.mem_map.mp hitem'
    have hchunk : a.chunkId = b.chunkId := hid
    simp only [itemOf, hchunk]
  identical := by
    intro hdistinct
    refine congrArg _ (h.unique (fun a ha b hb hrank => ?_) h')
    refine hdistinct a ha b hb ?_
    rw [partialCmp_of_number (hnumbers a ha) (hnumbers b hb)]
    exact congrArg some (compare_eq_iff_eq.mpr hrank)

private theorem ownedItem_of_mem {history : List StoreCall}
    {contents : Contents}
    (hwritten : StoreCall.WrittenBy history contents) {tenantId : TenantId}
    {query : List Float32} {found : VectorMatch}
    (hfound : found ∈ InMemoryVectorStore.scoredPool tenantId query
      contents.records) (depth : Nat) :
    OwnedItem history tenantId (itemOf
      (InMemoryGraphStore.edgesOf tenantId contents.edges) depth found) := by
  constructor
  · obtain ⟨record, hlookup, howner, -⟩ :=
      InMemoryVectorStore.mem_scoredPool.mp hfound
    exact howner ▸ hwritten.records _ _ hlookup
  · intro edge hedge
    have hown := (List.mem_filter.mp
      ((Walk.collect_perm _ _ depth).mem_iff.mp hedge)).1
    obtain ⟨stored, hstored, rfl⟩ := List.mem_map.mp hown
    obtain ⟨hmem, howner⟩ := List.mem_filter.mp hstored
    exact (of_decide_eq_true howner) ▸ hwritten.edges stored hmem

private theorem ownedItem_of_isTopK {history : List StoreCall}
    {contents : Contents}
    (hwritten : StoreCall.WrittenBy history contents) {tenantId : TenantId}
    {query : List Float32} {topK depth : Nat} {found : List VectorMatch}
    (h : IsTopK InMemoryVectorStore.matchRank
      (InMemoryVectorStore.scoredPool tenantId query contents.records) topK
        found) :
    ∀ item ∈ found.map (itemOf
        (InMemoryGraphStore.edgesOf tenantId contents.edges) depth),
      OwnedItem history tenantId item := by
  intro item hitem
  obtain ⟨match_, hmatch, rfl⟩ := List.mem_map.mp hitem
  exact ownedItem_of_mem hwritten (h.subset hmatch) depth

/--
What a retrieval returns to a tenant does not depend on the calls of the other
tenants, neither on those before it nor on those between its steps.
-/
theorem retrieve_noninterference {history : List StoreCall}
    (hunshared : StoreCall.ChunkIdsUnshared history) {ctx : TenantContext}
    {schedule : List (List StoreCall)}
    (hothers : ByOthers ctx.tenantId schedule) {query : List Float32}
    (hnumbers : ∀ found ∈ poolOf ctx.tenantId query (storesAfter history),
      found.score.isNaN = false)
    (order order' : IterationOrder ChunkId StoredVector) (depth topK : Nat) :
    let erased := StoreCall.eraseOthers ctx.tenantId history
    let pool := poolOf ctx.tenantId query (storesAfter history)
    ∃ items items' : List RetrievedItem,
      ((scheduledKnowledge order depth).retrieve ctx query topK
        (storesAfter history, schedule)).1 = .returned (.ok items) ∧
      ((scheduledKnowledge order' depth).retrieve ctx query topK
        (storesAfter erased, schedule.map
          (StoreCall.eraseOthers ctx.tenantId))).1 = .returned (.ok items') ∧
      poolOf ctx.tenantId query (storesAfter erased) = pool ∧
      SameUpToTies pool topK items items' ∧
      ∀ item ∈ items ++ items', OwnedItem history ctx.tenantId item := by
  intro erased pool
  obtain ⟨hwritten, hview⟩ :=
    StoreCall.sameView_eraseOthers hunshared ctx.tenantId
  have hstores : storesAfter history =
      (history.foldl StoreCall.effect Contents.empty).unlocked :=
    StoreCall.after_unlocked _ _
  have hstores' : storesAfter erased =
      (erased.foldl StoreCall.effect Contents.empty).unlocked :=
    StoreCall.after_unlocked _ _
  generalize history.foldl StoreCall.effect Contents.empty = contents at *
  generalize erased.foldl StoreCall.effect Contents.empty = contents' at *
  have hpool : pool = InMemoryVectorStore.scoredPool ctx.tenantId query
      contents.records := by
    simp only [pool, poolOf, hstores, Contents.unlocked]
  have hpool' : pool = InMemoryVectorStore.scoredPool ctx.tenantId query
      contents'.records :=
    hpool.trans (InMemoryVectorStore.scoredPool_congr hview.records query)
  have hnumbers' : ∀ found ∈ pool, found.score.isNaN = false := hnumbers
  obtain ⟨found, htop, hretrieve⟩ := retrieve_scheduled order depth ctx query
    topK hothers (.inr (hpool ▸ hnumbers'))
  obtain ⟨found', htop', hretrieve'⟩ := retrieve_scheduled order' depth ctx
    query topK hothers.eraseOthers (.inr (hpool' ▸ hnumbers'))
  rw [← hview.edges] at hretrieve'
  rw [← hpool'] at htop'
  refine ⟨_, _, hstores ▸ hretrieve, hstores' ▸ hretrieve', ?_,
    sameUpToTies_of_isTopK hnumbers' (hpool ▸ htop) htop' _ depth, ?_⟩
  · rw [hpool', hstores']
    rfl
  · intro item hitem
    rcases List.mem_append.mp hitem with h | h
    · exact ownedItem_of_isTopK hwritten htop item h
    · exact ownedItem_of_isTopK hwritten (hpool ▸ htop') item h

def firstCaller : TenantContext := ⟨⟨⟨1⟩⟩, .member, "user-1"⟩

def secondCaller : TenantContext := ⟨⟨⟨2⟩⟩, .member, "user-2"⟩

def mixedHistory : List StoreCall :=
  [.upsert firstCaller ⟨⟨⟨1⟩⟩, ⟨⟨1⟩⟩, "first", 0, 1⟩ [1, 0],
    .upsert secondCaller ⟨⟨⟨2⟩⟩, ⟨⟨2⟩⟩, "second", 0, 1⟩ [1, 0],
    .addEdge secondCaller ⟨chunkIdAsNode ⟨⟨1⟩⟩, "b", "mentions"⟩,
    .upsert firstCaller ⟨⟨⟨3⟩⟩, ⟨⟨1⟩⟩, "third", 1, 1⟩ [0, 1],
    .addEdge firstCaller ⟨chunkIdAsNode ⟨⟨1⟩⟩, "a", "mentions"⟩]

def interruptions : List (List StoreCall) :=
  [[.deleteDocument secondCaller ⟨⟨2⟩⟩],
    [.addEdge secondCaller ⟨chunkIdAsNode ⟨⟨3⟩⟩, "c", "mentions"⟩]]

theorem retrieve_noninterference_mixedHistory :
    let order := IterationOrder.ascending ChunkId.number
      ChunkId.number_injective
    let erased := StoreCall.eraseOthers firstCaller.tenantId mixedHistory
    let pool := poolOf firstCaller.tenantId [1, 0] (storesAfter mixedHistory)
    ∃ items items' : List RetrievedItem,
      ((scheduledKnowledge order 2).retrieve firstCaller [1, 0] 5
        (storesAfter mixedHistory, interruptions)).1 =
          .returned (.ok items) ∧
      ((scheduledKnowledge order 2).retrieve firstCaller [1, 0] 5
        (storesAfter erased, interruptions.map
          (StoreCall.eraseOthers firstCaller.tenantId))).1 =
            .returned (.ok items') ∧
      poolOf firstCaller.tenantId [1, 0] (storesAfter erased) = pool ∧
      SameUpToTies pool 5 items items' ∧
      ∀ item ∈ items ++ items',
        OwnedItem mixedHistory firstCaller.tenantId item :=
  retrieve_noninterference (by decide) (by decide) (by decide +kernel) _ _ 2 5

end Milona.Retrieval
