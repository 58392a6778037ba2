import Milona.Retrieval.Isolation

/-!
# Retrievals that writers interrupt

The calls between the steps of a retrieval may be anyone's, also those of the
caller's own tenant.  The search is answered from the contents at the start.
Each traversal then meets the edges that are there when its turn comes, so the
items of one result may stem from different contents.  Edges are only added:
an item never lacks an edge that was reachable when the retrieval started, and
never has one that is not reachable when it ends.
-/

namespace Milona.Retrieval

open Milona.Core Milona.Foundation Milona.Storage.Memory
open Milona.Storage.Memory.InMemoryVectorStore (Sortable matchRank scoredPool)

/-! ## Edges only grow -/

theorem edgesOf_sublist_effect (tenantId : TenantId) (contents : Contents)
    (call : StoreCall) :
    (InMemoryGraphStore.edgesOf tenantId contents.edges).Sublist
      (InMemoryGraphStore.edgesOf tenantId
        (StoreCall.effect contents call).edges) := by
  cases call with
  | upsert ctx chunk embedding => exact .refl _
  | deleteDocument ctx documentId => exact .refl _
  | addEdge ctx edge =>
      rw [StoreCall.effect, InMemoryGraphStore.edgesOf_append_one]
      exact List.sublist_append_left _ _

theorem edgesOf_sublist_foldl (tenantId : TenantId) (contents : Contents)
    (calls : List StoreCall) :
    (InMemoryGraphStore.edgesOf tenantId contents.edges).Sublist
      (InMemoryGraphStore.edgesOf tenantId
        (calls.foldl StoreCall.effect contents).edges) := by
  induction calls generalizing contents with
  | nil => exact .refl _
  | cons call calls ih =>
      exact (edgesOf_sublist_effect tenantId contents call).trans (ih _)

/-- More edges make no traversal collect less. -/
theorem collect_subperm {edges edges' : List GraphEdge} (h : edges.Sublist edges')
    (startNode : String) (depth : Nat) :
    (Walk.collect edges depth [startNode] (Walk.start startNode)).Subperm
      (Walk.collect edges' depth [startNode] (Walk.start startNode)) := by
  have hnear : Walk.near edges startNode depth ⊆
    Walk.near edges' startNode depth :=
    closer_subset_of_mem (fun _ hedge => h.subset hedge) startNode depth
  have hfilter : (edges.filter fun edge =>
    edge.fromNode ∈ Walk.near edges startNode depth).Sublist
      (edges'.filter fun edge =>
        edge.fromNode ∈ Walk.near edges' startNode depth) := by
    calc
      (edges.filter fun edge =>
        edge.fromNode ∈ Walk.near edges startNode depth).Sublist
          (edges.filter fun edge =>
            edge.fromNode ∈ Walk.near edges' startNode depth) := by
        apply List.monotone_filter_right
        intro edge hedge
        exact decide_eq_true (hnear (of_decide_eq_true hedge))
      List.Sublist _ (edges'.filter fun edge =>
        edge.fromNode ∈ Walk.near edges' startNode depth) :=
        h.filter _
  exact ((Walk.collect_perm edges startNode depth).subperm.trans
      hfilter.subperm).trans
    (Walk.collect_perm edges' startNode depth).symm.subperm

/-! ## The contents that a traversal meets -/

/-- The contents after the first batches of the schedule. -/
def contentsAfter (contents : Contents) (schedule : List (List StoreCall))
    (count : Nat) :
    Contents :=
  (schedule.take count).flatten.foldl StoreCall.effect contents

theorem contentsAfter_succ (contents : Contents) (schedule : List (List StoreCall))
    (count : Nat) :
    contentsAfter contents schedule (count + 1) =
      contentsAfter ((schedule.headD []).foldl StoreCall.effect contents)
        schedule.tail count := by
  cases schedule with
  | nil => simp [contentsAfter]
  | cons batch schedule => simp [contentsAfter, List.foldl_append]

theorem contentsAfter_add (contents : Contents) (schedule : List (List StoreCall))
    (count more : Nat) :
    ∃ calls : List StoreCall, contentsAfter contents schedule (count + more) =
      calls.foldl StoreCall.effect (contentsAfter contents schedule count) := by
  refine ⟨((schedule.drop count).take more).flatten, ?_⟩
  rw [contentsAfter, List.take_add, List.flatten_append, List.foldl_append]
  rfl

/-- The item that a traversal after the first batches makes of a match. -/
def itemAfter (depth : Nat) (tenantId : TenantId) (contents : Contents)
    (schedule : List (List StoreCall)) (count : Nat) (found : VectorMatch) :
    RetrievedItem :=
  itemOf
    (InMemoryGraphStore.edgesOf tenantId
      (contentsAfter contents schedule count).edges) depth found

private theorem itemAfter_succ (depth : Nat) (tenantId : TenantId)
    (contents : Contents) (schedule : List (List StoreCall)) (count : Nat) :
    itemAfter depth tenantId contents schedule (count + 1) =
      itemAfter depth tenantId
          ((schedule.headD []).foldl StoreCall.effect contents)
        schedule.tail count := by
  funext found
  rw [itemAfter, itemAfter, contentsAfter_succ]

private theorem itemAfter_subperm (depth : Nat) (tenantId : TenantId)
    (contents : Contents)
    (schedule : List (List StoreCall)) {count later : Nat} (h : count ≤ later)
    (found : VectorMatch) :
    (itemAfter depth tenantId contents schedule count found).relatedEdges.Subperm
      (itemAfter depth tenantId contents schedule later found).relatedEdges := by
  obtain ⟨more, rfl⟩ := Nat.exists_eq_add_of_le h
  obtain ⟨calls, hcalls⟩ := contentsAfter_add contents schedule count more
  rw [itemAfter, itemAfter, hcalls]
  exact collect_subperm (edgesOf_sublist_foldl tenantId _ calls) _ depth

/-! ## The retrieval -/

theorem collectItems_interrupted (order : IterationOrder ChunkId StoredVector)
    (depth : Nat) (ctx : TenantContext) (matches_ : List VectorMatch)
    (contents : Contents) (schedule : List (List StoreCall)) :
    (scheduledKnowledge order depth).collectItems ctx matches_
        (contents.unlocked, schedule) =
      (.returned (matches_.mapIdx fun position =>
          itemAfter depth ctx.tenantId contents schedule (position + 1)),
        ((contentsAfter contents schedule matches_.length).unlocked,
          schedule.drop matches_.length)) := by
  induction matches_ generalizing contents schedule with
  | nil => rfl
  | cons found rest ih =>
      have hrelated := relatedEdges_scheduled order depth ctx found
        contents schedule
      have hrest := ih ((schedule.headD []).foldl StoreCall.effect contents)
        schedule.tail
      rw [Knowledge.collectItems, Action.bind_of_returned hrelated,
        Action.bind_of_returned hrest, List.mapIdx_cons, List.length_cons]
      simp only [itemAfter_succ, contentsAfter_succ, List.drop_tail]
      rfl

/--
Whatever anyone writes between the steps of a retrieval, its matches are the
best at its start, and each match carries the edges that its own traversal
meets, which are no fewer than before it and no more than after it.
-/
theorem retrieve_interrupted (order : IterationOrder ChunkId StoredVector)
    (depth : Nat) (ctx : TenantContext) (query : List Float32) (topK : Nat)
    {contents : Contents}
    (hsortable : Sortable ctx.tenantId query contents.records)
    (schedule : List (List StoreCall)) :
    let item := itemAfter depth ctx.tenantId contents schedule
    ∃ found, IsTopK matchRank (scoredPool ctx.tenantId query contents.records)
        topK found ∧
      (scheduledKnowledge order depth).retrieve ctx query topK
          (contents.unlocked, schedule) =
        (.returned (.ok (found.mapIdx fun position => item (position + 1))),
          ((contentsAfter contents schedule found.length).unlocked,
            schedule.drop found.length)) ∧
      ∀ match_ count later, count ≤ later →
        (item count match_).relatedEdges.Subperm
          (item later match_).relatedEdges := by
  intro item
  obtain ⟨found, hsearch, htop⟩ :=
    InMemoryVectorStore.search_of_sortable order ctx query topK hsortable
  have hzoom : (scheduledKnowledge order depth).vectorStore.search ctx query topK
      (contents.unlocked, schedule) =
        (.returned (.ok found), (contents.unlocked, schedule)) :=
    Action.zoom_of_unchanged hsearch
  have hitems := collectItems_interrupted order depth ctx found contents schedule
  refine ⟨found, htop, ?_, fun match_ count later h =>
    itemAfter_subperm depth ctx.tenantId contents schedule h match_⟩
  exact Knowledge.retrieve_of_found (sameTenantPolicy_canRead ctx) hzoom hitems

/-- The tenant of the retrieval deletes and links its own chunks meanwhile. -/
def ownInterruptions : List (List StoreCall) :=
  [[.deleteDocument firstCaller ⟨⟨1⟩⟩],
    [.addEdge firstCaller ⟨chunkIdAsNode ⟨⟨1⟩⟩, "b", "mentions"⟩,
      .addEdge firstCaller ⟨chunkIdAsNode ⟨⟨3⟩⟩, "c", "mentions"⟩]]

theorem retrieve_interrupted_ownInterruptions :
    let order := IterationOrder.ascending ChunkId.number ChunkId.number_injective
    let contents := mixedHistory.foldl StoreCall.effect Contents.empty
    let item := itemAfter 2 firstCaller.tenantId contents ownInterruptions
    ∃ found, IsTopK matchRank
        (scoredPool firstCaller.tenantId [1, 0] contents.records) 5 found ∧
      (scheduledKnowledge order 2).retrieve firstCaller [1, 0] 5
          (contents.unlocked, ownInterruptions) =
        (.returned (.ok (found.mapIdx fun position => item (position + 1))),
          ((contentsAfter contents ownInterruptions found.length).unlocked,
            ownInterruptions.drop found.length)) ∧
      ∀ match_ count later, count ≤ later →
        (item count match_).relatedEdges.Subperm
          (item later match_).relatedEdges :=
  retrieve_interrupted _ 2 firstCaller [1, 0] 5 (.inr (by decide +kernel))
    ownInterruptions

end Milona.Retrieval
