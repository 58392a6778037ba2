import Milona.Storage.Memory.Graph
import Milona.Storage.Mongo.Graph

/-!
# The two graph stores side by side

Both stores are filled by the same history of `add_edge` calls.  Each traversal
returns the tenant's edges that leave a node near the start: nearer than
`maxDepth` in memory, and nearer than `max maxDepth 1` in MongoDB, where a
`maxDepth` of zero hops still walks the first round.  MongoDB reads a start node
that begins with `$` as an expression.
-/

namespace Milona.Storage

open Milona.Core Milona.Foundation
open Milona.Storage.Memory Milona.Storage.Mongo

structure EdgeCall where
  ctx : TenantContext
  edge : GraphEdge

def addedBy (tenantId : TenantId) (history : List EdgeCall) :
    List GraphEdge :=
  (history.filter fun call => call.ctx.tenantId = tenantId).map EdgeCall.edge

def filled {σ : Type} (store : GraphStore σ) (history : List EdgeCall)
    (s : σ) : σ :=
  history.foldl (fun s call => (store.addEdge call.ctx call.edge s).2) s

def storedEdge (call : EdgeCall) : StoredEdge := ⟨call.ctx.tenantId, call.edge⟩

theorem filled_memory (history : List EdgeCall) (edges : List StoredEdge) :
    filled InMemoryGraphStore.graphStore history ⟨edges, false⟩ =
      ⟨edges ++ history.map storedEdge, false⟩ := by
  induction history generalizing edges with
  | nil => simp [filled]
  | cons call history ih =>
      have htail := ih (edges ++ [storedEdge call])
      simpa [filled, InMemoryGraphStore.graphStore, storedEdge] using htail

theorem memory_edgesOf (tenantId : TenantId) (history : List EdgeCall) :
    InMemoryGraphStore.edgesOf tenantId (history.map storedEdge) =
      addedBy tenantId history := by
  simp only [InMemoryGraphStore.edgesOf, addedBy, List.filter_map,
    List.map_map, Function.comp_def, storedEdge]
  rfl

def edgeDocument (call : EdgeCall) : EdgeDocument :=
  EdgeDocument.ofEdge call.ctx.tenantId call.edge

theorem filled_mongo {store : MongoGraphStore}
    (hserver : store.server.Documented) (history : List EdgeCall)
    (docs : List EdgeDocument) :
    (filled store.graphStore history docs).Perm
      (docs ++ history.map edgeDocument) := by
  induction history generalizing docs with
  | nil => simp [filled]
  | cons call history ih =>
      obtain ⟨docs', hinsert, hperm⟩ :=
        hserver.insertOne (edgeDocument call) docs
      have hstep : (store.graphStore.addEdge call.ctx call.edge docs).2 =
          docs' := by
        change (store.addEdge call.ctx call.edge docs).2 = docs'
        unfold MongoGraphStore.addEdge
        rw [show EdgeDocument.ofEdge call.ctx.tenantId call.edge =
          edgeDocument call from rfl, hinsert]
      have htail := ih docs'
      simp only [filled, List.foldl_cons, hstep] at htail ⊢
      refine htail.trans ((hperm.append_right _).trans ?_)
      simpa using List.perm_middle.symm

theorem mongo_edgesOf (tenantId : TenantId) (history : List EdgeCall) :
    MongoGraphStore.edgesOf tenantId (history.map edgeDocument) =
      addedBy tenantId history := by
  have htenant : ∀ call : EdgeCall,
      (edgeDocument call).tenantId = tenantId.display ↔
        call.ctx.tenantId = tenantId :=
    fun call => TenantId.display_injective.eq_iff
  simp only [MongoGraphStore.edgesOf, addedBy, List.filter_map,
    List.map_map, Function.comp_def, htenant]
  rfl

/-! ## Agreement -/

def reachedEdges (tenantId : TenantId) (history : List EdgeCall)
    (startNode : String) (d : Nat) : List GraphEdge :=
  (addedBy tenantId history).filter fun edge =>
    edge.fromNode ∈ closer GraphEdge.fromNode GraphEdge.toNode
      (addedBy tenantId history) startNode d

theorem memory_traverse_perm (ctx : TenantContext) (startNode : String)
    (maxDepth : Nat) (history : List EdgeCall) :
    ∃ found,
      (InMemoryGraphStore.traverse ctx startNode maxDepth
        (filled InMemoryGraphStore.graphStore history
          InMemoryGraphStore.empty)).1 = .returned (.ok found) ∧
      found.Perm (reachedEdges ctx.tenantId history startNode maxDepth) := by
  have hfilled : filled InMemoryGraphStore.graphStore history
      InMemoryGraphStore.empty = ⟨history.map storedEdge, false⟩ :=
    filled_memory history []
  refine ⟨_, ?_, Walk.collect_perm (addedBy ctx.tenantId history) startNode
    maxDepth⟩
  rw [hfilled, InMemoryGraphStore.traverse_apply, memory_edgesOf]

/-- The edges of the tenant that leave a node nearer than `d` to one of the starts. -/
def reachedFrom (tenantId : TenantId) (history : List EdgeCall)
    (starts : List String) (d : Nat) : List GraphEdge :=
  (addedBy tenantId history).filter fun edge =>
    ∃ start ∈ starts, edge.fromNode ∈ closer GraphEdge.fromNode
      GraphEdge.toNode (addedBy tenantId history) start d

theorem reachedFrom_perm {tenantId : TenantId} {history : List EdgeCall}
    {edges : List GraphEdge} (hedges : edges.Perm (addedBy tenantId history))
    (starts : List String) (d : Nat) :
    (edges.filter fun edge => ∃ start ∈ starts, edge.fromNode ∈
        closer GraphEdge.fromNode GraphEdge.toNode edges start d).Perm
      (reachedFrom tenantId history starts d) := by
  have hcloser : ∀ start,
      closer GraphEdge.fromNode GraphEdge.toNode edges start d =
        closer GraphEdge.fromNode GraphEdge.toNode (addedBy tenantId history)
          start d := fun start => closer_congr (fun edge => hedges.mem_iff) start d
  simp only [hcloser]
  exact hedges.filter _

@[simp] theorem reachedFrom_singleton (tenantId : TenantId)
    (history : List EdgeCall) (startNode : String) (d : Nat) :
    reachedFrom tenantId history [startNode] d =
      reachedEdges tenantId history startNode d := by
  simp [reachedFrom, reachedEdges]

theorem mongo_traverse_perm {store : MongoGraphStore}
    (hserver : store.server.Documented) (hatlas : store.backend = .atlas)
    (ctx : TenantContext) {startNode : String} {starts : List String}
    (hstarts : store.server.startsOf startNode = some starts) {maxDepth : Nat}
    (hdepth : maxDepth < 2 ^ 63) (history : List EdgeCall) :
    ∃ found,
      (store.traverse ctx startNode maxDepth
        (filled store.graphStore history [])).1 = .returned (.ok found) ∧
      found.Perm (reachedFrom ctx.tenantId history starts (max maxDepth 1)) := by
  obtain ⟨found, hfound, hperm⟩ := MongoGraphStore.traverse_perm hserver hatlas
    ctx hstarts hdepth (filled store.graphStore history [])
  refine ⟨found, hfound, hperm.trans (reachedFrom_perm ?_ starts _)⟩
  rw [← mongo_edgesOf]
  exact ((filled_mongo hserver history []).filter _).map _

/-! ### When the walks meet the same edges -/

/-- The walk in memory from a node meets the edges that MongoDB's from the starts does. -/
def MeetAlike (edges : List GraphEdge) (startNode : String)
    (starts : List String) (maxDepth : Nat) : Prop :=
  ∀ edge ∈ edges,
    edge.fromNode ∈ closer GraphEdge.fromNode GraphEdge.toNode edges startNode
        maxDepth ↔
      ∃ start ∈ starts, edge.fromNode ∈ closer GraphEdge.fromNode
        GraphEdge.toNode edges start (max maxDepth 1)

theorem reachedEdges_perm_reachedFrom_iff (tenantId : TenantId)
    (history : List EdgeCall) (startNode : String) (starts : List String)
    (maxDepth : Nat) :
    (reachedEdges tenantId history startNode maxDepth).Perm
        (reachedFrom tenantId history starts (max maxDepth 1)) ↔
      MeetAlike (addedBy tenantId history) startNode starts maxDepth := by
  constructor
  · intro h edge hedge
    have hmem := @List.Perm.mem_iff _ edge _ _ h
    simpa [reachedEdges, reachedFrom, hedge] using hmem
  · intro h
    refine List.Perm.of_eq (List.filter_congr fun edge hedge => ?_)
    exact decide_eq_decide.mpr (h edge hedge)

/-- From the node itself MongoDB walks one round more where memory walks none. -/
theorem meetAlike_singleton_iff (edges : List GraphEdge) (startNode : String)
    (maxDepth : Nat) :
    MeetAlike edges startNode [startNode] maxDepth ↔
      1 ≤ maxDepth ∨ ∀ edge ∈ edges, edge.fromNode ≠ startNode := by
  rcases Nat.eq_zero_or_pos maxDepth with rfl | hpos
  · simp [MeetAlike, closer, closer_one]
  · simp [MeetAlike, Nat.one_le_iff_ne_zero, hpos.ne']

/-- The stores agree where the start node has starts that lead to the same edges. -/
theorem agree_iff_of_starts {store : MongoGraphStore}
    (hserver : store.server.Documented) (hatlas : store.backend = .atlas)
    (history : List EdgeCall) (ctx : TenantContext) (startNode : String)
    {maxDepth : Nat} (hdepth : maxDepth < 2 ^ 63) {inMemory : List GraphEdge}
    (hmemory : inMemory.Perm (reachedEdges ctx.tenantId history startNode maxDepth)) :
    (∃ inMongo : List GraphEdge,
      (store.traverse ctx startNode maxDepth
        (filled store.graphStore history [])).1 = .returned (.ok inMongo) ∧
      (inMemory : Multiset GraphEdge) = inMongo) ↔
    ∃ starts, store.server.startsOf startNode = some starts ∧
      MeetAlike (addedBy ctx.tenantId history) startNode starts maxDepth := by
  cases hstarts : store.server.startsOf startNode with
  | none =>
      obtain ⟨e, hrefused⟩ := MongoGraphStore.traverse_refused hserver hatlas ctx
        hstarts maxDepth (filled store.graphStore history [])
      simp [hrefused]
  | some starts =>
      obtain ⟨found, hfound, hperm⟩ :=
        mongo_traverse_perm hserver hatlas ctx hstarts hdepth history
      have hsame : inMemory.Perm found ↔
          MeetAlike (addedBy ctx.tenantId history) startNode starts maxDepth := by
        rw [hmemory.congr_left, hperm.congr_right]
        exact reachedEdges_perm_reachedFrom_iff _ _ _ _ _
      simp [hfound, Multiset.coe_eq_coe, hsame]

/--
The stores agree on a traversal exactly when the start node does not begin with
`$` and the depth is positive or no edge of the tenant leaves the start node,
or when it is a system variable whose values lead to the same edges.
-/
theorem traversals_agree_iff {store : MongoGraphStore}
    (hserver : store.server.Documented) (hatlas : store.backend = .atlas)
    (history : List EdgeCall) (ctx : TenantContext) (startNode : String)
    {maxDepth : Nat} (hdepth : maxDepth < 2 ^ 63) :
    ∃ inMemory : List GraphEdge,
      (InMemoryGraphStore.traverse ctx startNode maxDepth
        (filled InMemoryGraphStore.graphStore history
          InMemoryGraphStore.empty)).1 = .returned (.ok inMemory) ∧
      ((∃ inMongo : List GraphEdge,
        (store.traverse ctx startNode maxDepth
          (filled store.graphStore history [])).1 = .returned (.ok inMongo) ∧
        (inMemory : Multiset GraphEdge) = inMongo) ↔
      (startNode.toList.head? ≠ some '$' ∧
        (1 ≤ maxDepth ∨
          ∀ edge ∈ addedBy ctx.tenantId history, edge.fromNode ≠ startNode)) ∨
      ∃ name value, startNode = "$$" ++ name ∧
        store.server.systemVariable name = some value ∧
        MeetAlike (addedBy ctx.tenantId history) startNode value.starts maxDepth) := by
  obtain ⟨inMemory, hmemory, hperm⟩ :=
    memory_traverse_perm ctx startNode maxDepth history
  refine ⟨inMemory, hmemory, ?_⟩
  rw [agree_iff_of_starts hserver hatlas history ctx startNode hdepth hperm]
  simp only [MongoServer.startsOf_eq_some_iff]
  constructor
  · rintro ⟨starts, ⟨hhead, rfl⟩ | ⟨name, value, hname, hvalue, rfl⟩, halike⟩
    · exact .inl ⟨hhead, (meetAlike_singleton_iff _ _ _).mp halike⟩
    · exact .inr ⟨name, value, hname, hvalue, halike⟩
  · rintro (⟨hhead, hclose⟩ | ⟨name, value, hname, hvalue, halike⟩)
    · exact ⟨_, .inl ⟨hhead, rfl⟩, (meetAlike_singleton_iff _ _ _).mpr hclose⟩
    · exact ⟨_, .inr ⟨name, value, hname, hvalue, rfl⟩, halike⟩

def referenceStore : MongoGraphStore := ⟨referenceServer, .atlas⟩

def oneEdge : List EdgeCall :=
  [⟨⟨⟨⟨1⟩⟩, .member, "user-1"⟩, ⟨"a", "b", "mentions"⟩⟩]

theorem traversals_agree_iff_oneEdge :
    ∃ inMemory : List GraphEdge,
      (InMemoryGraphStore.traverse ⟨⟨⟨1⟩⟩, .member, "user-1"⟩ "a" 2
        (filled InMemoryGraphStore.graphStore oneEdge
          InMemoryGraphStore.empty)).1 = .returned (.ok inMemory) ∧
      ((∃ inMongo : List GraphEdge,
        (referenceStore.traverse ⟨⟨⟨1⟩⟩, .member, "user-1"⟩ "a" 2
          (filled referenceStore.graphStore oneEdge [])).1 =
            .returned (.ok inMongo) ∧
        (inMemory : Multiset GraphEdge) = inMongo) ↔
      ("a".toList.head? ≠ some '$' ∧
        (1 ≤ 2 ∨ ∀ edge ∈ addedBy ⟨⟨1⟩⟩ oneEdge, edge.fromNode ≠ "a")) ∨
      ∃ name value, "a" = "$$" ++ name ∧
        referenceServer.systemVariable name = some value ∧
        MeetAlike (addedBy ⟨⟨1⟩⟩ oneEdge) "a" value.starts 2) :=
  @traversals_agree_iff referenceStore referenceServer_documented rfl oneEdge
    ⟨⟨⟨1⟩⟩, .member, "user-1"⟩ "a" 2 (by decide)

/-- At depth zero, and from a start node that MongoDB reads as a field path. -/
theorem traversals_disagree :
    (∃ inMemory inMongo : List GraphEdge,
      (InMemoryGraphStore.traverse ⟨⟨⟨1⟩⟩, .member, "user-1"⟩ "a" 0
        (filled InMemoryGraphStore.graphStore oneEdge
          InMemoryGraphStore.empty)).1 = .returned (.ok inMemory) ∧
      (referenceStore.traverse ⟨⟨⟨1⟩⟩, .member, "user-1"⟩ "a" 0
        (filled referenceStore.graphStore oneEdge [])).1 =
          .returned (.ok inMongo) ∧
      (inMemory : Multiset GraphEdge) ≠ inMongo) ∧
    ∃ (inMemory : List GraphEdge) (e : CoreError),
      (InMemoryGraphStore.traverse ⟨⟨⟨1⟩⟩, .member, "user-1"⟩ "$x" 1
        (filled InMemoryGraphStore.graphStore oneEdge
          InMemoryGraphStore.empty)).1 = .returned (.ok inMemory) ∧
      (referenceStore.traverse ⟨⟨⟨1⟩⟩, .member, "user-1"⟩ "$x" 1
        (filled referenceStore.graphStore oneEdge [])).1 =
          .returned (.error e) :=
  ⟨⟨[], [⟨"a", "b", "mentions"⟩], by decide +kernel, by decide +kernel,
      by decide⟩,
    [], .other "mongo $graphLookup failed: $documents cannot refer to a document",
      by decide +kernel, by decide +kernel⟩

end Milona.Storage
