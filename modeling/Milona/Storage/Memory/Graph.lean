import Milona.Core.Traits
import Milona.Foundation.Reachability

/-!
# The in-memory graph store

All edges live in one list behind one mutex.  A traversal walks the caller's
edges breadth first, in rounds.  The walk keeps the visited nodes, the edges
collected so far and the frontier of the next round; it stops after the given
number of rounds, or when a round discovers no node.
-/

namespace Milona.Storage.Memory

open Milona.Core Milona.Foundation

structure StoredEdge where
  tenantId : TenantId
  edge : GraphEdge
  deriving DecidableEq

abbrev InMemoryGraphStore : Type := Mutex (List StoredEdge)

/-- The local variables of the loop of `traverse`. -/
structure Walk where
  visited : Finset String
  nextFrontier : List String
  result : List GraphEdge

namespace Walk

def start (startNode : String) : Walk := ⟨{startNode}, [], []⟩

def visitEdge (walk : Walk) (edge : GraphEdge) : Walk where
  visited := insert edge.toNode walk.visited
  nextFrontier :=
    if edge.toNode ∈ walk.visited then walk.nextFrontier
    else walk.nextFrontier ++ [edge.toNode]
  result := walk.result ++ [edge]

def visitNode (tenantEdges : List GraphEdge) (walk : Walk) (node : String) :
    Walk :=
  (tenantEdges.filter fun edge => edge.fromNode = node).foldl visitEdge walk

def round (tenantEdges : List GraphEdge) (frontier : List String)
    (walk : Walk) : Walk :=
  frontier.foldl (visitNode tenantEdges) { walk with nextFrontier := [] }

/-- `rounds` counts the passes that remain. -/
def collect (tenantEdges : List GraphEdge) :
    Nat → List String → Walk → List GraphEdge
  | 0, _, walk => walk.result
  | rounds + 1, frontier, walk =>
      let walk := round tenantEdges frontier walk
      if walk.nextFrontier.isEmpty then walk.result
      else collect tenantEdges rounds walk.nextFrontier walk

end Walk

namespace InMemoryGraphStore

def empty : InMemoryGraphStore := Mutex.new []

def addEdge (ctx : TenantContext) (edge : GraphEdge) :
    Action InMemoryGraphStore (Result Unit) :=
  Mutex.lock do
    Action.modify fun edges => edges ++ [⟨ctx.tenantId, edge⟩]
    return .ok ()

def edgesOf (tenantId : TenantId) (edges : List StoredEdge) : List GraphEdge :=
  (edges.filter fun stored => stored.tenantId = tenantId).map StoredEdge.edge

theorem edgesOf_append_one (tenantId owner : TenantId)
    (edges : List StoredEdge) (edge : GraphEdge) :
    edgesOf tenantId (edges ++ [⟨owner, edge⟩]) =
      edgesOf tenantId edges ++ if owner = tenantId then [edge] else [] := by
  by_cases h : owner = tenantId <;> simp [edgesOf, h]

def traverse (ctx : TenantContext) (startNode : String) (maxDepth : Nat) :
    Action InMemoryGraphStore (Result (List GraphEdge)) :=
  Mutex.lock do
    let edges ← Action.get
    let tenantEdges := edgesOf ctx.tenantId edges
    return .ok <|
      Walk.collect tenantEdges maxDepth [startNode] (Walk.start startNode)

def graphStore : GraphStore InMemoryGraphStore where
  addEdge := addEdge
  traverse := traverse
  supportsTraversal := true

@[simp] theorem addEdge_apply (ctx : TenantContext) (edge : GraphEdge)
    (edges : List StoredEdge) :
    addEdge ctx edge ⟨edges, false⟩ =
      (.returned (.ok ()), ⟨edges ++ [⟨ctx.tenantId, edge⟩], false⟩) := rfl

@[simp] theorem traverse_apply (ctx : TenantContext) (startNode : String)
    (maxDepth : Nat) (edges : List StoredEdge) :
    traverse ctx startNode maxDepth ⟨edges, false⟩ =
      (.returned (.ok (Walk.collect (edgesOf ctx.tenantId edges) maxDepth
        [startNode] (Walk.start startNode))), ⟨edges, false⟩) := rfl

end InMemoryGraphStore

/-! ## The walk visits nodes by distance -/

namespace Walk

variable {tenantEdges : List GraphEdge} {startNode : String}

/-- The nodes at distance less than `d` from the start. -/
abbrev near (tenantEdges : List GraphEdge) (startNode : String) (d : Nat) :
    Finset String :=
  closer GraphEdge.fromNode GraphEdge.toNode tenantEdges startNode d

abbrev atDistance (tenantEdges : List GraphEdge) (startNode : String)
    (d : Nat) : Finset String :=
  layer GraphEdge.fromNode GraphEdge.toNode tenantEdges startNode d

def edgesFrom (tenantEdges : List GraphEdge) (frontier : List String) :
    List GraphEdge :=
  frontier.flatMap fun node =>
    tenantEdges.filter fun edge => edge.fromNode = node

theorem round_eq_foldl (tenantEdges : List GraphEdge)
    (frontier : List String) (walk : Walk) :
    round tenantEdges frontier walk =
      (edgesFrom tenantEdges frontier).foldl visitEdge
        { walk with nextFrontier := [] } := by
  rw [edgesFrom, List.foldl_flatMap]
  rfl

theorem foldl_visitEdge_result (edges : List GraphEdge) (walk : Walk) :
    (edges.foldl visitEdge walk).result = walk.result ++ edges := by
  induction edges generalizing walk with
  | nil => simp
  | cons edge edges ih => simp [ih, visitEdge]

theorem foldl_visitEdge_visited (edges : List GraphEdge) (walk : Walk) :
    (edges.foldl visitEdge walk).visited =
      walk.visited ∪ (edges.map GraphEdge.toNode).toFinset := by
  induction edges generalizing walk with
  | nil => simp
  | cons edge edges ih =>
      rw [List.foldl_cons, ih]
      ext node
      simp [visitEdge]

/-- The next frontier is the set of newly visited nodes, without repetition. -/
structure Fresh (before : Finset String) (walk : Walk) : Prop where
  nodup : walk.nextFrontier.Nodup
  toFinset : walk.nextFrontier.toFinset = walk.visited \ before
  subset : before ⊆ walk.visited

theorem Fresh.visitEdge {before : Finset String} {walk : Walk}
    (h : Fresh before walk) (edge : GraphEdge) :
    Fresh before (walk.visitEdge edge) := by
  have hsubset : before ⊆ insert edge.toNode walk.visited :=
    h.subset.trans (Finset.subset_insert _ _)
  by_cases hseen : edge.toNode ∈ walk.visited
  · refine ⟨?_, ?_, hsubset⟩
    · simpa [Walk.visitEdge, hseen] using h.nodup
    · simpa [Walk.visitEdge, hseen] using h.toFinset
  · have hnew : edge.toNode ∉ walk.nextFrontier := by
      intro hmem
      have hvisited : edge.toNode ∈ walk.visited \ before := by
        rw [← h.toFinset]
        exact List.mem_toFinset.mpr hmem
      exact hseen (Finset.mem_sdiff.mp hvisited).1
    have hbefore : edge.toNode ∉ before := fun hmem => hseen (h.subset hmem)
    refine ⟨?_, ?_, hsubset⟩
    · simpa [Walk.visitEdge, hseen] using
        List.nodup_append.mpr ⟨h.nodup, List.nodup_singleton _, by
          rintro node hnode _ hlast rfl
          exact hnew (List.mem_singleton.mp hlast ▸ hnode)⟩
    · simp only [Walk.visitEdge, hseen, if_false, List.toFinset_append,
        List.toFinset_cons, List.toFinset_nil, h.toFinset]
      rw [Finset.insert_sdiff_of_notMem _ hbefore, Finset.union_comm]
      rfl

theorem Fresh.foldl {before : Finset String} {walk : Walk}
    (h : Fresh before walk) (edges : List GraphEdge) :
    Fresh before (edges.foldl Walk.visitEdge walk) := by
  induction edges generalizing walk with
  | nil => exact h
  | cons edge edges ih => exact ih (h.visitEdge edge)

/--
The loop invariant after `d` passes: every node at distance at most `d` is
visited, the frontier lists the nodes at distance `d`, and the result holds
each edge from a nearer node once.
-/
structure AfterPasses (tenantEdges : List GraphEdge) (startNode : String)
    (d : Nat) (frontier : List String) (walk : Walk) : Prop where
  visited : walk.visited = near tenantEdges startNode (d + 1)
  nodup : frontier.Nodup
  frontier : frontier.toFinset = atDistance tenantEdges startNode d
  result : walk.result.Perm
    (tenantEdges.filter fun edge =>
      edge.fromNode ∈ near tenantEdges startNode d)

theorem afterPasses_start (tenantEdges : List GraphEdge) (startNode : String) :
    AfterPasses tenantEdges startNode 0 [startNode] (start startNode) where
  visited := by simp [start, near, closer]
  nodup := List.nodup_singleton _
  frontier := by simp [atDistance, layer, closer]
  result := by simp [start, near, closer]

theorem edgesFrom_perm {d : Nat} {frontier : List String} {walk : Walk}
    (h : AfterPasses tenantEdges startNode d frontier walk) :
    (edgesFrom tenantEdges frontier).Perm
      (tenantEdges.filter fun edge =>
        edge.fromNode ∈ atDistance tenantEdges startNode d) := by
  rw [← h.frontier]
  exact flatMap_filter_src GraphEdge.fromNode tenantEdges h.nodup

/-- Step lemma: one pass carries the invariant to the next distance. -/
theorem AfterPasses.round {d : Nat} {frontier : List String} {walk : Walk}
    (h : AfterPasses tenantEdges startNode d frontier walk) :
    AfterPasses tenantEdges startNode (d + 1)
      (Walk.round tenantEdges frontier walk).nextFrontier
      (Walk.round tenantEdges frontier walk) := by
  have hperm := edgesFrom_perm h
  have htargets : ((edgesFrom tenantEdges frontier).map
      GraphEdge.toNode).toFinset =
        ((tenantEdges.filter fun edge =>
          edge.fromNode ∈ atDistance tenantEdges startNode d).map
            GraphEdge.toNode).toFinset :=
    List.toFinset_eq_of_perm _ _ (hperm.map _)
  have hvisited : (Walk.round tenantEdges frontier walk).visited =
      near tenantEdges startNode (d + 2) := by
    rw [round_eq_foldl, foldl_visitEdge_visited, h.visited, htargets]
    exact (closer_succ_succ d).symm
  have hfresh : Fresh (near tenantEdges startNode (d + 1))
      (Walk.round tenantEdges frontier walk) := by
    rw [round_eq_foldl]
    refine Fresh.foldl ⟨List.nodup_nil, ?_, ?_⟩ _
    · simp [h.visited]
    · simp [h.visited]
  refine ⟨hvisited, hfresh.nodup, ?_, ?_⟩
  · rw [hfresh.toFinset, hvisited]
    rfl
  · have hdisjoint : Disjoint (near tenantEdges startNode d)
        (atDistance tenantEdges startNode d) :=
      disjoint_sdiff_self_right
    have hunion : near tenantEdges startNode d ∪
        atDistance tenantEdges startNode d =
          near tenantEdges startNode (d + 1) :=
      Finset.union_sdiff_of_subset (closer_subset_succ d)
    rw [round_eq_foldl, foldl_visitEdge_result, ← hunion]
    exact (h.result.append hperm).trans
      (filter_src_union GraphEdge.fromNode tenantEdges hdisjoint)

/-- Run lemma: the remaining passes collect the edges from all nearer nodes. -/
theorem AfterPasses.collect {rounds d : Nat} {frontier : List String}
    {walk : Walk}
    (h : AfterPasses tenantEdges startNode d frontier walk) :
    (Walk.collect tenantEdges rounds frontier walk).Perm
      (tenantEdges.filter fun edge =>
        edge.fromNode ∈ near tenantEdges startNode (d + rounds)) := by
  induction rounds generalizing d frontier walk with
  | zero => exact h.result
  | succ rounds ih =>
      have hround := h.round
      have hassoc : d + (rounds + 1) = d + 1 + rounds := by omega
      rw [Walk.collect, hassoc]
      cases hempty :
          (Walk.round tenantEdges frontier walk).nextFrontier.isEmpty with
      | false => simpa [hempty] using ih hround
      | true =>
          -- an empty frontier means that no greater distance adds a node
          have hlayer : atDistance tenantEdges startNode (d + 1) = ∅ := by
            rw [← hround.frontier, List.isEmpty_iff.mp hempty]
            rfl
          have hstable : near tenantEdges startNode (d + 1 + 1) =
              near tenantEdges startNode (d + 1) :=
            Finset.Subset.antisymm (Finset.sdiff_eq_empty_iff_subset.mp hlayer)
              (closer_subset_succ _)
          simpa [hempty, near, closer_stable hstable rounds] using
            hround.result

/--
A traversal returns exactly the tenant's edges that leave a node at distance
less than `maxDepth`, each stored edge once.
-/
theorem collect_perm (tenantEdges : List GraphEdge) (startNode : String)
    (maxDepth : Nat) :
    (Walk.collect tenantEdges maxDepth [startNode] (start startNode)).Perm
      (tenantEdges.filter fun edge =>
        edge.fromNode ∈ near tenantEdges startNode maxDepth) := by
  simpa using (afterPasses_start tenantEdges startNode).collect

end Walk

end Milona.Storage.Memory
