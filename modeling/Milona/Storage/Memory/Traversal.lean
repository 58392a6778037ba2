import Milona.Storage.Memory.Graph

/-!
# What a bounded traversal returns

The passes of a walk list the tenant's edges by distance of their source, so a
result is sorted by distance and a deeper traversal extends a shallower one.
Every pass but the last discovers a node, which bounds the number of passes by
the number of reachable nodes.
-/

namespace Milona.Storage.Memory

open Milona.Core Milona.Foundation

namespace Walk

variable {tenantEdges : List GraphEdge} {startNode : String}

/-! ## Order of the result -/

noncomputable abbrev distanceOf (tenantEdges : List GraphEdge)
    (startNode : String) (edge : GraphEdge) : ℕ∞ :=
  distance GraphEdge.fromNode GraphEdge.toNode tenantEdges startNode
    edge.fromNode

/-- Earlier edges leave nodes that are no farther from the start. -/
def ByDistance (tenantEdges : List GraphEdge) (startNode : String)
    (edges : List GraphEdge) : Prop :=
  edges.Pairwise fun a b =>
    distanceOf tenantEdges startNode a ≤ distanceOf tenantEdges startNode b

theorem distanceOf_edgesFrom {d : Nat} {frontier : List String} {walk : Walk}
    (h : AfterPasses tenantEdges startNode d frontier walk)
    {edge : GraphEdge} (hedge : edge ∈ edgesFrom tenantEdges frontier) :
    distanceOf tenantEdges startNode edge = d := by
  have hlayer := (edgesFrom_perm h).mem_iff.mp hedge
  exact distance_of_mem_layer (of_decide_eq_true (List.mem_filter.mp hlayer).2)

private theorem distanceOf_result {d : Nat} {frontier : List String}
    {walk : Walk} (h : AfterPasses tenantEdges startNode d frontier walk)
    {edge : GraphEdge} (hedge : edge ∈ walk.result) :
    distanceOf tenantEdges startNode edge < d := by
  have hnear := h.result.mem_iff.mp hedge
  exact mem_closer_iff_distance.mp
    (of_decide_eq_true (List.mem_filter.mp hnear).2)

theorem round_result (frontier : List String) (walk : Walk) :
    (round tenantEdges frontier walk).result =
      walk.result ++ edgesFrom tenantEdges frontier := by
  rw [round_eq_foldl, foldl_visitEdge_result]

/-- Step lemma: a pass appends edges that are farther than all before. -/
theorem ByDistance.round {d : Nat} {frontier : List String} {walk : Walk}
    (h : AfterPasses tenantEdges startNode d frontier walk)
    (hsorted : ByDistance tenantEdges startNode walk.result) :
    ByDistance tenantEdges startNode
      (Walk.round tenantEdges frontier walk).result := by
  rw [round_result, ByDistance, List.pairwise_append]
  refine ⟨hsorted, ?_, ?_⟩
  · refine List.Pairwise.imp_of_mem ?_ (List.pairwise_of_forall fun _ _ => trivial)
    intro a b ha hb _
    rw [distanceOf_edgesFrom h ha, distanceOf_edgesFrom h hb]
  · intro a ha b hb
    rw [distanceOf_edgesFrom h hb]
    exact (distanceOf_result h ha).le

theorem ByDistance.collect {rounds d : Nat} {frontier : List String}
    {walk : Walk} (h : AfterPasses tenantEdges startNode d frontier walk)
    (hsorted : ByDistance tenantEdges startNode walk.result) :
    ByDistance tenantEdges startNode
      (Walk.collect tenantEdges rounds frontier walk) := by
  induction rounds generalizing d frontier walk with
  | zero => exact hsorted
  | succ rounds ih =>
      have hround := hsorted.round h
      rw [Walk.collect]
      cases (Walk.round tenantEdges frontier walk).nextFrontier.isEmpty with
      | true => exact hround
      | false => exact ih h.round hround

theorem collect_byDistance (tenantEdges : List GraphEdge) (startNode : String)
    (maxDepth : Nat) :
    ByDistance tenantEdges startNode
      (Walk.collect tenantEdges maxDepth [startNode] (start startNode)) :=
  ByDistance.collect (afterPasses_start tenantEdges startNode) List.Pairwise.nil

theorem collect_perm_distance (tenantEdges : List GraphEdge)
    (startNode : String) (maxDepth : Nat) :
    (Walk.collect tenantEdges maxDepth [startNode] (start startNode)).Perm
      (tenantEdges.filter fun edge =>
        distanceOf tenantEdges startNode edge < maxDepth) := by
  have hperm := collect_perm tenantEdges startNode maxDepth
  simpa only [mem_closer_iff_distance] using hperm

/-! ## Deeper traversals -/

theorem result_prefix_round (frontier : List String) (walk : Walk) :
    walk.result <+: (round tenantEdges frontier walk).result := by
  rw [round_result]
  exact List.prefix_append _ _

private theorem result_prefix_collect (rounds : Nat) (frontier : List String)
    (walk : Walk) : walk.result <+: collect tenantEdges rounds frontier walk := by
  induction rounds generalizing frontier walk with
  | zero => exact List.prefix_refl _
  | succ rounds ih =>
      have hround : walk.result <+: (round tenantEdges frontier walk).result :=
        result_prefix_round frontier walk
      rw [collect]
      cases (round tenantEdges frontier walk).nextFrontier.isEmpty with
      | true => exact hround
      | false => exact hround.trans (ih _ _)

/-- More passes only append. -/
theorem collect_prefix_add (rounds more : Nat) (frontier : List String)
    (walk : Walk) :
    collect tenantEdges rounds frontier walk <+:
      collect tenantEdges (rounds + more) frontier walk := by
  induction rounds generalizing frontier walk with
  | zero => exact result_prefix_collect _ _ _
  | succ rounds ih =>
      rw [Nat.succ_add, collect, collect]
      cases (round tenantEdges frontier walk).nextFrontier.isEmpty with
      | true => exact List.prefix_refl _
      | false => exact ih _ _

/-! ## The number of passes -/

/-- The loop of `collect` with a counter of the passes it runs. -/
def countedCollect (tenantEdges : List GraphEdge) :
    Nat → List String → Walk → List GraphEdge × Nat
  | 0, _, walk => (walk.result, 0)
  | rounds + 1, frontier, walk =>
      let walk := round tenantEdges frontier walk
      if walk.nextFrontier.isEmpty then (walk.result, 1)
      else
        let (result, passes) :=
          countedCollect tenantEdges rounds walk.nextFrontier walk
        (result, passes + 1)

theorem countedCollect_fst (rounds : Nat) (frontier : List String)
    (walk : Walk) :
    (countedCollect tenantEdges rounds frontier walk).1 =
      collect tenantEdges rounds frontier walk := by
  induction rounds generalizing frontier walk with
  | zero => rfl
  | succ rounds ih =>
      rw [countedCollect, collect]
      cases (round tenantEdges frontier walk).nextFrontier.isEmpty with
      | true => rfl
      | false => exact ih _ _

/-- A bound that the loop does not exhaust can be raised. -/
theorem countedCollect_add {rounds : Nat} (more : Nat) {frontier : List String}
    {walk : Walk}
    (h : (countedCollect tenantEdges (rounds + more) frontier walk).2 ≤ rounds) :
    countedCollect tenantEdges (rounds + more) frontier walk =
      countedCollect tenantEdges rounds frontier walk := by
  induction rounds generalizing frontier walk with
  | zero =>
      cases more with
      | zero => rfl
      | succ more =>
          rw [Nat.zero_add, countedCollect] at h
          cases hempty :
              (round tenantEdges frontier walk).nextFrontier.isEmpty with
          | true => simp [hempty] at h
          | false => simp [hempty] at h
  | succ rounds ih =>
      rw [Nat.succ_add, countedCollect] at h ⊢
      rw [countedCollect]
      cases hempty :
          (round tenantEdges frontier walk).nextFrontier.isEmpty with
      | true => rfl
      | false =>
          simp only [hempty, Bool.false_eq_true, if_false] at h ⊢
          rw [ih (by omega)]

/-- The nodes that the tenant's edges lead to from the start. -/
abbrev reachableNodes (tenantEdges : List GraphEdge) (startNode : String) :
    Set String :=
  reachable GraphEdge.fromNode GraphEdge.toNode tenantEdges startNode

/--
Each pass starts from a node at its distance, so after `d` passes at least `d`
nodes are nearer than `d`.
-/
theorem AfterPasses.passes_le {rounds d : Nat} {frontier : List String}
    {walk : Walk}
    (h : AfterPasses tenantEdges startNode d frontier walk)
    (hfrontier : frontier ≠ [])
    (hd : d ≤ (near tenantEdges startNode d).card) :
    d + (countedCollect tenantEdges rounds frontier walk).2 ≤
      (reachableNodes tenantEdges startNode).ncard := by
  have hbound : ∀ depth, (near tenantEdges startNode depth).card ≤
      (reachableNodes tenantEdges startNode).ncard := fun depth =>
    closer_card_le tenantEdges startNode depth
  induction rounds generalizing d frontier walk with
  | zero => exact hd.trans (hbound d)
  | succ rounds ih =>
      have hlayer : (atDistance tenantEdges startNode d).Nonempty := by
        rw [← h.frontier]
        exact (List.toFinset_nonempty_iff frontier).mpr hfrontier
      have hgrows := closer_card_lt hlayer
      have hnext : d + 1 ≤ (near tenantEdges startNode (d + 1)).card := by
        change (near tenantEdges startNode d).card <
          (near tenantEdges startNode (d + 1)).card at hgrows
        omega
      rw [countedCollect]
      cases hempty :
          (Walk.round tenantEdges frontier walk).nextFrontier.isEmpty with
      | true => exact hnext.trans (hbound (d + 1))
      | false =>
          have hrest := ih h.round (List.isEmpty_eq_false_iff.mp hempty) hnext
          simp only [Bool.false_eq_true, if_false]
          omega

theorem passes_le_reachable (tenantEdges : List GraphEdge) (startNode : String)
    (maxDepth : Nat) :
    (countedCollect tenantEdges maxDepth [startNode] (start startNode)).2 ≤
      (reachableNodes tenantEdges startNode).ncard := by
  have hpasses : 0 + (countedCollect tenantEdges maxDepth [startNode]
      (start startNode)).2 ≤ (reachableNodes tenantEdges startNode).ncard :=
    (afterPasses_start tenantEdges startNode).passes_le
      (List.cons_ne_nil _ _) (Nat.zero_le _)
  omega

private theorem collect_of_reachable_le {maxDepth : Nat}
    (h : (reachableNodes tenantEdges startNode).ncard ≤ maxDepth) :
    collect tenantEdges maxDepth [startNode] (start startNode) =
      collect tenantEdges (reachableNodes tenantEdges startNode).ncard
        [startNode] (start startNode) := by
  have hpasses := passes_le_reachable tenantEdges startNode maxDepth
  obtain ⟨more, rfl⟩ := Nat.exists_eq_add_of_le h
  rw [← countedCollect_fst, ← countedCollect_fst, countedCollect_add more hpasses]

end Walk

/-! ## Traversals of a store -/

namespace InMemoryGraphStore

/--
A traversal returns every stored instance of the caller's edges that leaves a
node at distance less than `maxDepth`, and nothing else, by distance.
-/
theorem traverse_exact (edges : List StoredEdge) (ctx : TenantContext)
    (startNode : String) (maxDepth : Nat) :
    ∃ found,
      traverse ctx startNode maxDepth (Mutex.new edges) =
        (.returned (.ok found), Mutex.new edges) ∧
      found.Perm ((edgesOf ctx.tenantId edges).filter fun edge =>
        distance GraphEdge.fromNode GraphEdge.toNode
          (edgesOf ctx.tenantId edges) startNode edge.fromNode < maxDepth) ∧
      found.Pairwise fun a b =>
        distance GraphEdge.fromNode GraphEdge.toNode
            (edgesOf ctx.tenantId edges) startNode a.fromNode ≤
          distance GraphEdge.fromNode GraphEdge.toNode
            (edgesOf ctx.tenantId edges) startNode b.fromNode :=
  ⟨_, traverse_apply ctx startNode maxDepth edges,
    Walk.collect_perm_distance _ _ _, Walk.collect_byDistance _ _ _⟩

/--
A deeper traversal extends a shallower one, and none needs more passes than
there are reachable nodes.
-/
theorem traverse_saturates (edges : List StoredEdge) (ctx : TenantContext)
    (startNode : String) :
    let nodes := (Walk.reachableNodes (edgesOf ctx.tenantId edges)
      startNode).ncard
    (∀ depth depth', depth ≤ depth' → ∃ shorter longer,
      traverse ctx startNode depth (Mutex.new edges) =
        (.returned (.ok shorter), Mutex.new edges) ∧
      traverse ctx startNode depth' (Mutex.new edges) =
        (.returned (.ok longer), Mutex.new edges) ∧ shorter <+: longer) ∧
    (∀ depth, nodes ≤ depth →
      traverse ctx startNode depth (Mutex.new edges) =
        traverse ctx startNode nodes (Mutex.new edges)) ∧
    ∀ depth, ∃ found passes,
      Walk.countedCollect (edgesOf ctx.tenantId edges) depth [startNode]
        (Walk.start startNode) = (found, passes) ∧
      traverse ctx startNode depth (Mutex.new edges) =
        (.returned (.ok found), Mutex.new edges) ∧ passes ≤ nodes := by
  intro nodes
  refine ⟨fun depth depth' hdepth => ?_, fun depth hdepth => ?_, fun depth => ?_⟩
  · obtain ⟨more, rfl⟩ := Nat.exists_eq_add_of_le hdepth
    exact ⟨_, _, traverse_apply ctx startNode depth edges,
      traverse_apply ctx startNode (depth + more) edges,
      Walk.collect_prefix_add _ _ _ _⟩
  · rw [Mutex.new, traverse_apply, traverse_apply,
      Walk.collect_of_reachable_le hdepth]
  · refine ⟨_, _, rfl, ?_, Walk.passes_le_reachable _ _ _⟩
    rw [Walk.countedCollect_fst]
    exact traverse_apply ctx startNode depth edges

end InMemoryGraphStore

end Milona.Storage.Memory
