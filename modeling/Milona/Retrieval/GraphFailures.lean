import Milona.Retrieval.Effects

/-!
# Retrieval under graph failures

The traversals of one retrieval succeed or fail one by one.  The loop makes one
item for each match from that match and its own traversal alone, whatever the
other traversals did.
-/

namespace Milona.Retrieval

open Milona.Core Milona.Foundation Milona.Foundation.Action

variable {σ : Type}

def edgesOf : Result (List GraphEdge) → List GraphEdge
  | .ok edges => edges
  | .error _ => []

def enrich (found : VectorMatch) (edges : List GraphEdge) : RetrievedItem :=
  ⟨found.chunkId, found.score, edges⟩

def enrichWith (found : VectorMatch) (result : Result (List GraphEdge)) :
    RetrievedItem := enrich found (edgesOf result)

/-- The traversal from the node of a match, with its result. -/
def traversal (ctx : TenantContext) (knowledge : Knowledge σ) (found : VectorMatch)
    (result : Result (List GraphEdge)) : Event :=
  .traversed ctx (chunkIdAsNode found.chunkId) knowledge.graphTraversalDepth
    (.returned result)

/-- The items and the traversals of a loop over the matches. -/
inductive LoopRun (ctx : TenantContext) (knowledge : Knowledge σ)
    (found : List VectorMatch) : Outcome (List RetrievedItem) →
    List Event → Prop where
  | unsupported (hsupports : knowledge.graphStore.supportsTraversal = false) :
      LoopRun ctx knowledge found
        (.returned (found.map fun hit => enrich hit [])) []
  | finished (results : List (Result (List GraphEdge)))
      (hsupports : knowledge.graphStore.supportsTraversal = true)
      (hlength : results.length = found.length) :
      LoopRun ctx knowledge found
        (.returned (List.zipWith enrichWith found results))
        (List.zipWith (traversal ctx knowledge) found results)
  | unwound (events : List Event)
      (hsupports : knowledge.graphStore.supportsTraversal = true)
      (hunwound : ∃ event ∈ events, event.Unwound) :
      LoopRun ctx knowledge found .panicked events

private theorem not_unwound_traversals (ctx : TenantContext)
    (knowledge : Knowledge σ)
    (found : List VectorMatch) (results : List (Result (List GraphEdge))) :
    ∀ event ∈ List.zipWith (traversal ctx knowledge) found results,
      ¬ event.Unwound := by
  induction found generalizing results with
  | nil => simp
  | cons first rest ih =>
      cases results with
      | nil => simp
      | cons result results =>
          intro event hevent
          rcases List.mem_cons.mp hevent with rfl | hlater
          · exact fun hunwound => (nomatch hunwound)
          · exact ih results event hlater

namespace LoopRun

variable {ctx : TenantContext} {knowledge : Knowledge σ} {found : List VectorMatch}
variable {outcome : Outcome (List RetrievedItem)} {events : List Event}

theorem panicked_iff (h : LoopRun ctx knowledge found outcome events) :
    outcome = .panicked ↔ ∃ event ∈ events, event.Unwound := by
  cases h with
  | unsupported hsupports => simp
  | finished results hsupports hlength =>
      constructor
      · exact fun hpanicked => (nomatch hpanicked)
      · rintro ⟨event, hevent, hunwound⟩
        exact absurd hunwound
          (not_unwound_traversals ctx knowledge found results event hevent)
  | unwound events hsupports hunwound => exact ⟨fun _ => hunwound, fun _ => rfl⟩

theorem cons {first : VectorMatch} {rest : List VectorMatch}
    {result : Result (List GraphEdge)} {items : List RetrievedItem}
    (hsupports : knowledge.graphStore.supportsTraversal = true)
    (h : LoopRun ctx knowledge rest (.returned items) events) :
    LoopRun ctx knowledge (first :: rest)
        (.returned (enrichWith first result :: items))
      (traversal ctx knowledge first result :: events) := by
  cases h with
  | unsupported hnot =>
      rw [hsupports] at hnot
      cases hnot
  | finished results _ hlength =>
      exact .finished (result :: results) hsupports (congrArg Nat.succ hlength)

end LoopRun

private theorem emits_relatedEdges_result {knowledge : Knowledge σ}
    (hsupports : knowledge.graphStore.supportsTraversal = true)
    (ctx : TenantContext) (found : VectorMatch) :
    Emits ((tracedKnowledge knowledge).relatedEdges ctx found.chunkId)
      fun outcome events =>
        (∃ result, outcome = .returned (edgesOf result) ∧
          events = [traversal ctx knowledge found result]) ∨
        (outcome = .panicked ∧ ∃ event ∈ events, event.Unwound) := by
  have htraced : (tracedKnowledge knowledge).graphStore.supportsTraversal = true :=
    hsupports
  have htraverse : Emits ((tracedKnowledge knowledge).graphStore.traverse ctx
      (chunkIdAsNode found.chunkId)
        (tracedKnowledge knowledge).graphTraversalDepth)
      fun outcome events => events =
        [.traversed ctx (chunkIdAsNode found.chunkId) knowledge.graphTraversalDepth
          outcome] := emits_logged fun _ => rfl
  unfold Knowledge.relatedEdges
  rw [if_pos htraced]
  refine htraverse.bind (fun result events hevents => ?_) fun events hevents => ?_
  · subst hevents
    cases result <;> exact emits_pure (Or.inl ⟨_, rfl, rfl⟩)
  · subst hevents
    exact Or.inr ⟨rfl, _, List.mem_singleton_self _, rfl⟩

private theorem emits_collectItems_run {knowledge : Knowledge σ}
    (hsupports : knowledge.graphStore.supportsTraversal = true)
    (ctx : TenantContext) (found : List VectorMatch) :
    Emits ((tracedKnowledge knowledge).collectItems ctx found)
      (LoopRun ctx knowledge found) := by
  induction found with
  | nil => exact emits_pure (.finished [] hsupports rfl)
  | cons first rest ih =>
      refine (emits_relatedEdges_result hsupports ctx first).bind
        (fun edges events hevents => ?_) fun events hevents => ?_
      · rcases hevents with ⟨result, hedges, rfl⟩ | ⟨hpanicked, -⟩
        · cases hedges
          refine ih.bind (fun items later hlater => ?_) fun later hlater => ?_
          · refine emits_pure ?_
            rw [List.append_nil]
            exact hlater.cons hsupports
          · obtain ⟨event, hevent, hunwound⟩ := hlater.panicked_iff.mp rfl
            exact .unwound _ hsupports
              ⟨event, List.mem_append_right _ hevent, hunwound⟩
        · cases hpanicked
      · rcases hevents with ⟨result, hedges, -⟩ | ⟨-, hunwound⟩
        · cases hedges
        · exact .unwound events hsupports hunwound

private theorem collectItems_of_unsupported {knowledge : Knowledge σ}
    (hsupports : knowledge.graphStore.supportsTraversal = false)
    (ctx : TenantContext) (found : List VectorMatch) :
    knowledge.collectItems ctx found =
      return found.map fun hit => enrich hit [] := by
  induction found with
  | nil => rfl
  | cons first rest ih =>
      have hedges : knowledge.relatedEdges ctx first.chunkId = return [] := by
        rw [Knowledge.relatedEdges, hsupports]
        rfl
      rw [Knowledge.collectItems, hedges, ih]
      rfl

private theorem loopRun_collectItems (knowledge : Knowledge σ)
    (ctx : TenantContext) (found : List VectorMatch) :
    Emits ((tracedKnowledge knowledge).collectItems ctx found)
      (LoopRun ctx knowledge found) := by
  cases hsupports : knowledge.graphStore.supportsTraversal with
  | true => exact emits_collectItems_run hsupports ctx found
  | false =>
      have htraced : (tracedKnowledge knowledge).graphStore.supportsTraversal =
        false :=
        hsupports
      rw [collectItems_of_unsupported htraced]
      exact emits_pure (.unsupported hsupports)

def okItems : Outcome (List RetrievedItem) → Outcome (Result (List RetrievedItem))
  | .returned items => .returned (.ok items)
  | .panicked => .panicked

private theorem retrieve_traced_of_found {knowledge : Knowledge σ}
    {ctx : TenantContext}
    {query : List Float32} {topK : Nat} {s : σ} {found : List VectorMatch}
    (hread : knowledge.policy.canRead ctx ctx.tenantId = true)
    (hsearch : (knowledge.vectorStore.search ctx query topK s).1 =
      .returned (.ok found)) :
    ∃ outcome traversed,
      ((tracedKnowledge knowledge).retrieve ctx query topK (s, [])).1 =
          okItems outcome ∧
        ((tracedKnowledge knowledge).retrieve ctx query topK (s, [])).2.2 =
          .searched ctx query topK (.returned (.ok found)) :: traversed ∧
        LoopRun ctx knowledge found outcome traversed := by
  obtain ⟨s₁, hfound⟩ := Action.exists_of_outcome hsearch
  have htraced : (tracedKnowledge knowledge).vectorStore.search ctx query
      topK (s, []) =
      (.returned (.ok found),
        (s₁, [.searched ctx query topK (.returned (.ok found))])) := by
    change logged _ _ _ = _
    rw [logged, hfound]
    rfl
  obtain ⟨traversed, hlog, hrun⟩ := loopRun_collectItems knowledge ctx found s₁
    [.searched ctx query topK (.returned (.ok found))]
  rw [@Knowledge.retrieve_of_permitted _ (tracedKnowledge knowledge) ctx hread,
    htraced]
  refine ⟨_, traversed, ?_, ?_, hrun⟩
  · dsimp only
    rcases (tracedKnowledge knowledge).collectItems ctx found
        (s₁, [.searched ctx query topK (.returned (.ok found))]) with
      ⟨items | _, s₂⟩ <;> rfl
  · refine Eq.trans ?_ hlog
    dsimp only
    rcases (tracedKnowledge knowledge).collectItems ctx found
        (s₁, [.searched ctx query topK (.returned (.ok found))]) with
      ⟨items | _, s₂⟩ <;> rfl

theorem LoopRun.matches_items {ctx : TenantContext} {knowledge : Knowledge σ}
    {found : List VectorMatch} {items : List RetrievedItem} {events : List Event}
    (h : LoopRun ctx knowledge found (.returned items) events) :
    items.map RetrievedItem.toMatch = found := by
  cases h with
  | unsupported hsupports =>
      rw [List.map_map]
      exact List.map_id found
  | finished results hsupports hlength =>
      induction found generalizing results with
      | nil => rfl
      | cons first rest ih =>
          cases results with
          | nil => cases hlength
          | cons result results =>
              rw [List.zipWith_cons_cons, List.map_cons,
                ih results (Nat.succ.inj hlength)]
              rfl

theorem retrieve_enriches {knowledge : Knowledge σ} {ctx : TenantContext}
    {query : List Float32} {topK : Nat} {s : σ} {found : List VectorMatch}
    (hread : knowledge.policy.canRead ctx ctx.tenantId = true)
    (hsearch : (knowledge.vectorStore.search ctx query topK s).1 =
      .returned (.ok found)) :
    ∃ outcome traversed,
      (knowledge.retrieve ctx query topK s).1 = okItems outcome ∧
        ((tracedKnowledge knowledge).retrieve ctx query topK (s, [])).2.2 =
          .searched ctx query topK (.returned (.ok found)) :: traversed ∧
        LoopRun ctx knowledge found outcome traversed ∧
        (outcome = .panicked ↔ ∃ event ∈ traversed, event.Unwound) ∧
        ∀ items, outcome = .returned items →
          items.map RetrievedItem.toMatch = found := by
  obtain ⟨outcome, traversed, hrun, hlog, hloop⟩ :=
    retrieve_traced_of_found hread hsearch
  have hplain := (instruments_retrieve knowledge ctx query topK s []).1
  refine ⟨outcome, traversed, by rw [← hplain, hrun], hlog, hloop,
    hloop.panicked_iff, ?_⟩
  rintro items rfl
  exact hloop.matches_items

/-- A facade over fixed matches whose traversal fails at one node. -/
def fixedKnowledge (found : List VectorMatch) (failing : String)
    (edges : List GraphEdge) : Knowledge Unit :=
  .new ⟨fun _ _ _ => return .ok (), fun _ _ _ => return .ok found,
      fun _ _ => return .ok ()⟩
    ⟨fun _ _ => return .ok (), fun _ startNode _ =>
      return if startNode = failing then .error (.upstream "traversal failed")
        else .ok edges, true⟩
    sameTenantPolicy

theorem retrieve_enriches_fixedKnowledge :
    let ctx : TenantContext := ⟨⟨⟨1⟩⟩, .member, "user-1"⟩
    let found : List VectorMatch := [⟨⟨⟨1⟩⟩, 1⟩, ⟨⟨⟨2⟩⟩, 0⟩]
    let knowledge := fixedKnowledge found (chunkIdAsNode ⟨⟨1⟩⟩)
      [⟨"a", "b", "cites"⟩]
    ∃ outcome traversed,
      (knowledge.retrieve ctx [1] 2 ()).1 = okItems outcome ∧
        ((tracedKnowledge knowledge).retrieve ctx [1] 2 ((), [])).2.2 =
          .searched ctx [1] 2 (.returned (.ok found)) :: traversed ∧
        LoopRun ctx knowledge found outcome traversed ∧
        (outcome = .panicked ↔ ∃ event ∈ traversed, event.Unwound) ∧
        ∀ items, outcome = .returned items →
          items.map RetrievedItem.toMatch = found :=
  retrieve_enriches (sameTenantPolicy_canRead _) rfl

end Milona.Retrieval
