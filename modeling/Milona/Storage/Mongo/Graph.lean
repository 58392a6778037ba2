import Milona.Core.Traits
import Milona.Foundation.Reachability
import Milona.Storage.Mongo.Aggregation

/-!
# The MongoDB graph store

One document per edge in one collection.  A traversal is a `$graphLookup` that
starts from the start node, seeded by a `$documents` stage, and is restricted to
the caller's tenant; the server that runs it is a parameter, and
`MongoServer.Documented` states what the database documents of the commands that
the store sends.  The documents of the collection have the fields of
`EdgeDocument`, so reading an edge back from a document cannot fail.
-/

namespace Milona.Storage.Mongo

open Milona.Core Milona.Foundation

inductive MongoBackend where
  | atlas
  | documentDb
  deriving DecidableEq, Repr

def MongoBackend.supportsGraphTraversal : MongoBackend → Bool
  | .atlas => true
  | .documentDb => false

namespace EdgeDocument

def ofEdge (tenantId : TenantId) (edge : GraphEdge) : EdgeDocument :=
  ⟨tenantId.display, edge.fromNode, edge.toNode, edge.relation⟩

def toEdge (doc : EdgeDocument) : GraphEdge :=
  ⟨doc.fromNode, doc.toNode, doc.relation⟩

end EdgeDocument

/-! ## The commands of the store -/

namespace MongoGraphStore

/-- The cast of a `usize` to `i64` keeps the low 64 bits. -/
def toI64 (n : Nat) : Int := Int.bmod n (2 ^ 64)

def lookupStage (tenantId : TenantId) (maxDepth : Nat) : GraphLookup where
  startWith := "$_seed"
  connectFromField := "to"
  connectToField := "from"
  asField := "path"
  maxDepth := toI64 (maxDepth - 1)
  restrictSearchWithMatch := [("tenant_id", tenantId.display)]

def seedDocument (startNode : String) : List (String × String) :=
  [("_seed", startNode)]

def pipeline (tenantId : TenantId) (startNode : String) (maxDepth : Nat) :
    List Stage :=
  [.documents [seedDocument startNode], .graphLookup (lookupStage tenantId maxDepth),
    .unwind "$path", .replaceRoot "$path"]

end MongoGraphStore

open MongoGraphStore

/--
What the store asks of the database; a failure carries its text.  A system
variable is evaluated where no document is at hand, and `none` is an error.
-/
structure MongoServer where
  systemVariable : String → Option Value
  insertOne : EdgeDocument → List EdgeDocument →
    Except String (List EdgeDocument)
  aggregate : List Stage → List EdgeDocument →
    Except String (List EdgeDocument)

/-- The texts that a traversal starts from; `none` if its start node is an error. -/
def MongoServer.startsOf (server : MongoServer) (startNode : String) :
    Option (List String) :=
  ((Expression.read startNode).evaluate server.systemVariable none).map Value.starts

theorem MongoServer.startsOf_eq_some_iff {server : MongoServer} {startNode : String}
    {starts : List String} :
    server.startsOf startNode = some starts ↔
      (startNode.toList.head? ≠ some '$' ∧ starts = [startNode]) ∨
        ∃ name value, startNode = "$$" ++ name ∧
          server.systemVariable name = some value ∧ starts = value.starts := by
  simp only [MongoServer.startsOf, Option.map_eq_some_iff,
    Expression.evaluate_read_eq_some_iff]
  constructor
  · rintro ⟨value, ⟨hhead, rfl⟩ | ⟨name, hname, hvalue⟩, rfl⟩
    · exact .inl ⟨hhead, rfl⟩
    · exact .inr ⟨name, value, hname, hvalue, rfl⟩
  · rintro (⟨hhead, rfl⟩ | ⟨name, value, hname, hvalue, rfl⟩)
    · exact ⟨_, .inl ⟨hhead, rfl⟩, rfl⟩
    · exact ⟨value, .inr ⟨name, hname, hvalue⟩, rfl⟩

/-- The `$graphLookup` starts from the value of the seed. -/
theorem starts_lookupStage (server : MongoServer) (tenantId : TenantId)
    (startNode : String) (maxDepth : Nat) :
    (lookupStage tenantId maxDepth).starts server.systemVariable
        (seedDocument startNode) = server.startsOf startNode := by
  have hread : Expression.read "$_seed" = .fieldPath "_seed" := by decide
  cases hvalue : (Expression.read startNode).evaluate server.systemVariable none with
  | none => simp [GraphLookup.starts, seedDocument, MongoServer.startsOf, hvalue]
  | some value =>
      simp [GraphLookup.starts, seedDocument, MongoServer.startsOf, hvalue,
        lookupStage, hread, Expression.evaluate_fieldPath]

open Classical in
/--
The documented behaviour of the commands.  An insertion adds the document to the
collection.  A traversal fails if an expression of its `$documents` stage is an
error, and returns each selected document once otherwise.
-/
structure MongoServer.Documented (server : MongoServer) : Prop where
  insertOne : ∀ doc docs, ∃ docs', server.insertOne doc docs = .ok docs' ∧
    docs'.Perm (doc :: docs)
  refused : ∀ tenantId startNode maxDepth docs,
    (lookupStage tenantId maxDepth).starts server.systemVariable
        (seedDocument startNode) = none →
      ∃ e, server.aggregate (pipeline tenantId startNode maxDepth) docs = .error e
  answered : ∀ tenantId startNode maxDepth docs starts,
    0 ≤ (lookupStage tenantId maxDepth).maxDepth →
      (lookupStage tenantId maxDepth).starts server.systemVariable
          (seedDocument startNode) = some starts →
        ∃ found, server.aggregate (pipeline tenantId startNode maxDepth) docs =
            .ok found ∧
          found.Perm (docs.filter fun doc =>
            (lookupStage tenantId maxDepth).Selects starts docs doc)

/-! ## A server that behaves as documented -/

namespace ReferenceServer

/-- The clock is the one system variable that needs no document; it is a date. -/
def systemVariable : String → Option Value
  | "NOW" => some .other
  | _ => none

def aggregate (stages : List Stage) (docs : List EdgeDocument) :
    Except String (List EdgeDocument) :=
  match stages with
  | [.documents [seed], .graphLookup request, .unwind _, .replaceRoot _] =>
      match request.starts systemVariable seed with
      | none => .error "$documents cannot refer to a document"
      | some starts =>
          if request.maxDepth < 0 then
            .error "maxDepth requires a nonnegative argument"
          else
            .ok <| docs.filter fun doc =>
              doc ∈ request.reachedWithin starts docs request.maxDepth.toNat
  | _ => .error "unrecognized pipeline"

end ReferenceServer

def referenceServer : MongoServer where
  systemVariable := ReferenceServer.systemVariable
  insertOne doc docs := .ok (docs ++ [doc])
  aggregate := ReferenceServer.aggregate

theorem referenceServer_documented : referenceServer.Documented where
  insertOne doc docs := ⟨docs ++ [doc], rfl, List.perm_append_singleton _ _⟩
  refused tenantId startNode maxDepth docs hstarts := by
    refine ⟨"$documents cannot refer to a document", ?_⟩
    simp only [referenceServer] at hstarts
    simp only [referenceServer, ReferenceServer.aggregate, pipeline, hstarts]
  answered tenantId startNode maxDepth docs starts hdepth hstarts := by
    simp only [referenceServer] at hstarts
    refine ⟨docs.filter fun doc => doc ∈ (lookupStage tenantId maxDepth).reachedWithin
      starts docs (lookupStage tenantId maxDepth).maxDepth.toNat, ?_, List.Perm.of_eq ?_⟩
    · simp only [referenceServer, ReferenceServer.aggregate, pipeline, hstarts,
        if_neg (not_lt.mpr hdepth)]
    · refine List.filter_congr fun doc _ => decide_eq_decide.mpr ?_
      rw [GraphLookup.mem_reachedWithin, GraphLookup.Selects]
      refine exists_congr fun depth => and_congr_left fun _ => ?_
      omega

/-! ## The store -/

structure MongoGraphStore where
  server : MongoServer
  backend : MongoBackend

namespace MongoGraphStore

def addEdge (store : MongoGraphStore) (ctx : TenantContext)
    (edge : GraphEdge) : Action (List EdgeDocument) (Result Unit) := fun docs =>
  match store.server.insertOne (EdgeDocument.ofEdge ctx.tenantId edge) docs with
  | .ok docs' => (.returned (.ok ()), docs')
  | .error e =>
      (.returned (.error (.other ("mongo insert_one failed: " ++ e))), docs)

def traverse (store : MongoGraphStore) (ctx : TenantContext)
    (startNode : String) (maxDepth : Nat) :
    Action (List EdgeDocument) (Result (List GraphEdge)) := fun docs =>
  if !store.backend.supportsGraphTraversal then
    (.returned (.error (.unsupported
      "$graphLookup traversal is not supported on the configured MongoBackend (DocumentDB does not implement $graphLookup)")),
      docs)
  else
    match store.server.aggregate (pipeline ctx.tenantId startNode maxDepth) docs with
    | .ok found => (.returned (.ok (found.map EdgeDocument.toEdge)), docs)
    | .error e =>
        (.returned (.error (.other ("mongo $graphLookup failed: " ++ e))), docs)

def graphStore (store : MongoGraphStore) : GraphStore (List EdgeDocument) where
  addEdge := store.addEdge
  traverse := store.traverse
  supportsTraversal := store.backend.supportsGraphTraversal

theorem toI64_of_lt {n : Nat} (h : n < 2 ^ 63) : toI64 n = n := by
  unfold toI64
  exact Int.bmod_eq_of_le (by omega) (by omega)

theorem maxDepth_lookupStage (tenantId : TenantId) {maxDepth : Nat}
    (hdepth : maxDepth < 2 ^ 63) :
    (lookupStage tenantId maxDepth).maxDepth = ((maxDepth - 1 : Nat) : Int) := by
  simp only [lookupStage]
  exact toI64_of_lt (by omega)

/-! ## What a traversal selects -/

def edgesOf (tenantId : TenantId) (docs : List EdgeDocument) :
    List GraphEdge :=
  (docs.filter fun doc => doc.tenantId = tenantId.display).map
    EdgeDocument.toEdge

private theorem lookupStage_matches {tenantId : TenantId} {maxDepth : Nat}
    {doc : EdgeDocument} :
    (lookupStage tenantId maxDepth).Matches doc ↔
      doc.tenantId = tenantId.display := by
  simp [GraphLookup.Matches, lookupStage, EdgeDocument.get]

private theorem toEdge_mem_edgesOf {tenantId : TenantId}
    {docs : List EdgeDocument} {doc : EdgeDocument} (hdoc : doc ∈ docs)
    (htenant : doc.tenantId = tenantId.display) :
    doc.toEdge ∈ edgesOf tenantId docs :=
  List.mem_map.mpr ⟨doc, List.mem_filter.mpr ⟨hdoc, by simpa using htenant⟩, rfl⟩

/-- The recursion depth of a document counts the hops to its source node. -/
theorem reached_iff {tenantId : TenantId} {starts : List String}
    {maxDepth depth : Nat} {docs : List EdgeDocument} {doc : EdgeDocument} :
    (lookupStage tenantId maxDepth).Reached starts docs depth doc ↔
      doc ∈ docs ∧ doc.tenantId = tenantId.display ∧
        ∃ start ∈ starts, Hops GraphEdge.fromNode GraphEdge.toNode
          (edgesOf tenantId docs) start depth doc.fromNode := by
  constructor
  · intro h
    induction h with
    | @seed doc start hdoc hmatches hstart hfrom =>
        have hfrom : doc.fromNode = start := Option.some.inj hfrom
        refine ⟨hdoc, lookupStage_matches.mp hmatches, start, hstart, ?_⟩
        rw [hfrom]
        exact .refl
    | hop hprevious hto hdoc hmatches hfrom ih =>
        obtain ⟨hprevdoc, hprevtenant, start, hstart, hops⟩ := ih
        refine ⟨hdoc, lookupStage_matches.mp hmatches, start, hstart, ?_⟩
        have hlink := (Option.some.inj hto).trans (Option.some.inj hfrom).symm
        have htail := Hops.tail hops (toEdge_mem_edgesOf hprevdoc hprevtenant)
        exact hlink ▸ htail
  · rintro ⟨hdoc, htenant, start, hstart, hops⟩
    induction depth generalizing doc with
    | zero =>
        generalize hnode : doc.fromNode = node at hops
        cases hops
        exact .seed hdoc (lookupStage_matches.mpr htenant) hstart
          (congrArg some hnode)
    | succ depth ih =>
        generalize hnode : doc.fromNode = node at hops
        cases hops with
        | @tail _ edge hops hedge =>
            obtain ⟨previous, hprevious, rfl⟩ := List.mem_map.mp hedge
            obtain ⟨hprevdoc, hprevtenant⟩ := List.mem_filter.mp hprevious
            have hreached := ih hprevdoc (by simpa using hprevtenant) hops
            exact .hop hreached rfl hdoc (lookupStage_matches.mpr htenant)
              (congrArg some hnode)

/-- For a request of `maxDepth`, at least one round is walked. -/
theorem selects_iff {tenantId : TenantId} {starts : List String}
    {maxDepth : Nat} (hdepth : maxDepth < 2 ^ 63) {docs : List EdgeDocument}
    {doc : EdgeDocument} :
    (lookupStage tenantId maxDepth).Selects starts docs doc ↔
      doc ∈ docs ∧ doc.tenantId = tenantId.display ∧
        ∃ start ∈ starts, doc.fromNode ∈ closer GraphEdge.fromNode
          GraphEdge.toNode (edgesOf tenantId docs) start (max maxDepth 1) := by
  have hbound : ∀ depth : Nat,
      (depth : Int) ≤ (lookupStage tenantId maxDepth).maxDepth ↔
        depth < max maxDepth 1 := by
    intro depth
    rw [maxDepth_lookupStage tenantId hdepth]
    omega
  unfold GraphLookup.Selects
  simp only [reached_iff, hbound, mem_closer_iff]
  constructor
  · rintro ⟨depth, hlt, hdoc, htenant, start, hstart, hops⟩
    exact ⟨hdoc, htenant, start, hstart, depth, hlt, hops⟩
  · rintro ⟨hdoc, htenant, start, hstart, depth, hlt, hops⟩
    exact ⟨depth, hlt, hdoc, htenant, start, hstart, hops⟩

open Classical in
theorem map_toEdge_selected (tenantId : TenantId) (starts : List String)
    {maxDepth : Nat} (hdepth : maxDepth < 2 ^ 63) (docs : List EdgeDocument) :
    (docs.filter fun doc =>
        (lookupStage tenantId maxDepth).Selects starts docs doc).map
          EdgeDocument.toEdge =
      (edgesOf tenantId docs).filter fun edge =>
        ∃ start ∈ starts, edge.fromNode ∈ closer GraphEdge.fromNode
          GraphEdge.toNode (edgesOf tenantId docs) start (max maxDepth 1) := by
  rw [edgesOf, List.filter_map, List.filter_filter]
  refine congrArg _ (List.filter_congr fun doc hdoc => ?_)
  rw [Bool.eq_iff_iff, Bool.and_eq_true]
  simp only [Function.comp_apply, decide_eq_true_eq, selects_iff hdepth,
    hdoc, true_and]
  exact and_comm

/--
On Atlas a traversal returns the tenant's edges that leave a node at distance
less than `max maxDepth 1` from the start.
-/
theorem traverse_perm {store : MongoGraphStore}
    (hserver : store.server.Documented) (hatlas : store.backend = .atlas)
    (ctx : TenantContext) {startNode : String} {starts : List String}
    (hstarts : store.server.startsOf startNode = some starts) {maxDepth : Nat}
    (hdepth : maxDepth < 2 ^ 63) (docs : List EdgeDocument) :
    ∃ found,
      (store.traverse ctx startNode maxDepth docs).1 = .returned (.ok found) ∧
      found.Perm ((edgesOf ctx.tenantId docs).filter fun edge =>
        ∃ start ∈ starts, edge.fromNode ∈ closer GraphEdge.fromNode
          GraphEdge.toNode (edgesOf ctx.tenantId docs) start (max maxDepth 1)) := by
  classical
  obtain ⟨found, hfound, hperm⟩ := hserver.answered ctx.tenantId startNode maxDepth
    docs starts (by rw [maxDepth_lookupStage ctx.tenantId hdepth]; omega)
    ((starts_lookupStage _ _ _ _).trans hstarts)
  refine ⟨found.map EdgeDocument.toEdge, ?_, ?_⟩
  · simp [traverse, hatlas, MongoBackend.supportsGraphTraversal, hfound]
  · refine (hperm.map EdgeDocument.toEdge).trans (List.Perm.of_eq ?_)
    rw [map_toEdge_selected ctx.tenantId starts hdepth docs]

/-- On Atlas a traversal from a start node that is an error fails. -/
theorem traverse_refused {store : MongoGraphStore}
    (hserver : store.server.Documented) (hatlas : store.backend = .atlas)
    (ctx : TenantContext) {startNode : String}
    (hstarts : store.server.startsOf startNode = none) (maxDepth : Nat)
    (docs : List EdgeDocument) :
    ∃ e, (store.traverse ctx startNode maxDepth docs).1 = .returned (.error e) := by
  obtain ⟨e, he⟩ := hserver.refused ctx.tenantId startNode maxDepth docs
    ((starts_lookupStage _ _ _ _).trans hstarts)
  refine ⟨.other ("mongo $graphLookup failed: " ++ e), ?_⟩
  simp [traverse, hatlas, MongoBackend.supportsGraphTraversal, he]

end MongoGraphStore

end Milona.Storage.Mongo
