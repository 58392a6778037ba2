import Milona.Storage.Memory.VectorHistory
import Milona.Storage.Memory.VectorIsolation
import Milona.Storage.Mongo.VectorFrame
import Milona.Storage.ResultBound

/-!
# The two vector stores side by side

A collection corresponds to a map of records when it has one document for each
record, under the text of its chunk id.  After any run the collection
corresponds to the records of the writes that it acknowledged, in the order in
which it did; none of these takes a chunk id over from another tenant.  Without
outages it acknowledges a whole history exactly if nothing in it does.
-/

namespace Milona.Storage

open Milona.Core Milona.Foundation
open Milona.Storage.Memory Milona.Storage.Mongo

/-- The document has the fields of the record. -/
structure Keeps (doc : VectorDocument) (record : StoredVector) : Prop where
  tenantId : doc.tenantId = record.tenantId.display
  documentId : doc.documentId = record.documentId.uuid.hyphenated
  embedding : doc.embedding = record.embedding

structure Corresponds (records : Records) (docs : VectorCollection) : Prop where
  documents : ∀ chunkId record, records.lookup chunkId = some record →
    ∃ doc, docs.find chunkId.uuid.hyphenated = some doc ∧ Keeps doc record
  records : ∀ id doc, docs.find id = some doc →
    ∃ chunkId record, id = chunkId.uuid.hyphenated ∧
      records.lookup chunkId = some record ∧ Keeps doc record

theorem chunkId_hyphenated_inj {chunkId chunkId' : ChunkId}
    (h : chunkId.uuid.hyphenated = chunkId'.uuid.hyphenated) :
    chunkId = chunkId' := by
  cases chunkId
  cases chunkId'
  exact congrArg ChunkId.mk (Uuid.hyphenated_injective h)

theorem documentId_hyphenated_inj {documentId documentId' : DocumentId}
    (h : documentId.uuid.hyphenated = documentId'.uuid.hyphenated) :
    documentId = documentId' := by
  cases documentId
  cases documentId'
  exact congrArg DocumentId.mk (Uuid.hyphenated_injective h)

theorem corresponds_empty : Corresponds ∅ Collection.empty where
  documents chunkId record h := by simp at h
  records id doc h := by simp at h

namespace Corresponds

variable {records : Records} {docs : VectorCollection}

theorem lookup_of_find (h : Corresponds records docs) {chunkId : ChunkId}
    {doc : VectorDocument} (hfind : docs.find chunkId.uuid.hyphenated = some doc) :
    ∃ record, records.lookup chunkId = some record ∧ Keeps doc record := by
  obtain ⟨chunkId', record, hid, hlookup, hkeeps⟩ := h.records _ doc hfind
  rw [chunkId_hyphenated_inj hid]
  exact ⟨record, hlookup, hkeeps⟩

theorem upsert (h : Corresponds records docs) (ctx : TenantContext) (chunk : Chunk)
    (embedding : List Float32) :
    Corresponds ((VectorCall.upsert ctx chunk embedding).effect records)
      (docs.put (VectorDocument.ofChunk ctx chunk embedding)) := by
  have hkeeps : Keeps (VectorDocument.ofChunk ctx chunk embedding)
      ⟨ctx.tenantId, chunk.documentId, embedding⟩ := ⟨rfl, rfl, rfl⟩
  have hid : (VectorDocument.ofChunk ctx chunk embedding).chunkId =
      chunk.id.uuid.hyphenated := rfl
  constructor
  · intro chunkId record hlookup
    simp only [VectorCall.effect, HashMap.lookup_insert_eq_ite] at hlookup
    rw [Collection.find_put, hid]
    split at hlookup
    · rename_i hchunk
      cases hlookup
      rw [if_pos (by rw [hchunk])]
      exact ⟨_, rfl, hkeeps⟩
    · rename_i hchunk
      rw [if_neg fun hsame => hchunk (chunkId_hyphenated_inj hsame)]
      exact h.documents chunkId record hlookup
  · intro id doc hfind
    rw [Collection.find_put, hid] at hfind
    split at hfind
    · rename_i hchunk
      rw [← Option.some.inj hfind]
      exact ⟨chunk.id, _, hchunk, Finmap.lookup_insert records, hkeeps⟩
    · rename_i hchunk
      obtain ⟨chunkId, record, rfl, hlookup, hkept⟩ := h.records id doc hfind
      refine ⟨chunkId, record, rfl, ?_, hkept⟩
      have hne : chunkId ≠ chunk.id := fun hsame => hchunk (by rw [hsame])
      rw [VectorCall.effect, Finmap.lookup_insert_of_ne records hne, hlookup]

theorem matches_deleteFilter_iff {doc : VectorDocument} {record : StoredVector}
    (h : Keeps doc record) (ctx : TenantContext) (documentId : DocumentId) :
    doc.matchesFilter (MongoVectorStore.deleteFilter ctx documentId) =
      (record.tenantId = ctx.tenantId &&
        record.documentId = documentId : Bool) := by
  rw [Bool.eq_iff_iff, MongoVectorStore.matches_deleteFilter, h.tenantId,
    h.documentId, TenantId.display_injective.eq_iff]
  simp only [Bool.and_eq_true, decide_eq_true_eq]
  refine and_congr_right fun _ => ⟨documentId_hyphenated_inj, ?_⟩
  rintro rfl
  rfl

theorem deleteDocument (h : Corresponds records docs) (ctx : TenantContext)
    (documentId : DocumentId) :
    Corresponds ((VectorCall.deleteDocument ctx documentId).effect records)
      (docs.deleteMany (VectorDocument.matchesFilter
        (MongoVectorStore.deleteFilter ctx documentId))) := by
  constructor
  · intro chunkId record hlookup
    rw [VectorCall.effect, HashMap.lookup_retain,
      Option.filter_eq_some_iff] at hlookup
    obtain ⟨doc, hfind, hkeeps⟩ := h.documents chunkId record hlookup.1
    refine ⟨doc, Collection.find_deleteMany.mpr ⟨hfind, ?_⟩, hkeeps⟩
    rw [matches_deleteFilter_iff hkeeps]
    rw [← Bool.not_eq_true']
    exact hlookup.2
  · intro id doc hfind
    obtain ⟨hfind, hspared⟩ := Collection.find_deleteMany.mp hfind
    obtain ⟨chunkId, record, hid, hlookup, hkeeps⟩ := h.records id doc hfind
    refine ⟨chunkId, record, hid, ?_, hkeeps⟩
    rw [matches_deleteFilter_iff hkeeps] at hspared
    rw [VectorCall.effect, HashMap.lookup_retain, Option.filter_eq_some_iff]
    rw [← Bool.not_eq_true'] at hspared
    exact ⟨hlookup, hspared⟩

/-- The id is free for the caller's tenant on both sides or on neither. -/
theorem free_iff (h : Corresponds records docs) (ctx : TenantContext)
    (chunk : Chunk) (embedding : List Float32) :
    MongoVectorStore.Free ctx chunk docs ↔
      VectorCall.Harmless records (.upsert ctx chunk embedding) := by
  constructor
  · intro hfree
    refine ⟨id, fun record hlookup => ?_⟩
    obtain ⟨doc, hfind, hkeeps⟩ := h.documents chunk.id record hlookup
    apply TenantId.display_injective
    rw [← hkeeps.tenantId, hfree doc hfind]
  · rintro ⟨-, hown⟩ doc hfind
    obtain ⟨record, hlookup, hkeeps⟩ := h.lookup_of_find hfind
    rw [hkeeps.tenantId, hown record hlookup]

end Corresponds

/-! ## Acknowledged writes -/

def writeOf : MongoVectorCall → Option VectorWrite
  | .upsert _ ctx chunk embedding => some (.upsert ctx chunk embedding)
  | .search .. => none
  | .deleteDocument _ ctx documentId => some (.deleteDocument ctx documentId)

/-- The write of a call that succeeds. -/
def acknowledgedBy (store : MongoVectorStore) (docs : VectorCollection)
    (call : MongoVectorCall) : List VectorWrite :=
  match (call.perform store docs).1 with
  | .returned (.ok ()) => (writeOf call).toList
  | .returned (.error _) | .panicked => []

def acknowledged (store : MongoVectorStore) :
    VectorCollection → List MongoVectorCall → List VectorWrite
  | _, [] => []
  | docs, call :: calls =>
      acknowledgedBy store docs call ++
        acknowledged store (MongoVectorCall.next store docs call) calls

/-- The write takes no chunk id over from another tenant. -/
abbrev TakesNothing (store : InMemoryVectorStore) (call : VectorCall) : Prop :=
  VectorCall.Harmless store.value call

/-- What a call does to the collection, and what it acknowledges. -/
inductive Effect (store : MongoVectorStore) (docs : VectorCollection) :
    MongoVectorCall → Prop where
  | upserted (link : Link) (ctx : TenantContext) (chunk : Chunk)
      (embedding : List Float32) : MongoVectorStore.Free ctx chunk docs →
      (MongoVectorCall.upsert link ctx chunk embedding).perform store docs =
        (.returned (.ok ()),
          docs.put (VectorDocument.ofChunk ctx chunk embedding)) →
      Effect store docs (.upsert link ctx chunk embedding)
  | deleted (link : Link) (ctx : TenantContext) (documentId : DocumentId) :
      (MongoVectorCall.deleteDocument link ctx documentId).perform store docs =
        (.returned (.ok ()), docs.deleteMany (VectorDocument.matchesFilter
          (MongoVectorStore.deleteFilter ctx documentId))) →
      Effect store docs (.deleteDocument link ctx documentId)
  | nothing (call : MongoVectorCall) : acknowledgedBy store docs call = [] →
      MongoVectorCall.next store docs call = docs → Effect store docs call

theorem effect_cases (store : MongoVectorStore) (docs : VectorCollection)
    (call : MongoVectorCall) : Effect store docs call := by
  cases call with
  | upsert link ctx chunk embedding =>
      rcases store.upsert_cases link ctx chunk embedding docs with
        ⟨hfree, hupsert⟩ | ⟨e, hupsert⟩
      · exact .upserted link ctx chunk embedding hfree hupsert
      · refine .nothing _ ?_ ?_
        · rw [acknowledgedBy, MongoVectorCall.perform, hupsert]
        · rw [MongoVectorCall.next, MongoVectorCall.perform, hupsert]
  | search ctx query topK =>
      refine .nothing _ ?_ ?_
      · unfold acknowledgedBy writeOf
        split <;> rfl
      · have hsame := store.search_snd ctx query topK docs
        rw [MongoVectorCall.next, MongoVectorCall.perform, Action.bind_apply]
        rcases hsearch : store.search ctx query topK docs with
            ⟨found | _, docs'⟩ <;>
          rw [hsearch] at hsame <;> exact hsame
  | deleteDocument link ctx documentId =>
      cases houtage : link.outage with
      | none =>
          refine .deleted link ctx documentId ?_
          simp only [MongoVectorCall.perform,
            MongoVectorStore.deleteDocument, houtage]
      | some e =>
          refine .nothing _ ?_ ?_
          · simp only [acknowledgedBy, MongoVectorCall.perform,
              MongoVectorStore.deleteDocument, houtage]
          · simp only [MongoVectorCall.next, MongoVectorCall.perform,
              MongoVectorStore.deleteDocument, houtage]

/-! ## Runs -/

def recordsAfter (records : Records) (writes : List VectorWrite) : Records :=
  writes.foldl (fun records write => write.call.effect records) records

theorem next_write (records : Records) (write : VectorWrite) :
    VectorCall.next ⟨records, false⟩ write.call =
      ⟨write.call.effect records, false⟩ :=
  VectorCall.next_of_not_faults (write.not_faults records)

/-- Run lemma: the collection refines the records of what it acknowledged. -/
theorem refines_run (store : MongoVectorStore) {records : Records}
    {docs : VectorCollection} (h : Corresponds records docs)
    (calls : List MongoVectorCall) :
    Corresponds (recordsAfter records (acknowledged store docs calls))
        (calls.foldl (MongoVectorCall.next store) docs) ∧
      EachStep VectorCall.next TakesNothing ⟨records, false⟩
        ((acknowledged store docs calls).map VectorWrite.call) := by
  induction calls generalizing records docs with
  | nil => exact ⟨h, trivial⟩
  | cons call calls ih =>
      rw [acknowledged, List.foldl_cons]
      cases effect_cases store docs call with
      | upserted link ctx chunk embedding hfree hperform =>
          have hack : acknowledgedBy store docs
              (.upsert link ctx chunk embedding) =
              [.upsert ctx chunk embedding] := by
            rw [acknowledgedBy, hperform]
            rfl
          have hnext : MongoVectorCall.next store docs
              (.upsert link ctx chunk embedding) =
              docs.put (VectorDocument.ofChunk ctx chunk embedding) := by
            rw [MongoVectorCall.next, hperform]
          obtain ⟨hlast, hrest⟩ := ih (h.upsert ctx chunk embedding)
          rw [hack, hnext]
          refine ⟨hlast, (h.free_iff ctx chunk embedding).mp hfree, ?_⟩
          rw [next_write]
          exact hrest
      | deleted link ctx documentId hperform =>
          have hack : acknowledgedBy store docs
              (.deleteDocument link ctx documentId) =
              [.deleteDocument ctx documentId] := by
            rw [acknowledgedBy, hperform]
            rfl
          have hnext : MongoVectorCall.next store docs
              (.deleteDocument link ctx documentId) =
              docs.deleteMany (VectorDocument.matchesFilter
                (MongoVectorStore.deleteFilter ctx documentId)) := by
            rw [MongoVectorCall.next, hperform]
          obtain ⟨hlast, hrest⟩ := ih (h.deleteDocument ctx documentId)
          rw [hack, hnext]
          refine ⟨hlast, ⟨id, trivial⟩, ?_⟩
          rw [next_write]
          exact hrest
      | nothing _ hack hnext =>
          rw [hack, hnext]
          exact ih h

/--
After any run, with any outages, the collection corresponds to the records of
the acknowledged writes, none of which takes a chunk id over.
-/
theorem mongo_refines_memory (store : MongoVectorStore)
    (calls : List MongoVectorCall) :
    let writes := acknowledged store Collection.empty calls
    Corresponds (VectorWrite.after writes).value
        (calls.foldl (MongoVectorCall.next store) Collection.empty) ∧
      EachStep VectorCall.next TakesNothing InMemoryVectorStore.empty
        (writes.map VectorWrite.call) := by
  intro writes
  obtain ⟨hlast, hsteps⟩ := refines_run store corresponds_empty calls
  rw [VectorWrite.after_eq]
  exact ⟨hlast, hsteps⟩

/-- The same write, met by a database that is reached. -/
def reached (order : IterationOrder String VectorDocument) :
    VectorWrite → MongoVectorCall
  | .upsert ctx chunk embedding => .upsert ⟨order, none⟩ ctx chunk embedding
  | .deleteDocument ctx documentId => .deleteDocument ⟨order, none⟩ ctx documentId

private theorem perform_reached (store : MongoVectorStore)
    (order : IterationOrder String VectorDocument) {records : Records}
    {docs : VectorCollection} (h : Corresponds records docs) {write : VectorWrite}
    (hwrite : VectorCall.Harmless records write.call) :
    ∃ docs', (reached order write).perform store docs =
      (.returned (.ok ()), docs') ∧
      Corresponds (write.call.effect records) docs' := by
  cases write with
  | upsert ctx chunk embedding =>
      have hfree := (h.free_iff ctx chunk embedding).mpr hwrite
      exact ⟨_, store.upsert_of_free order embedding hfree,
        h.upsert ctx chunk embedding⟩
  | deleteDocument ctx documentId =>
      exact ⟨_, rfl, h.deleteDocument ctx documentId⟩

theorem acknowledged_reached (store : MongoVectorStore)
    (order : IterationOrder String VectorDocument) {records : Records}
    {docs : VectorCollection} (h : Corresponds records docs)
    {writes : List VectorWrite}
    (hwrites : EachStep VectorCall.next TakesNothing ⟨records, false⟩
      (writes.map VectorWrite.call)) :
    acknowledged store docs (writes.map (reached order)) = writes := by
  induction writes generalizing records docs with
  | nil => rfl
  | cons write writes ih =>
      obtain ⟨hwrite, hrest⟩ := hwrites
      obtain ⟨docs', hperform, hafter⟩ := perform_reached store order h hwrite
      rw [next_write] at hrest
      have hack : acknowledgedBy store docs (reached order write) = [write] := by
        rw [acknowledgedBy, hperform]
        cases write <;> rfl
      have hnext : MongoVectorCall.next store docs (reached order write) =
        docs' := by
        rw [MongoVectorCall.next, hperform]
      rw [List.map_cons, acknowledged, hack, hnext, ih hafter hrest]
      rfl

/-- The stores agree on a history exactly if nothing in it takes an id over. -/
theorem all_acknowledged_iff (store : MongoVectorStore)
    (order : IterationOrder String VectorDocument) (writes : List VectorWrite) :
    acknowledged store Collection.empty (writes.map (reached order)) = writes ↔
      EachStep VectorCall.next TakesNothing InMemoryVectorStore.empty
        (writes.map VectorWrite.call) := by
  constructor
  · intro h
    have hsteps := (refines_run store corresponds_empty
      (writes.map (reached order))).2
    rwa [h] at hsteps
  · exact acknowledged_reached store order corresponds_empty

/-! ## Searches -/

/-- What is documented of a search, for the rows that it returns. -/
structure Selective (server : VectorServer) : Prop where
  eligible : ∀ stage docs rows, server.vectorSearch stage docs = .ok rows →
    ∃ hits : List (VectorDocument × Option Float), rows = hits.map projected ∧
      (∀ hit ∈ hits, Eligible stage docs hit.1) ∧
      (hits.map fun hit => hit.1.chunkId).Nodup
  parse : ∀ id : Uuid, server.parseUuid id.hyphenated = .ok id

section Search

variable {store : MongoVectorStore} {records : Records} {docs : VectorCollection}
variable {ctx : TenantContext} {query : List Float32} {topK : Nat}

/-- The documents that a search may return stand for the caller's records. -/
theorem eligible_iff (h : Corresponds records docs) (doc : VectorDocument) :
    Eligible (store.searchStage ctx query topK) docs doc ↔
      docs.find doc.chunkId = some doc ∧ ∃ chunkId record,
        doc.chunkId = chunkId.uuid.hyphenated ∧
        records.lookup chunkId = some record ∧
          record.tenantId = ctx.tenantId ∧ Keeps doc record := by
  have hmatches :
      doc.matchesFilter (store.searchStage ctx query topK).filter = true ↔
      doc.tenantId = ctx.tenantId.display := by
    simp [VectorDocument.matchesFilter, MongoVectorStore.searchStage,
      VectorDocument.get]
  rw [Eligible, hmatches]
  refine and_congr_right fun hfind => ?_
  constructor
  · intro howner
    obtain ⟨chunkId, record, hid, hlookup, hkeeps⟩ := h.records _ doc hfind
    refine ⟨chunkId, record, hid, hlookup, ?_, hkeeps⟩
    exact TenantId.display_injective (hkeeps.tenantId.symm.trans howner)
  · rintro ⟨chunkId, record, -, -, howner, hkeeps⟩
    rw [hkeeps.tenantId, howner]

private theorem readRow_projected (hserver : Selective store.server)
    {hit : VectorDocument × Option Float} {chunkId : ChunkId}
    (hid : hit.1.chunkId = chunkId.uuid.hyphenated) :
    store.readRow (projected hit) = .ok ⟨chunkId, (hit.2.getD 0.0).toFloat32⟩ := by
  have hparse : store.server.parseUuid hit.1.chunkId = .ok chunkId.uuid := by
    rw [hid]
    exact hserver.parse chunkId.uuid
  rw [projected, MongoVectorStore.readRow]
  simp only [Except.mapError, bind, Except.bind, hparse]
  rfl

theorem mapM_readRow (hserver : Selective store.server)
    (h : Corresponds records docs) {hits : List (VectorDocument × Option Float)}
    (heligible : ∀ hit ∈ hits,
      Eligible (store.searchStage ctx query topK) docs hit.1) :
    ∃ found, (hits.map projected).mapM store.readRow = .ok found ∧
      (found.map fun match_ => match_.chunkId.uuid.hyphenated) =
        hits.map fun hit => hit.1.chunkId := by
  induction hits with
  | nil => exact ⟨[], rfl, rfl⟩
  | cons hit hits ih =>
      obtain ⟨found, hfound, hids⟩ := ih fun other hother =>
        heligible other (List.mem_cons_of_mem _ hother)
      obtain ⟨-, chunkId, record, hid, -⟩ :=
        (eligible_iff h hit.1).mp (heligible hit List.mem_cons_self)
      refine ⟨⟨chunkId, (hit.2.getD 0.0).toFloat32⟩ :: found, ?_, ?_⟩
      · rw [List.map_cons, List.mapM_cons, readRow_projected hserver hid, hfound]
        rfl
      · rw [List.map_cons, List.map_cons, hids, hid]

/--
The matches are distinct live chunks of the tenant, and all of them if the rows
hold every document that matches the filter.
-/
structure ListsLive (writes : List VectorWrite) (tenantId : TenantId)
    (exhaustive : Prop) (found : List VectorMatch) : Prop where
  distinct : (found.map VectorMatch.chunkId).Nodup
  live : ∀ match_ ∈ found, ∃ record, record.tenantId = tenantId ∧
    VectorWrite.Live writes match_.chunkId record
  all : exhaustive → ∀ chunkId record, record.tenantId = tenantId →
    VectorWrite.Live writes chunkId record → ∃ match_ ∈ found,
      match_.chunkId = chunkId

def Exhaustive (stage : VectorSearchStage) (docs : VectorCollection)
    (rows : List (Except String ScoredRow)) : Prop :=
  ∀ doc, Eligible stage docs doc → ∃ score, projected (doc, score) ∈ rows

private theorem listsLive_of_hits {writes : List VectorWrite}
    (h : Corresponds (VectorWrite.records writes) docs)
    {hits : List (VectorDocument × Option Float)}
    (heligible : ∀ hit ∈ hits,
      Eligible (store.searchStage ctx query topK) docs hit.1)
    (hdistinct : (hits.map fun hit => hit.1.chunkId).Nodup)
    {found : List VectorMatch}
    (hids : (found.map fun match_ => match_.chunkId.uuid.hyphenated) =
      hits.map fun hit => hit.1.chunkId) :
    ListsLive writes ctx.tenantId
      (Exhaustive (store.searchStage ctx query topK) docs (hits.map projected))
        found := by
  constructor
  · rw [← hids] at hdistinct
    refine List.Nodup.of_map (fun chunkId : ChunkId => chunkId.uuid.hyphenated) ?_
    rwa [List.map_map]
  · intro match_ hmatch
    have htext : match_.chunkId.uuid.hyphenated ∈
        hits.map fun hit => hit.1.chunkId := by
      rw [← hids]
      exact List.mem_map_of_mem hmatch
    obtain ⟨hit, hhit, hsame⟩ := List.mem_map.mp htext
    obtain ⟨-, chunkId, record, hid, hlookup, howner, -⟩ :=
      (eligible_iff h hit.1).mp (heligible hit hhit)
    rw [chunkId_hyphenated_inj (hsame.symm.trans hid)]
    exact ⟨record, howner, VectorWrite.lookup_records.mp hlookup⟩
  · intro hall chunkId record howner hlive
    obtain ⟨doc, hfind, hkeeps⟩ := h.documents chunkId record
      (VectorWrite.lookup_records.mpr hlive)
    have hid : doc.chunkId = chunkId.uuid.hyphenated :=
      Collection.idOf_of_find hfind
    obtain ⟨score, hrow⟩ :=
      hall doc ((eligible_iff h doc).mpr ⟨hid ▸ hfind, chunkId, record,
      hid, VectorWrite.lookup_records.mpr hlive, howner, hkeeps⟩)
    obtain ⟨hit, hhit, hprojected⟩ := List.mem_map.mp hrow
    have hdoc : hit.1.chunkId = doc.chunkId := by
      simp only [projected, Except.ok.injEq, ScoredRow.mk.injEq] at hprojected
      exact hprojected.1
    have htext : chunkId.uuid.hyphenated ∈
        found.map fun match_ => match_.chunkId.uuid.hyphenated := by
      rw [hids, ← hid, ← hdoc]
      exact List.mem_map_of_mem hhit
    obtain ⟨match_, hmatch, hsame⟩ := List.mem_map.mp htext
    exact ⟨match_, hmatch, chunkId_hyphenated_inj hsame⟩

/-- A search that the database answers lists live chunks. -/
theorem search_of_rows (hatlas : store.backend = .atlas)
    (hserver : Selective store.server) {writes : List VectorWrite}
    (h : Corresponds (VectorWrite.records writes) docs)
    {rows : List (Except String ScoredRow)}
    (hrows : store.server.vectorSearch (store.searchStage ctx query topK) docs =
      .ok rows) :
    ∃ found, (store.search ctx query topK docs).1 = .returned (.ok found) ∧
      ListsLive writes ctx.tenantId
        (Exhaustive (store.searchStage ctx query topK) docs rows) found := by
  obtain ⟨hits, rfl, heligible, hdistinct⟩ := hserver.eligible _ _ _ hrows
  obtain ⟨found, hread, hids⟩ := mapM_readRow hserver h heligible
  refine ⟨found, ?_, listsLive_of_hits h heligible hdistinct hids⟩
  simp only [MongoVectorStore.search, hatlas, MongoBackend.supportsVectorSearch,
    Bool.not_true, Bool.false_eq_true, if_false, hrows, hread]

theorem search_of_failure (hatlas : store.backend = .atlas) {e : String}
    (h : store.server.vectorSearch (store.searchStage ctx query topK) docs =
      .error e) :
    (store.search ctx query topK docs).1 =
      .returned (.error (.other ("mongo $vectorSearch failed: " ++ e))) := by
  simp only [MongoVectorStore.search, hatlas, MongoBackend.supportsVectorSearch,
    Bool.not_true, Bool.false_eq_true, if_false, h]

/-- A search that finds something was answered by the database. -/
theorem rows_of_search {found : List VectorMatch}
    (h : (store.search ctx query topK docs).1 = .returned (.ok found)) :
    store.backend = .atlas ∧ ∃ rows,
      store.server.vectorSearch (store.searchStage ctx query topK) docs =
        .ok rows := by
  unfold MongoVectorStore.search at h
  split at h
  · cases h
  next hsupports =>
    constructor
    · cases hbackend : store.backend with
      | atlas => rfl
      | documentDb =>
          rw [hbackend] at hsupports
          exact absurd rfl hsupports
    · split at h
      next rows hrows => exact ⟨rows, hrows⟩
      next => cases h

end Search

/--
After any run, a search that the database answers returns distinct live chunks
of the caller, in the sense of the acknowledged writes, and all of them if the
database found every document that matches the filter.
-/
theorem search_lists_live {store : MongoVectorStore}
    (hatlas : store.backend = .atlas) (hserver : Selective store.server)
    (calls : List MongoVectorCall) (ctx : TenantContext) (query : List Float32)
    (topK : Nat) {rows : List (Except String ScoredRow)}
    (hrows : store.server.vectorSearch (store.searchStage ctx query topK)
        (calls.foldl (MongoVectorCall.next store) Collection.empty) =
      .ok rows) :
    let docs := calls.foldl (MongoVectorCall.next store) Collection.empty
    ∃ found, (store.search ctx query topK docs).1 = .returned (.ok found) ∧
      ListsLive (acknowledged store Collection.empty calls) ctx.tenantId
        (Exhaustive (store.searchStage ctx query topK) docs rows) found := by
  intro docs
  exact search_of_rows hatlas hserver
    (refines_run store corresponds_empty calls).1 hrows

private theorem nodup_iterate {order : IterationOrder String VectorDocument}
    (docs : VectorCollection) :
    ((order.iterate docs.docs).map fun entry => entry.2.chunkId).Nodup := by
  have hkeys : ((order.iterate docs.docs).map fun entry => entry.2.chunkId) =
      (order.iterate docs.docs).map fun entry => entry.1 :=
    List.map_congr_left fun entry hentry =>
      Collection.idOf_of_find (Collection.mem_iterate.mp hentry)
  rw [hkeys]
  have hnodup := Multiset.nodup_keys.mpr docs.docs.nodupKeys
  rwa [← order.iterate_entries] at hnodup

theorem selective_referenceServer (order : IterationOrder String VectorDocument) :
    Selective (referenceServer order) where
  eligible stage docs rows h := by
    simp only [referenceServer] at h
    split at h
    next hstage =>
      cases h
      refine ⟨((((order.iterate docs.docs).map fun entry => entry.2).filter
        (VectorDocument.matchesFilter stage.filter)).take stage.limit.toNat).map
          fun doc => (doc, some 1.0), ?_, ?_, ?_⟩
      · rw [List.map_map]
        rfl
      · intro hit hhit
        obtain ⟨doc, hdoc, rfl⟩ := List.mem_map.mp hhit
        exact mem_matching.mp (List.mem_of_mem_take hdoc)
      · rw [List.map_map]
        have hsublist := ((List.take_sublist stage.limit.toNat _).trans
          (List.filter_sublist (p := VectorDocument.matchesFilter stage.filter)
            (l := (order.iterate docs.docs).map fun entry => entry.2))).map
          VectorDocument.chunkId
        refine List.Nodup.sublist hsublist ?_
        rw [List.map_map]
        exact nodup_iterate docs
    next => cases h
  parse := (contract_referenceServer order).parse

theorem referenceServer_answers (order : IterationOrder String VectorDocument)
    {stage : VectorSearchStage}
    (h : 1 ≤ stage.limit ∧ stage.limit ≤ stage.numCandidates)
    (docs : VectorCollection) :
    ∃ rows, (referenceServer order).vectorSearch stage docs = .ok rows :=
  ⟨_, if_pos h⟩

/-- One tenant stores a chunk, another one fails to take it over. -/
noncomputable def contestedCalls : List MongoVectorCall :=
  [.upsert ⟨.arbitrary, none⟩ sampleCaller sampleChunk [1],
    .upsert ⟨.arbitrary, none⟩ ⟨⟨⟨9⟩⟩, .member, "user-9"⟩ sampleChunk [1]]

theorem search_lists_live_contestedCalls :
    let docs := contestedCalls.foldl (MongoVectorCall.next atlasStore)
      Collection.empty
    ∃ rows, atlasStore.server.vectorSearch
        (atlasStore.searchStage sampleCaller [1] 5) docs =
        .ok rows ∧
      ∃ found, (atlasStore.search sampleCaller [1] 5 docs).1 =
        .returned (.ok found) ∧
        ListsLive (acknowledged atlasStore Collection.empty contestedCalls)
          sampleCaller.tenantId
          (Exhaustive (atlasStore.searchStage sampleCaller [1] 5) docs rows)
            found := by
  intro docs
  have hlimit : 1 ≤ (atlasStore.searchStage sampleCaller [1] 5).limit ∧
      (atlasStore.searchStage sampleCaller [1] 5).limit ≤
        (atlasStore.searchStage sampleCaller [1] 5).numCandidates := by
    rw [limit_searchStage, numCandidates_searchStage]
    decide
  obtain ⟨rows, hrows⟩ := referenceServer_answers .arbitrary hlimit docs
  exact ⟨rows, hrows, search_lists_live rfl (selective_referenceServer _)
      contestedCalls
    sampleCaller [1] 5 hrows⟩

end Milona.Storage
