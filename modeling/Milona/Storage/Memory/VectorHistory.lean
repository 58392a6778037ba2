import Milona.Storage.Memory.VectorRuns

/-!
# What a search returns

The records after a history of writes are determined by the last upsert of each
chunk id and the deletions after it: a chunk is live for a tenant when the
tenant made that upsert and has not deleted the document since.  A search with
room for all live chunks returns each of them once, and any other search the
best of them, unless it panics.
-/

namespace Milona.Storage.Memory

open Milona.Core Milona.Foundation

/-- The calls that change the records. -/
inductive VectorWrite where
  | upsert (ctx : TenantContext) (chunk : Chunk) (embedding : List Float32)
  | deleteDocument (ctx : TenantContext) (documentId : DocumentId)

namespace VectorWrite

open InMemoryVectorStore

def call : VectorWrite → VectorCall
  | .upsert ctx chunk embedding => .upsert ctx chunk embedding
  | .deleteDocument ctx documentId => .deleteDocument ctx documentId

def after (writes : List VectorWrite) : InMemoryVectorStore :=
  VectorCall.after (writes.map call) empty

def records (writes : List VectorWrite) : Records :=
  writes.foldl (fun records write => write.call.effect records) ∅

@[simp] theorem records_nil : records [] = ∅ := rfl

@[simp] theorem records_append_one (writes : List VectorWrite)
    (write : VectorWrite) :
    records (writes ++ [write]) = write.call.effect (records writes) := by
  simp [records]

theorem not_faults (write : VectorWrite) (records : Records) :
    ¬ write.call.Faults records := by
  cases write <;> exact id

theorem after_eq (writes : List VectorWrite) :
    after writes = ⟨records writes, false⟩ := by
  induction writes using List.reverseRecOn with
  | nil => rfl
  | append_singleton writes write ih =>
      rw [after, VectorCall.after] at ih
      rw [after, VectorCall.after, List.map_append, List.foldl_append, ih,
        records_append_one]
      exact VectorCall.next_of_not_faults (not_faults write (records writes))

/-! ## Live chunks -/

def Upserts (chunkId : ChunkId) : VectorWrite → Prop
  | .upsert _ chunk _ => chunk.id = chunkId
  | .deleteDocument .. => False

def Deletes (tenantId : TenantId) (documentId : DocumentId) :
    VectorWrite → Prop
  | .upsert .. => False
  | .deleteDocument ctx documentId' =>
      ctx.tenantId = tenantId ∧ documentId' = documentId

/-- The last upsert of the chunk stored the record; `later` follows it. -/
def LastStored (writes : List VectorWrite) (chunkId : ChunkId)
    (record : StoredVector) (later : List VectorWrite) : Prop :=
  ∃ ctx chunk,
    LastSuch (Upserts chunkId) writes (.upsert ctx chunk record.embedding)
      later ∧
    ctx.tenantId = record.tenantId ∧ chunk.documentId = record.documentId

/-- The last upsert of the chunk stored the record, and no deletion hit it. -/
def Live (writes : List VectorWrite) (chunkId : ChunkId)
    (record : StoredVector) : Prop :=
  ∃ later, LastStored writes chunkId record later ∧
    ∀ write ∈ later, ¬ write.Deletes record.tenantId record.documentId

theorem not_lastStored_nil (chunkId : ChunkId) (record : StoredVector)
    (later : List VectorWrite) : ¬ LastStored [] chunkId record later := by
  rintro ⟨ctx, chunk, ⟨-, ⟨before, hnil⟩, -⟩, -⟩
  simp at hnil

private theorem lastStored_append_one {writes : List VectorWrite}
    {write : VectorWrite} {chunkId : ChunkId} {record : StoredVector}
    {later : List VectorWrite} (h : ¬ write.Upserts chunkId) :
    LastStored (writes ++ [write]) chunkId record later ↔
      ∃ later', later = later' ++ [write] ∧
        LastStored writes chunkId record later' := by
  simp only [LastStored, lastSuch_append_one, h, false_and, false_or,
    not_false_eq_true, true_and]
  constructor
  · rintro ⟨ctx, chunk, ⟨later', hlater, hlast⟩, hrecord⟩
    exact ⟨later', hlater, ctx, chunk, hlast, hrecord⟩
  · rintro ⟨later', hlater, ctx, chunk, hlast, hrecord⟩
    exact ⟨ctx, chunk, ⟨later', hlater, hlast⟩, hrecord⟩

/-- A write that is no upsert of the chunk can only delete it. -/
theorem live_append_one {writes : List VectorWrite} {write : VectorWrite}
    {chunkId : ChunkId} {record : StoredVector}
    (h : ¬ write.Upserts chunkId) :
    Live (writes ++ [write]) chunkId record ↔
      Live writes chunkId record ∧
        ¬ write.Deletes record.tenantId record.documentId := by
  constructor
  · rintro ⟨later, hstored, hdeleted⟩
    obtain ⟨later', rfl, hbefore⟩ := (lastStored_append_one h).mp hstored
    refine ⟨⟨later', hbefore, fun w hw => ?_⟩, ?_⟩
    · exact hdeleted w (List.mem_append_left _ hw)
    · exact hdeleted write (List.mem_append_right _ List.mem_cons_self)
  · rintro ⟨⟨later', hbefore, hdeleted⟩, hwrite⟩
    refine ⟨later' ++ [write],
      (lastStored_append_one h).mpr ⟨later', rfl, hbefore⟩, fun w hw => ?_⟩
    rcases List.mem_append.mp hw with hold | hnew
    · exact hdeleted w hold
    · rw [List.mem_singleton.mp hnew]
      exact hwrite

private theorem live_append_upsert {writes : List VectorWrite}
    {ctx : TenantContext}
    {chunk : Chunk} {embedding : List Float32} {record : StoredVector} :
    Live (writes ++ [.upsert ctx chunk embedding]) chunk.id record ↔
      record = ⟨ctx.tenantId, chunk.documentId, embedding⟩ := by
  have hupserts : Upserts chunk.id (.upsert ctx chunk embedding) := rfl
  simp only [Live, LastStored, lastSuch_append_one, hupserts, true_and,
    not_true_eq_false, false_and, or_false, VectorWrite.upsert.injEq]
  constructor
  · rintro ⟨later, ⟨_, _, ⟨⟨rfl, rfl, hembedding⟩, -⟩, howner, hdocument⟩, -⟩
    cases record
    simp_all
  · rintro rfl
    exact ⟨[], ⟨ctx, chunk, ⟨⟨rfl, rfl, rfl⟩, rfl⟩, rfl, rfl⟩, by simp⟩

/-- Run lemma: the map holds exactly the live chunks. -/
theorem lookup_records {writes : List VectorWrite} {chunkId : ChunkId}
    {record : StoredVector} :
    (records writes).lookup chunkId = some record ↔
      Live writes chunkId record := by
  induction writes using List.reverseRecOn generalizing record with
  | nil =>
      constructor
      · intro h
        simp [records] at h
      · rintro ⟨later, hstored, -⟩
        exact absurd hstored (not_lastStored_nil _ _ _)
  | append_singleton writes write ih =>
      rw [records_append_one]
      cases write with
      | upsert ctx chunk embedding =>
          by_cases hid : chunkId = chunk.id
          · subst hid
            rw [live_append_upsert]
            simp [call, VectorCall.effect, eq_comm]
          · have hother : ¬ Upserts chunkId (.upsert ctx chunk embedding) :=
              fun h => hid h.symm
            rw [live_append_one hother, ← ih]
            simp [call, VectorCall.effect, Deletes, hid]
      | deleteDocument ctx documentId =>
          rw [live_append_one id, ← ih]
          simp [call, VectorCall.effect, HashMap.lookup_retain,
            Option.filter_eq_some_iff, Deletes, @eq_comm _ ctx.tenantId,
            @eq_comm _ documentId]
          exact fun _ => imp_iff_not_or.symm

/-- What the history says of the answer to a search for all live chunks. -/
structure AnswersHistory (writes : List VectorWrite) (tenantId : TenantId)
    (query : List Float32) (found : List VectorMatch) : Prop where
  once : (found.map VectorMatch.chunkId).Nodup
  live : ∀ chunkId, chunkId ∈ found.map VectorMatch.chunkId ↔
    ∃ documentId embedding, Live writes chunkId ⟨tenantId, documentId, embedding⟩
  score : ∀ match_ ∈ found, ∀ documentId embedding,
    Live writes match_.chunkId ⟨tenantId, documentId, embedding⟩ →
      match_.score = cosineSimilarity query embedding
  deleted : ∀ before ctx documentId later,
    writes = before ++ .deleteDocument ctx documentId :: later →
    ctx.tenantId = tenantId → ∀ chunkId record since,
      LastStored before chunkId record since → record.documentId = documentId →
      (∀ write ∈ later, ¬ write.Upserts chunkId) →
        chunkId ∉ found.map VectorMatch.chunkId
  moved : ∀ before ctx documentId,
    writes = before ++ [.deleteDocument ctx documentId] →
    ∀ chunkId documentId' embedding,
      Live before chunkId ⟨tenantId, documentId', embedding⟩ →
      documentId' ≠ documentId → chunkId ∈ found.map VectorMatch.chunkId

theorem LastStored.unique {writes : List VectorWrite} {chunkId : ChunkId}
    {record record' : StoredVector} {later later' : List VectorWrite}
    (h : LastStored writes chunkId record later)
    (h' : LastStored writes chunkId record' later') :
    record = record' ∧ later = later' := by
  obtain ⟨ctx, chunk, hlast, howner, hdocument⟩ := h
  obtain ⟨ctx', chunk', hlast', howner', hdocument'⟩ := h'
  obtain ⟨hevent, hlater⟩ := hlast.unique hlast'
  refine ⟨?_, hlater⟩
  cases record
  cases record'
  simp_all

theorem LastStored.append {writes : List VectorWrite} {chunkId : ChunkId}
    {record : StoredVector} {later : List VectorWrite}
    (h : LastStored writes chunkId record later) {rest : List VectorWrite}
    (hrest : ∀ write ∈ rest, ¬ write.Upserts chunkId) :
    LastStored (writes ++ rest) chunkId record (later ++ rest) := by
  obtain ⟨ctx, chunk, hlast, hrecord⟩ := h
  exact ⟨ctx, chunk, hlast.append hrest, hrecord⟩

private theorem not_live_of_deleted {before later since : List VectorWrite}
    {ctx : TenantContext} {chunkId : ChunkId} {record : StoredVector}
    (hstored : LastStored before chunkId record since)
    (hlater : ∀ write ∈ later, ¬ write.Upserts chunkId)
    {documentId : DocumentId} {embedding : List Float32} :
    ¬ Live (before ++ .deleteDocument ctx record.documentId :: later) chunkId
      ⟨ctx.tenantId, documentId, embedding⟩ := by
  rintro ⟨later', hlast, hdeleted⟩
  have hrest : ∀ write ∈
      VectorWrite.deleteDocument ctx record.documentId :: later,
      ¬ write.Upserts chunkId := by
    intro write hwrite
    rcases List.mem_cons.mp hwrite with rfl | hmem
    · exact id
    · exact hlater write hmem
  obtain ⟨rfl, rfl⟩ := (hstored.append hrest).unique hlast
  exact hdeleted (.deleteDocument ctx documentId) (by simp) ⟨rfl, rfl⟩

private theorem mem_pool_iff_live {writes : List VectorWrite}
    {tenantId : TenantId} {query : List Float32} {match_ : VectorMatch} :
    match_ ∈ scoredPool tenantId query (records writes) ↔
      ∃ documentId embedding,
        Live writes match_.chunkId ⟨tenantId, documentId, embedding⟩ ∧
          match_.score = cosineSimilarity query embedding := by
  rw [mem_scoredPool]
  constructor
  · rintro ⟨⟨_, documentId, embedding⟩, hlookup, rfl, hscore⟩
    exact ⟨documentId, embedding, lookup_records.mp hlookup, hscore⟩
  · rintro ⟨documentId, embedding, hlive, hscore⟩
    exact ⟨_, lookup_records.mpr hlive, rfl, hscore⟩

/-- An arrangement of the tenant's whole pool answers as the history says. -/
theorem answersHistory_of_pool {writes : List VectorWrite}
    {tenantId : TenantId} {query : List Float32} {found : List VectorMatch}
    (h : (found : Multiset VectorMatch) =
      scoredPool tenantId query (records writes)) :
    AnswersHistory writes tenantId query found := by
  have hmem : ∀ match_, match_ ∈ found ↔
      match_ ∈ scoredPool tenantId query (records writes) := by
    intro match_
    rw [← h, Multiset.mem_coe]
  have hlive : ∀ chunkId, chunkId ∈ found.map VectorMatch.chunkId ↔
      ∃ documentId embedding,
        Live writes chunkId ⟨tenantId, documentId, embedding⟩ := by
    intro chunkId
    simp only [List.mem_map, hmem, mem_pool_iff_live]
    constructor
    · rintro ⟨match_, ⟨documentId, embedding, hlive, -⟩, rfl⟩
      exact ⟨documentId, embedding, hlive⟩
    · rintro ⟨documentId, embedding, hlive⟩
      exact ⟨⟨chunkId, _⟩, ⟨documentId, embedding, hlive, rfl⟩, rfl⟩
  refine ⟨?_, hlive, ?_, ?_, ?_⟩
  · have hnodup := nodup_chunkId_scoredPool tenantId query (records writes)
    rwa [← h, Multiset.map_coe, Multiset.coe_nodup] at hnodup
  · intro match_ hmatch documentId embedding hlast
    obtain ⟨documentId', embedding', hlast', hscore⟩ :=
      mem_pool_iff_live.mp ((hmem match_).mp hmatch)
    have hsame := lookup_records.mpr hlast
    rw [lookup_records.mpr hlast'] at hsame
    cases hsame
    exact hscore
  · rintro before ctx _ later rfl rfl chunkId record since hstored rfl hlater hfound
    obtain ⟨documentId, embedding, hlast⟩ := (hlive chunkId).mp hfound
    exact not_live_of_deleted hstored hlater hlast
  · rintro before ctx documentId rfl chunkId documentId' embedding hlast hmoved
    refine (hlive chunkId).mpr
      ⟨documentId', embedding, (live_append_one id).mpr ⟨hlast, ?_⟩⟩
    rintro ⟨-, rfl⟩
    exact hmoved rfl

/--
A search for all live chunks answers as the history says exactly when the
scores of the tenant's records can be sorted.
-/
theorem answersHistory_iff (writes : List VectorWrite)
    (order : IterationOrder ChunkId StoredVector) (ctx : TenantContext)
    (query : List Float32) (topK : Nat)
    (hroom : (ownRecords ctx.tenantId (after writes).value).entries.card ≤ topK) :
    (∃ found,
      (search order ctx query topK (after writes)).1 = .returned (.ok found) ∧
        AnswersHistory writes ctx.tenantId query found) ↔
      Sortable ctx.tenantId query (after writes).value := by
  rw [after_eq] at hroom ⊢
  constructor
  · rintro ⟨found, hfound, -⟩
    by_contra hunsortable
    rw [search_of_not_sortable order ctx query topK hunsortable] at hfound
    cases hfound
  · intro hsortable
    obtain ⟨found, hfound, hbest⟩ :=
      search_of_sortable order ctx query topK hsortable
    refine ⟨found, by rw [hfound], answersHistory_of_pool (hbest.eq_pool ?_)⟩
    rw [card_scoredPool]
    exact hroom

def movedAndDeleted : List VectorWrite :=
  let owner : TenantContext := ⟨⟨⟨1⟩⟩, .member, "user-1"⟩
  [.upsert owner ⟨⟨⟨1⟩⟩, ⟨⟨1⟩⟩, "first", 0, 1⟩ [1],
    .upsert owner ⟨⟨⟨2⟩⟩, ⟨⟨1⟩⟩, "second", 1, 1⟩ [1],
    .upsert owner ⟨⟨⟨1⟩⟩, ⟨⟨2⟩⟩, "first", 0, 1⟩ [2],
    .deleteDocument owner ⟨⟨1⟩⟩]

theorem answersHistory_iff_movedAndDeleted :
    (∃ found,
      (search (.ascending ChunkId.number ChunkId.number_injective)
        ⟨⟨⟨1⟩⟩, .member, "user-1"⟩ [1] 5 (after movedAndDeleted)).1 =
          .returned (.ok found) ∧
        AnswersHistory movedAndDeleted ⟨⟨1⟩⟩ [1] found) ↔
      Sortable ⟨⟨1⟩⟩ [1] (after movedAndDeleted).value :=
  answersHistory_iff movedAndDeleted
    (.ascending ChunkId.number ChunkId.number_injective)
    ⟨⟨⟨1⟩⟩, .member, "user-1"⟩ [1] 5 (by decide +kernel)

def overflowWrites : List VectorWrite :=
  let owner : TenantContext := ⟨⟨⟨1⟩⟩, .member, "user-1"⟩
  [.upsert owner ⟨⟨⟨1⟩⟩, ⟨⟨1⟩⟩, "first", 0, 1⟩ [1e30],
    .upsert owner ⟨⟨⟨2⟩⟩, ⟨⟨1⟩⟩, "second", 1, 1⟩ [1e30]]

theorem overflowWrites_not_answered :
    let order : IterationOrder ChunkId StoredVector :=
      .ascending ChunkId.number ChunkId.number_injective
    let owner : TenantContext := ⟨⟨⟨1⟩⟩, .member, "user-1"⟩
    (ownRecords owner.tenantId (after overflowWrites).value).entries.card ≤ 5 ∧
      ¬ ∃ found,
        (search order owner [1e30] 5 (after overflowWrites)).1 =
          .returned (.ok found) ∧
        AnswersHistory overflowWrites owner.tenantId [1e30] found := by
  intro order owner
  refine ⟨by decide +kernel, ?_⟩
  rintro ⟨found, hfound, -⟩
  have hpanicked : (search order owner [1e30] 5 (after overflowWrites)).1 =
      .panicked := by
    decide +kernel
  rw [hpanicked] at hfound
  cases hfound

end VectorWrite

/-! ## Top-`k` searches -/

namespace InMemoryVectorStore

/-- The answer to a search, in terms of the records and the float order. -/
structure SelectsBest (records : Records) (tenantId : TenantId)
    (query : List Float32) (topK : Nat) (found : List VectorMatch) : Prop where
  length : found.length = min topK (ownRecords tenantId records).entries.card
  distinct : (found.map VectorMatch.chunkId).Nodup
  own : ∀ match_ ∈ found, ∃ record,
    records.lookup match_.chunkId = some record ∧ record.tenantId = tenantId ∧
      match_.score = cosineSimilarity query record.embedding
  descending : found.Pairwise fun a b => b.score ≤ a.score
  greatest : ∀ chunkId record, records.lookup chunkId = some record →
    record.tenantId = tenantId → chunkId ∉ found.map VectorMatch.chunkId →
      ∀ match_ ∈ found, cosineSimilarity query record.embedding ≤ match_.score

/-- No two records of the tenant have equal scores. -/
def Separated (tenantId : TenantId) (query : List Float32)
    (records : Records) : Prop :=
  ∀ a ∈ scoredPool tenantId query records,
    ∀ b ∈ scoredPool tenantId query records,
      a.score ≤ b.score → b.score ≤ a.score → a.chunkId = b.chunkId

/-- The store was filled by these upserts of distinct chunks in this order. -/
def FilledBy (upserts : List (TenantContext × Chunk × List Float32))
    (store : InMemoryVectorStore) : Prop :=
  (upserts.map fun upsert => upsert.2.1.id).Nodup ∧
    store = VectorWrite.after (upserts.map fun upsert =>
      .upsert upsert.1 upsert.2.1 upsert.2.2)

structure TopKCorrect (order : IterationOrder ChunkId StoredVector)
    (ctx : TenantContext) (query : List Float32) (topK : Nat)
    (store : InMemoryVectorStore) : Prop where
  best : ∃ found, (search order ctx query topK store).1 = .returned (.ok found) ∧
    SelectsBest store.value ctx.tenantId query topK found
  order_irrelevant : Separated ctx.tenantId query store.value → ∀ order',
    (search order' ctx query topK store).1 = (search order ctx query topK store).1
  history_irrelevant : Separated ctx.tenantId query store.value →
    ∀ upserts upserts' store', upserts.Perm upserts' →
      FilledBy upserts store → FilledBy upserts' store' → ∀ order',
        (search order' ctx query topK store').1 =
          (search order ctx query topK store).1

private theorem eq_of_card_le_one {pool : Multiset VectorMatch}
    (h : pool.card ≤ 1)
    {a b : VectorMatch} (ha : a ∈ pool) (hb : b ∈ pool) : a = b := by
  obtain ⟨rest, rfl⟩ := Multiset.exists_cons_of_mem ha
  have hrest : rest = 0 := by simpa using h
  rw [hrest] at hb
  exact (Multiset.mem_singleton.mp hb).symm

/-- Between two records the float order is the order of the ranks. -/
theorem score_le_iff {tenantId : TenantId} {query : List Float32}
    {records : Records} (h : Sortable tenantId query records)
    {a b : VectorMatch} (ha : a ∈ scoredPool tenantId query records)
    (hb : b ∈ scoredPool tenantId query records) (hne : a ≠ b) :
    a.score ≤ b.score ↔ matchRank a ≤ matchRank b := by
  rcases h with hcard | hnumbers
  · rw [← card_scoredPool tenantId query] at hcard
    exact absurd (eq_of_card_le_one hcard ha hb) hne
  · have hle := le_iff a.score b.score
    simp only [hnumbers a ha, hnumbers b hb, true_and] at hle
    exact hle

theorem selectsBest_of_isTopK {tenantId : TenantId} {query : List Float32}
    {records : Records} {topK : Nat} {found : List VectorMatch}
    (h : IsTopK matchRank (scoredPool tenantId query records) topK found)
    (hsortable : Sortable tenantId query records) :
    SelectsBest records tenantId query topK found := by
  have hnodup : (found.map VectorMatch.chunkId).Nodup := by
    have hpool := nodup_chunkId_scoredPool tenantId query records
    have hfound := Multiset.nodup_of_le (Multiset.map_le_map h.le) hpool
    rwa [Multiset.map_coe, Multiset.coe_nodup] at hfound
  refine ⟨?_, hnodup, ?_, ?_, ?_⟩
  · rw [h.length, card_scoredPool]
  · intro match_ hmatch
    obtain ⟨record, hrecord⟩ := mem_scoredPool.mp (h.subset hmatch)
    exact ⟨record, hrecord⟩
  · refine (h.descending.and hnodup.of_map).imp_of_mem ?_
    rintro a b ha hb ⟨hrank, hne⟩
    exact (score_le_iff hsortable (h.subset hb) (h.subset ha) hne.symm).mpr hrank
  · intro chunkId record hlookup howner hleft match_ hmatch
    obtain ⟨rest, hpool, hgreatest⟩ := h.greatest
    let omitted : VectorMatch :=
      ⟨chunkId, cosineSimilarity query record.embedding⟩
    have homitted : omitted ∈ scoredPool tenantId query records :=
      mem_scoredPool.mpr ⟨record, hlookup, howner, rfl⟩
    have hne : omitted ≠ match_ := by
      rintro rfl
      exact hleft (List.mem_map_of_mem hmatch)
    have hrest : omitted ∈ rest := by
      rw [← hpool] at homitted
      refine (Multiset.mem_add.mp homitted).resolve_left fun hmem => ?_
      exact hleft (List.mem_map_of_mem (Multiset.mem_coe.mp hmem))
    exact (score_le_iff hsortable homitted (h.subset hmatch) hne).mpr
      (hgreatest match_ hmatch omitted hrest)

private theorem matchRank_injOn {tenantId : TenantId} {query : List Float32}
    {records : Records} (hsortable : Sortable tenantId query records)
    (hseparated : Separated tenantId query records) :
    ∀ a ∈ scoredPool tenantId query records,
      ∀ b ∈ scoredPool tenantId query records,
        matchRank a = matchRank b → a = b := by
  intro a ha b hb hrank
  by_contra hne
  have hle := (score_le_iff hsortable ha hb hne).mpr hrank.le
  have hge := (score_le_iff hsortable hb ha (Ne.symm hne)).mpr hrank.ge
  exact hne (eq_of_chunkId_eq ha hb (hseparated a ha b hb hle hge))

private theorem search_order_irrelevant {ctx : TenantContext}
    {query : List Float32}
    {records : Records} (hsortable : Sortable ctx.tenantId query records)
    (hseparated : Separated ctx.tenantId query records) (topK : Nat)
    (order order' : IterationOrder ChunkId StoredVector) :
    search order' ctx query topK ⟨records, false⟩ =
      search order ctx query topK ⟨records, false⟩ := by
  obtain ⟨found, hfound, hbest⟩ := search_of_sortable order ctx query topK hsortable
  obtain ⟨found', hfound', hbest'⟩ :=
    search_of_sortable order' ctx query topK hsortable
  rw [hfound, hfound',
    hbest.unique (matchRank_injOn hsortable hseparated) hbest']

/-- Upserts of distinct chunks build the same map in every order. -/
theorem FilledBy.eq_of_perm
    {upserts upserts' : List (TenantContext × Chunk × List Float32)}
    {store store' : InMemoryVectorStore} (hperm : upserts.Perm upserts')
    (h : FilledBy upserts store) (h' : FilledBy upserts' store') :
    store = store' := by
  obtain ⟨hdistinct, rfl⟩ := h
  obtain ⟨-, rfl⟩ := h'
  rw [VectorWrite.after_eq, VectorWrite.after_eq, VectorWrite.records,
    VectorWrite.records, List.foldl_map, List.foldl_map]
  congr 1
  refine hperm.foldl_eq' (fun first hfirst second hsecond records => ?_) ∅
  by_cases hsame : first = second
  · rw [hsame]
  · have hid : first.2.1.id ≠ second.2.1.id := fun hid =>
      hsame (List.inj_on_of_nodup_map hdistinct hfirst hsecond hid)
    exact Finmap.insert_insert_of_ne records hid

theorem topKCorrect_iff (store : InMemoryVectorStore)
    (order : IterationOrder ChunkId StoredVector) (ctx : TenantContext)
    (query : List Float32) (topK : Nat)
    (hsortable : Sortable ctx.tenantId query store.value) :
    TopKCorrect order ctx query topK store ↔ store.poisoned = false := by
  obtain ⟨records, poisoned⟩ := store
  constructor
  · rintro ⟨⟨found, hfound, -⟩, -, -⟩
    by_contra hpoisoned
    rw [search, Mutex.lock_poisoned _ (by simpa using hpoisoned)] at hfound
    cases hfound
  · intro hlock
    change poisoned = false at hlock
    subst hlock
    refine ⟨?_, fun hseparated order' => ?_, ?_⟩
    · obtain ⟨found, hfound, hbest⟩ :=
        search_of_sortable order ctx query topK hsortable
      exact ⟨found, by rw [hfound], selectsBest_of_isTopK hbest hsortable⟩
    · rw [search_order_irrelevant hsortable hseparated topK order order']
    · intro hseparated upserts upserts' store' hperm hfilled hfilled' order'
      rw [← FilledBy.eq_of_perm hperm hfilled hfilled',
        search_order_irrelevant hsortable hseparated topK order order']

theorem topKCorrect_iff_oneRecord :
    TopKCorrect (.ascending ChunkId.number ChunkId.number_injective)
        ⟨⟨⟨2⟩⟩, .member, "user-2"⟩ [1] 5
        (VectorCall.next empty VectorCall.bystanderCall) ↔
      (VectorCall.next empty VectorCall.bystanderCall).poisoned = false :=
  topKCorrect_iff (VectorCall.next empty VectorCall.bystanderCall)
    (.ascending ChunkId.number ChunkId.number_injective)
    ⟨⟨⟨2⟩⟩, .member, "user-2"⟩ [1] 5 (by decide +kernel)

/-- The search of another tenant has poisoned the lock. -/
theorem overflowRun_not_topKCorrect :
    let order : IterationOrder ChunkId StoredVector :=
      .ascending ChunkId.number ChunkId.number_injective
    let bystander : TenantContext := ⟨⟨⟨2⟩⟩, .member, "user-2"⟩
    let store := VectorCall.after
      (VectorCall.bystanderCall :: VectorCall.overflowRun) empty
    Sortable bystander.tenantId [1] store.value ∧
      ¬ TopKCorrect order bystander [1] 5 store := by
  intro order bystander store
  have hpoisoned : store.poisoned = true := by decide +kernel
  refine ⟨by decide +kernel, ?_⟩
  rintro ⟨⟨found, hfound, -⟩, -, -⟩
  rw [search, Mutex.lock_poisoned _ hpoisoned] at hfound
  cases hfound

end InMemoryVectorStore

end Milona.Storage.Memory
