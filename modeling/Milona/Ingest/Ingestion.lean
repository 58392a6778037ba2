import Milona.Ingest.Chunker
import Milona.Ingest.Whitespace
import Milona.Storage.UnsharedWrites

/-!
# Ingestion

Callers of any tenants fetch documents, have documents chunked and write to a
vector store, in any order.  The world keeps what the sources and the chunker
returned, and to whom.

A step is permitted if its tenant chunks a document that it fetched, or stores
a chunk that it got from the chunker.  The identifiers then keep the tenants
apart, as long as the generator of identifiers does not repeat itself.
-/

namespace Milona.Ingest

open Milona.Core Milona.Foundation
open Milona.Storage Milona.Storage.Memory Milona.Storage.Mongo

/-- What an ingesting process is built from. -/
structure Setup (ω Url : Type) where
  uuids : Nat → Uuid
  readToString : String → Action ω (Except String String)
  extractPdf : String → Action ω (Except String (Except String String))
  client : HttpClient ω Url
  parseDocument : String → Html
  chunker : RecursiveChunker
  debugAssertions : Bool

structure World (ω : Type) where
  surroundings : Surroundings ω
  documents : List (TenantId × RawDocument)
  chunks : List (TenantId × Chunk)
  writes : List VectorWrite

inductive Step where
  | fetch (sourceKind : SourceKind) (ctx : TenantContext) (location : String)
  | chunk (tenantId : TenantId) (document : RawDocument)
  | store (write : VectorWrite)

def Step.written : Step → Option VectorWrite
  | .store write => some write
  | .fetch .. | .chunk .. => none

variable {ω Url : Type}

namespace World

def start (outside : ω) : World ω := ⟨(0, outside), [], [], []⟩

def fetched (world : World ω) (tenantId : TenantId) :
    Outcome (Result RawDocument) × Surroundings ω → World ω
  | (.returned (.ok document), surroundings) =>
      { world with surroundings, documents := world.documents ++ [(tenantId, document)] }
  | (_, surroundings) => { world with surroundings }

def chunked (world : World ω) (tenantId : TenantId) :
    Outcome (Result (List Chunk)) × Surroundings ω → World ω
  | (.returned (.ok chunks), surroundings) =>
      { world with
        surroundings
        chunks := world.chunks ++ chunks.map fun chunk => (tenantId, chunk) }
  | (_, surroundings) => { world with surroundings }

end World

namespace Setup

variable (setup : Setup ω Url)

def source : SourceKind → DocumentSource (Surroundings ω)
  | .text => ⟨TextFileSource.fetch setup.uuids setup.readToString⟩
  | .pdf => ⟨PdfFileSource.fetch setup.uuids setup.extractPdf⟩
  | .web => ⟨WebSource.fetch setup.uuids setup.client setup.parseDocument⟩

def chunkerTrait : Chunker (Surroundings ω) where
  chunk document :=
    Action.zoom .fst (setup.chunker.chunk setup.uuids
      setup.debugAssertions document)

def next (world : World ω) : Step → World ω
  | .fetch sourceKind ctx location =>
      world.fetched ctx.tenantId
        ((setup.source sourceKind).fetch ctx location world.surroundings)
  | .chunk tenantId document =>
      world.chunked tenantId (setup.chunkerTrait.chunk document world.surroundings)
  | .store write => { world with writes := world.writes ++ [write] }

end Setup

/-- The write brings a chunk that its tenant got from the chunker. -/
def Brings (world : World ω) : VectorWrite → Prop
  | .upsert ctx chunk _ => (ctx.tenantId, chunk) ∈ world.chunks
  | .deleteDocument .. => True

/-- Tenants chunk what they fetched and store what they had chunked. -/
def Permitted (world : World ω) : Step → Prop
  | .fetch .. => True
  | .chunk tenantId document => (tenantId, document) ∈ world.documents
  | .store write => Brings world write

/-! ## One step -/

/-- What a step adds to the world; a step that adds nothing may waste identifiers. -/
inductive Adds (setup : Setup ω Url) (world : World ω) : Step → World ω → Prop
  | nothing (step : Step) (hstep : step.written = none) (more : Nat)
      (outside : ω) :
      Adds setup world step
        { world with surroundings := (world.surroundings.1 + more, outside) }
  | document (sourceKind : SourceKind) (ctx : TenantContext) (location : String)
      (document : RawDocument) (outside : ω)
      (hid : document.id = ⟨setup.uuids world.surroundings.1⟩)
      (hattributed : Attributed ctx location document) :
      Adds setup world (.fetch sourceKind ctx location)
        { world with
          surroundings := (world.surroundings.1 + 1, outside)
          documents := world.documents ++ [(ctx.tenantId, document)] }
  | chunks (tenantId : TenantId) (document : RawDocument) (chunks : List Chunk)
      (outside : ω)
      (hids : (chunks.map fun chunk => chunk.id.uuid) =
        keysFrom setup.uuids world.surroundings.1 chunks.length)
      (hpieces : ∀ chunk ∈ chunks, setup.chunker.IsPiece document chunk) :
      Adds setup world (.chunk tenantId document)
        { world with
          surroundings := (world.surroundings.1 + chunks.length, outside)
          chunks := world.chunks ++ chunks.map fun chunk => (tenantId, chunk) }
  | write (write : VectorWrite) :
      Adds setup world (.store write)
        { world with writes := world.writes ++ [write] }

theorem fetches_source (setup : Setup ω Url) (sourceKind : SourceKind)
    (ctx : TenantContext) (location : String) :
    Fetches setup.uuids ctx location
      ((setup.source sourceKind).fetch ctx location) := by
  cases sourceKind with
  | text => exact fetches_text setup.readToString
  | pdf => exact fetches_pdf setup.extractPdf
  | web => exact fetches_web setup.client setup.parseDocument

private theorem adds_fetched (setup : Setup ω Url) (world : World ω)
    (sourceKind : SourceKind) (ctx : TenantContext) (location : String)
    {outcome : Outcome (Result RawDocument)} {count : Nat} {outside : ω}
    (h : FetchPhase setup.uuids ctx location world.surroundings.1 outcome count) :
    Adds setup world (.fetch sourceKind ctx location)
      (world.fetched ctx.tenantId (outcome, (count, outside))) := by
  cases h with
  | failed _ hfailed =>
      rcases outcome with (e | document) | _
      · exact .nothing _ rfl 0 outside
      · exact absurd rfl (hfailed document)
      · exact .nothing _ rfl 0 outside
  | fetched document hid hattributed =>
      exact .document sourceKind ctx location document outside hid hattributed

private theorem adds_chunked (setup : Setup ω Url) (world : World ω)
    (tenantId : TenantId) (document : RawDocument)
    {outcome : Outcome (Result (List Chunk))} {count : Nat}
    (h : setup.chunker.ChunkPhase setup.uuids document world.surroundings.1 outcome count)
    (outside : ω) :
    Adds setup world (.chunk tenantId document)
      (world.chunked tenantId (outcome, (count, outside))) := by
  cases h with
  | panicked more => exact .nothing _ rfl more outside
  | returned chunks hids hpieces =>
      exact .chunks tenantId document chunks outside hids hpieces

theorem adds_next (setup : Setup ω Url) (world : World ω) (step : Step) :
    Adds setup world step (setup.next world step) := by
  cases step with
  | fetch sourceKind ctx location =>
      exact adds_fetched setup world sourceKind ctx location
        (fetches_source setup sourceKind ctx location world.surroundings)
  | chunk tenantId document =>
      exact adds_chunked setup world tenantId document
        (setup.chunker.chunkPhase_chunk setup.uuids setup.debugAssertions document
          world.surroundings.1) world.surroundings.2
  | store write => exact .write write

/-! ## Every run -/

/-- Where the documents, the chunks and the writes of a world are from. -/
structure Accounted (setup : Setup ω Url) (world : World ω) : Prop where
  documentIds : Drawn setup.uuids world.surroundings.1
    (world.documents.map fun held => held.2.id.uuid)
  chunkIds : Drawn setup.uuids world.surroundings.1
    (world.chunks.map fun held => held.2.id.uuid)
  tenants : ∀ held ∈ world.documents,
    held.2.metadata.lookup "tenant_id" = some held.1.display
  pieces : ∀ held ∈ world.chunks, ∃ document,
      (held.1, document) ∈ world.documents ∧
    setup.chunker.IsPiece document held.2
  writes : ∀ write ∈ world.writes, Brings world write

theorem accounted_start (setup : Setup ω Url) (outside : ω) :
    Accounted setup (World.start outside) where
  documentIds := .nil _ _
  chunkIds := .nil _ _
  tenants held h := by cases h
  pieces held h := by cases h
  writes write h := by cases h

/-- More chunks bring no write into disorder. -/
theorem Brings.mono {world world' : World ω} (h : world.chunks ⊆ world'.chunks)
    {write : VectorWrite} (hbrings : Brings world write) :
    Brings world' write := by
  cases write with
  | upsert ctx chunk embedding => exact h hbrings
  | deleteDocument ctx documentId => trivial

namespace Accounted

variable {setup : Setup ω Url} {world : World ω}

theorem wasted (h : Accounted setup world) (more : Nat) (outside : ω) :
    Accounted setup
      { world with surroundings := (world.surroundings.1 + more, outside) } :=
  ⟨h.documentIds.mono (Nat.le_add_right _ _),
    h.chunkIds.mono (Nat.le_add_right _ _),
    h.tenants, h.pieces, h.writes⟩

theorem addDocument (h : Accounted setup world) {ctx : TenantContext}
    {location : String} {document : RawDocument}
    (hid : document.id = ⟨setup.uuids world.surroundings.1⟩)
    (hattributed : Attributed ctx location document) (outside : ω) :
    Accounted setup
      { world with
        surroundings := (world.surroundings.1 + 1, outside)
        documents := world.documents ++ [(ctx.tenantId, document)] } := by
  refine ⟨?_, h.chunkIds.mono (Nat.le_succ _), ?_, ?_, h.writes⟩
  · have hnew := h.documentIds.append 1
    rw [keysFrom_succ, keysFrom_zero] at hnew
    rw [List.map_append, List.map_singleton, hid]
    exact hnew
  · intro held hheld
    rcases List.mem_append.mp hheld with hold | hnew
    · exact h.tenants held hold
    · rw [List.mem_singleton.mp hnew]
      exact hattributed.tenant
  · intro held hheld
    obtain ⟨source, hsource, hpiece⟩ := h.pieces held hheld
    exact ⟨source, List.mem_append_left _ hsource, hpiece⟩

private theorem addChunks (h : Accounted setup world) {tenantId : TenantId}
    {document : RawDocument}
    (hdocument : (tenantId, document) ∈ world.documents) {chunks : List Chunk}
    (hids : (chunks.map fun chunk => chunk.id.uuid) =
      keysFrom setup.uuids world.surroundings.1 chunks.length)
    (hpieces : ∀ chunk ∈ chunks, setup.chunker.IsPiece document chunk)
    (outside : ω) :
    Accounted setup
      { world with
        surroundings := (world.surroundings.1 + chunks.length, outside)
        chunks := world.chunks ++ chunks.map fun chunk => (tenantId, chunk) } := by
  refine ⟨h.documentIds.mono (Nat.le_add_right _ _), ?_, h.tenants, ?_, ?_⟩
  · have hnew := h.chunkIds.append chunks.length
    rw [← hids] at hnew
    rw [List.map_append, List.map_map]
    exact hnew
  · intro held hheld
    rcases List.mem_append.mp hheld with hold | hnew
    · exact h.pieces held hold
    · obtain ⟨chunk, hchunk, rfl⟩ := List.mem_map.mp hnew
      exact ⟨document, hdocument, hpieces chunk hchunk⟩
  · intro write hwrite
    exact (h.writes write hwrite).mono (List.subset_append_left _ _)

private theorem addWrite (h : Accounted setup world) {write : VectorWrite}
    (hbrings : Brings world write) :
    Accounted setup { world with writes := world.writes ++ [write] } := by
  refine ⟨h.documentIds, h.chunkIds, h.tenants, h.pieces, fun old hold => ?_⟩
  rcases List.mem_append.mp hold with hbefore | hnew
  · exact (h.writes old hbefore).mono (List.Subset.refl _)
  · rw [List.mem_singleton.mp hnew]
    exact Brings.mono (List.Subset.refl _) hbrings

private theorem adds (h : Accounted setup world) {step : Step}
    {world' : World ω}
    (hadds : Adds setup world step world') (hstep : Permitted world step) :
    Accounted setup world' := by
  cases hadds with
  | nothing _ _ more outside => exact h.wasted more outside
  | document sourceKind ctx location document outside hid hattributed =>
      exact h.addDocument hid hattributed outside
  | chunks tenantId document chunks outside hids hpieces =>
      exact h.addChunks hstep hids hpieces outside
  | write write => exact h.addWrite hstep

/-- Step lemma: permitted steps keep the world accounted for. -/
theorem next (h : Accounted setup world) {step : Step}
    (hstep : Permitted world step) :
    Accounted setup (setup.next world step) :=
  h.adds (adds_next setup world step) hstep

end Accounted

/-- Run lemma: a run of permitted steps is accounted for. -/
theorem accounted_run (setup : Setup ω Url) (outside : ω) {steps : List Step}
    (hsteps : EachStep setup.next Permitted (World.start outside) steps) :
    Accounted setup (steps.foldl setup.next (World.start outside)) :=
  EachStep.foldl_invariant (Accounted setup) (fun _ _ h hstep => h.next hstep)
    (accounted_start setup outside) hsteps

theorem Adds.writes {setup : Setup ω Url} {world world' : World ω} {step : Step}
    (h : Adds setup world step world') :
    world'.writes = world.writes ++ step.written.toList := by
  cases h with
  | nothing _ hstep more outside =>
      rw [hstep]
      exact (List.append_nil _).symm
  | document => exact (List.append_nil _).symm
  | chunks => exact (List.append_nil _).symm
  | write write => rfl

private theorem writes_foldl (setup : Setup ω Url) (world : World ω)
    (steps : List Step) :
    (steps.foldl setup.next world).writes =
      world.writes ++ steps.filterMap Step.written := by
  induction steps generalizing world with
  | nil => exact (List.append_nil _).symm
  | cons step steps ih =>
      have hstep := (adds_next setup world step).writes
      rw [List.foldl_cons, ih, hstep, List.append_assoc, List.filterMap_cons]
      cases step.written with
      | none => rfl
      | some write => rfl

theorem writes_run (setup : Setup ω Url) (outside : ω) (steps : List Step) :
    (steps.foldl setup.next (World.start outside)).writes =
      steps.filterMap Step.written :=
  writes_foldl setup (World.start outside) steps

/-! ## Tenants stay apart -/

namespace Accounted

variable {setup : Setup ω Url} {world : World ω} (h : Accounted setup world)
variable (huuids : Unrepeated setup.uuids world.surroundings.1)
include h huuids

theorem eq_of_chunkId {held held' : TenantId × Chunk}
    (hheld : held ∈ world.chunks) (hheld' : held' ∈ world.chunks)
    (hid : held.2.id = held'.2.id) : held = held' :=
  List.inj_on_of_nodup_map (h.chunkIds.nodup huuids) hheld hheld'
    (congrArg ChunkId.uuid hid)

theorem eq_of_documentId {held held' : TenantId × RawDocument}
    (hheld : held ∈ world.documents) (hheld' : held' ∈ world.documents)
    (hid : held.2.id = held'.2.id) : held = held' :=
  List.inj_on_of_nodup_map (h.documentIds.nodup huuids) hheld hheld'
    (congrArg DocumentId.uuid hid)

private theorem unshared : Unshared world.writes := by
  intro ctx chunk embedding hmem ctx' chunk' embedding' hmem' hid
  have hsame := h.eq_of_chunkId huuids (h.writes _ hmem) (h.writes _ hmem') hid
  exact congrArg Prod.fst hsame

end Accounted

/--
In a run of permitted steps whose identifiers do not repeat, a search of the
in-memory store may do what it could do after the caller's own writes alone,
and a MongoDB store that is reached acknowledges every write and then holds the
same records.
-/
theorem ingestion_keeps_apart (setup : Setup ω Url) (outside : ω)
    {steps : List Step}
    (hsteps : EachStep setup.next Permitted (World.start outside) steps)
    (huuids : Unrepeated setup.uuids (steps.foldl setup.next
      (World.start outside)).surroundings.1) :
    let writes := steps.filterMap Step.written
    (∀ ctx query topK,
      VectorCall.searchOutcomes ctx query topK (VectorWrite.after writes) =
        VectorCall.searchOutcomes ctx query topK
          (VectorWrite.after (ownWrites ctx.tenantId writes))) ∧
    ∀ (store : MongoVectorStore) (order : IterationOrder String VectorDocument),
      acknowledged store Collection.empty (writes.map (reached order)) = writes ∧
        Corresponds (VectorWrite.after writes).value
          ((writes.map (reached order)).foldl (MongoVectorCall.next store)
            Collection.empty) := by
  intro writes
  have hunshared : Unshared writes := by
    have h := (accounted_run setup outside hsteps).unshared huuids
    rwa [writes_run] at h
  refine ⟨searchOutcomes_ownWrites hunshared, fun store order => ?_⟩
  have hacknowledged := acknowledged_of_unshared hunshared store order
  have hrefines := (refines_run store corresponds_empty
    (writes.map (reached order))).1
  rw [hacknowledged] at hrefines
  rw [VectorWrite.after_eq]
  exact ⟨hacknowledged, hrefines⟩

/-! ## Two tenants with the same file -/

def sampleSetup : Setup Unit Unit where
  uuids k := ⟨BitVec.ofNat 128 k⟩
  readToString _ := return .ok "first words"
  extractPdf _ := return .ok (.error "no text")
  client := ⟨fun _ => .error "relative URL without a base",
    fun _ => return .error "refused"⟩
  parseDocument html := page html.toList
  chunker := ⟨fun text => [text], 1800⟩
  debugAssertions := true

def writer (number : BitVec 128) : TenantContext := ⟨⟨⟨number⟩⟩, .member, "writer"⟩

def sampleDocument (id number : BitVec 128) : RawDocument where
  id := ⟨⟨id⟩⟩
  text := "first words"
  sourceKind := .text
  origin := "notes.txt"
  metadata := HashMap.insertAll ∅
    [("tenant_id", (writer number).tenantId.display), ("path", "notes.txt")]

def samplePiece (id documentId : BitVec 128) : Chunk :=
  ⟨⟨⟨id⟩⟩, ⟨⟨documentId⟩⟩, "first words", 0, 3⟩

def sampleWrites : List VectorWrite :=
  [.upsert (writer 2) (samplePiece 3 1) [1],
    .upsert (writer 1) (samplePiece 2 0) [1]]

def sampleSteps : List Step :=
  [.fetch .text (writer 1) "notes.txt", .fetch .text (writer 2) "notes.txt",
    .fetch .web (writer 2) "notes",
      .chunk (writer 1).tenantId (sampleDocument 0 1),
    .chunk (writer 2).tenantId (sampleDocument 1 2)] ++ sampleWrites.map .store

def sampleWorld : World Unit where
  surroundings := (4, ())
  documents := [((writer 1).tenantId, sampleDocument 0 1),
    ((writer 2).tenantId, sampleDocument 1 2)]
  chunks := [((writer 1).tenantId, samplePiece 2 0),
    ((writer 2).tenantId, samplePiece 3 1)]
  writes := sampleWrites

theorem permitted_sampleSteps :
    EachStep sampleSetup.next Permitted (World.start ()) sampleSteps :=
  ⟨trivial, trivial, trivial, List.mem_cons_self,
    List.mem_cons_of_mem _ List.mem_cons_self,
    List.mem_cons_of_mem _ List.mem_cons_self, List.mem_cons_self, trivial⟩

theorem unrepeated_sampleSetup : Unrepeated sampleSetup.uuids 4 := by
  intro k hk k' hk' h
  have hlt : k < 4 := hk
  have hlt' : k' < 4 := hk'
  have hbits : BitVec.ofNat 128 k = BitVec.ofNat 128 k' := congrArg Uuid.bits h
  have hvalue := congrArg BitVec.toNat hbits
  rw [BitVec.toNat_ofNat, BitVec.toNat_ofNat] at hvalue
  omega

theorem ingestion_keeps_apart_sampleSteps :
    (∀ ctx query topK,
      VectorCall.searchOutcomes ctx query topK (VectorWrite.after sampleWrites) =
        VectorCall.searchOutcomes ctx query topK
          (VectorWrite.after (ownWrites ctx.tenantId sampleWrites))) ∧
    ∀ (store : MongoVectorStore) (order : IterationOrder String VectorDocument),
      acknowledged store Collection.empty (sampleWrites.map (reached order)) =
        sampleWrites ∧
        Corresponds (VectorWrite.after sampleWrites).value
          ((sampleWrites.map (reached order)).foldl (MongoVectorCall.next store)
            Collection.empty) :=
  ingestion_keeps_apart sampleSetup () permitted_sampleSteps unrepeated_sampleSetup

/-! ## Where a match is from -/

/--
The chunk id is that of a piece of a document that the tenant fetched; nobody
else got a chunk of this id or a document of this identifier.
-/
structure StemsFrom (setup : Setup ω Url) (world : World ω) (tenantId : TenantId)
    (chunkId : ChunkId) (document : RawDocument) (chunk : Chunk) : Prop where
  fetched : (tenantId, document) ∈ world.documents
  tenant : document.metadata.lookup "tenant_id" = some tenantId.display
  chunked : (tenantId, chunk) ∈ world.chunks
  id : chunk.id = chunkId
  piece : setup.chunker.IsPiece document chunk
  onlyChunk : ∀ held ∈ world.chunks, held.2.id = chunkId → held = (tenantId, chunk)
  onlyDocument : ∀ held ∈ world.documents, held.2.id = document.id →
    held = (tenantId, document)

/-- Every match is live for the tenant, as a piece of a document that it fetched. -/
def Attributable (setup : Setup ω Url) (world : World ω)
    (writes : List VectorWrite) (tenantId : TenantId)
    (found : List VectorMatch) : Prop :=
  ∀ match_ ∈ found, ∃ document chunk record,
    StemsFrom setup world tenantId match_.chunkId document chunk ∧
      VectorWrite.Live writes match_.chunkId record ∧
      record.tenantId = tenantId ∧ record.documentId = document.id

namespace Accounted

variable {setup : Setup ω Url} {world : World ω} (h : Accounted setup world)
variable (huuids : Unrepeated setup.uuids world.surroundings.1)
include h huuids

private theorem stemsFrom {writes : List VectorWrite}
    (hwrites : writes ⊆ world.writes)
    {chunkId : ChunkId} {record : StoredVector}
    (hlive : VectorWrite.Live writes chunkId record) :
    ∃ document chunk, StemsFrom setup world record.tenantId chunkId
        document chunk ∧
      record.documentId = document.id := by
  obtain ⟨ctx, chunk, hmem, rfl, howner, hrecord⟩ :=
    upserted_of_lookup (VectorWrite.lookup_records.mpr hlive)
  have hheld : (ctx.tenantId, chunk) ∈ world.chunks := h.writes _ (hwrites hmem)
  rw [howner] at hheld
  obtain ⟨document, hdocument, hpiece⟩ := h.pieces _ hheld
  refine ⟨document, chunk, ?_, hrecord.symm.trans hpiece.documentId⟩
  exact {
    fetched := hdocument
    tenant := h.tenants _ hdocument
    chunked := hheld
    id := rfl
    piece := hpiece
    onlyChunk := fun held hmem' hid => h.eq_of_chunkId huuids hmem' hheld hid
    onlyDocument := fun held hmem' hid =>
      h.eq_of_documentId huuids hmem' hdocument hid }

private theorem attributable {writes : List VectorWrite}
    (hwrites : writes ⊆ world.writes) {tenantId : TenantId}
    {found : List VectorMatch}
    (hfound : ∀ match_ ∈ found, ∃ record, record.tenantId = tenantId ∧
      VectorWrite.Live writes match_.chunkId record) :
    Attributable setup world writes tenantId found := by
  intro match_ hmem
  obtain ⟨record, rfl, hlive⟩ := hfound match_ hmem
  obtain ⟨document, chunk, hstems, hdocument⟩ := h.stemsFrom huuids hwrites hlive
  exact ⟨document, chunk, record, hstems, hlive, rfl, hdocument⟩

end Accounted

/--
After a run of permitted steps whose identifiers do not repeat, every match of
a search stems from one document that the caller's tenant fetched and has not
deleted since: in the in-memory store after the writes of the run, and in a
MongoDB store that met these writes with any outages.
-/
theorem searches_attributable (setup : Setup ω Url) (outside : ω)
    {steps : List Step}
    (hsteps : EachStep setup.next Permitted (World.start outside) steps)
    (huuids : Unrepeated setup.uuids (steps.foldl setup.next
      (World.start outside)).surroundings.1)
    (ctx : TenantContext) (query : List Float32) (topK : Nat) :
    let world := steps.foldl setup.next (World.start outside)
    (∀ order found,
      (InMemoryVectorStore.search order ctx query topK
        (VectorWrite.after world.writes)).1 = .returned (.ok found) →
      Attributable setup world world.writes ctx.tenantId found) ∧
    ∀ (store : MongoVectorStore) (calls : List MongoVectorCall) (found : List VectorMatch),
      Selective store.server → calls.filterMap writeOf = world.writes →
      (store.search ctx query topK
        (calls.foldl (MongoVectorCall.next store) Collection.empty)).1 =
          .returned (.ok found) →
      Attributable setup world (acknowledged store Collection.empty calls)
        ctx.tenantId found := by
  intro world
  have haccounted := accounted_run setup outside hsteps
  constructor
  · intro order found hfound
    apply haccounted.attributable huuids (List.Subset.refl _)
    intro match_ hmem
    have hpool := InMemoryVectorStore.mem_scoredPool_of_search hfound match_ hmem
    obtain ⟨record, hlookup, howner, -⟩ :=
      InMemoryVectorStore.mem_scoredPool.mp hpool
    rw [VectorWrite.after_eq] at hlookup
    exact ⟨record, howner, VectorWrite.lookup_records.mp hlookup⟩
  · intro store calls found hserver hcalls hfound
    obtain ⟨hatlas, rows, hrows⟩ := rows_of_search hfound
    have hrefines := (refines_run store corresponds_empty calls).1
    obtain ⟨listed, hlisted, hlive⟩ := search_of_rows hatlas hserver hrefines hrows
    cases hfound.symm.trans hlisted
    apply haccounted.attributable huuids ?_ hlive.live
    exact hcalls ▸ acknowledged_subset store Collection.empty calls

theorem searches_attributable_sampleSteps :
    let order := IterationOrder.ascending ChunkId.number ChunkId.number_injective
    let calls := sampleWrites.map (reached .arbitrary)
    (InMemoryVectorStore.search order (writer 1) [1] 5
        (VectorWrite.after sampleWrites)).1 = .returned (.ok [⟨⟨⟨2⟩⟩, 1⟩]) ∧
      Attributable sampleSetup sampleWorld sampleWrites (writer 1).tenantId
          [⟨⟨⟨2⟩⟩, 1⟩] ∧
      ∃ found,
        (atlasStore.search (writer 1) [1] 5
          (calls.foldl (MongoVectorCall.next atlasStore) Collection.empty)).1 =
            .returned (.ok found) ∧
        Attributable sampleSetup sampleWorld
          (acknowledged atlasStore Collection.empty calls)
            (writer 1).tenantId found := by
  intro order calls
  have hmemory : (InMemoryVectorStore.search order (writer 1) [1] 5
      (VectorWrite.after sampleWrites)).1 = .returned (.ok [⟨⟨⟨2⟩⟩, 1⟩]) := by
    decide +kernel
  have hlimit : 1 ≤ (atlasStore.searchStage (writer 1) [1] 5).limit ∧
      (atlasStore.searchStage (writer 1) [1] 5).limit ≤
        (atlasStore.searchStage (writer 1) [1] 5).numCandidates := by
    rw [limit_searchStage, numCandidates_searchStage]
    decide
  obtain ⟨rows, hrows⟩ := referenceServer_answers .arbitrary hlimit
    (calls.foldl (MongoVectorCall.next atlasStore) Collection.empty)
  have hserver : Selective atlasStore.server := selective_referenceServer _
  change atlasStore.server.vectorSearch _ _ = .ok rows at hrows
  obtain ⟨found, hfound, -⟩ := search_of_rows rfl hserver
    (refines_run atlasStore corresponds_empty calls).1 hrows
  have hattributable := searches_attributable sampleSetup () permitted_sampleSteps
    unrepeated_sampleSetup (writer 1) [1] 5
  exact ⟨hmemory, hattributable.1 order _ hmemory, found, hfound,
    hattributable.2 atlasStore calls found hserver rfl hfound⟩

end Milona.Ingest
