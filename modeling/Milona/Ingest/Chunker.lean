import Milona.Ingest.Sources

/-!
# The chunker

The splitter of the library cuts a text into pieces; the chunker numbers them
and draws an identifier for each.  Builds with debug assertions panic on a
piece of more than twice the target size, after the identifiers are drawn.
-/

namespace Milona.Ingest

open Milona.Core Milona.Foundation

/-- The splitter library: whether it accepts a size and an overlap, and its pieces. -/
structure TextSplitter where
  withOverlap : Nat → Nat → Except String Unit
  chunks : Nat → Nat → String → List String

def defaultChunkCharacters : Nat := 1800

def defaultChunkOverlap : Nat := 270

def approxTokenCount (text : String) : Nat := (text.length + 3) / 4

structure RecursiveChunker where
  splitter : String → List String
  maxCharacters : Nat

namespace RecursiveChunker

def new (library : TextSplitter) (maxCharacters overlapCharacters : Nat) :
    Result RecursiveChunker :=
  match library.withOverlap maxCharacters overlapCharacters with
  | .error e => .error (IngestError.chunking e).toCoreError
  | .ok () => .ok ⟨library.chunks maxCharacters overlapCharacters, maxCharacters⟩

/-- Panics if the library rejects the defaults. -/
def withDefaults {σ : Type} (library : TextSplitter) : Action σ RecursiveChunker :=
  match new library defaultChunkCharacters defaultChunkOverlap with
  | .error _ => Action.panic
  | .ok chunker => return chunker

section Chunk

variable (uuids : Nat → Uuid)

/-- The pieces from the given position on, each with a new identifier. -/
def chunksFrom (documentId : DocumentId) :
    Nat → List String → Action Nat (List Chunk)
  | _, [] => return []
  | sequence, text :: rest => do
      let id ← ChunkId.new uuids
      let later ← chunksFrom documentId (sequence + 1) rest
      return ⟨id, documentId, text, sequence, approxTokenCount text⟩ :: later

/-- The assertion fails, or the product in it overflows 64 bits. -/
def exceeds (chunker : RecursiveChunker) (chunk : Chunk) : Bool :=
  2 ^ 64 ≤ 2 * chunker.maxCharacters ||
    2 * chunker.maxCharacters < chunk.text.length

def chunk (chunker : RecursiveChunker) (debugAssertions : Bool)
    (document : RawDocument) :
    Action Nat (Result (List Chunk)) := do
  if (trim isWhitespace document.text.toList).isEmpty then
    return .ok []
  else
    let chunks ← chunksFrom uuids document.id 0 (chunker.splitter document.text)
    if debugAssertions && chunks.any chunker.exceeds then
      Action.panic
    else
      return .ok chunks

end Chunk

/-! ## The chunks of a document -/

/-- The chunk is a piece of the document, under its position among the pieces. -/
structure IsPiece (chunker : RecursiveChunker) (document : RawDocument)
    (chunk : Chunk) :
    Prop where
  documentId : chunk.documentId = document.id
  text : (chunker.splitter document.text)[chunk.sequence]? = some chunk.text
  tokenCount : chunk.tokenCount = approxTokenCount chunk.text

variable (uuids : Nat → Uuid)

private theorem chunksFrom_spec (documentId : DocumentId) (sequence : Nat)
    (texts : List String) (count : Nat) :
    ∃ chunks, chunksFrom uuids documentId sequence texts count =
        (.returned chunks, count + texts.length) ∧
      (chunks.map fun chunk => chunk.id.uuid) = keysFrom uuids count texts.length ∧
      ∀ chunk ∈ chunks, chunk.documentId = documentId ∧ sequence ≤ chunk.sequence ∧
        texts[chunk.sequence - sequence]? = some chunk.text ∧
        chunk.tokenCount = approxTokenCount chunk.text := by
  induction texts generalizing sequence count with
  | nil => exact ⟨[], rfl, rfl, by simp⟩
  | cons text rest ih =>
      obtain ⟨later, hrun, hids, hpieces⟩ := ih (sequence + 1) (count + 1)
      refine ⟨⟨⟨uuids count⟩, documentId, text, sequence,
        approxTokenCount text⟩ :: later,
        ?_, ?_, ?_⟩
      · have hlater : ∀ next : List Chunk → Action Nat (List Chunk),
            (chunksFrom uuids documentId (sequence + 1) rest >>= next)
                (count + 1) =
              next later (count + 1 + rest.length) :=
          fun next => Action.bind_of_returned hrun
        calc
          chunksFrom uuids documentId sequence (text :: rest) count =
              (.returned (_ :: later), count + 1 + rest.length) := hlater _
          _ = _ := by rw [List.length_cons, Nat.add_assoc, Nat.add_comm 1]
      · rw [List.map_cons, hids, List.length_cons, keysFrom_succ]
      · intro chunk hchunk
        rcases List.mem_cons.mp hchunk with rfl | hlater
        · simp
        · obtain ⟨hdocument, hle, htext, hcount⟩ := hpieces chunk hlater
          have hposition : chunk.sequence - sequence =
              (chunk.sequence - (sequence + 1)) + 1 := by omega
          refine ⟨hdocument, by omega, ?_, hcount⟩
          rw [hposition, List.getElem?_cons_succ]
          exact htext

/-- What a call of the chunker draws and returns. -/
inductive ChunkPhase (chunker : RecursiveChunker) (uuids : Nat → Uuid)
    (document : RawDocument) (count : Nat) : Outcome (Result (List Chunk)) →
    Nat → Prop
  | panicked (more : Nat) : ChunkPhase chunker uuids document count .panicked
      (count + more)
  | returned (chunks : List Chunk)
      (hids : (chunks.map fun chunk => chunk.id.uuid) =
        keysFrom uuids count chunks.length)
      (hpieces : ∀ chunk ∈ chunks, chunker.IsPiece document chunk) :
      ChunkPhase chunker uuids document count (.returned (.ok chunks))
        (count + chunks.length)

theorem chunkPhase_chunk (chunker : RecursiveChunker) (debugAssertions : Bool)
    (document : RawDocument) (count : Nat) :
    ChunkPhase chunker uuids document count
      (chunker.chunk uuids debugAssertions document count).1
      (chunker.chunk uuids debugAssertions document count).2 := by
  unfold chunk
  split
  · exact .returned [] rfl (by simp)
  · obtain ⟨chunks, hrun, hids, hpieces⟩ := chunksFrom_spec uuids document.id 0
      (chunker.splitter document.text) count
    have hlength : chunks.length = (chunker.splitter document.text).length := by
      simpa [keysFrom] using congrArg List.length hids
    rw [Action.bind_of_returned hrun]
    split
    · exact .panicked _
    · rw [← hlength] at hids ⊢
      refine .returned chunks hids fun chunk hchunk => ?_
      obtain ⟨hdocument, -, htext, hcount⟩ := hpieces chunk hchunk
      exact ⟨hdocument, htext, hcount⟩

end RecursiveChunker

end Milona.Ingest
