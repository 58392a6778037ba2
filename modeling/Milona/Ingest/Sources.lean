import Milona.Core.Traits
import Milona.Ingest.Web

/-!
# Document sources

A local text file, a local PDF and a web page.  The file system, the PDF
extraction, the HTTP client and the HTML parser belong to the outside, which
every call may change; the first part of the state counts the identifiers that
are drawn.
-/

namespace Milona.Ingest

open Milona.Core Milona.Foundation

inductive IngestError where
  | io (path source : String)
  | pdf (origin message : String)
  | http (url message : String)
  | invalidUrl (message : String)
  | chunking (message : String)
  | embedding (message : String)
  deriving DecidableEq, Repr

namespace IngestError

def display : IngestError → String
  | io path source => "io error reading " ++ path ++ ": " ++ source
  | pdf origin message => "pdf extraction failed for " ++ origin ++ ": " ++ message
  | http url message => "http fetch failed for " ++ url ++ ": " ++ message
  | invalidUrl message => "invalid url: " ++ message
  | chunking message => "chunking failed: " ++ message
  | embedding message => "embedding failed: " ++ message

def toCoreError : IngestError → CoreError
  | invalidUrl message => .invalidInput message
  | error => .other error.display

end IngestError

/-- The identifiers that are drawn, and the outside. -/
abbrev Surroundings (ω : Type) : Type := Nat × ω

section Sources

variable {ω : Type} (uuids : Nat → Uuid)

def rawDocument (sourceKind : SourceKind) (origin text : String)
    (metadata : List (String × String)) :
    Action (Surroundings ω) (Result RawDocument) := do
  let id ← Action.zoom .fst (DocumentId.new uuids)
  return .ok ⟨id, text, sourceKind, origin, HashMap.insertAll ∅ metadata⟩

def TextFileSource.fetch (readToString : String → Action ω (Except String String))
    (ctx : TenantContext) (location : String) :
    Action (Surroundings ω) (Result RawDocument) := do
  match ← Action.zoom .snd (readToString location) with
  | .error source => return .error (IngestError.io location source).toCoreError
  | .ok text =>
      rawDocument uuids .text location text
        [("tenant_id", ctx.tenantId.display), ("path", location)]

/-- The outer error of `extractText` is that of the blocking task. -/
def PdfFileSource.fetch
    (extractText : String → Action ω (Except String (Except String String)))
    (ctx : TenantContext) (location : String) :
    Action (Surroundings ω) (Result RawDocument) := do
  match ← Action.zoom .snd (extractText location) with
  | .error joinErr =>
      return .error
        (IngestError.pdf location ("blocking task panicked: " ++ joinErr)).toCoreError
  | .ok (.error source) => return .error (IngestError.pdf location source).toCoreError
  | .ok (.ok text) =>
      rawDocument uuids .pdf location text
        [("tenant_id", ctx.tenantId.display), ("path", location)]

/-! ## Web pages -/

structure HttpResponse (ω : Type) where
  status : Nat
  statusText : String
  text : Action ω (Except String String)

/-- The HTTP client with its URL parser; `Url` is the type of parsed URLs. -/
structure HttpClient (ω Url : Type) where
  parse : String → Except String Url
  send : Url → Action ω (Except String (HttpResponse ω))

def isSuccess (status : Nat) : Bool := 200 ≤ status && status < 300

def titleSelector : List String := ["title"]

def extractTitle (document : Html) : Option String :=
  (document.select titleSelector).head?.map fun el =>
    let text := (el.preorder.filterMap Node.asText).flatMap String.toList
    String.ofList (trim isWhitespace text)

def WebSource.fetch {Url : Type} (client : HttpClient ω Url)
    (parseDocument : String → Html) (ctx : TenantContext) (location : String) :
    Action (Surroundings ω) (Result RawDocument) := do
  match client.parse location with
  | .error e => return .error (IngestError.invalidUrl (location ++ ": " ++ e)).toCoreError
  | .ok url =>
      match ← Action.zoom .snd (client.send url) with
      | .error e => return .error (IngestError.http location e).toCoreError
      | .ok response =>
          if !isSuccess response.status then
            return .error (IngestError.http location
              ("unexpected status " ++ response.statusText)).toCoreError
          else
            match ← Action.zoom .snd response.text with
            | .error e => return .error (IngestError.http location e).toCoreError
            | .ok html =>
                let document := parseDocument html
                let title := (extractTitle document).map fun title => ("title", title)
                rawDocument uuids .web location (extractText document)
                  ([("tenant_id", ctx.tenantId.display), ("url", location)] ++
                    title.toList)

end Sources

/-! ## What a fetch returns -/

/-- The document names the caller's tenant, and where it is from. -/
structure Attributed (ctx : TenantContext) (location : String) (document : RawDocument) :
    Prop where
  origin : document.origin = location
  tenant : document.metadata.lookup "tenant_id" = some ctx.tenantId.display

/-- A fetch that returns a document draws one identifier, any other fetch none. -/
inductive FetchPhase (uuids : Nat → Uuid) (ctx : TenantContext) (location : String)
    (count : Nat) : Outcome (Result RawDocument) → Nat → Prop
  | failed (outcome : Outcome (Result RawDocument))
      (hfailed : ∀ document, outcome ≠ .returned (.ok document)) :
      FetchPhase uuids ctx location count outcome count
  | fetched (document : RawDocument) (hid : document.id = ⟨uuids count⟩)
      (hattributed : Attributed ctx location document) :
      FetchPhase uuids ctx location count (.returned (.ok document)) (count + 1)

def Fetches {ω : Type} (uuids : Nat → Uuid) (ctx : TenantContext) (location : String)
    (fetch : Action (Surroundings ω) (Result RawDocument)) : Prop :=
  ∀ s, FetchPhase uuids ctx location s.1 (fetch s).1 (fetch s).2.1

section Fetches

variable {ω : Type} {uuids : Nat → Uuid} {ctx : TenantContext} {location : String}

theorem fetches_error (e : CoreError) :
    Fetches uuids ctx location
      (pure (.error e) : Action (Surroundings ω) (Result RawDocument)) :=
  fun _ => .failed _ fun _ h => nomatch h

theorem fetches_outside {α : Type} {x : Action ω α}
    {next : α → Action (Surroundings ω) (Result RawDocument)}
    (hnext : ∀ value, Fetches uuids ctx location (next value)) :
    Fetches uuids ctx location (Action.zoom .snd x >>= next) := by
  rintro ⟨count, outside⟩
  rw [Action.bind_apply, Action.zoom_apply]
  cases hx : x outside with
  | mk outcome outside' =>
      cases outcome with
      | returned value => simpa [hx] using hnext value (count, outside')
      | panicked => simpa [hx] using FetchPhase.failed .panicked fun _ h => nomatch h

theorem fetches_rawDocument (sourceKind : SourceKind) (text : String)
    {metadata : List (String × String)}
    (hmetadata : metadata.reverse.find? (·.1 = "tenant_id") =
      some ("tenant_id", ctx.tenantId.display)) :
    Fetches uuids ctx location
      (rawDocument uuids sourceKind location text metadata :
        Action (Surroundings ω) (Result RawDocument)) := by
  rintro ⟨count, outside⟩
  refine .fetched _ rfl ⟨rfl, ?_⟩
  show Finmap.lookup "tenant_id" (HashMap.insertAll ∅ metadata) = _
  rw [HashMap.lookup_insertAll, hmetadata]
  rfl

theorem fetches_text (readToString : String → Action ω (Except String String)) :
    Fetches uuids ctx location
      (TextFileSource.fetch uuids readToString ctx location) := by
  apply fetches_outside
  intro read
  cases read with
  | error source => exact fetches_error _
  | ok text => exact fetches_rawDocument _ _ (by simp)

theorem fetches_pdf
    (extractText : String → Action ω (Except String (Except String String))) :
    Fetches uuids ctx location (PdfFileSource.fetch uuids extractText ctx location) := by
  apply fetches_outside
  intro joined
  rcases joined with joinErr | source | text
  · exact fetches_error _
  · exact fetches_error _
  · exact fetches_rawDocument _ _ (by simp)

theorem fetches_web {Url : Type} (client : HttpClient ω Url)
    (parseDocument : String → Html) :
    Fetches uuids ctx location
      (WebSource.fetch uuids client parseDocument ctx location) := by
  unfold WebSource.fetch
  cases client.parse location with
  | error e => exact fetches_error _
  | ok url =>
      apply fetches_outside
      intro sent
      cases sent with
      | error e => exact fetches_error _
      | ok response =>
          dsimp only
          split
          · exact fetches_error _
          · apply fetches_outside
            intro body
            cases body with
            | error e => exact fetches_error _
            | ok html =>
                apply fetches_rawDocument
                cases extractTitle (parseDocument html) <;> simp

end Fetches

end Milona.Ingest
