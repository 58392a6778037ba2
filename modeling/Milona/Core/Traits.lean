import Milona.Core.Tenant
import Milona.Foundation.HashMap
import Milona.Foundation.Supply

/-!
# Errors and trait boundaries

A trait with `&self` methods is a record of actions over the state `σ` that the
implementation keeps behind its reference.  The type of that state is a
parameter, so a caller that is generic in the trait is generic in `σ`.
-/

namespace Milona.Core

open Milona.Foundation

inductive CoreError where
  | notFound (message : String)
  | unauthorized (message : String)
  | tenantIsolationViolation (message : String)
  | unsupported (message : String)
  | upstream (message : String)
  | invalidInput (message : String)
  | other (message : String)
  deriving DecidableEq, Repr

def CoreError.display : CoreError → String
  | .notFound message => "not found: " ++ message
  | .unauthorized message => "unauthorized: " ++ message
  | .tenantIsolationViolation message =>
      "tenant isolation violation: " ++ message
  | .unsupported message => "unsupported capability: " ++ message
  | .upstream message => "upstream provider error: " ++ message
  | .invalidInput message => "invalid input: " ++ message
  | .other message => message

abbrev Result (α : Type) : Type := Except CoreError α

/-! ## Ingestion -/

/-- `Uuid::new_v4`; `uuids` are the identifiers in the order of the calls. -/
def Uuid.newV4 (uuids : Nat → Uuid) : Action Nat Uuid := draw uuids

def DocumentId.new (uuids : Nat → Uuid) : Action Nat DocumentId := do
  return ⟨← Uuid.newV4 uuids⟩

def ChunkId.new (uuids : Nat → Uuid) : Action Nat ChunkId := do
  return ⟨← Uuid.newV4 uuids⟩

inductive SourceKind where
  | text
  | pdf
  | web
  deriving DecidableEq, Repr

structure RawDocument where
  id : DocumentId
  text : String
  sourceKind : SourceKind
  origin : String
  metadata : HashMap String String

structure DocumentSource (σ : Type) where
  fetch : TenantContext → String → Action σ (Result RawDocument)

structure Chunker (σ : Type) where
  chunk : RawDocument → Action σ (Result (List Chunk))

/-! ## Stores -/

structure VectorMatch where
  chunkId : ChunkId
  score : Float32
  deriving DecidableEq

structure VectorStore (σ : Type) where
  upsert : TenantContext → Chunk → List Float32 → Action σ (Result Unit)
  search : TenantContext → List Float32 → Nat →
    Action σ (Result (List VectorMatch))
  deleteDocument : TenantContext → DocumentId → Action σ (Result Unit)

def VectorStore.zoom {σ τ : Type} (lens : Lens τ σ) (store : VectorStore σ) :
    VectorStore τ where
  upsert ctx chunk embedding :=
    Action.zoom lens (store.upsert ctx chunk embedding)
  search ctx query topK := Action.zoom lens (store.search ctx query topK)
  deleteDocument ctx documentId :=
    Action.zoom lens (store.deleteDocument ctx documentId)

structure GraphEdge where
  fromNode : String
  toNode : String
  relation : String
  deriving DecidableEq, Repr

structure GraphStore (σ : Type) where
  addEdge : TenantContext → GraphEdge → Action σ (Result Unit)
  traverse : TenantContext → String → Nat →
    Action σ (Result (List GraphEdge))
  supportsTraversal : Bool

def GraphStore.zoom {σ τ : Type} (lens : Lens τ σ) (store : GraphStore σ) :
    GraphStore τ where
  addEdge ctx edge := Action.zoom lens (store.addEdge ctx edge)
  traverse ctx startNode maxDepth :=
    Action.zoom lens (store.traverse ctx startNode maxDepth)
  supportsTraversal := store.supportsTraversal

/-! ## Language model -/

inductive MessageRole where
  | system
  | user
  | assistant
  | data
  deriving DecidableEq, Repr

structure LlmMessage where
  role : MessageRole
  content : String
  deriving DecidableEq, Repr

structure LlmResponse where
  content : String
  inputTokens : UInt32
  outputTokens : UInt32
  deriving DecidableEq, Repr

structure LlmProvider (σ : Type) where
  complete : List LlmMessage → Action σ (Result LlmResponse)

def LlmProvider.zoom {σ τ : Type} (lens : Lens τ σ) (llm : LlmProvider σ) :
    LlmProvider τ where
  complete messages := Action.zoom lens (llm.complete messages)

/-! ## Tools -/

inductive JsonNumber where
  | natural (value : UInt64)
  | negative (value : Int64)
  | float (value : Float)

inductive Json where
  | null
  | bool (value : Bool)
  | number (value : JsonNumber)
  | string (value : String)
  | array (items : List Json)
  | object (fields : List (String × Json))

namespace Json

def get (value : Json) (key : String) : Option Json :=
  match value with
  | object fields => fields.lookup key
  | _ => none

def asStr : Json → Option String
  | string value => some value
  | _ => none

def asF64 : Json → Option Float
  | number (.natural value) => some value.toFloat
  | number (.negative value) => some (.ofModel (.ofInt64 value))
  | number (.float value) => some value
  | _ => none

end Json

structure ToolInvocation where
  name : String
  arguments : Json

structure ToolResult where
  content : String
  deriving DecidableEq, Repr

structure Tool (σ : Type) where
  name : String
  description : String
  invoke : TenantContext → ToolInvocation → Action σ (Result ToolResult)

def Tool.zoom {σ τ : Type} (lens : Lens τ σ) (tool : Tool σ) : Tool τ where
  name := tool.name
  description := tool.description
  invoke ctx invocation := Action.zoom lens (tool.invoke ctx invocation)

end Milona.Core
