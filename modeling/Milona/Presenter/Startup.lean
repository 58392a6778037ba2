import Milona.Foundation.Runs
import Milona.Presenter.ApiKeys
import Milona.Presenter.Agreement

/-!
# Starting the server

The keys of a server come from the value of a variable, whatever text it is, or
are a single generated key when the variable is unset or blank.  A key grants
the record of the last entry that names it, so a value without a readable entry
locks everyone out.
-/

namespace Milona.Presenter

open Milona.Core Milona.Foundation Milona.Retrieval Milona.Adapter
open Milona.Storage.Memory

variable (parseStr : String → Option Uuid)

/-! ## Entries of any text -/

/-- The entry has four fields, which are a key and the fields of the record. -/
structure Names (text : List Char) (key : String) (record : ApiKeyRecord) : Prop where
  fields : ∃ tenantStr roleStr, trim isWhitespace text =
      key.toList ++ ':' ::
        (tenantStr ++ ':' :: (roleStr ++ ':' :: record.subject.toList)) ∧
    ':' ∉ tenantStr ∧ ':' ∉ roleStr ∧
    parseStr (String.ofList tenantStr) = some record.tenantId.uuid ∧
    (toAsciiLowercase roleStr, record.role) ∈ roleNames
  key_plain : ':' ∉ key.toList

variable {parseStr}

theorem Names.splitN {text : List Char} {key : String} {record : ApiKeyRecord}
    (h : Names parseStr text key record) :
    ∃ tenantStr roleStr, splitN ':' 4 (trim isWhitespace text) =
        [key.toList, tenantStr, roleStr, record.subject.toList] ∧
      parseStr (String.ofList tenantStr) = some record.tenantId.uuid ∧
      roleOfName (toAsciiLowercase roleStr) = some record.role := by
  obtain ⟨⟨tenantStr, roleStr, htext, htenant, hrole, hparse, hname⟩, hkey⟩ := h
  refine ⟨tenantStr, roleStr, ?_, hparse, roleOfName_of_mem hname⟩
  rw [htext, splitN_append hkey, splitN_append htenant, splitN_append hrole]
  rfl

theorem Names.unique {text : List Char} {key key' : String}
    {record record' : ApiKeyRecord} (h : Names parseStr text key record)
    (h' : Names parseStr text key' record') :
    key = key' ∧ record = record' := by
  obtain ⟨tenantStr, roleStr, hsplit, htenant, hrole⟩ := h.splitN
  obtain ⟨tenantStr', roleStr', hsplit', htenant', hrole'⟩ := h'.splitN
  rw [hsplit] at hsplit'
  simp only [List.cons.injEq, String.toList_inj, and_true] at hsplit'
  obtain ⟨hkey, rfl, rfl, hsubject⟩ := hsplit'
  rw [htenant] at htenant'
  rw [hrole] at hrole'
  obtain ⟨⟨tenant⟩, role, subject⟩ := record
  obtain ⟨⟨tenant'⟩, role', subject'⟩ := record'
  simp_all

/-- What a server is built of, and the two identifiers that it may generate. -/
structure ServeWiring where
  driver : MongoDriver
  order : IterationOrder ChunkId StoredVector
  env : Environment
  tools : ToolRegistry Backends
  llm : LlmProvider Backends
  sleep : Duration → Action Backends Unit
  algorithm : Nat → String → List Instant → Instant → Bool
  parseStr : String → Option Uuid
  devKey : Uuid
  devTenant : Uuid

def ServeWiring.newFromEnv (wiring : ServeWiring) : Except String (AppState Backends) :=
  AppState.newFromEnv wiring.driver wiring.order wiring.env wiring.tools wiring.llm
    wiring.sleep

end Milona.Presenter
