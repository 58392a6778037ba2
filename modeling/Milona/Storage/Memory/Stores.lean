import Milona.Storage.Memory.Graph
import Milona.Storage.Memory.VectorIsolation

/-!
# The two in-memory stores together

The state behind a `Knowledge` over in-memory stores is the pair of the stores.
The calls below are the ones that write; none of them panics, so a history of
them acts on the unlocked contents.

Two contents look the same to a tenant when its records and its edges are the
same in both.  Erasing the calls of the other tenants from a history does not
change what a tenant sees, as long as no chunk id is shared between tenants.
-/

namespace Milona.Storage.Memory

open Milona.Core Milona.Foundation InMemoryVectorStore

abbrev InMemoryStores : Type := InMemoryVectorStore × InMemoryGraphStore

inductive StoreCall where
  | upsert (ctx : TenantContext) (chunk : Chunk) (embedding : List Float32)
  | deleteDocument (ctx : TenantContext) (documentId : DocumentId)
  | addEdge (ctx : TenantContext) (edge : GraphEdge)

structure Contents where
  records : Records
  edges : List StoredEdge

def Contents.unlocked (contents : Contents) : InMemoryStores :=
  (⟨contents.records, false⟩, ⟨contents.edges, false⟩)

def Contents.empty : Contents := ⟨∅, []⟩

namespace StoreCall

def ctx : StoreCall → TenantContext
  | .upsert ctx _ _ => ctx
  | .deleteDocument ctx _ => ctx
  | .addEdge ctx _ => ctx

def tenantId (call : StoreCall) : TenantId := call.ctx.tenantId

def perform : StoreCall → Action InMemoryStores (Result Unit)
  | .upsert ctx chunk embedding =>
      Action.zoom .fst (InMemoryVectorStore.upsert ctx chunk embedding)
  | .deleteDocument ctx documentId =>
      Action.zoom .fst (InMemoryVectorStore.deleteDocument ctx documentId)
  | .addEdge ctx edge => Action.zoom .snd (InMemoryGraphStore.addEdge ctx edge)

def after (calls : List StoreCall) (stores : InMemoryStores) : InMemoryStores :=
  calls.foldl (fun stores call => (call.perform stores).2) stores

def effect (contents : Contents) : StoreCall → Contents
  | .upsert ctx chunk embedding =>
      { contents with
        records := (VectorCall.upsert ctx chunk embedding).effect
          contents.records }
  | .deleteDocument ctx documentId =>
      { contents with
        records := (VectorCall.deleteDocument ctx documentId).effect
          contents.records }
  | .addEdge ctx edge =>
      { contents with edges := contents.edges ++ [⟨ctx.tenantId, edge⟩] }

theorem perform_unlocked (call : StoreCall) (contents : Contents) :
    call.perform contents.unlocked =
      (.returned (.ok ()), (effect contents call).unlocked) := by
  cases call <;> rfl

theorem after_unlocked (calls : List StoreCall) (contents : Contents) :
    after calls contents.unlocked = (calls.foldl effect contents).unlocked := by
  induction calls generalizing contents with
  | nil => rfl
  | cons call calls ih =>
      rw [after, List.foldl_cons, perform_unlocked]
      exact ih (effect contents call)

/-! ## Where the contents come from -/

def Upserted (history : List StoreCall) (tenantId : TenantId)
    (chunkId : ChunkId) : Prop :=
  ∃ ctx chunk embedding, StoreCall.upsert ctx chunk embedding ∈ history ∧
    ctx.tenantId = tenantId ∧ chunk.id = chunkId

def EdgeAdded (history : List StoreCall) (tenantId : TenantId)
    (edge : GraphEdge) : Prop :=
  ∃ ctx, StoreCall.addEdge ctx edge ∈ history ∧ ctx.tenantId = tenantId

/-- Every record and edge was written by its owner in the history. -/
structure WrittenBy (history : List StoreCall) (contents : Contents) : Prop where
  records : ∀ id record, contents.records.lookup id = some record →
    Upserted history record.tenantId id
  edges : ∀ stored ∈ contents.edges,
    EdgeAdded history stored.tenantId stored.edge

theorem writtenBy_empty (history : List StoreCall) :
    WrittenBy history Contents.empty where
  records id record h := by simp [Contents.empty] at h
  edges stored h := by cases h

theorem WrittenBy.effect {history : List StoreCall} {contents : Contents}
    (h : WrittenBy history contents) {call : StoreCall}
    (hcall : call ∈ history) :
    WrittenBy history (StoreCall.effect contents call) := by
  cases call with
  | upsert ctx chunk embedding =>
      refine ⟨fun id record hlookup => ?_, h.edges⟩
      simp only [StoreCall.effect, VectorCall.effect,
        HashMap.lookup_insert_eq_ite] at hlookup
      split at hlookup
      · rename_i hid
        cases hlookup
        exact ⟨ctx, chunk, embedding, hcall, rfl, hid.symm⟩
      · exact h.records id record hlookup
  | deleteDocument ctx documentId =>
      refine ⟨fun id record hlookup => ?_, h.edges⟩
      simp only [StoreCall.effect, VectorCall.effect, HashMap.lookup_retain,
        Option.filter_eq_some_iff] at hlookup
      exact h.records id record hlookup.1
  | addEdge ctx edge =>
      refine ⟨h.records, fun stored hstored => ?_⟩
      rcases List.mem_append.mp hstored with hold | hnew
      · exact h.edges stored hold
      · rw [List.mem_singleton.mp hnew]
        exact ⟨ctx, hcall, rfl⟩

/-! ## What a tenant sees -/

/-- The tenant has the same records and the same edges in both contents. -/
structure SameView (tenantId : TenantId) (contents contents' : Contents) :
    Prop where
  records : ownRecords tenantId contents.records =
    ownRecords tenantId contents'.records
  edges : InMemoryGraphStore.edgesOf tenantId contents.edges =
    InMemoryGraphStore.edgesOf tenantId contents'.edges

theorem SameView.effect {tenantId : TenantId} {contents contents' : Contents}
    (h : SameView tenantId contents contents') (call : StoreCall) :
    SameView tenantId (StoreCall.effect contents call)
      (StoreCall.effect contents' call) := by
  cases call with
  | upsert ctx chunk embedding =>
      exact ⟨VectorCall.ownRecords_effect_congr h.records _, h.edges⟩
  | deleteDocument ctx documentId =>
      exact ⟨VectorCall.ownRecords_effect_congr h.records _, h.edges⟩
  | addEdge ctx edge =>
      refine ⟨h.records, ?_⟩
      simp only [StoreCall.effect, InMemoryGraphStore.edgesOf_append_one, h.edges]

/-- The call is not an upsert of a chunk id that the tenant holds. -/
def Spares (tenantId : TenantId) (contents : Contents) : StoreCall → Prop
  | .upsert _ chunk _ =>
      (ownRecords tenantId contents.records).lookup chunk.id = none
  | .deleteDocument .. | .addEdge .. => True

theorem sameView_effect_of_other {tenantId : TenantId} {contents : Contents}
    {call : StoreCall} (hcall : call.tenantId ≠ tenantId)
    (hspares : call.Spares tenantId contents) :
    SameView tenantId (effect contents call) contents := by
  cases call with
  | upsert ctx chunk embedding =>
      refine ⟨?_, rfl⟩
      have hother := @VectorCall.ownRecords_effect_of_other tenantId
        (.upsert ctx chunk embedding) hcall contents.records
      exact hother.trans (HashMap.erase_of_lookup_eq_none hspares)
  | deleteDocument ctx documentId =>
      exact ⟨@VectorCall.ownRecords_effect_of_other tenantId
        (.deleteDocument ctx documentId) hcall contents.records, rfl⟩
  | addEdge ctx edge =>
      refine ⟨rfl, ?_⟩
      have hother : ctx.tenantId ≠ tenantId := hcall
      simp [effect, InMemoryGraphStore.edgesOf_append_one, hother]

/-- No chunk id is upserted by two different tenants. -/
def ChunkIdsUnshared (history : List StoreCall) : Prop :=
  ∀ first second chunkId, Upserted history first chunkId →
    Upserted history second chunkId → first = second

def upsertedId : StoreCall → Option (TenantId × ChunkId)
  | .upsert ctx chunk _ => some (ctx.tenantId, chunk.id)
  | .deleteDocument .. | .addEdge .. => none

theorem upserted_iff {history : List StoreCall} {tenantId : TenantId}
    {chunkId : ChunkId} :
    Upserted history tenantId chunkId ↔
      (tenantId, chunkId) ∈ history.filterMap upsertedId := by
  rw [List.mem_filterMap]
  constructor
  · rintro ⟨ctx, chunk, embedding, hmem, rfl, rfl⟩
    exact ⟨_, hmem, rfl⟩
  · rintro ⟨call, hmem, hid⟩
    cases call with
    | upsert ctx chunk embedding =>
        cases hid
        exact ⟨ctx, chunk, embedding, hmem, rfl, rfl⟩
    | deleteDocument ctx documentId => cases hid
    | addEdge ctx edge => cases hid

instance (history : List StoreCall) : Decidable (ChunkIdsUnshared history) :=
  decidable_of_iff
    (∀ a ∈ history.filterMap upsertedId, ∀ b ∈ history.filterMap upsertedId,
      a.2 = b.2 → a.1 = b.1) <| by
    unfold ChunkIdsUnshared
    simp only [upserted_iff]
    constructor
    · exact fun h first second id hfirst hsecond => h _ hfirst _ hsecond rfl
    · rintro h ⟨first, id⟩ hfirst ⟨second, _⟩ hsecond rfl
      exact h first second id hfirst hsecond

theorem spares_of_unshared {history : List StoreCall}
    (hunshared : ChunkIdsUnshared history) {contents : Contents}
    (hwritten : WrittenBy history contents) {tenantId : TenantId}
    {call : StoreCall} (hmem : call ∈ history)
    (hcall : call.tenantId ≠ tenantId) : call.Spares tenantId contents := by
  cases call with
  | upsert ctx chunk embedding =>
      refine Option.eq_none_iff_forall_ne_some.mpr fun record hrecord => hcall ?_
      obtain ⟨hlookup, howner⟩ := lookup_ownRecords.mp hrecord
      have hold := hwritten.records _ _ hlookup
      rw [howner] at hold
      exact hunshared _ _ chunk.id ⟨ctx, chunk, embedding, hmem, rfl, rfl⟩ hold
  | deleteDocument ctx documentId => trivial
  | addEdge ctx edge => trivial

def eraseOthers (tenantId : TenantId) (calls : List StoreCall) :
    List StoreCall :=
  calls.filter fun call => call.tenantId = tenantId

/-- Run lemma: a tenant's view does not depend on the calls of the others. -/
theorem sameView_eraseOthers {history : List StoreCall}
    (hunshared : ChunkIdsUnshared history) (tenantId : TenantId) :
    WrittenBy history (history.foldl effect Contents.empty) ∧
      SameView tenantId (history.foldl effect Contents.empty)
        ((eraseOthers tenantId history).foldl effect Contents.empty) := by
  refine foldl_filter_related
    (R := fun contents contents' =>
      WrittenBy history contents ∧ SameView tenantId contents contents')
    ?_ ?_ ⟨writtenBy_empty history, ⟨rfl, rfl⟩⟩
  · rintro call hcall - contents contents' ⟨hwritten, hview⟩
    exact ⟨hwritten.effect hcall, hview.effect call⟩
  · rintro call hcall hother contents contents' ⟨hwritten, hview⟩
    have hne : call.tenantId ≠ tenantId := by simpa using hother
    have hspares := spares_of_unshared hunshared hwritten hcall hne
    have hsame := sameView_effect_of_other hne hspares
    exact ⟨hwritten.effect hcall, hsame.records.trans hview.records,
      hsame.edges.trans hview.edges⟩

theorem edgesOf_foldl_of_others {tenantId : TenantId} {calls : List StoreCall}
    (h : ∀ call ∈ calls, call.tenantId ≠ tenantId) (contents : Contents) :
    InMemoryGraphStore.edgesOf tenantId (calls.foldl effect contents).edges =
      InMemoryGraphStore.edgesOf tenantId contents.edges := by
  induction calls generalizing contents with
  | nil => rfl
  | cons call calls ih =>
      rw [List.foldl_cons, ih fun c hc => h c (List.mem_cons_of_mem _ hc)]
      have hother := h call List.mem_cons_self
      cases call with
      | upsert ctx chunk embedding => rfl
      | deleteDocument ctx documentId => rfl
      | addEdge ctx edge =>
          have hne : ctx.tenantId ≠ tenantId := hother
          simp [effect, InMemoryGraphStore.edgesOf_append_one, hne]

end StoreCall

end Milona.Storage.Memory
