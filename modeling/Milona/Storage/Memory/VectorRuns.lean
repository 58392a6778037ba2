import Milona.Foundation.Runs
import Milona.Storage.Memory.Vector

/-!
# Runs of the in-memory vector store

A run is any list of calls by any tenants.  On a store whose mutex is not
poisoned a call either faults, which leaves the records alone and poisons the
mutex, or succeeds and changes the records by its `effect`.  The effect of a
call on one tenant's records is a function of these records alone.
-/

namespace Milona.Storage.Memory

open Milona.Core Milona.Foundation

/-- One call of the trait; a search carries the iteration order it meets. -/
inductive VectorCall where
  | upsert (ctx : TenantContext) (chunk : Chunk) (embedding : List Float32)
  | search (order : IterationOrder ChunkId StoredVector) (ctx : TenantContext)
      (query : List Float32) (topK : Nat)
  | deleteDocument (ctx : TenantContext) (documentId : DocumentId)

inductive VectorReply where
  | done (result : Result Unit)
  | found (result : Result (List VectorMatch))
  deriving DecidableEq

def VectorReply.isOk : VectorReply → Bool
  | .done result => result.isOk
  | .found result => result.isOk

namespace VectorCall

open InMemoryVectorStore

def ctx : VectorCall → TenantContext
  | .upsert ctx _ _ => ctx
  | .search _ ctx _ _ => ctx
  | .deleteDocument ctx _ => ctx

def tenantId (call : VectorCall) : TenantId := call.ctx.tenantId

def perform : VectorCall → Action InMemoryVectorStore VectorReply
  | .upsert ctx chunk embedding => do
      return .done (← InMemoryVectorStore.upsert ctx chunk embedding)
  | .search order ctx query topK => do
      return .found (← InMemoryVectorStore.search order ctx query topK)
  | .deleteDocument ctx documentId => do
      return .done (← InMemoryVectorStore.deleteDocument ctx documentId)

def next (store : InMemoryVectorStore) (call : VectorCall) :
    InMemoryVectorStore :=
  (call.perform store).2

def after (calls : List VectorCall) (store : InMemoryVectorStore) :
    InMemoryVectorStore :=
  calls.foldl next store

/-! ## What one call does -/

/-- The call is a search whose scores cannot be sorted. -/
def Faults (records : Records) : VectorCall → Prop
  | .search _ ctx query _ => ¬ Sortable ctx.tenantId query records
  | .upsert .. | .deleteDocument .. => False

/-- The change of the records by a call that does not fault. -/
def effect : VectorCall → Records → Records
  | .upsert ctx chunk embedding, records =>
      records.insert chunk.id ⟨ctx.tenantId, chunk.documentId, embedding⟩
  | .search .., records => records
  | .deleteDocument ctx documentId, records =>
      records.retain fun _ record =>
        !(record.tenantId = ctx.tenantId && record.documentId = documentId)

theorem perform_of_faults {records : Records} {call : VectorCall}
    (h : call.Faults records) :
    call.perform ⟨records, false⟩ = (.panicked, ⟨records, true⟩) := by
  cases call with
  | upsert ctx chunk embedding => exact h.elim
  | search order ctx query topK =>
      exact Action.bind_of_panicked (search_of_not_sortable order ctx query topK h)
  | deleteDocument ctx documentId => exact h.elim

theorem perform_of_not_faults {records : Records} {call : VectorCall}
    (h : ¬ call.Faults records) :
    ∃ reply : VectorReply, reply.isOk = true ∧
      call.perform ⟨records, false⟩ =
        (.returned reply, ⟨call.effect records, false⟩) := by
  cases call with
  | upsert ctx chunk embedding =>
      exact ⟨.done (.ok ()), rfl,
        Action.bind_of_returned (upsert_apply ctx chunk embedding records)⟩
  | search order ctx query topK =>
      obtain ⟨found, hsearch, -⟩ :=
        search_of_sortable order ctx query topK (not_not.mp h)
      exact ⟨.found (.ok found), rfl, Action.bind_of_returned hsearch⟩
  | deleteDocument ctx documentId =>
      exact ⟨.done (.ok ()), rfl,
        Action.bind_of_returned (deleteDocument_apply ctx documentId records)⟩

theorem perform_of_poisoned {store : InMemoryVectorStore}
    (h : store.poisoned = true) (call : VectorCall) :
    call.perform store = (.panicked, store) := by
  cases call <;> exact Action.bind_of_panicked (Mutex.lock_poisoned _ h)

theorem next_of_not_faults {records : Records} {call : VectorCall}
    (h : ¬ call.Faults records) :
    next ⟨records, false⟩ call = ⟨call.effect records, false⟩ := by
  obtain ⟨reply, -, hperform⟩ := perform_of_not_faults h
  rw [next, hperform]

theorem next_of_faults {records : Records} {call : VectorCall}
    (h : call.Faults records) : next ⟨records, false⟩ call = ⟨records, true⟩ := by
  rw [next, perform_of_faults h]

theorem value_next (store : InMemoryVectorStore) (call : VectorCall) :
    (next store call).value = store.value ∨
      (next store call).value = call.effect store.value := by
  obtain ⟨records, poisoned⟩ := store
  cases poisoned with
  | true =>
      left
      rw [next, perform_of_poisoned rfl]
  | false =>
      by_cases h : call.Faults records
      · left
        rw [next_of_faults h]
      · right
        rw [next_of_not_faults h]

/-! ## Availability -/

/-- The call meets no poisoned lock and returns `Ok`. -/
def Served (store : InMemoryVectorStore) (call : VectorCall) : Prop :=
  store.poisoned = false ∧
    ∃ reply : VectorReply, (call.perform store).1 = .returned reply ∧
      reply.isOk = true

theorem served_iff {store : InMemoryVectorStore} (hstore : store.poisoned = false)
    (call : VectorCall) : Served store call ↔ ¬ call.Faults store.value := by
  obtain ⟨records, poisoned⟩ := store
  change poisoned = false at hstore
  subst hstore
  constructor
  · rintro ⟨-, reply, hreply, -⟩ hfaults
    rw [perform_of_faults hfaults] at hreply
    cases hreply
  · intro h
    obtain ⟨reply, hok, hperform⟩ := perform_of_not_faults h
    exact ⟨rfl, reply, by rw [hperform], hok⟩

/-- Step lemma: only a faulting call poisons the lock. -/
theorem next_poisoned {store : InMemoryVectorStore}
    (hstore : store.poisoned = false) {call : VectorCall}
    (h : ¬ call.Faults store.value) : (next store call).poisoned = false := by
  obtain ⟨records, poisoned⟩ := store
  change poisoned = false at hstore
  subst hstore
  rw [next_of_not_faults h]

/--
Every call of a run is served exactly when no search of the run is by a tenant
with two or more records one of whose similarities is not a number.
-/
theorem all_served_iff (calls : List VectorCall) :
    EachStep next Served empty calls ↔
      EachStep next (fun store call => ¬ call.Faults store.value) empty
        calls :=
  EachStep.congr_of_invariant (fun store => store.poisoned = false)
    (fun _ call hstore => served_iff hstore call)
    (fun _ _ hstore h => next_poisoned hstore h) rfl calls

/-- Two finite vectors whose squares overflow, and a search for them. -/
def overflowRun : List VectorCall :=
  let owner : TenantContext := ⟨⟨⟨1⟩⟩, .member, "user-1"⟩
  let order := IterationOrder.ascending ChunkId.number ChunkId.number_injective
  [.upsert owner ⟨⟨⟨1⟩⟩, ⟨⟨1⟩⟩, "first", 0, 1⟩ [1e30],
    .upsert owner ⟨⟨⟨2⟩⟩, ⟨⟨1⟩⟩, "second", 1, 1⟩ [1e30],
    .search order owner [1e30] 5]

def bystanderCall : VectorCall :=
  .upsert ⟨⟨⟨2⟩⟩, .member, "user-2"⟩ ⟨⟨⟨3⟩⟩, ⟨⟨2⟩⟩, "third", 0, 1⟩ [1]

theorem overflowRun_not_served :
    (bystanderCall.perform (after overflowRun empty)).1 = .panicked ∧
      ¬ EachStep next Served empty (overflowRun ++ [bystanderCall]) := by
  have hpanicked :
      (bystanderCall.perform (after overflowRun empty)).1 = .panicked := by
    decide +kernel
  refine ⟨hpanicked, fun h => ?_⟩
  obtain ⟨-, ⟨-, reply, hreply, -⟩, -⟩ := EachStep.append_iff.mp h
  rw [after] at hpanicked
  rw [hpanicked] at hreply
  cases hreply

end VectorCall

end Milona.Storage.Memory
