import Milona.Storage.Memory.Stores

/-!
# Read-only callers

`SameTenantPolicy::can_write` refuses a `ReadOnly` caller, but no operation of
the two stores consults it.  A write by a refused caller is `Mediated` when it
leaves both stores as they were; without a check this only happens where the
write has nothing to change or meets a poisoned lock.
-/

namespace Milona.Storage.Memory

open Milona.Core Milona.Foundation InMemoryVectorStore

/-- Any call on the two stores. -/
inductive MemoryCall where
  | write (call : StoreCall)
  | search (order : IterationOrder ChunkId StoredVector) (ctx : TenantContext)
      (query : List Float32) (topK : Nat)
  | traverse (ctx : TenantContext) (startNode : String) (maxDepth : Nat)

namespace MemoryCall

def next (stores : InMemoryStores) : MemoryCall → InMemoryStores
  | .write call => (call.perform stores).2
  | .search order ctx query topK =>
      (Action.zoom .fst (InMemoryVectorStore.search order ctx query topK) stores).2
  | .traverse ctx startNode maxDepth =>
      (Action.zoom .snd
        (InMemoryGraphStore.traverse ctx startNode maxDepth) stores).2

/-- A write by a caller whom the policy refuses changes neither store. -/
def Mediated (stores : InMemoryStores) : MemoryCall → Prop
  | .write call =>
      sameTenantPolicy.canWrite call.ctx call.tenantId = false →
        (call.perform stores).2 = stores
  | .search .. | .traverse .. => True

/-- The write meets a poisoned lock or finds nothing to change. -/
def ChangesNothing (store : InMemoryVectorStore) : StoreCall → Prop
  | .upsert ctx chunk embedding =>
      store.poisoned = true ∨ store.value.lookup chunk.id =
        some ⟨ctx.tenantId, chunk.documentId, embedding⟩
  | .deleteDocument ctx documentId =>
      store.poisoned = true ∨
        ∀ chunkId record, store.value.lookup chunkId = some record →
          ¬ (record.tenantId = ctx.tenantId ∧ record.documentId = documentId)
  | .addEdge .. => False

/-- The call is no write by a refused caller that would change a store. -/
def Excused (stores : InMemoryStores) : MemoryCall → Prop
  | .write call =>
      sameTenantPolicy.canWrite call.ctx call.tenantId = false →
        ChangesNothing stores.1 call
  | .search .. | .traverse .. => True

theorem perform_eq_self_iff {stores : InMemoryStores}
    (hgraph : stores.2.poisoned = false) (call : StoreCall) :
    (call.perform stores).2 = stores ↔ ChangesNothing stores.1 call := by
  obtain ⟨⟨records, poisoned⟩, ⟨edges, graphPoisoned⟩⟩ := stores
  change graphPoisoned = false at hgraph
  subst hgraph
  cases call with
  | upsert ctx chunk embedding =>
      cases poisoned with
      | true => simp [StoreCall.perform, ChangesNothing, InMemoryVectorStore.upsert]
      | false =>
          simp [StoreCall.perform, ChangesNothing, HashMap.insert_eq_self_iff]
  | deleteDocument ctx documentId =>
      cases poisoned with
      | true =>
          simp [StoreCall.perform, ChangesNothing,
            InMemoryVectorStore.deleteDocument]
      | false =>
          simp [StoreCall.perform, ChangesNothing, HashMap.retain_eq_self_iff,
            imp_iff_not_or]
  | addEdge ctx edge => simp [StoreCall.perform, ChangesNothing]

theorem mediated_iff {stores : InMemoryStores}
    (hgraph : stores.2.poisoned = false) (call : MemoryCall) :
    Mediated stores call ↔ Excused stores call := by
  cases call with
  | write call =>
      simp only [Mediated, Excused, perform_eq_self_iff hgraph]
  | search order ctx query topK => exact Iff.rfl
  | traverse ctx startNode maxDepth => exact Iff.rfl

/-- Step lemma: no call poisons the lock of the graph store. -/
theorem next_graph_unpoisoned {stores : InMemoryStores}
    (hgraph : stores.2.poisoned = false) (call : MemoryCall) :
    (next stores call).2.poisoned = false := by
  obtain ⟨vectors, ⟨edges, poisoned⟩⟩ := stores
  change poisoned = false at hgraph
  subst hgraph
  cases call with
  | write call =>
      cases call with
      | upsert ctx chunk embedding => rfl
      | deleteDocument ctx documentId => rfl
      | addEdge ctx edge => rfl
  | search order ctx query topK => rfl
  | traverse ctx startNode maxDepth => rfl

/--
In every run from the empty stores, the writes of read-only callers leave the
stores alone exactly when each of them finds nothing to change.
-/
theorem all_mediated_iff (calls : List MemoryCall) :
    EachStep next Mediated Contents.empty.unlocked calls ↔
      EachStep next Excused Contents.empty.unlocked calls :=
  EachStep.congr_of_invariant (fun stores => stores.2.poisoned = false)
    (fun _ call hgraph => mediated_iff hgraph call)
    (fun _ call hgraph _ => next_graph_unpoisoned hgraph call) rfl calls

theorem readOnly_write_not_mediated :
    let reader : TenantContext := ⟨⟨⟨1⟩⟩, .readOnly, "user-1"⟩
    sameTenantPolicy.canWrite reader reader.tenantId = false ∧
      ¬ EachStep next Mediated Contents.empty.unlocked
        [.write (.upsert reader ⟨⟨⟨1⟩⟩, ⟨⟨1⟩⟩, "first", 0, 1⟩ [1])] := by
  intro reader
  have hrefused : sameTenantPolicy.canWrite reader reader.tenantId = false := by
    decide
  refine ⟨hrefused, ?_⟩
  rintro ⟨hmediated, -⟩
  have hsame := hmediated hrefused
  have hchanged : ((StoreCall.upsert reader
      ⟨⟨⟨1⟩⟩, ⟨⟨1⟩⟩, "first", 0, 1⟩ [1]).perform
        Contents.empty.unlocked).2.1.value.lookup ⟨⟨1⟩⟩ ≠ none := by
    decide +kernel
  rw [hsame] at hchanged
  exact hchanged rfl

end MemoryCall

end Milona.Storage.Memory
