import Milona.Storage.Memory.VectorRuns

/-!
# Isolation of tenants in the vector store

What a call does to the records of one tenant depends on these records alone.
A call of the tenant acts on them as on the whole map; a call of another tenant
leaves them alone, unless it is an upsert of a chunk id that is among them.
The map is keyed by chunk id, so such an upsert takes the record over.
-/

namespace Milona.Storage.Memory.VectorCall

open Milona.Core Milona.Foundation InMemoryVectorStore

/-- The effect of a call on the records of a tenant that did not make it. -/
def effectOnOthers : VectorCall → Records → Records
  | .upsert _ chunk _, records => records.erase chunk.id
  | .search .., records | .deleteDocument .., records => records

private theorem ownRecords_effect_of_own {tenantId : TenantId}
    {call : VectorCall} (h : call.tenantId = tenantId) (records : Records) :
    ownRecords tenantId (call.effect records) =
      call.effect (ownRecords tenantId records) := by
  cases call with
  | upsert ctx chunk embedding =>
      have howned : ownedBy tenantId chunk.id
          ⟨ctx.tenantId, chunk.documentId, embedding⟩ = true := decide_eq_true h
      exact HashMap.retain_insert_of_keep howned records
  | search order ctx query topK => rfl
  | deleteDocument ctx documentId => exact HashMap.retain_comm _ _ records

theorem ownRecords_effect_of_other {tenantId : TenantId} {call : VectorCall}
    (h : call.tenantId ≠ tenantId) (records : Records) :
    ownRecords tenantId (call.effect records) =
      call.effectOnOthers (ownRecords tenantId records) := by
  cases call with
  | upsert ctx chunk embedding =>
      have hforeign : ownedBy tenantId chunk.id
          ⟨ctx.tenantId, chunk.documentId, embedding⟩ = false :=
        decide_eq_false h
      exact HashMap.retain_insert_of_not_keep hforeign records
  | search order ctx query topK => rfl
  | deleteDocument ctx documentId =>
      refine HashMap.retain_retain_of_imp ?_ records
      intro id record howned
      have howner : record.tenantId = tenantId := by simpa [ownedBy] using howned
      have hne : record.tenantId ≠ ctx.tenantId := fun heq =>
        h (heq.symm.trans howner)
      simp [hne]

theorem ownRecords_effect_congr {tenantId : TenantId}
    {records records' : Records}
    (h : ownRecords tenantId records = ownRecords tenantId records')
    (call : VectorCall) :
    ownRecords tenantId (call.effect records) =
      ownRecords tenantId (call.effect records') := by
  by_cases howner : call.tenantId = tenantId
  · rw [ownRecords_effect_of_own howner, ownRecords_effect_of_own howner, h]
  · rw [ownRecords_effect_of_other howner, ownRecords_effect_of_other howner, h]

/-! ## Searches see the own records only -/

/-- Everything a search may do, over all iteration orders of the map. -/
def searchOutcomes (ctx : TenantContext) (query : List Float32) (topK : Nat)
    (store : InMemoryVectorStore) :
    Set (Outcome (Result (List VectorMatch))) :=
  Set.range fun order => (InMemoryVectorStore.search order ctx query topK store).1

/-- Any arrangement of the own records is scanned under some order. -/
theorem exists_scoredList_eq {tenantId : TenantId} {records records' : Records}
    (h : ownRecords tenantId records = ownRecords tenantId records')
    (order : IterationOrder ChunkId StoredVector) (query : List Float32) :
    ∃ order' : IterationOrder ChunkId StoredVector,
      scoredList order' tenantId query records' =
        scoredList order tenantId query records := by
  let own := (order.iterate records).filter fun entry =>
    ownedBy tenantId entry.1 entry.2
  let rest := (order.iterate records').filter fun entry =>
    !ownedBy tenantId entry.1 entry.2
  have hown : ((order.iterate records').filter fun entry =>
      ownedBy tenantId entry.1 entry.2).Perm own := by
    refine Multiset.coe_eq_coe.mp ?_
    rw [order.filter_iterate, order.filter_iterate]
    exact congrArg Finmap.entries h.symm
  have hentries : (own ++ rest : Multiset (Entry ChunkId StoredVector)) =
      records'.entries := by
    rw [← order.iterate_entries]
    refine Multiset.coe_eq_coe.mpr ?_
    exact (hown.symm.append_right rest).trans (List.filter_append_perm _ _)
  obtain ⟨order', horder'⟩ := order.exists_iterate_eq hentries
  refine ⟨order', ?_⟩
  rw [scoredList, scoredList, horder', List.filter_append]
  have hkeep : own.filter (fun entry => ownedBy tenantId entry.1 entry.2) =
      own := by
    simp [own, List.filter_filter]
  have hdrop : rest.filter (fun entry => ownedBy tenantId entry.1 entry.2) =
      [] := by
    simp [rest, List.filter_filter]
  rw [hkeep, hdrop, List.append_nil]

private theorem searchOutcomes_subset {ctx : TenantContext}
    {records records' : Records}
    (h : ownRecords ctx.tenantId records = ownRecords ctx.tenantId records')
    (query : List Float32) (topK : Nat) :
    searchOutcomes ctx query topK ⟨records, false⟩ ⊆
      searchOutcomes ctx query topK ⟨records', false⟩ := by
  rintro outcome ⟨order, rfl⟩
  obtain ⟨order', horder'⟩ := exists_scoredList_eq h order query
  refine ⟨order', ?_⟩
  simp only [search_apply, horder']
  cases sortBy compareScores (scoredList order ctx.tenantId query records) <;>
    rfl

theorem searchOutcomes_congr {ctx : TenantContext} {records records' : Records}
    (h : ownRecords ctx.tenantId records = ownRecords ctx.tenantId records')
    (query : List Float32) (topK : Nat) :
    searchOutcomes ctx query topK ⟨records, false⟩ =
      searchOutcomes ctx query topK ⟨records', false⟩ :=
  Set.Subset.antisymm (searchOutcomes_subset h query topK)
    (searchOutcomes_subset h.symm query topK)

/-! ## Calls that leave the other tenants alone -/

def Unpanicked (calls : List VectorCall) (store : InMemoryVectorStore) : Prop :=
  EachStep next (fun store call => (call.perform store).1 ≠ .panicked) store
    calls

/--
A call leaves every other tenant's records as they were, and a later search by
another tenant may do just what it could have done without the call.  Between
the call and the search any calls may follow that do not panic.
-/
def LeavesOthersAlone (store : InMemoryVectorStore) (call : VectorCall) : Prop :=
  ∀ other, other ≠ call.tenantId →
    (∀ id record, record.tenantId = other →
      (store.value.lookup id = some record ↔
        (next store call).value.lookup id = some record)) ∧
    ∀ ctx : TenantContext, ctx.tenantId = other → ∀ query topK later,
      Unpanicked later store → Unpanicked later (next store call) →
        searchOutcomes ctx query topK (after later (next store call)) =
          searchOutcomes ctx query topK (after later store)

/--
The call is neither an upsert of a chunk id that another tenant holds nor a
search that panics.
-/
def Harmless (records : Records) (call : VectorCall) : Prop :=
  ¬ call.Faults records ∧
    match call with
    | .upsert ctx chunk _ =>
        ∀ record, records.lookup chunk.id = some record →
          record.tenantId = ctx.tenantId
    | .search .. | .deleteDocument .. => True

private theorem not_faults_of_perform {records : Records} {call : VectorCall}
    (h : (call.perform ⟨records, false⟩).1 ≠ .panicked) :
    ¬ call.Faults records := by
  intro hfaults
  rw [perform_of_faults hfaults] at h
  exact h rfl

private theorem ownRecords_after_congr {tenantId : TenantId}
    {later : List VectorCall} {records records' : Records}
    (h : ownRecords tenantId records = ownRecords tenantId records')
    (hlater : Unpanicked later ⟨records, false⟩)
    (hlater' : Unpanicked later ⟨records', false⟩) :
    ∃ last last' : Records, after later ⟨records, false⟩ = ⟨last, false⟩ ∧
      after later ⟨records', false⟩ = ⟨last', false⟩ ∧
      ownRecords tenantId last = ownRecords tenantId last' := by
  induction later generalizing records records' with
  | nil => exact ⟨records, records', rfl, rfl, h⟩
  | cons call later ih =>
      have hnext := next_of_not_faults (not_faults_of_perform hlater.1)
      have hnext' := next_of_not_faults (not_faults_of_perform hlater'.1)
      have htail := hlater.2
      have htail' := hlater'.2
      rw [hnext] at htail
      rw [hnext'] at htail'
      have hcons := ih (ownRecords_effect_congr h call) htail htail'
      simpa only [after, List.foldl_cons, hnext, hnext'] using hcons

theorem ownRecords_effect_of_harmless {records : Records} {call : VectorCall}
    (h : Harmless records call) {other : TenantId}
    (hother : other ≠ call.tenantId) :
    ownRecords other (call.effect records) = ownRecords other records := by
  rw [ownRecords_effect_of_other hother.symm]
  cases call with
  | upsert ctx chunk embedding =>
      refine HashMap.erase_of_lookup_eq_none ?_
      refine Option.eq_none_iff_forall_ne_some.mpr fun record hrecord => ?_
      obtain ⟨hlookup, howner⟩ := lookup_ownRecords.mp hrecord
      exact hother (howner.symm.trans (h.2 record hlookup))
  | search order ctx query topK => rfl
  | deleteDocument ctx documentId => rfl

theorem leavesOthersAlone_of_harmless {records : Records} {call : VectorCall}
    (h : Harmless records call) : LeavesOthersAlone ⟨records, false⟩ call := by
  intro other hother
  have hown := ownRecords_effect_of_harmless h hother
  rw [next_of_not_faults h.1]
  constructor
  · intro id record howner
    have hlookup := congrArg (Finmap.lookup id) hown
    have hiff : (ownRecords other records).lookup id = some record ↔
        (ownRecords other (call.effect records)).lookup id = some record := by
      rw [hlookup]
    simpa only [lookup_ownRecords, howner, and_true] using hiff
  · rintro ctx rfl query topK later hlater hlater'
    obtain ⟨last, last', hlast, hlast', hsame⟩ :=
      ownRecords_after_congr hown.symm hlater hlater'
    rw [hlast, hlast']
    exact (searchOutcomes_congr hsame query topK).symm

/-! ## Harmful calls -/

theorem sortable_empty_query (tenantId : TenantId) (records : Records) :
    Sortable tenantId [] records := by
  refine .inr fun found hfound => ?_
  obtain ⟨record, -, -, hscore⟩ := mem_scoredPool.mp hfound
  have hzero : cosineSimilarity [] record.embedding = 0.0 := by
    have hnorm : ((sum ([] : List Float32)).sqrt == 0.0) = true := by
      decide +kernel
    simp [cosineSimilarity, hnorm]
  rw [hscore, hzero]
  decide +kernel

private theorem exists_other (tenantId : TenantId) :
    ∃ other, other ≠ tenantId := by
  by_cases h : tenantId = ⟨⟨0⟩⟩
  · exact ⟨⟨⟨1⟩⟩, by rw [h]; decide⟩
  · exact ⟨⟨⟨0⟩⟩, fun heq => h heq.symm⟩

/-- After a fault another tenant's search of the empty query panics too. -/
theorem not_leavesOthersAlone_of_faults {records : Records} {call : VectorCall}
    (h : call.Faults records) : ¬ LeavesOthersAlone ⟨records, false⟩ call := by
  intro halone
  obtain ⟨other, hother⟩ := exists_other call.tenantId
  let ctx : TenantContext := ⟨other, .member, ""⟩
  have hsame := (halone other hother).2 ctx rfl [] 0 [] trivial trivial
  rw [next_of_faults h] at hsame
  let order := IterationOrder.ascending (V := StoredVector) ChunkId.number
    ChunkId.number_injective
  obtain ⟨found, hsearch, -⟩ := search_of_sortable order ctx [] 0
    (sortable_empty_query other records)
  have hmem : Outcome.returned (Except.ok found) ∈
      searchOutcomes ctx [] 0 (after [] ⟨records, false⟩) :=
    ⟨order, congrArg Prod.fst hsearch⟩
  rw [← hsame] at hmem
  obtain ⟨order', horder'⟩ := hmem
  have hpoisoned : InMemoryVectorStore.search order' ctx [] 0
      ⟨records, true⟩ = (.panicked, ⟨records, true⟩) :=
    Mutex.lock_poisoned _ rfl
  simp only [after, List.foldl_nil] at horder'
  rw [hpoisoned] at horder'
  cases horder'

private theorem harmless_of_leavesOthersAlone {records : Records}
    {call : VectorCall}
    (h : LeavesOthersAlone ⟨records, false⟩ call) : Harmless records call := by
  have hfaults : ¬ call.Faults records := fun hfaults =>
    not_leavesOthersAlone_of_faults hfaults h
  refine ⟨hfaults, ?_⟩
  cases call with
  | upsert ctx chunk embedding =>
      intro record hrecord
      by_contra howner
      have hkept := ((h record.tenantId howner).1 chunk.id record rfl).mp
        hrecord
      have hnew : some ⟨ctx.tenantId, chunk.documentId, embedding⟩ =
          some record := by
        rw [next_of_not_faults hfaults] at hkept
        rw [← hkept]
        exact (Finmap.lookup_insert records).symm
      exact howner (congrArg StoredVector.tenantId (Option.some.inj hnew)).symm
  | search order ctx query topK => trivial
  | deleteDocument ctx documentId => trivial

/--
Every step of a run leaves the other tenants alone exactly when every step is
harmless.
-/
theorem all_leave_others_alone_iff (calls : List VectorCall) :
    EachStep next LeavesOthersAlone empty calls ↔
      EachStep next (fun store call => Harmless store.value call) empty
        calls := by
  refine EachStep.congr_of_invariant (fun store => store.poisoned = false)
    ?_ ?_ rfl calls
  · rintro ⟨records, poisoned⟩ call (rfl : poisoned = false)
    exact ⟨harmless_of_leavesOthersAlone, leavesOthersAlone_of_harmless⟩
  · exact fun store call hstore h => next_poisoned hstore h.1

def ownersCall : VectorCall :=
  .upsert ⟨⟨⟨1⟩⟩, .member, "user-1"⟩ ⟨⟨⟨7⟩⟩, ⟨⟨1⟩⟩, "first", 0, 1⟩ [1]

def intrudersCall : VectorCall :=
  .upsert ⟨⟨⟨2⟩⟩, .member, "user-2"⟩ ⟨⟨⟨7⟩⟩, ⟨⟨2⟩⟩, "second", 0, 1⟩ [1]

theorem intrudersCall_takes_over :
    ¬ LeavesOthersAlone (after [ownersCall] empty) intrudersCall := by
  intro h
  have hkept := ((h ⟨⟨1⟩⟩ (by decide)).1 ⟨⟨7⟩⟩ ⟨⟨⟨1⟩⟩, ⟨⟨1⟩⟩, [1]⟩ rfl).mp
    (by decide +kernel)
  revert hkept
  decide +kernel

end Milona.Storage.Memory.VectorCall
