import Milona.Foundation.HashMap

/-!
# Document collections

A collection holds documents under a unique id, which is read off the document
itself.  `replaceOne` is an upsert: it replaces the first document that matches
a filter, and otherwise inserts the replacement; an id cannot be changed by a
replacement nor used by two documents.  A failed command changes nothing.
-/

namespace Milona.Foundation

variable {K D : Type} [DecidableEq K] {idOf : D → K}

structure Collection (idOf : D → K) where
  docs : HashMap K D
  keyed : ∀ id doc, docs.lookup id = some doc → idOf doc = id

inductive WriteError where
  | duplicateKey
  | immutableId
  deriving DecidableEq

namespace Collection

def empty : Collection idOf := ⟨∅, by simp⟩

def find (collection : Collection idOf) (id : K) : Option D :=
  collection.docs.lookup id

def put (doc : D) (collection : Collection idOf) : Collection idOf where
  docs := collection.docs.insert (idOf doc) doc
  keyed id doc' h := by
    rw [HashMap.lookup_insert_eq_ite] at h
    split at h
    · rename_i hid
      cases h
      exact hid.symm
    · exact collection.keyed id doc' h

def replaceOne (order : IterationOrder K D) (matches_ : D → Bool)
    (replacement : D) (collection : Collection idOf) :
    Except WriteError (Collection idOf) :=
  match (order.iterate collection.docs).find? fun entry => matches_ entry.2 with
  | some entry =>
      if entry.1 = idOf replacement then .ok (collection.put replacement)
      else .error .immutableId
  | none =>
      if (collection.find (idOf replacement)).isSome then .error .duplicateKey
      else .ok (collection.put replacement)

def deleteMany (matches_ : D → Bool) (collection : Collection idOf) :
    Collection idOf where
  docs := collection.docs.retain fun _ doc => !matches_ doc
  keyed id doc h := by
    rw [HashMap.lookup_retain, Option.filter_eq_some_iff] at h
    exact collection.keyed id doc h.1

@[simp] theorem find_empty (id : K) :
    (empty : Collection idOf).find id = none := by
  simp [find, empty]

@[simp] theorem find_put (doc : D) (collection : Collection idOf) (id : K) :
    (collection.put doc).find id =
      if id = idOf doc then some doc else collection.find id :=
  HashMap.lookup_insert_eq_ite _ _ _ _

theorem find_deleteMany {matches_ : D → Bool} {collection : Collection idOf}
    {id : K} {doc : D} :
    (collection.deleteMany matches_).find id = some doc ↔
      collection.find id = some doc ∧ matches_ doc = false := by
  rw [find, deleteMany, HashMap.lookup_retain, Option.filter_eq_some_iff]
  simp [find]

theorem idOf_of_find {collection : Collection idOf} {id : K} {doc : D}
    (h : collection.find id = some doc) : idOf doc = id :=
  collection.keyed id doc h

theorem mem_iterate {collection : Collection idOf}
    {order : IterationOrder K D} {entry : Entry K D} :
    entry ∈ order.iterate collection.docs ↔
      collection.find entry.1 = some entry.2 := by
  rw [← Multiset.mem_coe, order.iterate_entries, HashMap.mem_entries]
  rfl

/--
Where the filter asks for the replacement's own id, the visiting order does not
matter, and only a document of that id that fails the filter is in the way.
-/
theorem replaceOne_of_pinned {matches_ : D → Bool} {replacement : D}
    (hpinned : ∀ doc, matches_ doc = true → idOf doc = idOf replacement)
    (order : IterationOrder K D) (collection : Collection idOf) :
    collection.replaceOne order matches_ replacement =
      match collection.find (idOf replacement) with
      | some doc =>
          if matches_ doc then .ok (collection.put replacement)
          else .error .duplicateKey
      | none => .ok (collection.put replacement) := by
  unfold replaceOne
  cases hfirst : (order.iterate collection.docs).find? fun entry =>
      matches_ entry.2 with
  | some entry =>
      have hmatches : matches_ entry.2 = true := by
        simpa using List.find?_some hfirst
      have hfind := mem_iterate.mp (List.mem_of_find?_eq_some hfirst)
      have hid : entry.1 = idOf replacement :=
        (idOf_of_find hfind).symm.trans (hpinned _ hmatches)
      rw [hid] at hfind
      simp [hid, hfind, hmatches]
  | none =>
      cases hfind : collection.find (idOf replacement) with
      | none => simp
      | some doc =>
          have hentry : (⟨idOf replacement, doc⟩ : Entry K D) ∈
              order.iterate collection.docs := mem_iterate.mpr hfind
          have hfails := List.find?_eq_none.mp hfirst _ hentry
          simp [hfails]

end Collection

end Milona.Foundation
