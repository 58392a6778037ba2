import Mathlib.Data.Finmap
import Mathlib.Data.List.Sort

/-!
# Hash maps

A `HashMap` is a finite map without an order.  Iterating one visits its entries
in some order that the caller cannot rely on, so a scan takes the order as an
argument: an `IterationOrder` chooses, for every map, one arrangement of its
entries.  A statement that holds for every `IterationOrder` holds whatever the
hasher and the history of the map do.
-/

namespace Milona.Foundation

abbrev HashMap (K V : Type) : Type := Finmap fun _ : K => V

abbrev Entry (K V : Type) : Type := Sigma fun _ : K => V

namespace HashMap

variable {K V : Type}

def retain (keep : K → V → Bool) (m : HashMap K V) : HashMap K V where
  entries := m.entries.filter fun entry => keep entry.1 entry.2
  nodupKeys := by
    have h : (m.entries.filter fun entry => keep entry.1 entry.2).keys ≤
        m.entries.keys :=
      Multiset.map_le_map (Multiset.filter_le _ _)
    exact Multiset.nodup_keys.mp
      (Multiset.nodup_of_le h (Multiset.nodup_keys.mpr m.nodupKeys))

theorem entries_retain (keep : K → V → Bool) (m : HashMap K V) :
    (m.retain keep).entries =
      m.entries.filter fun entry => keep entry.1 entry.2 := rfl

variable [DecidableEq K]

theorem mem_entries {m : HashMap K V} {entry : Entry K V} :
    entry ∈ m.entries ↔ m.lookup entry.1 = some entry.2 :=
  Finmap.lookup_eq_some_iff.symm

theorem lookup_retain (keep : K → V → Bool) (m : HashMap K V) (k : K) :
    (m.retain keep).lookup k = (m.lookup k).filter (keep k) := by
  refine Option.ext fun value => ?_
  rw [Finmap.lookup_eq_some_iff, Option.filter_eq_some_iff,
    Finmap.lookup_eq_some_iff, entries_retain, Multiset.mem_filter]

theorem lookup_insert_eq_ite (m : HashMap K V) (k k' : K) (value : V) :
    Finmap.lookup k' (m.insert k value) =
      if k' = k then some value else Finmap.lookup k' m := by
  by_cases h : k' = k
  · subst h
    simp
  · simp [h]

theorem lookup_erase_eq_ite (m : HashMap K V) (k k' : K) :
    Finmap.lookup k' (m.erase k) =
      if k' = k then none else Finmap.lookup k' m := by
  by_cases h : k' = k
  · subst h
    simp
  · simp [h]

def insertAll (m : HashMap K V) (entries : List (K × V)) : HashMap K V :=
  entries.foldl (fun m entry => m.insert entry.1 entry.2) m

theorem lookup_insertAll (m : HashMap K V) (entries : List (K × V)) (k : K) :
    Finmap.lookup k (m.insertAll entries) =
      ((entries.reverse.find? (·.1 = k)).map (·.2)).or (Finmap.lookup k m) := by
  induction entries generalizing m with
  | nil => rfl
  | cons entry entries ih =>
      rw [insertAll, List.foldl_cons, ← insertAll, ih, lookup_insert_eq_ite,
        List.reverse_cons, List.find?_append]
      cases entries.reverse.find? (·.1 = k) with
      | some found => rfl
      | none =>
          by_cases h : k = entry.1
          · simp [h]
          · simp [h, Ne.symm h]

theorem retain_insert_of_keep {keep : K → V → Bool} {k : K} {value : V}
    (h : keep k value = true) (m : HashMap K V) :
    retain keep (m.insert k value) = (m.retain keep).insert k value := by
  refine Finmap.ext_lookup fun k' => ?_
  rw [lookup_retain, lookup_insert_eq_ite, lookup_insert_eq_ite,
    lookup_retain]
  by_cases hk : k' = k
  · subst hk
    simp [h]
  · simp [hk]

theorem retain_insert_of_not_keep {keep : K → V → Bool} {k : K} {value : V}
    (h : keep k value = false) (m : HashMap K V) :
    retain keep (m.insert k value) = (m.retain keep).erase k := by
  refine Finmap.ext_lookup fun k' => ?_
  rw [lookup_retain, lookup_insert_eq_ite, lookup_erase_eq_ite,
    lookup_retain]
  by_cases hk : k' = k
  · subst hk
    simp [h]
  · simp [hk]

theorem erase_of_lookup_eq_none {m : HashMap K V} {k : K}
    (h : m.lookup k = none) : m.erase k = m := by
  refine Finmap.ext_lookup fun k' => ?_
  rw [lookup_erase_eq_ite]
  by_cases hk : k' = k
  · subst hk
    simp [h]
  · simp [hk]

theorem insert_eq_self_iff {m : HashMap K V} {k : K} {value : V} :
    m.insert k value = m ↔ m.lookup k = some value := by
  constructor
  · intro h
    rw [← h]
    exact Finmap.lookup_insert m
  · intro h
    refine Finmap.ext_lookup fun k' => ?_
    rw [lookup_insert_eq_ite]
    by_cases hk : k' = k
    · rw [if_pos hk, hk, h]
    · rw [if_neg hk]

theorem retain_eq_self_iff {keep : K → V → Bool} {m : HashMap K V} :
    m.retain keep = m ↔
      ∀ k value, m.lookup k = some value → keep k value = true := by
  constructor
  · intro h k value hlookup
    rw [← h, lookup_retain, Option.filter_eq_some_iff] at hlookup
    exact hlookup.2
  · intro h
    refine Finmap.ext_lookup fun k => ?_
    rw [lookup_retain]
    cases hlookup : m.lookup k with
    | none => rfl
    | some value => simp [h k value hlookup]

theorem retain_retain (keep keep' : K → V → Bool) (m : HashMap K V) :
    (m.retain keep).retain keep' =
      m.retain fun k value => keep k value && keep' k value := by
  refine Finmap.ext_lookup fun k => ?_
  simp [lookup_retain, Option.filter_filter]

/-- A test that no dropped entry passes sees the same map. -/
theorem retain_retain_of_imp {keep keep' : K → V → Bool}
    (h : ∀ k value, keep' k value = true → keep k value = true)
    (m : HashMap K V) : (m.retain keep).retain keep' = m.retain keep' := by
  rw [retain_retain]
  congr 1
  funext k value
  cases hk : keep' k value with
  | false => simp
  | true => simp [h k value hk]

theorem retain_comm (keep keep' : K → V → Bool) (m : HashMap K V) :
    (m.retain keep).retain keep' = (m.retain keep').retain keep := by
  rw [retain_retain, retain_retain]
  congr 1
  funext k value
  exact Bool.and_comm _ _

end HashMap

/-! ## Iteration -/

/-- A choice of visiting order for every map. -/
structure IterationOrder (K V : Type) where
  iterate : HashMap K V → List (Entry K V)
  iterate_entries : ∀ m, (iterate m : Multiset (Entry K V)) = m.entries

namespace IterationOrder

variable {K V : Type}

theorem filter_iterate (order : IterationOrder K V)
    (keep : K → V → Bool) (m : HashMap K V) :
    ((order.iterate m).filter (fun entry => keep entry.1 entry.2) :
      Multiset (Entry K V)) = (m.retain keep).entries := by
  rw [HashMap.entries_retain, ← order.iterate_entries]
  simp

/-- Every arrangement of the entries of a map is the choice of some order. -/
theorem exists_iterate_eq (base : IterationOrder K V) {m : HashMap K V}
    {entries : List (Entry K V)}
    (h : (entries : Multiset (Entry K V)) = m.entries) :
    ∃ order : IterationOrder K V, order.iterate m = entries := by
  classical
  refine ⟨⟨Function.update base.iterate m entries, fun m' => ?_⟩, by simp⟩
  by_cases hm : m' = m
  · subst hm
    simpa using h
  · simpa [hm] using base.iterate_entries m'

noncomputable def arbitrary : IterationOrder K V where
  iterate m := m.entries.toList
  iterate_entries m := Multiset.coe_toList m.entries

def sortByRank (rank : K → Nat) (entries : List (Entry K V)) :
    List (Entry K V) :=
  entries.insertionSort fun a b => rank a.1 ≤ rank b.1

theorem perm_sortByRank (rank : K → Nat) (entries : List (Entry K V)) :
    (sortByRank rank entries).Perm entries :=
  List.perm_insertionSort _ _

private theorem pairwise_sortByRank (rank : K → Nat)
    (entries : List (Entry K V)) :
    (sortByRank rank entries).Pairwise fun a b => rank a.1 ≤ rank b.1 :=
  List.pairwise_insertionSort _ _

/-- Distinct keys leave one arrangement by ascending rank. -/
theorem sortByRank_eq_of_perm {rank : K → Nat}
    (hrank : Function.Injective rank) {first second : List (Entry K V)}
    (hkeys : first.NodupKeys) (h : first.Perm second) :
    sortByRank rank first = sortByRank rank second := by
  refine List.Perm.eq_of_pairwise ?_ (pairwise_sortByRank rank first)
    (pairwise_sortByRank rank second)
    (((perm_sortByRank rank first).trans h).trans
      (perm_sortByRank rank second).symm)
  intro a b ha hb hab hba
  have ha' : a ∈ first := (perm_sortByRank rank first).mem_iff.mp ha
  have hb' : b ∈ first :=
    h.mem_iff.mpr ((perm_sortByRank rank second).mem_iff.mp hb)
  exact hkeys.eq_of_fst_eq ha' hb' (hrank (Nat.le_antisymm hab hba))

def ascending (rank : K → Nat) (hrank : Function.Injective rank) :
    IterationOrder K V where
  iterate m := m.liftOn (fun entries => sortByRank rank entries.entries)
    fun first _ h => sortByRank_eq_of_perm hrank first.nodupKeys h
  iterate_entries m := by
    refine Finmap.induction_on m fun entries => ?_
    simpa using perm_sortByRank rank entries.entries

end IterationOrder

end Milona.Foundation
