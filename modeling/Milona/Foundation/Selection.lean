import Mathlib.Data.List.Sort
import Mathlib.Data.Multiset.AddSub
import Mathlib.Order.Defs.LinearOrder

/-!
# Sorting with a comparator that may fail, and top-`k` selection

`sortBy` is a stable insertion sort whose comparator may be undefined; one
undefined comparison makes the whole sort fail.  Where the comparator agrees
with a relation, the result is Mathlib's `List.insertionSort` of that relation.
An element that compares with nothing makes every list of two or more elements
containing it unsortable, since sorting inspects every element.

`IsTopK` says what sorting by descending key and cutting after `k` elements
selects, without reference to an order of the pool.
-/

namespace Milona.Foundation

variable {α β : Type}

def insertBy (cmp : α → α → Option Ordering) (a : α) :
    List α → Option (List α)
  | [] => some [a]
  | b :: rest =>
      match cmp a b with
      | none => none
      | some .gt => (insertBy cmp a rest).map (b :: ·)
      | some _ => some (a :: b :: rest)

def sortBy (cmp : α → α → Option Ordering) : List α → Option (List α)
  | [] => some []
  | a :: rest => (sortBy cmp rest).bind (insertBy cmp a)

private theorem insertBy_perm {cmp : α → α → Option Ordering} {a : α}
    {items sorted : List α} (h : insertBy cmp a items = some sorted) :
    sorted.Perm (a :: items) := by
  induction items generalizing sorted with
  | nil =>
      simp only [insertBy, Option.some.injEq] at h
      rw [← h]
  | cons b rest ih =>
      unfold insertBy at h
      split at h
      · cases h
      · obtain ⟨inserted, hinserted, rfl⟩ := Option.map_eq_some_iff.mp h
        exact ((ih hinserted).cons b).trans (List.Perm.swap a b rest)
      · simp only [Option.some.injEq] at h
        rw [← h]

theorem sortBy_perm {cmp : α → α → Option Ordering} {items sorted : List α}
    (h : sortBy cmp items = some sorted) : sorted.Perm items := by
  induction items generalizing sorted with
  | nil =>
      simp only [sortBy, Option.some.injEq] at h
      rw [← h]
  | cons a rest ih =>
      obtain ⟨sortedRest, hrest, hinsert⟩ := Option.bind_eq_some_iff.mp h
      exact (insertBy_perm hinsert).trans ((ih hrest).cons a)

theorem sortBy_of_length_le_one {cmp : α → α → Option Ordering}
    {items : List α} (h : items.length ≤ 1) : sortBy cmp items = some items := by
  cases items with
  | nil => rfl
  | cons a rest =>
      have hrest : rest = [] := by simpa using h
      rw [hrest]
      rfl

/-! ## Agreement with a relation -/

section Agrees

variable (cmp : α → α → Option Ordering) (le : α → α → Prop)
  [DecidableRel le]

/-- The comparator is defined on the list and is `gt` where `le` fails. -/
def Agrees (items : List α) : Prop :=
  ∀ a ∈ items, ∀ b ∈ items,
    ∃ order, cmp a b = some order ∧ (order = .gt ↔ ¬ le a b)

variable {cmp le}

private theorem insertBy_eq_orderedInsert {a : α} {items : List α}
    (h : ∀ b ∈ items,
      ∃ order, cmp a b = some order ∧ (order = .gt ↔ ¬ le a b)) :
    insertBy cmp a items = some (items.orderedInsert le a) := by
  induction items with
  | nil => rfl
  | cons b rest ih =>
      have hrest := ih fun b' hb' => h b' (List.mem_cons_of_mem _ hb')
      obtain ⟨order, hcmp, hgt⟩ := h b List.mem_cons_self
      by_cases hle : le a b
      · have hne : order ≠ .gt := fun heq => hgt.mp heq hle
        cases order <;> simp_all [insertBy]
      · have heq : order = .gt := hgt.mpr hle
        simp [insertBy, hcmp, heq, hrest, List.orderedInsert_cons, hle]

theorem sortBy_eq_insertionSort {items : List α} (h : Agrees cmp le items) :
    sortBy cmp items = some (items.insertionSort le) := by
  induction items with
  | nil => rfl
  | cons a rest ih =>
      have hrest : Agrees cmp le rest := fun b hb c hc =>
        h b (List.mem_cons_of_mem _ hb) c (List.mem_cons_of_mem _ hc)
      have hinsert : insertBy cmp a (rest.insertionSort le) =
          some ((rest.insertionSort le).orderedInsert le a) := by
        refine insertBy_eq_orderedInsert fun b hb => ?_
        have hb' : b ∈ rest := (List.mem_insertionSort le).mp hb
        exact h a List.mem_cons_self b (List.mem_cons_of_mem _ hb')
      simp [sortBy, ih hrest, hinsert]

end Agrees

/-! ## Failure -/

theorem insertBy_eq_none {cmp : α → α → Option Ordering} {a b : α}
    {rest : List α} (h : cmp a b = none) :
    insertBy cmp a (b :: rest) = none := by
  simp [insertBy, h]

/-- Sorting two or more elements inspects each of them. -/
theorem sortBy_eq_none {cmp : α → α → Option Ordering} {items : List α}
    {bad : α} (hlength : 2 ≤ items.length) (hmem : bad ∈ items)
    (hleft : ∀ b, cmp bad b = none) (hright : ∀ b, cmp b bad = none) :
    sortBy cmp items = none := by
  induction items with
  | nil => cases hmem
  | cons a rest ih =>
      rw [sortBy, Option.bind_eq_none_iff]
      intro sorted hsorted
      have hperm := sortBy_perm hsorted
      cases sorted with
      | nil =>
          have hnil : rest = [] := hperm.nil_eq.symm
          simp [hnil] at hlength
      | cons b sorted =>
          refine insertBy_eq_none ?_
          rcases List.mem_cons.mp hmem with rfl | hrest
          · exact hleft b
          · -- with a failing element in the tail, the tail has no other
            cases rest with
            | nil => cases hrest
            | cons c rest =>
                cases rest with
                | nil =>
                    have hc : bad = c := by simpa using hrest
                    have hb : b = c := by
                      simpa using hperm.subset List.mem_cons_self
                    rw [hb, ← hc]
                    exact hright a
                | cons d rest =>
                    have hnone := ih (by simp) hrest
                    rw [hnone] at hsorted
                    cases hsorted

/-! ## Top-`k` selection -/

section TopK

variable [LinearOrder β] (key : α → β)

/-- The `k` elements of the pool with the greatest keys, by descending key. -/
structure IsTopK (pool : Multiset α) (k : Nat) (chosen : List α) : Prop where
  length : chosen.length = min k pool.card
  descending : chosen.Pairwise fun a b => key b ≤ key a
  greatest : ∃ rest, (chosen : Multiset α) + rest = pool ∧
    ∀ a ∈ chosen, ∀ b ∈ rest, key b ≤ key a

variable {key}

theorem isTopK_take {sorted : List α}
    (h : sorted.Pairwise fun a b => key b ≤ key a) (k : Nat) :
    IsTopK key (sorted : Multiset α) k (sorted.take k) where
  length := by simp
  descending := h.sublist (List.take_sublist k sorted)
  greatest := by
    refine ⟨(sorted.drop k : Multiset α), ?_, ?_⟩
    · rw [Multiset.coe_add, List.take_append_drop]
    · rw [← List.take_append_drop k sorted, List.pairwise_append] at h
      exact fun a ha b hb => h.2.2 a ha b (Multiset.mem_coe.mp hb)

theorem IsTopK.exists_sorted {pool : Multiset α} {k : Nat}
    {chosen : List α} (h : IsTopK key pool k chosen) :
    ∃ sorted : List α, (sorted : Multiset α) = pool ∧
      (sorted.Pairwise fun a b => key b ≤ key a) ∧
      chosen = sorted.take k := by
  obtain ⟨rest, hpool, hgreatest⟩ := h.greatest
  induction rest using Quotient.inductionOn with | h rest =>
  have hperm : (rest.insertionSort fun a b => key b ≤ key a).Perm rest :=
    List.perm_insertionSort _ _
  refine ⟨chosen ++ rest.insertionSort fun a b => key b ≤ key a, ?_, ?_, ?_⟩
  · rw [← hpool, ← Multiset.coe_add, Multiset.coe_eq_coe.mpr hperm]
    rfl
  · have htotal : Std.Total fun a b : α => key b ≤ key a :=
      ⟨fun a b => le_total (key b) (key a)⟩
    have htrans : IsTrans α fun a b : α => key b ≤ key a :=
      ⟨fun a b c hab hbc => hbc.trans hab⟩
    rw [List.pairwise_append]
    refine ⟨h.descending, List.pairwise_insertionSort _ _, ?_⟩
    intro a ha b hb
    exact hgreatest a ha b (Multiset.mem_coe.mpr (hperm.mem_iff.mp hb))
  · have hcard : pool.card = chosen.length + rest.length := by
      rw [← hpool]
      simp
    have hlength := h.length
    rcases Nat.le_total k pool.card with hk | hk
    · have hchosen : chosen.length = k := by omega
      rw [List.take_append_of_le_length (by omega),
        List.take_of_length_le (by omega)]
    · have hrest : rest.length = 0 := by omega
      rw [List.eq_nil_of_length_eq_zero hrest]
      simp only [List.insertionSort_nil, List.append_nil]
      rw [List.take_of_length_le (by omega)]

/-- Where distinct elements have distinct keys there is one selection. -/
theorem IsTopK.unique {pool : Multiset α} {k : Nat} {chosen chosen' : List α}
    (hkeys : ∀ a ∈ pool, ∀ b ∈ pool, key a = key b → a = b)
    (h : IsTopK key pool k chosen) (h' : IsTopK key pool k chosen') :
    chosen = chosen' := by
  obtain ⟨sorted, hpool, hdescending, rfl⟩ := h.exists_sorted
  obtain ⟨sorted', hpool', hdescending', rfl⟩ := h'.exists_sorted
  have hperm : sorted.Perm sorted' :=
    Multiset.coe_eq_coe.mp (hpool.trans hpool'.symm)
  have hsorted : sorted = sorted' := by
    refine List.Perm.eq_of_pairwise ?_ hdescending hdescending' hperm
    intro a b ha hb hba hab
    exact hkeys a (by rw [← hpool]; exact ha) b (by rw [← hpool']; exact hb)
      (le_antisymm hab hba)
  rw [hsorted]

theorem IsTopK.le {pool : Multiset α} {k : Nat} {chosen : List α}
    (h : IsTopK key pool k chosen) : (chosen : Multiset α) ≤ pool := by
  obtain ⟨rest, hpool, -⟩ := h.greatest
  rw [← hpool]
  exact Multiset.le_add_right _ _

/-- Where there is room for the whole pool, all of it is selected. -/
theorem IsTopK.eq_pool {pool : Multiset α} {k : Nat} {chosen : List α}
    (h : IsTopK key pool k chosen) (hk : pool.card ≤ k) :
    (chosen : Multiset α) = pool := by
  refine Multiset.eq_of_le_of_card_le h.le ?_
  rw [Multiset.coe_card, h.length]
  omega

theorem IsTopK.subset {pool : Multiset α} {k : Nat} {chosen : List α}
    (h : IsTopK key pool k chosen) {a : α} (ha : a ∈ chosen) : a ∈ pool :=
  Multiset.mem_of_le h.le (Multiset.mem_coe.mpr ha)

end TopK

end Milona.Foundation
