import Mathlib.Algebra.Order.BigOperators.Group.List
import Mathlib.Algebra.GroupWithZero.Nat
import Mathlib.Algebra.Order.Group.Nat

/-!
# Tallies

A `tally` sums a weight over the entries of a list.  A process that changes one
entry at a time changes every tally by the difference of that entry's weights,
so a bookkeeping invariant between several tallies is checked on one entry.
-/

namespace Milona.Foundation

variable {α : Type}

def tally (weight : α → Nat) (items : List α) : Nat := (items.map weight).sum

@[simp] theorem tally_nil (weight : α → Nat) : tally weight [] = 0 := rfl

@[simp] theorem tally_cons (weight : α → Nat) (item : α) (items : List α) :
    tally weight (item :: items) = weight item + tally weight items := by
  simp [tally]

@[simp] theorem tally_append (weight : α → Nat) (before after : List α) :
    tally weight (before ++ after) = tally weight before + tally weight after := by
  simp [tally]

@[simp] theorem tally_replicate (weight : α → Nat) (n : Nat) (item : α) :
    tally weight (List.replicate n item) = n * weight item := by
  simp [tally]

theorem tally_set (weight : α → Nat) {items : List α} {i : Nat} {item : α}
    (h : items[i]? = some item) (item' : α) :
    tally weight (items.set i item') + weight item =
      tally weight items + weight item' := by
  induction items generalizing i with
  | nil => simp at h
  | cons first rest ih =>
      cases i with
      | zero =>
          simp only [List.getElem?_cons_zero, Option.some.injEq] at h
          subst h
          simp only [List.set_cons_zero, tally_cons]
          omega
      | succ i =>
          have hrest := ih h
          simp only [List.set_cons_succ, tally_cons]
          omega

theorem le_tally (weight : α → Nat) {items : List α} {i : Nat} {item : α}
    (h : items[i]? = some item) : weight item ≤ tally weight items := by
  apply List.le_sum_of_mem
  apply List.mem_map_of_mem
  exact List.mem_of_getElem? h

/-- Entries of bounded weight, counted by a second weight. -/
theorem tally_le_mul {weight count : α → Nat} {bound : Nat} {items : List α}
    (h : ∀ item ∈ items, weight item ≤ count item * bound) :
    tally weight items ≤ tally count items * bound := by
  induction items with
  | nil => simp
  | cons first rest ih =>
      have hfirst := h first List.mem_cons_self
      have hrest := ih fun item hitem => h item (List.mem_cons_of_mem first hitem)
      simp only [tally_cons, Nat.add_mul]
      omega

end Milona.Foundation
