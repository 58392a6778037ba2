import Mathlib.Data.Set.Function
import Mathlib.Data.List.Nodup
import Mathlib.Order.Interval.Set.Defs
import Milona.Foundation.Action

/-!
# A supply of keys

A generator hands out the keys of a supply one after the other.  As long as the
supply does not repeat itself, the drawn keys are distinct, whoever draws them.
-/

namespace Milona.Foundation

variable {K : Type}

/-- The next key; the state counts the keys that are drawn. -/
def draw (supply : Nat → K) : Action Nat K := fun count =>
  (.returned (supply count), count + 1)

/-- The keys of `more` draws in a row. -/
def keysFrom (supply : Nat → K) (count more : Nat) : List K :=
  (List.range' count more).map supply

theorem keysFrom_zero (supply : Nat → K) (count : Nat) :
    keysFrom supply count 0 = [] := rfl

theorem keysFrom_succ (supply : Nat → K) (count more : Nat) :
    keysFrom supply count (more + 1) =
      supply count :: keysFrom supply (count + 1) more := by
  rw [keysFrom, List.range'_succ]
  rfl

/-- No key occurs twice among the first `count` of the supply. -/
abbrev Unrepeated (supply : Nat → K) (count : Nat) : Prop :=
  Set.InjOn supply (Set.Iio count)

/-- The keys stem from different draws among the first `count`. -/
def Drawn (supply : Nat → K) (count : Nat) (keys : List K) : Prop :=
  ∃ draws : List Nat, draws.Nodup ∧ (∀ k ∈ draws, k < count) ∧ keys = draws.map supply

namespace Drawn

variable {supply : Nat → K} {count : Nat} {keys : List K}

theorem nil (supply : Nat → K) (count : Nat) : Drawn supply count [] :=
  ⟨[], List.nodup_nil, by simp, rfl⟩

theorem mono (h : Drawn supply count keys) {count' : Nat} (hle : count ≤ count') :
    Drawn supply count' keys := by
  obtain ⟨draws, hnodup, hlt, hkeys⟩ := h
  exact ⟨draws, hnodup, fun k hk => (hlt k hk).trans_le hle, hkeys⟩

theorem append (h : Drawn supply count keys) (more : Nat) :
    Drawn supply (count + more) (keys ++ keysFrom supply count more) := by
  obtain ⟨draws, hnodup, hlt, rfl⟩ := h
  refine ⟨draws ++ List.range' count more, ?_, ?_, ?_⟩
  · apply List.Nodup.append hnodup (List.nodup_range' 1)
    intro k hold hnew
    have hge := (List.mem_range'_1.mp hnew).1
    have := hlt k hold
    omega
  · intro k hk
    rcases List.mem_append.mp hk with hold | hnew
    · exact (hlt k hold).trans_le (Nat.le_add_right _ _)
    · exact (List.mem_range'_1.mp hnew).2
  · rw [List.map_append, keysFrom]

theorem nodup (h : Drawn supply count keys) (hsupply : Unrepeated supply count) :
    keys.Nodup := by
  obtain ⟨draws, hnodup, hlt, rfl⟩ := h
  exact hnodup.map_on fun k hk k' hk' => hsupply (hlt k hk) (hlt k' hk')

end Drawn

end Milona.Foundation
