import Mathlib.Algebra.Order.Ring.Int

/-!
# 64-bit machine arithmetic

Values are exact integers; an operation is absent when its result leaves the
range of its type.  Conversions between the types keep the bits.
-/

namespace Milona.Foundation

namespace I64

def checked (n : Int) : Option Int :=
  if -2 ^ 63 ≤ n ∧ n < 2 ^ 63 then some n else none

def add (a b : Int) : Option Int := checked (a + b)

def sub (a b : Int) : Option Int := checked (a - b)

def mul (a b : Int) : Option Int := checked (a * b)

def ofU64 (n : Nat) : Int := Int.bmod n (2 ^ 64)

theorem checked_eq {n : Int} (hlow : -2 ^ 63 ≤ n) (hhigh : n < 2 ^ 63) :
    checked n = some n := if_pos ⟨hlow, hhigh⟩

theorem add_eq {a b : Int} (hlow : -2 ^ 63 ≤ a + b) (hhigh : a + b < 2 ^ 63) :
    add a b = some (a + b) := checked_eq hlow hhigh

theorem sub_eq {a b : Int} (hlow : -2 ^ 63 ≤ a - b) (hhigh : a - b < 2 ^ 63) :
    sub a b = some (a - b) := checked_eq hlow hhigh

theorem mul_eq {a b : Int} (hlow : -2 ^ 63 ≤ a * b) (hhigh : a * b < 2 ^ 63) :
    mul a b = some (a * b) := checked_eq hlow hhigh

theorem ofU64_eq {n : Nat} (h : n < 2 ^ 63) : ofU64 n = n := by
  unfold ofU64
  exact Int.bmod_eq_of_le (by omega) (by omega)

end I64

namespace U64

def checked (n : Nat) : Option Nat :=
  if n < 2 ^ 64 then some n else none

def add (a b : Nat) : Option Nat := checked (a + b)

def mul (a b : Nat) : Option Nat := checked (a * b)

def sub (a b : Nat) : Option Nat :=
  if b ≤ a then some (a - b) else none

def ofI64 (n : Int) : Nat := (n % 2 ^ 64).toNat

theorem add_eq {a b : Nat} (h : a + b < 2 ^ 64) : add a b = some (a + b) := if_pos h

theorem mul_eq {a b : Nat} (h : a * b < 2 ^ 64) : mul a b = some (a * b) := if_pos h

theorem sub_eq {a b : Nat} (h : b ≤ a) : sub a b = some (a - b) := if_pos h

theorem ofI64_eq {n : Int} (hlow : 0 ≤ n) (hhigh : n < 2 ^ 64) : ofI64 n = n.toNat := by
  unfold ofI64
  rw [Int.emod_eq_of_lt hlow hhigh]

end U64

namespace U32

def ofU64 (n : Nat) : Nat := n % 2 ^ 32

theorem ofU64_eq {n : Nat} (h : n < 2 ^ 32) : ofU64 n = n := Nat.mod_eq_of_lt h

end U32

end Milona.Foundation
