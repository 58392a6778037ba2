import Mathlib.Algebra.Order.Group.Nat

/-!
# Numerals of a fixed width

`fixedDigits base width n` is the numeral of `n` in the given base, padded with
zeros or cut to exactly `width` digits, most significant digit first.
-/

namespace Milona.Foundation

def fixedDigits (base : Nat) : Nat → Nat → List Nat
  | 0, _ => []
  | width + 1, n => fixedDigits base width (n / base) ++ [n % base]

@[simp] theorem length_fixedDigits (base width n : Nat) :
    (fixedDigits base width n).length = width := by
  induction width generalizing n with
  | zero => rfl
  | succ width ih => simp [fixedDigits, ih]

theorem fixedDigits_lt {base : Nat} (hbase : 0 < base) (width n : Nat) :
    ∀ digit ∈ fixedDigits base width n, digit < base := by
  induction width generalizing n with
  | zero => simp [fixedDigits]
  | succ width ih =>
      intro digit hdigit
      rcases List.mem_append.mp hdigit with h | h
      · exact ih _ _ h
      · rw [List.mem_singleton.mp h]
        exact Nat.mod_lt n hbase

theorem fixedDigits_injOn {base width n m : Nat}
    (hn : n < base ^ width) (hm : m < base ^ width)
    (h : fixedDigits base width n = fixedDigits base width m) : n = m := by
  induction width generalizing n m with
  | zero =>
      simp only [Nat.pow_zero, Nat.lt_one_iff] at hn hm
      omega
  | succ width ih =>
      have hparts := List.append_inj h (by simp)
      have hlast : n % base = m % base := by simpa using hparts.2
      have hbound : ∀ {k}, k < base ^ (width + 1) → k / base < base ^ width :=
        fun hk => Nat.div_lt_of_lt_mul (by rwa [Nat.pow_succ'] at hk)
      have hfirst := ih (hbound hn) (hbound hm) hparts.1
      calc
        n = base * (n / base) + n % base := (Nat.div_add_mod n base).symm
        _ = base * (m / base) + m % base := by rw [hfirst, hlast]
        _ = m := Nat.div_add_mod m base

theorem foldl_fixedDigits {base width n : Nat} (h : n < base ^ width) :
    (fixedDigits base width n).foldl (fun value digit => base * value + digit) 0 = n := by
  induction width generalizing n with
  | zero =>
      rw [Nat.pow_zero, Nat.lt_one_iff] at h
      rw [h]
      rfl
  | succ width ih =>
      have hfirst : n / base < base ^ width :=
        Nat.div_lt_of_lt_mul (by rwa [Nat.pow_succ'] at h)
      rw [fixedDigits, List.foldl_append, ih hfirst]
      exact Nat.div_add_mod n base

private theorem digitChar_injOn {a b : Nat} (ha : a < 16) (hb : b < 16)
    (h : Nat.digitChar a = Nat.digitChar b) : a = b := by
  have hall : ∀ a < 16, ∀ b < 16, Nat.digitChar a = Nat.digitChar b → a = b := by
    decide
  exact hall a ha b hb h

theorem map_digitChar_injOn {xs ys : List Nat} (hxs : ∀ d ∈ xs, d < 16)
    (hys : ∀ d ∈ ys, d < 16)
    (h : xs.map Nat.digitChar = ys.map Nat.digitChar) : xs = ys := by
  induction xs generalizing ys with
  | nil =>
      cases ys with
      | nil => rfl
      | cons y ys => cases h
  | cons x xs ih =>
      cases ys with
      | nil => cases h
      | cons y ys =>
          simp only [List.map_cons, List.cons.injEq] at h
          have hhead := digitChar_injOn (hxs x List.mem_cons_self)
            (hys y List.mem_cons_self) h.1
          have htail := ih (fun d hd => hxs d (List.mem_cons_of_mem _ hd))
            (fun d hd => hys d (List.mem_cons_of_mem _ hd)) h.2
          rw [hhead, htail]

end Milona.Foundation
