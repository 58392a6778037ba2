import Mathlib.Algebra.Field.Rat
import Mathlib.Algebra.Order.Ring.Unbundled.Rat
import Milona.Foundation.FixedPoint

/-!
# Decimal numerals

`decimalValue` reads a numeral: an optional minus sign, digits, and after a
point more digits.  The texts of integers and of decimal fractions are numerals,
and that of an integer has its value.
-/

namespace Milona.Foundation

def isDigits (text : List Char) : Bool := !text.isEmpty && text.all Char.isDigit

def unsignedValue (text : List Char) : Option ℚ :=
  match text.splitOn '.' with
  | [whole] => if isDigits whole then some (Nat.ofDigitChars 10 whole 0) else none
  | [whole, fraction] =>
      if isDigits whole && isDigits fraction then
        some (Nat.ofDigitChars 10 whole 0 +
          Nat.ofDigitChars 10 fraction 0 / 10 ^ fraction.length)
      else none
  | _ => none

def decimalValue : List Char → Option ℚ
  | '-' :: text => (unsignedValue text).map (- ·)
  | text => unsignedValue text

def intChars (n : Int) : List Char :=
  if n < 0 then '-' :: Nat.toDigits 10 n.natAbs else Nat.toDigits 10 n.toNat

/-- Without places there is no point. -/
def plainChars (places scaled : Nat) : List Char :=
  if places = 0 then Nat.toDigits 10 scaled else decimalChars places scaled

theorem notMem_of_isDigits {text : List Char} {c : Char} (hc : c.isDigit = false)
    (h : isDigits text) : c ∉ text := by
  intro hmem
  have hall := (Bool.and_eq_true_iff.mp h).2
  rw [List.all_eq_true] at hall
  rw [hall c hmem] at hc
  cases hc

theorem isDigits_toDigits (n : Nat) : isDigits (Nat.toDigits 10 n) := by
  have hall : (Nat.toDigits 10 n).all Char.isDigit := by
    rw [List.all_eq_true]
    exact fun c hc => Nat.isDigit_of_mem_toDigits (by decide) (by decide) hc
  have hne : Nat.toDigits 10 n ≠ [] := Nat.toDigits_ne_nil
  simp [isDigits, hall, hne]

theorem isDigits_fixedDigits {places : Nat} (h : places ≠ 0) (n : Nat) :
    isDigits ((fixedDigits 10 places n).map Nat.digitChar) := by
  have hall : ((fixedDigits 10 places n).map Nat.digitChar).all Char.isDigit := by
    rw [List.all_eq_true]
    intro c hc
    obtain ⟨digit, hdigit, rfl⟩ := List.mem_map.mp hc
    rw [Nat.isDigit_digitChar]
    simpa using fixedDigits_lt (by decide) places n digit hdigit
  have hne : (fixedDigits 10 places n).map Nat.digitChar ≠ [] := by
    intro hnil
    apply h
    rw [← length_fixedDigits 10 places n, ← List.length_map Nat.digitChar, hnil]
    rfl
  simp only [isDigits, hall, Bool.and_true, Bool.not_eq_true', List.isEmpty_eq_false_iff]
  exact hne

theorem unsignedValue_digits {text : List Char} (h : isDigits text) :
    unsignedValue text = some (Nat.ofDigitChars 10 text 0 : ℚ) := by
  rw [unsignedValue, List.splitOn_eq_singleton (notMem_of_isDigits rfl h)]
  simp only [h, if_true]

theorem isSome_unsignedValue_fraction {whole fraction : List Char}
    (hwhole : isDigits whole) (hfraction : isDigits fraction) :
    (unsignedValue (whole ++ '.' :: fraction)).isSome := by
  rw [unsignedValue,
    List.splitOn_append_cons_self_of_not_mem (notMem_of_isDigits rfl hwhole),
    List.splitOn_eq_singleton (notMem_of_isDigits rfl hfraction)]
  simp only [hwhole, hfraction, Bool.and_true, if_true, Option.isSome_some]

theorem decimalValue_unsigned {text : List Char} (h : '-' ∉ text) :
    decimalValue text = unsignedValue text := by
  unfold decimalValue
  split
  next => exact absurd List.mem_cons_self h
  next => rfl

private theorem decimalValue_signed (sign : Float.Model.UnpackedFloat.Sign)
    {text : List Char} (h : '-' ∉ text) :
    (decimalValue (signChars sign ++ text)).isSome = (unsignedValue text).isSome := by
  cases sign with
  | negative => exact Option.isSome_map
  | positive => exact congrArg Option.isSome (decimalValue_unsigned h)

theorem decimalValue_intChars (n : Int) : decimalValue (intChars n) = some (n : ℚ) := by
  unfold intChars
  split
  next hneg =>
    have hcast : (n.natAbs : ℚ) = -n := by
      rw [← Int.cast_natCast, Int.ofNat_natAbs_of_nonpos hneg.le, Int.cast_neg]
    rw [decimalValue, unsignedValue_digits (isDigits_toDigits _),
      Nat.ofDigitChars_ten_toDigits, hcast, Option.map_some, neg_neg]
  next hnonneg =>
    have hcast : (n.toNat : ℚ) = n := by
      exact_mod_cast Int.toNat_of_nonneg (not_lt.mp hnonneg)
    have hdigits := isDigits_toDigits n.toNat
    rw [decimalValue_unsigned (notMem_of_isDigits rfl hdigits),
      unsignedValue_digits hdigits, Nat.ofDigitChars_ten_toDigits, hcast]

theorem isSome_decimalValue_plain (sign : Float.Model.UnpackedFloat.Sign)
    (places scaled : Nat) :
    (decimalValue (signChars sign ++ plainChars places scaled)).isSome := by
  unfold plainChars
  split
  next =>
    have hdigits := isDigits_toDigits scaled
    rw [decimalValue_signed sign (notMem_of_isDigits rfl hdigits),
      unsignedValue_digits hdigits]
    rfl
  next hplaces =>
    have hwhole := isDigits_toDigits (scaled / 10 ^ places)
    have hfraction := isDigits_fixedDigits hplaces (scaled % 10 ^ places)
    have hminus : '-' ∉ decimalChars places scaled := by
      simp only [decimalChars, List.mem_append, List.mem_cons, not_or]
      exact ⟨notMem_of_isDigits rfl hwhole, by decide, notMem_of_isDigits rfl hfraction⟩
    rw [decimalValue_signed sign hminus]
    exact isSome_unsignedValue_fraction hwhole hfraction

end Milona.Foundation
