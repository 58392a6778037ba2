import Milona.Tools.Calculator

/-!
# Exact arithmetic

Where the exact result of an operation on two numbers is an integer that is a
double and fits 64 bits, the calculator prints the numeral of that integer.  So
the four operations are exact on integers as long as the arguments and the
result are at most `2 ^ 53` in magnitude.
-/

namespace Milona.Tools.CalculatorTool

open Milona.Core Milona.Foundation
open Binary64 (IsDouble)
open Float.Model (UnpackedFloat)

/-- A whole number within 64 bits is printed as its numeral. -/
theorem formatResult_of_value (decimal : Float → Nat × Nat) {value : Float}
    {n : Int} (h : Binary64.value value = some (n : ℚ)) (hlow : -2 ^ 63 ≤ n)
    (hhigh : n < 2 ^ 63) :
    formatResult decimal value = String.ofList (intChars n) := by
  cases hunpack : value.toModel.unpack with
  | notANumber =>
      rw [Binary64.value, hunpack] at h
      cases h
  | infinity sign =>
      rw [Binary64.value, hunpack] at h
      cases h
  | zero sign =>
      have hzero : Binary64.value value = some 0 :=
        congrArg FloatPacking.unpackedValue hunpack
      have hn : n = 0 := by
        exact_mod_cast (Option.some.inj (hzero.symm.trans h)).symm
      rw [formatResult_zero decimal hunpack, hn]
  | finite sign mantissa exponent hpos =>
      rw [Binary64.value, hunpack, FloatPacking.unpackedValue_finite,
        Option.some_inj] at h
      by_cases hwhole : 0 ≤ exponent ∨ mantissa % 2 ^ (-exponent).toNat = 0
      · have hround : UnpackedFloat.roundToInt sign mantissa exponent = n := by
          have hcast : (UnpackedFloat.roundToInt sign mantissa exponent : ℚ) = n :=
            (Binary64.cast_roundToInt hwhole).trans h
          exact_mod_cast hcast
        rw [formatResult_whole decimal hunpack hwhole, hround,
          (Binary64.toInt_ofIntClamp_iff n).mpr ⟨hlow, hhigh⟩]
      · rw [not_or, not_le] at hwhole
        exact absurd h (Binary64.signed_ne_int hwhole.1 hwhole.2 n)

private theorem compute_of_exact {op : String} {a b : Float} {x y : ℚ} {n : Int}
    (hx : Binary64.value a = some x) (hy : Binary64.value b = some y)
    (hexact : exactResult op x y = some (n : ℚ)) (hdouble : IsDouble n)
    (hlow : -2 ^ 63 ≤ n) (hhigh : n < 2 ^ 63) :
    ∃ result, compute op a b = .ok result ∧
    Binary64.value result = some (n : ℚ) := by
  have hbound : |(n : ℚ)| ≤ 2 ^ (1023 : Int) := by
    have habs : |n| ≤ 2 ^ 63 := abs_le.mpr ⟨hlow, hhigh.le⟩
    have hcast : |(n : ℚ)| ≤ 2 ^ 63 := by exact_mod_cast habs
    exact hcast.trans ((zpow_natCast (2 : ℚ) 63).ge.trans
      (RoundToNearest.two_zpow_le (by decide)))
  unfold exactResult at hexact
  unfold compute
  split at hexact
  · exact ⟨_, rfl, Binary64.value_add hx hy hdouble hbound
      (Option.some.inj hexact)⟩
  · exact ⟨_, rfl, Binary64.value_sub hx hy hdouble hbound
      (Option.some.inj hexact)⟩
  · exact ⟨_, rfl, Binary64.value_mul hx hy hdouble hbound
      (Option.some.inj hexact)⟩
  · split at hexact
    · cases hexact
    next hzero =>
      have hbeq : (b == 0) = true ↔ y = 0 := Binary64.beq_zero_iff hy
      have hne : (b == 0) = false := by
        rw [← Bool.not_eq_true, hbeq]
        exact hzero
      refine ⟨a / b, by simp [hne], ?_⟩
      exact Binary64.value_div hx hy hdouble hbound hzero (Option.some.inj hexact)
  · cases hexact

/--
If the exact result is an integer that is a double and fits 64 bits, the tool
returns its numeral, whatever the arguments were.
-/
theorem invoke_exact {σ : Type} (decimal : Float → Nat × Nat) (ctx : TenantContext)
    {invocation : ToolInvocation} {op : String} {a b : Float} {x y : ℚ} {n : Int}
    (hop : argOp invocation = .ok op) (ha : argNumber invocation "a" = .ok a)
    (hb : argNumber invocation "b" = .ok b) (hx : Binary64.value a = some x)
    (hy : Binary64.value b = some y) (hexact : exactResult op x y = some (n : ℚ))
    (hdouble : IsDouble n) (hlow : -2 ^ 63 ≤ n) (hhigh : n < 2 ^ 63) (s : σ) :
    invoke decimal ctx invocation s =
      (.returned (.ok ⟨String.ofList (intChars n)⟩), s) := by
  obtain ⟨result, hcompute, hvalue⟩ :=
    compute_of_exact hx hy hexact hdouble hlow hhigh
  rw [invoke_eq s hop ha hb, hcompute]
  simp only [Except.map, formatResult_of_value decimal hvalue hlow hhigh]

/-! ## Integers -/

/-- An integer of 64 bits, as the reader of JSON keeps it. -/
def jsonInt (n : Int) : Json :=
  if 0 ≤ n then .number (.natural (UInt64.ofNat n.toNat))
  else .number (.negative (Int64.ofInt n))

def integerCall (op : String) (m n : Int) : ToolInvocation :=
  ⟨"calculator", .object [("op", .string op), ("a", jsonInt m), ("b", jsonInt n)]⟩

theorem asF64_jsonInt {n : Int} (h : |n| ≤ 2 ^ 53) :
    ∃ f, (jsonInt n).asF64 = some f ∧ Binary64.value f = some (n : ℚ) := by
  obtain ⟨hlow, hhigh⟩ := abs_le.mp h
  have hdouble := Binary64.isDouble_int h
  unfold jsonInt
  split
  next hnonneg =>
    have hnat : (UInt64.ofNat n.toNat).toNat = n.toNat := 
      UInt64.toNat_ofNat_of_lt (show n.toNat < 2 ^ 64 by omega)
    have hcast : ((UInt64.ofNat n.toNat).toNat : ℚ) = n := by
      rw [hnat]
      exact_mod_cast Int.toNat_of_nonneg hnonneg
    refine ⟨_, rfl, ?_⟩
    rw [Binary64.value_toFloat (by rwa [hcast]), hcast]
  next hneg =>
    have hint : (Int64.ofInt n).toInt = n :=
      Int64.toInt_ofInt_of_le (by omega) (by omega)
    refine ⟨_, rfl, ?_⟩
    rw [Binary64.value_ofInt64 (by rwa [hint]), hint]

/-- The integer result of an operation on integers, where it has one. -/
def integerResult (op : String) (m n : Int) : Option Int :=
  match op with
  | "add" => some (m + n)
  | "sub" => some (m - n)
  | "mul" => some (m * n)
  | "div" => if n ≠ 0 ∧ n ∣ m then some (m / n) else none
  | _ => none

private theorem exactResult_integer {op : String} {m n k : Int}
    (h : integerResult op m n = some k) :
    exactResult op m n = some (k : ℚ) := by
  unfold integerResult at h
  unfold exactResult
  split at h
  · cases h
    push_cast
    rfl
  · cases h
    push_cast
    rfl
  · cases h
    push_cast
    rfl
  · split at h
    next hdvd =>
      cases h
      have hne : (n : ℚ) ≠ 0 := by exact_mod_cast hdvd.1
      have hquotient : ((m / n : Int) : ℚ) = m / n := Int.cast_div hdvd.2 hne
      exact (if_neg hne).trans (congrArg some hquotient.symm)
    next => cases h
  · cases h

/-- Integer arithmetic is exact up to `2 ^ 53`. -/
theorem invoke_integer {σ : Type} (decimal : Float → Nat × Nat)
    (ctx : TenantContext) {op : String} {m n k : Int} (hm : |m| ≤ 2 ^ 53)
    (hn : |n| ≤ 2 ^ 53) (hk : |k| ≤ 2 ^ 53) (h : integerResult op m n = some k)
    (s : σ) :
    invoke decimal ctx (integerCall op m n) s =
      (.returned (.ok ⟨String.ofList (intChars k)⟩), s) := by
  obtain ⟨a, ha, hx⟩ := asF64_jsonInt hm
  obtain ⟨b, hb, hy⟩ := asF64_jsonInt hn
  obtain ⟨hlow, hhigh⟩ := abs_le.mp hk
  have hgetA : (integerCall op m n).arguments.get "a" = some (jsonInt m) := rfl
  have hgetB : (integerCall op m n).arguments.get "b" = some (jsonInt n) := rfl
  have hargA : argNumber (integerCall op m n) "a" = .ok a := by
    rw [argNumber, hgetA, Option.bind_some, ha]
  have hargB : argNumber (integerCall op m n) "b" = .ok b := by
    rw [argNumber, hgetB, Option.bind_some, hb]
  exact invoke_exact decimal ctx rfl hargA hargB hx hy (exactResult_integer h)
    (Binary64.isDouble_int hk) (by omega) (by omega) s

theorem invoke_integer_edge :
    invoke (fun _ => (0, 0)) sampleContext (integerCall "add" (2 ^ 53) (-1)) () =
      (.returned (.ok ⟨String.ofList (intChars (2 ^ 53 - 1))⟩), ()) :=
  invoke_integer _ sampleContext (by norm_num) (by norm_num) (by norm_num) rfl ()

end Milona.Tools.CalculatorTool
