import Milona.Core.Traits
import Milona.Foundation.Binary64Whole
import Milona.Foundation.DecimalText

/-!
# The calculator

Four operations on doubles.  A whole result is narrowed to a 64-bit integer
before it is printed; any other result is printed as the double it is.  The
decimal that stands for a fraction, its places and its digits, is a parameter.
-/

namespace Milona.Tools

open Milona.Core Milona.Foundation
open Float.Model (UnpackedFloat)

namespace CalculatorTool

def argNumber (invocation : ToolInvocation) (key : String) : Result Float :=
  match (invocation.arguments.get key).bind Json.asF64 with
  | some number => .ok number
  | none =>
      .error (.invalidInput
        ("calculator requires a numeric `" ++ key ++ "` argument"))

def argOp (invocation : ToolInvocation) : Result String :=
  match (invocation.arguments.get "op").bind Json.asStr with
  | some op => .ok op
  | none =>
      .error (.invalidInput
        "calculator requires a string `op` argument (one of: add, sub, mul, div)")

/-- Whether `fract` is zero; of an infinity or NaN it is NaN. -/
def fractIsZero (value : Float) : Bool :=
  match value.toModel.unpack with
  | .notANumber => false
  | .infinity _ => false
  | .zero _ => true
  | .finite _ mantissa exponent _ =>
      0 ≤ exponent || mantissa % 2 ^ (-exponent).toNat = 0

def floatChars (decimal : Float → Nat × Nat) (value : Float) : List Char :=
  match value.toModel.unpack with
  | .notANumber => ['N', 'a', 'N']
  | .infinity sign => signChars sign ++ ['i', 'n', 'f']
  | .zero sign => signChars sign ++ ['0']
  | .finite sign _ _ _ =>
      signChars sign ++ plainChars (decimal value).1 (decimal value).2

def formatResult (decimal : Float → Nat × Nat) (value : Float) : String :=
  if fractIsZero value && value.isFinite then
    String.ofList (intChars value.toModel.toInt64.toInt)
  else String.ofList (floatChars decimal value)

def compute (op : String) (a b : Float) : Result Float :=
  match op with
  | "add" => .ok (a + b)
  | "sub" => .ok (a - b)
  | "mul" => .ok (a * b)
  | "div" =>
      if b == 0 then .error (.invalidInput "calculator division by zero")
      else .ok (a / b)
  | other =>
      .error (.invalidInput ("calculator unsupported op '" ++ other ++
        "', expected one of: add, sub, mul, div"))

def calculate (decimal : Float → Nat × Nat) (invocation : ToolInvocation) :
    Result ToolResult := do
  let op ← argOp invocation
  let a ← argNumber invocation "a"
  let b ← argNumber invocation "b"
  let result ← compute op a b
  return ⟨formatResult decimal result⟩

def invoke {σ : Type} (decimal : Float → Nat × Nat) (_ctx : TenantContext)
    (invocation : ToolInvocation) : Action σ (Result ToolResult) :=
  return calculate decimal invocation

def tool {σ : Type} (decimal : Float → Nat × Nat) : Tool σ where
  name := "calculator"
  description :=
    "Performs basic arithmetic. Arguments: op (\"add\"|\"sub\"|\"mul\"|\"div\"), a (number), b (number)."
  invoke := invoke decimal

/-! ## Whole results -/

/-- A numeral, and of the very number when that is whole. -/
def IsFaithful (value : Float) (content : String) : Prop :=
  ∃ q, decimalValue content.toList = some q ∧
    ∀ n : Int, Binary64.value value = some (n : ℚ) → q = n

theorem isFaithful_whole {value : Float} {q : ℚ}
    (hvalue : Binary64.value value = some q) {n m : Int} (hn : q = n) :
    IsFaithful value (String.ofList (intChars m)) ↔ m = n := by
  unfold IsFaithful
  rw [String.toList_ofList, decimalValue_intChars, hvalue, hn]
  constructor
  · rintro ⟨_, hq, hall⟩
    cases hq
    exact_mod_cast hall n rfl
  · rintro rfl
    refine ⟨_, rfl, fun k hk => ?_⟩
    exact Option.some_inj.mp hk

section FormatResult

variable {value : Float} (decimal : Float → Nat × Nat)

theorem formatResult_narrowed (hfract : fractIsZero value = true)
    (hfinite : value.isFinite = true) :
    formatResult decimal value =
      String.ofList (intChars value.toModel.toInt64.toInt) := by
  rw [formatResult, hfract, hfinite]
  rfl

theorem formatResult_printed (hfract : fractIsZero value = false) :
    formatResult decimal value = String.ofList (floatChars decimal value) := by
  rw [formatResult, hfract]
  rfl

theorem formatResult_notANumber (h : value.toModel.unpack = .notANumber) :
    formatResult decimal value = String.ofList ['N', 'a', 'N'] := by
  have hfract : fractIsZero value = false := by
    rw [fractIsZero, h]
  rw [formatResult_printed decimal hfract, floatChars, h]

theorem formatResult_infinity {sign : UnpackedFloat.Sign}
    (h : value.toModel.unpack = .infinity sign) :
    formatResult decimal value =
      String.ofList (signChars sign ++ ['i', 'n', 'f']) := by
  have hfract : fractIsZero value = false := by
    rw [fractIsZero, h]
  rw [formatResult_printed decimal hfract, floatChars, h]

theorem formatResult_zero {sign : UnpackedFloat.Sign}
    (h : value.toModel.unpack = .zero sign) :
    formatResult decimal value = String.ofList (intChars 0) := by
  have hfract : fractIsZero value = true := by
    rw [fractIsZero, h]
  have hint : value.toModel.toInt64 = 0 := congrArg UnpackedFloat.toInt64 h
  rw [formatResult_narrowed decimal hfract (congrArg UnpackedFloat.isFinite h),
    hint]
  rfl

variable {sign : UnpackedFloat.Sign} {mantissa : Nat} {exponent : Int}
    {hpos : 0 < mantissa}

theorem fractIsZero_finite
    (h : value.toModel.unpack = .finite sign mantissa exponent hpos) :
    fractIsZero value = true ↔
      0 ≤ exponent ∨ mantissa % 2 ^ (-exponent).toNat = 0 := by
  rw [fractIsZero, h, Bool.or_eq_true, decide_eq_true_iff, decide_eq_true_iff]

theorem formatResult_whole
    (h : value.toModel.unpack = .finite sign mantissa exponent hpos)
    (hwhole : 0 ≤ exponent ∨ mantissa % 2 ^ (-exponent).toNat = 0) :
    formatResult decimal value = String.ofList (intChars
      (Int64.ofIntClamp (UnpackedFloat.roundToInt sign mantissa
        exponent)).toInt) := by
  have hint : value.toModel.toInt64 =
      Int64.ofIntClamp (UnpackedFloat.roundToInt sign mantissa exponent) :=
    congrArg UnpackedFloat.toInt64 h
  rw [formatResult_narrowed decimal ((fractIsZero_finite h).mpr hwhole)
    (congrArg UnpackedFloat.isFinite h), hint]

private theorem formatResult_fraction
    (h : value.toModel.unpack = .finite sign mantissa exponent hpos)
    (hfraction : ¬ (0 ≤ exponent ∨ mantissa % 2 ^ (-exponent).toNat = 0)) :
    formatResult decimal value = String.ofList (signChars sign ++
      plainChars (decimal value).1 (decimal value).2) := by
  have hfract : fractIsZero value = false := by
    rw [← Bool.not_eq_true, fractIsZero_finite h]
    exact hfraction
  rw [formatResult_printed decimal hfract, floatChars, h]

private theorem isFaithful_fraction
    (h : value.toModel.unpack = .finite sign mantissa exponent hpos)
    (hfraction : ¬ (0 ≤ exponent ∨ mantissa % 2 ^ (-exponent).toNat = 0)) :
    IsFaithful value (formatResult decimal value) := by
  obtain ⟨q, hq⟩ := Option.isSome_iff_exists.mp
    (isSome_decimalValue_plain sign (decimal value).1 (decimal value).2)
  refine ⟨q, ?_, ?_⟩
  · rw [formatResult_fraction decimal h hfraction, String.toList_ofList, hq]
  · intro n hn
    rw [not_or, not_le] at hfraction
    rw [Binary64.value, h, FloatPacking.unpackedValue_finite] at hn
    exact absurd (Option.some_inj.mp hn)
      (Binary64.signed_ne_int hfraction.1 hfraction.2 n)

end FormatResult

theorem isFaithful_formatResult_iff (decimal : Float → Nat × Nat) (value : Float) :
    IsFaithful value (formatResult decimal value) ↔
    Binary64.IsWithin 63 value.toModel := by
  cases hunpack : value.toModel.unpack with
  | notANumber =>
      apply iff_of_false
      · rintro ⟨q, hq, -⟩
        rw [formatResult_notANumber decimal hunpack, String.toList_ofList] at hq
        cases hq
      · rintro ⟨q, hq, -⟩
        rw [hunpack] at hq
        cases hq
  | infinity sign =>
      apply iff_of_false
      · rintro ⟨q, hq, -⟩
        rw [formatResult_infinity decimal hunpack, String.toList_ofList] at hq
        cases sign <;> cases hq
      · rintro ⟨q, hq, -⟩
        rw [hunpack] at hq
        cases hq
  | zero sign =>
      have hvalue : Binary64.value value = some 0 :=
        congrArg FloatPacking.unpackedValue hunpack
      rw [formatResult_zero decimal hunpack,
        isFaithful_whole hvalue Int.cast_zero.symm]
      have hpos := RoundToNearest.two_zpow_pos 63
      exact iff_of_true rfl ⟨0, hvalue, by linarith, hpos⟩
  | finite sign mantissa exponent hpos =>
      have hvalue : Binary64.value value =
          some (FloatPacking.signed sign (mantissa * 2 ^ exponent)) := by
        rw [Binary64.value, hunpack, FloatPacking.unpackedValue_finite]
      by_cases hwhole : 0 ≤ exponent ∨ mantissa % 2 ^ (-exponent).toNat = 0
      · rw [formatResult_whole decimal hunpack hwhole,
          isFaithful_whole hvalue (Binary64.cast_roundToInt hwhole).symm,
            Binary64.toInt_ofIntClamp_iff,
          ← Binary64.cast_within_iff, Binary64.cast_roundToInt hwhole,
            Binary64.isWithin_of_value hvalue]
      · apply iff_of_true (isFaithful_fraction decimal hunpack hwhole)
        rw [not_or, not_le] at hwhole
        exact (Binary64.isWithin_of_value hvalue).mpr
          (Binary64.fraction_within (Binary64.isCanonical_of_unpack hunpack)
            hwhole.1)

/-! ## Results in range -/

/-- The exact result, where the operation has one. -/
def exactResult (op : String) (x y : ℚ) : Option ℚ :=
  match op with
  | "add" => some (x + y)
  | "sub" => some (x - y)
  | "mul" => some (x * y)
  | "div" => if y = 0 then none else some (x / y)
  | _ => none

theorem isWithin_compute {a b : Float} {x y : ℚ} (op : String)
    (hx : Binary64.value a = some x) (hy : Binary64.value b = some y) :
    (∀ result, compute op a b = .ok result → Binary64.IsWithin 63 result.toModel) ↔
      ∀ z, exactResult op x y = some z → Binary64.RoundsWithin 63 z := by
  have hlow : (-1021 : Int) ≤ 63 := by decide
  have hhigh : (63 : Int) ≤ 1023 := by decide
  unfold compute exactResult
  split
  · simpa using Binary64.isWithin_add hlow hhigh hx hy
  · simpa using Binary64.isWithin_sub hlow hhigh hx hy
  · simpa using Binary64.isWithin_mul hlow hhigh hx hy
  · have hbeq : (b == 0) = true ↔ y = 0 := Binary64.beq_zero_iff hy
    by_cases hzero : y = 0
    · simp [hbeq.mpr hzero, hzero]
    · have hne : (b == 0) = false := by
        rw [← Bool.not_eq_true, hbeq]
        exact hzero
      simpa [hne, hzero] using Binary64.isWithin_div hlow hhigh hx hy hzero
  · simp

theorem roundsWithin_iff (z : ℚ) :
    Binary64.RoundsWithin 63 z ↔ -(2 ^ 63 + 2 ^ 10) ≤ z ∧ z < 2 ^ 63 - 2 ^ 9 := by
  unfold Binary64.RoundsWithin
  norm_num

theorem invoke_eq {σ : Type} {decimal : Float → Nat × Nat} {ctx : TenantContext}
    {invocation : ToolInvocation} {op : String} {a b : Float} (s : σ)
    (hop : argOp invocation = .ok op) (ha : argNumber invocation "a" = .ok a)
    (hb : argNumber invocation "b" = .ok b) :
    invoke decimal ctx invocation s =
      (.returned ((compute op a b).map fun result =>
        ⟨formatResult decimal result⟩), s) := by
  have hcalculate : calculate decimal invocation =
      (compute op a b).map fun result => ⟨formatResult decimal result⟩ := by
    rw [calculate, hop, ha, hb]
    change (compute op a b).bind
      (fun result => .ok (⟨formatResult decimal result⟩ : ToolResult)) = _
    cases compute op a b <;> rfl
  rw [invoke, hcalculate]
  rfl

theorem invoke_faithful_iff {σ : Type} {decimal : Float → Nat × Nat}
    {ctx : TenantContext} {invocation : ToolInvocation} {op : String}
    {a b : Float} {x y : ℚ} (s : σ) (hop : argOp invocation = .ok op)
    (ha : argNumber invocation "a" = .ok a)
    (hb : argNumber invocation "b" = .ok b) (hx : Binary64.value a = some x)
    (hy : Binary64.value b = some y) :
    (∀ content, invoke decimal ctx invocation s = (.returned (.ok ⟨content⟩), s) →
        ∃ result, compute op a b = .ok result ∧ IsFaithful result content) ↔
      ∀ z, exactResult op x y = some z → -(2 ^ 63 + 2 ^ 10) ≤ z ∧
      z < 2 ^ 63 - 2 ^ 9 := by
  simp only [← roundsWithin_iff, ← isWithin_compute op hx hy,
    invoke_eq s hop ha hb,
    ← isFaithful_formatResult_iff decimal]
  cases compute op a b with
  | error e => simp [Except.map]
  | ok result => simp [Except.map]

/-! ## Two products -/

def productOf (a b : UInt64) : ToolInvocation :=
  ⟨"calculator", .object [("op", .string "mul"), ("a", .number (.natural a)),
    ("b", .number (.natural b))]⟩

theorem value_six : Binary64.value (UInt64.toFloat 6) = some 6 := by
  have hunpack : (UInt64.toFloat 6).toModel.unpack =
      .finite .positive (6 * 2 ^ 50) (-50) (by decide) := by rfl
  rw [Binary64.value, hunpack, FloatPacking.unpackedValue_finite]
  norm_num [FloatPacking.signed]

theorem value_tenBillion :
    Binary64.value (UInt64.toFloat 10000000000) = some (10 ^ 10) := by
  have hunpack : (UInt64.toFloat 10000000000).toModel.unpack =
      .finite .positive (10000000000 * 2 ^ 19) (-19) (by decide) := by rfl
  rw [Binary64.value, hunpack, FloatPacking.unpackedValue_finite]
  norm_num [FloatPacking.signed]

def sampleContext : TenantContext := ⟨⟨⟨1⟩⟩, .member, "tester"⟩

theorem invoke_faithful_iff_six :
    (∀ content,
        invoke (fun _ => (0, 0)) sampleContext (productOf 6 6) () =
            (.returned (.ok ⟨content⟩), ()) →
          ∃ result, compute "mul" (UInt64.toFloat 6) (UInt64.toFloat 6) =
            .ok result ∧
            IsFaithful result content) ↔
      ∀ z, exactResult "mul" 6 6 = some z →
        -(2 ^ 63 + 2 ^ 10) ≤ z ∧ z < 2 ^ 63 - 2 ^ 9 :=
  invoke_faithful_iff () rfl rfl rfl value_six value_six

theorem tenBillion_squared :
    argOp (productOf 10000000000 10000000000) = .ok "mul" ∧
      argNumber (productOf 10000000000 10000000000) "a" =
        .ok (UInt64.toFloat 10000000000) ∧
      argNumber (productOf 10000000000 10000000000) "b" =
        .ok (UInt64.toFloat 10000000000) ∧
      calculate (fun _ => (0, 0)) (productOf 10000000000 10000000000) =
        .ok ⟨"9223372036854775807"⟩ ∧
      ¬ ∀ content,
        invoke (fun _ => (0, 0)) sampleContext
            (productOf 10000000000 10000000000) () =
            (.returned (.ok ⟨content⟩), ()) →
          ∃ result,
            compute "mul" (UInt64.toFloat 10000000000)
                (UInt64.toFloat 10000000000) =
              .ok result ∧ IsFaithful result content := by
  have hop : argOp (productOf 10000000000 10000000000) = .ok "mul" := rfl
  have ha : argNumber (productOf 10000000000 10000000000) "a" =
      .ok (UInt64.toFloat 10000000000) := rfl
  have hb : argNumber (productOf 10000000000 10000000000) "b" =
      .ok (UInt64.toFloat 10000000000) := rfl
  refine ⟨hop, ha, hb, rfl, fun h => ?_⟩
  obtain ⟨result, hresult, hfaithful⟩ := h _ (invoke_eq () hop ha hb)
  cases hresult
  have hwithin := (isFaithful_formatResult_iff _ _).mp hfaithful
  rw [Binary64.isWithin_mul (by decide) (by decide)
      value_tenBillion value_tenBillion,
    roundsWithin_iff] at hwithin
  norm_num at hwithin

end CalculatorTool

end Milona.Tools
