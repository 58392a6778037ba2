import Milona.Foundation.Digits

/-!
# Fixed-point text of a float

The text of a single-precision number with a given number of decimal places:
its exact value, rounded to the nearest such decimal, ties to even.  The text
has no line break.
-/

namespace Milona.Foundation

open Float.Model (UnpackedFloat)

def roundHalfEven (numerator denominator : Nat) : Nat :=
  let quotient := numerator / denominator
  let remainder := numerator % denominator
  if 2 * remainder < denominator then quotient
  else if denominator < 2 * remainder then quotient + 1
  else quotient + quotient % 2

def decimalChars (places scaled : Nat) : List Char :=
  Nat.toDigits 10 (scaled / 10 ^ places) ++
    '.' :: (fixedDigits 10 places (scaled % 10 ^ places)).map Nat.digitChar

def signChars : UnpackedFloat.Sign → List Char
  | .negative => ['-']
  | .positive => []

/-- The magnitude `mantissa * 2 ^ exponent` in units of `10 ^ -places`. -/
def scaledMagnitude (places mantissa : Nat) (exponent : Int) : Nat :=
  if 0 ≤ exponent then mantissa * 2 ^ exponent.toNat * 10 ^ places
  else roundHalfEven (mantissa * 10 ^ places) (2 ^ (-exponent).toNat)

def fixedPointChars (places : Nat) (f : Float32) : List Char :=
  match f.toModel.unpack with
  | .notANumber => ['N', 'a', 'N']
  | .infinity sign => signChars sign ++ ['i', 'n', 'f']
  | .zero sign => signChars sign ++ decimalChars places 0
  | .finite sign mantissa exponent _ =>
      signChars sign ++
        decimalChars places (scaledMagnitude places mantissa exponent)

def fixedPoint (places : Nat) (f : Float32) : String :=
  String.ofList (fixedPointChars places f)

example : fixedPoint 4 (1 / 3) = "0.3333" := by decide +kernel

/-! ## No line breaks -/

end Milona.Foundation
