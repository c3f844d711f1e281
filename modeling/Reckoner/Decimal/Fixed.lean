import Reckoner.Decimal.Layout

/-!
# Numbers in columns

Two ways to write a number with a given number of digits behind the point, used
where numbers stand below each other: `fixed` without and `exponential` with an
exponent. A blank stands in the place of the sign of a number that has none.
-/

namespace Reckoner.Decimal

/-- `coefficient / 10 ^ places` with all its `places` digits behind the point. -/
def pointed (places coefficient : Nat) : String :=
  let digits := Nat.toDigits 10 coefficient
  let padded := List.replicate (places + 1 - digits.length) '0' ++ digits
  let whole := padded.take (padded.length - places)
  let fraction := padded.drop (padded.length - places)
  String.ofList whole ++ (if fraction.isEmpty then "" else "." ++ String.ofList fraction)

/-- `mantissa * 2 ^ exponent` with `places` digits behind the point. -/
def fixedMagnitude (places mantissa : Nat) (exponent : Int) : String :=
  let steps := (Quotient.scaled mantissa 2 exponent).shift places
  pointed places (roundDiv steps.num steps.den)

/-- `mantissa * 2 ^ exponent` with one digit before and `places` digits behind the
point, and an exponent. -/
def exponentialMagnitude (places mantissa : Nat) (exponent : Int) : String :=
  let (digits, lead) :=
    if mantissa == 0 then (['0'], 0) else (significant (places + 1) mantissa exponent).normalized
  let fraction := digits.drop 1 ++ List.replicate (places + 1 - digits.length) '0'
  String.ofList (digits.take 1) ++ "." ++ String.ofList fraction ++ exponentText lead

/-- A signed number; `magnitude` writes a finite one without its sign. -/
def signedText (magnitude : Nat → Int → String) (x : Float) : String :=
  match Binary.ofFloat x with
  | .nan => "NaN"
  | .infinite negative => if negative then "-inf" else " inf"
  | .finite negative mantissa exponent =>
    (if negative then "-" else " ") ++ magnitude mantissa exponent

def fixed (places : Nat) (x : Float) : String := signedText (fixedMagnitude places) x

def exponential (places : Nat) (x : Float) : String := signedText (exponentialMagnitude places) x

end Reckoner.Decimal
