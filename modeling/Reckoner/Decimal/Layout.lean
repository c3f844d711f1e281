import Reckoner.Decimal.Digits

/-!
# Written numbers

A `Layout` says how many digits a number is written with and where positional
notation gives way to an exponent. The two families used by the calculator are
`exact`, whose text reads back as the same double, and `general n`, which
rounds to `n` significant digits.
-/

namespace Reckoner.Decimal

/-- The decisions of one way to write numbers. -/
structure Layout where
  /-- Digits to round to; `none` takes the fewest that read back. -/
  significant? : Option Nat
  /-- Positional notation is used for leading exponents from -4 up to, not including, this one. -/
  positionalBelow : Int
  /-- A number without fraction digits ends in `.0`. -/
  keepPoint : Bool

/-- The fewest digits that read back; positional below `10 ^ 16`; integral values end in `.0`. -/
def Layout.exact : Layout := ⟨none, 16, true⟩

/-- `count` significant digits without trailing zeros; positional below `10 ^ count`. -/
def Layout.general (count : Nat) : Layout := ⟨some count, count, false⟩

/-- The exponent part: sign and at least two digits. -/
def exponentText (e : Int) : String :=
  let digits := toString e.natAbs
  (if e < 0 then "e-" else "e+") ++ (if digits.length < 2 then "0" ++ digits else digits)

/-- `digits` with the point after position `lead`, padded with zeros on either side. -/
def positional (digits : List Char) (lead : Int) (keepPoint : Bool) : String :=
  if lead < 0 then
    "0." ++ String.ofList (List.replicate (-lead - 1).toNat '0' ++ digits)
  else
    let whole := digits.take (lead.toNat + 1)
    let padding := List.replicate (lead.toNat + 1 - digits.length) '0'
    let fraction := digits.drop (lead.toNat + 1)
    String.ofList (whole ++ padding) ++
      (if fraction.isEmpty then (if keepPoint then ".0" else "") else "." ++ String.ofList fraction)

/-- One digit, the others behind a point, and the exponent. -/
def scientific (digits : List Char) (lead : Int) : String :=
  match digits with
  | [] => "0" ++ exponentText lead
  | [d] => String.singleton d ++ exponentText lead
  | d :: ds => String.singleton d ++ "." ++ String.ofList ds ++ exponentText lead

/-- The text of the magnitude `mantissa * 2 ^ exponent`. -/
def Layout.magnitude (l : Layout) (mantissa : Nat) (exponent : Int) : String :=
  if mantissa == 0 then (if l.keepPoint then "0.0" else "0")
  else
    let chosen := match l.significant? with
      | none => shortest mantissa exponent
      | some count => significant (max count 1) mantissa exponent
    let (digits, lead) := chosen.normalized
    if -4 ≤ lead && lead < l.positionalBelow then positional digits lead l.keepPoint
    else scientific digits lead

/-- The text of `x`. Zero keeps its sign, and what is not a number has none. -/
def Layout.write (l : Layout) (x : Float) : String :=
  match Binary.ofFloat x with
  | .nan => "nan"
  | .infinite negative => if negative then "-inf" else "inf"
  | .finite negative mantissa exponent =>
    (if negative then "-" else "") ++ l.magnitude mantissa exponent

end Reckoner.Decimal
