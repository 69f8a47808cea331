import NativeBridge.Decimal.Shortest
import NativeBridge.Number.Complex

/-! Numbers in messages: the fewest digits that read back, always with a fraction or an
    exponent. Positional from a ten-thousandth to below ten to the sixteenth. -/

namespace NativeBridge

namespace Decimal

/-- Places of the first digit that are written positionally: from the first up to the second. -/
def positionalPlaces : Int × Int := (-4, 15)

/-- A decimal without an exponent. -/
def positional (d : Decimal) : String :=
  let digits := toString d.digits
  if 0 ≤ d.exponent then digits.pushn '0' d.exponent.toNat ++ ".0"
  else
    let after := (-d.exponent).toNat
    let padded := "".pushn '0' (after + 1 - digits.length) ++ digits
    let whole := padded.length - after
    String.ofList (padded.toList.take whole) ++ "." ++ String.ofList (padded.toList.drop whole)

/-- A decimal with one digit before the point and an exponent. -/
def scientific (d : Decimal) (place : Int) : String :=
  match (toString d.digits).toList with
  | [] => ""
  | [first] => String.ofList [first] ++ "e" ++ toString place
  | first :: rest => String.ofList (first :: '.' :: rest) ++ "e" ++ toString place

/-- A positive decimal. -/
def text (d : Decimal) : String :=
  let place := d.exponent + (toString d.digits).length - 1
  if positionalPlaces.1 ≤ place ∧ place ≤ positionalPlaces.2 then d.positional
  else d.scientific place

end Decimal

/-- The number as messages show it. -/
def Binary.text {f : Format} (x : Binary f) : String :=
  let sign (negative : Bool) := if negative then "-" else ""
  match x.value with
  | .nan => "NaN"
  | .infinite s => sign s ++ "inf"
  | .finite s m e => sign s ++ if m = 0 then "0.0" else (Decimal.shortest f m e).text

/-- The number as messages show it. -/
def Complex.text (z : Complex) : String :=
  "NativeComplex \x7b real: " ++ z.real.text ++ ", imag: " ++ z.imag.text ++ " \x7d"

end NativeBridge
