import ExprCheck.Decimal.Shortest

/-!
# Writing floating-point numbers
-/

namespace ExprCheck.Decimal

/-- How floating-point numbers are written: positionally if the exponent of the leading digit is in
a range, and with an exponent otherwise. -/
structure Layout where
  /-- The least exponent of the leading digit that is written positionally. -/
  least : Int
  /-- The greatest exponent of the leading digit that is written positionally. -/
  greatest : Int

/-- A decimal without an exponent, always with a point. -/
def positional (d : Decimal) : String :=
  let n := d.digits.length
  if d.exponent ≤ 0 then
    "0." ++ "".pushn '0' (-d.exponent).toNat ++ String.ofList d.digits
  else if n ≤ d.exponent.toNat then
    String.ofList d.digits ++ "".pushn '0' (d.exponent.toNat - n) ++ ".0"
  else
    String.ofList (d.digits.take d.exponent.toNat) ++ "."
      ++ String.ofList (d.digits.drop d.exponent.toNat)

/-- A decimal with an exponent, with a point only if it has two digits or more. -/
def scientific (d : Decimal) : String :=
  let tail := if d.digits.length ≤ 1 then "" else "." ++ String.ofList (d.digits.drop 1)
  String.ofList (d.digits.take 1) ++ tail ++ "e" ++ toString (d.exponent - 1)

/-- The text of a floating-point number. -/
def Layout.render (layout : Layout) (x : Float) : String :=
  let bits := x.toBits.toNat
  let magnitude := bits % Nat.pow 2 63
  let sign := if bits = magnitude then "" else "-"
  if magnitude = 2047 * Nat.pow 2 52 then sign ++ "inf"
  else if magnitude > 2047 * Nat.pow 2 52 then "NaN"
  else
    match Binary.ofBits magnitude with
    | none => sign ++ "0.0"
    | some b =>
      let d := shortest b
      if layout.least ≤ d.exponent - 1 && d.exponent - 1 ≤ layout.greatest then
        sign ++ positional d
      else
        sign ++ scientific d

end ExprCheck.Decimal
