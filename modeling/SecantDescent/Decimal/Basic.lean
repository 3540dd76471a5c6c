/-!
# Decimal numerals

A decimal is a sign, a whole number and a power of ten that multiplies it.  The
two ways of writing one are the positional form, which spells out every zero
and never has an exponent, and the scientific form with one digit in front of
the point.
-/

namespace SecantDescent

structure Decimal where
  negative : Bool
  digits : Nat
  exponent : Int
  deriving DecidableEq, Repr

namespace Decimal

def signText (d : Decimal) : List Char :=
  if d.negative then ['-'] else []

def digitText (d : Decimal) : List Char :=
  Nat.toDigits 10 d.digits

def zeros (count : Nat) : List Char :=
  List.replicate count '0'

/-- The decimal written without an exponent, with all its zeros. -/
def positional (d : Decimal) : String :=
  let ds := d.digitText
  let body :=
    if 0 ≤ d.exponent then
      if d.digits = 0 then ds else ds ++ zeros d.exponent.toNat
    else
      let places := (-d.exponent).toNat
      if places < ds.length then
        ds.take (ds.length - places) ++ '.' :: ds.drop (ds.length - places)
      else
        '0' :: '.' :: (zeros (places - ds.length) ++ ds)
  String.ofList (d.signText ++ body)

/-- The characters of the scientific form: one digit, the other digits after a
point if there are any, and the exponent. -/
def scientificChars (d : Decimal) : List Char :=
  match d.digitText with
  | [] => d.signText
  | first :: rest =>
      let fraction := if rest.isEmpty then [] else '.' :: rest
      let exponent := d.exponent + rest.length
      d.signText ++ first :: fraction ++ 'e' :: (toString exponent).toList

def scientific (d : Decimal) : String :=
  String.ofList d.scientificChars

def trimDigits (digits : Nat) (exponent : Int) : Nat × Int :=
  if digits = 0 ∨ digits % 10 ≠ 0 then
    (digits, exponent)
  else
    trimDigits (digits / 10) (exponent + 1)
termination_by digits

end Decimal

inductive Numeral where
  | notANumber
  | infinite (negative : Bool)
  | finite (value : Decimal)

namespace Numeral

def write (form : Decimal → String) : Numeral → String
  | notANumber => "NaN"
  | infinite negative => if negative then "-inf" else "inf"
  | finite value => form value

def positional (numeral : Numeral) : String :=
  numeral.write Decimal.positional

def scientific (numeral : Numeral) : String :=
  numeral.write Decimal.scientific

end Numeral

end SecantDescent
