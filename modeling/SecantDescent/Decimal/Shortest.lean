import SecantDescent.Scalar.Binary
import SecantDescent.Decimal.Basic

/-!
# Reading and writing floating-point numbers in decimal

Reading rounds a decimal to the nearest number of the format, ties going to the
even mantissa.  Writing takes the fewest digits that read back as the same
number, and of the candidates with that many digits the one nearest to the
number.  The exact expansion of a number is always a candidate, so the search
ends with it at the latest.
-/

namespace SecantDescent

open Float.Model (UnpackedFloat)

variable {α : Type} [BinaryFloat α]

namespace Decimal

/-- The parts of the number of the format nearest to a decimal. -/
def nearestParts (format : Float.Model.Format) (d : Decimal) : UnpackedFloat :=
  let magnitude := UnpackedFloat.ofScientific format d.digits d.exponent
  if d.negative then magnitude.neg else magnitude

/-- The number nearest to a decimal; an infinity when the decimal exceeds all
numbers of the format. -/
def nearest (α : Type) [BinaryFloat α] (d : Decimal) : α :=
  BinaryFloat.pack (nearestParts (BinaryFloat.format α) d)

def exact (negative : Bool) (mantissa : Nat) (exponent : Int) : Decimal :=
  if 0 ≤ exponent then
    ⟨negative, mantissa * Nat.pow 2 exponent.toNat, 0⟩
  else
    ⟨negative, mantissa * Nat.pow 5 (-exponent).toNat, exponent⟩

/-- The decimals next to `d` that have `count` digits, the nearer one first and
the larger one first if both are equally near. -/
def neighbours (d : Decimal) (count : Nat) : List Decimal :=
  let dropped := d.digitText.length - count
  let unit := Nat.pow 10 dropped
  let below := d.digits / unit
  let candidate (digits : Nat) : Decimal :=
    let (trimmed, exponent) := trimDigits digits (d.exponent + dropped)
    ⟨d.negative, trimmed, exponent⟩
  if 2 * (d.digits % unit) < unit then
    [candidate below, candidate (below + 1)]
  else
    [candidate (below + 1), candidate below]

/-- The shortest decimal near `d` that passes a test, and `d` itself if none
does. -/
def shortestPassing (d : Decimal) (passes : Decimal → Bool) : Decimal :=
  ((List.range d.digitText.length).findSome? fun less =>
    (d.neighbours (less + 1)).find? passes).getD d

theorem shortestPassing_passes {d : Decimal} {passes : Decimal → Bool}
    (hself : passes d = true) : passes (d.shortestPassing passes) = true := by
  unfold shortestPassing
  cases hfind : (List.range d.digitText.length).findSome? fun less =>
      (d.neighbours (less + 1)).find? passes with
  | none => exact hself
  | some found =>
      obtain ⟨less, _, hless⟩ := List.exists_of_findSome?_eq_some hfind
      exact List.find?_some hless

end Decimal

namespace BinaryFloat

def bits (parts : UnpackedFloat) : BitVec (format α).numBits :=
  UnpackedFloat.pack (format α) parts

/-- A number in decimal, with as few digits as read back as the number. -/
def numeral (x : α) : Numeral :=
  match unpack x with
  | .notANumber => .notANumber
  | .infinity sign => .infinite (sign == .negative)
  | .zero sign => .finite ⟨sign == .negative, 0, 0⟩
  | parts@(.finite sign mantissa exponent _) =>
      .finite <|
        (Decimal.exact (sign == .negative) mantissa exponent).shortestPassing
          fun candidate =>
            bits (α := α) (candidate.nearestParts (format α)) == bits (α := α) parts

end BinaryFloat

end SecantDescent
