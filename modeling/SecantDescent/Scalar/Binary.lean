import SecantDescent.Scalar

/-!
# Binary formats

A binary floating-point number is taken apart into a sign, a whole mantissa and
a power of two.  In that form a number moves from one width to another: a wider
format holds it unchanged, a narrower one rounds it to the nearest number, ties
going to the even mantissa, and to an infinity when it is too large.
-/

namespace SecantDescent

open Float.Model (Format UnpackedFloat)

class BinaryFloat (α : Type) extends Scalar α where
  format : Format
  unpack : α → UnpackedFloat
  /-- The number with the given parts, which have to be rounded to the format. -/
  pack : UnpackedFloat → α

namespace BinaryFloat

variable {α β : Type} [BinaryFloat α] [BinaryFloat β]

/-- The number of the format `β` nearest to a number of the format `α`. -/
def convert (x : α) : β :=
  match unpack x with
  | .finite sign mantissa exponent _ =>
      pack (UnpackedFloat.round (format β) sign mantissa exponent)
  | parts => pack parts

end BinaryFloat

instance : BinaryFloat Float where
  format := .binary64
  unpack x := x.toModel.unpack
  pack parts := .ofModel (.pack parts)

instance : BinaryFloat Float32 where
  format := .binary32
  unpack x := x.toModel.unpack
  pack parts := .ofModel (.pack parts)

end SecantDescent
