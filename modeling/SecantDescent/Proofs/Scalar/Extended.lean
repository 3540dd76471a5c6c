import SecantDescent.Proofs.Scalar.Order

/-!
# Values that are not finite

Besides the finite numbers there are two infinities and a value that is not a number.  A
sum or a product is finite only if its operands are, and a number only if they are
numbers; for a difference the first is all that is needed.  There is one way back: a
finite number over an infinity is zero.
-/

namespace SecantDescent

class ExtendedScalar (α : Type) [Scalar α] : Prop extends OrderedScalar α where
  one_finite : Scalar.isFinite (1 : α) = true
  number_of_finite {a : α} : Scalar.isFinite a = true → Scalar.isNaN a = false
  finite_of_add {a b : α} : Scalar.isFinite (a + b) = true →
    Scalar.isFinite a = true ∧ Scalar.isFinite b = true
  finite_of_mul {a b : α} : Scalar.isFinite (a * b) = true →
    Scalar.isFinite a = true ∧ Scalar.isFinite b = true
  finite_of_div {a b : α} : Scalar.isFinite (a / b) = true →
    Scalar.isFinite a = true ∧ Scalar.isNaN b = false
  numbers_of_add {a b : α} : Scalar.isNaN (a + b) = false →
    Scalar.isNaN a = false ∧ Scalar.isNaN b = false
  numbers_of_mul {a b : α} : Scalar.isNaN (a * b) = false →
    Scalar.isNaN a = false ∧ Scalar.isNaN b = false
  /-- An infinity times zero is not a number. -/
  finite_of_mul_zero {a b : α} : (b == 0) = true → Scalar.isNaN (a * b) = false →
    Scalar.isFinite a = true
  div_infinite {a b : α} : Scalar.isFinite a = true → Scalar.isFinite b = false →
    Scalar.isNaN b = false → (a / b == 0) = true
  abs_lt_infinite {a b : α} : Scalar.isFinite a = true → Scalar.isFinite b = false →
    Scalar.isNaN b = false → Scalar.abs a < Scalar.abs b

class ExtendedSub (α : Type) [Scalar α] : Prop extends ExtendedScalar α where
  finite_of_sub {a b : α} : Scalar.isFinite (a - b) = true →
    Scalar.isFinite a = true ∧ Scalar.isFinite b = true

end SecantDescent
