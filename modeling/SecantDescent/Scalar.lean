/-!
# Scalars

The numbers a minimisation computes with.  Every algorithm of the library is
written once, over the operations collected here, and is then run on binary
floating-point numbers of two widths; the operations carry no laws, because
rounding breaks most of them.  Comparisons are decided, and false as soon as
one side is not a number.
-/

namespace SecantDescent

/-- The arithmetic that points, gradients and Hessians are computed with.

`==` is numerical equality, for which the two zeros are equal and a value that
is not a number differs from itself. -/
class Scalar (α : Type) extends
    Zero α, One α, Add α, Sub α, Mul α, Div α, Neg α, LT α, LE α, BEq α where
  abs : α → α
  sqrt : α → α
  isNaN : α → Bool
  isFinite : α → Bool
  notANumber : α
  decideLT : ∀ a b : α, Decidable (a < b)
  decideLE : ∀ a b : α, Decidable (a ≤ b)

attribute [reducible, instance] Scalar.decideLT Scalar.decideLE

namespace Scalar

variable {α : Type} [Scalar α]

def two : α := 1 + 1

def half : α := 1 / two

/-- The larger of two values; a value that is not a number yields to the other
one. -/
def larger (a b : α) : α :=
  if isNaN a then b else if a < b then b else a

/-- The largest magnitude in a list, and zero for the empty list.  This is the
norm that convergence is expressed in; entries that are not numbers do not
contribute to it. -/
def largestMagnitude (xs : List α) : α :=
  xs.foldl (fun best x => larger best (abs x)) 0

def allFinite (xs : List α) : Bool :=
  xs.all isFinite

end Scalar

/-- The constants a minimisation falls back on when its caller leaves them
open. -/
class Precision (α : Type) where
  epsilon : α
  gradientTolerance : α
  degeneracyTolerance : α
  stepLength : α
  differenceStep : α

/-! ## Binary floating-point numbers -/

instance : Scalar Float where
  zero := 0.0
  one := 1.0
  abs := Float.abs
  sqrt := Float.sqrt
  isNaN := Float.isNaN
  isFinite := Float.isFinite
  notANumber := 0.0 / 0.0
  decideLT := Float.decLt
  decideLE := Float.decLe

instance : Scalar Float32 where
  zero := 0.0
  one := 1.0
  abs := Float32.abs
  sqrt := Float32.sqrt
  isNaN := Float32.isNaN
  isFinite := Float32.isFinite
  notANumber := 0.0 / 0.0
  decideLT := Float32.decLt
  decideLE := Float32.decLe

instance : Precision Float where
  epsilon := 2.220446049250313e-16
  gradientTolerance := 1e-5
  degeneracyTolerance := 1.5e-8
  stepLength := 1.0
  differenceStep := 6.0554544523933395e-6

instance : Precision Float32 where
  epsilon := 1.1920929e-7
  gradientTolerance := 1e-5
  degeneracyTolerance := 3.5e-4
  stepLength := 1.0
  differenceStep := 4.9215667e-3

end SecantDescent
