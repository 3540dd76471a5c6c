import SecantDescent.Scalar

/-!
# Sums of products

Rounding makes the value of a sum depend on the order of its additions, so the
order is part of the definition.  Two orders are in use.  `laneSum` runs eight
totals side by side over the full blocks of eight terms, joins them in pairs,
and adds the terms that are left one by one; dot products and norms are lane
sums.  `chainSum` adds one term after the other and starts from the first term
instead of zero; products with a matrix are chain sums.  In exact arithmetic
both are the sum of the list.
-/

namespace SecantDescent.Dense

variable {α : Type} [Scalar α]

/-- Joins eight running totals: each total of the first half with its partner
in the second half, and these four sums in order. -/
def joinLanes (lanes : Vector α 8) : α :=
  (0 : α) + (lanes[0] + lanes[4]) + (lanes[1] + lanes[5]) + (lanes[2] + lanes[6]) +
    (lanes[3] + lanes[7])

/-- Adds the terms of a list to eight running totals, block by block, and the
terms after the last full block to the joined totals. -/
def laneSumFrom (lanes : Vector α 8) : List α → α
  | a :: b :: c :: d :: e :: f :: g :: h :: rest =>
      laneSumFrom (lanes + #v[a, b, c, d, e, f, g, h]) rest
  | rest => rest.foldl (· + ·) (joinLanes lanes)

def laneSum (terms : List α) : α :=
  laneSumFrom (Vector.replicate 8 0) terms

/-- The sum of a list term by term, beginning with the first term; zero for
the empty list. -/
def chainSum : List α → α
  | [] => 0
  | first :: rest => rest.foldl (fun total term => term + total) first

variable {n : Nat}

def products (xs ys : Vector α n) : List α :=
  (xs.zipWith (· * ·) ys).toList

def dot (xs ys : Vector α n) : α :=
  laneSum (products xs ys)

def dot? (xs ys : Array α) : Option α :=
  if h : ys.size = xs.size then some (dot xs.toVector ⟨ys, h⟩) else none

def difference? (xs ys : Array α) : Option (Array α) :=
  if xs.size = ys.size then some (xs.zipWith (· - ·) ys) else none

def norm (xs : Vector α n) : α :=
  Scalar.sqrt (dot xs xs)

end SecantDescent.Dense
