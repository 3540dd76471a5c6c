import SecantDescent.Dense.Sum

/-!
# Matrices

A `Grid` is a matrix whose shape is part of its type, so that its products are
total; a `DenseMatrix` carries its shape as data, which is what a callable
returns before anyone has looked at it.  `DenseMatrix.toGrid?` is the passage
between the two.
-/

namespace SecantDescent

/-- A matrix of `rows` rows and `cols` columns, as the vector of its rows. -/
abbrev Grid (α : Type) (rows cols : Nat) :=
  Vector (Vector α cols) rows

namespace Grid

variable {α : Type} {rows cols : Nat}

def ofFn (entry : Fin rows → Fin cols → α) : Grid α rows cols :=
  Vector.ofFn fun i => Vector.ofFn fun j => entry i j

def entry (A : Grid α rows cols) (i : Fin rows) (j : Fin cols) : α :=
  A[i][j]

def column (A : Grid α rows cols) (j : Fin cols) : Vector α rows :=
  Vector.map (fun row => row[j]) A

def transpose (A : Grid α rows cols) : Grid α cols rows :=
  ofFn fun j i => A.entry i j

def mapEntries {β : Type} (f : α → β) (A : Grid α rows cols) : Grid β rows cols :=
  Vector.map (fun row => row.map f) A

variable [Scalar α]

def identity (n : Nat) : Grid α n n :=
  ofFn fun i j => if i = j then 1 else 0

def outer (u : Vector α rows) (v : Vector α cols) : Grid α rows cols :=
  ofFn fun i j => u[i] * v[j]

def mulVec (A : Grid α rows cols) (x : Vector α cols) : Vector α rows :=
  Vector.map (fun row => Dense.chainSum (Dense.products row x)) A

def vecMul (x : Vector α rows) (A : Grid α rows cols) : Vector α cols :=
  Vector.ofFn fun j => Dense.chainSum (Dense.products x (A.column j))

/-- The Frobenius norm: the root of the sum of the squares of all entries,
taken column by column. -/
def frobenius (A : Grid α rows cols) : α :=
  Scalar.sqrt <|
    (List.finRange cols).foldl
      (fun total j => total + Dense.dot (A.column j) (A.column j)) 0

def allFinite (A : Grid α rows cols) : Bool :=
  Vector.all A fun row => Scalar.allFinite row.toList

end Grid

structure DenseMatrix (α : Type) where
  rows : Nat
  cols : Nat
  grid : Grid α rows cols

namespace DenseMatrix

variable {α : Type}

/-- Forgets the shape of a matrix in its type and keeps it as data. -/
def ofGrid {rows cols : Nat} (A : Grid α rows cols) : DenseMatrix α :=
  ⟨rows, cols, A⟩

/-- The matrix read as one of the given shape, when it has that shape. -/
def toGrid? (A : DenseMatrix α) (rows cols : Nat) : Option (Grid α rows cols) :=
  if h : A.rows = rows ∧ A.cols = cols then
    some (h.1 ▸ h.2 ▸ A.grid)
  else
    none

/-- The matrix with the given rows, which have to be of one length.  Without
any row there are no columns either. -/
def ofRows? (lines : Array (Array α)) : Option (DenseMatrix α) :=
  let cols := (lines[0]?.map Array.size).getD 0
  if h : ∀ line ∈ lines, line.size = cols then
    some
      { rows := lines.size
        cols
        grid := Vector.ofFn fun i => ⟨lines[i], h _ (Array.getElem_mem i.isLt)⟩ }
  else
    none

def toRows (A : DenseMatrix α) : Array (Array α) :=
  A.grid.toArray.map Vector.toArray

def allFinite [Scalar α] (A : DenseMatrix α) : Bool :=
  A.grid.allFinite

/-- Holds when the two matrices have different shapes or differ in some entry,
as numbers. -/
def differs [Scalar α] (A B : DenseMatrix α) : Bool :=
  match B.toGrid? A.rows A.cols with
  | none => true
  | some entries =>
      !(A.grid.toArray.zipWith (fun left right =>
        (left.toArray.zipWith (· == ·) right.toArray).all id) entries.toArray).all id

@[simp] theorem toGrid?_ofGrid {rows cols : Nat} (A : Grid α rows cols) :
    (ofGrid A).toGrid? rows cols = some A := by
  simp [toGrid?, ofGrid]

theorem ofGrid_inj {rows cols : Nat} {A B : Grid α rows cols} :
    ofGrid A = ofGrid B ↔ A = B := by
  constructor
  · intro h
    have hread := toGrid?_ofGrid A
    rw [h, toGrid?_ofGrid] at hread
    exact (Option.some.inj hread).symm
  · rintro rfl
    rfl

theorem toGrid?_eq_some_iff {A : DenseMatrix α} {rows cols : Nat}
    {B : Grid α rows cols} :
    A.toGrid? rows cols = some B ↔ A = ofGrid B := by
  constructor
  · intro h
    unfold toGrid? at h
    split at h
    next hshape =>
      obtain ⟨r, c, entries⟩ := A
      obtain ⟨rfl, rfl⟩ := hshape
      simp only [Option.some.injEq] at h
      subst h
      rfl
    next => contradiction
  · rintro rfl
    exact toGrid?_ofGrid B

theorem toGrid?_eq_none_iff {A : DenseMatrix α} {rows cols : Nat} :
    A.toGrid? rows cols = none ↔ ¬ (A.rows = rows ∧ A.cols = cols) := by
  unfold toGrid?
  split
  next hshape => exact iff_of_false (Option.some_ne_none _) (not_not_intro hshape)
  next hshape => exact iff_of_true rfl hshape

theorem exists_eq_ofGrid {A : DenseMatrix α} {n : Nat} (hrows : A.rows = n)
    (hcols : A.cols = n) : ∃ B : Grid α n n, A = .ofGrid B := by
  obtain ⟨rows, cols, grid⟩ := A
  obtain rfl : rows = n := hrows
  obtain rfl : cols = rows := hcols
  exact ⟨grid, rfl⟩

end DenseMatrix

end SecantDescent
