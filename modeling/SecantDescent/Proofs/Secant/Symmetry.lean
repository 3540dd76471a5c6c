import SecantDescent.Proofs.Secant.Refresh

/-!
# Symmetric matrices

The terms of the update of rank two are rounded differently on the two sides of
the diagonal.  Averaging with the transpose makes the two sides equal again, bit
for bit, because a floating-point addition does not depend on the order of its
operands; this is all that is used here of the arithmetic.
-/

namespace SecantDescent

/-! ## Addition commutes -/

section

open Float.Model (Format UnpackedFloat)

theorem unpacked_add_comm (format : Format) (a b : UnpackedFloat) :
    UnpackedFloat.add format a b = UnpackedFloat.add format b a := by
  cases a with
  | notANumber => cases b <;> rfl
  | infinity sign =>
      cases b with
      | infinity sign' => cases sign <;> cases sign' <;> rfl
      | _ => rfl
  | zero sign =>
      cases b with
      | zero sign' => cases sign <;> cases sign' <;> rfl
      | _ => rfl
  | finite sign mantissa exponent =>
      cases b with
      | finite sign' mantissa' exponent' =>
          -- Both mantissas are shifted to the smaller exponent and then added as integers.
          change UnpackedFloat.normalize _ _ _ _ = UnpackedFloat.normalize _ _ _ _
          rw [Int.min_comm exponent exponent', Int.add_comm]
      | _ => rfl

instance float_add_commutative : Std.Commutative fun a b : Float => a + b where
  comm a b := by
    change Float.ofModel (.pack _) = Float.ofModel (.pack _)
    rw [unpacked_add_comm]

instance float32_add_commutative : Std.Commutative fun a b : Float32 => a + b where
  comm a b := by
    change Float32.ofModel (.pack _) = Float32.ofModel (.pack _)
    rw [unpacked_add_comm]

end

/-! ## Matrices -/

variable {α : Type} {n : Nat}

inductive DenseMatrix.Symmetric : DenseMatrix α → Prop
  | ofGrid {n : Nat} {B : Grid α n n} (mirrored : ∀ i j, B.entry i j = B.entry j i) :
      Symmetric (.ofGrid B)

namespace Grid

variable {rows cols : Nat}

@[simp] theorem entry_ofFn (entry : Fin rows → Fin cols → α) (i : Fin rows) (j : Fin cols) :
    (ofFn entry).entry i j = entry i j := by
  simp [Grid.entry, ofFn]

@[simp] theorem entry_transpose (B : Grid α rows cols) (i : Fin cols) (j : Fin rows) :
    B.transpose.entry i j = B.entry j i :=
  entry_ofFn _ i j

@[simp] theorem entry_mapEntries {β : Type} (f : α → β) (B : Grid α rows cols) (i : Fin rows)
    (j : Fin cols) : (B.mapEntries f).entry i j = f (B.entry i j) := by
  simp [Grid.entry, mapEntries]

@[simp] theorem entry_add [Add α] (A B : Grid α rows cols) (i : Fin rows) (j : Fin cols) :
    (A + B).entry i j = A.entry i j + B.entry i j := by
  simp [Grid.entry]

end Grid

namespace SecantRule

variable [Scalar α] [Std.Commutative fun a b : α => a + b]

theorem entry_symmetrized_comm (B : Grid α n n) (i j : Fin n) :
    (symmetrized B).entry i j = (symmetrized B).entry j i := by
  have hsum : B.entry i j + B.entry j i = B.entry j i + B.entry i j :=
    Std.Commutative.comm (B.entry i j) (B.entry j i)
  simp [symmetrized, hsum]

theorem symmetric_of_bfgsUpdate {tolerance : α} {B B' : Grid α n n} {s y : Vector α n}
    (h : bfgsUpdate tolerance B s y = .ok B') : (DenseMatrix.ofGrid B').Symmetric := by
  obtain ⟨-, -, -, rfl⟩ := bfgsUpdate_eq_ok_iff.mp h
  exact .ofGrid (entry_symmetrized_comm _)

/-- A matrix that is made anew is symmetric, whatever the matrix before was. -/
theorem symmetric_of_bfgs_refresh {safeguard : Safeguard α} {held B : DenseMatrix α}
    {pair : SecantPair α} (h : bfgs.refresh safeguard held pair = .ok (.updated B)) :
    B.Symmetric := by
  unfold refresh at h
  split at h
  · cases h
  · simp only [checkStep] at h
    split at h
    · rcases settle_eq_ok h with ⟨B', hupdate, hB⟩ | ⟨degeneracy, -, -, hskipped⟩
      · cases hB
        exact symmetric_of_bfgsUpdate hupdate
      · cases hskipped
    · cases h

end SecantRule

end SecantDescent
