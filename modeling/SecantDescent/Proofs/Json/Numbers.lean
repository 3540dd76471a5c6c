import SecantDescent.Json.Lexer
import SecantDescent.Json.Printer

/-!
# Numbers in JSON texts

The two ways of writing a number are read back: digits alone as the whole number that
they spell, and digits with an exponent as the same digits at the same power of ten.
-/

namespace SecantDescent.Json

/-! ## Digits -/

theorem ofDigits_eq_ofDigitChars (digits : List Char) :
    ofDigits digits = Nat.ofDigitChars 10 digits 0 := by
  unfold ofDigits
  simp only [Nat.ofDigitChars_eq_foldl, Nat.mul_comm]

theorem ofDigits_toDigits (n : Nat) : ofDigits (Nat.toDigits 10 n) = n := by
  rw [ofDigits_eq_ofDigitChars, Nat.ofDigitChars_ten_toDigits]

theorem isDigit_of_mem {c : Char} {n : Nat} (hc : c ∈ Nat.toDigits 10 n) : c.isDigit = true :=
  Nat.isDigit_of_mem_toDigits (by decide) (by decide) hc

/-- No number but zero begins with the digit zero. -/
theorem eq_zero_of_head {n : Nat} (hhead : (Nat.toDigits 10 n).head? = some '0') : n = 0 := by
  induction n using Nat.strongRecOn with
  | ind n ih =>
      rw [Nat.toDigits_eq_if (by decide)] at hhead
      split at hhead
      · rw [List.head?_singleton, Option.some_inj, Nat.digitChar_eq_zero] at hhead
        exact hhead
      · next hlarge =>
          rw [List.head?_append,
            Option.or_of_isSome (List.isSome_head?.mpr Nat.toDigits_ne_nil)] at hhead
          have := ih (n / 10) (by omega) hhead
          omega

theorem toDigits_zero_length {n : Nat} (hhead : (Nat.toDigits 10 n).head? = some '0') :
    (Nat.toDigits 10 n).length = 1 := by
  rw [eq_zero_of_head hhead]
  rfl

/-! ## The parts of a number -/

theorem takeFraction_cons (cs : List Char) :
    takeFraction ('.' :: cs) = if (takeDigits cs).1.isEmpty then none
      else some (takeDigits cs) :=
  rfl

theorem takeFraction_of_ne {cs : List Char} (hhead : ∀ c ∈ cs.head?, c ≠ '.') :
    takeFraction cs = some ([], cs) := by
  cases cs with
  | nil => rfl
  | cons c cs =>
      have hc := hhead c rfl
      unfold takeFraction
      split
      · next heq => exact absurd (List.cons.inj heq).1 hc
      · rfl

theorem takeExponent_cons {c : Char} (hc : c = 'e' ∨ c = 'E') (cs : List Char) :
    takeExponent (c :: cs) =
      if (takeDigits (takeSign cs).2).1.isEmpty then none
      else some
        (some (if (takeSign cs).1 then -(ofDigits (takeDigits (takeSign cs).2).1 : Int)
          else ofDigits (takeDigits (takeSign cs).2).1), (takeDigits (takeSign cs).2).2) := by
  obtain rfl | rfl := hc <;> rfl

theorem takeExponent_of_ne {cs : List Char} (hhead : ∀ c ∈ cs.head?, c ≠ 'e' ∧ c ≠ 'E') :
    takeExponent cs = some (none, cs) := by
  cases cs with
  | nil => rfl
  | cons c cs =>
      obtain ⟨hlower, hupper⟩ := hhead c rfl
      have hnone : ¬(c == 'e' || c == 'E') = true := by simp [hlower, hupper]
      exact if_neg hnone

/-- The digits before the point: at least one, and no zero in front of others. -/
def WholeDigits (digits : List Char) : Prop :=
  digits ≠ [] ∧ (digits.head? = some '0' → digits.length = 1)

instance instDecidableWholeDigits (digits : List Char) : Decidable (WholeDigits digits) :=
  inferInstanceAs (Decidable (digits ≠ [] ∧ (digits.head? = some '0' → digits.length = 1)))

/-- The literal that the parts of a number make up. -/
def literalOf (negative : Bool) (whole fraction : List Char) (exponent : Option Int) :
    NumberLiteral :=
  if fraction.isEmpty && exponent.isNone then .whole negative (ofDigits whole)
  else .scaled negative (ofDigits (whole ++ fraction)) (exponent.getD 0 - fraction.length)

/-- A number is read part by part. -/
theorem takeMagnitude_eq (negative : Bool) (cs : List Char) :
    takeMagnitude negative cs =
      if WholeDigits (takeDigits cs).1 then
        (takeFraction (takeDigits cs).2).bind fun fraction =>
          (takeExponent fraction.2).map fun exponent =>
            (literalOf negative (takeDigits cs).1 fraction.1 exponent.1, exponent.2)
      else none := by
  unfold takeMagnitude
  obtain ⟨whole, afterWhole⟩ := takeDigits cs
  have hguard : (whole.isEmpty || (whole.head? == some '0' && whole.length != 1)) = true ↔
      ¬WholeDigits whole := by
    unfold WholeDigits
    cases whole <;> simp
  dsimp only
  by_cases hwhole : WholeDigits whole
  · rw [if_pos hwhole, if_neg (mt hguard.mp (not_not_intro hwhole))]
    cases takeFraction afterWhole with
    | none => rfl
    | some fraction =>
        change ((takeExponent fraction.2).bind fun exponent => _) = _
        rw [Option.bind_some]
        cases takeExponent fraction.2 with
        | none => rfl
        | some exponent =>
            rw [Option.bind_some, Option.map_some]
            unfold literalOf
            split <;> rfl
  · rw [if_neg hwhole, if_pos (hguard.mpr hwhole)]

/-! ## What follows a number -/

/-- A text that does not go on with a digit, a point or an exponent. -/
def Delimited (rest : List Char) : Prop :=
  ∀ c ∈ rest.head?, c.isDigit = false ∧ c ≠ '.' ∧ c ≠ 'e' ∧ c ≠ 'E'

theorem delimited_nil : Delimited [] := by
  intro c hc
  cases hc

theorem delimited_cons {c : Char} {rest : List Char}
    (hc : c.isDigit = false ∧ c ≠ '.' ∧ c ≠ 'e' ∧ c ≠ 'E') : Delimited (c :: rest) := by
  intro c' hc'
  cases hc'
  exact hc

theorem takeDigits_append {digits rest : List Char} (hdigits : ∀ c ∈ digits, c.isDigit = true)
    (hrest : ∀ c ∈ rest.head?, c.isDigit = false) :
    takeDigits (digits ++ rest) = (digits, rest) := by
  have htake : rest.takeWhile Char.isDigit = [] := by
    cases rest with
    | nil => rfl
    | cons c rest => rw [List.takeWhile_cons_of_neg (by rw [hrest c rfl]; decide)]
  have hdrop : rest.dropWhile Char.isDigit = rest := by
    cases rest with
    | nil => rfl
    | cons c rest => rw [List.dropWhile_cons_of_neg (by rw [hrest c rfl]; decide)]
  unfold takeDigits
  rw [List.takeWhile_append_of_pos hdigits, List.dropWhile_append_of_pos hdigits, htake, hdrop,
    List.append_nil]

/-! ## Literals -/

theorem takeMagnitude_of_parts {negative : Bool} {exponent : Option Int}
    {cs whole afterWhole fraction afterFraction rest : List Char}
    (htake : takeDigits cs = (whole, afterWhole)) (hwhole : WholeDigits whole)
    (hfraction : takeFraction afterWhole = some (fraction, afterFraction))
    (hexponent : takeExponent afterFraction = some (exponent, rest)) :
    takeMagnitude negative cs = some (literalOf negative whole fraction exponent, rest) := by
  rw [takeMagnitude_eq, htake, if_pos hwhole, hfraction, Option.bind_some, hexponent,
    Option.map_some]

theorem wholeDigits_toDigits (n : Nat) : WholeDigits (Nat.toDigits 10 n) :=
  ⟨Nat.toDigits_ne_nil, toDigits_zero_length⟩

theorem wholeDigits_singleton (c : Char) : WholeDigits [c] :=
  ⟨List.cons_ne_nil _ _, fun _ => rfl⟩

theorem takeMagnitude_whole (negative : Bool) (n : Nat) {rest : List Char}
    (hrest : Delimited rest) :
    takeMagnitude negative (Nat.toDigits 10 n ++ rest) = some (.whole negative n, rest) := by
  have htake := takeDigits_append (fun c => isDigit_of_mem (n := n)) fun c hc => (hrest c hc).1
  rw [takeMagnitude_of_parts htake (wholeDigits_toDigits n)
    (takeFraction_of_ne fun c hc => (hrest c hc).2.1)
    (takeExponent_of_ne fun c hc => (hrest c hc).2.2)]
  change some (NumberLiteral.whole negative (ofDigits (Nat.toDigits 10 n)), rest) = _
  rw [ofDigits_toDigits]

theorem takeSign_of_digit {c : Char} (hc : c.isDigit = true) (rest : List Char) :
    takeSign (c :: rest) = (false, c :: rest) := by
  unfold takeSign
  split
  · next heq =>
      rw [(List.cons.inj heq).1] at hc
      cases hc
  · next heq =>
      rw [(List.cons.inj heq).1] at hc
      cases hc
  · rfl

theorem takeSign_toDigits (n : Nat) (rest : List Char) :
    takeSign (Nat.toDigits 10 n ++ rest) = (false, Nat.toDigits 10 n ++ rest) := by
  cases hdigits : Nat.toDigits 10 n with
  | nil => exact absurd hdigits Nat.toDigits_ne_nil
  | cons c digits =>
      exact takeSign_of_digit (isDigit_of_mem (hdigits ▸ List.mem_cons_self)) (digits ++ rest)

/-- An exponent is read back with its sign. -/
theorem takeExponent_toString (exponent : Int) {rest : List Char} (hrest : Delimited rest) :
    takeExponent ('e' :: ((toString exponent).toList ++ rest)) =
      some (some exponent, rest) := by
  have hdigits (n : Nat) :
      takeDigits (Nat.toDigits 10 n ++ rest) = (Nat.toDigits 10 n, rest) :=
    takeDigits_append (fun c => isDigit_of_mem) fun c hc => (hrest c hc).1
  have hne (n : Nat) : ¬(Nat.toDigits 10 n).isEmpty = true := by simp
  rw [Int.toString_eq_repr, Int.repr_eq_if]
  split
  · next hsign =>
      rw [Nat.toList_repr, takeExponent_cons (.inl rfl), takeSign_toDigits, hdigits,
        if_neg (hne _), if_neg Bool.false_ne_true, ofDigits_toDigits,
        Int.toNat_of_nonneg hsign]
  · next hsign =>
      have hchars : ("-" ++ (-exponent).toNat.repr).toList ++ rest =
          '-' :: (Nat.toDigits 10 (-exponent).toNat ++ rest) := by
        rw [String.toList_append, Nat.toList_repr]
        rfl
      have hminus (cs : List Char) : takeSign ('-' :: cs) = (true, cs) := rfl
      rw [hchars, takeExponent_cons (.inl rfl), hminus, hdigits, if_neg (hne _), if_pos rfl,
        ofDigits_toDigits, Int.toNat_of_nonneg (by omega), Int.neg_neg]

theorem takeFraction_point {digits rest : List Char} (hdigits : ∀ c ∈ digits, c.isDigit = true)
    (hne : digits ≠ []) (hrest : ∀ c ∈ rest.head?, c.isDigit = false) :
    takeFraction ('.' :: (digits ++ rest)) = some (digits, rest) := by
  rw [takeFraction_cons, takeDigits_append hdigits hrest, if_neg (by simpa using hne)]

theorem takeMagnitude_scaled (negative : Bool) {digits : Nat} {first : Char}
    {others : List Char}
    (hdigits : Nat.toDigits 10 digits = first :: others) (exponent : Int) {rest : List Char}
    (hrest : Delimited rest) :
    takeMagnitude negative (first :: ((if others.isEmpty then [] else '.' :: others) ++
        'e' :: ((toString (exponent + others.length)).toList ++ rest))) =
      some (.scaled negative digits exponent, rest) := by
  have hall (c : Char) (hc : c ∈ first :: others) : c.isDigit = true :=
    isDigit_of_mem (hdigits ▸ hc)
  have hone (c : Char) (hc : c ∈ [first]) : c.isDigit = true :=
    hall c (List.mem_singleton.mp hc ▸ List.mem_cons_self)
  have hvalue := ofDigits_toDigits digits
  have hexponent := takeExponent_toString (exponent + others.length) hrest
  generalize (toString (exponent + others.length)).toList ++ rest = tail at hexponent ⊢
  rw [hdigits] at hvalue
  cases others with
  | nil =>
      have hwhole : takeDigits (first :: 'e' :: tail) = ([first], 'e' :: tail) :=
        takeDigits_append hone fun c hc => by cases hc; rfl
      have hfraction : takeFraction ('e' :: tail) = some ([], 'e' :: tail) := rfl
      refine (takeMagnitude_of_parts hwhole (wholeDigits_singleton first) hfraction
        hexponent).trans ?_
      change some (NumberLiteral.scaled negative (ofDigits [first])
        (exponent + (0 : Nat) - (0 : Nat)), rest) = _
      rw [hvalue, Int.add_sub_cancel]
  | cons second others =>
      have hwhole : takeDigits (first :: '.' :: (second :: others ++ 'e' :: tail)) =
          ([first], '.' :: (second :: others ++ 'e' :: tail)) :=
        takeDigits_append hone fun c hc => by cases hc; rfl
      have hfraction : takeFraction ('.' :: (second :: others ++ 'e' :: tail)) =
          some (second :: others, 'e' :: tail) :=
        takeFraction_point (fun c hc => hall c (List.mem_cons_of_mem _ hc))
          (List.cons_ne_nil _ _) fun c hc => by cases hc; rfl
      refine (takeMagnitude_of_parts hwhole (wholeDigits_singleton first) hfraction
        hexponent).trans ?_
      change some (NumberLiteral.scaled negative (ofDigits (first :: second :: others))
        (exponent + (second :: others).length - (second :: others).length), rest) = _
      rw [hvalue, Int.add_sub_cancel]

theorem scientificChars_eq (negative : Bool) {digits : Nat} {first : Char} {others : List Char}
    (hdigits : Nat.toDigits 10 digits = first :: others) (exponent : Int) :
    (Decimal.mk negative digits exponent).scientificChars =
      (if negative then ['-'] else []) ++ first ::
        ((if others.isEmpty then [] else '.' :: others) ++
        'e' :: (toString (exponent + others.length)).toList) := by
  unfold Decimal.scientificChars Decimal.digitText
  simp only [hdigits, List.append_assoc, List.cons_append]
  rfl

/-- Every literal is read back from the characters that are written for it. -/
theorem takeMagnitude_chars (literal : NumberLiteral) {rest : List Char}
    (hrest : Delimited rest) :
    ∃ (negative : Bool) (chars : List Char),
      literal.chars = (if negative then ['-'] else []) ++ chars ∧
      (∀ c ∈ chars.head?, c.isDigit = true) ∧ chars ≠ [] ∧
      takeMagnitude negative (chars ++ rest) = some (literal, rest) := by
  cases literal with
  | whole negative n =>
      refine ⟨negative, Nat.toDigits 10 n, rfl,
        fun c hc => isDigit_of_mem (List.mem_of_mem_head? hc),
        Nat.toDigits_ne_nil, takeMagnitude_whole negative n hrest⟩
  | scaled negative digits exponent =>
      cases hdigits : Nat.toDigits 10 digits with
      | nil => exact absurd hdigits Nat.toDigits_ne_nil
      | cons first others =>
          refine ⟨negative, first :: ((if others.isEmpty then [] else '.' :: others) ++
              'e' :: (toString (exponent + others.length)).toList),
            ?_, ?_, List.cons_ne_nil _ _, ?_⟩
          · exact scientificChars_eq negative hdigits exponent
          · intro c hc
            cases hc
            exact isDigit_of_mem (hdigits ▸ List.mem_cons_self)
          · have hread := takeMagnitude_scaled negative hdigits exponent hrest
            simpa only [List.cons_append, List.append_assoc] using hread

end SecantDescent.Json
