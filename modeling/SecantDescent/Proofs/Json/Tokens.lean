import SecantDescent.Proofs.Json.Numbers

/-!
# The tokens of a text

Every token takes a character at least, so the limit on the number of tokens is never
reached and the tokens of a text are given by a recursion on the text.
-/

namespace SecantDescent.Json

/-! ## What a token takes -/

theorem takeDigits_length (cs : List Char) :
    (takeDigits cs).1.length + (takeDigits cs).2.length = cs.length := by
  rw [← List.length_append]
  exact congrArg List.length List.takeWhile_append_dropWhile

theorem takeFraction_length {cs rest digits : List Char}
    (htake : takeFraction cs = some (digits, rest)) :
    rest.length ≤ cs.length := by
  cases cs with
  | nil => cases htake; exact Nat.le_refl _
  | cons c cs =>
      by_cases hpoint : c = '.'
      · rw [hpoint, takeFraction_cons] at htake
        split at htake
        · cases htake
        · have hlength := takeDigits_length cs
          rw [Option.some_inj.mp htake] at hlength
          dsimp only at hlength
          rw [List.length_cons]
          omega
      · rw [takeFraction_of_ne fun c' hc' => by cases hc'; exact hpoint] at htake
        cases htake
        exact Nat.le_refl _

theorem takeSign_length (cs : List Char) : (takeSign cs).2.length ≤ cs.length := by
  fun_cases takeSign cs <;> simp

theorem takeExponent_length {cs rest : List Char} {exponent : Option Int}
    (htake : takeExponent cs = some (exponent, rest)) : rest.length ≤ cs.length := by
  cases cs with
  | nil => cases htake; exact Nat.le_refl _
  | cons c cs =>
      by_cases hletter : c = 'e' ∨ c = 'E'
      · rw [takeExponent_cons hletter] at htake
        split at htake
        · cases htake
        · have hsign := takeSign_length cs
          have hdigits := takeDigits_length (takeSign cs).2
          rw [(Prod.mk.inj (Option.some_inj.mp htake)).2] at hdigits
          rw [List.length_cons]
          omega
      · rw [takeExponent_of_ne fun c' hc' => by cases hc'; exact not_or.mp hletter] at htake
        cases htake
        exact Nat.le_refl _

theorem takeMagnitude_length {negative : Bool} {cs rest : List Char} {literal : NumberLiteral}
    (htake : takeMagnitude negative cs = some (literal, rest)) : rest.length < cs.length := by
  rw [takeMagnitude_eq] at htake
  split at htake
  · next hwhole =>
      obtain ⟨⟨fraction, afterFraction⟩, hfraction, htail⟩ := Option.bind_eq_some_iff.mp htake
      obtain ⟨exponent, hexponent, hrest⟩ := Option.map_eq_some_iff.mp htail
      obtain rfl : exponent.2 = rest := (Prod.mk.inj hrest).2
      have hlast : exponent.2.length ≤ afterFraction.length := takeExponent_length hexponent
      have hmiddle : afterFraction.length ≤ (takeDigits cs).2.length :=
        takeFraction_length hfraction
      have hfirst := takeDigits_length cs
      have hpos := List.length_pos_iff.mpr hwhole.1
      omega
  · cases htake

theorem takePieces_length {cs rest : List Char} {pieces : List Piece}
    (htake : takePieces cs = some (pieces, rest)) : rest.length < cs.length := by
  fun_induction takePieces cs generalizing pieces rest with
  | case1 => cases htake
  | case2 rest => cases htake; exact Nat.lt_succ_self _
  | case3 a b c d cs ih =>
      simp only [Option.bind_eq_bind, Option.bind_eq_some_iff] at htake
      obtain ⟨_, -, _, -, _, -, _, -, ⟨inner, afterInner⟩, hinner, hrest⟩ := htake
      cases hrest
      have := ih hinner
      simp only [List.length_cons]
      omega
  | case4 c cs hc ih =>
      simp only [Option.bind_eq_bind, Option.bind_eq_some_iff] at htake
      obtain ⟨_, -, ⟨inner, afterInner⟩, hinner, hrest⟩ := htake
      cases hrest
      have := ih hinner
      simp only [List.length_cons]
      omega
  | case5 => cases htake
  | case6 c cs _ _ _ _ ih =>
      simp only [Option.bind_eq_bind, Option.bind_eq_some_iff] at htake
      obtain ⟨⟨inner, afterInner⟩, hinner, hrest⟩ := htake
      cases hrest
      have := ih hinner
      simp only [List.length_cons]
      omega

theorem takeToken_length {cs rest : List Char} {token : Token}
    (htake : takeToken cs = some (token, rest)) : rest.length < cs.length := by
  fun_cases takeToken cs
  all_goals simp only [takeToken] at htake
  case case10 cs =>
    obtain ⟨pieces, hpieces, hrest⟩ := Option.map_eq_some_iff.mp htake
    cases hrest
    exact Nat.lt_succ_of_lt (takePieces_length hpieces)
  case case11 cs =>
    obtain ⟨number, hnumber, hrest⟩ := Option.map_eq_some_iff.mp htake
    cases hrest
    exact Nat.lt_succ_of_lt (takeMagnitude_length hnumber)
  case case12 =>
    obtain ⟨number, hnumber, hrest⟩ := Option.map_eq_some_iff.mp htake
    cases hrest
    exact takeMagnitude_length hnumber
  all_goals
    cases htake
    simp only [List.length_cons]
    omega

/-! ## The tokens without a limit -/

theorem takeTokens_of_blank {cs : List Char} (limit : Nat)
    (hblank : cs.dropWhile isBlank = []) :
    takeTokens limit cs = some [] := by
  unfold takeTokens
  rw [hblank]

theorem takeTokens_succ {cs cs' : List Char} {c : Char} (limit : Nat)
    (hcs : cs.dropWhile isBlank = c :: cs') :
    takeTokens (limit + 1) cs =
      (takeToken (c :: cs')).bind fun taken =>
        (takeTokens limit taken.2).map (taken.1 :: ·) := by
  rw [takeTokens, hcs]
  change ((takeToken (c :: cs')).bind fun taken =>
    (takeTokens limit taken.2).bind fun others => some (taken.1 :: others)) = _
  refine Option.bind_congr fun taken _ => ?_
  cases takeTokens limit taken.2 <;> rfl

theorem dropWhile_length (cs : List Char) : (cs.dropWhile isBlank).length ≤ cs.length :=
  (List.dropWhile_suffix _).length_le

/-- A limit that is not below the length of the text does not matter. -/
theorem takeTokens_of_le {limit limit' : Nat} {cs : List Char} (hlimit : cs.length ≤ limit)
    (hlimit' : cs.length ≤ limit') : takeTokens limit cs = takeTokens limit' cs := by
  induction limit generalizing limit' cs with
  | zero =>
      obtain rfl := List.eq_nil_of_length_eq_zero (Nat.le_zero.mp hlimit)
      rw [takeTokens_of_blank 0 rfl, takeTokens_of_blank limit' rfl]
  | succ limit ih =>
      have hdrop := dropWhile_length cs
      cases hcs : cs.dropWhile isBlank with
      | nil => rw [takeTokens_of_blank _ hcs, takeTokens_of_blank _ hcs]
      | cons c cs' =>
          rw [hcs, List.length_cons] at hdrop
          obtain ⟨limit', rfl⟩ := Nat.exists_eq_succ_of_ne_zero (by omega : limit' ≠ 0)
          rw [takeTokens_succ limit hcs, takeTokens_succ limit' hcs]
          refine Option.bind_congr fun taken htaken => ?_
          have hlength := takeToken_length htaken
          rw [List.length_cons] at hlength
          have hsame : takeTokens limit taken.2 = takeTokens limit' taken.2 :=
            ih (by omega) (by omega)
          rw [hsame]

theorem tokens_of_blank {cs : List Char} (hblank : cs.dropWhile isBlank = []) :
    tokens cs = some [] :=
  takeTokens_of_blank _ hblank

/-- The tokens of a text are its first token and the tokens of the rest. -/
theorem tokens_eq {cs cs' : List Char} {c : Char} (hcs : cs.dropWhile isBlank = c :: cs') :
    tokens cs = (takeToken (c :: cs')).bind fun taken =>
      (tokens taken.2).map (taken.1 :: ·) := by
  have hdrop := dropWhile_length cs
  rw [hcs, List.length_cons] at hdrop
  unfold tokens
  rw [takeTokens_of_le (Nat.le_refl _) (Nat.le_succ _), takeTokens_succ _ hcs]
  refine Option.bind_congr fun taken htaken => ?_
  have hlength := takeToken_length htaken
  rw [List.length_cons] at hlength
  rw [takeTokens_of_le (by omega) (Nat.le_refl _)]

end SecantDescent.Json
