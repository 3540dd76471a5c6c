import SecantDescent.Json.Lexer
import SecantDescent.Json.Printer

/-!
# Strings in JSON texts

A string is read back from its characters: the ones that are escaped by the escape, all
others by themselves.
-/

namespace SecantDescent.Json

/-- One more piece in front of the pieces that are taken off a text. -/
def withPiece (piece : Piece) (taken : List Piece × List Char) : List Piece × List Char :=
  (piece :: taken.1, taken.2)

/-! ## The parts of a string -/

theorem bind_withPiece (piece : Piece) (cs : List Char) :
    ((takePieces cs).bind fun taken => some (piece :: taken.1, taken.2)) =
      (takePieces cs).map (withPiece piece) := by
  cases takePieces cs <;> rfl

theorem takePieces_simple {c : Char} {cs : List Char}
    (hc : ∀ a b c' d rest, c = 'u' → cs = a :: b :: c' :: d :: rest → False) :
    takePieces ('\\' :: c :: cs) =
      (simpleEscape c).bind fun escaped =>
        (takePieces cs).map (withPiece (.char escaped)) := by
  rw [takePieces.eq_4 c cs hc]
  refine Option.bind_congr fun escaped _ => ?_
  exact bind_withPiece _ _

theorem takePieces_unit {a b c d : Char} {x y z t : Nat} (ha : hexValue a = some x)
    (hb : hexValue b = some y)
    (hc : hexValue c = some z) (hd : hexValue d = some t) (cs : List Char) :
    takePieces ('\\' :: 'u' :: a :: b :: c :: d :: cs) =
      (takePieces cs).map (withPiece (pieceOfUnit (x * 4096 + y * 256 + z * 16 + t))) := by
  rw [takePieces, ha, hb, hc, hd]
  exact bind_withPiece _ _

/-- An escape without four hexadecimal digits is no escape. -/
theorem takePieces_unit_none {cs : List Char}
    (hcs : ∀ a b c d rest, cs = a :: b :: c :: d :: rest →
      hexValue a = none ∨ hexValue b = none ∨ hexValue c = none ∨ hexValue d = none) :
    takePieces ('\\' :: 'u' :: cs) = none := by
  rcases cs with _ | ⟨a, _ | ⟨b, _ | ⟨c, _ | ⟨d, rest⟩⟩⟩⟩
  · rfl
  · rfl
  · rfl
  · rfl
  · obtain h | h | h | h := hcs a b c d rest rfl <;> simp [takePieces, h]

theorem takePieces_char {c : Char} (hquote : c ≠ '"') (hslash : c ≠ '\\')
    (hcontrol : ¬c.toNat < 0x20)
    (cs : List Char) : takePieces (c :: cs) = (takePieces cs).map (withPiece (.char c)) := by
  rw [takePieces]
  · rw [if_neg (by simp [hcontrol, hslash])]
    exact bind_withPiece _ _
  · exact hquote
  · exact fun _ _ _ _ _ hc => absurd hc hslash
  · exact fun _ _ hc => absurd hc hslash

theorem takePieces_control {c : Char} (hcontrol : c.toNat < 0x20) (cs : List Char) :
    takePieces (c :: cs) = none := by
  have hne {c' : Char} (hc' : ¬c'.toNat < 0x20) : c ≠ c' := fun heq => hc' (heq ▸ hcontrol)
  rw [takePieces]
  · rw [if_pos (by simp [hcontrol])]
  · exact hne (by decide)
  · exact fun _ _ _ _ _ hc => absurd hc (hne (by decide))
  · exact fun _ _ hc => absurd hc (hne (by decide))

/-! ## Escapes -/

theorem hexValue_digitChar : ∀ n < 16, hexValue (Nat.digitChar n) = some n := by
  decide

theorem hexValue_hexDigit (n : Nat) : hexValue (hexDigit n) = some (n % 16) :=
  hexValue_digitChar _ (Nat.mod_lt _ (by decide))

theorem pieceOfUnit_toNat {c : Char} (hcontrol : c.toNat < 0x20) :
    pieceOfUnit c.toNat = .char c := by
  unfold pieceOfUnit
  rw [if_neg (by omega), if_neg (by omega), Char.ofNat_toNat]

theorem takePieces_controlEscape {c : Char} (hcontrol : c.toNat < 0x20) (cs : List Char) :
    takePieces
      ('\\' :: 'u' :: '0' :: '0' :: hexDigit (c.toNat / 16) :: hexDigit c.toNat :: cs) =
      (takePieces cs).map (withPiece (.char c)) := by
  have hzero : hexValue '0' = some 0 := rfl
  rw [takePieces_unit hzero hzero (hexValue_hexDigit _) (hexValue_hexDigit _)]
  have hunit : 0 * 4096 + 0 * 256 + c.toNat / 16 % 16 * 16 + c.toNat % 16 = c.toNat := by omega
  rw [hunit, pieceOfUnit_toNat hcontrol]

theorem takePieces_simpleEscape {letter escaped : Char} (hletter : letter ≠ 'u')
    (hescape : simpleEscape letter = some escaped) (cs : List Char) :
    takePieces ('\\' :: letter :: cs) = (takePieces cs).map (withPiece (.char escaped)) := by
  rw [takePieces_simple fun _ _ _ _ _ hu => absurd hu hletter, hescape, Option.bind_some]

theorem escapeChar_of_plain {c : Char}
    (hplain :
      ¬(c = '"' ∨ c = '\\' ∨ c = '\n' ∨ c = '\t' ∨ c = '\r' ∨ c = '\x08' ∨ c = '\x0c')) :
    escapeChar c =
      if c.toNat < 0x20 then
        ['\\', 'u', '0', '0', hexDigit (c.toNat / 16), hexDigit c.toNat]
      else [c] := by
  simp only [not_or] at hplain
  obtain ⟨hquote, hslash, hfeed, htab, hreturn, hback, hform⟩ := hplain
  unfold escapeChar
  rw [if_neg hquote, if_neg hslash, if_neg hfeed, if_neg htab, if_neg hreturn,
    if_neg hback, if_neg hform]

/-- A character is read back from what is written for it in a string. -/
theorem takePieces_escapeChar (c : Char) (cs : List Char) :
    takePieces (escapeChar c ++ cs) = (takePieces cs).map (withPiece (.char c)) := by
  by_cases hplain : c = '"' ∨ c = '\\' ∨ c = '\n' ∨ c = '\t' ∨ c = '\r' ∨ c = '\x08' ∨
    c = '\x0c'
  · obtain rfl | rfl | rfl | rfl | rfl | rfl | rfl := hplain <;>
      exact takePieces_simpleEscape (by decide) rfl cs
  · rw [escapeChar_of_plain hplain]
    split
    · next hcontrol => exact takePieces_controlEscape hcontrol cs
    · next hcontrol =>
        exact takePieces_char (fun hquote => hplain (.inl hquote))
          (fun hslash => hplain (.inr (.inl hslash))) hcontrol cs

theorem takePieces_flatMap (text rest : List Char) :
    takePieces (text.flatMap escapeChar ++ '"' :: rest) = some (text.map .char, rest) := by
  induction text with
  | nil => rfl
  | cons c text ih =>
      rw [List.flatMap_cons, List.append_assoc, takePieces_escapeChar, ih]
      rfl

theorem joinPieces_chars (text : List Char) : joinPieces (text.map .char) = some text := by
  induction text with
  | nil => rfl
  | cons c text ih =>
      rw [List.map_cons, joinPieces, ih]
      rfl

end SecantDescent.Json
