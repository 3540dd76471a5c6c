import Mathlib.Data.List.TakeWhile
import SecantDescent.Json.Parser
import SecantDescent.Proofs.Json.Strings
import SecantDescent.Proofs.Json.Tokens

/-!
# Blanks around a text

Blanks in front of a text and after it make no difference, also when the text is none of
a value: a blank ends every token, and no token can be completed by blanks.
-/

namespace SecantDescent.Json

/-- The text is blank. -/
def Blank (w : List Char) : Prop :=
  ∀ c ∈ w, isBlank c = true

/-- What a reader takes off a text is not changed by what follows. -/
def andThen {α : Type} (w : List Char) (taken : α × List Char) : α × List Char :=
  (taken.1, taken.2 ++ w)

section Append

variable {w : List Char}

@[simp]
theorem andThen_fst {α : Type} (taken : α × List Char) : (andThen w taken).1 = taken.1 :=
  rfl

@[simp]
theorem andThen_snd {α : Type} (taken : α × List Char) : (andThen w taken).2 = taken.2 ++ w :=
  rfl

theorem isBlank_cases {c : Char} (hc : isBlank c = true) :
    c = ' ' ∨ c = '\t' ∨ c = '\n' ∨ c = '\r' := by
  simpa [isBlank, or_assoc] using hc

theorem Blank.head (hw : Blank w) {p : Char → Prop} (hspace : p ' ') (htab : p '\t')
    (hfeed : p '\n') (hreturn : p '\r') : ∀ c ∈ w.head?, p c := by
  intro c hc
  obtain rfl | rfl | rfl | rfl := isBlank_cases (hw c (List.mem_of_mem_head? hc)) <;>
    assumption

theorem takeDigits_append_blank (hw : Blank w) (cs : List Char) :
    takeDigits (cs ++ w) = andThen w (takeDigits cs) := by
  have hhead := hw.head (p := fun c => c.isDigit = false) rfl rfl rfl rfl
  induction cs with
  | nil => exact takeDigits_append (List.forall_mem_nil _) hhead
  | cons c cs ih =>
      unfold takeDigits at ih ⊢
      by_cases hc : c.isDigit = true
      · rw [List.cons_append, List.takeWhile_cons_of_pos hc, List.dropWhile_cons_of_pos hc,
          List.takeWhile_cons_of_pos hc, List.dropWhile_cons_of_pos hc]
        rw [andThen, Prod.mk.injEq] at ih ⊢
        exact ⟨congrArg (c :: ·) ih.1, ih.2⟩
      · rw [List.cons_append, List.takeWhile_cons_of_neg hc, List.dropWhile_cons_of_neg hc,
          List.takeWhile_cons_of_neg hc, List.dropWhile_cons_of_neg hc]
        rfl

theorem takeFraction_append_blank (hw : Blank w) (cs : List Char) :
    takeFraction (cs ++ w) = (takeFraction cs).map (andThen w) := by
  cases cs with
  | nil => exact takeFraction_of_ne (hw.head (by decide) (by decide) (by decide) (by decide))
  | cons c cs =>
      by_cases hpoint : c = '.'
      · rw [hpoint, List.cons_append, takeFraction_cons, takeFraction_cons,
          takeDigits_append_blank hw]
        rw [andThen_fst]
        split <;> rfl
      · have hhead (rest : List Char) : ∀ c' ∈ (c :: rest).head?, c' ≠ '.' := fun c' hc' => by
          cases hc'
          exact hpoint
        rw [List.cons_append, takeFraction_of_ne (hhead _), takeFraction_of_ne (hhead _)]
        rfl

theorem takeSign_append_blank (hw : Blank w) (cs : List Char) :
    takeSign (cs ++ w) = andThen w (takeSign cs) := by
  cases cs with
  | nil =>
      cases w with
      | nil => rfl
      | cons c w =>
          obtain rfl | rfl | rfl | rfl := isBlank_cases (hw c List.mem_cons_self) <;> rfl
  | cons c cs =>
      unfold takeSign
      split
      · next heq => cases heq; rfl
      · next heq => cases heq; rfl
      · next hminus hplus =>
          split
          · next heq => cases heq; exact absurd rfl (hminus _)
          · next heq => cases heq; exact absurd rfl (hplus _)
          · rfl

theorem takeExponent_append_blank (hw : Blank w) (cs : List Char) :
    takeExponent (cs ++ w) = (takeExponent cs).map (andThen w) := by
  cases cs with
  | nil => exact takeExponent_of_ne (hw.head (by decide) (by decide) (by decide) (by decide))
  | cons c cs =>
      by_cases hletter : c = 'e' ∨ c = 'E'
      · rw [List.cons_append, takeExponent_cons hletter, takeExponent_cons hletter,
          takeSign_append_blank hw]
        simp only [andThen_fst, andThen_snd, takeDigits_append_blank hw]
        split <;> rfl
      · have hhead (rest : List Char) : ∀ c' ∈ (c :: rest).head?, c' ≠ 'e' ∧ c' ≠ 'E' :=
          fun c' hc' => by
          cases hc'
          exact not_or.mp hletter
        rw [List.cons_append, takeExponent_of_ne (hhead _), takeExponent_of_ne (hhead _)]
        rfl

theorem takeMagnitude_append_blank (hw : Blank w) (negative : Bool) (cs : List Char) :
    takeMagnitude negative (cs ++ w) = (takeMagnitude negative cs).map (andThen w) := by
  simp only [takeMagnitude_eq, takeDigits_append_blank hw, andThen_fst, andThen_snd,
    takeFraction_append_blank hw]
  split
  · cases takeFraction (takeDigits cs).2 with
    | none => rfl
    | some fraction =>
        simp only [Option.map_some, Option.bind_some, andThen_fst, andThen_snd,
          takeExponent_append_blank hw]
        cases takeExponent fraction.2 <;> rfl
  · rfl

theorem takePieces_of_blank (hw : Blank w) : takePieces w = none := by
  induction w with
  | nil => rfl
  | cons c w ih =>
      have hrest := ih fun c' hc' => hw c' (List.mem_cons_of_mem c hc')
      obtain rfl | rfl | rfl | rfl := isBlank_cases (hw c List.mem_cons_self)
      · change (takePieces w).bind _ = none
        rw [hrest, Option.bind_none]
      · rfl
      · rfl
      · rfl

theorem hexValue_of_blank {c : Char} (hc : isBlank c = true) : hexValue c = none := by
  obtain rfl | rfl | rfl | rfl := isBlank_cases hc <;> rfl

theorem simpleEscape_of_blank {c : Char} (hc : isBlank c = true) : simpleEscape c = none := by
  obtain rfl | rfl | rfl | rfl := isBlank_cases hc <;> rfl

/-- An escape whose hexadecimal digits are cut short by blanks is no escape. -/
theorem takePieces_unit_append_blank (hw : Blank w) {cs : List Char} (hcs : cs.length < 4) :
    takePieces ('\\' :: 'u' :: (cs ++ w)) = none := by
  have hblank {c : Char} {rest : List Char} (hc : w = c :: rest) : hexValue c = none :=
    hexValue_of_blank (hw c (hc ▸ List.mem_cons_self))
  refine takePieces_unit_none fun a b c d rest heq => ?_
  rcases cs with _ | ⟨x, _ | ⟨y, _ | ⟨z, _ | ⟨t, cs⟩⟩⟩⟩
  · exact .inl (hblank heq)
  · exact .inr (.inl (hblank (List.cons.inj heq).2))
  · exact .inr (.inr (.inl (hblank (List.cons.inj (List.cons.inj heq).2).2)))
  · exact .inr (.inr (.inr (hblank (List.cons.inj (List.cons.inj (List.cons.inj heq).2).2).2)))
  · simp only [List.length_cons] at hcs
    omega

theorem map_withPiece (piece : Piece) (taken : Option (List Piece × List Char)) :
    (taken.map (andThen w)).map (withPiece piece) =
      (taken.map (withPiece piece)).map (andThen w) := by
  cases taken <;> rfl

theorem takePieces_unit_append (a b c d : Char) {cs : List Char}
    (hrest : takePieces (cs ++ w) = (takePieces cs).map (andThen w)) :
    takePieces ('\\' :: 'u' :: a :: b :: c :: d :: (cs ++ w)) =
      (takePieces ('\\' :: 'u' :: a :: b :: c :: d :: cs)).map (andThen w) := by
  by_cases hnone : hexValue a = none ∨ hexValue b = none ∨ hexValue c = none ∨
    hexValue d = none
  · have hfails (rest : List Char) :
      takePieces ('\\' :: 'u' :: a :: b :: c :: d :: rest) = none :=
      takePieces_unit_none fun _ _ _ _ _ heq => by cases heq; exact hnone
    rw [hfails, hfails]
    rfl
  · simp only [not_or, ← ne_eq, Option.ne_none_iff_exists'] at hnone
    obtain ⟨⟨x, ha⟩, ⟨y, hb⟩, ⟨z, hc⟩, ⟨t, hd⟩⟩ := hnone
    rw [takePieces_unit ha hb hc hd, takePieces_unit ha hb hc hd, hrest, map_withPiece]

theorem takePieces_backslash_of_blank (hw : Blank w) : takePieces ('\\' :: w) = none := by
  cases w with
  | nil => rfl
  | cons b w =>
      have hb := hw b List.mem_cons_self
      have hu : b ≠ 'u' := fun heq => by
        rw [heq] at hb
        cases hb
      rw [takePieces_simple fun _ _ _ _ _ heq => absurd heq hu, simpleEscape_of_blank hb,
        Option.bind_none]

theorem takePieces_append_blank (hw : Blank w) (cs : List Char) :
    takePieces (cs ++ w) = (takePieces cs).map (andThen w) := by
  induction cs using takePieces.induct with
  | case1 => exact takePieces_of_blank hw
  | case2 cs => rfl
  | case3 a b c d cs ih => exact takePieces_unit_append a b c d ih
  | case4 c cs hc ih =>
      change takePieces ('\\' :: c :: (cs ++ w)) = _
      by_cases hu : c = 'u'
      · subst hu
        have hshort : cs.length < 4 := by
          rcases cs with _ | ⟨x, _ | ⟨y, _ | ⟨z, _ | ⟨t, cs⟩⟩⟩⟩
          · simp
          · simp
          · simp
          · simp
          · exact (hc x y z t cs rfl rfl).elim
        rw [takePieces_unit_append_blank hw hshort, takePieces_simple hc]
        rfl
      · have hne (rest : List Char) (a b c' d : Char) (after : List Char) (heq : c = 'u')
            (_ : rest = a :: b :: c' :: d :: after) : False := hu heq
        rw [takePieces_simple (hne _), takePieces_simple (hne _), ih]
        cases simpleEscape c with
        | none => rfl
        | some escaped => exact map_withPiece _ _
  | case5 c cs hquote hunit hsimple hstop =>
      change takePieces (c :: (cs ++ w)) = _
      by_cases hcontrol : c.toNat < 0x20
      · rw [takePieces_control hcontrol, takePieces_control hcontrol]
        rfl
      · obtain rfl : c = '\\' := by simpa [hcontrol] using hstop
        obtain rfl : cs = [] := by
          cases cs with
          | nil => rfl
          | cons c' cs => exact (hsimple c' cs rfl rfl).elim
        exact takePieces_backslash_of_blank hw
  | case6 c cs hquote hunit hsimple hplain ih =>
      have hne : ¬c.toNat < 0x20 ∧ c ≠ '\\' := by simpa using hplain
      change takePieces (c :: (cs ++ w)) = _
      rw [takePieces_char hquote hne.2 hne.1, takePieces_char hquote hne.2 hne.1, ih,
        map_withPiece]

/-! ## Tokens -/

/-- A word without blanks at the head of a text with blanks after it is at the head of
the text. -/
theorem not_prefix_append_blank (hw : Blank w) {cs : List Char} (word : List Char)
    (hword : word.all fun c => !isBlank c) (hcs : ∀ rest, cs = word ++ rest → False)
    (rest : List Char) (heq : cs ++ w = word ++ rest) : False := by
  obtain ⟨tail, hsplit, htail⟩ | ⟨cs', hcs', -⟩ := List.append_eq_append_iff.mp heq
  · cases tail with
    | nil => exact hcs [] (by rw [hsplit, List.append_nil, List.append_nil])
    | cons c tail =>
        have hblank := hw c (htail ▸ List.mem_cons_self)
        have hsolid := List.all_eq_true.mp hword c
          (hsplit ▸ List.mem_append_right cs List.mem_cons_self)
        rw [hblank] at hsolid
        cases hsolid
  · exact hcs cs' hcs'

theorem takeToken_append_blank (hw : Blank w) (cs : List Char) :
    takeToken (cs ++ w) = (takeToken cs).map (andThen w) := by
  cases cs using takeToken.fun_cases
  case case10 cs =>
    change (takePieces (cs ++ w)).map _ = ((takePieces cs).map _).map _
    rw [takePieces_append_blank hw]
    cases takePieces cs <;> rfl
  case case11 cs =>
    change (takeMagnitude true (cs ++ w)).map _ = ((takeMagnitude true cs).map _).map _
    rw [takeMagnitude_append_blank hw]
    cases takeMagnitude true cs <;> rfl
  case case12 hopenArray hcloseArray hopenObject hcloseObject hcomma hcolon hnull htrue
      hfalse hquote hminus =>
    rw [takeToken.eq_12 cs hopenArray hcloseArray hopenObject hcloseObject hcomma hcolon
        hnull htrue hfalse hquote hminus,
      takeToken.eq_12 (cs ++ w) (not_prefix_append_blank hw ['['] rfl hopenArray)
        (not_prefix_append_blank hw [']'] rfl hcloseArray)
        (not_prefix_append_blank hw ['\x7b'] rfl hopenObject)
        (not_prefix_append_blank hw ['\x7d'] rfl hcloseObject)
        (not_prefix_append_blank hw [','] rfl hcomma)
        (not_prefix_append_blank hw [':'] rfl hcolon)
        (not_prefix_append_blank hw ['n', 'u', 'l', 'l'] rfl hnull)
        (not_prefix_append_blank hw ['t', 'r', 'u', 'e'] rfl htrue)
        (not_prefix_append_blank hw ['f', 'a', 'l', 's', 'e'] rfl hfalse)
        (not_prefix_append_blank hw ['"'] rfl hquote)
        (not_prefix_append_blank hw ['-'] rfl hminus),
      takeMagnitude_append_blank hw]
    cases takeMagnitude false cs <;> rfl
  all_goals rfl

theorem dropWhile_append_blank (hw : Blank w) (cs : List Char) :
    (cs ++ w).dropWhile isBlank =
      if (cs.dropWhile isBlank).isEmpty then [] else cs.dropWhile isBlank ++ w := by
  rw [List.dropWhile_append, List.dropWhile_eq_nil_iff.mpr hw]

/-- Blanks after a text change none of its tokens. -/
theorem tokens_append_blank (hw : Blank w) (cs : List Char) :
    tokens (cs ++ w) = tokens cs := by
  induction hlength : cs.length using Nat.strongRecOn generalizing cs with
  | ind length ih =>
      have hdrop := dropWhile_append_blank hw cs
      have hshorter := dropWhile_length cs
      cases hcs : cs.dropWhile isBlank with
      | nil =>
          rw [hcs] at hdrop
          rw [tokens_of_blank hdrop, tokens_of_blank hcs]
      | cons c cs' =>
          rw [hcs] at hdrop hshorter
          have hcs' : (cs ++ w).dropWhile isBlank = c :: (cs' ++ w) := hdrop
          rw [tokens_eq hcs', tokens_eq hcs, ← List.cons_append, takeToken_append_blank hw]
          cases htoken : takeToken (c :: cs') with
          | none => rfl
          | some taken =>
              have htaken := takeToken_length htoken
              rw [Option.map_some, Option.bind_some, Option.bind_some, andThen_fst,
                andThen_snd, ih taken.2.length (by omega) taken.2 rfl]

/-- Blanks in front of a text change none of its tokens. -/
theorem tokens_blank_append (hw : Blank w) (cs : List Char) :
    tokens (w ++ cs) = tokens cs := by
  have hdrop : (w ++ cs).dropWhile isBlank = cs.dropWhile isBlank :=
    List.dropWhile_append_of_pos hw
  cases hcs : cs.dropWhile isBlank with
  | nil => rw [tokens_of_blank hcs, tokens_of_blank (hdrop.trans hcs)]
  | cons c cs' => rw [tokens_eq hcs, tokens_eq (hdrop.trans hcs)]

end Append

/-- Blanks around a text do not change the value that it is read as. -/
theorem parse?_surrounded {before after : String} (hbefore : Blank before.toList)
    (hafter : Blank after.toList)
    (source : String) : parse? (before ++ source ++ after) = parse? source := by
  unfold parse?
  rw [String.toList_append, String.toList_append, tokens_append_blank hafter,
    tokens_blank_append hbefore]

end SecantDescent.Json
