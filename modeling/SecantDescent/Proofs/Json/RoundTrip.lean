import SecantDescent.Proofs.Json.Blanks

/-!
# Reading what is written

The compact text of a value is cut into the tokens that the value is made of, and these
tokens are put together to the value again.  Strings without a text are the exception,
since they are written as a replacement.
-/

namespace SecantDescent.Json

open Reader

/-! ## Values that are texts throughout -/

mutual

/-- All strings and all names of the value have a text. -/
def textual : Json → Bool
  | string text => text.isSome
  | array items => textualItems items
  | object members => textualMembers members
  | _ => true

def textualItems : List Json → Bool
  | [] => true
  | item :: rest => textual item && textualItems rest

def textualMembers : List (Option String × Json) → Bool
  | [] => true
  | (name, value) :: rest => name.isSome && (textual value && textualMembers rest)

end

/-! ## The tokens of a value -/

mutual

/-- The tokens that the compact form of a value consists of. -/
def tokensOf : Json → List Token
  | null => [.null]
  | bool value => [.bool value]
  | number literal => [.number literal]
  | string text => [.string text]
  | array items => .openArray :: itemTokens items ++ [.closeArray]
  | object members => .openObject :: memberTokens members ++ [.closeObject]

def itemTokens : List Json → List Token
  | [] => []
  | [item] => tokensOf item
  | item :: rest => tokensOf item ++ .comma :: itemTokens rest

def memberTokens : List (Option String × Json) → List Token
  | [] => []
  | [(name, value)] => .string name :: .colon :: tokensOf value
  | (name, value) :: rest =>
      .string name :: .colon :: tokensOf value ++ .comma :: memberTokens rest

end

/-! ## Cutting the text -/

theorem tokens_nil : tokens [] = some [] :=
  rfl

theorem tokens_append {word rest : List Char} {token : Token} {others : List Token}
    (hne : word ≠ [])
    (hsolid : ∀ c ∈ word.head?, isBlank c = false)
    (htake : takeToken (word ++ rest) = some (token, rest))
    (hrest : tokens rest = some others) : tokens (word ++ rest) = some (token :: others) := by
  cases word with
  | nil => exact absurd rfl hne
  | cons c word =>
      have hdrop : (c :: word ++ rest).dropWhile isBlank = c :: (word ++ rest) :=
        List.dropWhile_cons_of_neg (by rw [hsolid c rfl]; decide)
      rw [tokens_eq hdrop, ← List.cons_append, htake, Option.bind_some, hrest]
      rfl

theorem takeToken_of_digit {c : Char} (hc : c.isDigit = true) (cs : List Char) :
    takeToken (c :: cs) =
      (takeMagnitude false (c :: cs)).map fun taken => (.number taken.1, taken.2) := by
  have hne {c' : Char} {rest : List Char} (hc' : c'.isDigit = false)
      (heq : c :: cs = c' :: rest) : False := by
    rw [(List.cons.inj heq).1, hc'] at hc
    cases hc
  exact takeToken.eq_12 (c :: cs) (fun _ => hne rfl) (fun _ => hne rfl) (fun _ => hne rfl)
    (fun _ => hne rfl) (fun _ => hne rfl) (fun _ => hne rfl) (fun _ => hne rfl)
    (fun _ => hne rfl) (fun _ => hne rfl) (fun _ => hne rfl) (fun _ => hne rfl)

theorem not_isBlank_of_digit {c : Char} (hc : c.isDigit = true) : isBlank c = false := by
  cases hblank : isBlank c with
  | false => rfl
  | true => obtain rfl | rfl | rfl | rfl := isBlank_cases hblank <;> cases hc

theorem tokens_number (literal : NumberLiteral) {rest : List Char} {others : List Token}
    (hrest : Delimited rest) (hothers : tokens rest = some others) :
    tokens (literal.chars ++ rest) = some (.number literal :: others) := by
  obtain ⟨negative, digits, hchars, hhead, hne, htake⟩ := takeMagnitude_chars literal hrest
  rw [hchars]
  cases digits with
  | nil => exact absurd rfl hne
  | cons c digits =>
      have hc := hhead c rfl
      cases negative with
      | false =>
          refine tokens_append hne
            (fun c' hc' => by cases hc'; exact not_isBlank_of_digit hc) ?_ hothers
          change takeToken (c :: (digits ++ rest)) = _
          rw [takeToken_of_digit hc, ← List.cons_append, htake]
          rfl
      | true =>
          refine tokens_append (List.cons_ne_nil _ _)
            (fun c' hc' => by cases hc'; rfl) ?_ hothers
          change (takeMagnitude true (c :: digits ++ rest)).map _ = _
          rw [htake]
          rfl

theorem tokens_string (text : String) {rest : List Char} {others : List Token}
    (hothers : tokens rest = some others) :
    tokens (stringChars (some text) ++ rest) = some (.string (some text) :: others) := by
  refine tokens_append (List.cons_ne_nil _ _) (fun c hc => by cases hc; rfl) ?_ hothers
  have hpieces := takePieces_flatMap text.toList rest
  change (takePieces (text.toList.flatMap escapeChar ++ ['"'] ++ rest)).map _ = _
  rw [List.append_assoc, List.singleton_append, hpieces, Option.map_some]
  dsimp only
  rw [joinPieces_chars, Option.map_some, String.ofList_toList]

theorem delimited_comma (rest : List Char) : Delimited (',' :: rest) :=
  delimited_cons (by decide)

theorem delimited_closeArray (rest : List Char) : Delimited (']' :: rest) :=
  delimited_cons (by decide)

theorem delimited_closeObject (rest : List Char) : Delimited ('\x7d' :: rest) :=
  delimited_cons (by decide)

theorem tokens_sign {c : Char} {token : Token} (hsolid : isBlank c = false)
    (htake : ∀ rest, takeToken (c :: rest) = some (token, rest)) {rest : List Char}
    {others : List Token} (hothers : tokens rest = some others) :
    tokens (c :: rest) = some (token :: others) :=
  tokens_append (List.cons_ne_nil c [])
    (fun c' hc' => by cases hc'; exact hsolid) (htake rest) hothers

mutual

/-- The text of a value is cut into the tokens of the value. -/
theorem tokens_chars :
    ∀ (value : Json), textual value = true → ∀ {rest : List Char} {others : List Token},
    Delimited rest → tokens rest = some others →
    tokens (chars value ++ rest) = some (tokensOf value ++ others)
  | null, _, _, _, _, hothers =>
      tokens_append (List.cons_ne_nil 'n' ['u', 'l', 'l'])
        (fun c hc => by cases hc; rfl) rfl hothers
  | bool true, _, _, _, _, hothers =>
      tokens_append (List.cons_ne_nil 't' ['r', 'u', 'e'])
        (fun c hc => by cases hc; rfl) rfl hothers
  | bool false, _, _, _, _, hothers =>
      tokens_append (List.cons_ne_nil 'f' ['a', 'l', 's', 'e'])
        (fun c hc => by cases hc; rfl) rfl hothers
  | number literal, _, _, _, hrest, hothers => tokens_number literal hrest hothers
  | string (some text), _, _, _, _, hothers => tokens_string text hothers
  | string none, htextual, _, _, _, _ => by cases htextual
  | array items, htextual, rest, others, _, hothers => by
      have hclose : tokens (']' :: rest) = some (.closeArray :: others) :=
        tokens_sign rfl (fun _ => rfl) hothers
      have hitems := tokens_itemChars items htextual (delimited_closeArray rest) hclose
      have hopen : tokens ('[' :: (itemChars items ++ ']' :: rest)) =
          some (.openArray :: (itemTokens items ++ .closeArray :: others)) :=
        tokens_sign rfl (fun _ => rfl) hitems
      simpa only [chars, tokensOf, List.cons_append, List.append_assoc, List.nil_append]
        using hopen
  | object members, htextual, rest, others, _, hothers => by
      have hclose : tokens ('\x7d' :: rest) = some (.closeObject :: others) :=
        tokens_sign rfl (fun _ => rfl) hothers
      have hmembers := tokens_memberChars members htextual (delimited_closeObject rest) hclose
      have hopen : tokens ('\x7b' :: (memberChars members ++ '\x7d' :: rest)) =
          some (.openObject :: (memberTokens members ++ .closeObject :: others)) :=
        tokens_sign rfl (fun _ => rfl) hmembers
      simpa only [chars, tokensOf, List.cons_append, List.append_assoc, List.nil_append]
        using hopen

theorem tokens_itemChars : ∀ (items : List Json), textualItems items = true →
    ∀ {rest : List Char} {others : List Token}, Delimited rest → tokens rest = some others →
    tokens (itemChars items ++ rest) = some (itemTokens items ++ others)
  | [], _, _, _, _, hothers => hothers
  | [item], htextual, _, _, hrest, hothers =>
      tokens_chars item ((Bool.and_eq_true _ _).mp htextual).1 hrest hothers
  | item :: next :: items, htextual, rest, others, hrest, hothers => by
      obtain ⟨hitem, hnext⟩ := (Bool.and_eq_true _ _).mp htextual
      have hitems := tokens_itemChars (next :: items) hnext hrest hothers
      have hcomma : tokens (',' :: (itemChars (next :: items) ++ rest)) =
          some (.comma :: (itemTokens (next :: items) ++ others)) :=
        tokens_sign rfl (fun _ => rfl) hitems
      have hall := tokens_chars item hitem (delimited_comma _) hcomma
      rw [itemChars, itemTokens, List.append_assoc, List.append_assoc]
      · exact hall
      · exact List.cons_ne_nil _ _
      · exact List.cons_ne_nil _ _

theorem tokens_memberChars :
    ∀ (members : List (Option String × Json)), textualMembers members = true →
    ∀ {rest : List Char} {others : List Token}, Delimited rest → tokens rest = some others →
    tokens (memberChars members ++ rest) = some (memberTokens members ++ others)
  | [], _, _, _, _, hothers => hothers
  | [(some name, value)], htextual, rest, others, hrest, hothers => by
      obtain ⟨hvalue, -⟩ := (Bool.and_eq_true _ _).mp ((Bool.and_eq_true _ _).mp htextual).2
      have hread := tokens_chars value hvalue hrest hothers
      have hcolon : tokens (':' :: (chars value ++ rest)) =
          some (.colon :: (tokensOf value ++ others)) :=
        tokens_sign rfl (fun _ => rfl) hread
      have hname := tokens_string name hcolon
      rw [memberChars, memberTokens, List.append_assoc]
      exact hname
  | (some name, value) :: next :: members, htextual, rest, others, hrest, hothers => by
      obtain ⟨hvalue, hnext⟩ :=
        (Bool.and_eq_true _ _).mp ((Bool.and_eq_true _ _).mp htextual).2
      have hmembers := tokens_memberChars (next :: members) hnext hrest hothers
      have hcomma : tokens (',' :: (memberChars (next :: members) ++ rest)) =
          some (.comma :: (memberTokens (next :: members) ++ others)) :=
        tokens_sign rfl (fun _ => rfl) hmembers
      have hread := tokens_chars value hvalue (delimited_comma _) hcomma
      have hcolon :
          tokens (':' :: (chars value ++ ',' :: (memberChars (next :: members) ++ rest))) =
            some (.colon ::
              (tokensOf value ++ .comma :: (memberTokens (next :: members) ++ others))) :=
        tokens_sign rfl (fun _ => rfl) hread
      have hname := tokens_string name hcolon
      rw [memberChars, memberTokens]
      · simpa only [List.append_assoc, List.cons_append] using hname
      · exact List.cons_ne_nil _ _
      · exact List.cons_ne_nil _ _
  | (none, value) :: members, htextual, _, _, _, _ => by cases htextual

end

/-! ## Putting the tokens together -/

/-- The reader waits for a value inside the open containers, unless an array ends first. -/
def AwaitsValue (reader : Reader) (stack : List Frame) : Prop :=
  ∀ token, token ≠ .closeArray → reader.step token = begin stack token

/-- The reader waits for the name of the next member of an object. -/
def AwaitsName (reader : Reader) (members : List (Option String × Json))
    (stack : List Frame) : Prop :=
  ∀ name, reader.step (.string name) = some (.needColon members name stack)

theorem awaitsValue_needValue (stack : List Frame) : AwaitsValue (.needValue stack) stack :=
  fun _ _ => rfl

theorem awaitsValue_firstItem (stack : List Frame) :
    AwaitsValue (.firstItem stack) (.array [] :: stack) := by
  intro token hne
  cases token <;> first | rfl | exact absurd rfl hne

theorem awaitsName_firstName (stack : List Frame) : AwaitsName (.firstName stack) [] stack :=
  fun _ => rfl

theorem awaitsName_needName (members : List (Option String × Json)) (stack : List Frame) :
    AwaitsName (.needName members stack) members stack :=
  fun _ => rfl

/-- What the reader makes of the tokens to come, once it has a value. -/
def resume (value : Json) (stack : List Frame) (others : List Token) : Option Reader :=
  (settle value stack).bind fun reader => others.foldlM step reader

theorem foldlM_step {reader : Reader} {token : Token} {others : List Token}
    {next : Option Reader} (hstep : reader.step token = next) :
    (token :: others).foldlM step reader = next.bind fun reader =>
      others.foldlM step reader := by
  rw [List.foldlM_cons, hstep]
  rfl

mutual

/-- A reader that waits for a value takes the tokens of a value for that value. -/
theorem foldlM_tokensOf :
    ∀ (value : Json) {reader : Reader} {stack : List Frame} (others : List Token),
    AwaitsValue reader stack →
    (tokensOf value ++ others).foldlM step reader = resume value stack others
  | null, _, _, _, hawaits => foldlM_step (hawaits _ (by decide))
  | bool value, _, _, _, hawaits =>
      foldlM_step (hawaits (.bool value) (fun heq => by cases heq))
  | number literal, _, _, _, hawaits =>
      foldlM_step (hawaits (.number literal) (fun heq => by cases heq))
  | string text, _, _, _, hawaits =>
      foldlM_step (hawaits (.string text) (fun heq => by cases heq))
  | array [], _, _, _, hawaits =>
      (foldlM_step (hawaits .openArray (by decide))).trans (foldlM_step rfl)
  | array (item :: items), _, stack, others, hawaits => by
      have hitems := foldlM_itemTokens (item :: items) others (List.cons_ne_nil _ _)
        (awaitsValue_firstItem stack)
      rw [tokensOf, List.append_assoc]
      exact (foldlM_step (hawaits .openArray (by decide))).trans hitems
  | object [], _, _, _, hawaits =>
      (foldlM_step (hawaits .openObject (by decide))).trans (foldlM_step rfl)
  | object (member :: members), _, stack, others, hawaits => by
      have hmembers := foldlM_memberTokens (member :: members) others (List.cons_ne_nil _ _)
        (awaitsName_firstName stack)
      rw [tokensOf, List.append_assoc]
      exact (foldlM_step (hawaits .openObject (by decide))).trans hmembers

theorem foldlM_itemTokens : ∀ (items : List Json) {reader : Reader} {before : List Json}
    {stack : List Frame} (others : List Token), items ≠ [] →
    AwaitsValue reader (.array before :: stack) →
    (itemTokens items ++ .closeArray :: others).foldlM step reader =
      resume (array (before.reverse ++ items)) stack others
  | [], _, _, _, _, hne, _ => absurd rfl hne
  | [item], _, before, stack, others, _, hawaits => by
      have hitem := foldlM_tokensOf item (.closeArray :: others) hawaits
      have hclose : (Token.closeArray :: others).foldlM step
          (.separator (.array (item :: before) :: stack)) =
          resume (array (item :: before).reverse) stack others := foldlM_step rfl
      rw [List.reverse_cons] at hclose
      exact hitem.trans hclose
  | item :: next :: items, _, before, stack, others, _, hawaits => by
      have hitems := foldlM_itemTokens (next :: items) others (List.cons_ne_nil _ _)
        (awaitsValue_needValue (.array (item :: before) :: stack))
      have hitem := foldlM_tokensOf item
        (.comma :: (itemTokens (next :: items) ++ .closeArray :: others)) hawaits
      have hcomma :
          (Token.comma :: (itemTokens (next :: items) ++ .closeArray :: others)).foldlM step
            (.separator (.array (item :: before) :: stack)) = _ :=
        (foldlM_step rfl).trans hitems
      rw [List.reverse_cons, List.append_assoc] at hcomma
      rw [itemTokens, List.append_assoc]
      · exact hitem.trans hcomma
      · exact List.cons_ne_nil _ _

theorem foldlM_memberTokens : ∀ (members : List (Option String × Json)) {reader : Reader}
    {before : List (Option String × Json)} {stack : List Frame}
    (others : List Token), members ≠ [] → AwaitsName reader before stack →
    (memberTokens members ++ .closeObject :: others).foldlM step reader =
      resume (object (before.reverse ++ members)) stack others
  | [], _, _, _, _, hne, _ => absurd rfl hne
  | [(name, value)], _, before, stack, others, _, hawaits => by
      have hvalue := foldlM_tokensOf value (.closeObject :: others)
        (awaitsValue_needValue (.member before name :: stack))
      have hclose : (Token.closeObject :: others).foldlM step
          (.separator (.object ((name, value) :: before) :: stack)) =
          resume (object ((name, value) :: before).reverse) stack others := foldlM_step rfl
      rw [List.reverse_cons] at hclose
      exact (foldlM_step (hawaits name)).trans ((foldlM_step rfl).trans (hvalue.trans hclose))
  | (name, value) :: next :: members, _, before, stack, others, _, hawaits => by
      have hmembers := foldlM_memberTokens (next :: members) others (List.cons_ne_nil _ _)
        (awaitsName_needName ((name, value) :: before) stack)
      have hvalue := foldlM_tokensOf value
        (.comma :: (memberTokens (next :: members) ++ .closeObject :: others))
        (awaitsValue_needValue (.member before name :: stack))
      have hcomma :
          (Token.comma :: (memberTokens (next :: members) ++ .closeObject :: others)).foldlM
            step (.separator (.object ((name, value) :: before) :: stack)) = _ :=
        (foldlM_step rfl).trans hmembers
      rw [List.reverse_cons, List.append_assoc] at hcomma
      rw [memberTokens]
      · simp only [List.cons_append, List.append_assoc]
        exact (foldlM_step (hawaits name)).trans
          ((foldlM_step rfl).trans (hvalue.trans hcomma))
      · exact List.cons_ne_nil _ _

end

theorem ofTokens?_tokensOf (value : Json) : ofTokens? (tokensOf value) = some value := by
  have hread := foldlM_tokensOf value [] (awaitsValue_needValue [])
  rw [List.append_nil] at hread
  unfold ofTokens?
  rw [hread]
  rfl

/-- A value is read back from its text. -/
theorem parse?_render {value : Json} (htextual : textual value = true) :
    parse? value.render = some value := by
  have htokens := tokens_chars value htextual delimited_nil tokens_nil
  rw [List.append_nil, List.append_nil] at htokens
  unfold parse? render
  rw [String.toList_ofList, htokens]
  exact ofTokens?_tokensOf value

end SecantDescent.Json
