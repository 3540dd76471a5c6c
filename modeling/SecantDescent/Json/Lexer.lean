import SecantDescent.Json.Basic

/-!
# The tokens of a JSON text

Blanks are the space, the tabulator, the line feed and the carriage return.  A
number has no leading zeros, at least one digit on either side of its point,
and at least one digit in its exponent.  A string holds no control characters;
after a backslash comes one of eight letters or signs, or `u` and four
hexadecimal digits.  Escapes of two halves of a surrogate pair, one after the
other, give one character.
-/

namespace SecantDescent.Json

def isBlank (c : Char) : Bool :=
  c == ' ' || c == '\t' || c == '\n' || c == '\r'

/-! ## Numbers -/

def ofDigits (digits : List Char) : Nat :=
  digits.foldl (fun value c => value * 10 + (c.toNat - '0'.toNat)) 0

/-- A run of digits in front of the rest of a text. -/
def takeDigits (cs : List Char) : List Char × List Char :=
  (cs.takeWhile Char.isDigit, cs.dropWhile Char.isDigit)

/-- The digits after a point, none if there is no point. -/
def takeFraction : List Char → Option (List Char × List Char)
  | '.' :: cs =>
      let (digits, rest) := takeDigits cs
      if digits.isEmpty then none else some (digits, rest)
  | cs => some ([], cs)

def takeSign : List Char → Bool × List Char
  | '-' :: cs => (true, cs)
  | '+' :: cs => (false, cs)
  | cs => (false, cs)

def takeExponent (cs : List Char) : Option (Option Int × List Char) :=
  match cs with
  | c :: rest =>
      if c == 'e' || c == 'E' then
        let (negative, rest) := takeSign rest
        let (digits, rest) := takeDigits rest
        if digits.isEmpty then
          none
        else
          let size : Int := ofDigits digits
          some (some (if negative then -size else size), rest)
      else
        some (none, cs)
  | [] => some (none, [])

/-- The number in front of the rest of a text, after its minus sign. -/
def takeMagnitude (negative : Bool) (cs : List Char) :
    Option (NumberLiteral × List Char) := do
  let (whole, rest) := takeDigits cs
  if whole.isEmpty || (whole.head? == some '0' && whole.length != 1) then
    none
  else
    let (fraction, rest) ← takeFraction rest
    let (exponent, rest) ← takeExponent rest
    if fraction.isEmpty && exponent.isNone then
      return (.whole negative (ofDigits whole), rest)
    else
      let shift : Int := fraction.length
      return (.scaled negative (ofDigits (whole ++ fraction)) (exponent.getD 0 - shift), rest)

/-! ## Strings -/

/-- A character of a string, or half of a surrogate pair. -/
inductive Piece where
  | char (c : Char)
  | leading (unit : Nat)
  | trailing (unit : Nat)

def hexValue (c : Char) : Option Nat :=
  if c.isDigit then some (c.toNat - '0'.toNat)
  else if 'a' ≤ c ∧ c ≤ 'f' then some (c.toNat - 'a'.toNat + 10)
  else if 'A' ≤ c ∧ c ≤ 'F' then some (c.toNat - 'A'.toNat + 10)
  else none

def pieceOfUnit (unit : Nat) : Piece :=
  if 0xD800 ≤ unit ∧ unit < 0xDC00 then .leading unit
  else if 0xDC00 ≤ unit ∧ unit < 0xE000 then .trailing unit
  else .char (Char.ofNat unit)

/-- The character that a backslash and a letter or sign stand for. -/
def simpleEscape : Char → Option Char
  | '"' => some '"'
  | '\\' => some '\\'
  | '/' => some '/'
  | 'b' => some '\x08'
  | 'f' => some '\x0c'
  | 'n' => some '\n'
  | 'r' => some '\r'
  | 't' => some '\t'
  | _ => none

/-- The pieces of a string up to its closing quote, and the rest of the
text. -/
def takePieces : List Char → Option (List Piece × List Char)
  | [] => none
  | '"' :: rest => some ([], rest)
  | '\\' :: 'u' :: a :: b :: c :: d :: rest => do
      let unit := (← hexValue a) * 4096 + (← hexValue b) * 256 + (← hexValue c) * 16 +
        (← hexValue d)
      let (pieces, rest) ← takePieces rest
      return (pieceOfUnit unit :: pieces, rest)
  | '\\' :: c :: rest => do
      let escaped ← simpleEscape c
      let (pieces, rest) ← takePieces rest
      return (.char escaped :: pieces, rest)
  | c :: rest =>
      if c.toNat < 0x20 || c == '\\' then
        none
      else do
        let (pieces, rest) ← takePieces rest
        return (.char c :: pieces, rest)

/-- The characters of a string, unless half of a pair stands alone. -/
def joinPieces : List Piece → Option (List Char)
  | [] => some []
  | .char c :: rest => (joinPieces rest).map (c :: ·)
  | .leading high :: .trailing low :: rest =>
      let code := 0x10000 + (high - 0xD800) * 0x400 + (low - 0xDC00)
      (joinPieces rest).map (Char.ofNat code :: ·)
  | .leading _ :: _ => none
  | .trailing _ :: _ => none

/-! ## Tokens -/

/-- The token at the head of a text without leading blanks, and the rest of
the text. -/
def takeToken : List Char → Option (Token × List Char)
  | '[' :: rest => some (.openArray, rest)
  | ']' :: rest => some (.closeArray, rest)
  | '\x7b' :: rest => some (.openObject, rest)
  | '\x7d' :: rest => some (.closeObject, rest)
  | ',' :: rest => some (.comma, rest)
  | ':' :: rest => some (.colon, rest)
  | 'n' :: 'u' :: 'l' :: 'l' :: rest => some (.null, rest)
  | 't' :: 'r' :: 'u' :: 'e' :: rest => some (.bool true, rest)
  | 'f' :: 'a' :: 'l' :: 's' :: 'e' :: rest => some (.bool false, rest)
  | '"' :: rest =>
      (takePieces rest).map fun (pieces, rest) =>
        (.string ((joinPieces pieces).map String.ofList), rest)
  | '-' :: rest => (takeMagnitude true rest).map fun (literal, rest) => (.number literal, rest)
  | cs => (takeMagnitude false cs).map fun (literal, rest) => (.number literal, rest)

def takeTokens : Nat → List Char → Option (List Token)
  | limit, cs =>
      match cs.dropWhile isBlank with
      | [] => some []
      | c :: rest =>
          match limit with
          | 0 => none
          | limit + 1 => do
              let (token, rest) ← takeToken (c :: rest)
              return token :: (← takeTokens limit rest)

/-- The tokens of a text.  Every token takes a character at least, so there are
no more tokens than characters. -/
def tokens (cs : List Char) : Option (List Token) :=
  takeTokens cs.length cs

end SecantDescent.Json
