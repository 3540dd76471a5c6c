import SecantDescent.Decimal.Basic
import SecantDescent.Json.Basic

/-!
# Writing JSON values

The compact form: no blanks, members in their own order.  Whole numbers are
written as digits, other numbers with one digit before the point and an
exponent.  In strings the quote, the backslash and the control characters are
escaped, and nothing else is.
-/

namespace SecantDescent

def NumberLiteral.chars : NumberLiteral → List Char
  | whole negative digits => (if negative then ['-'] else []) ++ Nat.toDigits 10 digits
  | scaled negative digits exponent => (Decimal.mk negative digits exponent).scientificChars

namespace Json

def hexDigit (n : Nat) : Char :=
  Nat.digitChar (n % 16)

/-- A character of a string, escaped where it has to be. -/
def escapeChar (c : Char) : List Char :=
  if c = '"' then ['\\', '"']
  else if c = '\\' then ['\\', '\\']
  else if c = '\n' then ['\\', 'n']
  else if c = '\t' then ['\\', 't']
  else if c = '\r' then ['\\', 'r']
  else if c = '\x08' then ['\\', 'b']
  else if c = '\x0c' then ['\\', 'f']
  else if c.toNat < 0x20 then
    ['\\', 'u', '0', '0', hexDigit (c.toNat / 16), hexDigit c.toNat]
  else [c]

/-- A string between quotes.  A string without text is written as the
replacement character. -/
def stringChars (text : Option String) : List Char :=
  '"' :: (text.getD "\ufffd").toList.flatMap escapeChar ++ ['"']

mutual

def chars : Json → List Char
  | null => ['n', 'u', 'l', 'l']
  | bool true => ['t', 'r', 'u', 'e']
  | bool false => ['f', 'a', 'l', 's', 'e']
  | number literal => literal.chars
  | string text => stringChars text
  | array items => '[' :: itemChars items ++ [']']
  | object members => '\x7b' :: memberChars members ++ ['\x7d']

def itemChars : List Json → List Char
  | [] => []
  | [item] => chars item
  | item :: rest => chars item ++ ',' :: itemChars rest

def memberChars : List (Option String × Json) → List Char
  | [] => []
  | [(name, value)] => stringChars name ++ ':' :: chars value
  | (name, value) :: rest => stringChars name ++ ':' :: chars value ++ ',' :: memberChars rest

end

def render (value : Json) : String :=
  String.ofList value.chars

end Json

end SecantDescent
