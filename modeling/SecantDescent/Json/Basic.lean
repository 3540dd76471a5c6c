/-!
# JSON values

A value keeps of a number what its literal says, sign, digits and exponent,
and whether it was written as a whole number; the reader of the value decides
what number it takes it for.  Text is a list of characters without surrogates,
so a string with an escape for half of a surrogate pair has no text.
-/

namespace SecantDescent

inductive NumberLiteral where
  /-- Digits only, after a minus sign if it is negative. -/
  | whole (negative : Bool) (digits : Nat)
  | scaled (negative : Bool) (digits : Nat) (exponent : Int)
  deriving DecidableEq, Repr

inductive Json where
  | null
  | bool (value : Bool)
  | number (literal : NumberLiteral)
  /-- A string; it has no text if an escape names half of a surrogate pair. -/
  | string (text : Option String)
  | array (items : List Json)
  /-- Named values, in the order in which they are written. -/
  | object (members : List (Option String × Json))
  deriving Repr

inductive Token where
  | openArray
  | closeArray
  | openObject
  | closeObject
  | comma
  | colon
  | null
  | bool (value : Bool)
  | number (literal : NumberLiteral)
  | string (text : Option String)
  deriving DecidableEq, Repr

namespace Json

def text (content : String) : Json :=
  string (some content)

def count (n : Nat) : Json :=
  number (.whole false n)

def record (members : List (String × Json)) : Json :=
  object (members.map fun (name, value) => (some name, value))

end Json

end SecantDescent
