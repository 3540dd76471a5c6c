import SecantDescent.Json.Lexer

/-!
# Reading JSON values

The reader takes the tokens of a text one by one.  Between two tokens it holds
the containers that are still open, innermost first, and knows what may come
next.  Values nest to any depth.
-/

namespace SecantDescent.Json

inductive Frame where
  | array (items : List Json)
  | object (members : List (Option String × Json))
  | member (members : List (Option String × Json)) (name : Option String)

/-- What a reader is waiting for, with the containers that are open. -/
inductive Reader where
  | needValue (stack : List Frame)
  | firstItem (stack : List Frame)
  | firstName (stack : List Frame)
  | needName (members : List (Option String × Json)) (stack : List Frame)
  | needColon (members : List (Option String × Json)) (name : Option String)
      (stack : List Frame)
  | separator (stack : List Frame)
  | done (value : Json)

namespace Reader

def settle (value : Json) : List Frame → Option Reader
  | [] => some (.done value)
  | .array items :: stack => some (.separator (.array (value :: items) :: stack))
  | .member members name :: stack =>
      some (.separator (.object ((name, value) :: members) :: stack))
  | .object _ :: _ => none

def begin (stack : List Frame) : Token → Option Reader
  | .null => settle .null stack
  | .bool value => settle (.bool value) stack
  | .number literal => settle (.number literal) stack
  | .string text => settle (.string text) stack
  | .openArray => some (.firstItem stack)
  | .openObject => some (.firstName stack)
  | .closeArray | .closeObject | .comma | .colon => none

def step : Reader → Token → Option Reader
  | .needValue stack, token => begin stack token
  | .firstItem stack, .closeArray => settle (.array []) stack
  | .firstItem stack, token => begin (.array [] :: stack) token
  | .firstName stack, .closeObject => settle (.object []) stack
  | .firstName stack, .string name => some (.needColon [] name stack)
  | .needName members stack, .string name => some (.needColon members name stack)
  | .needColon members name stack, .colon =>
      some (.needValue (.member members name :: stack))
  | .separator (.array items :: stack), .comma => some (.needValue (.array items :: stack))
  | .separator (.array items :: stack), .closeArray => settle (.array items.reverse) stack
  | .separator (.object members :: stack), .comma => some (.needName members stack)
  | .separator (.object members :: stack), .closeObject =>
      settle (.object members.reverse) stack
  | _, _ => none

def value? : Reader → Option Json
  | .done value => some value
  | _ => none

end Reader

def ofTokens? (tokens : List Token) : Option Json := do
  (← tokens.foldlM Reader.step (.needValue [])).value?

def parse? (source : String) : Option Json := do
  ofTokens? (← tokens source.toList)

end SecantDescent.Json
