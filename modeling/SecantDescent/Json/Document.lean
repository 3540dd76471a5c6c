import SecantDescent.Decimal.Shortest
import SecantDescent.Json.Parser
import SecantDescent.Json.Printer

/-!
# Settings as JSON documents

A record of settings is an object that names every field once, or the array of
its fields in order.  Members that name no field are passed over, whatever
their values, but their names have to be text.  A choice is the name of one
alternative, either as a string or as the only member of an object with the
value `null`.

A number field is the number nearest to its literal and must not exceed the
range of its format; a negative whole number that has 64 bits without its sign
but not with it is rounded to binary64 first.  A count is written as digits
alone and fits in 64 bits.
-/

namespace SecantDescent

class Document (γ : Type) where
  encode : γ → Json
  decode : Json → Option γ

def NumberLiteral.toDecimal : NumberLiteral → Decimal
  | whole negative digits => ⟨negative, digits, 0⟩
  | scaled negative digits exponent => ⟨negative, digits, exponent⟩

/-- The number of a format that a literal is read as. -/
def NumberLiteral.nearest (α : Type) [BinaryFloat α] (literal : NumberLiteral) : α :=
  match literal with
  | whole true digits =>
      if UInt64.size / 2 < digits ∧ digits < UInt64.size then
        BinaryFloat.convert (literal.toDecimal.nearest Float)
      else
        literal.toDecimal.nearest α
  | _ => literal.toDecimal.nearest α

def Decimal.toLiteral (d : Decimal) : NumberLiteral :=
  .scaled d.negative d.digits d.exponent

namespace Document

def read? {γ : Type} [Document γ] (source : String) : Option γ := do
  decode (← Json.parse? source)

def write {γ : Type} [Document γ] (value : γ) : String :=
  (encode value).render

/-! ## Fields -/

def onlyMember? (members : List (Option String × Json)) (name : String) : Option Json :=
  match members.filter fun member => member.1 == some name with
  | [member] => some member.2
  | _ => none

/-- The values of the named fields, in the order of the names. -/
def fields? (names : List String) : Json → Option (List Json)
  | .object members =>
      if members.all fun member => member.1.isSome then
        names.mapM (onlyMember? members)
      else
        none
  | .array items => if items.length = names.length then some items else none
  | _ => none

def choice? : Json → Option String
  | .string text => text
  | .object [(name, .null)] => name
  | _ => none

/-! ## Numbers -/

instance : Document UInt64 where
  encode n := .count n.toNat
  decode
    | .number (.whole false digits) =>
        if digits < UInt64.size then some (.ofNat digits) else none
    | _ => none

/-- A finite number is written with the digits that its binary64 value needs;
other numbers are written as `null`. -/
instance {α : Type} [BinaryFloat α] : Document α where
  encode x :=
    match BinaryFloat.numeral (BinaryFloat.convert x : Float) with
    | .finite value => .number value.toLiteral
    | _ => .null
  decode
    | .number literal =>
        let x := literal.nearest α
        if Scalar.isFinite x then some x else none
    | _ => none

end Document

end SecantDescent
