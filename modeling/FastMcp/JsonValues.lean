import Mathlib.Data.List.Basic

/-! # JSON values

Values as a decoder returns them, with numbers kept as they were written and
the fields of an object in their order. Equality of values is decidable.
-/

namespace FastMcp.JsonValues

inductive Value where
  | null
  | bool (value : Bool)
  | number (lexeme : String)
  | string (text : String)
  | array (values : List Value)
  | object (fields : List (String × Value))
deriving Repr

namespace Value

def asStr : Value → Option String
  | string text => some text
  | _ => none

mutual

/-- Whether two values are the same. -/
def same : Value → Value → Bool
  | null, null => true
  | bool first, bool second => first = second
  | number first, number second => first = second
  | string first, string second => first = second
  | array first, array second => sameValues first second
  | object first, object second => sameFields first second
  | _, _ => false

def sameValues : List Value → List Value → Bool
  | [], [] => true
  | first :: firsts, second :: seconds => first.same second && sameValues firsts seconds
  | _, _ => false

def sameFields : List (String × Value) → List (String × Value) → Bool
  | [], [] => true
  | (name, first) :: firsts, (other, second) :: seconds =>
    name = other && first.same second && sameFields firsts seconds
  | _, _ => false

end

mutual

theorem same_iff : ∀ first second : Value, first.same second = true ↔ first = second
  | null, second => by cases second <;> simp [same]
  | bool value, second => by cases second <;> simp [same]
  | number lexeme, second => by cases second <;> simp [same]
  | string text, second => by cases second <;> simp [same]
  | array values, second => by
    cases second <;> simp [same, sameValues_iff values]
  | object fields, second => by
    cases second <;> simp [same, sameFields_iff fields]

theorem sameValues_iff : ∀ firsts seconds : List Value,
    sameValues firsts seconds = true ↔ firsts = seconds
  | [], seconds => by cases seconds <;> simp [sameValues]
  | first :: firsts, seconds => by
    cases seconds <;> simp [sameValues, same_iff first, sameValues_iff firsts]

theorem sameFields_iff : ∀ firsts seconds : List (String × Value),
    sameFields firsts seconds = true ↔ firsts = seconds
  | [], seconds => by cases seconds <;> simp [sameFields]
  | (name, first) :: firsts, seconds => by
    cases seconds <;> simp [sameFields, same_iff first, sameFields_iff firsts, Prod.ext_iff]

end

instance : DecidableEq Value := fun first second =>
  decidable_of_iff (first.same second = true) (same_iff first second)

end Value

end FastMcp.JsonValues
