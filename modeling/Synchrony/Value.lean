import Synchrony.Double
import Synchrony.KeyMap

/-!
# Values

Concepts exchange records of JSON values. An integer and a floating point number are different
values even when they are numerically equal; `Value.same` is the equality that matching and
filtering use, under which the two floating point zeros are one value.
-/

namespace Synchrony

/-- A JSON value. -/
inductive Value where
  | null
  | bool (b : Bool)
  | int (n : Int)
  | double (x : Double)
  | str (s : String)
  | arr (items : List Value)
  | obj (fields : List (String × Value))

/-- The named values that an action takes or returns. -/
abbrev Fields := KeyMap Value

namespace Value

instance : Inhabited Value := ⟨null⟩

/-! ### Equality -/

mutual
/-- Equality of values; the two zeros are equal, an integer never equals a `double`. -/
def same : Value → Value → Bool
  | null, null => true
  | bool a, bool b => a == b
  | int a, int b => a == b
  | double a, double b => a.same b
  | str a, str b => a == b
  | arr a, arr b => sameItems a b
  | obj a, obj b => sameFields a b
  | _, _ => false

/-- Equality of lists of values, item by item. -/
def sameItems : List Value → List Value → Bool
  | [], [] => true
  | a :: as, b :: bs => same a b && sameItems as bs
  | _, _ => false

/-- Equality of lists of named values, entry by entry. -/
def sameFields : List (String × Value) → List (String × Value) → Bool
  | [], [] => true
  | (k, a) :: as, (l, b) :: bs => k == l && same a b && sameFields as bs
  | _, _ => false
end

/-! ### Views -/

/-- The text of a string. -/
def asString? : Value → Option String
  | str s => some s
  | _ => none

/-- The items of an array. -/
def asArray? : Value → Option (List Value)
  | arr items => some items
  | _ => none

/-- An integer that fits 64 bits with a sign. -/
def asInt64? : Value → Option Int
  | int n => if -(Nat.pow 2 63 : Int) ≤ n ∧ n < Nat.pow 2 63 then some n else none
  | _ => none

/-- An integer that fits 64 bits without a sign. -/
def asNat64? : Value → Option Nat
  | int n => if 0 ≤ n ∧ n < Nat.pow 2 64 then some n.toNat else none
  | _ => none

/-- The fields of an object; any other value has none. -/
def fields : Value → Fields
  | obj entries => KeyMap.ofList entries
  | _ => KeyMap.empty

/-- The field of an object. -/
def field? (v : Value) (key : String) : Option Value := v.fields.get? key

end Value

namespace KeyMap

/-! ### Records of values -/

/-- The object with these fields. -/
def toValue (f : Fields) : Value := .obj f.entries

/-- The text of a field that holds a string. -/
def string? (f : Fields) (key : String) : Option String := (f.get? key).bind Value.asString?

/-- Equality of records of values. -/
def same (f g : Fields) : Bool := Value.sameFields f.entries g.entries

/-- Every field of `filter` is there with an equal value. -/
def matchesFilter (f filter : Fields) : Bool :=
  filter.entries.all fun (key, expected) =>
    match f.get? key with
    | some actual => actual.same expected
    | none => false

end KeyMap

end Synchrony
