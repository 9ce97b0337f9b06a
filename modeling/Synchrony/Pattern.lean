import Synchrony.Record
import Synchrony.Value.Text

/-!
# Patterns over records

A pattern names an action and gives one term for each field it looks at, in the record's input and
in its output. Unification compares literals, compares variables that are bound already, and binds
the others. A record of a failed action only fits a pattern that mentions the field `error`.
-/

namespace Synchrony

/-- What a field has to hold: a given value, or the value of a variable. -/
inductive Term where
  | var (name : String)
  | lit (value : Value)

/-- The values of variables. -/
abbrev Binding := KeyMap Value

/-- The terms that some fields have to hold. -/
abbrev Shape := KeyMap Term

/-- One condition of a rule: a record of an action whose input and output have given shapes. -/
structure Pattern where
  action : ActionRef
  input : Shape
  output : Shape

/-- One consequence of a rule: an action and the shape of its arguments. -/
structure Invocation where
  action : ActionRef
  args : Shape

/-! ### Bindings -/

/-- The text that identifies a binding: its variables in order with their values. -/
def Binding.canonical (b : Binding) : List Char := Value.compact (.obj b.entries)

/-! ### Terms -/

namespace Term

/-- The variable of a term. -/
def var? : Term → Option String
  | var name => some name
  | lit _ => none

/-- Lets a term hold an actual value, binding a variable that has no value yet. -/
def unify (actual : Value) (b : Binding) : Term → Option Binding
  | lit expected => if actual.same expected then some b else none
  | var name =>
    match b.get? name with
    | some bound => if bound.same actual then some b else none
    | none => some (b.insert name actual)

/-- The value of a term, or the variable that has none. -/
def value? (b : Binding) : Term → Except String Value
  | lit v => .ok v
  | var name =>
    match b.get? name with
    | some v => .ok v
    | none => .error name

end Term

/-! ### Shapes -/

namespace Shape

/-- The variables, in the order of their fields. -/
def vars (s : Shape) : List String := s.entries.filterMap (·.2.var?)

/-- Lets each entry hold the field of its name, one after the other. -/
def unifyEntries (fields : Fields) : List (String × Term) → Binding → Option Binding
  | [], b => some b
  | (key, term) :: rest, b =>
    match fields.get? key with
    | none => none
    | some actual =>
      match term.unify actual b with
      | none => none
      | some b => unifyEntries fields rest b

/-- Lets a record of values have the shape, extending a binding. -/
def unify (s : Shape) (fields : Fields) (b : Binding) : Option Binding :=
  unifyEntries fields s.entries b

/-- Replaces the variables of entries by their values. -/
def resolveEntries (b : Binding) : List (String × Term) → Except String Fields
  | [] => .ok .empty
  | (key, term) :: rest =>
    match term.value? b with
    | .error name => .error name
    | .ok v =>
      match resolveEntries b rest with
      | .error name => .error name
      | .ok fields => .ok (fields.insert key v)

/-- Replaces the variables by their values; the error is the first variable that has none. -/
def resolve (s : Shape) (b : Binding) : Except String Fields := resolveEntries b s.entries

end Shape

/-- The message for a variable that has no value. -/
def unboundMessage (name : String) : String := s!"variable '{name}' is not bound"

/-! ### Patterns -/

namespace Pattern

/-- Lets a record fit a pattern, extending a binding. -/
def unify (p : Pattern) (r : Record) (b : Binding) : Option Binding :=
  if p.action ≠ r.action then none
  else if r.isError && !p.output.contains "error" then none
  else (p.input.unify r.input b).bind (p.output.unify r.output)

/-- The variables of the input's shape, then those of the output's. -/
def vars (p : Pattern) : List String := p.input.vars ++ p.output.vars

end Pattern

end Synchrony
