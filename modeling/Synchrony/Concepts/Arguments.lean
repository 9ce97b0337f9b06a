import Synchrony.Text.Blank
import Synchrony.Work

/-!
# Arguments of actions

How the concepts read their input fields: a text, a text that may be left out, and a name, which is
a text without the blanks at its ends and not empty.
-/

namespace Synchrony.Arguments

/-- A field that holds a text. -/
def text (input : Fields) (name : String) : Except ConceptError String :=
  match input.get? name with
  | some (.str s) => .ok s
  | some _ => .error (.invalidArgument name "a string")
  | none => .error (.missingArgument name)

/-- A field that holds a text, or nothing if it is absent or null. -/
def optionalText (input : Fields) (name : String) : Except ConceptError (Option String) :=
  match input.get? name with
  | none | some .null => .ok none
  | some _ => (text input name).map some

/-- A field that holds a text with something beside blanks; the blanks at its ends are dropped. -/
def name (input : Fields) (name : String) : Except ConceptError String :=
  match text input name with
  | .error e => .error e
  | .ok s =>
    if (Text.trim s).isEmpty then .error (.invalidArgument name "a non-empty string")
    else .ok (Text.trim s)

end Synchrony.Arguments

namespace Synchrony.Work

/-- Goes on with a checked argument, or fails with what is wrong with it. -/
def given {α : Type} (argument : Except ConceptError α) (next : α → Work) : Work :=
  match argument with
  | .ok a => next a
  | .error e => .fail e

end Synchrony.Work
