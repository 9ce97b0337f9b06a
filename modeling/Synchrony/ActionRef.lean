/-!
# Action references

An action is named by its concept and its own name. The reference is written `Concept.action` in
messages and `/Concept/action` as the path of a request.
-/

namespace Synchrony

/-- The name of an action of a concept. -/
structure ActionRef where
  concept : String
  action : String
deriving DecidableEq

namespace ActionRef

/-- The form used in messages, `Concept.action`. -/
def text (r : ActionRef) : String := r.concept ++ "." ++ r.action

/-- The form used in requests, `/Concept/action`. -/
def path (r : ActionRef) : String := "/" ++ r.concept ++ "/" ++ r.action

/-- Whether the action only reads: its name begins with an underscore. -/
def isQuery (r : ActionRef) : Bool := r.action.toList.head? = some '_'

/-- The text before the first slash and the text after it, if there is a slash. -/
def splitAtSlash : List Char → Option (List Char × List Char)
  | [] => none
  | c :: rest =>
    if c = '/' then some ([], rest) else (splitAtSlash rest).map fun (a, b) => (c :: a, b)

/-- Reads `/Concept/action`. Neither name may be empty, and neither holds a slash. -/
def ofPath? (p : String) : Option ActionRef :=
  match p.toList with
  | '/' :: rest =>
    match splitAtSlash rest with
    | some (concept, action) =>
      if concept.isEmpty || action.isEmpty || action.contains '/' then none
      else some ⟨String.ofList concept, String.ofList action⟩
    | none => none
  | _ => none

end ActionRef

/-! ### Names -/

/-- Whether a character may begin the name of a concept or an action. -/
def isNameStart (c : Char) : Bool := ('A' ≤ c && c ≤ 'Z') || ('a' ≤ c && c ≤ 'z') || c = '_'

/-- Whether a character may stand in the name of a concept or an action. -/
def isNameChar (c : Char) : Bool := isNameStart c || ('0' ≤ c && c ≤ '9')

/-- Whether a text is the name of a concept or an action: an ASCII identifier. -/
def isName (name : String) : Bool :=
  match name.toList with
  | [] => false
  | c :: rest => isNameStart c && rest.all isNameChar

end Synchrony
