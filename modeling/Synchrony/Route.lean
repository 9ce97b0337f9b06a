import Synchrony.Concepts.Requesting
import Synchrony.Rule
import Synchrony.Text.Upper

/-!
# Routes

A route offers an action to callers. It consists of three rules: a request on the action's path
invokes the action with the request's fields, the action's output goes back as the response, and so
does its error.
-/

namespace Synchrony

/-- An action offered to callers, with the fields it takes from a request and returns to it. -/
structure Route where
  action : ActionRef
  inputs : List String
  outputs : List String

namespace Route

/-- A name without the underscores in front and with a capital first letter. -/
def capitalized (name : String) : List Char :=
  match name.toList.dropWhile (· = '_') with
  | [] => []
  | c :: rest => Text.upper c ++ rest

/-- What the names of a route's rules begin with. -/
def baseName (r : Route) : String :=
  r.action.concept ++ String.ofList (capitalized r.action.action)

/-- Adds to a shape, for each name, a field that holds the variable of that name. -/
def withVars (s : Shape) (names : List String) : Shape :=
  names.foldl (fun s name => s.insert name (.var name)) s

/-- The shape of a request on the route's path. -/
def pathShape (r : Route) : Shape := KeyMap.singleton "path" (.lit (.str r.action.path))

/-- The request on the route's path whose identifier is bound. -/
def requestPattern (r : Route) : Pattern where
  action := Requesting.requestAction
  input := r.pathShape
  output := withVars .empty [Requesting.requestField]

/-- A request invokes the action. -/
def requestRule (r : Route) : Rule where
  name := r.baseName ++ "Request"
  conditions := [⟨Requesting.requestAction, withVars r.pathShape r.inputs, .empty⟩]
  consequences := [⟨r.action, withVars .empty r.inputs⟩]

/-- The output of the action is the response. -/
def responseRule (r : Route) : Rule where
  name := r.baseName ++ "Response"
  conditions := [r.requestPattern, ⟨r.action, .empty, withVars .empty r.outputs⟩]
  consequences :=
    [⟨Requesting.respondAction, withVars (withVars .empty [Requesting.requestField]) r.outputs⟩]

/-- The error of the action is the response. -/
def errorRule (r : Route) : Rule where
  name := r.baseName ++ "ErrorResponse"
  conditions := [r.requestPattern, ⟨r.action, .empty, withVars .empty ["error"]⟩]
  consequences :=
    [⟨Requesting.respondAction, withVars .empty [Requesting.requestField, "error"]⟩]

/-- The rules of a route. -/
def rules (r : Route) : List Rule := [r.requestRule, r.responseRule, r.errorRule]

end Route

end Synchrony
