import Synchrony.Work

/-!
# The concept of requests

`request` opens a slot for a call from outside and returns the slot's identifier; `respond` puts the
response into it. The response is everything `respond` is given beside the identifier.
-/

namespace Synchrony.Requesting

/-- The name of the concept. -/
def conceptName : String := "Requesting"

/-- The field that holds the identifier of a request. -/
def requestField : String := "request"

/-- The action that opens a slot. -/
def requestAction : ActionRef := ⟨conceptName, "request"⟩

/-- The action that puts the response into a slot. -/
def respondAction : ActionRef := ⟨conceptName, "respond"⟩

/-- The declared actions. -/
def interface : List ActionSpec := [
  ⟨"request", ["path"], [requestField]⟩,
  ⟨"respond", [requestField], [requestField]⟩]

/-- The output that names a request. -/
def named (id : String) : Fields := KeyMap.singleton requestField (.str id)

/-- Opens a slot. -/
def request : Work := .request fun id => .succeed (named id)

/-- The request that a response is for. -/
def addressee? (input : Fields) : Option String :=
  match input.get? requestField with
  | some (.str id) => some id
  | _ => none

/-- What a response says beside the request it is for. -/
def payloadOf (input : Fields) : Fields := input.erase requestField

/-- Puts the response into a slot. -/
def respond (input : Fields) : Work :=
  match addressee? input with
  | some id =>
    .respond id (payloadOf input) fun
      | .ok () => .succeed (named id)
      | .error e => .succeed (errorOutput e.message)
  | none => .succeed (errorOutput RespondError.missingRequest.message)

/-- The concept. -/
def concept : Concept where
  interface := interface
  perform
    | "request", _ => request
    | "respond", input => respond input
    | other, _ => .fail (.unknownAction other)

end Synchrony.Requesting
