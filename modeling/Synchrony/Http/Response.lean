import Synchrony.Burst
import Synchrony.Registry
import Synchrony.Slots

/-!
# Responses and errors of the server

A response is a status and, if its body is JSON, a value. An error that reaches a caller becomes a
response with the error's text; what kind of error it is decides the status.
-/

namespace Synchrony.Http

/-- A status, and the body if it is JSON. -/
structure Response where
  status : Nat
  body : Option Value

/-- The response to a call that succeeded. -/
def Response.ok (fields : Fields) : Response := ⟨200, some fields.toValue⟩

/-- A response whose body is not JSON. -/
def Response.plain (status : Nat) : Response := ⟨status, none⟩

/-- An error that reaches a caller. -/
inductive ServerError where
  | badRequest (reason : String)
  | request (error : RequestError)
  | burst (failure : BurstFailure)
  | registry (error : RegistryError)
  | internal (reason : String)

namespace ServerError

/-- The text of an error. -/
def message : ServerError → String
  | badRequest reason => reason
  | request error => error.message
  | burst failure => failure.message
  | registry error => error.message
  | internal reason => reason

/-- The status of an error. -/
def status : ServerError → Nat
  | badRequest _ => 400
  | request (.timeout _ _) => 504
  | registry (.notFound _) => 404
  | _ => 500

/-- The response that tells a caller of an error. -/
def response (e : ServerError) : Response := ⟨e.status, some (errorOutput e.message).toValue⟩

end ServerError

end Synchrony.Http
