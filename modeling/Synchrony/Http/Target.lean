import Synchrony.Http.Uri

/-!
# What a request asks for

Below its base path the server answers two fixed paths by `GET` (or `HEAD`), the health check and the
history, and every other path below the base by `POST`. A request for the allowed methods is answered
on any path.
-/

namespace Synchrony.Http

/-- What a request asks for. -/
inductive Target where
  | options
  | health
  | history (query : List Char)
  | entry (path : List Char)
  | methodNotAllowed
  | notFound
deriving DecidableEq

namespace Target

/-- The part of a path after a base and a slash, if it is not empty. -/
def below? (base path : List Char) : Option (List Char) :=
  if (base ++ ['/']).isPrefixOf path then
    match path.drop (base.length + 1) with
    | [] => none
    | rest => some rest
  else none

/-- Whether a method reads. -/
def reads (method : String) : Bool := method = "GET" || method = "HEAD"

/-- What a method on a target asks for. -/
def of (base method : String) (uri : Uri) : Target :=
  if method = "OPTIONS" then options
  else if uri.path = "/health".toList then
    if reads method then health else methodNotAllowed
  else if uri.path = base.toList ++ "/_concord/history".toList then
    if reads method then history uri.query else methodNotAllowed
  else
    match below? base.toList uri.path with
    | some rest => if method = "POST" then entry rest else methodNotAllowed
    | none => notFound

end Target

/-- Whether a server can be built on a base path: it is empty or begins with a slash. -/
def isServable (base : String) : Bool := base.isEmpty || base.toList.head? = some '/'

end Synchrony.Http
