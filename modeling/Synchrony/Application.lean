import Synchrony.Concepts.ListCreation
import Synchrony.Concepts.Notifying
import Synchrony.Config
import Synchrony.Route
import Synchrony.World

/-!
# The application

The application registers the concepts of requests, lists and notifications over one store, offers
their actions to callers by routes, and notifies the owner that a request for a new list names as
soon as the list is there.
-/

namespace Synchrony

/-- An engine with the limits of a configuration, without concepts and rules. -/
def World.ofConfig (c : EngineConfig) (resources : Resources) : World :=
  ⟨{ limits := c.limits, log := { capacity := c.history.toNat } }, resources⟩

namespace Application

/-- An action of the concept of lists. -/
def listAction (name : String) : ActionRef := ⟨ListCreation.conceptName, name⟩

/-- An action of the concept of notifications. -/
def noticeAction (name : String) : ActionRef := ⟨Notifying.conceptName, name⟩

/-- The routes to lists. -/
def listRoutes : List Route := [
  ⟨listAction "newList", ["listName"], ["list"]⟩,
  ⟨listAction "deleteList", ["list"], ["list"]⟩,
  ⟨listAction "addItem", ["list", "item"], ["list", "item"]⟩,
  ⟨listAction "removeItem", ["list", "item"], ["list", "item"]⟩,
  ⟨listAction "_getLists", [], ["lists"]⟩,
  ⟨listAction "_getList", ["list"], ["list", "listName", "items"]⟩]

/-- A list that a request with an owner created is announced to the owner. -/
def notifyOwnerRule : Rule where
  name := "NotifyOwnerOnNewList"
  conditions := [
    ⟨Requesting.requestAction,
      KeyMap.ofList [("path", .lit (.str (listAction "newList").path)), ("owner", .var "owner")],
      .empty⟩,
    ⟨listAction "newList",
      KeyMap.singleton "listName" (.var "listName"),
      KeyMap.singleton "list" (.var "list")⟩]
  consequences := [
    ⟨noticeAction "notify",
      KeyMap.ofList [
        ("recipient", .var "owner"),
        ("topic", .lit (.str "list_created")),
        ("list", .var "list"),
        ("listName", .var "listName")]⟩]

/-- The routes to notifications. -/
def noticeRoutes : List Route := [
  ⟨noticeAction "markRead", ["notification"], ["notification"]⟩,
  ⟨noticeAction "_getNotifications", ["recipient"], ["notifications"]⟩]

/-- All rules of the application, in the order of their installation. -/
def rules : List Rule :=
  listRoutes.flatMap Route.rules ++ [notifyOwnerRule] ++ noticeRoutes.flatMap Route.rules

/-- The concepts of the application over a store, with their names. -/
def concepts (store : String) : List (String × Concept) := [
  (Requesting.conceptName, Requesting.concept),
  (ListCreation.conceptName, ListCreation.concept store),
  (Notifying.conceptName, Notifying.concept store)]

/-- Registers concepts one after the other. -/
def registerAll (w : World) : List (String × Concept) → Except RegistryError World
  | [] => .ok w
  | (name, concept) :: rest =>
    match w.register name concept with
    | .ok w => registerAll w rest
    | .error e => .error e

/-- Registers the concepts over a store and installs the rules. -/
def assemble (w : World) (store : String) : Except RegistryError (Installation × World) :=
  (registerAll w (concepts store)).map fun w => w.install rules

end Application

end Synchrony
