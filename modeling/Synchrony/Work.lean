import Synchrony.Registry
import Synchrony.Slots
import Synchrony.Store.Either

/-!
# Concepts and the work they do

A concept declares an interface and says, for each action and input, what work the action does.
`Work` is a finite program: operations on a store, on the response slots and on memory cells of the
concept's own, readings of the clock, pauses, and a result at its end. Everything between two
pauses is done at once.
-/

namespace Synchrony

/-- Why a concept does not perform an action. -/
inductive ConceptError where
  | rejected (reason : String)
  | missingArgument (name : String)
  | invalidArgument (name expected : String)
  | unknownAction (name : String)
  | store (error : StoreError)
deriving DecidableEq

/-- The text of the error. -/
def ConceptError.message : ConceptError → String
  | rejected reason => reason
  | missingArgument name => s!"missing argument '{name}'"
  | invalidArgument name expected => s!"argument '{name}' must be {expected}"
  | unknownAction name => s!"concept has no action '{name}'"
  | store error => error.message

/-- The work of one action, up to its result. -/
inductive Work where
  | done (result : Except ConceptError Fields)
  | store (name : String) (op : Store.Op) (next : Except StoreError op.Result → Work)
  | clock (next : Timestamp → Work)
  | cell (name : String) (change : Fields → Fields) (next : Fields → Work)
  | request (next : String → Work)
  | respond (id : String) (payload : Fields) (next : Except RespondError Unit → Work)
  | pause (ms : Nat) (next : Work)

instance : Inhabited Work := ⟨.done (.ok .empty)⟩

/-- A concept: the actions it declares and the work it does for them. -/
structure Concept where
  interface : List ActionSpec
  perform : String → Fields → Work

namespace Work

/-- Succeeds with an output. -/
def succeed (output : Fields) : Work := .done (.ok output)

/-- Fails with an error. -/
def fail (error : ConceptError) : Work := .done (.error error)

/-- Performs a store operation; its error is the error of the action. -/
def onStore (name : String) (op : Store.Op) (next : op.Result → Work) : Work :=
  .store name op fun
    | .ok r => next r
    | .error e => fail (.store e)

end Work

/-- The output recorded for a result; an error becomes an output with its message. -/
def outputOf : Except ConceptError Fields → Fields
  | .ok output => output
  | .error e => errorOutput e.message

/--
What the concepts of an engine share: the time in milliseconds, how often the calendar clock was read, how
many identifiers were drawn and alarms set, the response slots, the stores and the memory cells.
-/
structure Resources where
  now : Nat := 0
  readings : Nat := 0
  drawn : Nat := 0
  alarms : Nat := 0
  slots : Slots := {}
  stores : KeyMap Store := .empty
  cells : KeyMap Fields := .empty

namespace Resources

/-- The text of the `n`-th identifier: `n` in twelve hexadecimal digits behind a fixed part. -/
def idText (n : Nat) : String :=
  let ds := Nat.toDigits 16 n
  "00000000-0000-4000-8000-" ++ String.ofList (List.replicate (12 - ds.length) '0' ++ ds)

/-- A fresh identifier. -/
def drawId (r : Resources) : String × Resources :=
  (idText (r.drawn + 1), { r with drawn := r.drawn + 1 })

/-- The first instant of the calendar clock, in nanoseconds. -/
def epoch : Nat := 1767225600 * 1000000000

/-- A reading of the calendar clock, later than every reading before. -/
def readClock (r : Resources) : Timestamp × Resources :=
  (⟨epoch + r.readings + 1⟩, { r with readings := r.readings + 1 })

/-- The store of a name, in memory and empty unless there is one. -/
def storeNamed (r : Resources) (name : String) : Store :=
  (r.stores.get? name).getD (.volatile {})

/--
Performs an operation on a store, while its database fails as it does; an inserted document gets a fresh
identifier.
-/
def onStore (r : Resources) (name : String) (op : Store.Op)
    (fails : Store.Failures := fun _ => none) : Except StoreError op.Result × Resources :=
  let (id, drawn) := r.drawId
  let r := if Store.takesId op then drawn else r
  let (result, store) := (r.storeNamed name).perform id op fails
  (result, { r with stores := r.stores.insert name store })

end Resources

/-- How far work got: to its result, or to a pause that ends at a point in time. -/
inductive Progress where
  | finished (result : Except ConceptError Fields)
  | paused (wake : Nat) (alarm : Nat) (rest : Work)

namespace Work

/--
Does work up to its result or to a pause that is not over at once, while the database fails in the `n`-th
operation as `fails n` says.
-/
def run (r : Resources) (w : Work) (fails : Nat → Store.Failures := fun _ _ => none) :
    Progress × Resources :=
  match w with
  | done result => (.finished result, r)
  | store name op next =>
    let (result, r) := r.onStore name op (fails 0)
    (next result).run r fun n => fails (n + 1)
  | clock next =>
    let (time, r) := r.readClock
    (next time).run r fails
  | cell name change next =>
    let contents := change ((r.cells.get? name).getD .empty)
    (next contents).run { r with cells := r.cells.insert name contents } fails
  | request next =>
    let (id, r) := r.drawId
    (next id).run { r with slots := r.slots.request id } fails
  | respond id payload next =>
    match r.slots.respond id payload with
    | .ok slots => (next (.ok ())).run { r with slots } fails
    | .error e => (next (.error e)).run r fails
  | pause ms next =>
    if ms = 0 then next.run r fails
    else (.paused (r.now + ms) (r.alarms + 1) next, { r with alarms := r.alarms + 1 })

end Work

end Synchrony
