import Synchrony.World

/-!
# Waiting for responses

A process waits for the response of a request up to a deadline. The response counts even if it and
the deadline come at the same time.
-/

namespace Synchrony

/-- A wait in progress: for which request, for how long, and when the time is up. -/
structure Await where
  request : String
  limit : Nat
  deadline : Nat
  alarm : Nat
deriving DecidableEq

namespace World

/-- The world with other slots. -/
def withSlots (w : World) (slots : Slots) : World :=
  { w with resources := { w.resources with slots } }

/-- Begins to wait on behalf of a process. -/
def beginAwait (w : World) (process : Nat) (request : String) (limit : Nat) :
    Except RequestError (Await × World) :=
  match w.resources.slots.beginAwait process request with
  | .error e => .error e
  | .ok slots =>
    let r := { w.resources with slots, alarms := w.resources.alarms + 1 }
    .ok (⟨request, limit, r.now + limit, r.alarms⟩, { w with resources := r })

/-- Whether the time of a wait is up. -/
def timeUp (w : World) (a : Await) : Bool := a.deadline ≤ w.resources.now

/-- The outcome of waiting, if there is one. -/
def pollAwait (w : World) (a : Await) (timeUp : Bool) :
    Option (Except RequestError Fields × World) :=
  (w.resources.slots.pollAwait a.request a.limit timeUp).map
    fun (outcome, slots) => (outcome, w.withSlots slots)

/-- Gives up waiting. -/
def stopAwait (w : World) (a : Await) : World :=
  w.withSlots (w.resources.slots.stopAwait a.request)

/-- Forgets a request. -/
def abandon (w : World) (request : String) : World :=
  w.withSlots (w.resources.slots.abandon request)

end World

end Synchrony
