import Synchrony.Record

/-!
# Response slots

A request from outside gets an identifier and a slot. One party may take the right to respond and
send a response, and one party may wait for it; the two arrive in any order. A party that waits holds
its own end of the slot, so it still gets a response when the slot is forgotten, and a slot that is
forgotten before anybody took the right to respond tells the waiting party so.
-/

namespace Synchrony

/-- Why nobody gets a response. -/
inductive RequestError where
  | timeout (request : String) (limit : Nat)
  | unknownRequest (request : String)
  | alreadyAwaited (request : String)
deriving DecidableEq

/-- The text of the error. -/
def RequestError.message : RequestError → String
  | timeout request limit =>
    s!"timed out after {limit}ms waiting for a response to request {request}"
  | unknownRequest request => s!"unknown request: {request}"
  | alreadyAwaited request => s!"request {request} is already being awaited"

/-- Why a response is refused. -/
inductive RespondError where
  | missingRequest
  | unknownRequest (request : String)
  | alreadyAnswered (request : String)
deriving DecidableEq

/-- The text of the refusal. -/
def RespondError.message : RespondError → String
  | missingRequest => "respond requires a string 'request' field"
  | unknownRequest request => s!"unknown request: {request}"
  | alreadyAnswered request => s!"request {request} already has a response"

/--
A live slot: whether the right to respond is taken, the response it got, and whether somebody waits
or waited for it.
-/
structure Slot where
  answered : Bool := false
  response : Option Fields := none
  awaited : Bool := false

/-- What a waiting party sees at its end of the slot. -/
inductive Delivery where
  | pending
  | delivered (payload : Fields)
  | closed

/-- A waiting party: the process it belongs to and what it sees. -/
structure Waiting where
  process : Nat
  sees : Delivery := .pending

/-- The live slots, the waiting parties, and the processes that a change concerns. -/
structure Slots where
  live : KeyMap Slot := .empty
  waiting : KeyMap Waiting := .empty
  woken : List Nat := []

namespace Slots

/-- Opens a slot for a fresh request. -/
def request (s : Slots) (id : String) : Slots := { s with live := s.live.insert id {} }

/-- Shows a waiting party what became of its slot, and notes its process. -/
def notify (s : Slots) (id : String) (seen : Delivery) : Slots :=
  match s.waiting.get? id with
  | some w =>
    match w.sees with
    | .pending =>
      { s with
        waiting := s.waiting.insert id { w with sees := seen }
        woken := s.woken ++ [w.process] }
    | _ => s
  | none => s

/-- Takes the right to respond, which a slot gives once. -/
def take (s : Slots) (id : String) : Except RespondError Slots :=
  match s.live.get? id with
  | none => .error (.unknownRequest id)
  | some slot =>
    if slot.answered then .error (.alreadyAnswered id)
    else .ok { s with live := s.live.insert id { slot with answered := true } }

/-- Sends the response: into the slot, if it is still live, and to the party that waits. -/
def send (s : Slots) (id : String) (payload : Fields) : Slots :=
  let s := match s.live.get? id with
    | some slot => { s with live := s.live.insert id { slot with response := some payload } }
    | none => s
  s.notify id (.delivered payload)

/-- Puts the one response into a slot. -/
def respond (s : Slots) (id : String) (payload : Fields) : Except RespondError Slots :=
  (s.take id).map (·.send id payload)

/-- Begins to wait for the response of a slot. -/
def beginAwait (s : Slots) (process : Nat) (id : String) : Except RequestError Slots :=
  match s.live.get? id with
  | none => .error (.unknownRequest id)
  | some slot =>
    if slot.awaited then .error (.alreadyAwaited id)
    else
      let seen := match slot.response with
        | some payload => Delivery.delivered payload
        | none => .pending
      .ok { s with
        live := s.live.insert id { slot with awaited := true }
        waiting := s.waiting.insert id ⟨process, seen⟩ }

/-- Forgets a slot; a party that waits gets no response any more unless one is on its way. -/
def abandon (s : Slots) (id : String) : Slots :=
  match s.live.get? id with
  | none => s
  | some slot =>
    let s := { s with live := s.live.erase id }
    if slot.answered then s else s.notify id .closed

/-- Forgets several slots. -/
def release (s : Slots) (ids : List String) : Slots := ids.foldl abandon s

/-- Gives up waiting and leaves the slot as it is. -/
def stopAwait (s : Slots) (id : String) : Slots := { s with waiting := s.waiting.erase id }

/-- Ends the waiting for a slot and forgets the slot. -/
def endAwait (s : Slots) (id : String) : Slots := (s.stopAwait id).abandon id

/--
Looks for the outcome of waiting: the response if there is one, else an error if the slot was
forgotten or the time is up, else nothing yet. With an outcome the slot is forgotten.
-/
def pollAwait (s : Slots) (id : String) (limit : Nat) (timeUp : Bool) :
    Option (Except RequestError Fields × Slots) :=
  match s.waiting.get? id with
  | some ⟨_, .delivered payload⟩ => some (.ok payload, s.endAwait id)
  | some ⟨_, .pending⟩ => if timeUp then some (.error (.timeout id limit), s.endAwait id) else none
  | _ => some (.error (.unknownRequest id), s.endAwait id)

/-- How many slots are live. -/
def outstanding (s : Slots) : Nat := s.live.size

end Slots

end Synchrony
