import Mathlib.Data.List.Basic
import Synchrony.Concepts.Requesting
import Synchrony.World

/-!
# Calls about requests, in any order

An `Exchange` is the slots together with what is under way on them: responses that are about to be
sent, and parties that wait. Any number of calls take their steps on it in any order; a respond takes
two steps, and waiting begins, is woken by a response or by its timer, or is cancelled. The history
keeps what the calls came to.
-/

namespace Synchrony

/-- What a call came to. -/
inductive Happening where
  | issued (id : String)
  | accepted (id : String) (input : Fields)
  | refused (input : Fields) (error : RespondError)
  | began (process : Nat) (id : String)
  | rejected (process : Nat) (id : String) (error : RequestError)
  | ended (process : Nat) (id : String) (outcome : Except RequestError Fields)
  | cancelled (process : Nat) (id : String)
  | forgotten (id : String)

/-- A step of a call. -/
inductive Act where
  /-- A request is issued under a fresh identifier. -/
  | request (id : String)
  /-- A respond is refused, or takes the right to respond. -/
  | respond (input : Fields)
  /-- A respond that took the right to respond sends and returns. -/
  | send (id : String)
  | await (process : Nat) (id : String)
  /-- A waiting process is woken, by a response or because its time may be up. -/
  | poll (process : Nat) (id : String) (limit : Nat) (timeUp : Bool)
  | cancel (process : Nat) (id : String)
  | abandon (id : String)
  | release (report : Report)
  /-- The processes that a change concerns are told. -/
  | deliver

/-- The slots, the responses about to be sent, who waits for what, and what happened so far. -/
structure Exchange where
  slots : Slots := {}
  sending : List (String × Fields) := []
  awaits : List (String × Nat) := []
  history : List Happening := []

/-! ### What happened to one request -/

namespace Happening

/-- Whether the request was issued. -/
@[simp] def issues (id : String) : Happening → Bool
  | issued i => i == id
  | _ => false

/-- Whether the request was forgotten without an await that ended. -/
@[simp] def forgets (id : String) : Happening → Bool
  | forgotten i => i == id
  | _ => false

/-- The input of a respond that succeeded for the request. -/
@[simp] def accepted? (id : String) : Happening → Option Fields
  | accepted i input => if i = id then some input else none
  | _ => none

/-- The process that began to wait for the request. -/
@[simp] def began? (id : String) : Happening → Option Nat
  | began process i => if i = id then some process else none
  | _ => none

/-- The outcome of an await of the request. -/
@[simp] def ended? (id : String) : Happening → Option (Except RequestError Fields)
  | ended _ i outcome => if i = id then some outcome else none
  | _ => none

/-- The process that gave up waiting for the request. -/
@[simp] def cancelled? (id : String) : Happening → Option Nat
  | cancelled process i => if i = id then some process else none
  | _ => none

/-- Whether the request is issued and not forgotten, given whether it was before. -/
@[simp] def knows (id : String) (known : Bool) : Happening → Bool
  | issued i => known || i == id
  | ended _ i _ => known && i != id
  | forgotten i => known && i != id
  | _ => known

end Happening

namespace Exchange

/-- Whether a request was issued. -/
def issued (s : Exchange) (id : String) : Bool := s.history.any (·.issues id)

/-- Whether a request was abandoned or released. -/
def forgotten (s : Exchange) (id : String) : Bool := s.history.any (·.forgets id)

/-- The inputs of the responds that returned success for a request. -/
def accepted (s : Exchange) (id : String) : List Fields := s.history.filterMap (·.accepted? id)

/-- The processes that began to wait for a request. -/
def begun (s : Exchange) (id : String) : List Nat := s.history.filterMap (·.began? id)

/-- The outcomes of the awaits of a request. -/
def ended (s : Exchange) (id : String) : List (Except RequestError Fields) :=
  s.history.filterMap (·.ended? id)

/-- The payloads that awaits of a request returned. -/
def returned (s : Exchange) (id : String) : List Fields := (s.ended id).filterMap Except.toOption

/-- The processes that gave up waiting for a request. -/
def cancelled (s : Exchange) (id : String) : List Nat := s.history.filterMap (·.cancelled? id)

/-- Whether a request was issued and is not forgotten since. -/
def knows (s : Exchange) (id : String) : Bool := s.history.foldl (Happening.knows id) false

/-! ### Steps -/

/-- Only adds to the history. -/
def note (s : Exchange) (h : Happening) : Exchange := { s with history := s.history ++ [h] }

/-- Forgets requests. -/
def forget (s : Exchange) (ids : List String) : Exchange :=
  { s with
    slots := s.slots.release ids
    history := s.history ++ ids.map .forgotten }

/-- What an act makes of the exchange, if it can happen. -/
def step? (s : Exchange) : Act → Option Exchange
  | .request id =>
    if s.issued id then none
    else some ({ s with slots := s.slots.request id }.note (.issued id))
  | .respond input =>
    match Requesting.addressee? input with
    | none => some (s.note (.refused input .missingRequest))
    | some id =>
      match s.slots.take id with
      | .error e => some (s.note (.refused input e))
      | .ok slots => some { s with slots, sending := s.sending ++ [(id, input)] }
  | .send id =>
    (s.sending.find? (·.1 = id)).map fun (_, input) =>
      { s with
        slots := s.slots.send id (Requesting.payloadOf input)
        sending := s.sending.eraseP (·.1 = id) }.note (.accepted id input)
  | .await process id =>
    match s.slots.beginAwait process id with
    | .error e => some (s.note (.rejected process id e))
    | .ok slots =>
      some ({ s with slots, awaits := s.awaits ++ [(id, process)] }.note (.began process id))
  | .poll process id limit timeUp =>
    if (id, process) ∈ s.awaits then
      match s.slots.pollAwait id limit timeUp with
      | none => some s
      | some (outcome, slots) =>
        some ({ s with slots, awaits := s.awaits.erase (id, process) }.note
          (.ended process id outcome))
    else none
  | .cancel process id =>
    if (id, process) ∈ s.awaits then
      some ({ s with
        slots := s.slots.stopAwait id
        awaits := s.awaits.erase (id, process) }.note (.cancelled process id))
    else none
  | .abandon id => some (s.forget [id])
  | .release report => some (s.forget report.nestedRequests)
  | .deliver => some { s with slots := { s.slots with woken := [] } }

/-- A call of the action `respond` takes the two steps of a respond at once, and uses no store. -/
lemma run_respond (input : Fields) (r : Resources) (fails : Nat → Store.Failures) :
    (Requesting.respond input).run r fails =
      match Requesting.addressee? input with
      | none => (.finished (.ok (errorOutput RespondError.missingRequest.message)), r)
      | some id =>
        match r.slots.take id with
        | .error e => (.finished (.ok (errorOutput e.message)), r)
        | .ok slots =>
          (.finished (.ok (Requesting.named id)),
            { r with slots := slots.send id (Requesting.payloadOf input) }) := by
  rw [Requesting.respond]
  cases Requesting.addressee? input with
  | none => rfl
  | some id =>
    dsimp only
    rw [Work.run, Slots.respond]
    cases r.slots.take id <;> rfl

/-- What acts, one after the other, make of the exchange, if they can happen. -/
def run (s : Exchange) : List Act → Option Exchange
  | [] => some s
  | act :: rest => (s.step? act).bind fun s => s.run rest

/-- What every step preserves holds after every run. -/
lemma run_induction {P : Exchange → Prop}
    (hstep : ∀ s s' act, P s → s.step? act = some s' → P s') {s s' : Exchange} {acts : List Act}
    (hs : P s) (h : s.run acts = some s') : P s' := by
  induction acts generalizing s with
  | nil =>
    cases h
    exact hs
  | cons act rest ih =>
    obtain ⟨s₁, hs₁, hrest⟩ := Option.bind_eq_some_iff.1 h
    exact ih (hstep s s₁ act hs hs₁) hrest

/-- A request is issued and awaited, and the response comes when the time is up. -/
def answering : List Act :=
  [.request "r", .await 1 "r", .abandon "other", .await 2 "r",
    .respond (KeyMap.ofList [("request", .str "r"), ("list", .str "abc")]), .send "r",
    .respond (KeyMap.ofList [("request", .str "r"), ("list", .str "def")]), .poll 1 "r" 5 true]

/-- What becomes of the exchange. -/
def answered : Exchange := (run {} answering).getD {}

lemma run_answering : run {} answering = some answered := rfl

end Exchange

end Synchrony
