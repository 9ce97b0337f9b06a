import Mathlib.Logic.Function.Basic
import Synchrony.Proofs.Burst.Calls
import Synchrony.Proofs.Http.Look

/-!
# A server at work

A `Server` is the traffic of bursts on an engine together with the calls that it serves and the slots
of their requests. `Server.Step` says what can happen next, one rule for each thing: calls arrive, on
listed paths and on others, their bursts take their steps, a burst that is over becomes known to its
call, the timer of a call fires, a call looks at what there is, and a client gives up its call. All of
this happens in any order. That a timer fires is one thing, and that its call looks again is another:
in between the response may come, or the failure of the burst, and which of the two sides a look turns
to first is open.

What a call of the concept `Requesting` does, it does on the slots in the steps of its work; what any
other call returns, and when, is open. `Server.signs` keeps what happened, in its order.
-/

namespace Synchrony.Http

open Requesting

/-- What a call about requests has come to, before the burst that made it goes on. -/
inductive Underway where
  /-- A respond took the right to respond, and is about to send. -/
  | sending (request : String) (args : Fields)
  | returned (output : Fields)

/-- Where a call that is served stands. -/
inductive Stage where
  /-- Its burst is open, and nobody has looked at it yet. -/
  | started
  | polled (call : Call)
  | answered (response : Response)
  | dropped

namespace Stage

/-- Where a look at a call leaves it. -/
def ofPoll : Poll Call Response → Stage
  | .pending call => .polled call
  | .ready response => .answered response

/-- Whether the call still has its request. -/
def isOpen : Stage → Bool
  | started | polled _ => true
  | answered _ | dropped => false

/-- Whether the call waits for the response. -/
def isPolled : Stage → Bool
  | polled _ => true
  | _ => false

end Stage

/-- A call that is served: its burst and its request. A call on a listed path has no request. -/
structure Serving where
  burst : String
  request? : Option String

/-- What happened to a burst or to a call. -/
inductive Sign where
  /-- A request was issued in the burst. -/
  | issued (burst request : String)
  /-- A respond in the burst succeeded. -/
  | responded (burst request : String) (args : Fields)
  /-- The burst of the call ended. -/
  | ended (call : Nat) (failure : Option BurstFailure)
  /-- The timer of the call fired. -/
  | timeUp (call : Nat)

/-- Whether the timer of the call `n` fired. -/
def Sign.isTimer (n : Nat) : Sign → Bool
  | timeUp m => m = n
  | _ => false

/-- The traffic of bursts, the slots, the calls that are served, and what happened so far. -/
structure Server where
  traffic : Traffic Concept
  slots : Slots := {}
  /-- The calls about requests that bursts wait for, as far as they got. -/
  underway : KeyMap Underway := .empty
  calls : List Serving := []
  /-- Where each call stands. -/
  stage : Nat → Stage := fun _ => .started
  /-- What background bursts ended with, by the numbers of their calls. -/
  outcomes : List (Nat × Outcome) := []
  /-- The identifiers that are not fresh. -/
  used : List String := []
  signs : List Sign := []

namespace Server

/-- A server without calls, on an engine and slots that are there already. -/
def idle (e : Engine Concept) (slots : Slots) : Server :=
  { traffic := .idle e, slots, used := slots.live.keys }

/-- The server on a host, which has the clock and everything else that the server leaves open. -/
def on (s : Server) (h : Host) : Host :=
  { h with
    world := ⟨s.traffic.engine, { h.world.resources with slots := s.slots }⟩
    outcomes := s.outcomes }

/-- The server on a host at rest. -/
def host (s : Server) : Host :=
  { world := ⟨s.traffic.engine, { slots := s.slots }⟩, outcomes := s.outcomes }

/-! ### Steps of a burst -/

/-- What a step of a burst makes of the server. -/
inductive Advance (b : String) (s : Server) : Server → Prop where
  | request {args : Fields} {id : String}
      (hcalled : s.traffic.called? b = some (requestAction, args))
      (hidle : s.underway.get? b = none) (hfresh : id ∉ s.used) :
      Advance b s { s with
        slots := s.slots.request id
        underway := s.underway.insert b (.returned (named id))
        used := id :: s.used
        signs := s.signs ++ [.issued b id] }
  | unaddressed {args : Fields} (hcalled : s.traffic.called? b = some (respondAction, args))
      (hidle : s.underway.get? b = none) (haddressee : addressee? args = none) :
      Advance b s { s with
        underway := s.underway.insert b
          (.returned (errorOutput RespondError.missingRequest.message)) }
  | refused {args : Fields} {id : String} {error : RespondError}
      (hcalled : s.traffic.called? b = some (respondAction, args))
      (hidle : s.underway.get? b = none) (haddressee : addressee? args = some id)
      (htake : s.slots.take id = .error error) :
      Advance b s { s with
        underway := s.underway.insert b (.returned (errorOutput error.message)) }
  | took {args : Fields} {id : String} {slots : Slots}
      (hcalled : s.traffic.called? b = some (respondAction, args))
      (hidle : s.underway.get? b = none) (haddressee : addressee? args = some id)
      (htake : s.slots.take id = .ok slots) :
      Advance b s { s with slots, underway := s.underway.insert b (.sending id args) }
  | sent {args : Fields} {id : String} (hsending : s.underway.get? b = some (.sending id args)) :
      Advance b s { s with
        slots := s.slots.send id (payloadOf args)
        underway := s.underway.insert b (.returned (named id))
        signs := s.signs ++ [.responded b id args] }
  /-- A call about requests that came to something is recorded. -/
  | returned {output : Fields} {time : Timestamp} {traffic : Traffic Concept}
      (hreturned : s.underway.get? b = some (.returned output))
      (htraffic : s.traffic.step? (.move b (.answer output time)) = some traffic) :
      Advance b s { s with traffic, underway := s.underway.erase b }
  /-- A call of any other action returns anything, at any time. -/
  | answered {action : ActionRef} {args output : Fields} {time : Timestamp}
      {traffic : Traffic Concept} (hcalled : s.traffic.called? b = some (action, args))
      (hidle : s.underway.get? b = none)
      (hother : action ≠ requestAction ∧ action ≠ respondAction)
      (htraffic : s.traffic.step? (.move b (.answer output time)) = some traffic) :
      Advance b s { s with traffic }
  | goes {move : Move} {traffic : Traffic Concept} (hmove : move = .observe ∨ move = .proceed)
      (htraffic : s.traffic.step? (.move b move) = some traffic) :
      Advance b s { s with traffic }

/-! ### Steps of the server -/

/-- The server with a call that stands elsewhere. -/
def withStage (s : Server) (n : Nat) (stage : Stage) : Server :=
  { s with stage := Function.update s.stage n stage }

/-- The server with one more call, whose burst is open. -/
def withCall (s : Server) (call : Serving) : Server :=
  { s.withStage s.calls.length .started with calls := s.calls ++ [call] }

/-- A call is one of those before, or the new one. -/
lemma call_of_concat {calls : List Serving} {c d : Serving} {n : Nat}
    (h : (calls ++ [c])[n]? = some d) :
    calls[n]? = some d ∨ n = calls.length ∧ d = c := by
  rcases Nat.lt_trichotomy n calls.length with hn | rfl | hn
  · rw [List.getElem?_append_left hn] at h
    exact .inl h
  · rw [List.getElem?_concat_length] at h
    exact .inr ⟨rfl, (Option.some.inj h).symm⟩
  · rw [List.getElem?_eq_none (by simpa using Nat.succ_le_of_lt hn)] at h
    cases h

/-- The burst went down with its call: it takes no steps any more. -/
def Halted (s : Server) (b : String) : Prop :=
  ∃ n, s.calls[n]? = some ⟨b, none⟩ ∧ s.stage n = .dropped

lemma eq_of_calls_eq_singleton {s : Server} {c d : Serving} {n : Nat} (hcalls : s.calls = [c])
    (h : s.calls[n]? = some d) : n = 0 ∧ d = c := by
  rw [hcalls, List.getElem?_singleton] at h
  split at h
  · exact ⟨‹_›, (Option.some.inj h).symm⟩
  · cases h

lemma halted_iff_of_calls_eq_singleton {s : Server} {c : Serving} {b : String}
    (hcalls : s.calls = [c]) : s.Halted b ↔ c = ⟨b, none⟩ ∧ s.stage 0 = .dropped := by
  constructor
  · rintro ⟨n, hcall, hstage⟩
    obtain ⟨rfl, rfl⟩ := eq_of_calls_eq_singleton hcalls hcall
    exact ⟨rfl, hstage⟩
  · rintro ⟨rfl, hstage⟩
    exact ⟨0, by rw [hcalls]; rfl, hstage⟩

/-- Whether the timer of a call fired. -/
def fired (s : Server) (n : Nat) : Bool := s.signs.any (Sign.isTimer n)

/-- What a look at an open call gives on a host: with an order, and with its time up or not. -/
def look (timeoutMs : Nat) (s : Server) (h : Host) (n : Nat) (request : String) (order : Order)
    (timeUp : Bool) : Option (Poll Call Response × Host) :=
  match s.stage n with
  | .started => some (Call.pollStarted order timeUp timeoutMs (s.on h) n request)
  | .polled (.waiting task a) => some (Call.pollWaiting order timeUp (s.on h) task a)
  | .polled (.settling a) => some (Call.pollSettling timeUp (s.on h) a)
  | _ => none

/-- What a step makes of the server. -/
inductive Step (config : RequestingConfig) (s : Server) : Server → Prop where
  /-- A call on a listed path invokes its action as the stimulus of a new burst. -/
  | direct {path : String} {body : List UInt8} {input : Fields} {action : ActionRef} {b : String}
      {traffic : Traffic Concept} (hbody : bodyFields body = .ok input)
      (haction : config.passthroughAction? path = some action)
      (htraffic : s.traffic.step? (.begin b action input) = some traffic) :
      Step config s { s.withCall ⟨b, none⟩ with traffic }
  /-- Any other call becomes a request, which is the stimulus of a new burst. -/
  | routed {path : String} {body : List UInt8} {input : Fields} {b request : String}
      {time : Timestamp} {opening traffic : Traffic Concept} (hbody : bodyFields body = .ok input)
      (haction : config.passthroughAction? path = none)
      (hopening : s.traffic.step? (.begin b requestAction (input.insert "path" (.str path))) =
        some opening)
      (hfresh : request ∉ s.used)
      (htraffic : opening.step? (.move b (.answer (named request) time)) = some traffic) :
      Step config s { s.withCall ⟨b, some request⟩ with
        traffic
        slots := s.slots.request request
        used := request :: s.used
        signs := s.signs ++ [.issued b request] }
  | advance {b : String} {s' : Server} (hgoes : ¬ s.Halted b) (h : Advance b s s') :
      Step config s s'
  /-- A background burst that is over forgets the other requests it issued and leaves its report. -/
  | finish {n : Nat} {b request : String} {report : Report}
      (hcall : s.calls[n]? = some ⟨b, some request⟩) (hgoing : s.outcomes.lookup n = none)
      (hreport : s.traffic.report? b = some report) :
      Step config s { s with
        slots := s.slots.release report.nestedRequests
        outcomes := s.outcomes ++ [(n, .report report)]
        signs := s.signs ++ [.ended n report.failure] }
  /-- A call on a listed path is answered when its burst is over. -/
  | reply {n : Nat} {b : String} {report : Report} (hcall : s.calls[n]? = some ⟨b, none⟩)
      (hstage : s.stage n = .started) (hreport : s.traffic.report? b = some report) :
      Step config s { s.withStage n (.answered (Call.directAnswer report)) with
        signs := s.signs ++ [.ended n report.failure] }
  /-- The timer of an open call fires, which the call sees when it looks next. -/
  | timer {n : Nat} {b request : String} (hcall : s.calls[n]? = some ⟨b, some request⟩)
      (hopen : (s.stage n).isOpen = true) (hrunning : s.fired n = false) :
      Step config s { s with signs := s.signs ++ [.timeUp n] }
  | poll {n : Nat} {b request : String} {order : Order} {p : Poll Call Response} {h h' : Host}
      (hcall : s.calls[n]? = some ⟨b, some request⟩)
      (hlook : s.look config.timeoutMs.toNat h n request order (s.fired n) = some (p, h')) :
      Step config s { s.withStage n (.ofPoll p) with slots := h'.world.resources.slots }
  | drop {n : Nat} {b request : String} {call : Call} {h : Host}
      (hcall : s.calls[n]? = some ⟨b, some request⟩) (hstage : s.stage n = .polled call) :
      Step config s { s.withStage n .dropped with
        slots := (call.drop (s.on h)).world.resources.slots }
  /-- With a call on a listed path its burst is dropped, too. -/
  | hangUp {n : Nat} {b : String} (hcall : s.calls[n]? = some ⟨b, none⟩)
      (hstage : s.stage n = .started) :
      Step config s (s.withStage n .dropped)

/-- What the server can become. -/
inductive Reachable (config : RequestingConfig) (e : Engine Concept) (slots : Slots) :
    Server → Prop where
  | idle : Reachable config e slots (idle e slots)
  | step {s s' : Server} (h : Reachable config e slots s) (hstep : Step config s s') :
      Reachable config e slots s'

end Server

end Synchrony.Http
