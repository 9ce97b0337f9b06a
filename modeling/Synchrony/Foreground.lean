import Synchrony.Host

/-!
# Activities in the foreground

What a host can be asked to do while its background processes go on: call an action, run a burst, wait
for a response or for a background process, or let time pass. An activity has no result only if the
host gives it up.
-/

namespace Synchrony

/-- The stimulus of a burst in progress, or the burst in progress. -/
inductive Stimulus where
  | opening (o : Opening)
  | running (r : Running)

namespace Host

/-- The host with another world. -/
def withWorld (h : Host) (world : World) : Host := { h with world }

/-- Ends or keeps a call outside any burst. -/
def settleWork (h : Host) : Progress × Resources → Poll (Nat × Work) (Except ConceptError Fields) × Host
  | (.finished result, r) => (.ready result, h.withWorld { h.world with resources := r })
  | (.paused wake _ rest, r) =>
    (.pending (wake, rest), h.withWorld { h.world with resources := r })

/-- Calls an action outside any burst. -/
def perform (h : Host) (work : Work) : Option (Except ConceptError Fields) × Host :=
  let poll (h : Host) (s : Nat × Work) :=
    if h.world.resources.now < s.1 then (.pending s, h)
    else settleWork h (s.2.run h.world.resources)
  h.block poll (fun s => some s.1) (h.world.resources.now, work)

/-- Ends or keeps a burst. -/
def settleRunning (h : Host) : Running × World → Poll Stimulus Report × Host
  | (.over report, w) => (.ready report, h.withWorld w)
  | (r, w) => (.pending (.running r), h.withWorld w)

/-- Lets a burst go on. -/
def pollStimulus (h : Host) : Stimulus → Poll Stimulus Report × Host
  | .opening o =>
    match h.world.resumeOpening o with
    | (.opened b, w) => settleRunning h (w.startBurst b)
    | (o, w) => (.pending (.opening o), h.withWorld w)
  | .running r => settleRunning h (h.world.resume r)

/-- When a stimulus or a burst goes on by itself. -/
def stimulusAlarm? : Stimulus → Option Nat
  | .opening (.calling _ _ _ wake _ _) => some wake
  | .running (.calling _ _ _ wake _ _) => some wake
  | _ => none

/-- Runs a burst to its end. -/
def run (h : Host) (b : Burst) : Option Report × Host :=
  h.block pollStimulus stimulusAlarm? (.opening (.opened b))

/-- Invokes an action as the stimulus of a burst and runs the burst to its end. -/
def stimulate (h : Host) (action : ActionRef) (input : Fields) :
    Except RegistryError (Option Report × Host) :=
  (h.world.begin action input).map fun (o, w) =>
    (h.withWorld w).block pollStimulus stimulusAlarm? (.opening o)

/-- Invokes an action as the stimulus of a burst that is left open. -/
def openBurst (h : Host) (action : ActionRef) (input : Fields) :
    Except RegistryError (Option Burst × Host) :=
  let poll (h : Host) (o : Opening) : Poll Opening Burst × Host :=
    match h.world.resumeOpening o with
    | (.opened b, w) => (.ready b, h.withWorld w)
    | (o, w) => (.pending o, h.withWorld w)
  let alarm? : Opening → Option Nat
    | .calling _ _ _ wake _ _ => some wake
    | .opened _ => none
  (h.world.begin action input).map fun (o, w) => (h.withWorld w).block poll alarm? o

/-- Waits for the response of a request. -/
def awaitResponse (h : Host) (request : String) (limit : Nat) :
    Option (Except RequestError Fields) × Host :=
  match h.world.beginAwait 0 request limit with
  | .error e => (some (.error e), h)
  | .ok (a, w) =>
    let poll (h : Host) (a : Await) : Poll Await (Except RequestError Fields) × Host :=
      match h.world.pollAwait a (h.world.timeUp a) with
      | some (response, w) => (.ready response, h.withWorld w)
      | none => (.pending a, h)
    (h.withWorld w).block poll (fun a => some a.deadline) a

/-- Waits for the response of a request in the background, and lets the background go on. -/
def awaitInBackground (h : Host) (request : String) (limit : Nat) : Nat × Host :=
  let (n, h) := h.spawn (.await request limit)
  (n, h.yield)

/-- Waits for a background process. -/
def join (h : Host) (n : Nat) : Option Outcome × Host :=
  let poll (h : Host) (_ : Unit) : Poll Unit Outcome × Host :=
    match h.outcome? n with
    | some outcome => (.ready outcome, h)
    | none => (.pending (), h)
  h.block poll (fun _ => none) ()

/-- Lets time pass. -/
def sleep (h : Host) (ms : Nat) : Host :=
  let wake := h.world.resources.now + ms
  let poll (h : Host) (_ : Unit) : Poll Unit Unit × Host :=
    if h.world.resources.now < wake then (.pending (), h) else (.ready (), h)
  (h.block poll (fun _ => some wake) ()).2

end Host

end Synchrony
