import Synchrony.Concepts.Requesting
import Synchrony.Engine

/-!
# Bursts over concepts at work

A `World` is an engine together with what its concepts share. A burst that was opened runs on until
a concept pauses or the burst is over; a call of an action outside any burst does likewise. Meanwhile
the database of a store on disk may fail: `fails n k` says how it does in the operation `k` of the call
that a burst makes after `n` records.
-/

namespace Synchrony

/-- An engine and what its concepts share. -/
structure World where
  engine : Engine Concept
  resources : Resources := {}

/-- A burst in progress: a concept pauses in one of its calls, or the burst is over. -/
inductive Running where
  | calling (burst : Burst) (pending : Pending) (args : Fields) (wake alarm : Nat) (rest : Work)
  | over (report : Report)

/-- A burst whose stimulus is in progress: the concept pauses, or the burst is open. -/
inductive Opening where
  | calling (id : String) (action : ActionRef) (input : Fields) (wake alarm : Nat) (rest : Work)
  | opened (burst : Burst)

/-- The requests that a burst made, beside its stimulus. -/
def Report.nestedRequests (report : Report) : List String :=
  let nested := (report.recordsOf Requesting.requestAction).filter (·.seq ≠ report.root.seq)
  nested.filterMap (·.output.string? Requesting.requestField)

namespace World

/-- Runs a burst from a step to the next pause or to its end. -/
def drive (w : World) (step : Step Concept)
    (fails : Nat → Nat → Store.Failures := fun _ _ _ => none) : Running × World :=
  match step with
  | .over report => (.over report, w)
  | .call b pending args handle =>
    match (handle.performer.perform handle.action.action args).run w.resources
      (fails b.appended) with
    | (.paused wake alarm rest, r) =>
      (.calling b pending args wake alarm rest, { w with resources := r })
    | (.finished result, r) =>
      let (time, r) := r.readClock
      let next := w.engine.answer b pending args (outputOf result) time
      drive ⟨next.2, r⟩ next.1 fails
termination_by step.callsLeft w.engine.limits
decreasing_by
  simp only [Engine.limits_answer]
  exact Engine.callsLeft_answer_lt ..

/-- Runs an open burst to the next pause or to its end. -/
def startBurst (w : World) (b : Burst)
    (fails : Nat → Nat → Store.Failures := fun _ _ _ => none) : Running × World :=
  let (step, engine) := w.engine.start b
  drive { w with engine } step fails

/-- Lets a burst go on whose concept's pause may be over. -/
def resume (w : World) (running : Running)
    (fails : Nat → Nat → Store.Failures := fun _ _ _ => none) : Running × World :=
  match running with
  | .over report => (.over report, w)
  | .calling b pending args wake alarm rest =>
    if w.resources.now < wake then (.calling b pending args wake alarm rest, w)
    else
      match rest.run w.resources (fails b.appended) with
      | (.paused wake alarm rest, r) =>
        (.calling b pending args wake alarm rest, { w with resources := r })
      | (.finished result, r) =>
        let (time, r) := r.readClock
        let (step, engine) := w.engine.answer b pending args (outputOf result) time
        drive ⟨engine, r⟩ step fails

/-- Opens a burst if the work of its stimulus is finished. -/
def opening (w : World) (id : String) (action : ActionRef) (input : Fields) :
    Progress × Resources → Opening × World
  | (.paused wake alarm rest, r) =>
    (.calling id action input wake alarm rest, { w with resources := r })
  | (.finished result, r) =>
    let (time, r) := r.readClock
    let (b, engine) := w.engine.openBurst id action input (outputOf result) time
    (.opened b, ⟨engine, r⟩)

/-- Invokes an action as the stimulus of a new burst. -/
def begin (w : World) (action : ActionRef) (input : Fields)
    (fails : Nat → Store.Failures := fun _ _ => none) : Except RegistryError (Opening × World) :=
  match w.engine.registry.resolve action with
  | .error e => .error e
  | .ok handle =>
    let (id, r) := w.resources.drawId
    .ok (w.opening id action input ((handle.performer.perform action.action input).run r fails))

/-- Lets a stimulus go on whose concept's pause may be over. -/
def resumeOpening (w : World) (o : Opening) (fails : Nat → Store.Failures := fun _ _ => none) :
    Opening × World :=
  match o with
  | .opened b => (.opened b, w)
  | .calling id action input wake alarm rest =>
    if w.resources.now < wake then (.calling id action input wake alarm rest, w)
    else w.opening id action input (rest.run w.resources fails)

/-- Registers a concept, or says why it cannot be. -/
def register (w : World) (name : String) (concept : Concept) : Except RegistryError World :=
  (w.engine.register name concept.interface concept).map fun engine => { w with engine }

/-- Checks and installs a batch of rules. -/
def install (w : World) (batch : List Rule) : Installation × World :=
  let (done, engine) := w.engine.install batch
  (done, { w with engine })

/-- Forgets the slots of all requests that a burst made, beside that of its stimulus. -/
def releaseNested (w : World) (report : Report) : World :=
  let slots := w.resources.slots.release report.nestedRequests
  { w with resources := { w.resources with slots } }

end World

end Synchrony
