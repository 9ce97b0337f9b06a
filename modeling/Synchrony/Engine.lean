import Synchrony.Burst
import Synchrony.Log
import Synchrony.RuleTable

/-!
# The engine

The engine has the declared actions, the installed rules and the log, and takes bursts through their
steps. A step begins when the output of a call is known: the call is recorded, the record is
evaluated, and the burst either dispatches its next call or is over. Between two steps of a burst
other bursts may take theirs.
-/

namespace Synchrony

/-- Limits, declared actions, installed rules and the log. -/
structure Engine (ι : Type) where
  limits : Limits
  registry : Registry ι := .empty
  rules : RuleTable := {}
  log : Log

/-- Where a burst stands after a step: it calls an action, or it is over. -/
inductive Step (ι : Type) where
  | call (burst : Burst) (pending : Pending) (args : Fields) (handle : Handle ι)
  | over (report : Report)

/-- How many calls a burst may still take, counting the one it stands at. -/
def Step.callsLeft {ι : Type} (limits : Limits) : Step ι → Nat
  | .call b _ _ _ => limits.maxActions - b.appended + 1
  | .over _ => 0

namespace Engine

variable {ι : Type}

/-- The rules that the latest record of a burst completes, with their matches. -/
def matchesOf (e : Engine ι) (record : Record) : List (Rule × Match) :=
  e.rules.completedBy (e.log.burstRecords record.burst) record

/-- Registers a concept, or says why it cannot be. -/
def register (e : Engine ι) (concept : String) (interface : List ActionSpec) (performer : ι) :
    Except RegistryError (Engine ι) :=
  (e.registry.register concept interface performer).map fun registry => { e with registry }

/-- Checks and installs a batch of rules. -/
def install (e : Engine ι) (batch : List Rule) : Installation × Engine ι :=
  let (rules, done) := e.rules.install e.registry.contains batch
  (done, { e with rules })

/-- Opens a burst with the record of its stimulus. -/
def openBurst (e : Engine ι) (id : String) (action : ActionRef) (input output : Fields)
    (time : Timestamp) : Burst × Engine ι :=
  let (root, log) := e.log.append ⟨id, 0, action, input, output, none, time⟩
  ({ id, root }, { e with log })

/-- Closes a burst. -/
def close (e : Engine ι) (b : Burst) (failure : Option BurstFailure) : Report × Engine ι :=
  let (records, log) := e.log.closeBurst b.id
  (⟨b.id, b.root, records, b.firings, failure⟩, { e with log })

/-- Goes on to the next call of a burst, or closes it. -/
def advance (e : Engine ι) (b : Burst) : Step ι × Engine ι :=
  match nextTurn e.limits e.registry.lookup? b.id b.appended b.queue with
  | .over failure => let (report, e) := e.close b failure; (.over report, e)
  | .dispatch pending args handle rest => (.call { b with queue := rest } pending args handle, e)

/-- Evaluates a record of a burst: the rules it completes fire, unless the burst has to end. -/
def observe (e : Engine ι) (b : Burst) (record : Record) (chain : List (List Char)) :
    Burst × Option BurstFailure :=
  let seen := evaluate e.limits b.id record chain (e.matchesOf record)
  ({ b with firings := b.firings ++ seen.firings, queue := seen.queued ++ b.queue }, seen.failure)

/-- Goes on after an evaluation, or closes a burst that failed in it. -/
def proceed (e : Engine ι) (b : Burst) : Option BurstFailure → Step ι × Engine ι
  | some failure => let (report, e) := e.close b (some failure); (.over report, e)
  | none => e.advance b

/-- Evaluates a record of a burst and goes on. -/
def react (e : Engine ι) (b : Burst) (record : Record) (chain : List (List Char)) :
    Step ι × Engine ι :=
  let (b, failure) := e.observe b record chain
  e.proceed b failure

/-- The first step of an open burst: the stimulus is evaluated. -/
def start (e : Engine ι) (b : Burst) : Step ι × Engine ι := e.react b b.root []

/-- Records a call that was dispatched. -/
def recordCall (e : Engine ι) (b : Burst) (pending : Pending) (args output : Fields)
    (time : Timestamp) : Record × Burst × Engine ι :=
  let (record, log) := e.log.append
    ⟨b.id, pending.depth, pending.invocation.action, args, output, some pending.rule, time⟩
  (record, { b with appended := b.appended + 1 }, { e with log })

/-- The step after a call: the call is recorded and evaluated. -/
def answer (e : Engine ι) (b : Burst) (pending : Pending) (args output : Fields)
    (time : Timestamp) : Step ι × Engine ι :=
  let (record, b, e) := e.recordCall b pending args output time
  e.react b record pending.chain

/-! ### The steps of a burst are bounded -/

theorem callsLeft_advance (e : Engine ι) (b : Burst) :
    (e.advance b).1.callsLeft e.limits ≤ e.limits.maxActions - b.appended + 1 ∧
      (e.limits.maxActions ≤ b.appended → (e.advance b).1.callsLeft e.limits = 0) := by
  unfold advance
  split
  · simp [Step.callsLeft]
  · rename_i h
    have := nextTurn_dispatch h
    exact ⟨by simp [Step.callsLeft], fun _ => by omega⟩

theorem callsLeft_react (e : Engine ι) (b : Burst) (record : Record) (chain : List (List Char)) :
    (e.react b record chain).1.callsLeft e.limits ≤ e.limits.maxActions - b.appended + 1 ∧
      (e.limits.maxActions ≤ b.appended → (e.react b record chain).1.callsLeft e.limits = 0) := by
  simp only [react]
  cases h : (e.observe b record chain).2 with
  | some failure => simp [proceed, Step.callsLeft]
  | none => exact callsLeft_advance e _

theorem limits_react (e : Engine ι) (b : Burst) (record : Record) (chain : List (List Char)) :
    (e.react b record chain).2.limits = e.limits := by
  simp only [react]
  cases h : (e.observe b record chain).2 with
  | some failure => rfl
  | none =>
    simp only [proceed, advance, close]
    split <;> rfl

/-- Every call leaves fewer calls to take. -/
theorem callsLeft_answer_lt (e : Engine ι) (b : Burst) (pending : Pending) (args output : Fields)
    (time : Timestamp) :
    (e.answer b pending args output time).1.callsLeft e.limits <
      e.limits.maxActions - b.appended + 1 := by
  obtain ⟨hle, hzero⟩ := callsLeft_react (e.recordCall b pending args output time).2.2
    { b with appended := b.appended + 1 } (e.recordCall b pending args output time).1 pending.chain
  by_cases hb : e.limits.maxActions ≤ b.appended + 1
  · exact Nat.lt_of_le_of_lt (Nat.le_of_eq (hzero hb)) (Nat.succ_pos _)
  · refine Nat.lt_of_le_of_lt hle ?_
    change e.limits.maxActions - (b.appended + 1) + 1 < _
    omega

theorem limits_answer (e : Engine ι) (b : Burst) (pending : Pending) (args output : Fields)
    (time : Timestamp) : (e.answer b pending args output time).2.limits = e.limits :=
  limits_react ..

end Engine

end Synchrony
