import Synchrony.Matching

/-!
# Bursts

A burst is everything that one stimulus causes. Its records are evaluated as they appear: each match
of a rule is a firing, which queues the rule's consequences in front of what is queued already, so
the consequences of a record are dispatched before those of earlier ones. A burst fails if a chain
of firings gets too long or repeats itself, or if the burst takes too many actions.
-/

namespace Synchrony

/-- How long the chains of a burst may get, and how many actions a burst may take. -/
structure Limits where
  maxDepth : UInt32
  maxActions : Nat
deriving DecidableEq

/-- Why a burst ends before nothing is left to dispatch. -/
inductive BurstFailure where
  | depthExceeded (burst : String) (limit : UInt32) (rule : String)
  | budgetExceeded (burst : String) (limit : Nat)
  | cycleDetected (burst : String) (rule : String)
deriving DecidableEq

/-- The text of a failure. -/
def BurstFailure.message : BurstFailure → String
  | depthExceeded burst limit rule =>
    s!"burst {burst} exceeded max depth {limit.toNat} dispatching sync '{rule}'"
  | budgetExceeded burst limit => s!"burst {burst} exceeded the limit of {limit} actions"
  | cycleDetected burst rule =>
    s!"cycle detected: sync '{rule}' re-fired with the same binding on one causal chain " ++
      s!"in burst {burst}"

/-- A rule that fired: the record that completed the match, and the match. -/
structure Firing where
  rule : String
  trigger : Nat
  records : List Nat
  binding : Binding

/-- The text by which firings of one chain are compared. -/
def Firing.keyOf (rule : String) (b : Binding) : List Char := rule.toList ++ ':' :: b.canonical

/-- A consequence that waits to be dispatched, with the keys of the firings that led to it. -/
structure Pending where
  rule : String
  invocation : Invocation
  binding : Binding
  depth : UInt32
  chain : List (List Char)

/-- A burst between two calls. -/
structure Burst where
  id : String
  root : Record
  appended : Nat := 1
  firings : List Firing := []
  queue : List Pending := []

/-- What a burst was, once it is over. -/
structure Report where
  id : String
  root : Record
  records : List Record
  firings : List Firing
  failure : Option BurstFailure

namespace Report

/-- The records of an action. -/
def recordsOf (r : Report) (action : ActionRef) : List Record :=
  r.records.filter (·.action = action)

/-- How often a rule fired. -/
def fired (r : Report) (rule : String) : Nat := r.firings.countP (·.rule = rule)

end Report

/-! ### Evaluation of a record -/

/-- The firings of an evaluation and what they queue, up to the first failure. -/
structure Evaluation where
  firings : List Firing := []
  queued : List Pending := []
  failure : Option BurstFailure := none

/-- The consequences of a firing, in the order of the rule. -/
def consequencesOf (rule : Rule) (b : Binding) (depth : UInt32) (chain : List (List Char)) :
    List Pending :=
  rule.consequences.map fun invocation =>
    ⟨rule.name, invocation, b, depth, Firing.keyOf rule.name b :: chain⟩

/--
Lets the matches of a record fire one after the other. The chain holds the keys of the firings that
led to the record.
-/
def evaluate (limits : Limits) (burst : String) (record : Record) (chain : List (List Char)) :
    List (Rule × Match) → Evaluation
  | [] => {}
  | (rule, m) :: rest =>
    if limits.maxDepth < record.depth + 1 then
      { failure := some (.depthExceeded burst limits.maxDepth rule.name) }
    else if chain.contains (Firing.keyOf rule.name m.binding) then
      { failure := some (.cycleDetected burst rule.name) }
    else
      let later := evaluate limits burst record chain rest
      { firings := ⟨rule.name, record.seq, m.records, m.binding⟩ :: later.firings
        queued := consequencesOf rule m.binding (record.depth + 1) chain ++ later.queued
        failure := later.failure }

/-! ### Dispatch -/

/-- What a burst does next: it is over, or it dispatches a consequence. -/
inductive Turn (η : Type) where
  | over (failure : Option BurstFailure)
  | dispatch (pending : Pending) (args : Fields) (handle : η) (rest : List Pending)

/--
The first consequence of a queue that can be dispatched. One whose arguments have no values or whose
action is not declared is skipped.
-/
def nextTurn {η : Type} (limits : Limits) (lookup? : ActionRef → Option η) (burst : String)
    (appended : Nat) : List Pending → Turn η
  | [] => .over none
  | pending :: rest =>
    match pending.invocation.args.resolve pending.binding, lookup? pending.invocation.action with
    | .ok args, some handle =>
      if limits.maxActions ≤ appended then .over (some (.budgetExceeded burst limits.maxActions))
      else .dispatch pending args handle rest
    | _, _ => nextTurn limits lookup? burst appended rest

/-- A call is dispatched only while the burst may take more actions. -/
theorem nextTurn_dispatch {limits : Limits} {η : Type} {lookup? : ActionRef → Option η}
    {burst : String} {appended : Nat} {queue rest : List Pending} {pending : Pending}
    {args : Fields} {handle : η}
    (h : nextTurn limits lookup? burst appended queue = .dispatch pending args handle rest) :
    appended < limits.maxActions := by
  induction queue with
  | nil => simp [nextTurn] at h
  | cons p queue ih =>
    unfold nextTurn at h
    split at h
    · split at h
      · simp at h
      · omega
    · exact ih h

end Synchrony
