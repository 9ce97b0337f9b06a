import Synchrony.Await

/-!
# A host of processes

A host runs one process in the foreground and any number in the background, one at a time and each
up to the point where it has to wait. Background processes that can go on do so in the order in
which they were woken. When none can, the clock jumps to the next point in time that some process
waits for.
-/

namespace Synchrony

/-- A background process: a burst, or a wait for a response. -/
inductive Task where
  | opened (burst : Burst)
  | burst (running : Running)
  | await (request : String) (limit : Nat)
  | awaiting (a : Await)

/-- What a background process ends with. -/
inductive Outcome where
  | report (report : Report)
  | response (response : Except RequestError Fields)

namespace Task

/-- When a process goes on by itself, and the place of that alarm among others of its time. -/
def alarm? : Task → Option (Nat × Nat)
  | burst (.calling _ _ _ wake alarm _) => some (wake, alarm)
  | awaiting a => some (a.deadline, a.alarm)
  | _ => none

end Task

/-- The world, the background processes, and which processes can go on. -/
structure Host where
  world : World
  tasks : List (Nat × Task) := []
  outcomes : List (Nat × Outcome) := []
  ready : List Nat := []
  foregroundReady : Bool := false
  spawned : Nat := 0

/-- Whether a process has to wait, or has its result. -/
inductive Poll (σ ρ : Type) where
  | pending (state : σ)
  | ready (result : ρ)

namespace Host

/-- Adds a background process, which can go on at once. -/
def spawn (h : Host) (t : Task) : Nat × Host :=
  let n := h.spawned + 1
  (n, { h with spawned := n, tasks := h.tasks ++ [(n, t)], ready := h.ready ++ [n] })

/-- Wakes a process; the one in the foreground has number zero. -/
def wake (h : Host) (n : Nat) : Host :=
  if n = 0 then { h with foregroundReady := true }
  else if h.ready.contains n then h
  else { h with ready := h.ready ++ [n] }

/-- Wakes the processes that changes of slots concern. -/
def deliver (h : Host) : Host :=
  let slots := h.world.resources.slots
  let h := { h with world := h.world.withSlots { slots with woken := [] } }
  slots.woken.foldl wake h

/-- The outcome of a background process that has ended. -/
def outcome? (h : Host) (n : Nat) : Option Outcome := h.outcomes.lookup n

/-- Ends or keeps a burst that ran as far as it could. -/
def settleBurst : Running × World → Poll Task Outcome × World
  | (.over report, w) => (.ready (.report report), w.releaseNested report)
  | (running, w) => (.pending (.burst running), w)

/-- Ends or keeps a wait. -/
def settleAwait (w : World) (a : Await) : Poll Task Outcome × World :=
  match w.pollAwait a (w.timeUp a) with
  | some (response, w) => (.ready (.response response), w)
  | none => (.pending (.awaiting a), w)

/-- Lets a background process go on. -/
def pollTask (w : World) (n : Nat) : Task → Poll Task Outcome × World
  | .opened b => settleBurst (w.startBurst b)
  | .burst running => settleBurst (w.resume running)
  | .await request limit =>
    match w.beginAwait n request limit with
    | .ok (a, w) => settleAwait w a
    | .error e => (.ready (.response (.error e)), w)
  | .awaiting a => settleAwait w a

/-- Lets the background process of a number go on, if there is one. -/
def runTask (h : Host) (n : Nat) : Host :=
  match h.tasks.lookup n with
  | none => h
  | some t =>
    match pollTask h.world n t with
    | (.pending t, world) =>
      { h with world, tasks := h.tasks.map fun (m, old) => if m = n then (n, t) else (m, old) }.deliver
    | (.ready outcome, world) =>
      { h with
        world
        tasks := h.tasks.filter (·.1 ≠ n)
        outcomes := h.outcomes ++ [(n, outcome)]
        foregroundReady := true }.deliver

/-! ### Time -/

/-- The earlier of two points in time that may be absent. -/
def earlier? : Option Nat → Option Nat → Option Nat
  | some a, some b => some (min a b)
  | some a, none => some a
  | none, b => b

/-- The next point in time that a process waits for. -/
def nextAlarm? (h : Host) (foreground : Option Nat) : Option Nat :=
  h.tasks.foldl (fun t e => earlier? t (e.2.alarm?.map (·.1))) foreground

/-- Puts the clock to a point in time and wakes the processes that waited for it. -/
def advanceTo (h : Host) (time : Nat) (foreground : Option Nat) : Host :=
  let due := h.tasks.filterMap fun (n, t) =>
    match t.alarm? with
    | some (wake, alarm) => if wake ≤ time then some (wake, alarm, n) else none
    | none => none
  let order (a b : Nat × Nat × Nat) : Bool := a.1 < b.1 || (a.1 == b.1 && a.2.1 ≤ b.2.1)
  let world := { h.world with resources := { h.world.resources with now := time } }
  let h := (due.mergeSort order).foldl (fun h e => h.wake e.2.2) { h with world }
  match foreground with
  | some t => if t ≤ time then { h with foregroundReady := true } else h
  | none => h

/-! ### The foreground -/

/-- How many turns a process in the foreground may take before it is given up. -/
def patience : Nat := Nat.pow 10 15

variable {σ ρ : Type}

/--
Lets the foreground process take its turn if it is `due`, and otherwise the background processes
take theirs, until the foreground has its result. `alarm?` says when it goes on by itself.
-/
def blockFor (poll : Host → σ → Poll σ ρ × Host) (alarm? : σ → Option Nat) :
    Nat → Bool → σ → Host → Option ρ × Host
  | 0, _, _, h => (none, h)
  | turns + 1, due, s, h =>
    if due then
      match poll { h with foregroundReady := false } s with
      | (.ready r, h) => (some r, h.deliver)
      | (.pending s, h) => blockFor poll alarm? turns false s h.deliver
    else
      match h.ready with
      | n :: rest => blockFor poll alarm? turns false s ({ h with ready := rest }.runTask n)
      | [] =>
        if h.foregroundReady then blockFor poll alarm? turns true s h
        else
          match h.nextAlarm? (alarm? s) with
          | none => (none, h)
          | some time =>
            let h := h.advanceTo time (alarm? s)
            blockFor poll alarm? turns h.foregroundReady s h

/-- Runs the host until its foreground process has its result. -/
def block (poll : Host → σ → Poll σ ρ × Host) (alarm? : σ → Option Nat) (s : σ) (h : Host) :
    Option ρ × Host := blockFor poll alarm? patience true s h

/-- Lets all background processes that can go on do so. -/
def yield (h : Host) : Host :=
  let poll (h : Host) (again : Bool) : Poll Bool Unit × Host :=
    if again then (.ready (), h) else (.pending true, { h with foregroundReady := true })
  (block poll (fun _ => none) false h).2

end Host

end Synchrony
