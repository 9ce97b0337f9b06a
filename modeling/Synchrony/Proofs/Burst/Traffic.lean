import Mathlib.Data.List.Range
import Synchrony.Engine

/-!
# Bursts that take turns on one engine

Between two calls a burst takes three atomic steps: its call is recorded, the record is evaluated,
and the burst goes on to its next call or is closed. `Traffic` is an engine with any number of bursts
on it, which take these steps in any order; what a call returns, and when, is open. The traffic also
keeps every record in the order it was appended.
-/

namespace Synchrony

variable {ι : Type}

/-- Where a burst stands between two atomic steps. -/
inductive Phase (ι : Type) where
  /-- Its stimulus is being called. -/
  | invoked (action : ActionRef) (input : Fields) (handle : Handle ι)
  /-- Its latest call is recorded but not yet evaluated. -/
  | recorded (b : Burst) (record : Record) (chain : List (List Char))
  /-- Its latest record is evaluated, and perhaps the burst has to end. -/
  | observed (b : Burst) (failure : Option BurstFailure)
  /-- It waits for a call to return, or is over. -/
  | standing (step : Step ι)

/-- An atomic step of one burst. -/
inductive Move where
  | answer (output : Fields) (time : Timestamp)
  | observe
  | proceed

namespace Phase

/-- The report of a burst that is over. -/
def report? : Phase ι → Option Report
  | .standing (.over report) => some report
  | _ => none

/-- What a step of the burst `id` makes of its phase and of the engine, and the records it appends. -/
def move? (e : Engine ι) (id : String) : Phase ι → Move → Option (Phase ι × Engine ι × List Record)
  | .invoked action input _, .answer output time =>
    let (b, e) := e.openBurst id action input output time
    some (.recorded b b.root [], e, [b.root])
  | .standing (.call b pending args _), .answer output time =>
    let (record, b, e) := e.recordCall b pending args output time
    some (.recorded b record pending.chain, e, [record])
  | .recorded b record chain, .observe =>
    let (b, failure) := e.observe b record chain
    some (.observed b failure, e, [])
  | .observed b failure, .proceed =>
    let (step, e) := e.proceed b failure
    some (.standing step, e, [])
  | _, _ => none

end Phase

/-- An engine, where each burst on it stands, and all records in the order they were appended. -/
structure Traffic (ι : Type) where
  engine : Engine ι
  bursts : KeyMap (Phase ι) := .empty
  history : List Record := []

/-- What happens next: an action is invoked as the stimulus of a new burst, or a burst takes a step. -/
inductive Event where
  | begin (id : String) (action : ActionRef) (input : Fields)
  | move (id : String) (move : Move)

namespace Traffic

/-- An engine without bursts on it. -/
def idle (e : Engine ι) : Traffic ι := { engine := e }

/-- The records of a burst in the order they were appended. -/
def recordsOf (s : Traffic ι) (id : String) : List Record := s.history.filter (·.burst = id)

/-- The report of a burst that is over. -/
def report? (s : Traffic ι) (id : String) : Option Report := (s.bursts.get? id).bind Phase.report?

/-- Whether a new burst may be called `id`. -/
def Fresh (s : Traffic ι) (id : String) : Prop :=
  s.bursts.get? id = none ∧ s.engine.log.active.get? id = none

instance (s : Traffic ι) (id : String) : Decidable (s.Fresh id) :=
  decidable_of_iff ((s.bursts.get? id).isNone = true ∧ (s.engine.log.active.get? id).isNone = true)
    (by simp [Fresh])

/-- What an event makes of the traffic, if it can happen. -/
def step? (s : Traffic ι) : Event → Option (Traffic ι)
  | .begin id action input =>
    if s.Fresh id then
      (s.engine.registry.lookup? action).map fun handle =>
        { s with bursts := s.bursts.insert id (.invoked action input handle) }
    else none
  | .move id move =>
    (s.bursts.get? id).bind fun phase =>
      (phase.move? s.engine id move).map fun (phase, engine, records) =>
        ⟨engine, s.bursts.insert id phase, s.history ++ records⟩

/-- What events, one after the other, make of the traffic, if they can happen. -/
def run (s : Traffic ι) : List Event → Option (Traffic ι)
  | [] => some s
  | event :: rest => (s.step? event).bind fun s => s.run rest

/-- What every step preserves holds after every run. -/
lemma run_induction {P : Traffic ι → Prop}
    (hstep : ∀ s s' event, P s → s.step? event = some s' → P s') {s s' : Traffic ι}
    {events : List Event} (hs : P s) (h : s.run events = some s') : P s' := by
  induction events generalizing s with
  | nil =>
    cases h
    exact hs
  | cons event rest ih =>
    obtain ⟨s₁, hs₁, hrest⟩ := Option.bind_eq_some_iff.1 h
    exact ih (hstep s s₁ event hs hs₁) hrest

/-- What a step can be: a fresh burst begins, or a burst moves. -/
lemma step?_cases {s s' : Traffic ι} {event : Event} (h : s.step? event = some s') :
    (∃ id action input handle, event = .begin id action input ∧ s.Fresh id ∧
      s.engine.registry.lookup? action = some handle ∧
      s' = { s with bursts := s.bursts.insert id (.invoked action input handle) }) ∨
    (∃ id move phase phase' engine records, event = .move id move ∧
      s.bursts.get? id = some phase ∧ phase.move? s.engine id move = some (phase', engine, records) ∧
      s' = ⟨engine, s.bursts.insert id phase', s.history ++ records⟩) := by
  cases event with
  | begin id action input =>
    simp only [step?] at h
    split at h
    · rename_i hfresh
      obtain ⟨handle, hlookup, rfl⟩ := Option.map_eq_some_iff.1 h
      exact Or.inl ⟨id, action, input, handle, rfl, hfresh, hlookup, rfl⟩
    · simp at h
  | move id move =>
    obtain ⟨phase, hphase, h⟩ := Option.bind_eq_some_iff.1 h
    obtain ⟨⟨phase', engine, records⟩, hmove, rfl⟩ := Option.map_eq_some_iff.1 h
    exact Or.inr ⟨id, move, phase, phase', engine, records, rfl, hphase, hmove, rfl⟩

/-- A burst that is not over can take a step, whatever the other bursts do. -/
lemma exists_step?_eq_some {s : Traffic ι} {id : String} {phase : Phase ι}
    (hphase : s.bursts.get? id = some phase) (hover : phase.report? = none) :
    ∃ move s', s.step? (.move id move) = some s' := by
  suffices h : ∃ move next, phase.move? s.engine id move = some next by
    obtain ⟨move, ⟨phase', engine, records⟩, hmove⟩ := h
    exact ⟨move, ⟨engine, s.bursts.insert id phase', s.history ++ records⟩, by
      simp only [step?, hphase, Option.bind_some, hmove, Option.map_some]⟩
  cases phase with
  | invoked action input handle => exact ⟨.answer .empty ⟨0⟩, _, rfl⟩
  | recorded b record chain => exact ⟨.observe, _, rfl⟩
  | observed b failure => exact ⟨.proceed, _, rfl⟩
  | standing step =>
    rcases step with ⟨b, pending, args, handle⟩ | report
    · exact ⟨.answer .empty ⟨0⟩, _, rfl⟩
    · cases hover

end Traffic

/-! ### Two bells -/

namespace Bells

/-- Something that someone does with a bell. -/
def record (seq : Nat) (id : String) (depth : UInt32) (action who : String) (rule : Option String)
    (time : Nat) : Record :=
  ⟨seq, id, depth, ⟨"Bell", action⟩, KeyMap.singleton "who" (.str who), .empty, rule, ⟨time⟩⟩

/-- The shape of an input with a field `who`. -/
def who : Shape := KeyMap.singleton "who" (.var "who")

/-- A ring is echoed by a chime. -/
def echo : Rule :=
  ⟨"echo", [⟨⟨"Bell", "ring"⟩, who, .empty⟩], [⟨⟨"Bell", "chime"⟩, who⟩], none⟩

/-- A ring and a chime together fire, but cause nothing. -/
def both : Rule :=
  ⟨"both", [⟨⟨"Bell", "ring"⟩, who, .empty⟩, ⟨⟨"Bell", "chime"⟩, who, .empty⟩], [], none⟩

/-- Bells can be rung and can chime. -/
def registry : Registry Unit :=
  { concepts := KeyMap.singleton "Bell" ⟨[⟨"ring", ["who"], []⟩, ⟨"chime", ["who"], []⟩], ()⟩ }

/-- An engine with both rules. -/
def engine : Engine Unit where
  limits := ⟨8, 16⟩
  registry := registry
  rules := (({} : RuleTable).install registry.contains [echo, both]).1
  log := { capacity := 4 }

/-- Ann and Bob ring, and the chimes come in the other order. -/
def events : List Event :=
  [.begin "a" ⟨"Bell", "ring"⟩ (KeyMap.singleton "who" (.str "ann")),
    .begin "b" ⟨"Bell", "ring"⟩ (KeyMap.singleton "who" (.str "bob")),
    .move "a" (.answer .empty ⟨10⟩), .move "b" (.answer .empty ⟨20⟩), .move "b" .observe,
    .move "a" .observe, .move "a" .proceed, .move "b" .proceed, .move "b" (.answer .empty ⟨30⟩),
    .move "a" (.answer .empty ⟨40⟩), .move "a" .observe, .move "b" .observe, .move "b" .proceed,
    .move "a" .proceed]

/-- What becomes of the engine. -/
def traffic : Traffic Unit := ((Traffic.idle engine).run events).getD (.idle engine)

/-- What Ann's burst was. -/
def report : Report where
  id := "a"
  root := record 1 "a" 0 "ring" "ann" none 10
  records := [record 1 "a" 0 "ring" "ann" none 10, record 4 "a" 1 "chime" "ann" (some "echo") 40]
  firings := [⟨"echo", 1, [1], KeyMap.singleton "who" (.str "ann")⟩,
    ⟨"both", 4, [1, 4], KeyMap.singleton "who" (.str "ann")⟩]
  failure := none

lemma run_events : (Traffic.idle engine).run events = some traffic := rfl

lemma report?_traffic : traffic.report? "a" = some report := rfl

end Bells

end Synchrony
