import Synchrony.Proofs.Burst.Consistency
import Synchrony.Proofs.Burst.Relabel

/-!
# Bursts do not influence each other

Suppose that what a call returns depends only on the call and on the earlier calls of its burst
(`Obeys`). Then a burst among others has the report that it has alone on a fresh engine
(`Engine.alone?`), up to a relabelling that keeps the order of its records. The relabelled course is
one whose records are numbered 1, 2, 3, …, and the lone run passes through every phase of such a
course (`Course.exists_finish`).
-/

namespace Synchrony

variable {ι : Type}

/-! ### Behaviours -/

/-- A call that returned. -/
structure Call where
  action : ActionRef
  input : Fields
  output : Fields

/-- The call that a record is about. -/
def Record.call (r : Record) : Call := ⟨r.action, r.input, r.output⟩

/-- What a call returns, given the earlier calls of its burst, its action and its input. -/
abbrev Behaviour := List Call → ActionRef → Fields → Fields

/-- Each of the calls returned what the behaviour says. -/
def Obeys (β : Behaviour) (records : List Record) : Prop :=
  ∀ before r after, records = before ++ r :: after →
    r.output = β (before.map Record.call) r.action r.input

lemma Obeys.of_append {β : Behaviour} {records later : List Record}
    (h : Obeys β (records ++ later)) : Obeys β records := by
  rintro before r after rfl
  exact h before r (after ++ later) (by simp)

lemma Obeys.relabel {β : Behaviour} {records : List Record} (h : Obeys β records)
    (τ : Relabelling) : Obeys β (records.map (Record.relabel τ)) := by
  intro before r after heq
  obtain ⟨before, rest, rfl, rfl, hrest⟩ := List.map_eq_append_iff.1 heq
  obtain ⟨r, after, rfl, rfl, rfl⟩ := List.map_eq_cons_iff.1 hrest
  rw [List.map_map]
  exact h before r after rfl

/-! ### A burst alone -/

namespace Engine

/--
Runs a burst to its end while nothing else happens. Calls return what the behaviour says, and the
record with number `n` gets the time `clock n`.
-/
def settle (β : Behaviour) (clock : Nat → Timestamp) (e : Engine ι) (calls : List Call) :
    Step ι → Report
  | .over report => report
  | .call b pending args _ =>
    let output := β calls pending.invocation.action args
    let next := e.answer b pending args output (clock (calls.length + 1))
    settle β clock next.2 (calls ++ [⟨pending.invocation.action, args, output⟩]) next.1
termination_by step => step.callsLeft e.limits
decreasing_by
  simp only [Engine.limits_answer]
  exact Engine.callsLeft_answer_lt ..

/-- The report of a burst that is alone on an engine, if its stimulus is declared. -/
def alone? (e : Engine ι) (β : Behaviour) (clock : Nat → Timestamp) (id : String)
    (action : ActionRef) (input : Fields) : Option Report :=
  (e.registry.lookup? action).map fun _ =>
    let output := β [] action input
    let (b, e) := e.openBurst id action input output (clock 1)
    let (step, e) := e.start b
    settle β clock e [⟨action, input, output⟩] step

/-- Runs a burst from one of its phases to its end while nothing else happens. -/
def finish (β : Behaviour) (clock : Nat → Timestamp) (e : Engine ι) (id : String)
    (calls : List Call) : Phase ι → Report
  | .invoked action input _ =>
    let output := β [] action input
    let (b, e) := e.openBurst id action input output (clock 1)
    let (step, e) := e.start b
    settle β clock e [⟨action, input, output⟩] step
  | .recorded b record chain =>
    let (step, e) := e.react b record chain
    settle β clock e calls step
  | .observed b failure =>
    let (step, e) := e.proceed b failure
    settle β clock e calls step
  | .standing step => settle β clock e calls step

end Engine

/-- The action and the input that a burst began with. -/
def Phase.stimulus : Phase ι → ActionRef × Fields
  | .invoked action input _ => (action, input)
  | .recorded b _ _ | .observed b _ | .standing (.call b _ _ _) => (b.root.action, b.root.input)
  | .standing (.over report) => (report.root.action, report.root.input)

/-- The lone run of the stimulus passes through the phase. -/
structure Phase.Passed (phase : Phase ι) (β : Behaviour) (clock : Nat → Timestamp) (capacity : Nat)
    (e : Engine ι) (id : String) (rs : List Record) (log : Log) : Prop where
  appended : log.appended = rs.length
  logged : phase.report? = none → log.burstRecords id = rs
  finish : Engine.alone? { e with log := { capacity } } β clock id phase.stimulus.1
    phase.stimulus.2 = some (Engine.finish β clock { e with log } id (rs.map Record.call) phase)

section Passing

variable {e : Engine ι} {id : String} {rs : List Record} {β : Behaviour}
  {clock : Nat → Timestamp} {capacity : Nat} {log : Log}

lemma passed_invoked {action : ActionRef} {input : Fields} {handle : Handle ι}
    (hlookup : e.registry.lookup? action = some handle) :
    (Phase.invoked action input handle).Passed β clock capacity e id [] { capacity } := by
  refine ⟨rfl, fun _ => rfl, ?_⟩
  simp only [Engine.alone?, Phase.stimulus, hlookup, Option.map_some]
  rfl

lemma passed_opened {action : ActionRef} {input : Fields} {handle : Handle ι} {root : Record}
    (h : (Phase.invoked action input handle).Passed β clock capacity e id [] log)
    (hroot : root = ⟨1, id, 0, action, input, β [] action input, none, clock 1⟩) :
    ∃ log, (Phase.recorded { id, root } root [] : Phase ι).Passed β clock capacity e id [root]
      log := by
  obtain ⟨happended, hlogged, hfinish⟩ := h
  have hnumber : (log.append ⟨id, 0, action, input, β [] action input, none, clock 1⟩).1 = root := by
    rw [hroot, Log.append, happended]
    rfl
  refine ⟨(log.append ⟨id, 0, action, input, β [] action input, none, clock 1⟩).2, ?_, fun _ => ?_, ?_⟩
  · exact congrArg (· + 1) happended
  · rw [Log.burstRecords_append_self log ⟨id, 0, action, input, β [] action input, none, clock 1⟩,
      hlogged rfl, hnumber, List.nil_append]
  · simp only [Engine.finish, Engine.openBurst, Engine.start, hnumber] at hfinish
    subst hroot
    exact hfinish

lemma passed_observed {b : Burst} {record : Record} {chain : List (List Char)}
    (hcourse : Course e id rs (.recorded b record chain))
    (h : (Phase.recorded b record chain : Phase ι).Passed β clock capacity e id rs log) :
    (Phase.observed (b.after (evaluate e.limits id record chain (e.rules.completedBy rs record)))
      (evaluate e.limits id record chain (e.rules.completedBy rs record)).failure :
        Phase ι).Passed β clock capacity e id rs log := by
  obtain ⟨happended, hlogged, hfinish⟩ := h
  refine ⟨happended, fun _ => hlogged rfl, hfinish.trans (congrArg some ?_)⟩
  simp only [Engine.finish, Engine.react, hcourse.observe_eq (hlogged rfl)]

/-- The lone run ends with the report with which the burst is closed. -/
lemma passed_closed {b : Burst} {before failure : Option BurstFailure}
    (hid : b.id = id) (h : (Phase.observed b before : Phase ι).Passed β clock capacity e id rs log)
    (hproceed : Engine.proceed { e with log } b before =
      (.over (Engine.close { e with log } b failure).1, (Engine.close { e with log } b failure).2)) :
    (Phase.standing (.over ⟨id, b.root, rs, b.firings, failure⟩) : Phase ι).Passed β clock capacity
      e id rs log := by
  obtain ⟨happended, hlogged, hfinish⟩ := h
  refine ⟨happended, fun hopen => by simp [Phase.report?] at hopen,
    hfinish.trans (congrArg some ?_)⟩
  simp only [Engine.finish, hproceed, close_eq hid (hlogged rfl), Engine.settle]

lemma passed_dispatched {b : Burst} {pending : Pending} {args : Fields} {handle : Handle ι}
    {rest : List Pending} (hid : b.id = id)
    (h : (Phase.observed b none : Phase ι).Passed β clock capacity e id rs log)
    (hturn : nextTurn e.limits e.registry.lookup? id b.appended b.queue =
      .dispatch pending args handle rest) :
    (Phase.standing (.call { b with queue := rest } pending args handle)).Passed β clock capacity
      e id rs log := by
  obtain ⟨happended, hlogged, hfinish⟩ := h
  subst hid
  refine ⟨happended, fun _ => hlogged rfl, hfinish.trans (congrArg some ?_)⟩
  simp only [Engine.finish, Engine.proceed, Engine.advance, hturn]

lemma passed_answered {b : Burst} {pending : Pending} {args : Fields} {handle : Handle ι}
    {record : Record} (hid : b.id = id)
    (h : (Phase.standing (.call b pending args handle)).Passed β clock capacity e id rs log)
    (hrecord : record = ⟨rs.length + 1, id, pending.depth, pending.invocation.action, args,
      β (rs.map Record.call) pending.invocation.action args, some pending.rule,
      clock (rs.length + 1)⟩) :
    ∃ log, (Phase.recorded { b with appended := b.appended + 1 } record pending.chain :
      Phase ι).Passed β clock capacity e id (rs ++ [record]) log := by
  obtain ⟨happended, hlogged, hfinish⟩ := h
  subst hid
  have hnumber : (log.append ⟨b.id, pending.depth, pending.invocation.action, args,
      β (rs.map Record.call) pending.invocation.action args, some pending.rule,
      clock (rs.length + 1)⟩).1 = record := by
    rw [hrecord, Log.append, happended]
    rfl
  refine ⟨(log.append ⟨b.id, pending.depth, pending.invocation.action, args,
    β (rs.map Record.call) pending.invocation.action args, some pending.rule,
    clock (rs.length + 1)⟩).2, ?_, fun _ => ?_, hfinish.trans (congrArg some ?_)⟩
  · rw [List.length_append, ← happended]
    rfl
  · refine (Log.burstRecords_append_self log _).trans ?_
    rw [hnumber, hlogged rfl]
  · simp only [Engine.finish]
    rw [Engine.settle]
    simp only [Engine.answer, Engine.recordCall, hnumber, List.length_map, List.map_append]
    subst hrecord
    rfl

/-- The lone run passes through every phase of a course whose records are numbered from 1. -/
lemma Course.passed {phase : Phase ι} (h : Course e id rs phase) (capacity : Nat) (hβ : Obeys β rs)
    (hnumber : rs.map (·.seq) = List.range' 1 rs.length) (hclock : ∀ r ∈ rs, r.time = clock r.seq) :
    ∃ log, phase.Passed β clock capacity e id rs log := by
  induction h with
  | invoked hlookup => exact ⟨_, passed_invoked hlookup⟩
  | opened _ seq output time hroot ih =>
    obtain ⟨log, hpassed⟩ := ih (fun before r after heq => by simp at heq) rfl (by simp)
    refine passed_opened hpassed ?_
    have houtput := hβ [] _ [] rfl
    have htime := hclock _ (List.mem_singleton_self _)
    subst hroot
    have hseq : seq = 1 := by simpa using hnumber
    subst hseq
    dsimp only at houtput htime
    rw [houtput, htime]
    rfl
  | observed hcourse hseen ih =>
    obtain ⟨log, hpassed⟩ := ih hβ hnumber hclock
    rw [hseen]
    exact ⟨log, passed_observed hcourse hpassed⟩
  | failed hcourse ih =>
    obtain ⟨log, hpassed⟩ := ih hβ hnumber hclock
    exact ⟨log, passed_closed hcourse.tracks.1.id_eq hpassed rfl⟩
  | finished hcourse hturn ih =>
    obtain ⟨log, hpassed⟩ := ih hβ hnumber hclock
    refine ⟨log, passed_closed hcourse.tracks.1.id_eq hpassed ?_⟩
    simp only [Engine.proceed, Engine.advance, hcourse.tracks.1.id_eq, hturn]
  | dispatched hcourse hturn ih =>
    obtain ⟨log, hpassed⟩ := ih hβ hnumber hclock
    exact ⟨log, passed_dispatched hcourse.tracks.1.id_eq hpassed hturn⟩
  | @answered rs b pending args handle record hcourse seq output time hseq hrecord ih =>
    rw [List.map_append, List.length_append, List.length_singleton, List.range'_1_concat] at hnumber
    obtain ⟨hbefore, hlast⟩ := List.append_inj' hnumber rfl
    obtain ⟨log, hpassed⟩ := ih hβ.of_append hbefore fun r hr =>
      hclock r (List.mem_append_left _ hr)
    refine passed_answered hcourse.tracks.1.id_eq hpassed ?_
    have houtput := hβ rs record [] rfl
    have htime := hclock record (by simp)
    have hseq' : record.seq = rs.length + 1 := by
      rw [Nat.add_comm]
      simpa using hlast
    rw [hseq'] at htime
    subst hrecord
    dsimp only at houtput htime hseq'
    rw [houtput, htime, hseq']

/-- A burst that is over, with records numbered from 1, has the report of the lone run. -/
lemma Course.alone?_eq_self {report : Report}
    (h : Course e id report.records (.standing (.over report))) (capacity : Nat)
    (hβ : Obeys β report.records)
    (hnumber : report.records.map (·.seq) = List.range' 1 report.records.length)
    (hclock : ∀ r ∈ report.records, r.time = clock r.seq) :
    Engine.alone? { e with log := { capacity } } β clock id report.root.action report.root.input =
      some report := by
  obtain ⟨log, hpassed⟩ := h.passed capacity hβ hnumber hclock
  have hfinish := hpassed.finish
  rwa [Engine.finish, Engine.settle] at hfinish

end Passing

/-! ### Numbers in order -/

/-- The place, from 1, of the record with a number. -/
def placeIn (records : List Record) (n : Nat) : Nat := (records.map (·.seq)).idxOf n + 1

section Places

variable {records : List Record}

lemma strictMonoOn_placeIn (h : records.Pairwise (·.seq < ·.seq)) :
    StrictMonoOn (placeIn records) (numbersOf records) := by
  intro a ha b hb hlt
  have hsorted : (records.map (·.seq)).Pairwise (· < ·) := List.pairwise_map.2 h
  have hia := List.idxOf_lt_length_of_mem ha
  have hib := List.idxOf_lt_length_of_mem hb
  refine Nat.succ_lt_succ (Nat.lt_of_not_le fun hle => ?_)
  -- otherwise `b` would not stand behind `a`
  have hba : b ≤ a := by
    rcases Nat.lt_or_eq_of_le hle with hidx | hidx
    · have hpair := List.pairwise_iff_getElem.1 hsorted _ _ hib hia hidx
      rw [List.getElem_idxOf, List.getElem_idxOf] at hpair
      exact hpair.le
    · exact ((List.idxOf_inj hb).1 hidx).le
  exact absurd hlt (Nat.not_lt_of_le hba)

lemma map_placeIn (h : records.Pairwise (·.seq < ·.seq)) :
    records.map (fun r => placeIn records r.seq) = List.range' 1 records.length := by
  have hnodup : (records.map (·.seq)).Nodup := List.pairwise_map.2 (h.imp ne_of_lt)
  refine List.ext_getElem (by simp) fun i hi hi' => ?_
  have hi'' : i < (records.map (·.seq)).length := by simpa using hi
  have hget : (records.map (·.seq)).idxOf (records.map (·.seq))[i] = i := hnodup.idxOf_getElem i hi''
  rw [List.getElem_map] at hget
  rw [List.getElem_map, placeIn, hget, List.getElem_range'_1, Nat.add_comm]

end Places

/-- A burst whose calls depend only on the burst has, up to labels, the report it has alone. -/
lemma Course.alone?_eq {e : Engine ι} {id : String} {report : Report}
    (h : Course e id report.records (.standing (.over report))) {β : Behaviour}
    (hβ : Obeys β report.records) (capacity : Nat) (name : String) (clock : Nat → Timestamp) :
    Engine.alone? { e with log := { capacity } } β clock name report.root.action
      report.root.input = some (report.relabel ⟨placeIn report.records, name, clock⟩) := by
  have hmono := strictMonoOn_placeIn h.sorted
  generalize hτ : (⟨placeIn report.records, name, clock⟩ : Relabelling) = τ
  have hrelabelled : Course e τ.burst (report.relabel τ).records
      (.standing (.over (report.relabel τ))) := h.relabel (by rw [← hτ]; exact hmono)
  have hnumber : (report.records.map (Record.relabel τ)).map (·.seq) =
      List.range' 1 (report.records.map (Record.relabel τ)).length := by
    rw [List.map_map, List.length_map, ← map_placeIn h.sorted, ← hτ]
    rfl
  have hclock : ∀ r ∈ report.records.map (Record.relabel τ), r.time = clock r.seq := by
    intro r hr
    obtain ⟨r', -, rfl⟩ := List.mem_map.1 hr
    rw [← hτ]
    rfl
  have halone := hrelabelled.alone?_eq_self capacity (hβ.relabel τ) hnumber hclock
  rwa [← hτ] at halone ⊢

/-! ### Stimuli -/

lemma Phase.stimulus_of_move? {e e' : Engine ι} {id : String} {phase phase' : Phase ι} {move : Move}
    {new : List Record} (h : phase.move? e id move = some (phase', e', new)) :
    phase'.stimulus = phase.stimulus := by
  unfold Phase.move? at h
  split at h <;> cases h
  · rfl
  · rfl
  · rfl
  · rename_i b failure
    cases failure with
    | some failure => rfl
    | none =>
      change Phase.stimulus (.standing (e.advance b).1) = _
      rw [Engine.advance]
      split <;> rfl

namespace Traffic

variable {e : Engine ι} {s s' : Traffic ι} {events : List Event} {id : String}

/-- Every burst on the engine was there before, or began with its stimulus. -/
lemma begin_mem_of_run {phase : Phase ι} (h : s.run events = some s')
    (hphase : s'.bursts.get? id = some phase) :
    (∃ phase₀, s.bursts.get? id = some phase₀ ∧ phase₀.stimulus = phase.stimulus) ∨
      Event.begin id phase.stimulus.1 phase.stimulus.2 ∈ events := by
  induction events generalizing s with
  | nil =>
    cases h
    exact Or.inl ⟨phase, hphase, rfl⟩
  | cons event rest ih =>
    obtain ⟨s₁, hstep, hrest⟩ := Option.bind_eq_some_iff.1 h
    rcases ih hrest with ⟨phase₁, hphase₁, hstimulus⟩ | hmem
    · obtain ⟨id', action, input, handle, rfl, -, -, rfl⟩ |
        ⟨id', move, phase₀, phase', engine, new, rfl, hphase₀, hmove, rfl⟩ := step?_cases hstep
      · dsimp only at hphase₁
        rw [KeyMap.get?_insert] at hphase₁
        split at hphase₁
        · rename_i heq
          cases hphase₁
          rw [← hstimulus, heq]
          exact Or.inr List.mem_cons_self
        · exact Or.inl ⟨phase₁, hphase₁, hstimulus⟩
      · dsimp only at hphase₁
        rw [KeyMap.get?_insert] at hphase₁
        split at hphase₁
        · rename_i heq
          cases hphase₁
          rw [← hstimulus, heq]
          exact Or.inl ⟨phase₀, hphase₀, (Phase.stimulus_of_move? hmove).symm⟩
        · exact Or.inl ⟨phase₁, hphase₁, hstimulus⟩
    · exact Or.inr (List.mem_cons_of_mem _ hmem)

/--
However the bursts on an engine take turns, their records are numbered in the order they are
appended, and a burst whose calls depend only on the burst has the report that its stimulus has
alone on a fresh engine, up to new labels that keep the order of its records.
-/
theorem exists_alone_eq_relabel {report : Report} (hrun : (idle e).run events = some s)
    (hreport : s.report? id = some report) {β : Behaviour} (hβ : Obeys β (s.recordsOf id))
    (capacity : Nat) (name : String) (clock : Nat → Timestamp) :
    s.history.map (·.seq) = List.range' (e.log.appended + 1) s.history.length ∧
      report.records = s.recordsOf id ∧
      ∃ action input number, Event.begin id action input ∈ events ∧
        StrictMonoOn number (numbersOf report.records) ∧
        Engine.alone? { e with log := { capacity } } β clock name action input =
          some (report.relabel ⟨number, name, clock⟩) := by
  have hcourse := course_of_report? hrun hreport
  have hrecords := records_of_report? hrun hreport
  rw [← hrecords] at hβ
  refine ⟨(consistent_of_run hrun).numbered, hrecords, report.root.action, report.root.input, ?_⟩
  have hbegin : Event.begin id report.root.action report.root.input ∈ events := by
    obtain ⟨phase, hphase, hover⟩ := Option.bind_eq_some_iff.1 hreport
    rw [eq_standing_of_report? hover] at hphase
    rcases begin_mem_of_run hrun hphase with ⟨phase₀, hphase₀, -⟩ | hmem
    · cases hphase₀
    · exact hmem
  exact ⟨placeIn report.records, hbegin, strictMonoOn_placeIn hcourse.sorted,
    hcourse.alone?_eq hβ capacity name clock⟩

theorem exists_alone_eq_relabel_bells :
    Obeys (fun _ _ _ => .empty) (Bells.traffic.recordsOf "a") ∧
      Bells.traffic.history.map (·.seq) = List.range' 1 4 ∧
      ∃ action input number, StrictMonoOn number (numbersOf Bells.report.records) ∧
        Engine.alone? { Bells.engine with log := { capacity := 1 } } (fun _ _ _ => .empty)
          (fun n => ⟨n⟩) "alone" action input =
            some (Bells.report.relabel ⟨number, "alone", fun n => ⟨n⟩⟩) := by
  have hβ : Obeys (fun _ _ _ => .empty) (Bells.traffic.recordsOf "a") := by
    intro before r after heq
    have hmem : r ∈ Bells.report.records := by
      change Bells.report.records = _ at heq
      simp [heq]
    simp only [Bells.report, List.mem_cons, List.not_mem_nil, or_false] at hmem
    rcases hmem with rfl | rfl <;> rfl
  obtain ⟨hnumbered, -, action, input, number, -, hmono, halone⟩ :=
    exists_alone_eq_relabel Bells.run_events Bells.report?_traffic hβ 1 "alone" fun n => ⟨n⟩
  exact ⟨hβ, hnumbered, action, input, number, hmono, halone⟩

end Traffic

end Synchrony
