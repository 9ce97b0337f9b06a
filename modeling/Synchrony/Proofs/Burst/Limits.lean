import Synchrony.Proofs.Burst.Alone
import Synchrony.Proofs.Burst.Evaluation

/-!
# Limits only cut a burst short

From every phase of a course a burst can go on to its end (`Course.continues`). As long as a burst
has not failed, it is also a course under higher limits (`Course.raise`), and where it fails under
the lower ones it goes on under the higher ones, with the records and the firings it has. So of the
same stimulus, with calls that return the same, lower limits leave an initial part, and the whole if
the burst did not fail (`Engine.alone?_isPrefix`).
-/

namespace Synchrony

variable {ι : Type}

/-! ### Going on to the end -/

/-- The records of a lone run: calls return what the behaviour says, at the time of the clock. -/
structure Alone (β : Behaviour) (clock : Nat → Timestamp) (records : List Record) : Prop where
  obeys : Obeys β records
  numbered : records.map (·.seq) = List.range' 1 records.length
  timed : ∀ r ∈ records, r.time = clock r.seq

/-- The firings of a burst so far. -/
def Phase.firings : Phase ι → List Firing
  | .invoked .. => []
  | .recorded b _ _ | .observed b _ | .standing (.call b _ _ _) => b.firings
  | .standing (.over report) => report.firings

/-- The burst can go on from the phase, alone, and is over in the end. -/
def Phase.Continues (β : Behaviour) (clock : Nat → Timestamp) (e : Engine ι) (id : String)
    (rs : List Record) (phase : Phase ι) : Prop :=
  ∃ report, Course e id report.records (.standing (.over report)) ∧
    Alone β clock report.records ∧
    (Phase.standing (.over report) : Phase ι).stimulus = phase.stimulus ∧
    rs <+: report.records ∧ phase.firings <+: report.firings

section Continues

variable {β : Behaviour} {clock : Nat → Timestamp} {e : Engine ι} {id : String} {rs : List Record}
  {phase phase' : Phase ι}

/-- The next record of a lone run. -/
lemma Alone.concat (h : Alone β clock rs) {record : Record} (hseq : record.seq = rs.length + 1)
    (houtput : record.output = β (rs.map Record.call) record.action record.input)
    (htime : record.time = clock record.seq) : Alone β clock (rs ++ [record]) := by
  refine ⟨?_, ?_, ?_⟩
  · intro before r after hsplit
    rcases List.eq_nil_or_concat' after with rfl | ⟨after, last, rfl⟩
    · obtain ⟨rfl, hlast⟩ := List.append_inj' hsplit rfl
      cases hlast
      exact houtput
    · rw [← List.cons_append, ← List.append_assoc] at hsplit
      obtain ⟨rfl, -⟩ := List.append_inj' hsplit rfl
      exact h.obeys before r after rfl
  · rw [List.map_append, h.numbered, List.length_append, List.length_singleton,
      List.range'_1_concat, List.map_singleton, hseq, Nat.add_comm 1]
  · rw [List.forall_mem_append, List.forall_mem_singleton]
    exact ⟨h.timed, htime⟩

lemma Alone.seq_lt (h : Alone β clock rs) {r : Record} (hr : r ∈ rs) : r.seq < rs.length + 1 := by
  have hmem : r.seq ∈ rs.map (·.seq) := List.mem_map_of_mem hr
  rw [h.numbered, List.mem_range'_1] at hmem
  omega

lemma Phase.Continues.extend {rs' : List Record} (h : phase'.Continues β clock e id rs')
    (hstimulus : phase'.stimulus = phase.stimulus) (hrs : rs <+: rs')
    (hfirings : phase.firings <+: phase'.firings) : phase.Continues β clock e id rs := by
  obtain ⟨report, hover, halone, hstimulus', hrs', hfirings'⟩ := h
  exact ⟨report, hover, halone, hstimulus'.trans hstimulus, hrs.trans hrs',
    hfirings.trans hfirings'⟩

lemma Course.continues_over {report : Report} (halone : Alone β clock rs)
    (h : Course e id rs (.standing (.over report))) :
    (Phase.standing (.over report) : Phase ι).Continues β clock e id rs := by
  obtain ⟨-, -, rfl, -⟩ := h.tracks
  exact ⟨report, h, halone, rfl, List.prefix_refl _, List.prefix_refl _⟩

lemma Course.continues_failed {b : Burst} {failure : BurstFailure} (halone : Alone β clock rs)
    (h : Course e id rs (.observed b (some failure))) :
    (Phase.observed b (some failure) : Phase ι).Continues β clock e id rs :=
  (continues_over halone (.failed h)).extend rfl (List.prefix_refl _) (List.prefix_refl _)

/-- The call that a burst stands at returns what the behaviour says. -/
lemma Course.exists_answered {b : Burst} {pending : Pending} {args : Fields} {handle : Handle ι}
    (halone : Alone β clock rs) (h : Course e id rs (.standing (.call b pending args handle))) :
    ∃ record, Alone β clock (rs ++ [record]) ∧ Course e id (rs ++ [record])
      (.recorded { b with appended := b.appended + 1 } record pending.chain) := by
  let output := β (rs.map Record.call) pending.invocation.action args
  refine ⟨⟨rs.length + 1, id, pending.depth, pending.invocation.action, args, output,
    some pending.rule, clock (rs.length + 1)⟩, halone.concat rfl rfl rfl, ?_⟩
  exact .answered h (rs.length + 1) output (clock (rs.length + 1))
    (fun r hr => halone.seq_lt hr) rfl

/-- A burst whose latest record is evaluated goes on for as long as its budget lasts. -/
lemma Course.continues_observed {b : Burst} {failure : Option BurstFailure}
    (halone : Alone β clock rs) (h : Course e id rs (.observed b failure)) :
    (Phase.observed b failure : Phase ι).Continues β clock e id rs := by
  induction hleft : e.limits.maxActions - b.appended using Nat.strong_induction_on
    generalizing b failure rs with
  | _ left ih =>
    cases failure with
    | some failure => exact continues_failed halone h
    | none =>
      rcases hturn : nextTurn e.limits e.registry.lookup? id b.appended b.queue with
        failure | ⟨pending, args, handle, rest⟩
      · exact (continues_over halone (.finished h hturn)).extend rfl (List.prefix_refl _)
          (List.prefix_refl _)
      · have hbudget := nextTurn_dispatch hturn
        obtain ⟨record, halone', hrecorded⟩ := exists_answered halone (.dispatched h hturn)
        have hobserved := Course.observed hrecorded rfl
        have hless : e.limits.maxActions - (b.appended + 1) < left := by omega
        exact (ih _ hless halone' hobserved rfl).extend rfl (List.prefix_append _ _)
          (List.prefix_append _ _)

lemma Course.continues_recorded {b : Burst} {record : Record} {chain : List (List Char)}
    (halone : Alone β clock rs) (h : Course e id rs (.recorded b record chain)) :
    (Phase.recorded b record chain : Phase ι).Continues β clock e id rs :=
  (continues_observed halone (.observed h rfl)).extend rfl (List.prefix_refl _)
    (List.prefix_append _ _)

/-- Every stimulus that is declared has a burst. -/
lemma Course.continues_invoked {action : ActionRef} {input : Fields} {handle : Handle ι}
    (hlookup : e.registry.lookup? action = some handle) :
    (Phase.invoked action input handle).Continues β clock e id [] := by
  let output := β [] action input
  let root : Record := ⟨1, id, 0, action, input, output, none, clock 1⟩
  have halone : Alone β clock ([] ++ [root]) := by
    refine Alone.concat ⟨?_, rfl, by simp⟩ rfl rfl rfl
    intro before r after hsplit
    simp at hsplit
  have hopened : Course e id [root] (.recorded { id, root } root []) :=
    .opened (.invoked hlookup) 1 output (clock 1) rfl
  exact (continues_recorded halone hopened).extend rfl List.nil_prefix List.nil_prefix

end Continues

/-! ### Higher limits -/

/-- Why a burst has to end, or has ended. -/
def Phase.failure? : Phase ι → Option BurstFailure
  | .observed _ failure => failure
  | .standing (.over report) => report.failure
  | _ => none

section Raise

variable {e : Engine ι} {id : String} {rs : List Record} {limits : Limits}

/-- As long as a burst has not failed, higher limits change nothing. -/
lemma Course.raise (hdepth : e.limits.maxDepth ≤ limits.maxDepth)
    (hactions : e.limits.maxActions ≤ limits.maxActions) {phase : Phase ι}
    (h : Course e id rs phase) (hquiet : phase.failure? = none) :
    Course { e with limits } id rs phase := by
  induction h with
  | invoked hlookup => exact .invoked hlookup
  | opened _ seq output time hroot ih => exact .opened (ih rfl) seq output time hroot
  | observed _ hseen ih =>
    refine .observed (ih rfl) ?_
    subst hseen
    exact (evaluate_eq_of_le hdepth hquiet).symm
  | failed => cases hquiet
  | finished _ hturn ih =>
    refine .finished (ih rfl) ?_
    cases hquiet
    rw [← hturn]
    apply nextTurn_eq_of_le hactions
    intro failure hover
    rw [hturn] at hover
    cases hover
  | dispatched _ hturn ih =>
    refine .dispatched (ih rfl) ?_
    rw [← hturn]
    apply nextTurn_eq_of_le hactions
    intro failure hover
    rw [hturn] at hover
    cases hover
  | answered _ seq output time hseq hrecord ih =>
    exact .answered (ih rfl) seq output time hseq hrecord

/-- Where a burst is over, it goes on under higher limits. -/
lemma Course.continues_raised {β : Behaviour} {clock : Nat → Timestamp}
    (hdepth : e.limits.maxDepth ≤ limits.maxDepth)
    (hactions : e.limits.maxActions ≤ limits.maxActions) {report : Report}
    (halone : Alone β clock rs) (h : Course e id rs (.standing (.over report))) :
    (Phase.standing (.over report) : Phase ι).Continues β clock { e with limits } id rs := by
  cases h with
  | @failed _ b failure h =>
    generalize hfailure : some failure = last at h
    cases h with
    | @observed _ b record chain seen h hseen =>
      subst hseen
      have hrecorded := h.raise hdepth hactions rfl
      refine (continues_observed halone (.observed hrecorded rfl)).extend rfl
        (List.prefix_refl _) ?_
      exact (List.prefix_append_right_inj _).2 (evaluate_firings_isPrefix hdepth)
  | finished h hturn =>
    exact (continues_observed halone (h.raise hdepth hactions rfl)).extend rfl
      (List.prefix_refl _) (List.prefix_refl _)

end Raise

/-! ### Two runs -/

lemma Alone.relabel {β : Behaviour} {clock : Nat → Timestamp} {records : List Record}
    (h : Alone β clock records) (burst : String) (clock' : Nat → Timestamp) :
    Alone β clock' (records.map (Record.relabel ⟨fun n => n, burst, clock'⟩)) := by
  refine ⟨h.obeys.relabel _, ?_, ?_⟩
  · rw [List.map_map, List.length_map]
    exact h.numbered
  · intro r hr
    obtain ⟨r', -, rfl⟩ := List.mem_map.1 hr
    rfl

/-- A lone run has the same report under another name and with another clock. -/
lemma Course.alone?_eq_relabel {e : Engine ι} {id : String} {report : Report} {β : Behaviour}
    {clock : Nat → Timestamp} (h : Course e id report.records (.standing (.over report)))
    (halone : Alone β clock report.records) (capacity : Nat) (burst : String)
    (clock' : Nat → Timestamp) :
    Engine.alone? { e with log := { capacity } } β clock' burst report.root.action
      report.root.input = some (report.relabel ⟨fun n => n, burst, clock'⟩) := by
  have hcourse : Course e burst (report.relabel ⟨fun n => n, burst, clock'⟩).records
      (.standing (.over (report.relabel ⟨fun n => n, burst, clock'⟩))) :=
    Course.relabel (τ := ⟨fun n => n, burst, clock'⟩) h fun _ _ _ _ hlt => hlt
  have halone' := halone.relabel burst clock'
  exact hcourse.alone?_eq_self capacity halone'.obeys halone'.numbered halone'.timed

/-- Ann rings under these limits, and the calls return nothing. -/
def Bells.rung (limits : Limits) (name : String) (pace : Nat) : Option Report :=
  Engine.alone? { engine with limits, log := { capacity := 4 } } (fun _ _ _ => .empty)
    (fun n => ⟨pace * n⟩) name ⟨"Bell", "ring"⟩ (KeyMap.singleton "who" (.str "ann"))

namespace Engine

/--
Of one stimulus, with calls that return the same, lower limits leave an initial part of the records
and of the firings. If the burst does not fail under the lower limits, the higher ones change
nothing.
-/
theorem alone?_isPrefix {e : Engine ι} {limits limits' : Limits}
    (hdepth : limits.maxDepth ≤ limits'.maxDepth)
    (hactions : limits.maxActions ≤ limits'.maxActions)
    {action : ActionRef} (hdeclared : e.registry.contains action = true) (β : Behaviour)
    (input : Fields) (capacity capacity' : Nat) (name name' : String)
    (clock clock' : Nat → Timestamp) :
    ∃ report report',
      alone? { e with limits, log := { capacity } } β clock name action input = some report ∧
      alone? { e with limits := limits', log := { capacity := capacity' } } β clock' name' action
        input = some report' ∧
      let again := report.relabel ⟨fun n => n, name', clock'⟩
      again.records <+: report'.records ∧ again.firings <+: report'.firings ∧
        (report.failure = none → report' = again) := by
  obtain ⟨handle, hlookup⟩ := Option.isSome_iff_exists.1 hdeclared
  have hcontinues :
      (Phase.invoked action input handle).Continues β clock { e with limits } name [] :=
    Course.continues_invoked hlookup
  obtain ⟨report, hcourse, halone, hstimulus, -, -⟩ := hcontinues
  obtain ⟨rfl, rfl⟩ := Prod.mk.inj hstimulus
  have hreport := hcourse.alone?_eq_self capacity halone.obeys halone.numbered halone.timed
  by_cases hfailure : report.failure = none
  · have hraised : Course { e with limits := limits' } name report.records
        (.standing (.over report)) := hcourse.raise hdepth hactions hfailure
    exact ⟨report, _, hreport, hraised.alone?_eq_relabel halone capacity' name' clock',
      List.prefix_refl _, List.prefix_refl _, fun _ => rfl⟩
  · have hraised : (Phase.standing (.over report) : Phase ι).Continues β clock
        { e with limits := limits' } name report.records :=
      Course.continues_raised (e := { e with limits }) hdepth hactions halone hcourse
    obtain ⟨report', hcourse', halone', hstimulus', hrecords, hfirings⟩ := hraised
    obtain ⟨haction, hinput⟩ := Prod.mk.inj hstimulus'
    have hreport' := hcourse'.alone?_eq_relabel halone' capacity' name' clock'
    rw [haction, hinput] at hreport'
    exact ⟨report, _, hreport, hreport', hrecords.map _, hfirings.map _,
      fun hnone => absurd hnone hfailure⟩

theorem alone?_isPrefix_bells : (⟨0, 1⟩ : Limits).maxDepth ≤ (⟨8, 16⟩ : Limits).maxDepth ∧
    (⟨0, 1⟩ : Limits).maxActions ≤ (⟨8, 16⟩ : Limits).maxActions ∧
    Bells.engine.registry.contains ⟨"Bell", "ring"⟩ = true ∧
    ∃ report report', Bells.rung ⟨0, 1⟩ "a" 1 = some report ∧
      Bells.rung ⟨8, 16⟩ "b" 10 = some report' ∧
      let again := report.relabel ⟨fun n => n, "b", fun n => ⟨10 * n⟩⟩
      again.records <+: report'.records ∧ again.firings <+: report'.firings ∧
      (report.records.length, report.firings.length) = (1, 0) ∧
      (report'.records.length, report'.firings.length) = (2, 2) := by
  have hdepth : (⟨0, 1⟩ : Limits).maxDepth ≤ (⟨8, 16⟩ : Limits).maxDepth := by decide
  have hactions : (⟨0, 1⟩ : Limits).maxActions ≤ (⟨8, 16⟩ : Limits).maxActions := by decide
  have hdeclared : Bells.engine.registry.contains ⟨"Bell", "ring"⟩ = true := rfl
  obtain ⟨report, report', hreport, hreport', hrecords, hfirings, -⟩ :=
    alone?_isPrefix hdepth hactions hdeclared (fun _ _ _ => .empty)
      (KeyMap.singleton "who" (.str "ann")) 4 4 "a" "b" (fun n => ⟨1 * n⟩) (fun n => ⟨10 * n⟩)
  -- under the lower limits nothing fires, and under the higher ones the chime follows
  have hshort : (Bells.rung ⟨0, 1⟩ "a" 1).map
      (fun report => (report.records.length, report.firings.length)) = some (1, 0) := by
    decide +kernel
  have hlong : (Bells.rung ⟨8, 16⟩ "b" 10).map
      (fun report => (report.records.length, report.firings.length)) = some (2, 2) := by
    decide +kernel
  rw [Bells.rung, hreport] at hshort
  rw [Bells.rung, hreport'] at hlong
  exact ⟨hdepth, hactions, hdeclared, report, report', hreport, hreport', hrecords, hfirings,
    Option.some.inj hshort, Option.some.inj hlong⟩

end Engine

end Synchrony
