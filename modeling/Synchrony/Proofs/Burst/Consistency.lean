import Synchrony.Proofs.Burst.Course

/-!
# Every burst of the traffic follows its course

However the steps of the bursts on an engine are mixed, each burst follows a course of its own, and
the log has exactly the burst's records for it until the burst is over. The records of all bursts
together are numbered in the order they were appended (`Traffic.Consistent`).
-/

namespace Synchrony

variable {ι : Type}

/-- A step of the burst `id` continues its course, and concerns no other burst. -/
structure Moved (e : Engine ι) (id : String) (rs : List Record) (log : Log) (phase : Phase ι)
    (e' : Engine ι) (new : List Record) : Prop where
  engine : e' = { e with log := e'.log }
  course : Course e id (rs ++ new) phase
  logged : phase.report? = none → e'.log.burstRecords id = rs ++ new
  others : ∀ other, other ≠ id → e'.log.burstRecords other = log.burstRecords other
  appended : e'.log.appended = log.appended + new.length
  numbered : new.map (·.seq) = List.range' (log.appended + 1) new.length
  burst_eq : ∀ r ∈ new, r.burst = id

section Moves

variable {e : Engine ι} {id : String} {rs : List Record} {log : Log}

lemma moved_open {action : ActionRef} {input output : Fields} {handle : Handle ι}
    {time : Timestamp} (h : Course e id rs (.invoked action input handle))
    (hlog : log.burstRecords id = rs) :
    Moved e id rs log
      (.recorded (Engine.openBurst { e with log } id action input output time).1
        (Engine.openBurst { e with log } id action input output time).1.root [])
      (Engine.openBurst { e with log } id action input output time).2
      [(Engine.openBurst { e with log } id action input output time).1.root] := by
  have hrs : rs = [] := h.tracks
  subst hrs
  refine ⟨rfl, .opened h (log.appended + 1) output time rfl, fun _ => ?_, fun other hother => ?_,
    rfl, rfl, by simp [Engine.openBurst, Log.append, NewRecord.number]⟩
  · exact (Log.burstRecords_append_self log _).trans (by rw [hlog]; rfl)
  · exact Log.burstRecords_append_of_ne log hother

lemma moved_record {b : Burst} {pending : Pending} {args output : Fields} {handle : Handle ι}
    {time : Timestamp} (h : Course e id rs (.standing (.call b pending args handle)))
    (hlog : log.burstRecords id = rs) (hseq : ∀ r ∈ rs, r.seq ≤ log.appended) :
    Moved e id rs log
      (.recorded (Engine.recordCall { e with log } b pending args output time).2.1
        (Engine.recordCall { e with log } b pending args output time).1 pending.chain)
      (Engine.recordCall { e with log } b pending args output time).2.2
      [(Engine.recordCall { e with log } b pending args output time).1] := by
  obtain ⟨⟨hid, hroot, happended⟩, hfirings⟩ := h.tracks
  subst hid
  refine ⟨rfl, .answered h (log.appended + 1) output time (fun r hr => ?_) rfl, fun _ => ?_,
    fun other hother => ?_, rfl, rfl, by simp [Engine.recordCall, Log.append, NewRecord.number]⟩
  · exact Nat.lt_succ_of_le (hseq r hr)
  · exact (Log.burstRecords_append_self log _).trans (by rw [hlog]; rfl)
  · exact Log.burstRecords_append_of_ne log hother

/-- What the engine makes of a record is what the course says. -/
lemma Course.observe_eq {b : Burst} {record : Record} {chain : List (List Char)}
    (h : Course e id rs (.recorded b record chain)) (hlog : log.burstRecords id = rs) :
    Engine.observe { e with log } b record chain =
      (b.after (evaluate e.limits id record chain (e.rules.completedBy rs record)),
        (evaluate e.limits id record chain (e.rules.completedBy rs record)).failure) := by
  obtain ⟨⟨hid, -, -⟩, before, hrs, -⟩ := h.tracks
  have hburst : record.burst = id := h.burst_eq record (by simp [hrs])
  subst hid
  rw [Engine.observe, Engine.matchesOf, hburst, hlog]
  rfl

/-- The report with which the engine closes a burst. -/
lemma close_eq {b : Burst} {failure : Option BurstFailure} (hb : b.id = id)
    (hlog : log.burstRecords id = rs) : (Engine.close { e with log } b failure).1 =
      ⟨id, b.root, rs, b.firings, failure⟩ := by
  rw [← hlog, ← hb]
  rfl

lemma moved_observe {b : Burst} {record : Record} {chain : List (List Char)}
    (h : Course e id rs (.recorded b record chain)) (hlog : log.burstRecords id = rs) :
    Moved e id rs log
      (.observed (Engine.observe { e with log } b record chain).1
        (Engine.observe { e with log } b record chain).2) { e with log } [] := by
  refine ⟨rfl, ?_, fun _ => by simpa using hlog, fun _ _ => rfl, rfl, rfl, by simp⟩
  rw [List.append_nil, h.observe_eq hlog]
  exact .observed h rfl

lemma moved_close {b : Burst} {failure : Option BurstFailure}
    (hb : b.id = id) (hlog : log.burstRecords id = rs)
    (h : Course e id rs (.standing (.over ⟨id, b.root, rs, b.firings, failure⟩))) :
    Moved e id rs log (.standing (.over (Engine.close { e with log } b failure).1))
      (Engine.close { e with log } b failure).2 [] := by
  refine ⟨rfl, ?_, fun hopen => by simp [Phase.report?] at hopen, fun other hother => ?_,
    rfl, rfl, by simp⟩
  · rw [List.append_nil, close_eq hb hlog]
    exact h
  · exact Log.burstRecords_closeBurst_of_ne log (hb ▸ hother)

lemma moved_proceed {b : Burst} {failure : Option BurstFailure}
    (h : Course e id rs (.observed b failure)) (hlog : log.burstRecords id = rs) :
    Moved e id rs log (.standing (Engine.proceed { e with log } b failure).1)
      (Engine.proceed { e with log } b failure).2 [] := by
  obtain ⟨⟨hid, -, -⟩, -⟩ := h.tracks
  subst hid
  cases failure with
  | some failure => exact moved_close rfl hlog (.failed h)
  | none =>
    simp only [Engine.proceed, Engine.advance]
    split
    · rename_i failure hturn
      exact moved_close rfl hlog (.finished h hturn)
    · rename_i pending args handle rest hturn
      refine ⟨rfl, ?_, fun _ => by simpa using hlog, fun _ _ => rfl, rfl, rfl, by simp⟩
      rw [List.append_nil]
      exact .dispatched h hturn

/-- Each step of a burst continues its course. -/
lemma moved_of_move? {phase phase' : Phase ι} {move : Move} {e' : Engine ι} {new : List Record}
    (h : Course e id rs phase) (hlog : phase.report? = none → log.burstRecords id = rs)
    (hseq : ∀ r ∈ rs, r.seq ≤ log.appended)
    (hmove : phase.move? { e with log } id move = some (phase', e', new)) :
    Moved e id rs log phase' e' new := by
  cases phase with
  | invoked action input handle =>
    cases move <;> simp only [Phase.move?, Option.some.injEq, reduceCtorEq] at hmove
    cases hmove
    exact moved_open h (hlog rfl)
  | recorded b record chain =>
    cases move <;> simp only [Phase.move?, Option.some.injEq, reduceCtorEq] at hmove
    cases hmove
    exact moved_observe h (hlog rfl)
  | observed b failure =>
    cases move <;> simp only [Phase.move?, Option.some.injEq, reduceCtorEq] at hmove
    cases hmove
    exact moved_proceed h (hlog rfl)
  | standing step =>
    rcases step with ⟨b, pending, args, handle⟩ | report
    · cases move <;> simp only [Phase.move?, Option.some.injEq, reduceCtorEq] at hmove
      cases hmove
      exact moved_record h (hlog rfl) hseq
    · cases move <;> simp [Phase.move?] at hmove

end Moves

namespace Traffic

/-- The traffic on the engine `e` is in order. -/
structure Consistent (e : Engine ι) (s : Traffic ι) : Prop where
  engine : s.engine = { e with log := s.engine.log }
  appended : s.engine.log.appended = e.log.appended + s.history.length
  /-- Records are numbered in the order they were appended. -/
  numbered : s.history.map (·.seq) = List.range' (e.log.appended + 1) s.history.length
  known : ∀ r ∈ s.history, ∃ phase, s.bursts.get? r.burst = some phase
  course : ∀ id phase, s.bursts.get? id = some phase → Course e id (s.recordsOf id) phase
  /-- The log has the records of a burst until it is over. -/
  logged : ∀ id phase, s.bursts.get? id = some phase → phase.report? = none →
    s.engine.log.burstRecords id = s.recordsOf id

lemma consistent_idle (e : Engine ι) : (idle e).Consistent e := by
  refine ⟨rfl, rfl, rfl, fun r hr => ?_, fun id phase h => ?_, fun id phase h => ?_⟩
  · simp [idle] at hr
  · simp [idle] at h
  · simp [idle] at h

variable {e : Engine ι} {s s' : Traffic ι}

lemma Consistent.seq_le (h : s.Consistent e) {r : Record} (hr : r ∈ s.history) :
    r.seq ≤ s.engine.log.appended := by
  have hmem : r.seq ∈ s.history.map (·.seq) := List.mem_map_of_mem hr
  rw [h.numbered, List.mem_range'_1] at hmem
  rw [h.appended]
  omega

lemma recordsOf_of_fresh (h : s.Consistent e) {id : String} (hfresh : s.bursts.get? id = none) :
    s.recordsOf id = [] := by
  rw [recordsOf, List.filter_eq_nil_iff]
  intro r hr hid
  obtain ⟨phase, hphase⟩ := h.known r hr
  rw [of_decide_eq_true hid, hfresh] at hphase
  cases hphase

lemma Consistent.begin {id : String} {action : ActionRef} {input : Fields} {handle : Handle ι}
    (h : s.Consistent e) (hfresh : s.Fresh id)
    (hlookup : s.engine.registry.lookup? action = some handle) :
    Consistent e { s with bursts := s.bursts.insert id (.invoked action input handle) } := by
  have hnone := recordsOf_of_fresh h hfresh.1
  refine ⟨h.engine, h.appended, h.numbered, fun r hr => ?_, fun id' phase hphase => ?_,
    fun id' phase hphase hopen => ?_⟩
  · obtain ⟨phase, hphase⟩ := h.known r hr
    have hne : r.burst ≠ id := fun heq => by rw [heq, hfresh.1] at hphase; cases hphase
    exact ⟨phase, by rwa [KeyMap.get?_insert_of_ne _ _ hne]⟩
  · rw [KeyMap.get?_insert] at hphase
    split at hphase
    · rename_i heq
      cases hphase
      rw [heq]
      change Course e id (s.recordsOf id) _
      rw [hnone]
      rw [h.engine] at hlookup
      exact .invoked hlookup
    · exact h.course id' phase hphase
  · rw [KeyMap.get?_insert] at hphase
    split at hphase
    · rename_i heq
      rw [heq]
      change s.engine.log.burstRecords id = s.recordsOf id
      rw [hnone, Log.burstRecords, hfresh.2]
      rfl
    · exact h.logged id' phase hphase hopen

lemma recordsOf_append (s : Traffic ι) (engine : Engine ι) (bursts : KeyMap (Phase ι))
    (new : List Record) (id : String) :
    recordsOf ⟨engine, bursts, s.history ++ new⟩ id =
      s.recordsOf id ++ new.filter (·.burst = id) := by
  rw [recordsOf, List.filter_append, recordsOf]

/-- What the step of a burst does, in traffic that is in order. -/
lemma Consistent.moved {id : String} {move : Move} {phase phase' : Phase ι} {engine : Engine ι}
    {new : List Record} (h : s.Consistent e) (hphase : s.bursts.get? id = some phase)
    (hmove : phase.move? s.engine id move = some (phase', engine, new)) :
    Moved e id (s.recordsOf id) s.engine.log phase' engine new := by
  rw [h.engine] at hmove
  exact moved_of_move? (h.course id phase hphase) (h.logged id phase hphase)
    (fun r hr => h.seq_le (List.mem_of_mem_filter hr)) hmove

/-- The records that the step of a burst appends are its own. -/
lemma recordsOf_moved {id : String} {rs new : List Record} {log : Log} {phase : Phase ι}
    {engine : Engine ι} (h : Moved e id rs log phase engine new) (s : Traffic ι)
    (bursts : KeyMap (Phase ι)) (other : String) :
    recordsOf ⟨engine, bursts, s.history ++ new⟩ other =
      if other = id then s.recordsOf id ++ new else s.recordsOf other := by
  rw [recordsOf_append]
  split
  · rename_i heq
    rw [heq, List.filter_eq_self.2 fun r hr => decide_eq_true (h.burst_eq r hr)]
  · rename_i hne
    rw [List.filter_eq_nil_iff.2, List.append_nil]
    intro r hr heq
    exact hne ((of_decide_eq_true heq).symm.trans (h.burst_eq r hr))

lemma Consistent.move {id : String} {move : Move} {phase phase' : Phase ι} {engine : Engine ι}
    {new : List Record} (h : s.Consistent e) (hphase : s.bursts.get? id = some phase)
    (hmove : phase.move? s.engine id move = some (phase', engine, new)) :
    Consistent e ⟨engine, s.bursts.insert id phase', s.history ++ new⟩ := by
  have hmoved := h.moved hphase hmove
  refine ⟨hmoved.engine, ?_, ?_, fun r hr => ?_, fun id' phase hphase => ?_,
    fun id' phase hphase hopen => ?_⟩
  · change engine.log.appended = e.log.appended + (s.history ++ new).length
    rw [hmoved.appended, h.appended, List.length_append, Nat.add_assoc]
  · change (s.history ++ new).map (·.seq) = List.range' (e.log.appended + 1) (s.history ++ new).length
    rw [List.map_append, h.numbered, hmoved.numbered, h.appended, List.length_append,
      ← List.range'_append_1, Nat.add_right_comm]
  · change ∃ phase, (s.bursts.insert id phase').get? r.burst = some phase
    by_cases heq : r.burst = id
    · exact ⟨phase', by rw [heq, KeyMap.get?_insert_self]⟩
    · rw [KeyMap.get?_insert_of_ne _ _ heq]
      rcases List.mem_append.1 hr with hr | hr
      · exact h.known r hr
      · exact absurd (hmoved.burst_eq r hr) heq
  · rw [recordsOf_moved hmoved]
    rw [KeyMap.get?_insert] at hphase
    split at hphase
    · rename_i heq
      cases hphase
      rw [if_pos heq, heq]
      exact hmoved.course
    · rename_i hne
      rw [if_neg hne]
      exact h.course id' phase hphase
  · rw [recordsOf_moved hmoved]
    rw [KeyMap.get?_insert] at hphase
    split at hphase
    · rename_i heq
      cases hphase
      rw [if_pos heq, heq]
      exact hmoved.logged hopen
    · rename_i hne
      rw [if_neg hne]
      exact (hmoved.others id' hne).trans (h.logged id' phase hphase hopen)

lemma Consistent.step {event : Event} (h : s.Consistent e) (hstep : s.step? event = some s') :
    s'.Consistent e := by
  obtain ⟨id, action, input, handle, rfl, hfresh, hlookup, rfl⟩ |
    ⟨id, move, phase, phase', engine, new, rfl, hphase, hmove, rfl⟩ := step?_cases hstep
  · exact h.begin hfresh hlookup
  · exact h.move hphase hmove

/-- Whatever happens on an engine, the traffic stays in order. -/
theorem consistent_of_run {events : List Event} (h : (idle e).run events = some s) :
    s.Consistent e :=
  run_induction (fun _ _ _ hs hstep => hs.step hstep) (consistent_idle e) h

lemma eq_standing_of_report? {phase : Phase ι} {report : Report}
    (h : phase.report? = some report) : phase = .standing (.over report) := by
  unfold Phase.report? at h
  split at h
  · cases h
    rfl
  · cases h

variable {events : List Event} {id : String} {report : Report}

/-- The records of a report are those that were appended for the burst. -/
lemma records_of_report? (h : (idle e).run events = some s) (hreport : s.report? id = some report) :
    report.records = s.recordsOf id := by
  obtain ⟨phase, hphase, hover⟩ := Option.bind_eq_some_iff.1 hreport
  rw [eq_standing_of_report? hover] at hphase
  exact ((consistent_of_run h).course id _ hphase).tracks.2.2.1

/-- A burst that is over followed a course to its report. -/
lemma course_of_report? (h : (idle e).run events = some s) (hreport : s.report? id = some report) :
    Course e id report.records (.standing (.over report)) := by
  obtain ⟨phase, hphase, hover⟩ := Option.bind_eq_some_iff.1 hreport
  rw [eq_standing_of_report? hover] at hphase
  rw [records_of_report? h hreport]
  exact (consistent_of_run h).course id _ hphase

end Traffic

end Synchrony
