import Synchrony.Proofs.Burst.Calls
import Synchrony.Proofs.Log.Events

/-!
# What the log keeps

A step of a burst appends one record to the log, or leaves it alone, or ends the burst and closes it
(`Phase.Logs`). So whatever the traffic, the bursts that the log tracks are those that it tracked at
the start and those that have records and are not over, and of all records it keeps the latest, as
many as it can (`Traffic.Tracked`).
-/

namespace Synchrony

variable {ι : Type}

/-! ### What a step does to the log -/

/-- The log and the records that a step of the burst `id` leaves, when it leads to this phase. -/
inductive Phase.Logs (id : String) (log : Log) (phase : Phase ι) : Log → List Record → Prop where
  | appended (new : NewRecord) (hburst : new.burst = id) (hgoing : phase.report? = none) :
      Logs id log phase (log.append new).2 [(log.append new).1]
  | kept (hgoing : phase.report? = none) : Logs id log phase log []
  | closed (hover : phase.report? ≠ none) : Logs id log phase (log.closeBurst id).2 []

section Moves

variable {e : Engine ι} {id : String} {rs : List Record} {log : Log}

lemma logs_proceed {b : Burst} {failure : Option BurstFailure}
    (h : Course e id rs (.observed b failure)) :
    Phase.Logs id log (.standing (Engine.proceed { e with log } b failure).1)
      (Engine.proceed { e with log } b failure).2.log [] := by
  obtain ⟨⟨hid, -, -⟩, -⟩ := h.tracks
  subst hid
  cases failure with
  | some failure => exact .closed (Option.some_ne_none _)
  | none =>
    simp only [Engine.proceed, Engine.advance]
    split
    · exact .closed (Option.some_ne_none _)
    · exact .kept rfl

lemma logs_of_move? {phase phase' : Phase ι} {move : Move} {e' : Engine ι} {new : List Record}
    (h : Course e id rs phase)
    (hmove : phase.move? { e with log } id move = some (phase', e', new)) :
    phase'.Logs id log e'.log new := by
  cases phase with
  | invoked action input handle =>
    cases move <;> simp only [Phase.move?, Option.some.injEq, reduceCtorEq] at hmove
    cases hmove
    exact .appended _ rfl rfl
  | recorded b record chain =>
    cases move <;> simp only [Phase.move?, Option.some.injEq, reduceCtorEq] at hmove
    cases hmove
    exact .kept rfl
  | observed b failure =>
    cases move <;> simp only [Phase.move?, Option.some.injEq, reduceCtorEq] at hmove
    cases hmove
    exact logs_proceed h
  | standing step =>
    rcases step with ⟨b, pending, args, handle⟩ | report
    · cases move <;> simp only [Phase.move?, Option.some.injEq, reduceCtorEq] at hmove
      cases hmove
      exact .appended _ h.tracks.1.id_eq rfl
    · cases move <;> simp [Phase.move?] at hmove

end Moves

namespace Traffic

/-- The burst has records and is not over. -/
def Open (s : Traffic ι) (id : String) : Prop := s.recordsOf id ≠ [] ∧ s.report? id = none

instance (s : Traffic ι) (id : String) : Decidable (s.Open id) :=
  decidable_of_iff ((s.recordsOf id).isEmpty = false ∧ (s.report? id).isNone = true)
    (by simp [Open])

/-- A step leaves it to every other burst whether it is open. -/
lemma Affects.open_iff {s s' : Traffic ι} {id other : String} {new : List Record}
    (h : Affects id new s s') (hother : other ≠ id) : s'.Open other ↔ s.Open other := by
  rw [Open, Open, h.recordsOf_of_ne hother, Traffic.report?, h.others other hother, Traffic.report?]

/-- The log of the traffic, which began on the engine `e`. -/
structure Tracked (e : Engine ι) (s : Traffic ι) : Prop where
  /-- A burst has a name that the log did not track at the start. -/
  fresh : ∀ id phase, s.bursts.get? id = some phase → ¬ e.log.active.contains id = true
  active : ∀ id, s.engine.log.active.contains id = true ↔
    e.log.active.contains id = true ∨ s.Open id
  capacity : s.engine.log.capacity = e.log.capacity
  /-- The latest records are kept, those of the traffic before those that were there. -/
  recent : s.engine.log.recentFirst =
    (s.history.reverse ++ e.log.recentFirst).take e.log.capacity

variable {e : Engine ι} {s s' : Traffic ι} {id : String}

lemma tracked_idle (hfits : e.log.recentFirst.length ≤ e.log.capacity) : (idle e).Tracked e :=
  ⟨nofun, fun id => by simp [idle, Open, recordsOf], rfl, (List.take_of_length_le hfits).symm⟩

namespace Tracked

lemma begin {action : ActionRef} {input : Fields} {handle : Handle ι} (h : s.Tracked e)
    (hfresh : s.Fresh id) :
    Tracked e { s with bursts := s.bursts.insert id (.invoked action input handle) } := by
  have hopen (id' : String) :
      Open { s with bursts := s.bursts.insert id (.invoked action input handle) } id' ↔
        s.Open id' := by
    refine and_congr_right fun _ => ?_
    simp only [report?, KeyMap.get?_insert]
    split
    · rename_i heq
      simp [heq, hfresh.1, Phase.report?]
    · rfl
  refine ⟨fun id' phase hphase => ?_,
    fun id' => (h.active id').trans (or_congr_right (hopen id').symm), h.capacity, h.recent⟩
  rw [KeyMap.get?_insert] at hphase
  split at hphase
  · rename_i heq
    intro hactive
    have htracked := (h.active id').2 (.inl hactive)
    rw [KeyMap.contains, heq, hfresh.2] at htracked
    cases htracked
  · exact h.fresh id' phase hphase

lemma move {move : Move} {phase phase' : Phase ι} {engine : Engine ι} {new : List Record}
    (h : s.Tracked e) (hs : s.Consistent e) (hphase : s.bursts.get? id = some phase)
    (hmove : phase.move? s.engine id move = some (phase', engine, new)) :
    Tracked e ⟨engine, s.bursts.insert id phase', s.history ++ new⟩ := by
  have haffects := affects_of_move hs hphase hmove
  rw [hs.engine] at hmove
  have hlogs := logs_of_move? (hs.course id phase hphase) hmove
  have hfresh (id' : String) (phase : Phase ι)
      (hphase' : (s.bursts.insert id phase').get? id' = some phase) :
      ¬ e.log.active.contains id' = true := by
    rw [KeyMap.get?_insert] at hphase'
    split at hphase'
    · rename_i heq
      exact heq ▸ h.fresh id _ hphase
    · exact h.fresh id' phase hphase'
  have hreport : report? ⟨engine, s.bursts.insert id phase', s.history ++ new⟩ id =
      phase'.report? := by rw [report?, KeyMap.get?_insert_self, Option.bind_some]
  have hself : Open ⟨engine, s.bursts.insert id phase', s.history ++ new⟩ id ↔
      s.recordsOf id ++ new ≠ [] ∧ phase'.report? = none := by
    rw [Open, haffects.recordsOf_self, hreport]
  generalize hlog : engine.log = log at hlogs
  cases hlogs with
  | appended r hburst hgoing =>
    refine ⟨hfresh, fun id' => ?_, by rw [hlog]; exact h.capacity, ?_⟩
    · rw [hlog, Log.contains_append, hburst, h.active id']
      by_cases heq : id' = id
      · subst heq
        rw [hself]
        simp [hgoing]
      · rw [haffects.open_iff heq, or_iff_right heq]
    · rw [hlog, Log.recentFirst_append, h.capacity, h.recent, Log.take_cons_take,
        List.reverse_concat, List.cons_append]
  | kept hgoing =>
    refine ⟨hfresh, fun id' => ?_, by rw [hlog]; exact h.capacity, ?_⟩
    · rw [hlog, h.active id']
      by_cases heq : id' = id
      · subst heq
        rw [hself, hgoing, List.append_nil, Open, haffects.going]
      · rw [haffects.open_iff heq]
    · rw [hlog, h.recent, List.append_nil]
  | closed hover =>
    refine ⟨hfresh, fun id' => ?_, by rw [hlog]; exact h.capacity, ?_⟩
    · rw [hlog, Log.contains_closeBurst, h.active id']
      by_cases heq : id' = id
      · subst heq
        rw [hself]
        simp [hover, h.fresh id' phase hphase]
      · rw [haffects.open_iff heq, and_iff_right heq]
    · rw [hlog, Log.closeBurst, h.recent, List.append_nil]

lemma step {event : Event} (h : s.Tracked e) (hs : s.Consistent e)
    (hstep : s.step? event = some s') : s'.Tracked e := by
  obtain ⟨id, action, input, handle, rfl, hfresh, hlookup, rfl⟩ |
    ⟨id, move, phase, phase', engine, new, rfl, hphase, hmove, rfl⟩ := step?_cases hstep
  · exact h.begin hfresh
  · exact h.move hs hphase hmove

end Tracked

/-- Whatever happens on an engine, its log tracks the bursts that are open. -/
theorem tracked_of_run {events : List Event} (hfits : e.log.recentFirst.length ≤ e.log.capacity)
    (h : (idle e).run events = some s) : s.Tracked e :=
  (run_induction (P := fun s => s.Consistent e ∧ s.Tracked e)
    (fun _ _ _ hs hstep => ⟨hs.1.step hstep, hs.2.step hs.1 hstep⟩)
    ⟨consistent_idle e, tracked_idle hfits⟩ h).2

end Traffic

end Synchrony
