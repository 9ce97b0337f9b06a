import Synchrony.Proofs.Burst.Consistency

/-!
# The calls that bursts wait for

A burst of the traffic waits for the call it made (`Traffic.called?`), or can go on by itself, or is
over. What a step does is said by `Traffic.Affects`: it touches one burst, which was not over, and
appends records of it.
-/

namespace Synchrony

variable {ι : Type}

/-- The action and the arguments of the call that a burst waits for. -/
def Phase.called? : Phase ι → Option (ActionRef × Fields)
  | .invoked action input _ => some (action, input)
  | .standing (.call _ pending args _) => some (pending.invocation.action, args)
  | _ => none

lemma Phase.called?_eq_none_of_report? {phase : Phase ι} {report : Report}
    (h : phase.report? = some report) : phase.called? = none := by
  rw [Traffic.eq_standing_of_report? h]
  rfl

namespace Traffic

/-- The action and the arguments of the call that a burst waits for. -/
def called? (s : Traffic ι) (id : String) : Option (ActionRef × Fields) :=
  (s.bursts.get? id).bind Phase.called?

/-- A step touches one burst, which was not over, and appends these records of it. -/
structure Affects (id : String) (new : List Record) (s s' : Traffic ι) : Prop where
  going : s.report? id = none
  known : ∃ phase, s'.bursts.get? id = some phase
  others : ∀ other, other ≠ id → s'.bursts.get? other = s.bursts.get? other
  history : s'.history = s.history ++ new
  burst_eq : ∀ r ∈ new, r.burst = id

variable {e : Engine ι} {s s' : Traffic ι} {id : String} {new : List Record}

namespace Affects

variable (h : Affects id new s s')
include h

lemma recordsOf_self : s'.recordsOf id = s.recordsOf id ++ new := by
  rw [recordsOf, h.history, List.filter_append, List.filter_eq_self.2 fun r hr =>
    decide_eq_true (h.burst_eq r hr)]
  rfl

lemma recordsOf_of_ne {other : String} (hother : other ≠ id) :
    s'.recordsOf other = s.recordsOf other := by
  have hnone : new.filter (·.burst = other) = [] := List.filter_eq_nil_iff.2 fun r hr hburst =>
    hother ((of_decide_eq_true hburst).symm.trans (h.burst_eq r hr))
  rw [recordsOf, h.history, List.filter_append, hnone, List.append_nil, recordsOf]

lemma called?_of_ne {other : String} (hother : other ≠ id) : s'.called? other = s.called? other := by
  rw [called?, called?, h.others other hother]

/-- A burst that is over stays so. -/
lemma report? {other : String} {report : Report} (hreport : s.report? other = some report) :
    s'.report? other = some report := by
  have hother : other ≠ id := by
    rintro rfl
    rw [h.going] at hreport
    cases hreport
  rwa [Traffic.report?, h.others other hother]

/-- Touching the burst again, which was not over. -/
lemma trans {new' : List Record} {s'' : Traffic ι} (h' : Affects id new' s' s'') :
    Affects id (new ++ new') s s'' := by
  refine ⟨h.going, h'.known, fun other hother => ?_, ?_, fun r hr => ?_⟩
  · rw [h'.others other hother, h.others other hother]
  · rw [h'.history, h.history, List.append_assoc]
  · rcases List.mem_append.1 hr with hr | hr
    · exact h.burst_eq r hr
    · exact h'.burst_eq r hr

lemma known_of_known {other : String} {phase : Phase ι} (hphase : s.bursts.get? other = some phase) :
    ∃ phase, s'.bursts.get? other = some phase := by
  by_cases hother : other = id
  · rw [hother]
    exact h.known
  · exact ⟨phase, by rwa [h.others other hother]⟩

end Affects

lemma called?_eq_none_of_report? {report : Report} (h : s.report? id = some report) :
    s.called? id = none := by
  obtain ⟨phase, hphase, hover⟩ := Option.bind_eq_some_iff.1 h
  rw [called?, hphase, Option.bind_some, Phase.called?_eq_none_of_report? hover]

lemma report?_eq_none_of_called? {call : ActionRef × Fields} (h : s.called? id = some call) :
    s.report? id = none := by
  by_contra hover
  obtain ⟨report, hreport⟩ := Option.ne_none_iff_exists'.1 hover
  rw [called?_eq_none_of_report? hreport] at h
  cases h

/-- Nothing happens to a burst that waits for a call. -/
lemma affects_refl_of_called? {call : ActionRef × Fields} (h : s.called? id = some call) :
    Affects id [] s s := by
  obtain ⟨phase, hphase, -⟩ := Option.bind_eq_some_iff.1 h
  exact ⟨report?_eq_none_of_called? h, ⟨phase, hphase⟩, fun _ _ => rfl, (List.append_nil _).symm,
    by simp⟩

/-! ### What the steps do -/

lemma affects_of_begin {action : ActionRef} {input : Fields}
    (h : s.step? (.begin id action input) = some s') :
    s.bursts.get? id = none ∧ s'.called? id = some (action, input) ∧ Affects id [] s s' := by
  obtain ⟨id', action', input', handle, hevent, hfresh, -, rfl⟩ |
    ⟨_, _, _, _, _, _, hevent, -⟩ := step?_cases h
  · cases hevent
    have hgone : s.bursts.get? id = none := hfresh.1
    refine ⟨hgone, ?_, ?_, ⟨.invoked action input handle, KeyMap.get?_insert_self ..⟩,
      fun other hother => KeyMap.get?_insert_of_ne _ _ hother, by simp, by simp⟩
    · simp [called?, Phase.called?]
    · rw [report?, hgone]
      rfl
  · cases hevent

/-- What a step of the traffic leaves where it touched a burst. -/
lemma affects_of_move {move : Move} {phase phase' : Phase ι} {engine : Engine ι}
    (hs : s.Consistent e) (hphase : s.bursts.get? id = some phase)
    (hmove : phase.move? s.engine id move = some (phase', engine, new)) :
    Affects id new s ⟨engine, s.bursts.insert id phase', s.history ++ new⟩ := by
  refine ⟨?_, ⟨phase', KeyMap.get?_insert_self ..⟩,
    fun other hother => KeyMap.get?_insert_of_ne _ _ hother, rfl, (hs.moved hphase hmove).burst_eq⟩
  rw [report?, hphase, Option.bind_some]
  cases phase with
  | standing step =>
    rcases step with ⟨b, pending, args, handle⟩ | report
    · rfl
    · cases move <;> cases hmove
  | _ => rfl

/-- A call that returns is recorded, with what it was given and what it returns. -/
lemma affects_of_answer {output : Fields} {time : Timestamp} (hs : s.Consistent e)
    (h : s.step? (.move id (.answer output time)) = some s') :
    ∃ action args r, s.called? id = some (action, args) ∧ s'.called? id = none ∧
      r.action = action ∧ r.input = args ∧ r.output = output ∧ Affects id [r] s s' := by
  obtain ⟨_, _, _, _, hevent, -⟩ | ⟨id', move, phase, phase', engine, new, hevent, hphase, hmove, rfl⟩ :=
    step?_cases h
  · cases hevent
  cases hevent
  have haffects := affects_of_move hs hphase hmove
  have hcalled : s.called? id = phase.called? := by rw [called?, hphase, Option.bind_some]
  have hcalled' : called? ⟨engine, s.bursts.insert id phase', s.history ++ new⟩ id =
      phase'.called? := by rw [called?, KeyMap.get?_insert_self, Option.bind_some]
  rw [hcalled, hcalled']
  cases phase with
  | invoked action input handle =>
    cases hmove
    exact ⟨action, input, _, rfl, rfl, rfl, rfl, rfl, haffects⟩
  | standing step =>
    rcases step with ⟨b, pending, args, handle⟩ | report
    · cases hmove
      exact ⟨pending.invocation.action, args, _, rfl, rfl, rfl, rfl, rfl, haffects⟩
    · cases hmove
  | _ => cases hmove

/-- A burst that goes on by itself waits for no call. -/
lemma affects_of_go {move : Move} (hs : s.Consistent e) (hmove : move = .observe ∨ move = .proceed)
    (h : s.step? (.move id move) = some s') : s.called? id = none ∧ Affects id [] s s' := by
  obtain ⟨_, _, _, _, hevent, -⟩ | ⟨id', move, phase, phase', engine, new, hevent, hphase, hstep, rfl⟩ :=
    step?_cases h
  · cases hevent
  cases hevent
  have haffects := affects_of_move hs hphase hstep
  rw [called?, hphase, Option.bind_some]
  rcases hmove with rfl | rfl
  · cases phase with
    | recorded b record chain =>
      cases hstep
      exact ⟨rfl, haffects⟩
    | _ => simp [Phase.move?] at hstep
  · cases phase with
    | observed b failure =>
      cases hstep
      exact ⟨rfl, haffects⟩
    | _ => simp [Phase.move?] at hstep

end Traffic

end Synchrony
