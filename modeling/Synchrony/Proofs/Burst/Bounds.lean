import Synchrony.Proofs.Burst.Cycle

/-!
# Every burst ends within its limits

A burst makes at most as many records as it may take actions, or one, and takes three steps for each
(`Phase.effort`). What is taken from its queue was put there by the evaluation of a record, and one
evaluation puts there at most all consequences in the table: this pays for everything taken
(`Effort.Goes`), so rules that cause themselves do not keep a burst going. No record is deeper than
the limit, and a record is as deep as its chain is long (`Traffic.ends_within_limits`).
-/

namespace Synchrony

variable {ι : Type}

/-! ### Records -/

/-- A burst has at most as many records as it may take actions, or one. -/
def Limits.most (limits : Limits) : Nat := max 1 limits.maxActions

section Records

variable {e : Engine ι} {id : String} {rs : List Record} {phase : Phase ι}

/-- A burst that stands at a call may take one more action. -/
lemma Course.length_lt {b : Burst} {pending : Pending} {args : Fields} {handle : Handle ι}
    (h : Course e id rs (.standing (.call b pending args handle))) :
    rs.length < e.limits.maxActions := by
  cases h with
  | dispatched h hturn =>
    rw [← h.tracks.1.appended]
    exact nextTurn_dispatch hturn

theorem Course.length_le (h : Course e id rs phase) : rs.length ≤ e.limits.most := by
  induction h with
  | invoked => exact Nat.zero_le _
  | opened => exact Nat.le_max_left _ _
  | observed _ _ ih => exact ih
  | failed _ ih => exact ih
  | finished _ _ ih => exact ih
  | dispatched _ _ ih => exact ih
  | answered h =>
    rw [List.length_append, List.length_singleton]
    exact Nat.le_trans h.length_lt (Nat.le_max_right _ _)

/-- A burst over budget has all the records it may have, and more could be dispatched. -/
lemma Course.budgetExceeded (ht : e.rules.Tidy) {report : Report}
    (h : Course e id report.records (.standing (.over report))) {burst : String} {limit : Nat}
    (hfailure : report.failure = some (.budgetExceeded burst limit)) :
    report.records.length = e.limits.most ∧
      ∃ branch ∈ (report.lineage e.rules.rules e.registry.contains).waiting,
        e.registry.contains branch.cause.invocation.action = true ∧
          ∃ args, branch.cause.invocation.args.resolve branch.cause.firing.binding = .ok args := by
  rcases h.descends ht with hexhausts | ⟨failure, heq, _, _, _, _, _, _, hevaluation, _⟩
  · rcases hexhausts.failure_eq with ⟨hnone, -⟩ | ⟨-, hbudget, hwaiting⟩
    · rw [hnone] at hfailure
      cases hfailure
    · rw [h.lineage_eq ht hexhausts]
      refine ⟨Nat.le_antisymm h.length_le (Nat.max_le.2 ⟨?_, hbudget⟩), hwaiting⟩
      have hroot := h.tracks.2.1
      rw [List.head?_eq_some_iff] at hroot
      obtain ⟨below, hrecords⟩ := hroot
      rw [hrecords, List.length_cons]
      omega
  · obtain ⟨_, x, _, -, -, -, hblocked⟩ := evaluate_failure_eq_some_iff.1 hevaluation
    rw [heq, hblocked, blockedFailure] at hfailure
    split at hfailure <;> cases hfailure

end Records

/-! ### The queue -/

/-- How many entries of a queue the next dispatch takes: those it skips, and the one it comes to. -/
def takenOf {η : Type} (lookup? : ActionRef → Option η) : List Pending → Nat
  | [] => 0
  | p :: rest =>
    match p.invocation.args.resolve p.binding, lookup? p.invocation.action with
    | .ok _, some _ => 1
    | _, _ => takenOf lookup? rest + 1

section Queue

variable {η : Type} {lookup? : ActionRef → Option η} {limits : Limits} {id : String}
  {appended : Nat} {queue : List Pending}

lemma takenOf_cons_of_dispatchable {p : Pending} (hp : p.Dispatchable lookup?) :
    takenOf lookup? (p :: queue) = 1 := by
  obtain ⟨⟨args, hargs⟩, hhandle⟩ := hp
  obtain ⟨handle, hhandle⟩ := Option.isSome_iff_exists.1 hhandle
  simp only [takenOf, hargs, hhandle]

lemma takenOf_cons_of_not_dispatchable {p : Pending} (hp : ¬ p.Dispatchable lookup?) :
    takenOf lookup? (p :: queue) = takenOf lookup? queue + 1 := by
  rw [takenOf]
  split
  · rename_i args handle hargs hhandle
    exact absurd ⟨⟨args, hargs⟩, by simp [hhandle]⟩ hp
  · rfl

lemma takenOf_le : takenOf lookup? queue ≤ queue.length := by
  induction queue with
  | nil => exact Nat.le_refl _
  | cons p queue ih =>
    rw [List.length_cons]
    by_cases hp : p.Dispatchable lookup?
    · rw [takenOf_cons_of_dispatchable hp]
      omega
    · rw [takenOf_cons_of_not_dispatchable hp]
      omega

/-- A dispatch leaves in the queue what it does not take. -/
lemma takenOf_dispatch {pending : Pending} {args : Fields} {handle : η} {rest : List Pending}
    (h : nextTurn limits lookup? id appended queue = .dispatch pending args handle rest) :
    takenOf lookup? queue + rest.length = queue.length := by
  obtain ⟨skipped, rfl, hskipped, hargs, hhandle⟩ := exists_skipped_of_nextTurn h
  clear h
  induction skipped with
  | nil =>
    have hpending : pending.Dispatchable lookup? := ⟨⟨args, hargs⟩, by simp [hhandle]⟩
    rw [List.nil_append, takenOf_cons_of_dispatchable hpending, List.length_cons, Nat.add_comm]
  | cons p skipped ih =>
    rw [List.forall_mem_cons] at hskipped
    rw [List.cons_append, takenOf_cons_of_not_dispatchable hskipped.1, List.length_cons,
      ← ih hskipped.2, Nat.add_right_comm]

end Queue

/-- How many consequences the rules of the table have. -/
def RuleTable.consequenceCount (t : RuleTable) : Nat := (t.rules.flatMap (·.consequences)).length

/-- An evaluation queues at most all consequences of the table. -/
lemma length_queued_le_consequenceCount (t : RuleTable) {limits : Limits} {id : String}
    {record : Record} {chain : List (List Char)} {records : List Record} :
    (evaluate limits id record chain (t.completedBy records record)).queued.length ≤
      t.consequenceCount := by
  refine Nat.le_trans length_queued_le ?_
  rw [RuleTable.completedBy_eq, RuleTable.consequenceCount]
  induction t.rules with
  | nil => exact Nat.le_refl _
  | cons rule rules ih =>
    rw [List.filterMap_cons, List.flatMap_cons, List.length_append]
    cases rule.completion records record with
    | none => exact Nat.le_trans ih (Nat.le_add_left _ _)
    | some m => simpa using ih

/-! ### Steps -/

/-- How many steps a burst took, what its queue has, and how many records it evaluated. -/
structure Effort where
  steps : Nat := 0
  queued : Nat := 0
  evaluated : Nat := 0

/--
From one point to another a burst takes these many steps and these many entries from its queue. What
it takes was in the queue, or was put there by one of the evaluations, each worth `cost`.
-/
structure Effort.Goes (cost : Nat) (p q : Effort) (steps taken : Nat) : Prop where
  steps : q.steps = p.steps + steps
  taken : taken + q.queued + cost * p.evaluated ≤ p.queued + cost * q.evaluated

lemma Effort.goes_refl (cost : Nat) (p : Effort) : p.Goes cost p 0 0 :=
  ⟨rfl, by rw [Nat.zero_add]⟩

lemma Effort.Goes.trans {cost steps steps' taken taken' : Nat} {p q r : Effort}
    (h : p.Goes cost q steps taken) (h' : q.Goes cost r steps' taken') :
    p.Goes cost r (steps + steps') (taken + taken') := by
  obtain ⟨hsteps, htaken⟩ := h
  obtain ⟨hsteps', htaken'⟩ := h'
  exact ⟨by omega, by omega⟩

/-- How far a burst with `n` records is. -/
def Phase.effort (n : Nat) : Phase ι → Effort
  | .invoked .. => {}
  | .recorded b _ _ => ⟨3 * n - 2, b.queue.length, n - 1⟩
  | .observed b _ => ⟨3 * n - 1, b.queue.length, n⟩
  | .standing (.call b _ _ _) => ⟨3 * n, b.queue.length, n⟩
  | .standing (.over _) => ⟨3 * n, 0, n⟩

/-- How many entries a step takes from the queue of its burst. -/
def Phase.takenBy (e : Engine ι) : Phase ι → Move → Nat
  | .observed b none, .proceed => takenOf e.registry.lookup? b.queue
  | _, _ => 0

section Moves

variable {e : Engine ι} {id : String} {n : Nat}

lemma goes_observe {b : Burst} {record : Record} {chain : List (List Char)} (hn : 0 < n) :
    ((Phase.recorded b record chain : Phase ι).effort n).Goes e.rules.consequenceCount
      ((Phase.observed (e.observe b record chain).1 (e.observe b record chain).2 :
        Phase ι).effort n) 1 0 := by
  constructor
  · simp only [Phase.effort]
    omega
  · have hqueued : (evaluate e.limits b.id record chain (e.matchesOf record)).queued.length ≤
        e.rules.consequenceCount := length_queued_le_consequenceCount e.rules
    have hcost : e.rules.consequenceCount * n =
        e.rules.consequenceCount * (n - 1) + e.rules.consequenceCount := by
      rw [← Nat.mul_succ, Nat.succ_eq_add_one, Nat.sub_add_cancel hn]
    simp only [Phase.effort, Engine.observe, List.length_append]
    omega

lemma goes_proceed {b : Burst} {failure : Option BurstFailure} (hn : 0 < n) :
    ((Phase.observed b failure : Phase ι).effort n).Goes e.rules.consequenceCount
      ((Phase.standing (e.proceed b failure).1).effort n) 1
      ((Phase.observed b failure : Phase ι).takenBy e .proceed) := by
  cases failure with
  | some failure =>
    simp only [Engine.proceed, Phase.effort, Phase.takenBy]
    constructor <;> dsimp only <;> omega
  | none =>
    have htaken : takenOf e.registry.lookup? b.queue ≤ b.queue.length := takenOf_le
    simp only [Engine.proceed, Engine.advance, Phase.takenBy]
    split
    · simp only [Phase.effort]
      constructor <;> dsimp only <;> omega
    · rename_i hturn
      have hleft := takenOf_dispatch hturn
      simp only [Phase.effort]
      constructor <;> dsimp only <;> omega

/-- Every step of a burst goes on by one. -/
lemma goes_move? {e' : Engine ι} {log : Log} {rs new : List Record} {phase phase' : Phase ι}
    {move : Move} (h : Course e id rs phase)
    (hmove : phase.move? { e with log } id move = some (phase', e', new)) :
    (phase.effort rs.length).Goes e.rules.consequenceCount
      (phase'.effort (rs ++ new).length) 1 (phase.takenBy e move) := by
  cases phase with
  | invoked action input handle =>
    cases move <;> simp only [Phase.move?, Option.some.injEq, reduceCtorEq] at hmove
    cases hmove
    obtain rfl : rs = [] := h.tracks
    exact ⟨rfl, Nat.le_refl _⟩
  | recorded b record chain =>
    cases move <;> simp only [Phase.move?, Option.some.injEq, reduceCtorEq] at hmove
    cases hmove
    rw [List.append_nil]
    exact goes_observe (e := { e with log }) (List.length_pos_of_ne_nil h.tracks.1.ne_nil)
  | observed b failure =>
    cases move <;> simp only [Phase.move?, Option.some.injEq, reduceCtorEq] at hmove
    cases hmove
    rw [List.append_nil]
    exact goes_proceed (e := { e with log }) (List.length_pos_of_ne_nil h.tracks.1.ne_nil)
  | standing step =>
    rcases step with ⟨b, pending, args, handle⟩ | report
    · cases move <;> simp only [Phase.move?, Option.some.injEq, reduceCtorEq] at hmove
      cases hmove
      rw [List.length_append, List.length_singleton]
      constructor
      · simp only [Phase.effort]
        omega
      · exact Nat.le_of_eq (Nat.zero_add _ ▸ rfl)
    · cases move <;> simp [Phase.move?] at hmove

end Moves

/-! ### The steps of a burst among others -/

/-- Whether the event is a step of the burst. -/
def Event.isMoveOf (id : String) : Event → Bool
  | .begin .. => false
  | .move other _ => other = id

namespace Traffic

variable {e : Engine ι} {s s' : Traffic ι} {events : List Event} {id : String}

/-- How far a burst is; one that did not begin has done nothing. -/
def effort (s : Traffic ι) (id : String) : Effort :=
  match s.bursts.get? id with
  | some phase => phase.effort (s.recordsOf id).length
  | none => {}

/-- How many entries an event takes from the queue of a burst. -/
def takenBy (s : Traffic ι) (id : String) : Event → Nat
  | .begin .. => 0
  | .move other move =>
    if other = id then ((s.bursts.get? id).map (·.takenBy s.engine move)).getD 0 else 0

/-- How many entries events, one after the other, take from the queue of a burst. -/
def takenIn (s : Traffic ι) (id : String) : List Event → Nat
  | [] => 0
  | event :: rest => s.takenBy id event + ((s.step? event).map (·.takenIn id rest)).getD 0

lemma effort_of_get? {phase : Phase ι} (h : s.bursts.get? id = some phase) :
    s.effort id = phase.effort (s.recordsOf id).length := by
  rw [effort, h]

lemma goes_step {event : Event} (h : s.Consistent e) (hstep : s.step? event = some s')
    (id : String) :
    (s.effort id).Goes e.rules.consequenceCount (s'.effort id)
      (if event.isMoveOf id then 1 else 0) (s.takenBy id event) := by
  obtain ⟨other, action, input, handle, rfl, hfresh, -, rfl⟩ |
    ⟨other, move, phase, phase', engine, new, rfl, hphase, hmove, rfl⟩ := step?_cases hstep
  · have hsame :
        effort { s with bursts := s.bursts.insert other (.invoked action input handle) } id =
          s.effort id := by
      by_cases heq : id = other
      · subst heq
        rw [effort, effort, KeyMap.get?_insert_self, hfresh.1]
        rfl
      · rw [effort, effort, KeyMap.get?_insert_of_ne _ _ heq]
        rfl
    rw [hsame]
    exact Effort.goes_refl _ _
  have hmoved := h.moved hphase hmove
  by_cases heq : other = id
  · subst heq
    have hgoes := goes_move? (h.course other phase hphase) (h.engine ▸ hmove)
    rw [effort_of_get? hphase, effort_of_get? (KeyMap.get?_insert_self _ _ _),
      recordsOf_moved hmoved, if_pos rfl]
    simp only [Event.isMoveOf, takenBy, hphase]
    rw [h.engine]
    exact hgoes
  · have hsame : effort ⟨engine, s.bursts.insert other phase', s.history ++ new⟩ id =
        s.effort id := by
      rw [effort, effort, KeyMap.get?_insert_of_ne _ _ (Ne.symm heq), recordsOf_moved hmoved,
        if_neg (Ne.symm heq)]
    rw [hsame]
    simp only [Event.isMoveOf, takenBy, heq]
    exact Effort.goes_refl _ _

lemma goes_run (h : s.Consistent e) (hrun : s.run events = some s') (id : String) :
    (s.effort id).Goes e.rules.consequenceCount (s'.effort id)
      (events.countP (Event.isMoveOf id)) (s.takenIn id events) := by
  induction events generalizing s with
  | nil =>
    cases hrun
    exact Effort.goes_refl _ _
  | cons event rest ih =>
    obtain ⟨s₁, hstep, hrest⟩ := Option.bind_eq_some_iff.1 hrun
    have hgoes := (goes_step h hstep id).trans (ih (h.step hstep) hrest)
    rw [takenIn, hstep, List.countP_cons, Nat.add_comm (List.countP _ rest)]
    exact hgoes

lemma effort_le (s : Traffic ι) (id : String) :
    (s.effort id).steps ≤ 3 * (s.recordsOf id).length ∧
      (s.effort id).evaluated ≤ (s.recordsOf id).length := by
  rw [effort]
  rcases s.bursts.get? id with _ | (_ | _ | _ | _ | _)
  all_goals
    simp only [Phase.effort]
    omega

lemma Consistent.length_le (h : s.Consistent e) (id : String) :
    (s.recordsOf id).length ≤ e.limits.most := by
  cases hphase : s.bursts.get? id with
  | some phase => exact (h.course id phase hphase).length_le
  | none =>
    rw [recordsOf_of_fresh h hphase]
    exact Nat.zero_le _

/-- A burst takes at most three steps for each record that it may have. -/
lemma steps_le (hrun : (idle e).run events = some s) (id : String) :
    events.countP (Event.isMoveOf id) ≤ 3 * e.limits.most := by
  have hsteps := (goes_run (consistent_idle e) hrun id).steps
  have hmade := (effort_le s id).1
  have hlength := (consistent_of_run hrun).length_le id
  have hidle : ((idle e).effort id).steps = 0 := rfl
  omega

lemma taken_le (hrun : (idle e).run events = some s) (id : String) :
    (idle e).takenIn id events ≤ e.limits.most * e.rules.consequenceCount := by
  have htaken := (goes_run (consistent_idle e) hrun id).taken
  have hevaluated := Nat.le_trans (effort_le s id).2 ((consistent_of_run hrun).length_le id)
  have hcost := Nat.mul_le_mul_left e.rules.consequenceCount hevaluated
  rw [Nat.mul_comm e.limits.most]
  have hidle : (idle e).effort id = {} := rfl
  rw [hidle] at htaken
  dsimp only at htaken
  omega

/-! ### Ends -/

lemma run_append {more : List Event} :
    s.run (events ++ more) = (s.run events).bind fun s' => s'.run more := by
  induction events generalizing s with
  | nil => rfl
  | cons event rest ih =>
    rw [List.cons_append, run, run, Option.bind_assoc]
    congr 1
    funext s'
    exact ih

/-- Whatever happened, each burst can take the steps that are left to its end. -/
lemma exists_run_report? (hrun : (idle e).run events = some s) {phase : Phase ι}
    (hphase : s.bursts.get? id = some phase) :
    ∃ more s', s.run more = some s' ∧ (s'.report? id).isSome = true := by
  induction hleft : 3 * e.limits.most - events.countP (Event.isMoveOf id) using
    Nat.strong_induction_on generalizing s events phase with
  | _ left ih =>
    cases hover : phase.report? with
    | some report => exact ⟨[], s, rfl, by rw [report?, hphase, Option.bind_some, hover]; rfl⟩
    | none =>
      obtain ⟨move, s₁, hstep⟩ := exists_step?_eq_some hphase hover
      have hrun₁ : (idle e).run (events ++ [Event.move id move]) = some s₁ := by
        rw [run_append, hrun, Option.bind_some, run, hstep]
        rfl
      obtain ⟨phase₁, hphase₁⟩ : ∃ phase₁, s₁.bursts.get? id = some phase₁ := by
        obtain ⟨_, _, _, _, heq, -⟩ | ⟨_, _, _, phase₁, _, _, heq, -, -, rfl⟩ := step?_cases hstep
        · cases heq
        · cases heq
          exact ⟨phase₁, KeyMap.get?_insert_self _ _ _⟩
      have hsteps := steps_le hrun₁ id
      have hcount : (events ++ [Event.move id move]).countP (Event.isMoveOf id) =
          events.countP (Event.isMoveOf id) + 1 := by
        simp [Event.isMoveOf]
      obtain ⟨more, s', hmore, hreport⟩ := ih _ (by omega) hrun₁ hphase₁ rfl
      exact ⟨Event.move id move :: more, s', by rw [run, hstep, Option.bind_some, hmore], hreport⟩

/-! ### Depth and budget -/

lemma depth_le (hrules : e.rules.Installed) (hrun : (idle e).run events = some s) {r : Record}
    (hr : r ∈ s.recordsOf id) : r.depth ≤ e.limits.maxDepth := by
  have hconsistent := consistent_of_run hrun
  cases hphase : s.bursts.get? id with
  | some phase =>
    obtain ⟨chain, hdescends⟩ := (hconsistent.course id phase hphase).exists_descends hrules.tidy hr
    exact hdescends.depth_le
  | none =>
    rw [recordsOf_of_fresh hconsistent hphase] at hr
    cases hr

/--
Every burst ends within its limits, whatever the rules cause and the calls return. It takes at most
three steps for each record it may have, and from wherever it stands it can go on to its end. It has
at most `Limits.most` records, takes at most that many times all consequences from its queue, and
has no record deeper than the limit. When it is over, each record is as deep as its chain is long,
and a burst over budget has `Limits.most` records and a cause that waits and could be dispatched.
-/
theorem ends_within_limits (hrules : e.rules.Installed) (hrun : (idle e).run events = some s)
    (id : String) :
    (events.countP (Event.isMoveOf id) ≤ 3 * e.limits.most ∧
      ∀ phase, s.bursts.get? id = some phase →
        ∃ more s', s.run more = some s' ∧ (s'.report? id).isSome = true) ∧
    (s.recordsOf id).length ≤ e.limits.most ∧
    (idle e).takenIn id events ≤ e.limits.most * e.rules.consequenceCount ∧
    (∀ r ∈ s.recordsOf id, r.depth ≤ e.limits.maxDepth) ∧
    ∀ report, s.report? id = some report →
      let lineage := report.lineage e.rules.rules e.registry.contains
      (e.limits.maxDepth.toNat < UInt32.size - 1 →
        ∀ r ∈ s.recordsOf id, ∃ chain, (r, chain) ∈ lineage.chains ∧ r.depth.toNat = chain.length) ∧
      ∀ burst limit, report.failure = some (.budgetExceeded burst limit) →
        (s.recordsOf id).length = e.limits.most ∧ ∃ branch ∈ lineage.waiting,
          e.registry.contains branch.cause.invocation.action = true ∧
            ∃ args,
              branch.cause.invocation.args.resolve branch.cause.firing.binding = .ok args := by
  refine ⟨⟨steps_le hrun id, fun phase hphase => exists_run_report? hrun hphase⟩,
    (consistent_of_run hrun).length_le id, taken_le hrun id,
    fun r hr => depth_le hrules hrun hr, ?_⟩
  intro report hreport lineage
  have hcourse := course_of_report? hrun hreport
  rw [← records_of_report? hrun hreport]
  refine ⟨fun hmax r hr => ?_, fun burst limit hfailure =>
    hcourse.budgetExceeded hrules.tidy hfailure⟩
  obtain ⟨chain, hdescends⟩ := hcourse.exists_descends hrules.tidy hr
  refine ⟨chain, ?_, hdescends.depth_eq hmax⟩
  change (r, chain) ∈ (report.lineage e.rules.rules e.registry.contains).chains
  rw [hcourse.chains_lineage hrules.tidy]
  exact hdescends.mem

theorem ends_within_limits_peal :
    Peal.report.records.length ≤ Peal.engine.limits.most ∧
      (idle Peal.engine).takenIn "a" Peal.events ≤
        Peal.engine.limits.most * Peal.engine.rules.consequenceCount ∧
      ∀ r ∈ Peal.report.records, ∃ chain, (r, chain) ∈ (Peal.report.lineage
        Peal.engine.rules.rules Peal.engine.registry.contains).chains ∧
          r.depth.toNat = chain.length := by
  obtain ⟨-, hlength, htaken, -, hreport⟩ :=
    ends_within_limits Peal.installed_engine Peal.run_events "a"
  obtain ⟨hdepth, -⟩ := hreport Peal.report Peal.report?_traffic
  exact ⟨hlength, htaken, hdepth (by decide)⟩

end Traffic

end Synchrony
