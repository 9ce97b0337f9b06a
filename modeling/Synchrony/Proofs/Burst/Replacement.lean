import Synchrony.Proofs.Burst.Evaluation
import Synchrony.Proofs.RuleTable.Arguments

/-!
# Rules that are replaced while bursts run

Between the steps of its bursts an engine may be changed: rules are installed or replaced and
concepts registered (`Traffic.live`). A consequence that waits in a queue comes from a match of a
sound rule, whatever has become of the rule since (`Pending.Grounded`). Every step and every change
preserves this, so no burst ever comes to a consequence with a variable that has no value
(`Traffic.never_unbound`).
-/

namespace Synchrony

variable {ι : Type}

/-! ### Engines that are changed -/

/-- What happens to an engine with bursts on it: an event of the bursts, or a change from outside. -/
inductive Occurrence (ι : Type) where
  | event (event : Event)
  | change (change : Change ι)

namespace Traffic

/-- What an occurrence makes of the traffic, if it can happen. -/
def occur? (s : Traffic ι) : Occurrence ι → Option (Traffic ι)
  | .event event => s.step? event
  | .change change => some { s with engine := s.engine.change change }

/-- What occurrences, one after the other, make of the traffic, if they can happen. -/
def live (s : Traffic ι) : List (Occurrence ι) → Option (Traffic ι)
  | [] => some s
  | occurrence :: rest => (s.occur? occurrence).bind fun s => s.live rest

end Traffic

/-! ### What waits to be dispatched -/

/-- The consequences that wait for the call that the burst stands at. -/
def Step.queue : Step ι → List Pending
  | .call b _ _ _ => b.queue
  | .over _ => []

/-- The consequences that wait to be dispatched. -/
def Phase.queue : Phase ι → List Pending
  | .invoked .. => []
  | .recorded b _ _ => b.queue
  | .observed b _ => b.queue
  | .standing step => step.queue

/-- The consequence is one of a sound rule, under a binding that its conditions fit under. -/
def Pending.Grounded (p : Pending) : Prop :=
  ∃ (rule : Rule) (chosen : List Record), rule.Sound ∧ Fits rule.conditions chosen p.binding ∧
    p.invocation ∈ rule.consequences

/-- What is queued is a consequence of a rule that was found to be completed. -/
lemma exists_of_mem_queued {limits : Limits} {id : String} {record : Record}
    {chain : List (List Char)} {found : List (Rule × Match)} {p : Pending}
    (h : p ∈ (evaluate limits id record chain found).queued) :
    ∃ x ∈ found, p.invocation ∈ x.1.consequences ∧ p.binding = x.2.binding := by
  induction found with
  | nil => simp [evaluate] at h
  | cons x rest ih =>
    by_cases hx : Blocked limits record chain x
    · rw [evaluate_cons_of_blocked hx] at h
      simp at h
    · rw [evaluate_cons_of_not_blocked hx, List.mem_append] at h
      rcases h with h | h
      · obtain ⟨invocation, hinvocation, rfl⟩ := List.mem_map.1 h
        exact ⟨x, List.mem_cons_self, hinvocation, rfl⟩
      · obtain ⟨y, hy, hp⟩ := ih h
        exact ⟨y, List.mem_cons_of_mem _ hy, hp⟩

/-- A match of a rule fits its conditions. -/
lemma Rule.exists_fits_of_completion {rule : Rule} {records : List Record} {trigger : Record}
    {m : Match} (h : rule.completion records trigger = some m) :
    ∃ chosen, Fits rule.conditions chosen m.binding := by
  obtain ⟨i, -, hi⟩ := List.exists_of_findSome?_eq_some h
  obtain ⟨chosen, -, -, hadmits, -⟩ := Match.exists_of_findAnchored? hi
  exact ⟨chosen, hadmits.toFits⟩

namespace Engine

variable {e : Engine ι}

/-- An evaluation queues grounded consequences. -/
lemma grounded_observe (he : e.rules.Tidy) {b : Burst} {record : Record}
    {chain : List (List Char)} (hb : ∀ p ∈ b.queue, p.Grounded) :
    ∀ p ∈ (e.observe b record chain).1.queue, p.Grounded := by
  intro p hp
  rcases List.mem_append.1 hp with hp | hp
  · obtain ⟨x, hx, hinvocation, hbinding⟩ := exists_of_mem_queued hp
    obtain ⟨hrule, hm⟩ := RuleTable.mem_completedBy_iff.1 hx
    obtain ⟨chosen, hfits⟩ := Rule.exists_fits_of_completion hm
    exact ⟨x.1, chosen, he.sound x.1 hrule, hbinding ▸ hfits, hinvocation⟩
  · exact hb p hp

/-- Going on takes consequences from the queue and leaves the rules. -/
lemma queue_proceed (b : Burst) (failure : Option BurstFailure) :
    (e.proceed b failure).1.queue ⊆ b.queue ∧ (e.proceed b failure).2.rules = e.rules := by
  cases failure with
  | some failure => exact ⟨List.nil_subset _, rfl⟩
  | none =>
    rw [proceed, advance]
    split
    · exact ⟨List.nil_subset _, rfl⟩
    · rename_i pending args handle rest hturn
      obtain ⟨skipped, hqueue, -⟩ := exists_skipped_of_nextTurn hturn
      refine ⟨fun p hp => ?_, rfl⟩
      rw [hqueue]
      exact List.mem_append_right _ (List.mem_cons_of_mem _ hp)

/-- A step of a burst leaves the rules and keeps what waits grounded. -/
lemma grounded_move? (he : e.rules.Tidy) {id : String} {phase phase' : Phase ι} {move : Move}
    {e' : Engine ι} {records : List Record} (hphase : ∀ p ∈ phase.queue, p.Grounded)
    (h : phase.move? e id move = some (phase', e', records)) :
    e'.rules = e.rules ∧ ∀ p ∈ phase'.queue, p.Grounded := by
  unfold Phase.move? at h
  split at h <;> cases h
  · exact ⟨rfl, by simp [Phase.queue]⟩
  · exact ⟨rfl, hphase⟩
  · exact ⟨rfl, grounded_observe he hphase⟩
  · rename_i b failure
    obtain ⟨hqueue, hrules⟩ := queue_proceed (e := e) b failure
    exact ⟨hrules, fun p hp => hphase p (hqueue hp)⟩

/-- A change keeps names apart and lets only sound rules in. -/
lemma tidy_change (he : e.rules.Tidy) (c : Change ι) : (e.change c).rules.Tidy := by
  cases c with
  | install batch => exact he.install _ batch
  | register concept interface performer =>
    rw [change, register]
    cases e.registry.register concept interface performer <;> exact he

end Engine

/-! ### Runs -/

namespace Traffic

/-- The rules are sound, and what waits to be dispatched is grounded. -/
structure Grounded (s : Traffic ι) : Prop where
  rules : s.engine.rules.Tidy
  queues : ∀ id phase, s.bursts.get? id = some phase → ∀ p ∈ phase.queue, p.Grounded

lemma grounded_idle (limits : Limits) (registry : Registry ι) (log : Log) :
    (idle { limits, registry, log }).Grounded where
  rules := ⟨.nil, by simp [idle]⟩
  queues := by simp [idle]

/-- What happens to one burst leaves the others as they are. -/
lemma Grounded.insert {s : Traffic ι} (h : s.Grounded) {engine : Engine ι}
    (hrules : engine.rules = s.engine.rules) {id : String} {phase : Phase ι}
    (hphase : ∀ p ∈ phase.queue, p.Grounded) (history : List Record) :
    Grounded ⟨engine, s.bursts.insert id phase, history⟩ where
  rules := hrules ▸ h.rules
  queues := by
    intro id' phase' hget
    rw [KeyMap.get?_insert] at hget
    split at hget
    · cases hget
      exact hphase
    · exact h.queues id' phase' hget

/-- What every occurrence preserves. -/
lemma Grounded.occur? {s s' : Traffic ι} (h : s.Grounded) {occurrence : Occurrence ι}
    (hoccur : s.occur? occurrence = some s') : s'.Grounded := by
  cases occurrence with
  | change c =>
    cases hoccur
    exact ⟨s.engine.tidy_change h.rules c, h.queues⟩
  | event event =>
    rcases step?_cases hoccur with ⟨id, action, input, handle, -, -, -, rfl⟩ |
      ⟨id, move, phase, phase', engine, records, -, hphase, hmove, rfl⟩
    · exact h.insert rfl (by simp [Phase.queue]) s.history
    · obtain ⟨hrules, hqueue⟩ :=
        Engine.grounded_move? h.rules (h.queues id phase hphase) hmove
      exact h.insert hrules hqueue _

lemma Grounded.live {s s' : Traffic ι} (h : s.Grounded) {occurrences : List (Occurrence ι)}
    (hlive : s.live occurrences = some s') : s'.Grounded := by
  induction occurrences generalizing s with
  | nil =>
    cases hlive
    exact h
  | cons occurrence rest ih =>
    obtain ⟨s₁, hs₁, hrest⟩ := Option.bind_eq_some_iff.1 hlive
    exact ih (h.occur? hs₁) hrest

/--
A match of a rule that the engine accepts binds exactly the bound variables of the rule, and gives
every consequence arguments, which are what its shape yields for the chosen records. So whatever has
happened, everything that waits to be dispatched has arguments.
-/
theorem never_unbound {limits : Limits} {registry : Registry ι} {log : Log}
    {occurrences : List (Occurrence ι)} {s : Traffic ι}
    (hlive : (idle { limits, registry, log }).live occurrences = some s) :
    (∀ before rule, s.engine.Accepts before rule →
      ∀ records anchor trigger accept m,
        Match.findAnchored? rule.conditions records anchor trigger accept = some m →
        m.binding.keys = rule.boundVars ∧
        ∃ chosen, m.records = chosen.map (·.seq) ∧ chosen.length = rule.conditions.length ∧
          Match.Anchored records anchor trigger chosen ∧
          ∀ invocation ∈ rule.consequences,
            ∃ args, invocation.args.resolve m.binding = .ok args ∧
              invocation.args.Yields rule.conditions chosen args) ∧
    ∀ id phase, s.bursts.get? id = some phase → ∀ p ∈ phase.queue,
      ∃ args, p.invocation.args.resolve p.binding = .ok args := by
  refine ⟨fun before rule haccepts records anchor trigger accept m hm => ?_,
    fun id phase hphase p hp => ?_⟩
  · obtain ⟨chosen, -, hanchored, hadmits, hrecords⟩ := Match.exists_of_findAnchored? hm
    refine ⟨Rule.keys_eq_boundVars hadmits.toFits, chosen, hrecords,
      hadmits.holds.length_eq.symm, hanchored, fun invocation hinvocation => ?_⟩
    exact haccepts.valid.toSound.exists_arguments hadmits.toFits hinvocation
  · obtain ⟨rule, chosen, hsound, hfits, hinvocation⟩ :=
      ((grounded_idle limits registry log).live hlive).queues id phase hphase p hp
    obtain ⟨args, hargs, -⟩ := hsound.exists_arguments hfits hinvocation
    exact ⟨args, hargs⟩

end Traffic

/-! ### A bell rule that is replaced -/

namespace Bells

/-- Another rule called `echo`, with a variable of another name. -/
def reply : Rule :=
  ⟨"echo", [⟨⟨"Bell", "ring"⟩, KeyMap.singleton "who" (.var "ringer"), .empty⟩],
    [⟨⟨"Bell", "chime"⟩, KeyMap.singleton "who" (.var "ringer")⟩], none⟩

/-- An engine without rules. -/
def bare : Engine Unit where
  limits := ⟨8, 16⟩
  registry := registry
  log := { capacity := 4 }

/-- Ann rings and is echoed, and `echo` is replaced before the chime is called. -/
def occurrences : List (Occurrence Unit) :=
  [.change (.install [echo, both]),
    .event (.begin "a" ⟨"Bell", "ring"⟩ (KeyMap.singleton "who" (.str "ann"))),
    .event (.move "a" (.answer .empty ⟨10⟩)), .event (.move "a" .observe),
    .change (.install [reply])]

/-- What becomes of the engine. -/
def replaced : Traffic Unit := ((Traffic.idle bare).live occurrences).getD (.idle bare)

/-- The chime that waits. -/
def waiting : Pending where
  rule := "echo"
  invocation := ⟨⟨"Bell", "chime"⟩, who⟩
  binding := KeyMap.singleton "who" (.str "ann")
  depth := 1
  chain := [Firing.keyOf "echo" (KeyMap.singleton "who" (.str "ann"))]

end Bells

namespace Traffic

/--
The chime has the ringer for an argument, though the rule that it comes from is gone, and the rule in
its place binds the ringer as well.
-/
theorem never_unbound_bells :
    (idle Bells.bare).live Bells.occurrences = some Bells.replaced ∧
    Bells.replaced.engine.rules.rules = [Bells.reply, Bells.both] ∧
    (Bells.replaced.bursts.get? "a").map Phase.queue = some [Bells.waiting] ∧
    (∃ args, Bells.waiting.invocation.args.resolve Bells.waiting.binding = .ok args) ∧
    Bells.replaced.engine.Accepts [] Bells.reply ∧
    ∃ m, Match.findAnchored? Bells.reply.conditions [Bells.report.root] 0 Bells.report.root
      Bells.reply.accepts = some m ∧ m.binding.keys = Bells.reply.boundVars := by
  have hlive : (idle Bells.bare).live Bells.occurrences = some Bells.replaced := rfl
  have hqueue : (Bells.replaced.bursts.get? "a").map Phase.queue = some [Bells.waiting] := rfl
  have haccepts : Bells.replaced.engine.Accepts [] Bells.reply := rfl
  have hmatch : Match.findAnchored? Bells.reply.conditions [Bells.report.root] 0 Bells.report.root
      Bells.reply.accepts = some ⟨KeyMap.singleton "ringer" (.str "ann"), [1]⟩ := rfl
  obtain ⟨hmatches, hwaits⟩ := never_unbound hlive
  obtain ⟨phase, hphase, hwaiting⟩ := Option.map_eq_some_iff.1 hqueue
  exact ⟨hlive, rfl, hqueue, hwaits "a" phase hphase _ (by simp [hwaiting]), haccepts, _, hmatch,
    (hmatches [] Bells.reply haccepts _ _ _ _ _ hmatch).1⟩

end Traffic

end Synchrony
