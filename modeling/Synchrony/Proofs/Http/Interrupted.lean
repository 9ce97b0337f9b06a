import Mathlib.Logic.Relation
import Synchrony.Proofs.Burst.Bounds
import Synchrony.Proofs.Burst.Tracking
import Synchrony.Proofs.Http.Responds

/-!
# The bursts that calls leave behind

When the client of a call on a listed path gives up, the burst of the call goes down with it, wherever
it stands. If the burst has a record and is not over, nobody closes it any more, and the log goes on
tracking it, whatever happens later. So when no burst is running, the log tracks the bursts that it
tracked at the start and those that were interrupted in this way, and no other. Any other burst runs on
when its client gives up, and is closed when it is over.
-/

namespace Synchrony.Http

lemma exists_run_of_step? {s s' : Traffic Concept} {event : Event} (h : s.step? event = some s') :
    ∃ events, s.run events = some s' :=
  ⟨[event], by rw [Traffic.run, h]; rfl⟩

namespace Server

variable {e : Engine Concept} {start : Slots} {s s' : Server} {b id : String}

/-! ### The traffic of a server -/

lemma Advance.exists_run (h : Advance b s s') :
    ∃ events, s.traffic.run events = some s'.traffic := by
  cases h with
  | returned hreturned htraffic => exact exists_run_of_step? htraffic
  | answered hcalled hidle hother htraffic => exact exists_run_of_step? htraffic
  | goes hmove htraffic => exact exists_run_of_step? htraffic
  | _ => exact ⟨[], rfl⟩

/-- Every step of a server is made of steps of its traffic. -/
lemma Step.exists_run {config : RequestingConfig} (h : Step config s s') :
    ∃ events, s.traffic.run events = some s'.traffic := by
  cases h with
  | direct hbody haction htraffic => exact exists_run_of_step? htraffic
  | routed hbody haction hopening hfresh htraffic =>
    exact ⟨[_, _], by rw [Traffic.run, hopening, Option.bind_some, Traffic.run, htraffic]; rfl⟩
  | advance hgoes hadvance => exact hadvance.exists_run
  | _ => exact ⟨[], rfl⟩

lemma Reachable.exists_run {config : RequestingConfig} (h : Reachable config e start s) :
    ∃ events, (Traffic.idle e).run events = some s.traffic := by
  induction h with
  | idle => exact ⟨[], rfl⟩
  | step h hstep ih =>
    obtain ⟨events, hrun⟩ := ih
    obtain ⟨more, hmore⟩ := hstep.exists_run
    exact ⟨events ++ more, by rw [Traffic.run_append, hrun, Option.bind_some, hmore]⟩

lemma Reachable.tracked {config : RequestingConfig} (h : Reachable config e start s)
    (hfits : e.log.recentFirst.length ≤ e.log.capacity) : s.traffic.Tracked e := by
  obtain ⟨events, hrun⟩ := h.exists_run
  exact Traffic.tracked_of_run hfits hrun

/-! ### Interrupted bursts -/

/-- No burst is running: each one is over, or went down with its call. -/
def AtRest (s : Server) : Prop := ∀ (n : Nat) (c : Serving), s.calls[n]? = some c →
  s.traffic.report? c.burst ≠ none ∨ s.Halted c.burst

/-- Whether the burst went down with its call. -/
def halts (s : Server) (b : String) : Bool :=
  s.calls.zipIdx.any fun (c, n) =>
    c.burst = b && c.request?.isNone && match s.stage n with
      | .dropped => true
      | _ => false

/-- The bursts that went down with their calls when they had records and were not over. -/
def interrupted (s : Server) : List String :=
  (s.calls.map (·.burst)).filter fun b => s.halts b && s.traffic.Open b

lemma halts_iff : s.halts b = true ↔ s.Halted b := by
  rw [halts, List.any_eq_true]
  constructor
  · rintro ⟨⟨⟨b', request?⟩, n⟩, hmem, hhalts⟩
    simp only [Bool.and_eq_true, decide_eq_true_eq, Option.isNone_iff_eq_none] at hhalts
    obtain ⟨⟨rfl, rfl⟩, hstage⟩ := hhalts
    refine ⟨n, List.mem_zipIdx_iff_getElem?.1 hmem, ?_⟩
    split at hstage
    · assumption
    · cases hstage
  · rintro ⟨n, hcall, hstage⟩
    exact ⟨(⟨b, none⟩, n), List.mem_zipIdx_iff_getElem?.2 hcall, by simp [hstage]⟩

lemma mem_interrupted_iff : id ∈ s.interrupted ↔ s.Halted id ∧ s.traffic.Open id := by
  rw [interrupted, List.mem_filter, Bool.and_eq_true, halts_iff, decide_eq_true_eq,
    and_iff_right_iff_imp]
  rintro ⟨⟨n, hcall, -⟩, -⟩
  exact List.mem_map.2 ⟨_, List.mem_of_getElem? hcall, rfl⟩

lemma interrupted_eq_nil (h : ∀ (n : Nat) (b : String), s.calls[n]? = some ⟨b, none⟩ →
    s.stage n ≠ .dropped) : s.interrupted = [] := by
  refine List.eq_nil_iff_forall_not_mem.2 fun id hid => ?_
  obtain ⟨⟨n, hcall, hstage⟩, -⟩ := mem_interrupted_iff.1 hid
  exact h n id hcall hstage

/-- A burst that went down with its call never gets up. -/
lemma Halted.step {config : RequestingConfig} (h : s.Halted b) (hstep : Step config s s') :
    s'.Halted b := by
  obtain ⟨n, hcall, hstage⟩ := h
  have hlt : n < s.calls.length := (List.getElem?_eq_some_iff.1 hcall).1
  have hnew (c : Serving) : (s.calls ++ [c])[n]? = some ⟨b, none⟩ := by
    rw [List.getElem?_append_left hlt, hcall]
  -- no step goes on with a call that was dropped
  have hother {m : Nat} {stage : Stage} (hne : n ≠ m) :
      Function.update s.stage m stage n = .dropped := by
    rw [Function.update_of_ne hne, hstage]
  have hrouted {m : Nat} {b' q : String} (hm : s.calls[m]? = some ⟨b', some q⟩) : n ≠ m := by
    rintro rfl
    cases hcall.symm.trans hm
  cases hstep with
  | direct => exact ⟨n, hnew _, hother hlt.ne⟩
  | routed => exact ⟨n, hnew _, hother hlt.ne⟩
  | advance hgoes hadvance =>
    obtain ⟨hcalls, hstages, -⟩ := hadvance.frame
    exact ⟨n, by rw [hcalls, hcall], by rw [hstages, hstage]⟩
  | finish => exact ⟨n, hcall, hstage⟩
  | reply hm hstarted =>
    refine ⟨n, hcall, hother ?_⟩
    rintro rfl
    cases hstage.symm.trans hstarted
  | poll hm => exact ⟨n, hcall, hother (hrouted hm)⟩
  | timer => exact ⟨n, hcall, hstage⟩
  | drop hm => exact ⟨n, hcall, hother (hrouted hm)⟩
  | hangUp hm hstarted =>
    refine ⟨n, hcall, hother ?_⟩
    rintro rfl
    cases hstage.symm.trans hstarted

namespace Sound

variable {limit : Nat} (h : s.Sound limit e start)
include h

/-- An interrupted burst stays so. -/
lemma mem_interrupted_step {config : RequestingConfig} (hstep : Step config s s')
    (hid : id ∈ s.interrupted) : id ∈ s'.interrupted := by
  obtain ⟨hhalted, hopen⟩ := mem_interrupted_iff.1 hid
  refine mem_interrupted_iff.2 ⟨hhalted.step hstep, ?_⟩
  have hnew {b : String} (hfresh : s.traffic.bursts.get? b = none) : id ≠ b := by
    rintro rfl
    obtain ⟨n, hcall, -⟩ := hhalted
    obtain ⟨phase, hphase⟩ := h.served.known n _ hcall
    rw [hfresh] at hphase
    cases hphase
  cases hstep with
  | direct hbody haction htraffic =>
    obtain ⟨hfresh, -, haffects⟩ := Traffic.affects_of_begin htraffic
    exact (haffects.open_iff (hnew hfresh)).2 hopen
  | routed hbody haction hopening hfresh htraffic =>
    obtain ⟨hfresh, -, haffects⟩ := Traffic.affects_of_begin hopening
    obtain ⟨-, -, r, -, -, -, -, -, haffects'⟩ :=
      Traffic.affects_of_answer (h.told.consistent.step hopening) htraffic
    exact ((haffects.trans haffects').open_iff (hnew hfresh)).2 hopen
  | advance hgoes hadvance =>
    obtain ⟨records, haffects⟩ := (h.told.goes_of_advance hadvance).affects
    exact (haffects.open_iff fun heq => hgoes (heq ▸ hhalted)).2 hopen
  | _ => exact hopen

lemma nodup_interrupted : s.interrupted.Nodup := by
  refine List.Nodup.filter _ (List.pairwise_map.2 (List.pairwise_iff_getElem.2 ?_))
  intro i j hi hj hlt heq
  have hsame := h.served.distinct i j _ _ (List.getElem?_eq_getElem hi)
    (List.getElem?_eq_getElem hj) heq
  exact hlt.ne hsame

/-- When no burst is running, only interrupted ones are open. -/
lemma open_iff_of_atRest (hrest : s.AtRest) : s.traffic.Open id ↔ id ∈ s.interrupted := by
  refine ⟨fun hopen => mem_interrupted_iff.2 ⟨?_, hopen⟩, fun hid => (mem_interrupted_iff.1 hid).2⟩
  obtain ⟨hrecords, hgoing⟩ := hopen
  obtain ⟨r, hr⟩ := List.exists_mem_of_ne_nil _ hrecords
  obtain ⟨hhistory, hburst⟩ := List.mem_filter.1 hr
  obtain rfl := of_decide_eq_true hburst
  obtain ⟨phase, hphase⟩ := h.told.consistent.known r hhistory
  obtain ⟨n, c, hcall, hc⟩ := h.served.owned _ _ hphase
  exact hc ▸ (hrest n c hcall).resolve_left fun hover => hover (hc ▸ hgoing)

end Sound

/-- The log never stops tracking an interrupted burst. -/
lemma Reachable.contains_of_interrupted {config : RequestingConfig} (h : Reachable config e start s)
    (hfits : e.log.recentFirst.length ≤ e.log.capacity)
    (hlater : Relation.ReflTransGen (Step config) s s') (hid : id ∈ s.interrupted) :
    s'.traffic.engine.log.active.contains id = true := by
  have hkept : Reachable config e start s' ∧ id ∈ s'.interrupted := by
    induction hlater with
    | refl => exact ⟨h, hid⟩
    | tail _ hstep ih => exact ⟨ih.1.step hstep, ih.1.sound.mem_interrupted_step hstep ih.2⟩
  exact ((hkept.1.tracked hfits).active id).2 (.inr (mem_interrupted_iff.1 hkept.2).2)

end Server

/-! ### A bell in a tower -/

namespace Belfry

/-- When the bell is rung, it tolls. -/
def answer : Rule where
  name := "answer"
  conditions := [⟨⟨"Bell", "ring"⟩, .empty, .empty⟩]
  consequences := [⟨⟨"Bell", "toll"⟩, .empty⟩]

/-- A bell that returns what it is given. -/
def bell : Concept where
  interface := [⟨"ring", [], []⟩, ⟨"toll", [], []⟩]
  perform _ input := .succeed input

def registry : Registry Concept :=
  { concepts := KeyMap.singleton "Bell" ⟨bell.interface, bell⟩ }

def engine : Engine Concept where
  limits := ⟨8, 16⟩
  registry := registry
  rules := (({} : RuleTable).install registry.contains [answer]).1
  log := { capacity := 4 }

/-- The bell can be rung from outside. -/
def config : RequestingConfig := { passthrough := ["/Bell/ring"] }

lemma passthroughAction?_config :
    config.passthroughAction? "/Bell/ring" = some ⟨"Bell", "ring"⟩ := by decide

/-- Somebody rings, and the bell begins to toll. -/
def events : List Event :=
  [.begin "a" ⟨"Bell", "ring"⟩ .empty, .move "a" (.answer .empty ⟨10⟩), .move "a" .observe,
    .move "a" .proceed]

/-- What becomes of the engine with the first events. -/
def traffic (n : Nat) : Traffic Concept :=
  ((Traffic.idle engine).run (events.take n)).getD (.idle engine)

lemma step?_begin :
    (traffic 0).step? (.begin "a" ⟨"Bell", "ring"⟩ .empty) = some (traffic 1) := rfl

lemma step?_rung : (traffic 1).step? (.move "a" (.answer .empty ⟨10⟩)) = some (traffic 2) := rfl

lemma step?_observe : (traffic 2).step? (.move "a" .observe) = some (traffic 3) := rfl

lemma step?_proceed : (traffic 3).step? (.move "a" .proceed) = some (traffic 4) := rfl

lemma called?_traffic : (traffic 1).called? "a" = some (⟨"Bell", "ring"⟩, .empty) ∧
    (traffic 4).called? "a" = some (⟨"Bell", "toll"⟩, .empty) := ⟨rfl, rfl⟩

lemma open_traffic : (traffic 4).Open "a" := by decide

/-- The steps of the call up to the toll, during which the client gives up. -/
lemma exists_reachable : ∃ s, Server.Reachable config engine {} s ∧ s.calls = [⟨"a", none⟩] ∧
    s.stage 0 = .dropped ∧ s.traffic = traffic 4 := by
  have going {s : Server} (h : s.calls = [⟨"a", none⟩]) (hstage : s.stage 0 = .started) :
      ¬ s.Halted "a" := by
    simp [Server.halted_iff_of_calls_eq_singleton h, hstage]
  have started : Server.Reachable config engine {} _ := .step .idle
    (.direct (b := "a") (show bodyFields [] = .ok .empty from rfl) passthroughAction?_config
      step?_begin)
  have rung := started.step (.advance (going rfl rfl)
    (.answered called?_traffic.1 rfl (by decide) step?_rung))
  have observed := rung.step (.advance (going rfl rfl) (.goes (.inl rfl) step?_observe))
  have tolling := observed.step (.advance (going rfl rfl) (.goes (.inr rfl) step?_proceed))
  exact ⟨_, tolling.step (.hangUp (n := 0) (b := "a") rfl rfl), rfl, rfl, rfl⟩

lemma atRest {s : Server} (hcalls : s.calls = [⟨"a", none⟩]) (hstage : s.stage 0 = .dropped) :
    s.AtRest := by
  intro n c hcall
  obtain ⟨rfl, rfl⟩ := Server.eq_of_calls_eq_singleton hcalls hcall
  exact .inr ((Server.halted_iff_of_calls_eq_singleton hcalls).2 ⟨rfl, hstage⟩)

end Belfry

namespace Server

variable {e : Engine Concept} {start : Slots} {s : Server}

/--
When no burst is running any more, the log tracks the bursts that it tracked at the start and the
interrupted ones, each of which went down with its call and is tracked for ever. There is none of these
if no client of a call on a listed path gave up. Of all records the log keeps the latest, as many as
fit.
-/
theorem activeBursts_of_atRest {config : RequestingConfig} (h : Reachable config e start s)
    (hfits : e.log.recentFirst.length ≤ e.log.capacity) (hrest : s.AtRest) :
    (∀ id, s.traffic.engine.log.active.contains id = true ↔
        e.log.active.contains id = true ∨ id ∈ s.interrupted) ∧
      s.traffic.engine.log.activeBursts = e.log.activeBursts + s.interrupted.length ∧
      (∀ id ∈ s.interrupted, s.Halted id ∧ ∀ s', Relation.ReflTransGen (Step config) s s' →
        s'.traffic.engine.log.active.contains id = true) ∧
      ((∀ (n : Nat) (b : String), s.calls[n]? = some ⟨b, none⟩ → s.stage n ≠ .dropped) →
        s.traffic.engine.log.activeBursts = e.log.activeBursts) ∧
      s.traffic.engine.log.recentFirst =
        (s.traffic.history.reverse ++ e.log.recentFirst).take e.log.capacity := by
  have htracked := h.tracked hfits
  have hactive (id : String) : s.traffic.engine.log.active.contains id = true ↔
      e.log.active.contains id = true ∨ id ∈ s.interrupted := by
    rw [htracked.active id, h.sound.open_iff_of_atRest hrest]
  have hcount : s.traffic.engine.log.activeBursts = e.log.activeBursts + s.interrupted.length := by
    refine KeyMap.size_eq_add_length h.sound.nodup_interrupted (fun id hid => ?_) hactive
    obtain ⟨⟨n, hcall, -⟩, -⟩ := mem_interrupted_iff.1 hid
    obtain ⟨phase, hphase⟩ := h.sound.served.known n _ hcall
    exact htracked.fresh id phase hphase
  refine ⟨hactive, hcount, fun id hid => ⟨(mem_interrupted_iff.1 hid).1, fun s' hlater =>
    h.contains_of_interrupted hfits hlater hid⟩, fun hnone => ?_, htracked.recent⟩
  rw [hcount, interrupted_eq_nil hnone, List.length_nil, Nat.add_zero]

theorem activeBursts_of_atRest_belfry : ∃ s, Reachable Belfry.config Belfry.engine {} s ∧
    s.AtRest ∧ s.interrupted = ["a"] ∧ s.traffic.engine.log.activeBursts = 0 + 1 := by
  obtain ⟨s, hreachable, hcalls, hstage, htraffic⟩ := Belfry.exists_reachable
  have hrest := Belfry.atRest hcalls hstage
  have hinterrupted : s.interrupted = ["a"] := by
    have hhalted : s.Halted "a" := (halted_iff_of_calls_eq_singleton hcalls).2 ⟨rfl, hstage⟩
    simp [interrupted, hcalls, halts_iff, hhalted, htraffic, Belfry.open_traffic]
  refine ⟨s, hreachable, hrest, hinterrupted, ?_⟩
  rw [(activeBursts_of_atRest hreachable (Nat.zero_le _) hrest).2.1, hinterrupted]
  rfl

/-- A call on a listed path can leave a burst behind that the log goes on tracking. -/
theorem not_forall_activeBursts_eq_zero : ¬ ∀ (config : RequestingConfig) (e : Engine Concept)
    (start : Slots) (s : Server), Reachable config e start s → e.log.activeBursts = 0 → s.AtRest →
      s.traffic.engine.log.activeBursts = 0 := by
  intro hall
  obtain ⟨s, hreachable, hcalls, hstage, htraffic⟩ := Belfry.exists_reachable
  have hzero := hall _ _ _ s hreachable rfl (Belfry.atRest hcalls hstage)
  rw [htraffic] at hzero
  exact absurd hzero (by decide)

end Server

end Synchrony.Http
