import Synchrony.Proofs.Http.Look
import Synchrony.Proofs.Http.Returns

/-!
# The calls that are served

Each burst belongs to one call. A call that became a request has a burst that began with it, an
outcome as soon as its burst is known to be over, and waits for its own request (`Server.Served`). A
look concerns the call and its slot only (`Server.leaves_of_look`).
-/

namespace Synchrony.Http

open Requesting

namespace Sign

/-- The call that the sign is about. -/
def call? : Sign → Option Nat
  | ended n _ | timeUp n => some n
  | issued _ _ | responded _ _ _ => none

/-- The failure of the burst of a call. -/
def failure? (n : Nat) : Sign → Option BurstFailure
  | ended m failure => if m = n then failure else none
  | _ => none

lemma call?_eq_none {b : String} {sign : Sign} (h : sign.burst? = some b) : sign.call? = none := by
  cases sign <;> first | rfl | cases h

lemma failure?_eq_none {n : Nat} {sign : Sign} (h : sign.call? ≠ some n) :
    sign.failure? n = none := by
  cases sign with
  | ended m failure => exact if_neg fun heq => h (by rw [heq]; rfl)
  | _ => rfl

end Sign

namespace Server

/-- The failure of the burst of a call, as soon as it is known. -/
def failure? (s : Server) (n : Nat) : Option BurstFailure := s.signs.findSome? (Sign.failure? n)

/-- Calls, their bursts and what became of them fit together. -/
structure Served (limit : Nat) (s : Server) : Prop where
  known : ∀ (n : Nat) (c : Serving), s.calls[n]? = some c →
    ∃ phase, s.traffic.bursts.get? c.burst = some phase
  owned : ∀ b phase, s.traffic.bursts.get? b = some phase →
    ∃ (n : Nat) (c : Serving), s.calls[n]? = some c ∧ c.burst = b
  distinct : ∀ (n m : Nat) (c d : Serving), s.calls[n]? = some c → s.calls[m]? = some d →
    c.burst = d.burst → n = m
  root : ∀ (n : Nat) (b q : String), s.calls[n]? = some ⟨b, some q⟩ →
    ∃ args rest, s.returns b = ⟨requestAction, args, named q⟩ :: rest
  outcome : ∀ n o, s.outcomes.lookup n = some o → ∃ b q report,
    s.calls[n]? = some ⟨b, some q⟩ ∧ s.traffic.report? b = some report ∧ o = .report report
  failure : ∀ (n : Nat) (b q : String), s.calls[n]? = some ⟨b, some q⟩ →
    s.failure? n = (Call.reportOf? s.host n).bind (·.failure)
  counted : ∀ sign ∈ s.signs, ∀ n, sign.call? = some n → n < s.calls.length
  polled : ∀ (n : Nat) (b q : String) (call : Call), s.calls[n]? = some ⟨b, some q⟩ →
    s.stage n = .polled call → call.Waits s.host n q limit

variable {e : Engine Concept} {s s' : Server} {b q : String} {n limit : Nat}

lemma failure?_append {signs : List Sign} (hsigns : s'.signs = s.signs ++ signs)
    (hnone : ∀ sign ∈ signs, sign.failure? n = none) : s'.failure? n = s.failure? n := by
  rw [failure?, hsigns, List.findSome?_append, List.findSome?_eq_none_iff.2 hnone, Option.or_none,
    failure?]

lemma reportOf?_host (houtcomes : s'.outcomes = s.outcomes) (n : Nat) :
    Call.reportOf? s'.host n = Call.reportOf? s.host n :=
  Call.reportOf?_congr houtcomes n

/-- An outcome of a call that had none. -/
lemma lookup_concat {outcomes : List (Nat × Outcome)} (hgoing : outcomes.lookup n = none)
    (o : Outcome) (m : Nat) :
    (outcomes ++ [(n, o)]).lookup m = if m = n then some o else outcomes.lookup m := by
  rw [List.lookup_append, List.lookup_cons, List.lookup_nil]
  by_cases heq : m = n
  · simp [heq, hgoing]
  · simp [heq, beq_false_of_ne heq]

lemma Advance.frame (h : Advance b s s') : s'.calls = s.calls ∧ s'.stage = s.stage ∧
    s'.outcomes = s.outcomes := by
  cases h <;> exact ⟨rfl, rfl, rfl⟩

/-! ### Bursts that go on -/

namespace Goes

variable (h : Goes e b s s')
include h

/-- The signs that are new are not of calls. -/
lemma exists_signs : ∃ signs, s'.signs = s.signs ++ signs ∧
    ∀ sign ∈ signs, sign.burst? = some b := by
  obtain ⟨new, -, hsigns⟩ := h.returns
  refine ⟨_, hsigns, fun sign hsign => ?_⟩
  obtain ⟨x, -, hx⟩ := List.mem_filterMap.1 hsign
  exact Sign.burst?_of? hx

lemma failure?_eq (n : Nat) : s'.failure? n = s.failure? n := by
  obtain ⟨signs, hsigns, hburst⟩ := h.exists_signs
  refine failure?_append hsigns fun sign hsign => Sign.failure?_eq_none ?_
  rw [Sign.call?_eq_none (hburst sign hsign)]
  nofun

/-- What was returned stays so. -/
lemma returns_prefix (other : String) : s.returns other <+: s'.returns other := by
  by_cases heq : other = b
  · obtain ⟨new, hself, -⟩ := h.returns
    rw [heq, hself]
    exact List.prefix_append _ _
  · exact (h.others other heq) ▸ List.prefix_rfl

lemma root_of_root {other : String} {x : Return} (hroot : ∃ rest, s.returns other = x :: rest) :
    ∃ rest, s'.returns other = x :: rest := by
  obtain ⟨rest, hrest⟩ := hroot
  obtain ⟨new, hnew⟩ := h.returns_prefix other
  exact ⟨rest ++ new, by rw [← hnew, hrest, List.cons_append]⟩

end Goes

/-! ### Looking at a call -/

/-- The slots as a call that goes on waiting leaves them. -/
def left (s : Server) (n : Nat) (q : String) : Slots → Prop :=
  match s.stage n with
  | .started => (s.slots.beginAwait 0 q = .ok ·)
  | _ => (· = s.slots)

lemma beginAwait_or_eq_of_left {slots : Slots} (h : s.left n q slots) :
    s.stage n = .started ∧ s.slots.beginAwait 0 q = .ok slots ∨
      s.stage n ≠ .started ∧ slots = s.slots := by
  unfold left at h
  cases hstage : s.stage n with
  | started => exact .inl ⟨rfl, by rwa [hstage] at h⟩
  | _ => exact .inr ⟨nofun, by rwa [hstage] at h⟩

/-- Whether the burst of a call failed does not hang on the clock. -/
lemma failureOf?_on (h : Host) : Call.failureOf? (s.on h) n q = Call.failureOf? s.host n q := rfl

/-- Only an open call is looked at. -/
lemma isOpen_of_look {h : Host} {order : Order} {timeUp : Bool} {looked : Poll Call Response × Host}
    (hlook : s.look limit h n q order timeUp = some looked) : (s.stage n).isOpen = true := by
  unfold look at hlook
  cases hstage : s.stage n with
  | started => rfl
  | polled call => rfl
  | _ =>
    rw [hstage] at hlook
    cases hlook

lemma leaves_of_look {h : Host} {order : Order} {timeUp : Bool}
    {looked : Poll Call Response × Host}
    (hpolled : ∀ call, s.stage n = .polled call → call.Waits s.host n q limit)
    (hlook : s.look limit h n q order timeUp = some looked) :
    Call.Leaves (s.on h) n q limit (s.left n q) looked := by
  unfold look at hlook
  unfold left
  cases hstage : s.stage n with
  | started =>
    rw [hstage] at hlook
    cases hlook
    exact Call.leaves_pollStarted order
  | polled call =>
    rw [hstage] at hlook
    obtain ⟨a, rfl, rfl, rfl | ⟨rfl, hover, hfailure⟩⟩ := hpolled call hstage
    · cases hlook
      exact Call.leaves_pollWaiting order
    · cases hlook
      exact Call.leaves_pollSettling hover hfailure
  | _ =>
    rw [hstage] at hlook
    cases hlook

/-- A call that was looked at and is not answered waits. -/
lemma waits_of_look {h h' : Host} {order : Order} {timeUp : Bool} {p : Poll Call Response}
    {call : Call}
    (hpolled : ∀ call, s.stage n = .polled call → call.Waits s.host n q limit)
    (hlook : s.look limit h n q order timeUp = some (p, h')) (hstage : Stage.ofPoll p = .polled call) :
    call.Waits s.host n q limit := by
  cases p with
  | pending call' =>
    cases hstage
    exact ((leaves_of_look hpolled hlook).pending call rfl).1
  | ready response => cases hstage

/-! ### Every step keeps the calls in order -/

namespace Served

lemma idle (e : Engine Concept) (slots : Slots) : (Server.idle e slots).Served limit := by
  constructor <;> simp [Server.idle, Traffic.idle]

/-- The number of a new call has no outcome and no signs yet. -/
private lemma fresh_of_le (h : s.Served limit) (hn : s.calls.length ≤ n) :
    Call.reportOf? s.host n = none ∧ s.failure? n = none := by
  constructor
  · cases ho : s.outcomes.lookup n with
    | none => rw [Call.reportOf?, Host.outcome?, host, ho]
    | some o =>
      obtain ⟨b, q, report, hcall, -⟩ := h.outcome _ o ho
      rw [List.getElem?_eq_none hn] at hcall
      cases hcall
  · refine List.findSome?_eq_none_iff.2 fun sign hsign => Sign.failure?_eq_none fun hcall => ?_
    exact absurd (h.counted sign hsign n hcall) (Nat.not_lt.2 hn)

/-- A burst goes on, which is that of a call that is there or of a new one. -/
private lemma goes (h : s.Served limit) (hgoes : Goes e b s s') (new : List Serving)
    (hcalls : s'.calls = s.calls ++ new) (houtcomes : s'.outcomes = s.outcomes)
    (hstage : ∀ n, n < s.calls.length → s'.stage n = s.stage n)
    (howned : ∃ (n : Nat) (c : Serving), s'.calls[n]? = some c ∧ c.burst = b)
    (hnew : ∀ n c, s.calls.length ≤ n → s'.calls[n]? = some c → n = s.calls.length ∧ c.burst = b ∧
      s'.stage n = .started ∧ s.traffic.bursts.get? b = none ∧ ∀ q, c.request? = some q →
        ∃ args rest, s'.returns b = ⟨requestAction, args, named q⟩ :: rest) :
    s'.Served limit := by
  obtain ⟨records, haffects⟩ := hgoes.affects
  -- a call is one of the old ones, or the new one
  have hold {n : Nat} {c : Serving} (hcall : s.calls[n]? = some c) : s'.calls[n]? = some c := by
    rw [hcalls, List.getElem?_append_left (List.getElem?_eq_some_iff.1 hcall).1, hcall]
  have hback {n : Nat} {c : Serving} (hn : n < s.calls.length) (hcall : s'.calls[n]? = some c) :
      s.calls[n]? = some c := by
    rwa [hcalls, List.getElem?_append_left hn] at hcall
  refine ⟨fun n c hcall => ?_, fun b' phase hphase => ?_, fun n m c d hc hd heq => ?_,
    fun n b' q hcall => ?_, fun n o ho => ?_, fun n b' q hcall => ?_, fun sign hsign n hn => ?_,
    fun n b' q call hcall hpolled => ?_⟩
  · by_cases hn : n < s.calls.length
    · obtain ⟨phase, hphase⟩ := h.known n c (hback hn hcall)
      exact haffects.known_of_known hphase
    · rw [(hnew n c (Nat.le_of_not_lt hn) hcall).2.1]
      exact haffects.known
  · by_cases heq : b' = b
    · rwa [heq]
    · rw [haffects.others b' heq] at hphase
      obtain ⟨n, c, hcall, hburst⟩ := h.owned b' phase hphase
      exact ⟨n, c, hold hcall, hburst⟩
  · have hboth {n m : Nat} {c d : Serving} (hn : n < s.calls.length) (hm : s.calls.length ≤ m)
        (hc : s'.calls[n]? = some c) (hd : s'.calls[m]? = some d) : c.burst ≠ d.burst := fun heq => by
      obtain ⟨-, hburst, -, hgone, -⟩ := hnew m d hm hd
      obtain ⟨phase, hphase⟩ := h.known n c (hback hn hc)
      rw [heq, hburst, hgone] at hphase
      cases hphase
    by_cases hn : n < s.calls.length <;> by_cases hm : m < s.calls.length
    · exact h.distinct n m c d (hback hn hc) (hback hm hd) heq
    · exact absurd heq (hboth hn (Nat.le_of_not_lt hm) hc hd)
    · exact absurd heq.symm (hboth hm (Nat.le_of_not_lt hn) hd hc)
    · rw [(hnew n c (Nat.le_of_not_lt hn) hc).1, (hnew m d (Nat.le_of_not_lt hm) hd).1]
  · by_cases hn : n < s.calls.length
    · obtain ⟨args, hroot⟩ := h.root n b' q (hback hn hcall)
      exact ⟨args, hgoes.root_of_root hroot⟩
    · obtain ⟨-, hburst, -, -, hroot⟩ := hnew n _ (Nat.le_of_not_lt hn) hcall
      exact (show b' = b from hburst) ▸ hroot q rfl
  · rw [houtcomes] at ho
    obtain ⟨b', q, report, hcall, hreport, rfl⟩ := h.outcome n o ho
    exact ⟨b', q, report, hold hcall, haffects.report? hreport, rfl⟩
  · rw [hgoes.failure?_eq, reportOf?_host houtcomes]
    by_cases hn : n < s.calls.length
    · exact h.failure n b' q (hback hn hcall)
    · obtain ⟨hreport, hfailure⟩ := h.fresh_of_le (Nat.le_of_not_lt hn)
      rw [hreport, hfailure]
      rfl
  · obtain ⟨signs, hsigns, hburst⟩ := hgoes.exists_signs
    rw [hsigns] at hsign
    rw [hcalls, List.length_append]
    rcases List.mem_append.1 hsign with hsign | hsign
    · exact Nat.lt_add_right _ (h.counted sign hsign n hn)
    · rw [Sign.call?_eq_none (hburst sign hsign)] at hn
      cases hn
  · by_cases hn : n < s.calls.length
    · rw [hstage n hn] at hpolled
      refine (h.polled n b' q call (hback hn hcall) hpolled).mono fun report hreport => ?_
      rwa [reportOf?_host houtcomes]
    · rw [(hnew n _ (Nat.le_of_not_lt hn) hcall).2.2.1] at hpolled
      cases hpolled

/-- A call is looked at or ends. -/
private lemma withStage (h : s.Served limit) {c : Serving} {stage : Stage} {signs : List Sign}
    (hcall : s.calls[n]? = some c) (htraffic : s'.traffic = s.traffic)
    (hunderway : s'.underway = s.underway) (hcalls : s'.calls = s.calls)
    (houtcomes : s'.outcomes = s.outcomes) (hstage : s'.stage = Function.update s.stage n stage)
    (hsigns : s'.signs = s.signs ++ signs) (hcounted : ∀ sign ∈ signs, sign.call? = some n)
    (hfailure : ∀ sign ∈ signs, ∀ (m : Nat) (b q : String), s.calls[m]? = some ⟨b, some q⟩ →
      sign.failure? m = none)
    (hwaits : ∀ b q call, c = ⟨b, some q⟩ → stage = .polled call → call.Waits s.host n q limit) :
    s'.Served limit := by
  have hreturns (b : String) : s'.returns b = s.returns b := returns_congr htraffic (by rw [hunderway])
  refine ⟨?_, ?_, ?_, fun m b q hm => ?_, ?_, fun m b q hm => ?_, fun sign hsign m hm => ?_,
    fun m b q call hm hpolled => ?_⟩
  · rw [hcalls, htraffic]
    exact h.known
  · rw [hcalls, htraffic]
    exact h.owned
  · rw [hcalls]
    exact h.distinct
  · rw [hcalls] at hm
    rw [hreturns]
    exact h.root m b q hm
  · rw [houtcomes, hcalls, htraffic]
    exact h.outcome
  · rw [hcalls] at hm
    rw [failure?_append hsigns fun sign hsign => hfailure sign hsign m b q hm,
      reportOf?_host houtcomes]
    exact h.failure m b q hm
  · rw [hsigns] at hsign
    rw [hcalls]
    rcases List.mem_append.1 hsign with hsign | hsign
    · exact h.counted sign hsign m hm
    · cases (hcounted sign hsign).symm.trans hm
      exact (List.getElem?_eq_some_iff.1 hcall).1
  · rw [hcalls] at hm
    refine Call.Waits.mono (h := s.host) ?_ fun report hreport => by
      rwa [reportOf?_host houtcomes]
    rw [hstage] at hpolled
    by_cases heq : m = n
    · subst heq
      rw [Function.update_self] at hpolled
      exact hwaits b q call (Option.some.inj (hcall.symm.trans hm)) hpolled
    · rw [Function.update_of_ne heq] at hpolled
      exact h.polled m b q call hm hpolled

/-- The outcome of a background burst is known. -/
private lemma finish (h : s.Served limit) {report : Report} (hcall : s.calls[n]? = some ⟨b, some q⟩)
    (hgoing : s.outcomes.lookup n = none) (hreport : s.traffic.report? b = some report)
    (slots : Slots) :
    Served limit { s with
      slots
      outcomes := s.outcomes ++ [(n, .report report)]
      signs := s.signs ++ [.ended n report.failure] } := by
  have hreportOf (m : Nat) : Call.reportOf? (host { s with
      outcomes := s.outcomes ++ [(n, .report report)] }) m =
        if m = n then some report else Call.reportOf? s.host m := by
    rw [Call.reportOf?, Host.outcome?, host, lookup_concat hgoing]
    by_cases heq : m = n
    · rw [if_pos heq, if_pos heq]
    · rw [if_neg heq, if_neg heq]
      rfl
  have hnone : Call.reportOf? s.host n = none := by rw [Call.reportOf?, Host.outcome?, host, hgoing]
  refine ⟨h.known, h.owned, h.distinct, h.root, fun m o ho => ?_, fun m b' q' hm => ?_,
    fun sign hsign m hm => ?_, fun m b' q' call hm hpolled => ?_⟩
  · change (s.outcomes ++ [(n, Outcome.report report)]).lookup m = some o at ho
    rw [lookup_concat hgoing] at ho
    split at ho
    · rename_i heq
      cases ho
      exact ⟨b, q, report, heq ▸ hcall, hreport, rfl⟩
    · exact h.outcome m o ho
  · have hfailure := h.failure m b' q' hm
    rw [failure?] at hfailure
    rw [failure?, List.findSome?_append, hfailure]
    refine Eq.trans ?_ (congrArg (Option.bind · Report.failure) (hreportOf m)).symm
    by_cases heq : m = n
    · subst heq
      simp [hnone, Sign.failure?]
    · simp [heq, Sign.failure?, Ne.symm heq]
  · rcases List.mem_append.1 hsign with hsign | hsign
    · exact h.counted sign hsign m hm
    · rw [List.mem_singleton.1 hsign] at hm
      cases hm
      exact (List.getElem?_eq_some_iff.1 hcall).1
  · refine (h.polled m b' q' call hm hpolled).mono fun report' hreport' => ?_
    have hne : m ≠ n := by
      rintro rfl
      rw [hnone] at hreport'
      cases hreport'
    exact (hreportOf m).trans ((if_neg hne).trans hreport')

/-- The report that a call knows of is that of its burst. -/
lemma report?_of_reportOf? (h : s.Served limit) (hcall : s.calls[n]? = some ⟨b, some q⟩)
    {report : Report} (hreport : Call.reportOf? s.host n = some report) :
    s.traffic.report? b = some report := by
  cases ho : s.outcomes.lookup n with
  | none =>
    rw [Call.reportOf?, Host.outcome?, host, ho] at hreport
    cases hreport
  | some o =>
    obtain ⟨b', q', report', hcall', hreport', rfl⟩ := h.outcome n o ho
    rw [Call.reportOf?, Host.outcome?, host, ho] at hreport
    cases hreport
    cases hcall.symm.trans hcall'
    exact hreport'

theorem step {config : RequestingConfig} (h : s.Served config.timeoutMs.toNat) (htold : s.Told e)
    (hstep : Step config s s') : s'.Served config.timeoutMs.toNat := by
  have hpolled {n : Nat} {b q : String} (hcall : s.calls[n]? = some ⟨b, some q⟩) (call : Call)
      (hstage : s.stage n = .polled call) := h.polled n b q call hcall hstage
  have hnew {n : Nat} {c : Serving} (hn : s.calls.length ≤ n) : s.calls[n]? ≠ some c := by
    rw [List.getElem?_eq_none hn]
    nofun
  cases hstep with
  | @direct path body input action b traffic hbody haction htraffic =>
    obtain ⟨hgone, -⟩ := Traffic.affects_of_begin htraffic
    refine h.goes (htold.goes_of_begin htraffic ?_ ?_ ?_) _ rfl rfl
      (fun n hn => Function.update_of_ne (Nat.ne_of_lt hn) _ _)
      ⟨s.calls.length, ⟨b, none⟩, List.getElem?_concat_length, rfl⟩ fun n c hn hcall => ?_
    iterate 3 rfl
    obtain ⟨rfl, rfl⟩ := (call_of_concat hcall).resolve_left (hnew hn)
    exact ⟨rfl, rfl, Function.update_self .., hgone, nofun⟩
  | @routed path body input b request time opening traffic hbody haction hopening hfresh htraffic =>
    obtain ⟨hgone, -⟩ := Traffic.affects_of_begin hopening
    refine h.goes (htold.goes_of_routed hopening htraffic ?_ ?_ ?_).1 _ rfl rfl
      (fun n hn => Function.update_of_ne (Nat.ne_of_lt hn) _ _)
      ⟨s.calls.length, ⟨b, some request⟩, List.getElem?_concat_length, rfl⟩ fun n c hn hcall => ?_
    iterate 3 rfl
    obtain ⟨rfl, rfl⟩ := (call_of_concat hcall).resolve_left (hnew hn)
    refine ⟨rfl, rfl, Function.update_self .., hgone, fun q hq => ?_⟩
    cases hq
    refine ⟨_, [], (htold.goes_of_routed hopening htraffic ?_ ?_ ?_).2⟩
    iterate 3 rfl
  | advance hgoes hadvance =>
    obtain ⟨hcalls, hstage, houtcomes⟩ := hadvance.frame
    obtain ⟨phase, hphase⟩ := htold.known_of_advance hadvance
    obtain ⟨n, c, hcall, hburst⟩ := h.owned _ phase hphase
    refine h.goes (htold.goes_of_advance hadvance) [] (by simpa using hcalls) houtcomes
      (fun n _ => by rw [hstage]) ⟨n, c, by rw [hcalls, hcall], hburst⟩ fun n c hn hcall => ?_
    exact absurd (hcalls ▸ hcall) (hnew hn)
  | finish hcall hgoing hreport => exact h.finish hcall hgoing hreport _
  | reply hcall hstage hreport =>
    refine h.withStage hcall rfl rfl rfl rfl rfl rfl (List.forall_mem_singleton.2 rfl)
      (List.forall_mem_singleton.2 fun m b q hm => if_neg fun heq => ?_) nofun
    rw [← heq, hcall] at hm
    cases hm
  | poll hcall hlook =>
    refine h.withStage hcall rfl rfl rfl rfl rfl (List.append_nil _).symm nofun nofun ?_
    intro b' q' call' heq hstage
    cases heq
    exact waits_of_look (hpolled hcall) hlook hstage
  | timer hcall hopen hrunning =>
    refine h.withStage hcall rfl rfl rfl rfl (Function.update_eq_self ..).symm rfl
      (List.forall_mem_singleton.2 rfl) (List.forall_mem_singleton.2 fun m b q hm => rfl) ?_
    intro b' q' call' heq hstage
    cases heq
    exact hpolled hcall call' hstage
  | drop hcall hstage =>
    exact h.withStage hcall rfl rfl rfl rfl rfl (List.append_nil _).symm nofun nofun nofun
  | hangUp hcall hstage =>
    exact h.withStage hcall rfl rfl rfl rfl rfl (List.append_nil _).symm nofun nofun nofun

end Served

end Server

end Synchrony.Http
