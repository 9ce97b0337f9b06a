import Synchrony.Proofs.Http.Responds

/-!
# The slots that calls leave behind

A slot is live as long as the call holds it whose burst issued its request: the request of the call
itself while the call is open, any other request until the burst is known to be over. But a call on a
listed path never lets go of a request, since nobody releases what its burst issued
(`Server.Accounted`). So when all calls are answered or dropped and all background bursts are over,
one slot is left for each request that the burst of a call on a listed path issued, and no other slot
(`Server.outstanding_of_settled`).
-/

namespace Synchrony.Http

open Requesting

namespace Server

/-- The call has not let go of a request that its burst issued. -/
def Keeps (s : Server) (n : Nat) (c : Serving) (id : String) : Prop :=
  ∀ q, c.request? = some q →
    if id = q then (s.stage n).isOpen = true else s.outcomes.lookup n = none

/-- Some call has issued a request in its burst and has not let go of it. -/
def Held (s : Server) (id : String) : Prop :=
  ∃ n c, s.calls[n]? = some c ∧ .issued c.burst id ∈ s.signs ∧ s.Keeps n c id

/-- The live slots are those that were there before and those that calls hold. -/
def Accounted (start : Slots) (s : Server) : Prop := ∀ id,
  s.slots.live.contains id = true ↔ start.live.contains id = true ∨ s.Held id

variable {e : Engine Concept} {start : Slots} {s s' : Server} {b q id : String} {n limit : Nat}
  {c : Serving}

lemma mem_signs_append {signs : List Sign} {sign : Sign} (hsigns : s'.signs = s.signs ++ signs)
    (hnone : sign ∉ signs) : sign ∈ s'.signs ↔ sign ∈ s.signs := by
  rw [hsigns, List.mem_append, or_iff_left hnone]

/-! ### Which call holds a request -/

namespace Sound

variable (h : s.Sound limit e start)
include h

/-- What is issued was not there before. -/
lemma not_contains_of_issued (hissued : .issued b id ∈ s.signs) :
    ¬ start.live.contains id = true := fun hlive =>
  (h.issues.before id hlive).2 (mem_issued_iff.2 ⟨b, hissued⟩)

/-- Requests are issued in the bursts of calls. -/
lemma exists_call_of_issued (hissued : .issued b id ∈ s.signs) :
    ∃ (n : Nat) (c : Serving), s.calls[n]? = some c ∧ c.burst = b := by
  obtain ⟨x, hx, -⟩ := h.told.issued_mem_iff.1 hissued
  cases hburst : s.traffic.bursts.get? b with
  | none =>
    rw [h.told.returns_eq_nil hburst] at hx
    cases hx
  | some phase => exact h.served.owned b phase hburst

/-- Only the call whose burst issued a request can hold it. -/
lemma held_iff (hcall : s.calls[n]? = some c) (hissued : .issued c.burst id ∈ s.signs) :
    s.Held id ↔ s.Keeps n c id := by
  constructor
  · rintro ⟨m, d, hm, hissued', hkeeps⟩
    have hsame := h.served.distinct m n d c hm hcall (h.issues.burst_unique hissued' hissued)
    subst hsame
    cases hm.symm.trans hcall
    exact hkeeps
  · exact fun hkeeps => ⟨n, c, hcall, hissued, hkeeps⟩

end Sound

lemma keeps_direct : s.Keeps n ⟨b, none⟩ id := nofun

lemma keeps_routed : s.Keeps n ⟨b, some q⟩ id ↔
    if id = q then (s.stage n).isOpen = true else s.outcomes.lookup n = none := by
  simp [Keeps]

lemma keeps_congr (hstage : c.request? = some id → (s'.stage n).isOpen = (s.stage n).isOpen)
    (houtcomes : s'.outcomes.lookup n = s.outcomes.lookup n) :
    s'.Keeps n c id ↔ s.Keeps n c id := by
  refine forall_congr' fun q => forall_congr' fun hq => ?_
  by_cases heq : id = q
  · rw [if_pos heq, if_pos heq, hstage (heq ▸ hq)]
  · rw [if_neg heq, if_neg heq, houtcomes]

lemma held_congr (hcalls : s'.calls = s.calls)
    (hissued : ∀ b, .issued b id ∈ s'.signs ↔ .issued b id ∈ s.signs)
    (hkeeps : ∀ (n : Nat) (c : Serving), s.calls[n]? = some c → .issued c.burst id ∈ s.signs →
      (s'.Keeps n c id ↔ s.Keeps n c id)) : s'.Held id ↔ s.Held id := by
  refine exists_congr fun n => exists_congr fun c => ?_
  rw [hcalls, hissued]
  exact and_congr_right fun hcall => and_congr_right fun hmem => hkeeps n c hcall hmem

/-- A new call holds what its burst issued, besides what is held already. -/
lemma held_iff_of_begun (hs' : s'.Sound limit e start) {signs : List Sign}
    (hcalls : s'.calls = s.calls ++ [c]) (houtcomes : s'.outcomes = s.outcomes)
    (hstage : ∀ m, m < s.calls.length → s'.stage m = s.stage m)
    (hsigns : s'.signs = s.signs ++ signs)
    (hburst : ∀ sign ∈ signs, sign.burst? = some c.burst) :
    s'.Held id ↔ s.Held id ∨
      .issued c.burst id ∈ s'.signs ∧ s'.Keeps s.calls.length c id := by
  have hnew : s'.calls[s.calls.length]? = some c := by rw [hcalls, List.getElem?_concat_length]
  have hold {m : Nat} {d : Serving} (hm : s.calls[m]? = some d) :
      s'.calls[m]? = some d ∧ (s'.Keeps m d id ↔ s.Keeps m d id) := by
    have hlt := (List.getElem?_eq_some_iff.1 hm).1
    exact ⟨by rw [hcalls, List.getElem?_append_left hlt, hm],
      keeps_congr (fun _ => by rw [hstage m hlt]) (by rw [houtcomes])⟩
  constructor
  · rintro ⟨m, d, hm, hissued, hkeeps⟩
    rcases call_of_concat (hcalls ▸ hm) with hcall | ⟨rfl, rfl⟩
    · obtain ⟨hm', hiff⟩ := hold hcall
      refine .inl ⟨m, d, hcall, ?_, hiff.1 hkeeps⟩
      refine (mem_signs_append hsigns fun hmem => ?_).1 hissued
      -- the new signs are of the new burst, which is that of the new call only
      have hsame := hs'.served.distinct _ _ _ _ hm' hnew (Option.some.inj (hburst _ hmem))
      exact Nat.lt_irrefl _ (hsame ▸ (List.getElem?_eq_some_iff.1 hcall).1)
    · exact .inr ⟨hissued, hkeeps⟩
  · rintro (⟨m, d, hm, hissued, hkeeps⟩ | ⟨hissued, hkeeps⟩)
    · obtain ⟨hm', hiff⟩ := hold hm
      refine ⟨m, d, hm', ?_, hiff.2 hkeeps⟩
      rw [hsigns]
      exact List.mem_append_left _ hissued
    · exact ⟨_, c, hnew, hissued, hkeeps⟩

/-- The burst of a new call has issued nothing before. -/
lemma not_issued_of_begun (hs : s.Sound limit e start) (hs' : s'.Sound limit e start)
    (hcalls : s'.calls = s.calls ++ [c]) : .issued c.burst id ∉ s.signs := fun hissued => by
  obtain ⟨m, d, hm, hburst⟩ := hs.exists_call_of_issued hissued
  have hlt := (List.getElem?_eq_some_iff.1 hm).1
  have hm' : s'.calls[m]? = some d := by rw [hcalls, List.getElem?_append_left hlt, hm]
  have hnew : s'.calls[s.calls.length]? = some c := by rw [hcalls, List.getElem?_concat_length]
  exact Nat.ne_of_lt hlt (hs'.served.distinct _ _ _ _ hm' hnew hburst)

/-! ### Every step keeps the slots accounted for -/

namespace Accounted

lemma idle (e : Engine Concept) (start : Slots) : (Server.idle e start).Accounted start := by
  intro id
  simp [Server.idle, Held]

/-- Nothing is issued, and no call lets go. -/
private lemma congr (h : s.Accounted start) {signs : List Sign} (hcalls : s'.calls = s.calls)
    (houtcomes : s'.outcomes = s.outcomes)
    (hstage : ∀ (n : Nat) (b q : String), s.calls[n]? = some ⟨b, some q⟩ →
      (s'.stage n).isOpen = (s.stage n).isOpen)
    (hsigns : s'.signs = s.signs ++ signs) (hnone : ∀ b id, .issued b id ∉ signs)
    (hslots : ∀ id, s'.slots.live.contains id = s.slots.live.contains id) :
    s'.Accounted start := by
  intro id
  rw [hslots, h id, held_congr hcalls fun b => mem_signs_append hsigns (hnone b id)]
  rintro n ⟨b, request?⟩ hcall -
  refine keeps_congr (fun hrequest => ?_) (by rw [houtcomes])
  obtain rfl : request? = some id := hrequest
  exact hstage n b id hcall

/-- A call begins, and holds what its burst has issued. -/
private lemma begun (h : s.Accounted start) (hs : s.Sound limit e start)
    (hs' : s'.Sound limit e start) {signs : List Sign} (hcalls : s'.calls = s.calls ++ [c])
    (houtcomes : s'.outcomes = s.outcomes)
    (hstage : s'.stage = Function.update s.stage s.calls.length .started)
    (hsigns : s'.signs = s.signs ++ signs)
    (hburst : ∀ sign ∈ signs, sign.burst? = some c.burst)
    (hkeeps : ∀ id, .issued c.burst id ∈ signs → s'.Keeps s.calls.length c id)
    (hslots : ∀ id, s'.slots.live.contains id = true ↔
      .issued c.burst id ∈ signs ∨ s.slots.live.contains id = true) : s'.Accounted start := by
  intro id
  have hissued : .issued c.burst id ∈ s'.signs ↔ .issued c.burst id ∈ signs := by
    rw [hsigns, List.mem_append, or_iff_right (not_issued_of_begun hs hs' hcalls)]
  have hheld : s'.Held id ↔ s.Held id ∨
      .issued c.burst id ∈ s'.signs ∧ s'.Keeps s.calls.length c id :=
    held_iff_of_begun hs' hcalls houtcomes
      (fun m hm => by rw [hstage, Function.update_of_ne (Nat.ne_of_lt hm)]) hsigns hburst
  rw [hheld, hissued, and_iff_left_of_imp (hkeeps id), hslots, h id, or_comm, or_assoc]

/-- A request is issued in a burst that goes on. -/
private lemma request (h : s.Accounted start) (hs : s.Sound limit e start)
    (hs' : s'.Sound limit e start) {call : ActionRef × Fields}
    (hcalled : s.traffic.called? b = some call) (hfresh : id ∉ s.used)
    (hcalls : s'.calls = s.calls) (houtcomes : s'.outcomes = s.outcomes)
    (hstage : s'.stage = s.stage) (hsigns : s'.signs = s.signs ++ [.issued b id])
    (hslots : s'.slots = s.slots.request id) : s'.Accounted start := by
  intro id'
  rw [hslots, Slots.contains_request]
  by_cases heq : id' = id
  · subst heq
    obtain ⟨phase, hphase, -⟩ := Option.bind_eq_some_iff.1 hcalled
    obtain ⟨n, c, hcall, rfl⟩ := hs.served.owned b phase hphase
    have hissued : .issued c.burst id' ∈ s'.signs := by simp [hsigns]
    rw [hs'.held_iff (hcalls ▸ hcall) hissued]
    refine iff_of_true (by simp) (.inr fun q hq => ?_)
    have hcall' : s.calls[n]? = some ⟨c.burst, some q⟩ := by rw [hcall, ← hq]
    have hother : id' ≠ q := fun heq => hfresh (heq ▸ hs.used_of_call hcall')
    rw [if_neg hother, houtcomes]
    by_contra hne
    obtain ⟨o, ho⟩ := Option.ne_none_iff_exists'.1 hne
    obtain ⟨b, q', report, hn, hreport, -⟩ := hs.served.outcome n o ho
    cases hn.symm.trans hcall'
    have hnone := Traffic.called?_eq_none_of_report? hreport
    rw [hcalled] at hnone
    cases hnone
  · have hiff : s'.Held id' ↔ s.Held id' := by
      refine held_congr hcalls (fun b' => mem_signs_append hsigns ?_) fun n c _ _ =>
        keeps_congr (fun _ => by rw [hstage]) (by rw [houtcomes])
      simp [heq]
    rw [hiff, ← h id']
    simp [heq]

/-- A call that became a request is looked at or ends, and its slot is there while it is open. -/
private lemma looked (h : s.Accounted start) (hs' : s'.Sound limit e start) {signs : List Sign}
    {stage : Stage} (hcall : s.calls[n]? = some ⟨b, some q⟩) (hcalls : s'.calls = s.calls)
    (houtcomes : s'.outcomes = s.outcomes) (hstage : s'.stage = Function.update s.stage n stage)
    (hsigns : s'.signs = s.signs ++ signs) (hnone : ∀ b id, .issued b id ∉ signs)
    (hothers : s.slots.AgreeBut q s'.slots)
    (hself : s'.slots.live.contains q = stage.isOpen) : s'.Accounted start := by
  intro id
  by_cases heq : id = q
  · subst heq
    have hcall' : s'.calls[n]? = some ⟨b, some id⟩ := hcalls ▸ hcall
    have hissued := hs'.issued_of_call hcall'
    rw [hself, hs'.held_iff hcall' hissued, or_iff_right (hs'.not_contains_of_issued hissued),
      keeps_routed, if_pos rfl, hstage, Function.update_self]
  · have hiff : s'.Held id ↔ s.Held id := by
      refine held_congr hcalls (fun b' => mem_signs_append hsigns (hnone b' id)) fun m d hm _ =>
        keeps_congr (fun hrequest => ?_) (by rw [houtcomes])
      by_cases hsame : m = n
      · subst hsame
        cases hm.symm.trans hcall
        exact absurd (Option.some.inj hrequest).symm heq
      · rw [hstage, Function.update_of_ne hsame]
    rw [hiff, ← h id, KeyMap.contains, (hothers id heq).1, KeyMap.contains]

/-- A burst that is over lets go of its requests. -/
private lemma finish (h : s.Accounted start) (hs : s.Sound limit e start)
    (hs' : s'.Sound limit e start) {report : Report} (hcall : s.calls[n]? = some ⟨b, some q⟩)
    (hgoing : s.outcomes.lookup n = none) (hreport : s.traffic.report? b = some report)
    (hcalls : s'.calls = s.calls) (houtcomes : s'.outcomes = s.outcomes ++ [(n, .report report)])
    (hstage : s'.stage = s.stage) (hsigns : s'.signs = s.signs ++ [.ended n report.failure])
    (hslots : s'.slots = s.slots.release report.nestedRequests) : s'.Accounted start := by
  intro id
  have hnested : id ∈ report.nestedRequests ↔ .issued b id ∈ s.signs ∧ id ≠ q :=
    mem_nestedRequests_of_call_iff hs.told hs.served hs.issues hcall hreport
  have hlookup (m : Nat) : s'.outcomes.lookup m =
      if m = n then some (.report report) else s.outcomes.lookup m := by
    rw [houtcomes, lookup_concat hgoing]
  have hissued (b' : String) : .issued b' id ∈ s'.signs ↔ .issued b' id ∈ s.signs :=
    mem_signs_append hsigns (by simp)
  have hcontains : s'.slots.live.contains id = true ↔
      id ∉ report.nestedRequests ∧ s.slots.live.contains id = true := by
    rw [hslots, KeyMap.contains, Slots.get?_live_release]
    split <;> simp_all [KeyMap.contains]
  rw [hcontains, hnested]
  by_cases hmem : .issued b id ∈ s.signs
  · have hold := hs.not_contains_of_issued hmem
    rw [h id, or_iff_right hold, or_iff_right hold, hs.held_iff hcall hmem,
      hs'.held_iff (hcalls ▸ hcall) ((hissued b).2 hmem), keeps_routed, keeps_routed, hlookup, hstage]
    by_cases heq : id = q <;> simp [heq, hmem]
  · rw [held_congr hcalls hissued fun m d hm hd => keeps_congr (fun _ => by rw [hstage]) ?_, h id]
    · simp [hmem]
    · rw [hlookup, if_neg]
      rintro rfl
      cases hm.symm.trans hcall
      exact hmem hd

/-- The slot of a call is there after a look unless the look answers the call. -/
private lemma contains_of_look (h : s.Accounted start) (hs : s.Sound limit e start)
    (hcall : s.calls[n]? = some ⟨b, some q⟩) {h' host : Host} {order : Order} {timeUp : Bool}
    {p : Poll Call Response}
    (hlook : s.look limit h' n q order timeUp = some (p, host)) :
    host.world.resources.slots.live.contains q = (Stage.ofPoll p).isOpen := by
  have hleaves := leaves_of_look (hs.served.polled _ _ _ · hcall) hlook
  cases p with
  | ready response =>
    rw [KeyMap.contains, hleaves.ready response rfl]
    rfl
  | pending call =>
    have hheld : s.Held q := by
      rw [hs.held_iff hcall (hs.issued_of_call hcall), keeps_routed, if_pos rfl]
      exact isOpen_of_look hlook
    have hlive := (h q).2 (.inr hheld)
    obtain ⟨-, hleft⟩ := hleaves.pending call rfl
    rcases beginAwait_or_eq_of_left hleft with ⟨-, hbegin⟩ | ⟨-, heq⟩
    · rw [Slots.contains_beginAwait hbegin, hlive]
      rfl
    · rw [heq, hlive]
      rfl

theorem step {config : RequestingConfig} (h : s.Accounted start)
    (hs : s.Sound config.timeoutMs.toNat e start) (hs' : s'.Sound config.timeoutMs.toNat e start)
    (hstep : Step config s s') : s'.Accounted start := by
  -- the stages of requests stay when a call on a listed path ends
  have hother {m n : Nat} {b b' q : String} {stage : Stage} (hm : s.calls[m]? = some ⟨b, none⟩)
      (hn : s.calls[n]? = some ⟨b', some q⟩) :
      (Function.update s.stage m stage n).isOpen = (s.stage n).isOpen := by
    rw [Function.update_of_ne]
    rintro rfl
    cases hm.symm.trans hn
  cases hstep with
  | direct hbody haction htraffic =>
    exact h.begun hs hs' rfl rfl rfl (List.append_nil _).symm nofun nofun
      fun _ => (or_iff_right List.not_mem_nil).symm
  | routed hbody haction hopening hfresh htraffic =>
    refine h.begun hs hs' rfl rfl rfl rfl (List.forall_mem_singleton.2 rfl) (fun id hissued => ?_)
      fun id => ?_
    · cases List.mem_singleton.1 hissued
      rw [keeps_routed, if_pos rfl]
      exact congrArg Stage.isOpen (Function.update_self s.calls.length Stage.started s.stage)
    · rw [Slots.contains_request]
      simp
  | advance hgoes hadvance =>
    cases hadvance with
    | request hcalled hidle hfresh => exact h.request hs hs' hcalled hfresh rfl rfl rfl rfl rfl
    | took hcalled hidle haddressee htake =>
      exact h.congr rfl rfl (fun _ _ _ _ => rfl) (List.append_nil _).symm (fun _ _ => List.not_mem_nil)
        fun _ => Slots.contains_take htake
    | sent hsending =>
      exact h.congr rfl rfl (fun _ _ _ _ => rfl) rfl (by simp) fun _ => Slots.contains_send _
    | _ =>
      exact h.congr rfl rfl (fun _ _ _ _ => rfl) (List.append_nil _).symm
        (fun _ _ => List.not_mem_nil) fun _ => rfl
  | finish hcall hgoing hreport =>
    exact h.finish hs hs' hcall hgoing hreport rfl rfl rfl rfl rfl
  | reply hcall hstage hreport =>
    exact h.congr rfl rfl (fun _ _ _ hn => hother hcall hn) rfl (by simp) fun _ => rfl
  | poll hcall hlook =>
    have hleaves := leaves_of_look (hs.served.polled _ _ _ · hcall) hlook
    exact h.looked hs' hcall rfl rfl rfl (List.append_nil _).symm (fun _ _ => List.not_mem_nil)
      hleaves.others (h.contains_of_look hs hcall hlook)
  | timer hcall hopen hrunning =>
    exact h.congr rfl rfl (fun _ _ _ _ => rfl) rfl (by simp) fun _ => rfl
  | drop hcall hstage =>
    obtain ⟨hothers, hgone⟩ := Call.drop_of_waits (hs.served.polled _ _ _ _ hcall hstage) (s.on _)
    exact h.looked hs' hcall rfl rfl rfl (List.append_nil _).symm (fun _ _ => List.not_mem_nil)
      hothers (congrArg Option.isSome hgone)
  | hangUp hcall hstage =>
    exact h.congr rfl rfl (fun _ _ _ hn => hother hcall hn) (List.append_nil _).symm
      (fun _ _ => List.not_mem_nil) fun _ => rfl

end Accounted

lemma Reachable.accounted {config : RequestingConfig} (h : Reachable config e start s) :
    s.Accounted start := by
  induction h with
  | idle => exact .idle e start
  | step h hstep ih => exact ih.step h.sound (h.step hstep).sound hstep

/-! ### When all calls are over -/

/-- Every call is answered or dropped, and every background burst is known to be over. -/
def Settled (s : Server) : Prop := ∀ (n : Nat) (c : Serving), s.calls[n]? = some c →
  (s.stage n).isOpen = false ∧ ∀ q, c.request? = some q → s.outcomes.lookup n ≠ none

/-- Whether the burst is that of a call on a listed path. -/
def isDirect (s : Server) (b : String) : Bool :=
  s.calls.any fun c => c.burst = b && c.request?.isNone

/-- The requests that bursts of calls on listed paths issued. -/
def leaked (s : Server) : List String :=
  (s.signs.filter fun sign => sign.burst?.any s.isDirect).filterMap Sign.issued?

lemma isDirect_iff : s.isDirect b = true ↔ ∃ n : Nat, s.calls[n]? = some ⟨b, none⟩ := by
  rw [isDirect, List.any_eq_true]
  constructor
  · rintro ⟨⟨b', request?⟩, hmem, hdirect⟩
    obtain ⟨n, hn⟩ := List.getElem?_of_mem hmem
    simp only [Bool.and_eq_true, decide_eq_true_eq, Option.isNone_iff_eq_none] at hdirect
    obtain ⟨rfl, rfl⟩ := hdirect
    exact ⟨n, hn⟩
  · rintro ⟨n, hn⟩
    exact ⟨_, List.mem_of_getElem? hn, by simp⟩

lemma mem_leaked_iff : id ∈ s.leaked ↔ ∃ b, s.isDirect b = true ∧ .issued b id ∈ s.signs := by
  rw [leaked, List.mem_filterMap]
  constructor
  · rintro ⟨sign, hmem, hissued⟩
    obtain ⟨b, rfl⟩ := Sign.exists_of_issued? hissued
    obtain ⟨hsign, hdirect⟩ := List.mem_filter.1 hmem
    exact ⟨b, hdirect, hsign⟩
  · rintro ⟨b, hdirect, hsign⟩
    exact ⟨_, List.mem_filter.2 ⟨hsign, hdirect⟩, rfl⟩

lemma leaked_eq_nil (h : ∀ c ∈ s.calls, c.request? ≠ none) : s.leaked = [] := by
  refine List.eq_nil_iff_forall_not_mem.2 fun id hid => ?_
  obtain ⟨b, hdirect, -⟩ := mem_leaked_iff.1 hid
  obtain ⟨n, hn⟩ := isDirect_iff.1 hdirect
  exact h _ (List.mem_of_getElem? hn) rfl

/-- Calls that are over hold nothing, except those on listed paths. -/
lemma held_iff_of_settled (h : s.Settled) : s.Held id ↔ id ∈ s.leaked := by
  rw [mem_leaked_iff]
  constructor
  · rintro ⟨n, ⟨b, request?⟩, hcall, hissued, hkeeps⟩
    cases request? with
    | none => exact ⟨b, isDirect_iff.2 ⟨n, hcall⟩, hissued⟩
    | some q =>
      obtain ⟨hclosed, hover⟩ := h n _ hcall
      rw [keeps_routed] at hkeeps
      split at hkeeps
      · cases hclosed.symm.trans hkeeps
      · exact absurd hkeeps (hover q rfl)
  · rintro ⟨b, hdirect, hissued⟩
    obtain ⟨n, hn⟩ := isDirect_iff.1 hdirect
    exact ⟨n, _, hn, hissued, keeps_direct⟩

end Server

/-! ### A bell at the door -/

namespace Doorbell

/-- A ring leads to a request. -/
def call : Rule where
  name := "call"
  conditions := [⟨⟨"Bell", "ring"⟩, .empty, .empty⟩]
  consequences := [⟨requestAction, KeyMap.singleton "path" (.lit (.str "/open"))⟩]

/-- A bell that returns what it is given. -/
def bell : Concept where
  interface := [⟨"ring", [], []⟩]
  perform _ input := .succeed input

def registry : Registry Concept where
  concepts := KeyMap.ofList [(conceptName, ⟨interface, concept⟩), ("Bell", ⟨bell.interface, bell⟩)]

def engine : Engine Concept where
  limits := ⟨8, 16⟩
  registry := registry
  rules := (({} : RuleTable).install registry.contains [call]).1
  log := { capacity := 4 }

/-- The bell can be rung from outside. -/
def config : RequestingConfig := { passthrough := ["/Bell/ring"] }

lemma passthroughAction?_config :
    config.passthroughAction? "/Bell/ring" = some ⟨"Bell", "ring"⟩ := by decide

/-- Somebody rings, and the request is issued. -/
def events : List Event :=
  .begin "a" ⟨"Bell", "ring"⟩ .empty ::
    [.empty, named "r"].flatMap fun output =>
      [.move "a" (.answer output ⟨10⟩), .move "a" .observe, .move "a" .proceed]

/-- What becomes of the engine with the first events. -/
def traffic (n : Nat) : Traffic Concept :=
  ((Traffic.idle engine).run (events.take n)).getD (.idle engine)

lemma step?_begin :
    (traffic 0).step? (.begin "a" ⟨"Bell", "ring"⟩ .empty) = some (traffic 1) := rfl

lemma step?_rung : (traffic 1).step? (.move "a" (.answer .empty ⟨10⟩)) = some (traffic 2) := rfl

lemma step?_requested :
    (traffic 4).step? (.move "a" (.answer (named "r") ⟨10⟩)) = some (traffic 5) := rfl

lemma step?_observe :
    (traffic 2).step? (.move "a" .observe) = some (traffic 3) ∧
    (traffic 5).step? (.move "a" .observe) = some (traffic 6) := ⟨rfl, rfl⟩

lemma step?_proceed :
    (traffic 3).step? (.move "a" .proceed) = some (traffic 4) ∧
    (traffic 6).step? (.move "a" .proceed) = some (traffic 7) := ⟨rfl, rfl⟩

def args : Fields := KeyMap.singleton "path" (.str "/open")

lemma called?_traffic :
    (traffic 1).called? "a" = some (⟨"Bell", "ring"⟩, .empty) ∧
    (traffic 4).called? "a" = some (requestAction, args) := ⟨rfl, rfl⟩

/-- What the burst was. -/
def report : Report := ((traffic 7).report? "a").get rfl

lemma report?_traffic : (traffic 7).report? "a" = some report := (Option.some_get _).symm

/-- The steps of the call, from the ring to the answer. -/
lemma exists_reachable : ∃ s, Server.Reachable config engine {} s ∧ s.calls = [⟨"a", none⟩] ∧
    s.stage 0 = .answered (.ok .empty) ∧ s.signs = [.issued "a" "r", .ended 0 none] ∧
    s.slots.outstanding = 1 := by
  have going {s : Server} (h : s.calls = [⟨"a", none⟩]) (hstage : s.stage 0 = .started) :
      ¬ s.Halted "a" := by
    simp [Server.halted_iff_of_calls_eq_singleton h, hstage]
  have started : Server.Reachable config engine {} _ := .step .idle
    (.direct (b := "a") (show bodyFields [] = .ok .empty from rfl) passthroughAction?_config
      step?_begin)
  have rung := started.step (.advance (going rfl rfl)
    (.answered called?_traffic.1 rfl (by decide) step?_rung))
  have called := (rung.step (.advance (going rfl rfl) (.goes (.inl rfl) step?_observe.1))).step
    (.advance (going rfl rfl) (.goes (.inr rfl) step?_proceed.1))
  have requested := called.step (.advance (going rfl rfl)
    (.request called?_traffic.2 rfl (show "r" ∉ [] from List.not_mem_nil)))
  have recorded := requested.step (.advance (going rfl rfl) (.returned rfl step?_requested))
  have ended := (recorded.step (.advance (going rfl rfl) (.goes (.inl rfl) step?_observe.2))).step
    (.advance (going rfl rfl) (.goes (.inr rfl) step?_proceed.2))
  exact ⟨_, ended.step (.reply (n := 0) (b := "a") rfl rfl report?_traffic), rfl, rfl, rfl, rfl⟩

lemma settled {s : Server} (hcalls : s.calls = [⟨"a", none⟩])
    (hstage : s.stage 0 = .answered (.ok .empty)) : s.Settled := by
  intro n c hcall
  obtain ⟨rfl, rfl⟩ := Server.eq_of_calls_eq_singleton hcalls hcall
  rw [hstage]
  exact ⟨rfl, nofun⟩

end Doorbell

namespace Server

variable {e : Engine Concept} {start : Slots} {s : Server}

/--
When all calls are answered or dropped and all background bursts are over, the live slots are those
that were there before and those of the requests that bursts of calls on listed paths issued. So
there are as many as before if no call was on a listed path.
-/
theorem outstanding_of_settled {config : RequestingConfig} (h : Reachable config e start s)
    (hsettled : s.Settled) :
    (∀ id, s.slots.live.contains id = true ↔ start.live.contains id = true ∨ id ∈ s.leaked) ∧
      s.slots.outstanding = start.outstanding + s.leaked.length ∧
      ((∀ c ∈ s.calls, c.request? ≠ none) → s.slots.outstanding = start.outstanding) := by
  have hlive (id : String) : s.slots.live.contains id = true ↔
      start.live.contains id = true ∨ id ∈ s.leaked := by
    rw [h.accounted id, held_iff_of_settled hsettled]
  have hcount : s.slots.outstanding = start.outstanding + s.leaked.length := by
    have hnodup : (start.live.keys ++ s.leaked).Nodup := by
      refine List.nodup_append.2 ⟨KeyMap.nodup_keys _,
        h.sound.issues.once.sublist (List.filter_sublist.filterMap _), fun id hid id' hid' heq => ?_⟩
      obtain ⟨b, -, hissued⟩ := mem_leaked_iff.1 hid'
      exact h.sound.not_contains_of_issued hissued (heq ▸ KeyMap.mem_keys_iff.1 hid)
    have hperm : s.slots.live.keys.Perm (start.live.keys ++ s.leaked) := by
      refine (List.perm_ext_iff_of_nodup (KeyMap.nodup_keys _) hnodup).2 fun id => ?_
      rw [List.mem_append, KeyMap.mem_keys_iff, KeyMap.mem_keys_iff, hlive]
    simpa [Slots.outstanding, KeyMap.size, KeyMap.keys] using hperm.length_eq
  refine ⟨hlive, hcount, fun hrouted => ?_⟩
  rw [hcount, leaked_eq_nil hrouted, List.length_nil, Nat.add_zero]

theorem outstanding_of_settled_doorbell : ∃ s, Reachable Doorbell.config Doorbell.engine {} s ∧
    s.Settled ∧ s.leaked = ["r"] ∧ s.slots.outstanding = 0 + 1 := by
  obtain ⟨s, hreachable, hcalls, hstage, hsigns, -⟩ := Doorbell.exists_reachable
  have hsettled := Doorbell.settled hcalls hstage
  have hleaked : s.leaked = ["r"] := by
    rw [leaked, hsigns]
    simp [isDirect, hcalls, Sign.burst?, Sign.issued?]
  refine ⟨s, hreachable, hsettled, hleaked, ?_⟩
  rw [(outstanding_of_settled hreachable hsettled).2.1, hleaked]
  rfl

/-- A call on a listed path can leave a slot behind. -/
theorem not_forall_outstanding_eq : ¬ ∀ (config : RequestingConfig) (e : Engine Concept)
    (start : Slots) (s : Server), Reachable config e start s → s.Settled →
      s.slots.outstanding = start.outstanding := by
  intro hall
  obtain ⟨s, hreachable, hcalls, hstage, -, hcount⟩ := Doorbell.exists_reachable
  have hsame := hall _ _ _ s hreachable (Doorbell.settled hcalls hstage)
  rw [hcount] at hsame
  exact absurd hsame (by decide)

end Server

end Synchrony.Http
