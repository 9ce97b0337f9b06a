import Synchrony.Proofs.Http.Rulings

/-!
# What a call is answered

A look at a call that became a request gives the ruling on the signs that there are by then, whatever
else happens on the server (`Server.answered_by_ruling`). So a respond that comes before the timer fires
is the answer, and a failure is never the answer to a call whose burst responded. Between a failure and
the timer the order does not decide alone: a call whose burst failed may still be answered with the
time-out, if its timer fires before it looks and it looks at the response first
(`Server.answers_not_by_verdict`).
-/

namespace Synchrony.Http

open Requesting

namespace Server

/-- Only the burst `b` responds to the request. -/
def Own (s : Server) (b request : String) : Prop :=
  ∀ b' args, .responded b' request args ∈ s.signs → b' = b

/-- The answer to a call, and what it will be decided by while the call is open. -/
structure Answers (limit : Nat) (s : Server) (n : Nat) (request : String) : Prop where
  slot : (s.stage n).isOpen = true → ∃ slot, s.slots.live.get? request = some slot ∧
    slot.response = s.given request ∧ slot.awaited = (s.stage n).isPolled ∧
    ((s.stage n).isPolled = true →
      s.slots.waiting.get? request = some ⟨0, Account.seenIn slot⟩)
  inTurn : InTurn n request s.signs
  answered : ∀ response, s.stage n = .answered response → ∃ order seen, seen <+: s.signs ∧
    ruling order limit n request seen = some response

variable {e : Engine Concept} {start : Slots} {s s' : Server} {b b' q id : String} {n m limit : Nat}

lemma Own.of_append {signs : List Sign} (h : s'.Own b q) (hsigns : s'.signs = s.signs ++ signs) :
    s.Own b q := fun b' args hmem => h b' args (by rw [hsigns]; exact List.mem_append_left _ hmem)

/-! ### Looking at an open call -/

/-- The failure that a call sees is that of its burst, unless the response was given. -/
lemma failureOf?_host (hs : s.Sound limit e start) (hcall : s.calls[n]? = some ⟨b, some q⟩)
    (hown : s.Own b q) :
    Call.failureOf? s.host n q = if s.given q = none then s.failure? n else none := by
  have hfailure := hs.served.failure n b q hcall
  cases hreport : Call.reportOf? s.host n with
  | none =>
    rw [hreport] at hfailure
    rw [Call.failureOf?, hreport, hfailure]
    simp
  | some report =>
    rw [hreport, Option.bind_some] at hfailure
    rw [Call.failureOf?, hreport, Option.bind_some, Call.failureFor, hfailure]
    have hover := hs.served.report?_of_reportOf? hcall hreport
    have hresponded : Call.responded report q = true ↔ s.given q ≠ none := by
      rw [responded_iff hs.told hover, given_ne_none_iff]
      constructor
      · rintro ⟨args, hmem⟩
        exact ⟨b, args, hmem⟩
      · rintro ⟨b', args, hmem⟩
        exact ⟨args, hown b' args hmem ▸ hmem⟩
    by_cases hgiven : s.given q = none
    · rw [if_pos hgiven, if_neg fun h => hresponded.1 h hgiven]
    · rw [if_neg hgiven, if_pos (hresponded.2 hgiven)]

/-- What an open call sees makes the ruling. -/
private lemma answer?_eq_ruling (hs : s.Sound limit e start)
    (hcall : s.calls[n]? = some ⟨b, some q⟩) (hown : s.Own b q) {slot : Slot}
    (hresponse : slot.response = s.given q) (order : Order) :
    Call.answer? order q limit (s.fired n) (Account.seenIn slot) (Call.failureOf? s.host n q) =
      ruling order limit n q s.signs := by
  rw [failureOf?_host hs hcall hown]
  cases hgiven : s.given q with
  | some payload =>
    have hsees : Account.seenIn slot = .delivered payload := by
      rw [Account.seenIn, hresponse, hgiven]
    rw [if_neg nofun, Call.answer?_none, hsees, ruling_of_payload hgiven]
    rfl
  | none =>
    have hsees : Account.seenIn slot = .pending := by rw [Account.seenIn, hresponse, hgiven]
    unfold ruling
    rw [given] at hgiven
    rw [if_pos rfl, hsees, hgiven, fired, failure?]
    cases order <;> cases s.signs.any (Sign.isTimer n) <;> rfl

/-- A look at an open call gives the ruling. -/
lemma gives_of_open (h : s.Answers limit n q) (hs : s.Sound limit e start)
    (hcall : s.calls[n]? = some ⟨b, some q⟩) (hown : s.Own b q) (hopen : (s.stage n).isOpen = true)
    (host : Host) (order : Order) :
    ∃ looked, s.look limit host n q order (s.fired n) = some looked ∧
      Call.Gives (ruling order limit n q s.signs) looked.1 := by
  obtain ⟨slot, hslot, hresponse, hawaited, hwaiting⟩ := h.slot hopen
  have hanswer := answer?_eq_ruling hs hcall hown hresponse order
  rw [← failureOf?_on host] at hanswer
  rw [← hanswer]
  unfold look
  cases hstage : s.stage n with
  | started =>
    rw [hstage] at hawaited
    exact ⟨_, rfl, Call.gives_pollStarted order hslot hawaited⟩
  | polled call =>
    rw [hstage] at hwaiting
    obtain ⟨a, rfl, rfl, rfl | ⟨rfl, -, hnone⟩⟩ := hs.served.polled n b q call hcall hstage
    all_goals
      have hw : (s.on host).world.resources.slots.waiting.get? a.request =
        some ⟨0, Account.seenIn slot⟩ := hwaiting rfl
    · exact ⟨_, rfl, Call.gives_pollWaiting order hw⟩
    · rw [failureOf?_on, hnone]
      exact ⟨_, rfl, Call.gives_getD order hw _⟩
  | answered response =>
    rw [hstage] at hopen
    cases hopen
  | dropped =>
    rw [hstage] at hopen
    cases hopen

/-! ### Every step keeps the answers right -/

namespace Answers

/-- Of a call that is over only the answer has to be right. -/
private lemma of_closed (hclosed : (s.stage n).isOpen = false) (hturn : InTurn n q s.signs)
    (hanswered : ∀ response, s.stage n = .answered response → ∃ order seen, seen <+: s.signs ∧
      ruling order limit n q seen = some response) : s.Answers limit n q := by
  refine ⟨fun hopen => ?_, hturn, hanswered⟩
  rw [hclosed] at hopen
  cases hopen

/-- What does not respond to a call and leaves its slot alone changes nothing. -/
private lemma congr (h : s.Answers limit n q) {signs : List Sign} (hstage : s'.stage n = s.stage n)
    (hsigns : s'.signs = s.signs ++ signs) (hnone : ∀ sign ∈ signs, sign.payload? q = none)
    (hslots : (s.stage n).isOpen = true → s.slots.SameFor q s'.slots) : s'.Answers limit n q := by
  refine ⟨fun hopen => ?_, ?_, fun response hanswered => ?_⟩
  · rw [hstage] at hopen ⊢
    obtain ⟨slot, hslot, hresponse, hawaited, hwaiting⟩ := h.slot hopen
    obtain ⟨hlive, hwaiting'⟩ := hslots hopen
    obtain ⟨slot', hslot', hresponse', hawaited'⟩ := hlive slot hslot
    refine ⟨slot', hslot', ?_, by rw [hawaited', hawaited], fun hpolled => ?_⟩
    · rw [hresponse', hresponse, given_append hsigns hnone]
    · rw [hwaiting', hwaiting hpolled, Account.seenIn, Account.seenIn, hresponse']
  · rw [hsigns]
    exact h.inTurn.append hnone
  · rw [hstage] at hanswered
    obtain ⟨order, seen, hseen, hruling⟩ := h.answered response hanswered
    exact ⟨order, seen, hsigns ▸ hseen.trans (List.prefix_append _ _), hruling⟩

/-- A call that became a request has no answer yet. -/
private lemma begun (hs : s.Sound limit e start) (hfresh : q ∉ s.used)
    (hstage : s'.stage s.calls.length = .started) (hsigns : s'.signs = s.signs ++ [.issued b q])
    (hslots : s'.slots = s.slots.request q) : s'.Answers limit s.calls.length q := by
  have hgiven : s'.given q = none := by
    rw [given_append hsigns (List.forall_mem_singleton.2 rfl)]
    by_contra hsome
    exact hfresh (hs.single.used q (.inr (.inl hsome)))
  refine ⟨fun hopen => ⟨{}, ?_, hgiven.symm, by rw [hstage]; rfl, fun hpolled => ?_⟩,
    fun seen b' args hseen => ?_, fun response hanswered => ?_⟩
  · rw [hslots, Slots.request, KeyMap.get?_insert_self]
  · rw [hstage] at hpolled
    cases hpolled
  · have hmem := hseen.mem (List.mem_append_right _ (List.mem_singleton_self _))
    exact absurd hgiven (given_ne_none_iff.2 ⟨b', args, hmem⟩)
  · rw [hstage] at hanswered
    cases hanswered

/-- A burst that is about to send has not failed. -/
private lemma failure?_of_sending (hs : s.Sound limit e start)
    (hcall : s.calls[n]? = some ⟨b, some q⟩) {args : Fields}
    (hsending : s.underway.get? b = some (.sending id args)) : s.failure? n = none := by
  rw [hs.served.failure n b q hcall]
  cases hreport : Call.reportOf? s.host n with
  | none => rfl
  | some report =>
    have hover := hs.served.report?_of_reportOf? hcall hreport
    have hidle := hs.told.underway_eq_none (Traffic.called?_eq_none_of_report? hover)
    rw [hidle] at hsending
    cases hsending

/-- The response is sent, before which there was none, and no failure. -/
private lemma sent (h : s.Answers limit n q) (hs : s.Sound limit e start)
    (hcall : s.calls[n]? = some ⟨b, some q⟩) {args : Fields}
    (hsending : s.underway.get? b = some (.sending q args)) (hstage : s'.stage n = s.stage n)
    (hsigns : s'.signs = s.signs ++ [.responded b q args])
    (hslots : s'.slots = s.slots.send q (payloadOf args)) : s'.Answers limit n q := by
  have hgiven : s.given q = none := hs.single.unsent b q args hsending
  have hgiven' : s'.given q = some (payloadOf args) := by
    rw [given] at hgiven
    rw [given, hsigns, List.findSome?_append, hgiven]
    simp [Sign.payload?]
  refine ⟨fun hopen => ?_, ?_, fun response hanswered => ?_⟩
  · rw [hstage] at hopen ⊢
    obtain ⟨slot, hslot, hresponse, hawaited, hwaiting⟩ := h.slot hopen
    refine ⟨{ slot with response := some (payloadOf args) }, ?_, hgiven'.symm, hawaited,
      fun hpolled => ?_⟩
    · rw [hslots, Slots.get?_live_send, if_pos rfl, hslot]
      rfl
    · -- the party that waits has seen nothing so far
      rw [hslots, Slots.get?_waiting_send, if_pos rfl, hwaiting hpolled, Option.map_some,
        Account.seenIn, hresponse, hgiven]
      rfl
  · rw [hsigns]
    exact h.inTurn.append_responded hgiven (failure?_of_sending hs hcall hsending) b args
  · rw [hstage] at hanswered
    obtain ⟨order, seen, hseen, hruling⟩ := h.answered response hanswered
    exact ⟨order, seen, hsigns ▸ hseen.trans (List.prefix_append _ _), hruling⟩

/-- A call that is looked at and has no answer yet waits. -/
private lemma pending (h : s.Answers limit n q) (hs : s.Sound limit e start)
    (hcall : s.calls[n]? = some ⟨b, some q⟩) {host host' : Host} {order : Order} {timeUp : Bool}
    {call : Call} (hlook : s.look limit host n q order timeUp = some (.pending call, host'))
    (hstage : s'.stage n = .polled call) (hslots : s'.slots = host'.world.resources.slots)
    (hsigns : s'.signs = s.signs) : s'.Answers limit n q := by
  have hopen := isOpen_of_look hlook
  have hpolled (call : Call) := hs.served.polled n b q call hcall
  obtain ⟨-, hleft⟩ := (leaves_of_look hpolled hlook).pending call rfl
  obtain ⟨slot, hslot, hresponse, hawaited, hwaiting⟩ := h.slot hopen
  refine ⟨fun _ => ?_, hsigns ▸ h.inTurn, fun response hanswered => ?_⟩
  · rw [given, hsigns, hstage, hslots]
    rcases beginAwait_or_eq_of_left hleft with ⟨-, hbegin⟩ | ⟨hne, heq⟩
    · obtain ⟨slot', hslot', -, heq⟩ := Slots.beginAwait_eq_ok hbegin
      cases hslot.symm.trans hslot'
      rw [heq]
      exact ⟨_, KeyMap.get?_insert_self .., hresponse, rfl, fun _ => KeyMap.get?_insert_self ..⟩
    · have hwaits : (s.stage n).isPolled = true := by
        cases hs : s.stage n with
        | started => exact absurd hs hne
        | polled call => rfl
        | _ =>
          rw [hs] at hopen
          cases hopen
      rw [heq]
      exact ⟨slot, hslot, hresponse, hawaited.trans hwaits, fun _ => hwaiting hwaits⟩
  · rw [hstage] at hanswered
    cases hanswered

/-- A call that is looked at is answered with the ruling, if there is one. -/
private lemma looked (h : s.Answers limit n q) (hs : s.Sound limit e start)
    (hcall : s.calls[n]? = some ⟨b, some q⟩) (hown : s.Own b q) {host host' : Host}
    {order : Order} {p : Poll Call Response}
    (hlook : s.look limit host n q order (s.fired n) = some (p, host'))
    (hstage : s'.stage n = .ofPoll p) (hslots : s'.slots = host'.world.resources.slots)
    (hsigns : s'.signs = s.signs) : s'.Answers limit n q := by
  obtain ⟨looked, hlook', hgives⟩ := gives_of_open h hs hcall hown (isOpen_of_look hlook) host order
  cases hlook.symm.trans hlook'
  cases hruling : ruling order limit n q s.signs with
  | none =>
    rw [hruling] at hgives
    obtain ⟨call, rfl⟩ := hgives
    exact h.pending hs hcall hlook hstage hslots hsigns
  | some response =>
    rw [hruling] at hgives
    obtain rfl : p = .ready response := hgives
    refine of_closed (by rw [hstage]; rfl) (hsigns ▸ h.inTurn) fun response' hanswered => ?_
    cases hstage.symm.trans hanswered
    exact ⟨order, s.signs, hsigns ▸ List.prefix_rfl, hruling⟩

/-- A step of a burst. -/
private lemma advance (h : s.Answers limit n q) (hs : s.Sound limit e start)
    (hcall : s.calls[n]? = some ⟨b, some q⟩) (hown : s'.Own b q) (hstep : Advance b' s s') :
    s'.Answers limit n q := by
  have hstage : s'.stage n = s.stage n := by rw [hstep.frame.2.1]
  cases hstep with
  | request hcalled hidle hfresh =>
    refine h.congr rfl rfl (List.forall_mem_singleton.2 rfl) fun _ => ?_
    exact .of_agreeBut (Slots.agreeBut_request _ _) fun heq =>
      hfresh (heq ▸ hs.used_of_call hcall)
  | took hcalled hidle haddressee htake =>
    exact h.congr rfl (List.append_nil _).symm nofun fun _ => .of_take htake q
  | @sent args id hsending =>
    by_cases heq : id = q
    · subst heq
      cases hown b' args (List.mem_append_right _ (List.mem_singleton.2 rfl))
      exact h.sent hs hcall hsending rfl rfl rfl
    · refine h.congr rfl rfl (List.forall_mem_singleton.2 (if_neg heq)) fun _ => ?_
      exact .of_agreeBut (Slots.agreeBut_send _ _ _) (Ne.symm heq)
  | _ => exact h.congr rfl (List.append_nil _).symm nofun fun _ => .of_eq rfl rfl

/-- A look at any call. -/
private lemma polled (h : s.Answers limit n q) (hs : s.Sound limit e start)
    (hcall : s.calls[n]? = some ⟨b, some q⟩) (hown : s.Own b q) {b' q' : String}
    (hcall' : s.calls[m]? = some ⟨b', some q'⟩) {host host' : Host} {order : Order}
    {p : Poll Call Response} (hlook : s.look limit host m q' order (s.fired m) = some (p, host')) :
    Answers limit { s.withStage m (.ofPoll p) with slots := host'.world.resources.slots } n q := by
  by_cases heq : n = m
  · subst heq
    cases hcall.symm.trans hcall'
    exact h.looked hs hcall hown hlook (Function.update_self ..) rfl rfl
  · have hleaves := leaves_of_look (hs.served.polled _ _ _ · hcall') hlook
    refine h.congr (Function.update_of_ne heq _ _) (List.append_nil _).symm nofun fun _ => ?_
    exact .of_agreeBut hleaves.others fun hsame => heq (hs.request_unique hcall (hsame ▸ hcall'))

/-- Any call is dropped. -/
private lemma dropped (h : s.Answers limit n q) (hs : s.Sound limit e start)
    (hcall : s.calls[n]? = some ⟨b, some q⟩) {b' q' : String}
    (hcall' : s.calls[m]? = some ⟨b', some q'⟩) {call : Call} (hstage : s.stage m = .polled call)
    (host : Host) : Answers limit { s.withStage m .dropped with
      slots := (call.drop (s.on host)).world.resources.slots } n q := by
  by_cases heq : n = m
  · subst heq
    have hdropped : (Function.update s.stage n .dropped) n = .dropped := Function.update_self ..
    refine of_closed (congrArg Stage.isOpen hdropped) h.inTurn fun response hanswered => ?_
    cases hdropped.symm.trans hanswered
  · have hdrop := Call.drop_of_waits (hs.served.polled m b' q' call hcall' hstage) (s.on host)
    refine h.congr (Function.update_of_ne heq _ _) (List.append_nil _).symm nofun fun _ => ?_
    exact .of_agreeBut hdrop.1 fun hsame => heq (hs.request_unique hcall (hsame ▸ hcall'))

/-- A call that was there before is not where a new one stands. -/
private lemma update_length {c : Serving} {stage : Stage} (hcall : s.calls[n]? = some c) :
    Function.update s.stage s.calls.length stage n = s.stage n :=
  Function.update_of_ne (Nat.ne_of_lt (List.getElem?_eq_some_iff.1 hcall).1) _ _

/-- A call that has a request is not on a listed path. -/
private lemma update_direct {stage : Stage} (hcall : s.calls[n]? = some ⟨b, some q⟩)
    (hdirect : s.calls[m]? = some ⟨b', none⟩) : Function.update s.stage m stage n = s.stage n := by
  refine Function.update_of_ne ?_ _ _
  rintro rfl
  cases hcall.symm.trans hdirect

/-- Every step keeps the answers of all calls right whose requests only their own bursts respond to. -/
lemma step {config : RequestingConfig} (hs : s.Sound config.timeoutMs.toNat e start)
    (h : ∀ (n : Nat) (b q : String), s.calls[n]? = some ⟨b, some q⟩ → s.Own b q →
      s.Answers config.timeoutMs.toNat n q) (hstep : Step config s s') :
    ∀ (n : Nat) (b q : String), s'.calls[n]? = some ⟨b, some q⟩ → s'.Own b q →
      s'.Answers config.timeoutMs.toNat n q := by
  intro n b q hcall hown
  cases hstep with
  | direct hbody haction htraffic =>
    obtain hcall | ⟨-, heq⟩ := call_of_concat hcall
    · exact (h n b q hcall hown).congr (update_length hcall) (List.append_nil _).symm nofun
        fun _ => .of_eq rfl rfl
    · cases heq
  | routed hbody haction hopening hfresh htraffic =>
    obtain hcall | ⟨rfl, heq⟩ := call_of_concat hcall
    · refine (h n b q hcall (hown.of_append rfl)).congr (update_length hcall) rfl
        (List.forall_mem_singleton.2 rfl) fun _ => ?_
      exact .of_agreeBut (Slots.agreeBut_request _ _) fun heq =>
        hfresh (heq ▸ hs.used_of_call hcall)
    · cases heq
      exact begun hs hfresh (Function.update_self ..) rfl rfl
  | advance hgoes hadvance =>
    obtain ⟨hcalls, -, -⟩ := hadvance.frame
    rw [hcalls] at hcall
    obtain ⟨signs, hsigns, -⟩ := (hs.told.goes_of_advance hadvance).exists_signs
    exact (h n b q hcall (hown.of_append hsigns)).advance hs hcall hown hadvance
  | finish hcall' hgoing hreport =>
    exact (h n b q hcall (hown.of_append rfl)).congr rfl rfl (List.forall_mem_singleton.2 rfl)
      fun _ => .of_release (hs.not_mem_nestedRequests hcall hcall' hreport)
  | reply hcall' hstage hreport =>
    exact (h n b q hcall (hown.of_append rfl)).congr (update_direct hcall hcall') rfl
      (List.forall_mem_singleton.2 rfl) fun _ => .of_eq rfl rfl
  | timer hcall' hopen hrunning =>
    exact (h n b q hcall (hown.of_append rfl)).congr rfl rfl (List.forall_mem_singleton.2 rfl)
      fun _ => .of_eq rfl rfl
  | poll hcall' hlook => exact (h n b q hcall hown).polled hs hcall hown hcall' hlook
  | drop hcall' hstage => exact (h n b q hcall hown).dropped hs hcall hcall' hstage _
  | hangUp hcall' hstage =>
    exact (h n b q hcall hown).congr (update_direct hcall hcall') (List.append_nil _).symm nofun
      fun _ => .of_eq rfl rfl

end Answers

end Server

/-! ### A desk -/

namespace Desk

/-- Every request is answered, and leads to another one. -/
def answer : Rule where
  name := "answer"
  conditions := [⟨requestAction, .empty, KeyMap.singleton requestField (.var "caller")⟩]
  consequences := [
    ⟨respondAction, KeyMap.ofList [(requestField, .var "caller"), ("by", .lit (.str "desk"))]⟩,
    ⟨requestAction, KeyMap.singleton "path" (.lit (.str "/next"))⟩]

def registry : Registry Concept where
  concepts := KeyMap.singleton conceptName ⟨interface, concept⟩

/-- An engine with this rule, on which a burst can have so many records. -/
def engine (actions : Nat) : Engine Concept where
  limits := ⟨2, actions⟩
  registry := registry
  rules := (({} : RuleTable).install registry.contains [answer]).1
  log := { capacity := 4 }

/-- A request comes, and then its response. -/
def events : List Event :=
  .begin "a" requestAction (KeyMap.empty.insert "path" (.str "/desk")) ::
    [named "r", named "r"].flatMap fun output =>
      [.move "a" (.answer output ⟨10⟩), .move "a" .observe, .move "a" .proceed]

/-- What becomes of the engine with the first events. -/
def traffic (actions n : Nat) : Traffic Concept :=
  ((Traffic.idle (engine actions)).run (events.take n)).getD (.idle (engine actions))

/-- Calls wait five milliseconds. -/
def config : RequestingConfig := { timeoutMs := 5 }

variable (actions : Nat)

lemma step?_begin : (traffic actions 0).step? (.begin "a" requestAction
    (KeyMap.empty.insert "path" (.str "/desk"))) = some (traffic actions 1) := rfl

lemma step?_requested :
    (traffic actions 1).step? (.move "a" (.answer (named "r") ⟨10⟩)) = some (traffic actions 2) := rfl

lemma step?_observe :
    (traffic actions 2).step? (.move "a" .observe) = some (traffic actions 3) := rfl

/-- What the desk responds with. -/
def args : Fields := KeyMap.ofList [(requestField, .str "r"), ("by", .str "desk")]

/-- The server when the call has arrived. -/
def arrived : Server :=
  { (Server.idle (engine actions) {}).withCall ⟨"a", some "r"⟩ with
    traffic := traffic actions 2
    slots := ({} : Slots).request "r"
    used := ["r"]
    signs := [.issued "a" "r"] }

/-- The server when the call has looked for the first time, and waits. -/
def waiting : Server :=
  { (arrived actions).withStage 0 (.polled (.waiting 0 ⟨"r", 5, 5, 1⟩)) with
    slots := {
      live := KeyMap.singleton "r" { awaited := true }
      waiting := KeyMap.singleton "r" ⟨0, .pending⟩ } }

lemma reachable_arrived : Server.Reachable config (engine actions) {} (arrived actions) :=
  .step .idle (.routed (b := "a") (show bodyFields [] = .ok .empty from rfl) rfl
    (step?_begin actions) List.not_mem_nil (step?_requested actions))

lemma reachable_waiting : Server.Reachable config (engine actions) {} (waiting actions) := by
  have looked := (reachable_arrived actions).step (.poll (n := 0) (b := "a") rfl
    (show Server.look _ _ { world := ⟨engine actions, {}⟩ } 0 "r" .response false = some _ from rfl))
  exact looked

/-- The call is answered like this when these signs have come. -/
def Answered (signs : List Sign) (response : Response) : Prop :=
  ∃ s, Server.Reachable config (engine actions) {} s ∧ s.calls[0]? = some ⟨"a", some "r"⟩ ∧
    s.Own "a" "r" ∧ s.signs = signs ∧ s.stage 0 = .answered response

variable {actions} in
lemma Answered.of_reachable {s : Server} {signs : List Sign} {response : Response}
    (h : Server.Reachable config (engine actions) {} s) (hcalls : s.calls = [⟨"a", some "r"⟩])
    (hsigns : s.signs = signs) (hown : ∀ b args, .responded b "r" args ∈ signs → b = "a")
    (hstage : s.stage 0 = .answered response) : Answered actions signs response := by
  refine ⟨s, h, by rw [hcalls]; rfl, ?_, hsigns, hstage⟩
  rw [Server.Own, hsigns]
  exact hown

lemma not_halted {s : Server} (h : s.calls = [⟨"a", some "r"⟩]) : ¬ s.Halted "a" := by
  simp [Server.halted_iff_of_calls_eq_singleton h]

/-! #### A burst that responds -/

lemma step?_proceed : (traffic 2 3).step? (.move "a" .proceed) = some (traffic 2 4) ∧
    (traffic 2 6).step? (.move "a" .proceed) = some (traffic 2 7) := ⟨rfl, rfl⟩

lemma called?_traffic : (traffic 2 4).called? "a" = some (respondAction, args) := rfl

lemma step?_responded :
    (traffic 2 4).step? (.move "a" (.answer (named "r") ⟨10⟩)) = some (traffic 2 5) := rfl

/-- What the burst was that responded and failed then. -/
def report : Report := ((traffic 2 7).report? "a").get rfl

lemma report?_traffic : (traffic 2 7).report? "a" = some report := (Option.some_get _).symm

/-- The call is answered with the response, though its burst fails before it looks. -/
lemma answered_responded : Answered 2
    [.issued "a" "r", .responded "a" "r" args, .ended 0 (some (.budgetExceeded "a" 2))]
    (.ok (payloadOf args)) := by
  have called := ((reachable_arrived 2).step (.advance (not_halted rfl)
    (.goes (.inl rfl) (step?_observe 2)))).step
      (.advance (not_halted rfl) (.goes (.inr rfl) step?_proceed.1))
  have sent := (called.step (.advance (not_halted rfl) (.took called?_traffic rfl rfl rfl))).step
    (.advance (not_halted rfl) (.sent (b := "a") rfl))
  have recorded := sent.step (.advance (not_halted rfl) (.returned rfl step?_responded))
  have ended := (recorded.step (.advance (not_halted rfl) (.goes (.inl rfl)
    (show (traffic 2 5).step? (.move "a" .observe) = some (traffic 2 6) from rfl)))).step
      (.advance (not_halted rfl) (.goes (.inr rfl) step?_proceed.2))
  have known := ended.step (.finish (n := 0) (b := "a") rfl rfl report?_traffic)
  have looked := known.step (.poll (n := 0) (b := "a") rfl
    (show Server.look _ _ { world := ⟨engine 2, {}⟩ } 0 "r" .burst false = some _ from rfl))
  exact .of_reachable looked rfl rfl (by simp) rfl

/-- The call is answered with the response, though its timer fires before that is sent. -/
lemma answered_responded_late : Answered 2 [.issued "a" "r", .timeUp 0, .responded "a" "r" args]
    (.ok (payloadOf args)) := by
  have called := ((reachable_waiting 2).step (.advance (not_halted rfl)
    (.goes (.inl rfl) (step?_observe 2)))).step
      (.advance (not_halted rfl) (.goes (.inr rfl) step?_proceed.1))
  have fired := called.step (.timer (n := 0) (b := "a") rfl rfl rfl)
  have sent := (fired.step (.advance (not_halted rfl) (.took called?_traffic rfl rfl rfl))).step
    (.advance (not_halted rfl) (.sent (b := "a") rfl))
  have looked := sent.step (.poll (n := 0) (b := "a") rfl
    (show Server.look _ _ { world := ⟨engine 2, {}⟩ } 0 "r" .response true = some _ from rfl))
  exact .of_reachable looked rfl rfl (by simp) rfl

/-! #### A burst that fails -/

lemma step?_fails : (traffic 1 3).step? (.move "a" .proceed) = some (traffic 1 4) := rfl

/-- What the burst was that failed and did not respond. -/
def failedReport : Report := ((traffic 1 4).report? "a").get rfl

lemma report?_failed : (traffic 1 4).report? "a" = some failedReport := (Option.some_get _).symm

/-- The burst failed before the timer fired, and the call looks at the response first. -/
lemma answered_failed_first : Answered 1
    [.issued "a" "r", .ended 0 (some (.budgetExceeded "a" 1)), .timeUp 0] (timedOut "r" 5) := by
  have ended := ((reachable_waiting 1).step (.advance (not_halted rfl)
    (.goes (.inl rfl) (step?_observe 1)))).step
      (.advance (not_halted rfl) (.goes (.inr rfl) step?_fails))
  have known := ended.step (.finish (n := 0) (b := "a") rfl rfl report?_failed)
  have fired := known.step (.timer (n := 0) (b := "a") rfl rfl rfl)
  have looked := fired.step (.poll (n := 0) (b := "a") rfl
    (show Server.look _ _ { world := ⟨engine 1, {}⟩ } 0 "r" .response true = some _ from rfl))
  exact .of_reachable looked rfl rfl (by simp) rfl

/-- The timer fired before the burst failed, and the call looks at the burst first. -/
lemma answered_fired_first : Answered 1
    [.issued "a" "r", .timeUp 0, .ended 0 (some (.budgetExceeded "a" 1))]
    (Call.failed (.budgetExceeded "a" 1)) := by
  have fired := (reachable_waiting 1).step (.timer (n := 0) (b := "a") rfl rfl rfl)
  have ended := (fired.step (.advance (not_halted rfl)
    (.goes (.inl rfl) (step?_observe 1)))).step
      (.advance (not_halted rfl) (.goes (.inr rfl) step?_fails))
  have known := ended.step (.finish (n := 0) (b := "a") rfl rfl report?_failed)
  have looked := known.step (.poll (n := 0) (b := "a") rfl
    (show Server.look _ _ { world := ⟨engine 1, {}⟩ } 0 "r" .burst true = some _ from rfl))
  exact .of_reachable looked rfl rfl (by simp) rfl

/-- A host on which the call waits at slots that the concept of its engine does not have. -/
def apart : Host where
  world := ⟨engine 2, { slots := (waiting 2).slots }⟩
  outcomes := [(0, .report report)]

end Desk

namespace Server

/-! ### Whatever happens on the server -/

variable {e : Engine Concept} {start : Slots} {s : Server} {b q : String} {n : Nat}

/-- Calls whose requests only their own bursts respond to have the right answers. -/
lemma Reachable.answers {config : RequestingConfig} (h : Reachable config e start s) :
    ∀ (n : Nat) (b q : String), s.calls[n]? = some ⟨b, some q⟩ → s.Own b q →
      s.Answers config.timeoutMs.toNat n q := by
  induction h with
  | idle =>
    intro n b q hcall
    cases hcall
  | step h hstep ih => exact Answers.step h.sound ih hstep

/-- What a call that became a request is answered, or will be. -/
structure Decided (limit : Nat) (s : Server) (n : Nat) (request : String) : Prop where
  /-- A look at an open call gives the ruling on what happened so far; without one the call waits. -/
  looked : (s.stage n).isOpen = true → ∀ host order, ∃ looked,
    s.look limit host n request order (s.fired n) = some looked ∧
      Call.Gives (ruling order limit n request s.signs) looked.1
  /-- The answer that was given is the ruling on what had happened by then. -/
  answered : ∀ response, s.stage n = .answered response → ∃ order seen, seen <+: s.signs ∧
    ruling order limit n request seen = some response
  /-- A respond before the timer is the answer, with its fields beside the request. -/
  responded : ∀ b args, .responded b request args ∈ early n s.signs →
    ∀ response, s.stage n = .answered response → ∃ payload, response = .ok payload ∧
      payload.get? requestField = none ∧
      ∀ key, key ≠ requestField → payload.get? key = args.get? key
  /-- A failure before the timer, without a respond, is the answer unless the time is up as well. -/
  failed : ∀ failure, (early n s.signs).findSome? (Sign.failure? n) = some failure →
    (∀ b args, .responded b request args ∉ early n s.signs) →
    ∀ response, s.stage n = .answered response → response = Call.failed failure ∨
      s.fired n = true ∧ response = timedOut request limit
  /-- With neither before the timer, the answer is the time-out, or what came before the call looked. -/
  timedOut : (early n s.signs).findSome? (Sign.failure? n) = none →
    (∀ b args, .responded b request args ∉ early n s.signs) →
    ∀ response, s.stage n = .answered response → s.fired n = true ∧
      (response = timedOut request limit ∨
        (∃ b args, .responded b request args ∈ s.signs ∧ response = .ok (payloadOf args)) ∨
        ∃ failure, s.failure? n = some failure ∧ response = Call.failed failure)
  /-- No failure is reported to a call that was given a response. -/
  unreported : ∀ failure, s.stage n = .answered (Call.failed failure) →
    ∀ b args, .responded b request args ∉ s.signs

/--
Whatever happens on a server, and in whatever order, a look at a call that became a request gives the
ruling on what happened by then. A respond before the timer fires is the answer; a failure before it,
too, unless the timer fires before the call looks; and a failure is never the answer if the burst
responded.
-/
theorem answered_by_ruling {config : RequestingConfig} (h : Reachable config e start s)
    (hcall : s.calls[n]? = some ⟨b, some q⟩) (hown : s.Own b q) :
    s.Decided config.timeoutMs.toNat n q := by
  obtain ⟨-, hturn, hanswered⟩ := h.answers n b q hcall hown
  refine ⟨fun hopen host order => ?_, hanswered, fun b' args hmem response hstage => ?_,
    fun failure hfailure hresponded response hstage => ?_,
    fun hfailure hresponded response hstage => ?_, fun failure hstage b' args hmem => ?_⟩
  · exact gives_of_open (h.answers n b q hcall hown) h.sound hcall hown hopen host order
  all_goals obtain ⟨order, seen, hseen, hruling⟩ := hanswered _ hstage
  · refine ⟨payloadOf args, hturn.ruling_of_responded hmem hseen hruling, ?_, fun key hkey => ?_⟩
    · rw [payloadOf, KeyMap.get?_erase, if_pos rfl]
    · rw [payloadOf, KeyMap.get?_erase, if_neg hkey]
  · have hnone := findSome?_payload_eq_none_iff.2 hresponded
    exact hturn.ruling_of_failed hfailure hnone hseen hruling
  · have hnone := findSome?_payload_eq_none_iff.2 hresponded
    obtain ⟨hfired, hlate⟩ := ruling_of_neither hnone hfailure hseen hruling
    refine ⟨hfired, hlate.imp_right (Or.imp_left ?_)⟩
    rintro ⟨payload, hpayload, rfl⟩
    obtain ⟨b', args, hmem, rfl⟩ := exists_of_findSome?_payload hpayload
    exact ⟨b', args, hmem, rfl⟩
  · exact given_ne_none_iff.2 ⟨b', args, hmem⟩ (hturn.payload_of_ruling hseen hruling)

theorem answered_by_ruling_desk : ∃ s, Reachable Desk.config (Desk.engine 2) {} s ∧
    s.calls[0]? = some ⟨"a", some "r"⟩ ∧ s.Own "a" "r" ∧
    s.stage 0 = .answered (.ok (payloadOf Desk.args)) ∧ s.Decided 5 0 "r" := by
  obtain ⟨s, hreachable, hcall, hown, -, hstage⟩ := Desk.answered_responded
  exact ⟨s, hreachable, hcall, hown, hstage, answered_by_ruling hreachable hcall hown⟩

/--
The answer to a call by the order of the signs alone: the response if it came before the timer fired, or
else the failure of the burst if it failed by then, or else the time-out.
-/
def verdict (limit n : Nat) (request : String) (signs : List Sign) : Option Response :=
  (((early n signs).findSome? (Sign.payload? request)).map .ok).or
    ((((early n signs).findSome? (Sign.failure? n)).map Call.failed).or
      (if signs.any (Sign.isTimer n) then some (timedOut request limit) else none))

/-- A call of the desk got this answer, where the order of the signs alone would decide otherwise. -/
def Misses (actions : Nat) (response expected : Response) : Prop :=
  response ≠ expected ∧ ∃ signs, Desk.Answered actions signs response ∧
    verdict 5 0 "r" signs = some expected

open Desk in
/--
The order of the signs alone does not decide. A call whose burst failed before its timer fired is
answered with the time-out; calls whose timer fired first are answered with the response, and with the
failure; and a call that waits at other slots than those of its engine's concept gets no response at
all.
-/
theorem answers_not_by_verdict :
    Misses 1 (timedOut "r" 5) (Call.failed (.budgetExceeded "a" 1)) ∧
    Misses 2 (.ok (payloadOf args)) (timedOut "r" 5) ∧
    Misses 1 (Call.failed (.budgetExceeded "a" 1)) (timedOut "r" 5) ∧
    Call.responded report "r" = true ∧ ∀ order,
      (Call.pollWaiting order true apart 0 ⟨"r", 5, 5, 1⟩).1 = .ready (timedOut "r" 5) := by
  refine ⟨⟨timedOut_ne_failed _ _ _, _, answered_failed_first, rfl⟩,
    ⟨ok_ne_timedOut _ _ _, _, answered_responded_late, rfl⟩,
    ⟨(timedOut_ne_failed _ _ _).symm, _, answered_fired_first, rfl⟩, rfl, fun order => ?_⟩
  cases order <;> rfl

end Server

end Synchrony.Http
