import Synchrony.Http.Call
import Synchrony.Proofs.Slots.Frame

/-!
# Looking at a call

A look at a call concerns the slot of its request only. If it answers the call, the slot is gone; if
not, the slot is left and the call waits (`Call.Leaves`). The answer is what the waiting party sees or
the failure of the burst; if there are both, it is the one that is looked at first
(`Call.gives_pollStarted`, `Call.gives_pollWaiting`).
-/

namespace Synchrony.Http

namespace Call

/-- The failure of the burst of a call, if the burst is over without the response. -/
def failureOf? (h : Host) (task : Nat) (request : String) : Option BurstFailure :=
  (reportOf? h task).bind (failureFor · request)

/--
The call waits for the response to a request, for so long; for the response alone only if its burst
is over and is not the answer.
-/
def Waits (h : Host) (task : Nat) (request : String) (limit : Nat) (call : Call) : Prop :=
  ∃ a : Await, a.request = request ∧ a.limit = limit ∧ (call = .waiting task a ∨
    call = .settling a ∧ (reportOf? h task).isSome ∧ failureOf? h task request = none)

/-- What a look at a call leaves; a call that is not answered leaves slots like `left`. -/
structure Leaves (h : Host) (task : Nat) (request : String) (limit : Nat) (left : Slots → Prop)
    (looked : Poll Call Response × Host) : Prop where
  others : h.world.resources.slots.AgreeBut request looked.2.world.resources.slots
  ready : ∀ response, looked.1 = .ready response →
    looked.2.world.resources.slots.live.get? request = none
  pending : ∀ call, looked.1 = .pending call →
    call.Waits h task request limit ∧ left looked.2.world.resources.slots

variable {task : Nat} {request : String} {limit : Nat} {left : Slots → Prop} {h : Host} {a : Await}
  {timeUp : Bool} {looked : Poll Call Response × Host}

/-! ### What a look leaves -/

lemma leaves_of_ready {response : Response} {h' : Host}
    (hothers : h.world.resources.slots.AgreeBut request h'.world.resources.slots)
    (hgone : h'.world.resources.slots.live.get? request = none) :
    Leaves h task request limit left (.ready response, h') :=
  ⟨hothers, fun _ _ => hgone, fun _ hpending => (nomatch hpending)⟩

lemma leaves_of_pending {call : Call} (hwaits : call.Waits h task request limit) :
    Leaves h task request limit (· = h.world.resources.slots) (.pending call, h) := by
  refine ⟨.refl _ _, fun _ hready => (nomatch hready), fun call' hpending => ?_⟩
  cases hpending
  exact ⟨hwaits, rfl⟩

lemma leaves_of_pollResponse (hlook : pollResponse timeUp h a = some looked) :
    Leaves h task a.request limit left looked := by
  obtain ⟨⟨outcome, world⟩, houtcome, rfl⟩ := Option.map_eq_some_iff.1 hlook
  obtain ⟨⟨outcome', slots⟩, hslots, heq⟩ := Option.map_eq_some_iff.1 houtcome
  cases heq
  have hended : slots = h.world.resources.slots.endAwait a.request := by
    unfold Slots.pollAwait at hslots
    repeat' split at hslots
    all_goals first | cases hslots; rfl | cases hslots
  subst hended
  exact leaves_of_ready ((Slots.agreeBut_endAwait _ _).trans (Slots.agreeBut_abandon _ _))
    Slots.get?_live_abandon_self

lemma leaves_pollSettling (hover : (reportOf? h task).isSome)
    (hfailure : failureOf? h task a.request = none) :
    Leaves h task a.request a.limit (· = h.world.resources.slots) (pollSettling timeUp h a) := by
  unfold pollSettling
  cases hlook : pollResponse timeUp h a with
  | none => exact leaves_of_pending ⟨a, rfl, rfl, .inr ⟨rfl, hover, hfailure⟩⟩
  | some looked => exact leaves_of_pollResponse hlook

lemma leaves_of_pollBurst (hlook : pollBurst timeUp h task a = some looked) :
    Leaves h task a.request a.limit (· = h.world.resources.slots) looked := by
  obtain ⟨report, hreport, rfl⟩ := Option.map_eq_some_iff.1 hlook
  split
  · exact leaves_of_ready ((Slots.agreeBut_stopAwait _ _).trans (Slots.agreeBut_abandon _ _))
      Slots.get?_live_abandon_self
  · rename_i hfailure
    exact leaves_pollSettling (by rw [hreport]; rfl) (by rw [failureOf?, hreport]; exact hfailure)

lemma leaves_pollWaiting (order : Order) :
    Leaves h task a.request a.limit (· = h.world.resources.slots)
      (pollWaiting order timeUp h task a) := by
  have hpending : Leaves h task a.request a.limit (· = h.world.resources.slots)
      (.pending (.waiting task a), h) := leaves_of_pending ⟨a, rfl, rfl, .inl rfl⟩
  unfold pollWaiting
  cases hresponse : pollResponse timeUp h a with
  | none =>
    cases hburst : pollBurst timeUp h task a with
    | none => cases order <;> exact hpending
    | some looked => cases order <;> exact leaves_of_pollBurst hburst
  | some looked =>
    cases hburst : pollBurst timeUp h task a with
    | none => cases order <;> exact leaves_of_pollResponse hresponse
    | some looked' =>
      cases order with
      | response => exact leaves_of_pollResponse hresponse
      | burst => exact leaves_of_pollBurst hburst

/-- A call whose wait can begin waits. -/
lemma exists_beginWaiting (task limit : Nat) {slots : Slots}
    (hbegin : h.world.resources.slots.beginAwait 0 request = .ok slots) :
    ∃ (h' : Host) (a : Await), h'.world.resources.slots = slots ∧ h'.outcomes = h.outcomes ∧
      a.request = request ∧ a.limit = limit ∧ ∀ order timeUp,
        beginWaiting order timeUp limit h task request = pollWaiting order timeUp h' task a := by
  simp only [beginWaiting, World.beginAwait, hbegin]
  refine ⟨_, _, ?_, ?_, ?_, ?_, fun _ _ => rfl⟩ <;> rfl

lemma reportOf?_congr {h' : Host} (houtcomes : h'.outcomes = h.outcomes) (task : Nat) :
    reportOf? h' task = reportOf? h task := by
  rw [reportOf?, reportOf?, Host.outcome?, Host.outcome?, houtcomes]

lemma failureOf?_congr {h' : Host} (houtcomes : h'.outcomes = h.outcomes) (task : Nat)
    (request : String) : failureOf? h' task request = failureOf? h task request := by
  rw [failureOf?, failureOf?, reportOf?_congr houtcomes]

/-- A call goes on waiting while bursts end. -/
lemma Waits.mono {h' : Host} {call : Call} (hwaits : call.Waits h task request limit)
    (hreports : ∀ report, reportOf? h task = some report → reportOf? h' task = some report) :
    call.Waits h' task request limit := by
  obtain ⟨a, hrequest, hlimit, hwaiting | ⟨hsettling, hover, hfailure⟩⟩ := hwaits
  · exact ⟨a, hrequest, hlimit, .inl hwaiting⟩
  · obtain ⟨report, hreport⟩ := Option.isSome_iff_exists.1 hover
    refine ⟨a, hrequest, hlimit, .inr ⟨hsettling, ?_, ?_⟩⟩
    · rw [hreports report hreport]
      rfl
    · rwa [failureOf?, hreports report hreport, ← hreport]

lemma leaves_beginWaiting (order : Order) :
    Leaves h task request limit (h.world.resources.slots.beginAwait 0 request = .ok ·)
      (beginWaiting order timeUp limit h task request) := by
  cases hbegin : h.world.resources.slots.beginAwait 0 request with
  | error e =>
    rw [beginWaiting, World.beginAwait, hbegin]
    exact leaves_of_ready (Slots.agreeBut_abandon _ _) Slots.get?_live_abandon_self
  | ok slots =>
    obtain ⟨h', a, rfl, houtcomes, rfl, rfl, hwaiting⟩ := exists_beginWaiting task limit hbegin
    obtain ⟨hothers, hready, hpending⟩ := leaves_pollWaiting order
    rw [hwaiting order timeUp]
    refine ⟨(Slots.agreeBut_beginAwait hbegin).trans hothers, hready, fun call hcall => ?_⟩
    obtain ⟨hwaits, hleft⟩ := hpending call hcall
    refine ⟨hwaits.mono fun report hreport => ?_, by rw [hleft]⟩
    rwa [reportOf?_congr houtcomes] at hreport

lemma leaves_pollStarted (order : Order) :
    Leaves h task request limit (h.world.resources.slots.beginAwait 0 request = .ok ·)
      (pollStarted order timeUp limit h task request) := by
  unfold pollStarted
  cases order with
  | response => exact leaves_beginWaiting _
  | burst =>
    dsimp only
    split
    · exact leaves_of_ready (Slots.agreeBut_abandon _ _) Slots.get?_live_abandon_self
    · exact leaves_beginWaiting _

/-- What dropping a waiting call leaves. -/
lemma drop_of_waits {call : Call} (hwaits : call.Waits h task request limit) (h' : Host) :
    h'.world.resources.slots.AgreeBut request (call.drop h').world.resources.slots ∧
      (call.drop h').world.resources.slots.live.get? request = none := by
  obtain ⟨a, rfl, -, rfl | ⟨rfl, -⟩⟩ := hwaits
  all_goals exact ⟨(Slots.agreeBut_stopAwait _ _).trans (Slots.agreeBut_abandon _ _),
      Slots.get?_live_abandon_self⟩

/-! ### What a look gives -/

/-- The look gives this answer, or the call goes on waiting. -/
def Gives (answer : Option Response) (looked : Poll Call Response) : Prop :=
  match answer with
  | some response => looked = .ready response
  | none => ∃ call, looked = .pending call

/-- The answer to a call whose burst failed. -/
def failed (failure : BurstFailure) : Response := (ServerError.burst failure).response

/-- The answer for what a waiting party sees and for the failure of the burst. -/
def answer? (order : Order) (request : String) (limit : Nat) (timeUp : Bool) (sees : Delivery)
    (failure : Option BurstFailure) : Option Response :=
  let outcome := (Slots.outcome? request limit timeUp sees).map awaited
  match order with
  | .response => outcome.or (failure.map failed)
  | .burst => (failure.map failed).or outcome

/-- If the burst did not fail, the order does not matter. -/
lemma answer?_none (order : Order) (request : String) (limit : Nat) (timeUp : Bool)
    (sees : Delivery) : answer? order request limit timeUp sees none =
      (Slots.outcome? request limit timeUp sees).map awaited := by
  cases order with
  | response => exact Option.or_none
  | burst => rfl

variable {w : Waiting}

lemma pollResponse_eq (timeUp : Bool)
    (hw : h.world.resources.slots.waiting.get? a.request = some w) :
    (pollResponse timeUp h a).map Prod.fst =
      (Slots.outcome? a.request a.limit timeUp w.sees).map fun outcome => .ready (awaited outcome) := by
  rw [pollResponse, World.pollAwait, Slots.pollAwait_eq hw]
  cases Slots.outcome? a.request a.limit timeUp w.sees <;> rfl

lemma gives_getD (order : Order) (hw : h.world.resources.slots.waiting.get? a.request = some w)
    (call : Call) : Gives (answer? order a.request a.limit timeUp w.sees none)
      ((pollResponse timeUp h a).getD (.pending call, h)).1 := by
  have hresponse := pollResponse_eq timeUp hw
  rw [answer?_none]
  cases houtcome : Slots.outcome? a.request a.limit timeUp w.sees with
  | none =>
    rw [houtcome, Option.map_none, Option.map_eq_none_iff] at hresponse
    rw [hresponse]
    exact ⟨call, rfl⟩
  | some outcome =>
    rw [houtcome] at hresponse
    obtain ⟨looked, hlooked, hready⟩ := Option.map_eq_some_iff.1 hresponse
    rw [hlooked]
    exact hready

lemma gives_pollWaiting (order : Order)
    (hw : h.world.resources.slots.waiting.get? a.request = some w) :
    Gives (answer? order a.request a.limit timeUp w.sees (failureOf? h task a.request))
      (pollWaiting order timeUp h task a).1 := by
  cases hreport : reportOf? h task with
  | none =>
    have hburst : pollBurst timeUp h task a = none := by rw [pollBurst, hreport, Option.map_none]
    have hwaiting : pollWaiting order timeUp h task a =
        (pollResponse timeUp h a).getD (.pending (.waiting task a), h) := by
      cases order <;> simp [pollWaiting, hburst]
    rw [hwaiting, failureOf?, hreport]
    exact gives_getD order hw _
  | some report =>
    cases hfailure : failureFor report a.request with
    | none =>
      have hburst : pollBurst timeUp h task a = some (pollSettling timeUp h a) := by
        rw [pollBurst, hreport, Option.map_some, hfailure]
      have hsettling : pollWaiting order timeUp h task a = pollSettling timeUp h a := by
        cases order <;> cases hresponse : pollResponse timeUp h a <;>
          simp [pollWaiting, hburst, hresponse, pollSettling]
      rw [hsettling, failureOf?, hreport, Option.bind_some, hfailure]
      exact gives_getD order hw _
    | some failure =>
      rw [failureOf?, hreport, Option.bind_some, hfailure]
      have hresponse := pollResponse_eq timeUp hw
      cases order with
      | burst => simp [pollWaiting, pollBurst, hreport, hfailure, answer?, Gives, failed]
      | response =>
        cases houtcome : Slots.outcome? a.request a.limit timeUp w.sees with
        | none =>
          rw [houtcome, Option.map_none, Option.map_eq_none_iff] at hresponse
          simp [pollWaiting, pollBurst, hresponse, hreport, hfailure, answer?, houtcome, Gives, failed]
        | some outcome =>
          rw [houtcome] at hresponse
          obtain ⟨looked, hlooked, hready⟩ := Option.map_eq_some_iff.1 hresponse
          simpa [pollWaiting, hlooked, answer?, houtcome, Gives] using hready

lemma gives_beginWaiting (order : Order) {slot : Slot}
    (hslot : h.world.resources.slots.live.get? request = some slot)
    (hawaited : slot.awaited = false) :
    Gives (answer? order request limit timeUp (Account.seenIn slot) (failureOf? h task request))
      (beginWaiting order timeUp limit h task request).1 := by
  have hbegin := Slots.beginAwait_of_some hslot 0
  rw [hawaited, if_neg Bool.false_ne_true] at hbegin
  obtain ⟨h', a, hslots, houtcomes, rfl, rfl, hwaiting⟩ := exists_beginWaiting task limit hbegin
  rw [← failureOf?_congr houtcomes, hwaiting order timeUp]
  have hw : h'.world.resources.slots.waiting.get? a.request = some ⟨0, Account.seenIn slot⟩ := by
    rw [hslots, KeyMap.get?_insert_self]
  exact gives_pollWaiting order hw

lemma gives_pollStarted (order : Order) {slot : Slot}
    (hslot : h.world.resources.slots.live.get? request = some slot)
    (hawaited : slot.awaited = false) :
    Gives (answer? order request limit timeUp (Account.seenIn slot) (failureOf? h task request))
      (pollStarted order timeUp limit h task request).1 := by
  cases order with
  | response => exact gives_beginWaiting .response hslot hawaited
  | burst =>
    have hgives : Gives _ (beginWaiting .burst timeUp limit h task request).1 :=
      gives_beginWaiting .burst hslot hawaited
    rw [pollStarted]
    cases hfailure : failureOf? h task request with
    | none =>
      rw [hfailure] at hgives
      rw [failureOf?] at hfailure
      rw [hfailure]
      exact hgives
    | some failure =>
      rw [failureOf?] at hfailure
      rw [hfailure]
      rfl

end Call

end Synchrony.Http
