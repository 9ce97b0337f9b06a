import Synchrony.Proofs.Http.Requests

/-!
# At most one respond for each request

A respond that is about to send took the right to respond, which a slot gives once. So at most one
respond is under way for a request, and none any more after one succeeded (`Server.Single`).
-/

namespace Synchrony.Http

open Requesting

/-- The response that a request got. -/
def Sign.payload? (q : String) : Sign → Option Fields
  | responded _ id args => if id = q then some (payloadOf args) else none
  | _ => none

section Signs

variable {q : String} {signs : List Sign}

lemma exists_of_findSome?_payload {payload : Fields}
    (h : signs.findSome? (Sign.payload? q) = some payload) :
    ∃ b args, .responded b q args ∈ signs ∧ payload = payloadOf args := by
  obtain ⟨sign, hsign, hpayload⟩ := List.exists_of_findSome?_eq_some h
  cases sign with
  | responded b id args =>
    rw [Sign.payload?] at hpayload
    split at hpayload
    · rename_i heq
      exact ⟨b, args, heq ▸ hsign, (Option.some.inj hpayload).symm⟩
    · cases hpayload
  | _ => cases hpayload

lemma findSome?_payload_eq_none_iff :
    signs.findSome? (Sign.payload? q) = none ↔ ∀ b args, .responded b q args ∉ signs := by
  constructor
  · intro hnone b args hmem
    have hgiven := List.findSome?_eq_none_iff.1 hnone _ hmem
    rw [Sign.payload?, if_pos rfl] at hgiven
    cases hgiven
  · intro hnot
    by_contra hsome
    obtain ⟨payload, hpayload⟩ := Option.ne_none_iff_exists'.1 hsome
    obtain ⟨b, args, hmem, -⟩ := exists_of_findSome?_payload hpayload
    exact hnot b args hmem

end Signs

namespace Server

/-- The response that a request got. -/
def given (s : Server) (q : String) : Option Fields := s.signs.findSome? (Sign.payload? q)

/-- A respond took the right to respond, or even sent. -/
def Taken (s : Server) (id : String) : Prop :=
  s.given id ≠ none ∨ ∃ b args, s.underway.get? b = some (.sending id args)

/-- The right to respond is taken once. -/
structure Single (s : Server) : Prop where
  one : ∀ b b' id args args', s.underway.get? b = some (.sending id args) →
    s.underway.get? b' = some (.sending id args') → b = b'
  unsent : ∀ b id args, s.underway.get? b = some (.sending id args) → s.given id = none
  free : ∀ id slot, s.slots.live.get? id = some slot → slot.answered = false → ¬ s.Taken id
  used : ∀ id, s.slots.live.contains id = true ∨ s.Taken id → id ∈ s.used

variable {e : Engine Concept} {s s' : Server} {b q id : String} {n limit : Nat}

lemma given_append {signs : List Sign} (hsigns : s'.signs = s.signs ++ signs)
    (hnone : ∀ sign ∈ signs, sign.payload? q = none) : s'.given q = s.given q := by
  rw [given, hsigns, List.findSome?_append, List.findSome?_eq_none_iff.2 hnone, Option.or_none, given]

lemma given_ne_none_iff : s.given q ≠ none ↔ ∃ b args, .responded b q args ∈ s.signs := by
  rw [given, Ne, findSome?_payload_eq_none_iff]
  push Not
  exact Iff.rfl

namespace Single

lemma idle (e : Engine Concept) (slots : Slots) : (Server.idle e slots).Single := by
  have hnone (id : String) : ¬ (Server.idle e slots).Taken id := by
    simp [Taken, Server.idle, given]
  refine ⟨?_, ?_, fun id slot _ _ => hnone id, fun id hid => ?_⟩
  · simp [Server.idle]
  · simp [Server.idle]
  · exact KeyMap.mem_keys_iff.2 (hid.resolve_right (hnone id))

/-- Nothing is taken and nothing becomes free. -/
private lemma congr (h : s.Single)
    (hunderway : ∀ b id args, s'.underway.get? b = some (.sending id args) →
      s.underway.get? b = some (.sending id args))
    (hgiven : ∀ id, s'.given id = s.given id)
    (hslots : ∀ id slot', s'.slots.live.get? id = some slot' →
      ∃ slot, s.slots.live.get? id = some slot ∧ slot.answered = slot'.answered)
    (hused : s'.used = s.used) : s'.Single := by
  have htaken {id : String} (hid : s'.Taken id) : s.Taken id := by
    rcases hid with hid | ⟨b, args, hsending⟩
    · exact .inl (hgiven id ▸ hid)
    · exact .inr ⟨b, args, hunderway b id args hsending⟩
  refine ⟨fun b b' id args args' hb hb' => ?_, fun b id args hb => ?_, fun id slot' hslot' hfree => ?_,
    fun id hid => ?_⟩
  · exact h.one b b' id args args' (hunderway b id args hb) (hunderway b' id args' hb')
  · rw [hgiven]
    exact h.unsent b id args (hunderway b id args hb)
  · obtain ⟨slot, hslot, hanswered⟩ := hslots id slot' hslot'
    exact fun hid => h.free id slot hslot (hanswered.trans hfree) (htaken hid)
  · rw [hused]
    refine h.used id (hid.imp (fun hlive => ?_) htaken)
    obtain ⟨slot', hslot'⟩ := KeyMap.contains_iff.1 hlive
    obtain ⟨slot, hslot, -⟩ := hslots id slot' hslot'
    exact KeyMap.contains_iff.2 ⟨slot, hslot⟩

/-- A request is issued. -/
private lemma request (h : s.Single) (hfresh : id ∉ s.used)
    (hunderway : ∀ b id args, s'.underway.get? b = some (.sending id args) →
      s.underway.get? b = some (.sending id args))
    (hsigns : s'.signs = s.signs ++ [.issued b id]) (hslots : s'.slots = s.slots.request id)
    (hused : s'.used = id :: s.used) : s'.Single := by
  have hgiven (id' : String) : s'.given id' = s.given id' :=
    given_append hsigns (List.forall_mem_singleton.2 rfl)
  have htaken {id' : String} (hid' : s'.Taken id') : s.Taken id' := by
    rcases hid' with hid' | ⟨b', args, hsending⟩
    · exact .inl (hgiven id' ▸ hid')
    · exact .inr ⟨b', args, hunderway b' id' args hsending⟩
  refine ⟨fun b b' id args args' hb hb' => ?_, fun b' id' args hb => ?_,
    fun id' slot hslot hfree hid' => ?_, fun id' hid' => ?_⟩
  · exact h.one b b' id args args' (hunderway b id args hb) (hunderway b' id args' hb')
  · rw [hgiven]
    exact h.unsent b' id' args (hunderway b' id' args hb)
  · by_cases heq : id' = id
    · exact hfresh (heq ▸ h.used id' (.inr (htaken hid')))
    · rw [hslots, (s.slots.agreeBut_request id id' heq).1] at hslot
      exact h.free id' slot hslot hfree (htaken hid')
  · rw [hused]
    by_cases heq : id' = id
    · exact List.mem_cons.2 (.inl heq)
    · refine List.mem_cons_of_mem _ (h.used id' (hid'.imp (fun hlive => ?_) htaken))
      rw [hslots, Slots.contains_request] at hlive
      simpa [heq] using hlive

/-- A respond takes the right to respond. -/
private lemma took (h : s.Single) {args : Fields} {slots : Slots}
    (hidle : s.underway.get? b = none) (htake : s.slots.take id = .ok slots) :
    Single { s with slots, underway := s.underway.insert b (.sending id args) } := by
  obtain ⟨slot, hslot, hanswered, rfl⟩ := Slots.take_eq_ok htake
  have hfree := h.free id slot hslot hanswered
  have hcases {b' id' : String} {args' : Fields} (hsending :
      (s.underway.insert b (.sending id args)).get? b' = some (.sending id' args')) :
      b' = b ∧ id' = id ∨ b' ≠ b ∧ id' ≠ id ∧ s.underway.get? b' = some (.sending id' args') := by
    rw [KeyMap.get?_insert] at hsending
    split at hsending
    · rename_i heq
      cases hsending
      exact .inl ⟨heq, rfl⟩
    · rename_i hne
      refine .inr ⟨hne, ?_, hsending⟩
      rintro rfl
      exact hfree (.inr ⟨b', args', hsending⟩)
  refine ⟨fun b₁ b₂ id' args₁ args₂ h₁ h₂ => ?_, fun b' id' args' hsending => ?_,
    fun id' slot' hslot' hfree' hid' => ?_, fun id' hid' => ?_⟩
  · rcases hcases h₁ with ⟨rfl, hid₁⟩ | ⟨-, hid₁, h₁⟩ <;>
      rcases hcases h₂ with ⟨rfl, hid₂⟩ | ⟨-, hid₂, h₂⟩
    · rfl
    · exact absurd hid₁ hid₂
    · exact absurd hid₂ hid₁
    · exact h.one b₁ b₂ id' args₁ args₂ h₁ h₂
  · rcases hcases hsending with ⟨-, rfl⟩ | ⟨-, -, hsending⟩
    · exact not_not.1 fun hne => hfree (.inl hne)
    · exact h.unsent b' id' args' hsending
  · change (s.slots.live.insert id { slot with answered := true }).get? id' = some slot' at hslot'
    rw [KeyMap.get?_insert] at hslot'
    split at hslot'
    · cases hslot'
      cases hfree'
    · rename_i hne
      rcases hid' with hgiven | ⟨b', args', hsending⟩
      · exact h.free id' slot' hslot' hfree' (.inl hgiven)
      · rcases hcases hsending with ⟨-, heq⟩ | ⟨-, -, hsending⟩
        · exact hne heq
        · exact h.free id' slot' hslot' hfree' (.inr ⟨b', args', hsending⟩)
  · have hused : id ∈ s.used := h.used id (.inl (KeyMap.contains_iff.2 ⟨slot, hslot⟩))
    by_cases heq : id' = id
    · exact heq ▸ hused
    · refine h.used id' (hid'.imp (fun hlive => ?_) fun htaken => ?_)
      · rwa [Slots.contains_take htake] at hlive
      · rcases htaken with hgiven | ⟨b', args', hsending⟩
        · exact .inl hgiven
        · rcases hcases hsending with ⟨-, hid⟩ | ⟨-, -, hsending⟩
          · exact absurd hid heq
          · exact .inr ⟨b', args', hsending⟩

/-- A respond sends. -/
private lemma sent (h : s.Single) {args : Fields}
    (hsending : s.underway.get? b = some (.sending id args)) :
    Single { s with
      slots := s.slots.send id (payloadOf args)
      underway := s.underway.insert b (.returned (named id))
      signs := s.signs ++ [.responded b id args] } := by
  have htaken : s.Taken id := .inr ⟨b, args, hsending⟩
  have hcases {b' id' : String} {args' : Fields} (hb' :
      (s.underway.insert b (.returned (named id))).get? b' = some (.sending id' args')) :
      id' ≠ id ∧ s.underway.get? b' = some (.sending id' args') := by
    rw [KeyMap.get?_insert] at hb'
    split at hb'
    · cases hb'
    · rename_i hne
      refine ⟨?_, hb'⟩
      rintro rfl
      exact hne (h.one b' b id' args' args hb' hsending)
  have hgiven {id' : String} (hne : id' ≠ id) :
      (s.signs ++ [Sign.responded b id args]).findSome? (Sign.payload? id') = s.given id' := by
    rw [List.findSome?_append, given]
    simp [Sign.payload?, Ne.symm hne]
  have hback {id' : String} (hid' : Taken { s with
      slots := s.slots.send id (payloadOf args)
      underway := s.underway.insert b (.returned (named id))
      signs := s.signs ++ [.responded b id args] } id') : s.Taken id' := by
    by_cases heq : id' = id
    · exact heq ▸ htaken
    · rcases hid' with hid' | ⟨b', args', hb'⟩
      · exact .inl fun hnone => hid' ((hgiven heq).trans hnone)
      · exact .inr ⟨b', args', (hcases hb').2⟩
  refine ⟨fun b₁ b₂ id' args₁ args₂ h₁ h₂ => ?_, fun b' id' args' hb' => ?_,
    fun id' slot' hslot' hfree' hid' => ?_, fun id' hid' => ?_⟩
  · exact h.one b₁ b₂ id' args₁ args₂ (hcases h₁).2 (hcases h₂).2
  · obtain ⟨hne, hb'⟩ := hcases hb'
    exact (hgiven hne).trans (h.unsent b' id' args' hb')
  · change (s.slots.send id (payloadOf args)).live.get? id' = some slot' at hslot'
    rw [Slots.get?_live_send] at hslot'
    split at hslot'
    · obtain ⟨slot, hslot, rfl⟩ := Option.map_eq_some_iff.1 hslot'
      exact h.free id slot hslot hfree' htaken
    · exact h.free id' slot' hslot' hfree' (hback hid')
  · refine h.used id' (hid'.imp (fun hlive => ?_) hback)
    rwa [Slots.contains_send] at hlive

/-- A look at a call takes no right to respond. -/
private lemma live_of_look {h h' : Host} {order : Order} {timeUp : Bool} {p : Poll Call Response}
    (hpolled : ∀ call, s.stage n = .polled call → call.Waits s.host n q limit)
    (hlook : s.look limit h n q order timeUp = some (p, h')) (id : String) (slot' : Slot)
    (hslot' : h'.world.resources.slots.live.get? id = some slot') :
    ∃ slot, s.slots.live.get? id = some slot ∧ slot.answered = slot'.answered := by
  have hleaves := leaves_of_look hpolled hlook
  by_cases heq : id = q
  · subst heq
    cases p with
    | ready response => exact absurd ((hleaves.ready response rfl).symm.trans hslot') nofun
    | pending call =>
      obtain ⟨-, hleft⟩ := hleaves.pending call rfl
      rcases beginAwait_or_eq_of_left hleft with ⟨-, hbegin⟩ | ⟨-, heq⟩
      · obtain ⟨slot, hslot, -, hslots⟩ := Slots.beginAwait_eq_ok hbegin
        rw [hslots, KeyMap.get?_insert_self] at hslot'
        cases hslot'
        exact ⟨slot, hslot, rfl⟩
      · rw [heq] at hslot'
        exact ⟨slot', hslot', rfl⟩
  · rw [(hleaves.others id heq).1] at hslot'
    exact ⟨slot', hslot', rfl⟩

lemma advance (h : s.Single) (hstep : Advance b s s') : s'.Single := by
  have hslots (id : String) (slot : Slot) (hslot : s.slots.live.get? id = some slot) :
      ∃ slot', s.slots.live.get? id = some slot' ∧ slot'.answered = slot.answered :=
    ⟨slot, hslot, rfl⟩
  have hinsert (output : Fields) (b' id : String) (args : Fields)
      (hsending : (s.underway.insert b (.returned output)).get? b' = some (.sending id args)) :
      s.underway.get? b' = some (.sending id args) := by
    rw [KeyMap.get?_insert] at hsending
    split at hsending
    · cases hsending
    · exact hsending
  cases hstep with
  | request hcalled hidle hfresh => exact h.request hfresh (hinsert _) rfl rfl rfl
  | unaddressed hcalled hidle haddressee =>
    exact h.congr (hinsert _) (fun _ => rfl) hslots rfl
  | refused hcalled hidle haddressee htake => exact h.congr (hinsert _) (fun _ => rfl) hslots rfl
  | took hcalled hidle haddressee htake => exact h.took hidle htake
  | sent hsending => exact h.sent hsending
  | returned hreturned htraffic =>
    refine h.congr (fun b' id args hsending => ?_) (fun _ => rfl) hslots rfl
    change (s.underway.erase b).get? b' = _ at hsending
    rw [KeyMap.get?_erase] at hsending
    split at hsending
    · cases hsending
    · exact hsending
  | answered hcalled hidle hother htraffic =>
    exact h.congr (fun _ _ _ => id) (fun _ => rfl) hslots rfl
  | goes hmove htraffic => exact h.congr (fun _ _ _ => id) (fun _ => rfl) hslots rfl

theorem step {config : RequestingConfig} (h : s.Single) (hserved : s.Served config.timeoutMs.toNat)
    (hstep : Step config s s') : s'.Single := by
  have hslots (id : String) (slot : Slot) (hslot : s.slots.live.get? id = some slot) :
      ∃ slot', s.slots.live.get? id = some slot' ∧ slot'.answered = slot.answered :=
    ⟨slot, hslot, rfl⟩
  have hgiven {sign : Sign} (hsign : ∀ id, sign.payload? id = none) (id : String) :
      (s.signs ++ [sign]).findSome? (Sign.payload? id) = s.given id := by
    rw [List.findSome?_append, given]
    simp [hsign]
  cases hstep with
  | direct hbody haction htraffic => exact h.congr (fun _ _ _ => id) (fun _ => rfl) hslots rfl
  | routed hbody haction hopening hfresh htraffic =>
    exact h.request hfresh (fun _ _ _ => id) rfl rfl rfl
  | advance hgoes hadvance => exact h.advance hadvance
  | finish hcall hgoing hreport =>
    refine h.congr (fun _ _ _ => id) (hgiven fun _ => rfl) (fun id slot hslot => ?_) rfl
    rw [Slots.get?_live_release] at hslot
    split at hslot
    · cases hslot
    · exact hslots id slot hslot
  | reply hcall hstage hreport =>
    exact h.congr (fun _ _ _ => id) (hgiven fun _ => rfl) hslots rfl
  | poll hcall hlook =>
    exact h.congr (fun _ _ _ => id) (fun _ => rfl)
      (live_of_look (hserved.polled _ _ _ · hcall) hlook) rfl
  | timer hcall hopen hrunning =>
    exact h.congr (fun _ _ _ => id) (hgiven fun _ => rfl) hslots rfl
  | @drop n b q call host hcall hstage =>
    obtain ⟨hothers, hgone⟩ := Call.drop_of_waits (hserved.polled n b q call hcall hstage) (s.on host)
    refine h.congr (fun _ _ _ => id) (fun _ => rfl) (fun id slot hslot => ?_) rfl
    by_cases heq : id = q
    · rw [heq] at hslot
      exact absurd (hgone.symm.trans hslot) nofun
    · exact hslots id slot ((hothers id heq).1.symm.trans hslot)
  | hangUp hcall hstage => exact h.congr (fun _ _ _ => id) (fun _ => rfl) hslots rfl

end Single

/-! ### Servers in order -/

/-- Everything on the server fits together. -/
structure Sound (limit : Nat) (e : Engine Concept) (start : Slots) (s : Server) : Prop where
  told : s.Told e
  served : s.Served limit
  issues : s.Issues start
  single : s.Single

variable {start : Slots}

/-- Whatever happens on a server, everything fits together. -/
theorem Reachable.sound {config : RequestingConfig} (h : Reachable config e start s) :
    s.Sound config.timeoutMs.toNat e start := by
  induction h with
  | idle => exact ⟨.idle e start, .idle e start, .idle e start, .idle e start⟩
  | step h hstep ih =>
    exact ⟨ih.told.step hstep, ih.served.step ih.told hstep, ih.issues.step hstep,
      ih.single.step ih.served hstep⟩

namespace Sound

variable {m : Nat} {b' : String}

/-- A call's request was issued in its burst. -/
lemma issued_of_call (h : s.Sound limit e start) (hcall : s.calls[n]? = some ⟨b, some q⟩) :
    .issued b q ∈ s.signs := by
  obtain ⟨args, rest, hroot⟩ := h.served.root n b q hcall
  exact h.told.issued_mem_iff.2 ⟨_, by rw [hroot]; exact List.mem_cons_self, rfl, string?_named q⟩

lemma used_of_call (h : s.Sound limit e start) (hcall : s.calls[n]? = some ⟨b, some q⟩) :
    q ∈ s.used :=
  h.issues.used q (mem_issued_iff.2 ⟨b, h.issued_of_call hcall⟩)

/-- Calls have requests of their own. -/
lemma request_unique (h : s.Sound limit e start) (hn : s.calls[n]? = some ⟨b, some q⟩)
    (hm : s.calls[m]? = some ⟨b', some q⟩) : n = m :=
  h.served.distinct n m _ _ hn hm
    (h.issues.burst_unique (h.issued_of_call hn) (h.issued_of_call hm))

/-- What a burst forgets when it is over is not the request of a call. -/
lemma not_mem_nestedRequests (h : s.Sound limit e start) (hn : s.calls[n]? = some ⟨b, some q⟩)
    {q' : String} (hm : s.calls[m]? = some ⟨b', some q'⟩) {report : Report}
    (hreport : s.traffic.report? b' = some report) : q ∉ report.nestedRequests := by
  rw [mem_nestedRequests_of_call_iff h.told h.served h.issues hm hreport]
  rintro ⟨hissued, hne⟩
  have heq := h.issues.burst_unique (h.issued_of_call hn) hissued
  have hsame := h.served.distinct n m _ _ hn hm heq
  subst hsame
  cases hn.symm.trans hm
  exact hne rfl

end Sound

end Server

end Synchrony.Http
