import Synchrony.Proofs.Slots.Exchange

/-!
# The account of one request

Steps about different requests do not touch each other, so what concerns one request is kept apart in
an `Account`: its slot, the party that waits, the responses about to be sent, and what happened to it.
`Account.Ordered` ties these together; each way a step can change an account keeps it
(`Ordered.issue`, `Ordered.take`, …).
-/

namespace Synchrony

open Requesting

/-- What a waiting party sees after being told what became of its slot. -/
def Waiting.tell (seen : Delivery) (w : Waiting) : Waiting :=
  match w.sees with
  | .pending => { w with sees := seen }
  | _ => w

@[simp] lemma Waiting.process_tell (seen : Delivery) (w : Waiting) :
    (w.tell seen).process = w.process := by
  unfold tell
  split <;> rfl

/-- What concerns one request. -/
structure Account where
  slot : Option Slot := none
  waiting : Option Waiting := none
  sending : List Fields := []
  awaits : List Nat := []
  issued : Bool := false
  forgotten : Bool := false
  known : Bool := false
  accepted : List Fields := []
  begun : List Nat := []
  ended : List (Except RequestError Fields) := []
  cancelled : List Nat := []

namespace Account

/-! ### Changes -/

/-- The request is issued. -/
def issue (a : Account) : Account := { a with slot := some {}, issued := true, known := true }

/-- A respond takes the right to respond. -/
def take (a : Account) (input : Fields) : Account :=
  { a with
    slot := a.slot.map fun slot => { slot with answered := true }
    sending := a.sending ++ [input] }

/-- The first response that is about to be sent is sent. -/
def send (a : Account) (input : Fields) : Account :=
  { a with
    slot := a.slot.map fun slot => { slot with response := some (payloadOf input) }
    waiting := a.waiting.map (Waiting.tell (.delivered (payloadOf input)))
    sending := a.sending.tail
    accepted := a.accepted ++ [input] }

/-- What a process that begins to wait sees. -/
def seenIn (slot : Slot) : Delivery :=
  match slot.response with
  | some payload => .delivered payload
  | none => .pending

/-- A process begins to wait. -/
def begin (a : Account) (process : Nat) : Account :=
  { a with
    slot := a.slot.map fun slot => { slot with awaited := true }
    waiting := a.slot.map fun slot => ⟨process, seenIn slot⟩
    awaits := a.awaits ++ [process]
    begun := a.begun ++ [process] }

/-- A process gets an outcome, and the request is forgotten. -/
def finish (a : Account) (process : Nat) (outcome : Except RequestError Fields) : Account :=
  { a with
    slot := none
    waiting := none
    awaits := a.awaits.erase process
    known := false
    ended := a.ended ++ [outcome] }

/-- A process gives up waiting. -/
def cancel (a : Account) (process : Nat) : Account :=
  { a with
    waiting := none
    awaits := a.awaits.erase process
    cancelled := a.cancelled ++ [process] }

/-- What a waiting party sees of a slot that is forgotten. -/
def tellForgotten (slot : Option Slot) (w : Waiting) : Waiting :=
  match slot with
  | some slot => if slot.answered then w else w.tell .closed
  | none => w

@[simp] lemma process_tellForgotten (slot : Option Slot) (w : Waiting) :
    (tellForgotten slot w).process = w.process := by
  unfold tellForgotten
  split
  · split
    · rfl
    · exact w.process_tell _
  · rfl

/-- The request is forgotten. -/
def forget (a : Account) : Account :=
  { a with
    slot := none
    waiting := a.waiting.map (tellForgotten a.slot)
    forgotten := true
    known := false }

/-! ### Accounts in order -/

/-- A live slot says what is so. -/
structure Shows (a : Account) (slot : Slot) : Prop where
  answered : slot.answered = true ↔ a.sending ++ a.accepted ≠ []
  response : slot.response = a.accepted.head?.map payloadOf
  awaited : slot.awaited = true ↔ a.begun ≠ []

/-- A waiting party sees this only if it is so. -/
def Sees (a : Account) : Delivery → Prop
  | .pending => a.accepted = []
  | .delivered payload => a.accepted.map payloadOf = [payload]
  | .closed => a.forgotten = true

/-- An await ends with this only for a reason. -/
def Explains (a : Account) (id : String) : Except RequestError Fields → Prop
  | .ok payload => a.accepted.map payloadOf = [payload]
  | .error e => (∃ limit, e = .timeout id limit) ∨ a.forgotten = true

/-- What concerns the request `id` fits together. -/
structure Ordered (id : String) (a : Account) : Prop where
  sentOnce : a.sending.length + a.accepted.length ≤ 1
  addressed : ∀ input ∈ a.sending ++ a.accepted, addressee? input = some id
  shows : ∀ slot, a.slot = some slot → a.Shows slot
  waiting : a.awaits = (a.waiting.map (·.process)).toList
  begun : a.begun.length = a.awaits.length + a.ended.length + a.cancelled.length
  begunOnce : a.begun.length ≤ 1
  sees : ∀ w, a.waiting = some w → a.Sees w.sees
  explains : ∀ outcome ∈ a.ended, a.Explains id outcome
  known : a.known = a.slot.isSome
  /-- Nothing is known of a request that was not issued. -/
  unissued : a.issued = false → a.slot = none ∧ a.sending = [] ∧ a.accepted = [] ∧ a.begun = []
  /-- A slot is gone only for a reason. -/
  gone : a.issued = true → a.slot = none → a.forgotten = true ∨ a.ended ≠ []
  closed : a.ended ≠ [] → a.slot = none

namespace Ordered

variable {id : String} {a : Account}

lemma empty : Ordered id {} := by
  constructor <;> simp

lemma awaits_eq_nil_of_begun (h : a.Ordered id) (hbegun : a.begun = []) :
    a.awaits = [] ∧ a.ended = [] ∧ a.cancelled = [] := by
  have hbalance := h.begun
  rw [hbegun, List.length_nil] at hbalance
  refine ⟨List.eq_nil_of_length_eq_zero ?_, List.eq_nil_of_length_eq_zero ?_,
    List.eq_nil_of_length_eq_zero ?_⟩ <;> omega

lemma issue (h : a.Ordered id) (hfresh : a.issued = false) : a.issue.Ordered id := by
  obtain ⟨-, hsending, haccepted, hbegun⟩ := h.unissued hfresh
  obtain ⟨-, hended, -⟩ := h.awaits_eq_nil_of_begun hbegun
  refine ⟨h.sentOnce, h.addressed, ?_, h.waiting, h.begun, h.begunOnce, h.sees, h.explains,
    rfl, ?_, ?_, fun hne => absurd hended hne⟩
  · rintro slot ⟨rfl⟩
    constructor <;> simp [Account.issue, hsending, haccepted, hbegun]
  · exact fun hissued => by simp [Account.issue] at hissued
  · exact fun _ hslot => by simp [Account.issue] at hslot

section Live

variable {slot : Slot}

lemma issued_of_slot (h : a.Ordered id) (hslot : a.slot = some slot) : a.issued ≠ false := by
  intro hissued
  rw [(h.unissued hissued).1] at hslot
  cases hslot

lemma ended_of_slot (h : a.Ordered id) (hslot : a.slot = some slot) : a.ended = [] := by
  by_contra hended
  rw [h.closed hended] at hslot
  cases hslot

lemma take (h : a.Ordered id) (hslot : a.slot = some slot) (hanswered : slot.answered = false)
    {input : Fields} (hinput : addressee? input = some id) : (a.take input).Ordered id := by
  have hnone : a.sending ++ a.accepted = [] := by
    by_contra hne
    rw [(h.shows slot hslot).answered.2 hne] at hanswered
    cases hanswered
  obtain ⟨hsending, haccepted⟩ := List.append_eq_nil_iff.1 hnone
  refine ⟨?_, ?_, ?_, h.waiting, h.begun, h.begunOnce, h.sees, h.explains, ?_, ?_, ?_, ?_⟩
  · simp [Account.take, hsending, haccepted]
  · intro input' hinput'
    simp only [Account.take, hsending, haccepted, List.nil_append, List.append_nil,
      List.mem_singleton] at hinput'
    rw [hinput', hinput]
  · intro slot' hslot'
    simp only [Account.take, hslot, Option.map_some, Option.some.injEq] at hslot'
    subst hslot'
    refine ⟨?_, (h.shows slot hslot).response, (h.shows slot hslot).awaited⟩
    simp [Account.take]
  · simpa [Account.take] using h.known
  · exact fun hissued => absurd hissued (h.issued_of_slot hslot)
  · exact fun _ hgone => by simp [Account.take, hslot] at hgone
  · exact fun hended => absurd (h.ended_of_slot hslot) hended

lemma begin (h : a.Ordered id) (hslot : a.slot = some slot) (hawaited : slot.awaited = false)
    (process : Nat) : (a.begin process).Ordered id := by
  have hbegun : a.begun = [] := by
    by_contra hne
    rw [(h.shows slot hslot).awaited.2 hne] at hawaited
    cases hawaited
  obtain ⟨hawaits, hended, hcancelled⟩ := h.awaits_eq_nil_of_begun hbegun
  refine ⟨h.sentOnce, h.addressed, ?_, ?_, ?_, ?_, ?_, h.explains, ?_, ?_, ?_, ?_⟩
  · intro slot' hslot'
    simp only [Account.begin, hslot, Option.map_some, Option.some.injEq] at hslot'
    subst hslot'
    refine ⟨(h.shows slot hslot).answered, (h.shows slot hslot).response, ?_⟩
    simp [Account.begin]
  · simp [Account.begin, hslot, hawaits]
  · simp [Account.begin, hbegun, hawaits, hended, hcancelled]
  · simp [Account.begin, hbegun]
  · intro w hw
    simp only [Account.begin, hslot, Option.map_some, Option.some.injEq] at hw
    subst hw
    have hresponse := (h.shows slot hslot).response
    have honce := h.sentOnce
    unfold seenIn
    -- the slot has a response exactly if one was accepted
    cases haccepted : a.accepted with
    | nil =>
      rw [haccepted] at hresponse
      simp [hresponse, Sees, Account.begin, haccepted]
    | cons input rest =>
      rw [haccepted, List.length_cons] at honce
      have hrest : rest = [] := List.eq_nil_of_length_eq_zero (by omega)
      rw [haccepted] at hresponse
      simp [hresponse, Sees, Account.begin, haccepted, hrest]
  · simpa [Account.begin] using h.known
  · exact fun hissued => absurd hissued (h.issued_of_slot hslot)
  · exact fun _ hgone => by simp [Account.begin, hslot] at hgone
  · exact fun hne => absurd hended hne

end Live

lemma send (h : a.Ordered id) {input : Fields} {rest : List Fields}
    (hsending : a.sending = input :: rest) : (a.send input).Ordered id := by
  have honce := h.sentOnce
  rw [hsending, List.length_cons] at honce
  have hrest : rest = [] := List.eq_nil_of_length_eq_zero (by omega)
  have haccepted : a.accepted = [] := List.eq_nil_of_length_eq_zero (by omega)
  subst hrest
  refine ⟨?_, ?_, ?_, ?_, h.begun, h.begunOnce, ?_, ?_, ?_, ?_, ?_, ?_⟩
  · simp [Account.send, hsending, haccepted]
  · simpa [Account.send, hsending, haccepted] using h.addressed
  · intro slot' hslot'
    obtain ⟨slot, hslot, rfl⟩ := Option.map_eq_some_iff.1 hslot'
    have hshows := h.shows slot hslot
    refine ⟨?_, ?_, hshows.awaited⟩
    · simpa [Account.send, hsending, haccepted] using hshows.answered
    · simp [Account.send, haccepted]
  · simpa [Account.send, Function.comp_def] using h.waiting
  · intro w' hw'
    obtain ⟨w, hw, rfl⟩ := Option.map_eq_some_iff.1 hw'
    have hsees := h.sees w hw
    unfold Waiting.tell
    cases hseen : w.sees with
    | pending => simp [Sees, Account.send, haccepted]
    | delivered payload => simp [hseen, Sees, haccepted] at hsees
    | closed =>
      rw [hseen] at hsees
      rw [hseen]
      exact hsees
  · intro outcome houtcome
    have hexplains := h.explains outcome houtcome
    cases outcome with
    | ok payload => simp [Explains, haccepted] at hexplains
    | error e => exact hexplains
  · simpa [Account.send] using h.known
  · intro hissued
    rw [(h.unissued hissued).2.1] at hsending
    cases hsending
  · exact fun hissued hgone => h.gone hissued (Option.map_eq_none_iff.1 hgone)
  · exact fun hended => Option.map_eq_none_iff.2 (h.closed hended)

/-- A process that waits is the only one, and nobody got an outcome or gave up before. -/
lemma waiting_of_mem (h : a.Ordered id) {process : Nat} (hmem : process ∈ a.awaits) :
    a.awaits = [process] ∧ a.ended = [] ∧ a.cancelled = [] ∧ a.begun ≠ [] ∧
      ∃ w, a.waiting = some w ∧ w.process = process := by
  have hawaits := h.waiting
  have hbalance := h.begun
  have honce := h.begunOnce
  cases hw : a.waiting with
  | none =>
    rw [hawaits, hw] at hmem
    simp at hmem
  | some w =>
    rw [hw] at hawaits
    rw [hawaits] at hmem hbalance
    have hprocess : process = w.process := by simpa using hmem
    simp only [Option.map_some, Option.toList_some, List.length_singleton] at hbalance
    refine ⟨by rw [hawaits, hprocess]; rfl, List.eq_nil_of_length_eq_zero (by omega),
      List.eq_nil_of_length_eq_zero (by omega), fun hnil => ?_, w, rfl, hprocess.symm⟩
    rw [hnil, List.length_nil] at hbalance
    omega

lemma finish (h : a.Ordered id) {process : Nat} (hmem : process ∈ a.awaits)
    {outcome : Except RequestError Fields} (houtcome : a.Explains id outcome) :
    (a.finish process outcome).Ordered id := by
  obtain ⟨hawaits, hended, hcancelled, hbegun, -⟩ := h.waiting_of_mem hmem
  have hbalance := h.begun
  refine ⟨h.sentOnce, h.addressed, ?_, ?_, ?_, h.begunOnce, ?_, ?_, rfl, ?_, ?_, fun _ => rfl⟩
  · exact fun slot hslot => by simp [Account.finish] at hslot
  · simp [Account.finish, hawaits]
  · simpa [Account.finish, hawaits, hended, hcancelled] using hbalance
  · exact fun w hw => by simp [Account.finish] at hw
  · intro outcome' houtcome'
    have heq : outcome' = outcome := by simpa [Account.finish, hended] using houtcome'
    rw [heq]
    cases outcome <;> exact houtcome
  · exact fun hissued => absurd (h.unissued hissued).2.2.2 hbegun
  · exact fun _ _ => Or.inr (by simp [Account.finish])

lemma cancel (h : a.Ordered id) {process : Nat} (hmem : process ∈ a.awaits) :
    (a.cancel process).Ordered id := by
  obtain ⟨hawaits, hended, hcancelled, hbegun, -⟩ := h.waiting_of_mem hmem
  have hbalance := h.begun
  refine ⟨h.sentOnce, h.addressed, ?_, ?_, ?_, h.begunOnce, ?_, h.explains, h.known, h.unissued,
    h.gone, h.closed⟩
  · exact fun slot hslot => ⟨(h.shows slot hslot).answered, (h.shows slot hslot).response,
      (h.shows slot hslot).awaited⟩
  · simp [Account.cancel, hawaits]
  · simpa [Account.cancel, hawaits, hended, hcancelled] using hbalance
  · exact fun w hw => by simp [Account.cancel] at hw

lemma forget (h : a.Ordered id) : a.forget.Ordered id := by
  refine ⟨h.sentOnce, h.addressed, ?_, ?_, h.begun, h.begunOnce, ?_, ?_, rfl, ?_, ?_, fun _ => rfl⟩
  · exact fun slot hslot => by simp [Account.forget] at hslot
  · simpa [Account.forget, Function.comp_def] using h.waiting
  · intro w' hw'
    obtain ⟨w, hw, rfl⟩ := Option.map_eq_some_iff.1 hw'
    have hsees := h.sees w hw
    have hkept : a.forget.Sees w.sees := by
      cases hseen : w.sees with
      | pending => rwa [hseen] at hsees
      | delivered payload => rwa [hseen] at hsees
      | closed => rfl
    unfold tellForgotten
    split
    · split
      · exact hkept
      · unfold Waiting.tell
        split
        · rfl
        · exact hkept
    · exact hkept
  · intro outcome houtcome
    have hexplains := h.explains outcome houtcome
    cases outcome with
    | ok payload => exact hexplains
    | error e => exact Or.inr rfl
  · exact fun hissued => ⟨rfl, (h.unissued hissued).2⟩
  · exact fun _ _ => Or.inl rfl

end Ordered

end Account

end Synchrony
