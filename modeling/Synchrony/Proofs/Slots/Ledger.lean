import Synchrony.Proofs.Slots.Account

/-!
# The accounts of an exchange

`Exchange.account` reads the account of each request off an exchange. Every step of an exchange is a
change of the account of one request and leaves all other accounts as they are, so in whatever order
calls take their steps, all accounts stay in order (`Exchange.ordered_of_run`).
-/

namespace Synchrony

open Requesting

/-! ### What operations do to the slots -/

namespace Slots

variable (s : Slots) (id other : String)

@[simp] lemma live_notify (seen : Delivery) : (s.notify id seen).live = s.live := by
  unfold notify
  split
  · split <;> rfl
  · rfl

lemma get?_waiting_notify (seen : Delivery) : (s.notify id seen).waiting.get? other =
    if other = id then (s.waiting.get? id).map (Waiting.tell seen) else s.waiting.get? other := by
  unfold notify
  cases hw : s.waiting.get? id with
  | none => by_cases heq : other = id <;> simp [heq, hw]
  | some w =>
    cases hseen : w.sees <;>
      by_cases heq : other = id <;>
        simp [heq, KeyMap.get?_insert, Waiting.tell, hseen, hw]

lemma get?_live_send (payload : Fields) : (s.send id payload).live.get? other =
    if other = id then (s.live.get? id).map fun slot => { slot with response := some payload }
    else s.live.get? other := by
  unfold send
  cases hslot : s.live.get? id <;> by_cases heq : other = id <;>
    simp [heq, KeyMap.get?_insert, hslot]

lemma get?_waiting_send (payload : Fields) : (s.send id payload).waiting.get? other =
    if other = id then (s.waiting.get? id).map (Waiting.tell (.delivered payload))
    else s.waiting.get? other := by
  unfold send
  cases s.live.get? id <;> rw [get?_waiting_notify]

lemma get?_live_abandon : (s.abandon id).live.get? other =
    if other = id then none else s.live.get? other := by
  unfold abandon
  cases hslot : s.live.get? id with
  | none => by_cases heq : other = id <;> simp [heq, hslot]
  | some slot =>
    dsimp only
    split <;> simp [KeyMap.get?_erase]

lemma get?_waiting_abandon : (s.abandon id).waiting.get? other =
    if other = id then (s.waiting.get? id).map (Account.tellForgotten (s.live.get? id))
    else s.waiting.get? other := by
  unfold abandon Account.tellForgotten
  cases hslot : s.live.get? id with
  | none => by_cases heq : other = id <;> simp [heq]
  | some slot =>
    dsimp only
    split
    · by_cases heq : other = id <;> simp [heq]
    · rw [get?_waiting_notify]

lemma get?_live_endAwait : (s.endAwait id).live.get? other =
    if other = id then none else s.live.get? other := by
  rw [endAwait, get?_live_abandon]
  rfl

lemma get?_waiting_endAwait : (s.endAwait id).waiting.get? other =
    if other = id then none else s.waiting.get? other := by
  rw [endAwait, get?_waiting_abandon]
  by_cases heq : other = id <;> simp [heq, stopAwait, KeyMap.get?_erase]

end Slots

/-! ### The accounts of an exchange -/

section ValuesOf

variable {α : Type}

/-- The values under a name. -/
def valuesOf (name : String) (l : List (String × α)) : List α :=
  l.filterMap fun x => if x.1 = name then some x.2 else none

lemma mem_valuesOf_iff {name : String} {a : α} {l : List (String × α)} :
    a ∈ valuesOf name l ↔ (name, a) ∈ l := by
  simp only [valuesOf, List.mem_filterMap, Option.ite_none_right_eq_some, Option.some.injEq]
  constructor
  · rintro ⟨x, hx, rfl, rfl⟩
    exact hx
  · exact fun h => ⟨_, h, rfl, rfl⟩

lemma valuesOf_concat (name other : String) (a : α) (l : List (String × α)) :
    valuesOf other (l ++ [(name, a)]) =
      if other = name then valuesOf other l ++ [a] else valuesOf other l := by
  by_cases h : other = name
  · simp [valuesOf, h]
  · simp [valuesOf, h, Ne.symm h]

lemma valuesOf_eraseP (name other : String) (l : List (String × α)) :
    valuesOf other (l.eraseP (·.1 = name)) =
      if other = name then (valuesOf other l).tail else valuesOf other l := by
  induction l with
  | nil => simp [valuesOf]
  | cons x rest ih =>
    by_cases hx : x.1 = name
    · by_cases h : other = name
      · simp [valuesOf, hx, h]
      · simp [valuesOf, hx, h, Ne.symm h]
    · rw [List.eraseP_cons_of_neg (by simpa using hx)]
      by_cases h : other = name
      · subst h
        simpa [valuesOf, hx] using ih
      · rw [if_neg h] at ih ⊢
        simp only [valuesOf, List.filterMap_cons] at ih ⊢
        rw [ih]

lemma valuesOf_erase [DecidableEq α] (name other : String) (a : α) (l : List (String × α)) :
    valuesOf other (l.erase (name, a)) =
      if other = name then (valuesOf other l).erase a else valuesOf other l := by
  induction l with
  | nil => simp [valuesOf]
  | cons x rest ih =>
    by_cases hx : x = (name, a)
    · subst hx
      by_cases h : other = name
      · simp [valuesOf, h]
      · simp [valuesOf, h, Ne.symm h]
    · rw [List.erase_cons_tail (by simpa using hx)]
      by_cases h : other = name
      · subst h
        rw [if_pos rfl] at ih ⊢
        by_cases hname : x.1 = other
        · have hvalue : x.2 ≠ a := fun heq => hx (Prod.ext hname heq)
          simp only [valuesOf, List.filterMap_cons, hname, if_true] at ih ⊢
          rw [ih, List.erase_cons_tail (by simpa using hvalue)]
        · simpa [valuesOf, hname] using ih
      · rw [if_neg h] at ih ⊢
        simp only [valuesOf, List.filterMap_cons] at ih ⊢
        rw [ih]

lemma valuesOf_of_find? {name : String} {x : String × α} {l : List (String × α)}
    (h : l.find? (·.1 = name) = some x) : x.1 = name ∧ ∃ rest, valuesOf name l = x.2 :: rest := by
  obtain ⟨hx, before, rest, rfl, hbefore⟩ := List.find?_eq_some_iff_append.1 h
  have hname : x.1 = name := by simpa using hx
  refine ⟨hname, valuesOf name rest, ?_⟩
  have hnone : valuesOf name before = [] := by
    rw [valuesOf, List.filterMap_eq_nil_iff]
    intro y hy
    have hne : y.1 ≠ name := by simpa using hbefore y hy
    simp [hne]
  rw [valuesOf] at hnone ⊢
  rw [List.filterMap_append, hnone, List.filterMap_cons, if_pos hname]
  rfl

end ValuesOf

/-- The account of a request as far as the history tells it. -/
def Account.ofHistory (id : String) (history : List Happening) : Account where
  issued := history.any (·.issues id)
  forgotten := history.any (·.forgets id)
  known := history.foldl (Happening.knows id) false
  accepted := history.filterMap (·.accepted? id)
  begun := history.filterMap (·.began? id)
  ended := history.filterMap (·.ended? id)
  cancelled := history.filterMap (·.cancelled? id)

/-- The account after something happened. -/
def Account.note (id : String) (a : Account) (h : Happening) : Account :=
  { a with
    issued := a.issued || h.issues id
    forgotten := a.forgotten || h.forgets id
    known := h.knows id a.known
    accepted := a.accepted ++ (h.accepted? id).toList
    begun := a.begun ++ (h.began? id).toList
    ended := a.ended ++ (h.ended? id).toList
    cancelled := a.cancelled ++ (h.cancelled? id).toList }

namespace Exchange

/-- What concerns one request. -/
def account (s : Exchange) (id : String) : Account :=
  { Account.ofHistory id s.history with
    slot := s.slots.live.get? id
    waiting := s.slots.waiting.get? id
    sending := valuesOf id s.sending
    awaits := valuesOf id s.awaits }

section Accounts

variable (s : Exchange) (id other : String)

lemma account_note (h : Happening) : (s.note h).account id = (s.account id).note id h := by
  have htoList {α : Type} (f : Happening → Option α) : [h].filterMap f = (f h).toList := by
    cases hf : f h <;> simp [hf]
  simp only [account, Account.ofHistory, Account.note, note, List.any_append, List.any_cons,
    List.any_nil, Bool.or_false, List.filterMap_append, htoList, List.foldl_append,
    List.foldl_cons, List.foldl_nil]

lemma account_request :
    ({ s with slots := s.slots.request id }.note (.issued id)).account other =
      if other = id then (s.account id).issue else s.account other := by
  rw [account_note]
  by_cases h : other = id
  · subst h
    simp [Account.note, Account.issue, account, Slots.request]
  · simp [Account.note, account, Slots.request, h, Ne.symm h, KeyMap.get?_insert]

lemma account_take {slot : Slot} (input : Fields) (hslot : s.slots.live.get? id = some slot) :
    account { s with
        slots := { s.slots with live := s.slots.live.insert id { slot with answered := true } }
        sending := s.sending ++ [(id, input)] } other =
      if other = id then (s.account id).take input else s.account other := by
  by_cases h : other = id
  · subst h
    simp [account, Account.take, valuesOf_concat, hslot]
  · simp [account, valuesOf_concat, h, KeyMap.get?_insert]

lemma account_send (input : Fields) :
    ({ s with
        slots := s.slots.send id (payloadOf input)
        sending := s.sending.eraseP (·.1 = id) }.note (.accepted id input)).account other =
      if other = id then (s.account id).send input else s.account other := by
  rw [account_note]
  by_cases h : other = id
  · subst h
    simp [Account.note, Account.send, account, Slots.get?_live_send, Slots.get?_waiting_send,
      valuesOf_eraseP]
  · simp [Account.note, account, Slots.get?_live_send, Slots.get?_waiting_send, valuesOf_eraseP, h,
      Ne.symm h]

lemma account_begin {slot : Slot} (process : Nat) (hslot : s.slots.live.get? id = some slot) :
    ({ s with
        slots := { s.slots with
          live := s.slots.live.insert id { slot with awaited := true }
          waiting := s.slots.waiting.insert id ⟨process, Account.seenIn slot⟩ }
        awaits := s.awaits ++ [(id, process)] }.note (.began process id)).account other =
      if other = id then (s.account id).begin process else s.account other := by
  rw [account_note]
  by_cases h : other = id
  · subst h
    simp [Account.note, Account.begin, account, valuesOf_concat, hslot]
  · simp [Account.note, account, valuesOf_concat, h, Ne.symm h, KeyMap.get?_insert]

lemma account_finish (process : Nat) (outcome : Except RequestError Fields) :
    ({ s with
        slots := s.slots.endAwait id
        awaits := s.awaits.erase (id, process) }.note (.ended process id outcome)).account other =
      if other = id then (s.account id).finish process outcome else s.account other := by
  rw [account_note]
  by_cases h : other = id
  · subst h
    simp [Account.note, Account.finish, account, valuesOf_erase, Slots.get?_live_endAwait,
      Slots.get?_waiting_endAwait]
  · simp [Account.note, account, valuesOf_erase, h, Ne.symm h, Slots.get?_live_endAwait,
      Slots.get?_waiting_endAwait]

lemma account_cancel (process : Nat) :
    ({ s with
        slots := s.slots.stopAwait id
        awaits := s.awaits.erase (id, process) }.note (.cancelled process id)).account other =
      if other = id then (s.account id).cancel process else s.account other := by
  rw [account_note]
  by_cases h : other = id
  · subst h
    simp [Account.note, Account.cancel, account, valuesOf_erase, Slots.stopAwait]
  · simp [Account.note, account, valuesOf_erase, Slots.stopAwait, h, Ne.symm h, KeyMap.get?_erase]

lemma account_forget : (s.forget [id]).account other =
    if other = id then (s.account id).forget else s.account other := by
  have hnote : s.forget [id] = { s with slots := s.slots.abandon id }.note (.forgotten id) := rfl
  rw [hnote, account_note]
  by_cases h : other = id
  · subst h
    simp [Account.note, Account.forget, account, Slots.get?_live_abandon,
      Slots.get?_waiting_abandon]
  · simp [Account.note, account, Slots.get?_live_abandon, Slots.get?_waiting_abandon, h, Ne.symm h]

lemma account_note_of_refused (input : Fields) (e : RespondError) :
    (s.note (.refused input e)).account id = s.account id := by
  simp [account_note, Account.note]

lemma account_note_of_rejected (process : Nat) (e : RequestError) :
    (s.note (.rejected process other e)).account id = s.account id := by
  simp [account_note, Account.note]

end Accounts

end Exchange

/-! ### What operations give -/

namespace Slots

variable {s slots : Slots} {id : String}

lemma take_of_none (h : s.live.get? id = none) : s.take id = .error (.unknownRequest id) := by
  rw [take, h]

lemma beginAwait_of_none (h : s.live.get? id = none) (process : Nat) :
    s.beginAwait process id = .error (.unknownRequest id) := by
  rw [beginAwait, h]

lemma take_of_some {slot : Slot} (h : s.live.get? id = some slot) :
    s.take id = if slot.answered then .error (.alreadyAnswered id)
      else .ok { s with live := s.live.insert id { slot with answered := true } } := by
  rw [take, h]

lemma beginAwait_of_some {slot : Slot} (h : s.live.get? id = some slot) (process : Nat) :
    s.beginAwait process id = if slot.awaited then .error (.alreadyAwaited id)
      else .ok { s with
        live := s.live.insert id { slot with awaited := true }
        waiting := s.waiting.insert id ⟨process, Account.seenIn slot⟩ } := by
  rw [beginAwait, h]
  rfl

lemma take_eq_ok (h : s.take id = .ok slots) : ∃ slot, s.live.get? id = some slot ∧
    slot.answered = false ∧
    slots = { s with live := s.live.insert id { slot with answered := true } } := by
  cases hslot : s.live.get? id with
  | none =>
    rw [take_of_none hslot] at h
    cases h
  | some slot =>
    rw [take_of_some hslot] at h
    split at h
    · cases h
    · rename_i hanswered
      cases h
      exact ⟨slot, rfl, by simpa using hanswered, rfl⟩

lemma beginAwait_eq_ok {process : Nat} (h : s.beginAwait process id = .ok slots) :
    ∃ slot, s.live.get? id = some slot ∧ slot.awaited = false ∧
      slots = { s with
        live := s.live.insert id { slot with awaited := true }
        waiting := s.waiting.insert id ⟨process, Account.seenIn slot⟩ } := by
  cases hslot : s.live.get? id with
  | none =>
    rw [beginAwait_of_none hslot] at h
    cases h
  | some slot =>
    rw [beginAwait_of_some hslot] at h
    split at h
    · cases h
    · rename_i hawaited
      cases h
      exact ⟨slot, rfl, by simpa using hawaited, rfl⟩

/-- The outcome that a waiting party gets for what it sees. -/
def outcome? (id : String) (limit : Nat) (timeUp : Bool) :
    Delivery → Option (Except RequestError Fields)
  | .delivered payload => some (.ok payload)
  | .pending => if timeUp then some (.error (.timeout id limit)) else none
  | .closed => some (.error (.unknownRequest id))

lemma pollAwait_eq {w : Waiting} (h : s.waiting.get? id = some w) (limit : Nat) (timeUp : Bool) :
    s.pollAwait id limit timeUp =
      (outcome? id limit timeUp w.sees).map fun outcome => (outcome, s.endAwait id) := by
  obtain ⟨process, sees⟩ := w
  rw [pollAwait, h]
  cases sees with
  | pending => cases timeUp <;> rfl
  | delivered payload => rfl
  | closed => rfl

end Slots

lemma Account.Ordered.explains_outcome {id : String} {a : Account} (h : a.Ordered id) {w : Waiting}
    (hw : a.waiting = some w) {limit : Nat} {timeUp : Bool} {outcome : Except RequestError Fields}
    (houtcome : Slots.outcome? id limit timeUp w.sees = some outcome) : a.Explains id outcome := by
  have hsees := h.sees w hw
  cases hseen : w.sees with
  | pending =>
    rw [hseen, Slots.outcome?] at houtcome
    split at houtcome
    · cases houtcome
      exact Or.inl ⟨limit, rfl⟩
    · cases houtcome
  | delivered payload =>
    rw [hseen] at houtcome hsees
    cases houtcome
    exact hsees
  | closed =>
    rw [hseen] at houtcome hsees
    cases houtcome
    exact Or.inr hsees

/-! ### Every run keeps the accounts in order -/

namespace Exchange

variable {s s' : Exchange}

/-- All accounts are in order. -/
def Ordered (s : Exchange) : Prop := ∀ id, (s.account id).Ordered id

lemma Ordered.of_change {id : String} {a : Account} (h : s.Ordered)
    (hchange : ∀ other, s'.account other = if other = id then a else s.account other)
    (ha : a.Ordered id) : s'.Ordered := by
  intro other
  rw [hchange]
  split
  · rename_i heq
    rw [heq]
    exact ha
  · exact h other

lemma Ordered.forget (h : s.Ordered) (ids : List String) : (s.forget ids).Ordered := by
  induction ids generalizing s with
  | nil =>
    have hnil : s.forget [] = s := by simp [Exchange.forget, Slots.release]
    rwa [hnil]
  | cons id rest ih =>
    have hcons : s.forget (id :: rest) = (s.forget [id]).forget rest := by
      simp [Exchange.forget, Slots.release]
    rw [hcons]
    exact ih (h.of_change (account_forget s id) (h id).forget)

lemma Ordered.respond (h : s.Ordered) {input : Fields} (hstep : s.step? (.respond input) = some s') :
    s'.Ordered := by
  simp only [step?] at hstep
  split at hstep
  · cases hstep
    exact fun id => by rw [account_note_of_refused]; exact h id
  · rename_i id hinput
    split at hstep
    · cases hstep
      exact fun id => by rw [account_note_of_refused]; exact h id
    · rename_i slots hslots
      cases hstep
      obtain ⟨slot, hslot, hanswered, rfl⟩ := Slots.take_eq_ok hslots
      exact h.of_change (fun other => account_take s id other input hslot)
        ((h id).take hslot hanswered hinput)

lemma Ordered.send (h : s.Ordered) {id : String} (hstep : s.step? (.send id) = some s') :
    s'.Ordered := by
  obtain ⟨⟨id', input⟩, hfind, rfl⟩ := Option.map_eq_some_iff.1 hstep
  obtain ⟨-, rest, hsending⟩ := valuesOf_of_find? hfind
  exact h.of_change (fun other => account_send s id other input) ((h id).send hsending)

lemma Ordered.await (h : s.Ordered) {process : Nat} {id : String}
    (hstep : s.step? (.await process id) = some s') : s'.Ordered := by
  simp only [step?] at hstep
  split at hstep
  · cases hstep
    exact fun id => by rw [account_note_of_rejected]; exact h id
  · rename_i slots hslots
    cases hstep
    obtain ⟨slot, hslot, hawaited, rfl⟩ := Slots.beginAwait_eq_ok hslots
    exact h.of_change (fun other => account_begin s id other process hslot)
      ((h id).begin hslot hawaited process)

lemma Ordered.poll (h : s.Ordered) {process : Nat} {id : String} {limit : Nat} {timeUp : Bool}
    (hstep : s.step? (.poll process id limit timeUp) = some s') : s'.Ordered := by
  simp only [step?] at hstep
  split at hstep
  · rename_i hmem
    have hawaits := mem_valuesOf_iff.2 hmem
    obtain ⟨-, -, -, -, w, hw, -⟩ := (h id).waiting_of_mem hawaits
    rw [Slots.pollAwait_eq hw] at hstep
    cases houtcome : Slots.outcome? id limit timeUp w.sees with
    | none =>
      rw [houtcome] at hstep
      cases hstep
      exact h
    | some outcome =>
      rw [houtcome] at hstep
      cases hstep
      exact h.of_change (fun other => account_finish s id other process outcome)
        ((h id).finish hawaits ((h id).explains_outcome hw houtcome))
  · cases hstep

lemma Ordered.cancel (h : s.Ordered) {process : Nat} {id : String}
    (hstep : s.step? (.cancel process id) = some s') : s'.Ordered := by
  simp only [step?] at hstep
  split at hstep
  · rename_i hmem
    cases hstep
    exact h.of_change (fun other => account_cancel s id other process)
      ((h id).cancel (mem_valuesOf_iff.2 hmem))
  · cases hstep

lemma Ordered.step (h : s.Ordered) {act : Act} (hstep : s.step? act = some s') : s'.Ordered := by
  cases act with
  | request id =>
    simp only [step?] at hstep
    split at hstep
    · cases hstep
    · rename_i hfresh
      cases hstep
      exact h.of_change (account_request s id) ((h id).issue (Bool.eq_false_iff.2 hfresh))
  | respond input => exact h.respond hstep
  | send id => exact h.send hstep
  | await process id => exact h.await hstep
  | poll process id limit timeUp => exact h.poll hstep
  | cancel process id => exact h.cancel hstep
  | abandon id =>
    cases hstep
    exact h.forget [id]
  | release report =>
    cases hstep
    exact h.forget report.nestedRequests
  | deliver =>
    cases hstep
    exact h

theorem ordered_of_run {acts : List Act} (h : run {} acts = some s) : s.Ordered :=
  run_induction (fun _ _ _ hs hstep => hs.step hstep) (fun _ => Account.Ordered.empty) h

end Exchange

end Synchrony
