import Synchrony.Proofs.Slots.Ledger

/-!
# At most one response, and the right one

`Exchange.OneResponse` says what calls about a request can rely on: one respond succeeds, one await
returns what it was given, and whatever comes too often or for an unknown request is refused and
changes nothing. It holds after every run (`Exchange.oneResponse_of_run`).
-/

namespace Synchrony

open Requesting

namespace Exchange

variable {s s' : Exchange}

/-! ### What calls can rely on -/

/-- If the process is woken, it gets the response, also if its time is up. -/
def Gets (s : Exchange) (process : Nat) (id : String) (payload : Fields) : Prop :=
  (id, process) ∈ s.awaits ∧ ∀ limit timeUp, ∃ s',
    s.step? (.poll process id limit timeUp) = some s' ∧ s'.ended id = s.ended id ++ [.ok payload]

/-- At most one response is given and returned for the request `id`, and it is the right one. -/
structure OneResponse (s : Exchange) (id : String) : Prop where
  accepted_once : (s.accepted id).length ≤ 1
  returned_once : (s.returned id).length ≤ 1
  /-- What an await returns is what the respond that succeeded was given, beside the identifier. -/
  returned_right : ∀ payload ∈ s.returned id, ∃ input ∈ s.accepted id,
    addressee? input = some id ∧ payload = input.erase requestField
  /-- Unless the request was forgotten or its await cut short, the first await gets the response. -/
  first_await : ∀ input ∈ s.accepted id, s.forgotten id = false →
    (∀ limit, .error (.timeout id limit) ∉ s.ended id) → s.cancelled id = [] →
      input.erase requestField ∈ s.returned id ∨
      (∃ process, s.Gets process id (input.erase requestField)) ∨
      s.begun id = [] ∧ ∀ process, ∃ s', s.step? (.await process id) = some s' ∧
        s'.Gets process id (input.erase requestField)
  /-- A request that was never issued or is forgotten is refused, and nothing changes. -/
  unknown : s.knows id = false →
    (∀ input, addressee? input = some id →
      s.step? (.respond input) = some (s.note (.refused input (.unknownRequest id)))) ∧
    ∀ process, s.step? (.await process id) =
      some (s.note (.rejected process id (.unknownRequest id)))
  /-- The first respond succeeds. -/
  first_respond : s.knows id = true → s.accepted id = [] → (∀ input, (id, input) ∉ s.sending) →
    ∀ input, addressee? input = some id → ∃ s' s'', s.step? (.respond input) = some s' ∧
      s'.step? (.send id) = some s'' ∧ s''.accepted id = [input]
  /-- A second respond is refused, and nothing changes. -/
  second_respond : s.knows id = true →
    (s.accepted id ≠ [] ∨ ∃ input, (id, input) ∈ s.sending) → ∀ input, addressee? input = some id →
      s.step? (.respond input) = some (s.note (.refused input (.alreadyAnswered id)))
  /-- A second await is refused, and nothing changes. -/
  second_await : s.knows id = true → s.begun id ≠ [] → ∀ process,
    s.step? (.await process id) = some (s.note (.rejected process id (.alreadyAwaited id)))
  /-- The slots have a slot for the request exactly if it is known. -/
  live : s.slots.live.contains id = s.knows id
  /-- After an await that ended the request is forgotten. -/
  forgotten : s.ended id ≠ [] → s.knows id = false

namespace Ordered

variable {id : String}

lemma returned_eq (h : s.Ordered) {payload : Fields} (hpayload : payload ∈ s.returned id) :
    ∃ input, s.accepted id = [input] ∧ payload = payloadOf input := by
  obtain ⟨outcome, houtcome, htoOption⟩ := List.mem_filterMap.1 hpayload
  have hexplains := (h id).explains outcome houtcome
  cases outcome with
  | error e => cases htoOption
  | ok payload' =>
    cases htoOption
    obtain ⟨input, hinput, rfl⟩ := List.map_eq_singleton_iff.1 hexplains
    exact ⟨input, hinput, rfl⟩

lemma accepted_eq (h : s.Ordered) {input : Fields} (hinput : input ∈ s.accepted id) :
    s.accepted id = [input] := by
  have honce : (s.accepted id).length ≤ 1 := Nat.le_trans (Nat.le_add_left _ _) (h id).sentOnce
  obtain ⟨input', hsingle⟩ := List.length_eq_one_iff.1
    (Nat.le_antisymm honce (List.length_pos_of_mem hinput))
  rw [hsingle, List.mem_singleton] at hinput
  rw [hsingle, hinput]

/-- A party that waits although a response was accepted gets the response. -/
lemma gets (h : s.Ordered) {input : Fields} (hinput : input ∈ s.accepted id)
    (hforgotten : s.forgotten id = false) {process : Nat} (hmem : (id, process) ∈ s.awaits) :
    s.Gets process id (payloadOf input) := by
  refine ⟨hmem, fun limit timeUp => ?_⟩
  obtain ⟨-, -, -, -, w, hw, -⟩ := (h id).waiting_of_mem (mem_valuesOf_iff.2 hmem)
  have hsees := (h id).sees w hw
  have hdelivered : w.sees = .delivered (payloadOf input) := by
    cases hseen : w.sees with
    | pending =>
      rw [hseen] at hsees
      rw [show s.accepted id = [] from hsees] at hinput
      cases hinput
    | delivered payload =>
      rw [hseen] at hsees
      have hmap : (s.accepted id).map payloadOf = [payload] := hsees
      rw [h.accepted_eq hinput] at hmap
      cases hmap
      rfl
    | closed =>
      rw [hseen] at hsees
      rw [show s.forgotten id = true from hsees] at hforgotten
      cases hforgotten
  simp only [step?, if_pos hmem, Slots.pollAwait_eq hw, hdelivered, Slots.outcome?, Option.map_some]
  exact ⟨_, rfl, congrArg Account.ended
    ((account_finish s id id process (.ok (payloadOf input))).trans (if_pos rfl))⟩

lemma slot_of_knows (h : s.Ordered) (hknows : s.knows id = true) :
    ∃ slot, s.slots.live.get? id = some slot :=
  Option.isSome_iff_exists.1 ((h id).known.symm.trans hknows)

lemma slot_of_not_knows (h : s.Ordered) (hknows : s.knows id = false) :
    s.slots.live.get? id = none :=
  Option.isNone_iff_eq_none.1 (Option.isSome_eq_false_iff.1 ((h id).known.symm.trans hknows))

/-- Whoever is the first to wait for a live slot begins to wait. -/
lemma exists_await {slot : Slot} (hslot : s.slots.live.get? id = some slot)
    (hawaited : ¬ slot.awaited = true) (process : Nat) : ∃ s',
      s.step? (.await process id) = some s' ∧ (id, process) ∈ s'.awaits ∧
        s'.account id = (s.account id).begin process := by
  have hbegin := Slots.beginAwait_of_some hslot process
  rw [if_neg hawaited] at hbegin
  simp only [step?, hbegin]
  exact ⟨_, rfl, by simp [note], (account_begin s id id process hslot).trans (if_pos rfl)⟩

/-- Whoever is the first to respond to a live slot may send a response. -/
lemma exists_take {slot : Slot} (hslot : s.slots.live.get? id = some slot)
    (hanswered : ¬ slot.answered = true) {input : Fields} (hinput : addressee? input = some id) :
    ∃ s', s.step? (.respond input) = some s' ∧ s'.account id = (s.account id).take input := by
  have htake := Slots.take_of_some hslot
  rw [if_neg hanswered] at htake
  simp only [step?, hinput, htake]
  exact ⟨_, rfl, (account_take s id id input hslot).trans (if_pos rfl)⟩

/-- Whoever may send a response can do so. -/
lemma exists_send {input : Fields} {rest : List Fields}
    (hsending : (s.account id).sending = input :: rest) :
    ∃ s', s.step? (.send id) = some s' ∧ s'.account id = (s.account id).send input := by
  have hmem : (id, input) ∈ s.sending := mem_valuesOf_iff.1 (by
    change input ∈ (s.account id).sending
    simp [hsending])
  obtain ⟨⟨id', input'⟩, hfind⟩ := Option.isSome_iff_exists.1 (List.find?_isSome.2
    ⟨(id, input), hmem, decide_eq_true rfl⟩ : (s.sending.find? (·.1 = id)).isSome = true)
  obtain ⟨-, rest', hvalues⟩ := valuesOf_of_find? hfind
  have hfirst : input' = input := (List.cons.inj (hvalues.symm.trans hsending)).1
  simp only [step?, hfind, Option.map_some, hfirst]
  exact ⟨_, rfl, (account_send s id id input).trans (if_pos rfl)⟩

lemma first_respond (h : s.Ordered) (hknows : s.knows id = true) (haccepted : s.accepted id = [])
    (hsending : ∀ input, (id, input) ∉ s.sending) {input : Fields}
    (hinput : addressee? input = some id) : ∃ s' s'', s.step? (.respond input) = some s' ∧
      s'.step? (.send id) = some s'' ∧ s''.accepted id = [input] := by
  obtain ⟨slot, hslot⟩ := h.slot_of_knows hknows
  have hnone : (s.account id).sending = [] := List.eq_nil_iff_forall_not_mem.2 fun input hmem =>
    hsending input (mem_valuesOf_iff.1 hmem)
  have hanswered : ¬ slot.answered = true := fun hanswered =>
    ((h id).shows slot hslot).answered.1 hanswered (List.append_eq_nil_iff.2 ⟨hnone, haccepted⟩)
  obtain ⟨s', hstep, htake⟩ := exists_take hslot hanswered hinput
  have hready : (s'.account id).sending = [input] := by
    rw [htake, Account.take, hnone]
    rfl
  obtain ⟨s'', hstep', hsend⟩ := exists_send hready
  refine ⟨s', s'', hstep, hstep', (congrArg Account.accepted hsend).trans ?_⟩
  rw [htake]
  change s.accepted id ++ [input] = [input]
  rw [haccepted, List.nil_append]

/-- While a response is there and nobody has waited, whoever begins to wait gets it. -/
lemma gets_of_await (h : s.Ordered) {input : Fields} (hinput : input ∈ s.accepted id)
    (hforgotten : s.forgotten id = false) (hended : s.ended id = []) (hbegun : s.begun id = [])
    (process : Nat) : ∃ s', s.step? (.await process id) = some s' ∧
      s'.Gets process id (payloadOf input) := by
  have hslot : ∃ slot, s.slots.live.get? id = some slot := by
    by_contra hnone
    have hgone : (s.account id).slot = none := Option.eq_none_iff_forall_not_mem.2 fun slot hslot =>
      hnone ⟨slot, hslot⟩
    have hissued : (s.account id).issued = true := by
      by_contra hfresh
      have haccepted := ((h id).unissued (Bool.eq_false_iff.2 hfresh)).2.2.1
      rw [show s.accepted id = [] from haccepted] at hinput
      cases hinput
    rcases (h id).gone hissued hgone with hforgotten' | hended'
    · rw [show s.forgotten id = true from hforgotten'] at hforgotten
      cases hforgotten
    · exact hended' hended
  obtain ⟨slot, hslot⟩ := hslot
  have hawaited : ¬ slot.awaited = true := fun hawaited =>
    ((h id).shows slot hslot).awaited.1 hawaited hbegun
  obtain ⟨s', hstep, hmem, hbegin⟩ := exists_await hslot hawaited process
  refine ⟨s', hstep, (h.step hstep).gets ?_ ?_ hmem⟩
  · rwa [show s'.accepted id = s.accepted id from congrArg Account.accepted hbegin]
  · rwa [show s'.forgotten id = s.forgotten id from congrArg Account.forgotten hbegin]

lemma first_await (h : s.Ordered) {input : Fields} (hinput : input ∈ s.accepted id)
    (hforgotten : s.forgotten id = false)
    (htimeout : ∀ limit, .error (.timeout id limit) ∉ s.ended id) (hcancelled : s.cancelled id = []) :
    payloadOf input ∈ s.returned id ∨ (∃ process, s.Gets process id (payloadOf input)) ∨
      s.begun id = [] ∧ ∀ process, ∃ s', s.step? (.await process id) = some s' ∧
        s'.Gets process id (payloadOf input) := by
  cases hended : s.ended id with
  | cons outcome rest =>
    have hmem : outcome ∈ s.ended id := by simp [hended]
    have hexplains := (h id).explains outcome hmem
    cases outcome with
    | ok payload =>
      refine Or.inl (List.mem_filterMap.2 ⟨.ok payload, hmem, ?_⟩)
      have hmap : (s.accepted id).map payloadOf = [payload] := hexplains
      rw [h.accepted_eq hinput] at hmap
      cases hmap
      rfl
    | error e =>
      rcases hexplains with ⟨limit, rfl⟩ | hforgotten'
      · exact absurd hmem (htimeout limit)
      · rw [show s.forgotten id = true from hforgotten'] at hforgotten
        cases hforgotten
  | nil =>
    refine Or.inr ?_
    cases hawaits : (s.account id).awaits with
    | cons process rest =>
      have hmem : (id, process) ∈ s.awaits := mem_valuesOf_iff.1 (by
        change process ∈ (s.account id).awaits
        simp [hawaits])
      exact Or.inl ⟨process, h.gets hinput hforgotten hmem⟩
    | nil =>
      have hbegun : s.begun id = [] := by
        have hbalance := (h id).begun
        rw [hawaits, show (s.account id).ended = [] from hended,
          show (s.account id).cancelled = [] from hcancelled] at hbalance
        exact List.eq_nil_of_length_eq_zero hbalance
      exact Or.inr ⟨hbegun, h.gets_of_await hinput hforgotten hended hbegun⟩

lemma unknown (h : s.Ordered) (hknows : s.knows id = false) :
    (∀ input, addressee? input = some id →
      s.step? (.respond input) = some (s.note (.refused input (.unknownRequest id)))) ∧
    ∀ process, s.step? (.await process id) =
      some (s.note (.rejected process id (.unknownRequest id))) := by
  have hslot := h.slot_of_not_knows hknows
  refine ⟨fun input hinput => ?_, fun process => ?_⟩
  · simp only [step?, hinput, Slots.take_of_none hslot]
  · simp only [step?, Slots.beginAwait_of_none hslot process]

lemma second_respond (h : s.Ordered) (hknows : s.knows id = true)
    (hanswered : s.accepted id ≠ [] ∨ ∃ input, (id, input) ∈ s.sending) {input : Fields}
    (hinput : addressee? input = some id) :
    s.step? (.respond input) = some (s.note (.refused input (.alreadyAnswered id))) := by
  obtain ⟨slot, hslot⟩ := h.slot_of_knows hknows
  have htaken : slot.answered = true := by
    refine ((h id).shows slot hslot).answered.2 fun hnil => ?_
    obtain ⟨hsending, haccepted⟩ := List.append_eq_nil_iff.1 hnil
    rcases hanswered with hne | ⟨input', hmem⟩
    · exact hne haccepted
    · have hmem' : input' ∈ (s.account id).sending := mem_valuesOf_iff.2 hmem
      rw [hsending] at hmem'
      cases hmem'
  simp only [step?, hinput, Slots.take_of_some hslot, if_pos htaken]

lemma second_await (h : s.Ordered) (hknows : s.knows id = true) (hbegun : s.begun id ≠ [])
    (process : Nat) : s.step? (.await process id) =
      some (s.note (.rejected process id (.alreadyAwaited id))) := by
  obtain ⟨slot, hslot⟩ := h.slot_of_knows hknows
  have hawaited := ((h id).shows slot hslot).awaited.2 hbegun
  simp only [step?, Slots.beginAwait_of_some hslot process, if_pos hawaited]

end Ordered

/-- Whatever calls are made about requests, and in whatever order they take their steps. -/
theorem oneResponse_of_run {acts : List Act} (hrun : run {} acts = some s) (id : String) :
    s.OneResponse id := by
  have h := ordered_of_run hrun
  refine ⟨?_, ?_, ?_, fun input hinput => h.first_await hinput, h.unknown,
    fun hknows haccepted hsending input => h.first_respond hknows haccepted hsending,
    fun hknows hanswered input => h.second_respond hknows hanswered, h.second_await,
    (h id).known.symm, fun hended => ?_⟩
  · exact Nat.le_trans (Nat.le_add_left _ _) (h id).sentOnce
  · have honce : (s.ended id).length ≤ 1 := by
      have hbalance := (h id).begun
      have hbegun := (h id).begunOnce
      change (s.account id).ended.length ≤ 1
      omega
    exact Nat.le_trans (List.length_filterMap_le _ _) honce
  · intro payload hpayload
    obtain ⟨input, haccepted, rfl⟩ := h.returned_eq hpayload
    have hinput : input ∈ s.accepted id := by simp [haccepted]
    exact ⟨input, hinput, (h id).addressed input (List.mem_append_right _ hinput), rfl⟩
  · have hslot := (h id).closed hended
    rw [show s.knows id = (s.account id).known from rfl, (h id).known, hslot]
    rfl

theorem oneResponse_of_run_answering : answered.OneResponse "r" ∧
    answered.returned "r" = [KeyMap.singleton "list" (.str "abc")] :=
  ⟨oneResponse_of_run run_answering "r", rfl⟩

end Exchange

end Synchrony
