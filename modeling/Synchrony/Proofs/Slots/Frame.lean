import Synchrony.Proofs.Slots.Ledger

/-!
# What operations leave alone

Operations on the slot of one request leave what concerns other requests as it is.
-/

namespace Synchrony.Slots

variable {s s' s'' : Slots} {id other : String}

/-- The slots differ at most in what concerns one request. -/
def AgreeBut (id : String) (s s' : Slots) : Prop := ∀ other, other ≠ id →
  s'.live.get? other = s.live.get? other ∧ s'.waiting.get? other = s.waiting.get? other

namespace AgreeBut

lemma refl (id : String) (s : Slots) : AgreeBut id s s := fun _ _ => ⟨rfl, rfl⟩

lemma trans (h : AgreeBut id s s') (h' : AgreeBut id s' s'') : AgreeBut id s s'' :=
  fun other hother =>
    ⟨(h' other hother).1.trans (h other hother).1, (h' other hother).2.trans (h other hother).2⟩

end AgreeBut

variable (s id)

lemma agreeBut_request : AgreeBut id s (s.request id) := fun _ hother =>
  ⟨KeyMap.get?_insert_of_ne _ _ hother, rfl⟩

lemma agreeBut_send (payload : Fields) : AgreeBut id s (s.send id payload) := fun other hother =>
  ⟨by rw [get?_live_send, if_neg hother], by rw [get?_waiting_send, if_neg hother]⟩

lemma agreeBut_abandon : AgreeBut id s (s.abandon id) := fun other hother =>
  ⟨by rw [get?_live_abandon, if_neg hother], by rw [get?_waiting_abandon, if_neg hother]⟩

lemma agreeBut_stopAwait : AgreeBut id s (s.stopAwait id) := fun other hother =>
  ⟨rfl, by rw [stopAwait, KeyMap.get?_erase, if_neg hother]⟩

lemma agreeBut_endAwait : AgreeBut id s (s.endAwait id) :=
  (s.agreeBut_stopAwait id).trans ((s.stopAwait id).agreeBut_abandon id)

variable {s id}

lemma agreeBut_take (h : s.take id = .ok s') : AgreeBut id s s' := by
  obtain ⟨slot, -, -, rfl⟩ := take_eq_ok h
  exact fun _ hother => ⟨KeyMap.get?_insert_of_ne _ _ hother, rfl⟩

lemma agreeBut_beginAwait {process : Nat} (h : s.beginAwait process id = .ok s') :
    AgreeBut id s s' := by
  obtain ⟨slot, -, -, rfl⟩ := beginAwait_eq_ok h
  exact fun _ hother =>
    ⟨KeyMap.get?_insert_of_ne _ _ hother, KeyMap.get?_insert_of_ne _ _ hother⟩

/-! ### What a waiting party relies on -/

/-- The slots show a request the same: the response, and who waits. -/
def SameFor (id : String) (s s' : Slots) : Prop :=
  (∀ slot, s.live.get? id = some slot → ∃ slot', s'.live.get? id = some slot' ∧
    slot'.response = slot.response ∧ slot'.awaited = slot.awaited) ∧
  s'.waiting.get? id = s.waiting.get? id

lemma SameFor.of_eq (hlive : s'.live.get? id = s.live.get? id)
    (hwaiting : s'.waiting.get? id = s.waiting.get? id) : SameFor id s s' :=
  ⟨fun slot hslot => ⟨slot, hlive.trans hslot, rfl, rfl⟩, hwaiting⟩

lemma SameFor.of_agreeBut (h : AgreeBut id s s') (hother : other ≠ id) : SameFor other s s' :=
  .of_eq (h other hother).1 (h other hother).2

lemma SameFor.of_take (h : s.take id = .ok s') (other : String) : SameFor other s s' := by
  by_cases heq : other = id
  · subst heq
    obtain ⟨slot, hslot, -, rfl⟩ := take_eq_ok h
    refine ⟨fun slot' hslot' => ⟨_, KeyMap.get?_insert_self .., ?_⟩, rfl⟩
    cases hslot.symm.trans hslot'
    exact ⟨rfl, rfl⟩
  · exact .of_agreeBut (agreeBut_take h) heq

/-! ### Which slots are live -/

@[simp] lemma get?_live_abandon_self : (s.abandon id).live.get? id = none := by
  rw [get?_live_abandon, if_pos rfl]

@[simp] lemma get?_live_endAwait_self : (s.endAwait id).live.get? id = none := by
  rw [get?_live_endAwait, if_pos rfl]

lemma contains_request : (s.request id).live.contains other = (other = id || s.live.contains other) := by
  by_cases h : other = id <;> simp [request, KeyMap.contains, KeyMap.get?_insert, h]

lemma contains_send (payload : Fields) :
    (s.send id payload).live.contains other = s.live.contains other := by
  by_cases h : other = id <;> simp [KeyMap.contains, get?_live_send, h]

lemma contains_take (h : s.take id = .ok s') : s'.live.contains other = s.live.contains other := by
  obtain ⟨slot, hslot, -, rfl⟩ := take_eq_ok h
  by_cases heq : other = id <;> simp [KeyMap.contains, KeyMap.get?_insert, heq, hslot]

lemma contains_beginAwait {process : Nat} (h : s.beginAwait process id = .ok s') :
    s'.live.contains other = s.live.contains other := by
  obtain ⟨slot, hslot, -, rfl⟩ := beginAwait_eq_ok h
  by_cases heq : other = id <;> simp [KeyMap.contains, KeyMap.get?_insert, heq, hslot]

lemma get?_live_release (ids : List String) : (s.release ids).live.get? other =
    if other ∈ ids then none else s.live.get? other := by
  induction ids generalizing s with
  | nil => rfl
  | cons id rest ih =>
    change ((s.abandon id).release rest).live.get? other = _
    rw [ih, get?_live_abandon]
    by_cases hid : other = id <;> simp [hid]

lemma get?_waiting_release {ids : List String} (h : other ∉ ids) :
    (s.release ids).waiting.get? other = s.waiting.get? other := by
  induction ids generalizing s with
  | nil => rfl
  | cons id rest ih =>
    obtain ⟨hid, hrest⟩ := not_or.1 (fun hmem => h (List.mem_cons.2 hmem))
    change ((s.abandon id).release rest).waiting.get? other = _
    rw [ih hrest, get?_waiting_abandon, if_neg hid]

/-- The slots are the same for a request: its slot, and what those see who wait. -/
def AgreeAt (id : String) (s s' : Slots) : Prop :=
  s'.live.get? id = s.live.get? id ∧ s'.waiting.get? id = s.waiting.get? id

lemma agreeAt_release {ids : List String} (h : id ∉ ids) : AgreeAt id s (s.release ids) :=
  ⟨by rw [get?_live_release, if_neg h], get?_waiting_release h⟩

lemma SameFor.of_release {ids : List String} (h : id ∉ ids) : SameFor id s (s.release ids) :=
  .of_eq (by rw [get?_live_release, if_neg h]) (get?_waiting_release h)

end Synchrony.Slots
