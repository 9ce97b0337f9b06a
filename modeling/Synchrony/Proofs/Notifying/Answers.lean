import Synchrony.Proofs.Notifying.Sending
import Synchrony.Proofs.Work.Listing
import Synchrony.Proofs.Work.Steps

/-!
# What the calls about notifications come to

What each call answers over a store that has some notifications, and what notifications the store
has then. A call that fails changes nothing, whatever the store has
(`Notifying.untouched_of_fails`).
-/

namespace Synchrony

lemma Arguments.text_eq_ok_iff {input : Fields} {name s : String} :
    text input name = .ok s ↔ input.string? name = some s := by
  rw [text, KeyMap.string?]
  cases input.get? name with
  | none => simp
  | some v => cases v <;> simp [Value.asString?]

namespace Notifying

/-! ### What the calls come to -/

/-- A patch that says that a notification is read. -/
def readPatch : Fields := KeyMap.singleton "read" (.bool true)

lemma patched_readPatch (doc : Fields) :
    Store.patched doc readPatch = doc.insert "read" (.bool true) := rfl

section Answers

variable {store recipient topic id : String} {docs : List Fields} {r r' : Resources}
  {input : Fields} {doc : Fields} {e : ConceptError}

/-- Nothing happens without a topic. -/
lemma run_notify_of_topic (hrecipient : Arguments.name input "recipient" = .ok recipient)
    (htopic : Arguments.name input "topic" = .error e) :
    (notify store input).run r = (.finished (.error e), r) := by
  rw [notify, hrecipient, htopic]
  rfl

lemma run_markRead_of_error (hid : Arguments.text input "notification" = .error e) :
    (markRead store input).run r = (.finished (.error e), r) := by
  rw [markRead, hid]
  rfl

lemma run_getNotifications_of_error (hrecipient : Arguments.text input "recipient" = .error e) :
    (getNotifications store input).run r = (.finished (.error e), r) := by
  rw [getNotifications, hrecipient]
  rfl

variable (h : r.Lists store notifications docs)
include h

/-- A notification with a recipient and a topic is stored, if it can be read back. -/
lemma run_notify (hrecipient : Arguments.name input "recipient" = .ok recipient)
    (htopic : Arguments.name input "topic" = .ok topic) : ∃ r',
      (notify store input).run r =
        (.finished (.ok (named (Resources.idText (r.drawn + 1)))), r') ∧
      r'.readings = r.readings + 1 ∧
      (((r.storeNamed store).isDurable = true → Store.Legible (docOf input r)) →
        r'.Lists store notifications (docs ++ [docOf input r])) := by
  let r₁ := r.readClock.2
  have hlists : r₁.Lists store notifications docs := h.of_untouched ⟨rfl, fun _ => rfl⟩
  let op : Store.Op := .insert notifications (newDoc input r.readClock.1)
  obtain ⟨r', hr, hstored⟩ :=
    hlists.onStore_insert isCollection_notifications (newDoc input r.readClock.1)
  refine ⟨r', ?_, ?_, hstored⟩
  · rw [notify, hrecipient, htopic]
    exact Work.run_onStore_of_ok hr
  · have hreadings := r₁.readings_onStore store op
    rw [hr] at hreadings
    exact hreadings

/-- There is nothing to mark under any other identifier. -/
lemma run_markRead_of_none (hid : Arguments.text input "notification" = .ok id)
    (hfound : docs.find? (Store.hasId · id) = none) : ∃ r',
      (markRead store input).run r =
        (.finished (.ok (errorOutput s!"Notification '{id}' not found.")), r') ∧
      r.Untouched r' ∧ r'.readings = r.readings := by
  obtain ⟨r', hr, hsame⟩ := h.onStore_get isCollection_notifications id
  have hreadings := r.readings_onStore store (.get notifications id)
  rw [hr] at hreadings
  refine ⟨r', ?_, hsame, hreadings⟩
  rw [markRead, hid, Work.given, Work.run_onStore_of_ok hr, hfound]
  rfl

/-- A notification that is there is marked. -/
lemma run_markRead_of_some (hid : Arguments.text input "notification" = .ok id)
    (hfound : docs.find? (Store.hasId · id) = some doc)
    (hlegible : (r.storeNamed store).isDurable = true →
      Store.Legible (Store.patched doc readPatch)) : ∃ r',
      (markRead store input).run r = (.finished (.ok (named id)), r') ∧
      r'.Lists store notifications (docs.map (Store.patchedAt id readPatch)) ∧
      r'.readings = r.readings := by
  obtain ⟨r₁, hget, hsame⟩ := h.onStore_get isCollection_notifications id
  have hlegible₁ : (r₁.storeNamed store).isDurable = true →
      Store.Legible (Store.patched doc readPatch) := by
    rwa [hsame.stored]
  obtain ⟨r', hupdate, hlists⟩ :=
    (h.of_untouched hsame).onStore_update isCollection_notifications hfound hlegible₁
  have hreadings₁ := r.readings_onStore store (.get notifications id)
  have hreadings := r₁.readings_onStore store (.update notifications id readPatch)
  rw [hget] at hreadings₁
  rw [hupdate] at hreadings
  refine ⟨r', ?_, hlists, hreadings.trans hreadings₁⟩
  rw [markRead, hid, Work.given, Work.run_onStore_of_ok hget, hfound]
  exact Work.run_onStore_of_ok hupdate

/-- The answer to a query: the entries of an inbox. -/
def inboxOutput (entries : List Fields) : Fields :=
  KeyMap.singleton "notifications" (.arr (entries.map KeyMap.toValue))

/-- The inbox has the notifications of the recipient in the order of their times. -/
lemma run_getNotifications (hrecipient : Arguments.text input "recipient" = .ok recipient) :
    ∃ (found : List Fields) (r' : Resources),
      (getNotifications store input).run r =
        (.finished (.ok (inboxOutput ((found.mergeSort timeLe).map view))), r') ∧
      found.Perm (docs.filter
        (·.matchesFilter (KeyMap.singleton "recipient" (.str recipient)))) ∧
      r.Untouched r' ∧ r'.readings = r.readings := by
  let filter : Fields := KeyMap.singleton "recipient" (.str recipient)
  obtain ⟨found, r', hr, hperm, hsame⟩ := h.onStore_find isCollection_notifications filter
  have hreadings := r.readings_onStore store (.find notifications filter)
  rw [hr] at hreadings
  refine ⟨found, r', ?_, hperm, hsame, hreadings⟩
  rw [getNotifications, hrecipient, Work.given, Work.run_onStore_of_ok hr, inboxOutput,
    List.map_map]
  rfl

end Answers

/-! ### Calls that fail -/

section Failing

variable {store action : String} {r r' : Resources} {input : Fields}
  {result : Except ConceptError Fields}

lemma untouched_of_notify (hrun : (notify store input).run r = (.finished result, r'))
    (hfails : (outputOf result).contains "error" = true) : r.Untouched r' := by
  cases hrecipient : Arguments.name input "recipient" with
  | error e =>
    obtain ⟨-, rfl⟩ := Work.eq_of_run (run_notify_of_error hrecipient) hrun
    exact .refl r
  | ok recipient =>
    cases htopic : Arguments.name input "topic" with
    | error e =>
      obtain ⟨-, rfl⟩ := Work.eq_of_run (run_notify_of_topic hrecipient htopic) hrun
      exact .refl r
    | ok topic =>
      rw [notify, hrecipient, htopic] at hrun
      have hclock : r.Untouched r.readClock.2 := ⟨rfl, fun _ => rfl⟩
      rcases Work.run_onStore_cases hrun with ⟨e, hr⟩ | ⟨id, r₁, -, hrun⟩
      · exact hclock.trans (Resources.untouched_of_onStore_error hr)
      · -- a notification that is stored is named, and that is no error
        cases hrun
        cases hfails

lemma untouched_of_markRead (hrun : (markRead store input).run r = (.finished result, r'))
    (hfails : (outputOf result).contains "error" = true) : r.Untouched r' := by
  cases hid : Arguments.text input "notification" with
  | error e =>
    obtain ⟨-, rfl⟩ := Work.eq_of_run (run_markRead_of_error hid) hrun
    exact .refl r
  | ok id =>
    rw [markRead, hid] at hrun
    rcases Work.run_onStore_cases hrun with ⟨e, hr⟩ | ⟨found, r₁, hr, hrun⟩
    · exact Resources.untouched_of_onStore_error hr
    have hget := Resources.untouched_of_onStore_get hr
    match (found : Option Fields) with
    | none =>
      cases hrun
      exact hget
    | some doc =>
      rcases Work.run_onStore_cases hrun with ⟨e, hr⟩ | ⟨_, r₂, -, hrun⟩
      · exact hget.trans (Resources.untouched_of_onStore_error hr)
      · cases hrun
        cases hfails

lemma untouched_of_getNotifications
    (hrun : (getNotifications store input).run r = (.finished result, r'))
    (hfails : (outputOf result).contains "error" = true) : r.Untouched r' := by
  cases hrecipient : Arguments.text input "recipient" with
  | error e =>
    obtain ⟨-, rfl⟩ := Work.eq_of_run (run_getNotifications_of_error hrecipient) hrun
    exact .refl r
  | ok recipient =>
    rw [getNotifications, hrecipient] at hrun
    rcases Work.run_onStore_cases hrun with ⟨e, hr⟩ | ⟨found, r₁, -, hrun⟩
    · exact Resources.untouched_of_onStore_error hr
    · cases hrun
      cases hfails

/-- The work of any other action. -/
lemma perform_eq_fail (hnotify : action ≠ "notify") (hmark : action ≠ "markRead")
    (hget : action ≠ "_getNotifications") :
    (concept store).perform action input = .fail (.unknownAction action) := by
  simp only [concept]

/-- A call that fails changes nothing. -/
theorem untouched_of_fails
    (hrun : ((concept store).perform action input).run r = (.finished result, r'))
    (hfails : (outputOf result).contains "error" = true) : r.Untouched r' := by
  by_cases hnotify : action = "notify"
  · subst hnotify
    exact untouched_of_notify hrun hfails
  by_cases hmark : action = "markRead"
  · subst hmark
    exact untouched_of_markRead hrun hfails
  by_cases hget : action = "_getNotifications"
  · subst hget
    exact untouched_of_getNotifications hrun hfails
  · rw [perform_eq_fail hnotify hmark hget] at hrun
    cases hrun
    exact .refl r

end Failing

end Notifying

end Synchrony
