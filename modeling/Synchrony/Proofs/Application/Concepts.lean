import Synchrony.Proofs.Application.Rules
import Synchrony.Proofs.Work.Uses

/-!
# What the concepts of the application use

Each concept keeps to a collection of its own. So lists are left alone by all actions but those of the
lists, and notifications by all but those of the notifications.
-/

namespace Synchrony

/-! ### Collections -/

namespace ListCreation

variable (store : String) (input : Fields)

lemma uses_storeItems (list item : String) (items : List Value) :
    (storeItems store list item items).Uses fun _ op => op.collection = lists :=
  .onStore rfl fun _ => .done _

/-- The actions use the collection of lists only. -/
lemma uses_perform (action : String) :
    ((concept store).perform action input).Uses fun _ op => op.collection = lists := by
  simp only [concept]
  split
  · refine .given fun listName => .given fun owner => .onStore rfl fun existing => ?_
    match (existing : Option Fields) with
    | some _ => exact .done _
    | none => exact .clock fun created => .onStore rfl fun id => .done _
  · refine .given fun list => .onStore rfl fun deleted => ?_
    match (deleted : Bool) with
    | true | false => exact .done _
  · refine .given fun list => .given fun item => .onStore rfl fun found => ?_
    match (found : Option Fields) with
    | none => exact .done _
    | some doc =>
      dsimp only
      split
      · exact .done _
      · exact uses_storeItems store ..
  · refine .given fun list => .given fun item => .onStore rfl fun found => ?_
    match (found : Option Fields) with
    | none => exact .done _
    | some doc =>
      dsimp only
      split
      · exact uses_storeItems store ..
      · exact .done _
  · exact .given fun owner => .onStore rfl fun found => .done _
  · refine .given fun list => .onStore rfl fun found => ?_
    match (found : Option Fields) with
    | some _ | none => exact .done _
  · exact .done _

end ListCreation

namespace Notifying

variable (store : String) (input : Fields)

/-- Marking a notification adds and removes none. -/
lemma uses_markRead : (markRead store input).Uses fun _ op =>
    op.collection = notifications ∧ op.resizes = false := by
  refine .given fun id => .onStore ⟨rfl, rfl⟩ fun found => ?_
  match (found : Option Fields) with
  | none => exact .done _
  | some _ => exact .onStore ⟨rfl, rfl⟩ fun _ => .done _

lemma uses_getNotifications : (getNotifications store input).Uses fun _ op =>
    op.collection = notifications ∧ op.resizes = false :=
  .given fun _ => .onStore ⟨rfl, rfl⟩ fun _ => .done _

/-- The actions use the collection of notifications only. -/
lemma uses_perform (action : String) :
    ((concept store).perform action input).Uses fun _ op => op.collection = notifications := by
  simp only [concept]
  split
  · exact .given fun _ => .given fun _ => .clock fun _ => .onStore rfl fun _ => .done _
  · exact (uses_markRead store input).imp fun _ _ h => h.1
  · exact (uses_getNotifications store input).imp fun _ _ h => h.1
  · exact .done _

/-- Only sending adds notifications. -/
lemma uses_perform_of_ne {action : String} (h : action ≠ "notify") :
    ((concept store).perform action input).Uses fun _ op => op.resizes = false := by
  simp only [concept]
  split
  · exact absurd rfl h
  · exact (uses_markRead store input).imp fun _ _ h => h.2
  · exact (uses_getNotifications store input).imp fun _ _ h => h.2
  · exact .done _

end Notifying

namespace Requesting

/-- The actions use no collection. -/
lemma uses_perform (action : String) (input : Fields) :
    (concept.perform action input).Uses fun _ _ => False := by
  simp only [concept]
  split
  · exact .request fun _ => .done _
  · rw [respond]
    split
    · refine .respond fun answer => ?_
      cases answer <;> exact .done _
    · exact .done _
  · exact .done _

end Requesting

namespace Application

variable {store : String} {action : ActionRef} {handle : Handle Concept}

/-- Each action is one of the three concepts'. -/
lemma performer_of_lookup? (h : (registry store).lookup? action = some handle) :
    action.concept = Requesting.conceptName ∧ handle.performer = Requesting.concept ∨
      action.concept = ListCreation.conceptName ∧ handle.performer = ListCreation.concept store ∨
        action.concept = Notifying.conceptName ∧ handle.performer = Notifying.concept store := by
  rw [Registry.lookup?_eq, Option.bind_eq_some_iff] at h
  obtain ⟨registered, hregistered, h⟩ := h
  obtain ⟨spec, -, rfl⟩ := Option.map_eq_some_iff.1 h
  rw [registry, KeyMap.get?_insert, KeyMap.get?_insert, KeyMap.get?_insert] at hregistered
  split_ifs at hregistered with hnotifying hlists hrequesting
  · cases hregistered
    exact .inr (.inr ⟨hnotifying, rfl⟩)
  · cases hregistered
    exact .inr (.inl ⟨hlists, rfl⟩)
  · cases hregistered
    exact .inl ⟨hrequesting, rfl⟩
  · cases hregistered

lemma uses_of_ne_listCreation (h : (registry store).lookup? action = some handle)
    (hne : action.concept ≠ ListCreation.conceptName) (input : Fields) :
    (handle.performer.perform action.action input).Uses fun _ op =>
      op.collection ≠ ListCreation.lists := by
  rcases performer_of_lookup? h with ⟨-, heq⟩ | ⟨hlists, -⟩ | ⟨-, heq⟩
  · rw [heq]
    exact (Requesting.uses_perform _ input).imp fun _ _ => False.elim
  · exact absurd hlists hne
  · rw [heq]
    exact (Notifying.uses_perform store input _).imp fun _ _ hop => hop ▸ by decide

lemma uses_of_ne_notifying (h : (registry store).lookup? action = some handle)
    (hne : action.concept ≠ Notifying.conceptName) (input : Fields) :
    (handle.performer.perform action.action input).Uses fun _ op =>
      op.collection ≠ Notifying.notifications := by
  rcases performer_of_lookup? h with ⟨-, heq⟩ | ⟨-, heq⟩ | ⟨hnotices, -⟩
  · rw [heq]
    exact (Requesting.uses_perform _ input).imp fun _ _ => False.elim
  · rw [heq]
    exact (ListCreation.uses_perform store input _).imp fun _ _ hop => hop ▸ by decide
  · exact absurd hnotices hne

/-- No action but sending adds or removes notifications. -/
lemma uses_of_ne_notify (h : (registry store).lookup? action = some handle)
    (hne : action ≠ noticeAction "notify") (input : Fields) :
    (handle.performer.perform action.action input).Uses fun name op =>
      (name ≠ store ∨ op.collection ≠ Notifying.notifications) ∨ op.resizes = false := by
  by_cases hconcept : action.concept = Notifying.conceptName
  · have hperformer : handle.performer = Notifying.concept store := by
      rcases performer_of_lookup? h with ⟨hother, -⟩ | ⟨hother, -⟩ | ⟨-, heq⟩
      · exact absurd (hconcept.symm.trans hother) (by decide)
      · exact absurd (hconcept.symm.trans hother) (by decide)
      · exact heq
    have haction : action.action ≠ "notify" := by
      rintro heq
      obtain ⟨concept, name⟩ := action
      cases hconcept
      cases heq
      exact hne rfl
    rw [hperformer]
    exact (Notifying.uses_perform_of_ne store input haction).imp fun _ _ hop => .inr hop
  · exact (uses_of_ne_notifying h hconcept input).imp fun _ _ hop => .inl (.inr hop)

end Application

end Synchrony
