import Synchrony.Concepts.Notifying
import Synchrony.Proofs.Work.Uses

/-!
# Notifications that are sent

A notification with a recipient and a topic becomes one document more in the store, under an
identifier of its own (`Notifying.exists_run_notify`). Without a recipient nothing is stored.
-/

namespace Synchrony

/-- What holds of a value and of all values of a map holds of all values of the map with that value.
-/
lemma KeyMap.forall_mem_insert {α : Type} {P : α → Prop} {m : KeyMap α} {key : String} {a : α}
    (hm : ∀ e ∈ m.entries, P e.2) (ha : P a) : ∀ e ∈ (m.insert key a).entries, P e.2 := by
  rintro ⟨other, b⟩ he
  have hget := mem_entries_iff.1 he
  rw [get?_insert] at hget
  split at hget
  · cases hget
    exact ha
  · exact hm (other, b) (mem_entries_iff.2 hget)

/-- Work that is done after its operation on a store. -/
lemma Work.exists_run_onStore (name : String) (op : Store.Op)
    (answer : op.Result → Except ConceptError Fields) (r : Resources) :
    ∃ result, (Work.onStore name op fun x => .done (answer x)).run r =
      (.finished result, (r.onStore name op).2) := by
  rcases hr : r.onStore name op with ⟨found, r'⟩
  cases found with
  | error e => exact ⟨.error (.store e), by simp [Work.onStore, Work.run, hr, Work.fail]⟩
  | ok x => exact ⟨answer x, by simp [Work.onStore, Work.run, hr]⟩

namespace Notifying

variable {store recipient topic : String} {input : Fields} {r : Resources}

lemma isCollection_notifications : Store.isCollection notifications = true := by decide

/-- The document of a new notification. -/
def docOf (input : Fields) (r : Resources) : Fields :=
  Store.withId (newDoc input r.readClock.1) (Resources.idText (r.drawn + 1))

/-- A notification of plain values can be read back. -/
lemma legible_docOf (hinput : ∀ e ∈ input.entries, Value.Plain 126 e.2) (r : Resources) :
    Store.Legible (docOf input r) := by
  apply Store.legible_of_plain
  refine KeyMap.forall_mem_insert (KeyMap.forall_mem_insert (KeyMap.forall_mem_insert hinput ?_) ?_) ?_
  · exact .bool _ _
  · exact .str _ _
  · exact .str _ _

/-- A notification with a recipient and a topic becomes one document more. -/
theorem exists_run_notify (hrecipient : Arguments.name input "recipient" = .ok recipient)
    (htopic : Arguments.name input "topic" = .ok topic) (hdrawn : r.IdsDrawn store notifications)
    (hinput : ∀ e ∈ input.entries, Value.Plain 126 e.2) :
    ∃ result r', (notify store input).run r = (.finished result, r') ∧
      Store.Adds notifications (Resources.idText (r.drawn + 1)) (docOf input r) (r.storeNamed store)
        (r'.storeNamed store) := by
  let op : Store.Op := .insert notifications (newDoc input r.readClock.1)
  obtain ⟨result, hrun⟩ := Work.exists_run_onStore store op (fun id => .ok (named id)) r.readClock.2
  refine ⟨result, (r.readClock.2.onStore store op).2, ?_, ?_⟩
  · rw [notify, hrecipient, htopic]
    exact hrun
  · rw [(r.readClock.2.leaves_onStore store op).stored, if_pos rfl]
    refine Store.adds_perform_insert isCollection_notifications (fun hmem => ?_) (legible_docOf hinput r)
    exact r.idText_notMem_drawnIds (hdrawn _ hmem)

/-- Nothing happens without a recipient. -/
lemma run_notify_of_error {e : ConceptError} (h : Arguments.name input "recipient" = .error e) :
    (notify store input).run r = (.finished (.error e), r) := by
  rw [notify, h]
  rfl

end Notifying

end Synchrony
