import Synchrony.Proofs.Notifying.Answers
import Synchrony.Proofs.Value.Numbers

/-!
# Deliveries

The calls of the concept so far say what an inbox has to show: one entry for each call of `notify`
that succeeded, with what it was given, and read if `markRead` named it later (`Notifying.Shows`).
A stored notification is the document of such a call as the later calls left it
(`Notifying.docAfter`), and its view is an entry as it has to be (`Notifying.shows_view`).
-/

namespace Synchrony.Notifying

/-! ### Calls -/

/-- A call that was answered: its action and input, and the resources before and after it. -/
structure Turn where
  action : String
  input : Fields
  before : Resources
  result : Except ConceptError Fields
  after : Resources

namespace Turn

/-- Whether the call failed: its output names an error. -/
def fails (t : Turn) : Bool := (outputOf t.result).contains "error"

/-- What the clock showed when it was read in the call. -/
def time (t : Turn) : Timestamp := t.before.readClock.1

/-- Whether the call sent a notification. -/
def delivers (t : Turn) : Bool := t.action = "notify" && !t.fails

/-- Whether the call was to mark the notification with this identifier. -/
def marks (t : Turn) (id : String) : Bool :=
  t.action = "markRead" && t.input.string? "notification" = some id

/-- The identifier that was the next one before the call. -/
def nextId (t : Turn) : String := Resources.idText (t.before.drawn + 1)

end Turn

/-- The calls that sent a notification, each with the calls after it. -/
def deliveries : List Turn → List (Turn × List Turn)
  | [] => []
  | t :: later => if t.delivers then (t, later) :: deliveries later else deliveries later

/-- One call more comes after all others. -/
lemma deliveries_concat (turns : List Turn) (t : Turn) :
    deliveries (turns ++ [t]) =
      (deliveries turns).map (fun d => (d.1, d.2 ++ [t])) ++
        if t.delivers then [(t, [])] else [] := by
  induction turns with
  | nil => simp [deliveries]
  | cons first turns ih =>
    rw [List.cons_append, deliveries, deliveries, ih]
    split <;> rfl

lemma fst_mem_of_mem_deliveries {turns : List Turn} {d : Turn × List Turn}
    (h : d ∈ deliveries turns) : d.1 ∈ turns ∧ d.1.delivers = true := by
  induction turns with
  | nil => cases h
  | cons t turns ih =>
    rw [deliveries] at h
    split at h
    · rename_i hdelivers
      rcases List.mem_cons.1 h with rfl | h
      · exact ⟨List.mem_cons_self, hdelivers⟩
      · exact (ih h).imp_left (List.mem_cons_of_mem t)
    · exact (ih h).imp_left (List.mem_cons_of_mem t)

/-! ### Documents -/

/-- The document of a notification, as the calls after it left it. -/
def docAfter (t : Turn) (later : List Turn) : Fields :=
  (docOf t.input t.before).insert "read" (.bool (later.any (·.marks t.nextId)))

lemma docAfter_nil (t : Turn) : docAfter t [] = docOf t.input t.before := by
  refine KeyMap.insert_of_get? ?_
  simp [docOf, Store.withId, newDoc, Store.idField, KeyMap.get?_insert]

@[simp] lemma get?_docAfter_id (t : Turn) (later : List Turn) :
    (docAfter t later).get? Store.idField = some (.str t.nextId) := by
  simp [docAfter, docOf, Store.withId, Store.idField, KeyMap.get?_insert, Turn.nextId]

@[simp] lemma get?_docAfter_createdAt (t : Turn) (later : List Turn) :
    (docAfter t later).get? "createdAt" = some (.str t.time.offsetText) := by
  simp [docAfter, docOf, Store.withId, newDoc, Store.idField, KeyMap.get?_insert, Turn.time]

@[simp] lemma get?_docAfter_read (t : Turn) (later : List Turn) :
    (docAfter t later).get? "read" = some (.bool (later.any (·.marks t.nextId))) :=
  KeyMap.get?_insert_self _ _ _

/-- The fields that the concept does not set are those of the input. -/
lemma get?_docAfter {key : String} (h : key ∉ [Store.idField, "read", "createdAt"]) (t : Turn)
    (later : List Turn) : (docAfter t later).get? key = t.input.get? key := by
  simp only [List.mem_cons, List.not_mem_nil, or_false, not_or] at h
  simp [docAfter, docOf, Store.withId, newDoc, KeyMap.get?_insert, h]

lemma legible_docAfter {t : Turn} (h : ∀ e ∈ t.input.entries, Value.Exact 126 e.2)
    (later : List Turn) : Store.Legible (docAfter t later) := by
  apply Store.legible_of_exact
  have hdoc : ∀ e ∈ (docOf t.input t.before).entries, Value.Exact 126 e.2 :=
    KeyMap.forall_mem_insert (KeyMap.forall_mem_insert (KeyMap.forall_mem_insert h (.bool _ _))
      (.str _ _)) (.str _ _)
  exact KeyMap.forall_mem_insert hdoc (.bool _ _)

/-- One call more may mark the notification. -/
lemma docAfter_concat (t : Turn) (later : List Turn) (last : Turn) :
    docAfter t (later ++ [last]) =
      if last.marks t.nextId then Store.patched (docAfter t later) readPatch
      else docAfter t later := by
  rw [patched_readPatch, docAfter, docAfter, List.any_append]
  split
  · rename_i hmarks
    simp [hmarks, KeyMap.insert_insert]
  · rename_i hmarks
    simp [hmarks]

/-! ### Entries -/

/--
What an inbox has to show of a call that sent a notification, if these calls came after it: the
fields of the input, but for those that the concept sets, whatever the input has there.
-/
structure Shows (entry : Fields) (t : Turn) (later : List Turn) : Prop where
  kept : ∀ key, key ∉ ["_id", "read", "createdAt", "notification"] →
    entry.get? key = t.input.get? key
  bare : entry.get? "_id" = none
  created : entry.get? "createdAt" = some (.str t.time.offsetText)
  /-- The identifier is the one that was answered, and the notification is read if a call was to
  mark it. -/
  named : ∃ id, t.result = .ok (named id) ∧ entry.get? "notification" = some (.str id) ∧
    entry.get? "read" = some (.bool (later.any (·.marks id)))

lemma view_eq {doc : Fields} {id : Value} (h : doc.get? Store.idField = some id) :
    view doc = (doc.erase Store.idField).insert "notification" id := by
  rw [view, h]

/-- Only the identifier is shown in another place. -/
lemma get?_view {doc : Fields} {id : Value} (h : doc.get? Store.idField = some id) {key : String}
    (hid : key ≠ Store.idField) (hnotification : key ≠ "notification") :
    (view doc).get? key = doc.get? key := by
  rw [view_eq h, KeyMap.get?_insert_of_ne _ _ hnotification, KeyMap.get?_erase, if_neg hid]

/-- The view of a document is an entry of the inbox. -/
lemma shows_view {t : Turn} (hresult : t.result = .ok (named t.nextId)) (later : List Turn) :
    Shows (view (docAfter t later)) t later := by
  have hid := get?_docAfter_id t later
  refine ⟨fun key hkey => ?_, ?_, ?_, t.nextId, hresult, ?_, ?_⟩
  · simp only [List.mem_cons, List.not_mem_nil, or_false, not_or] at hkey
    rw [get?_view hid hkey.1 hkey.2.2.2]
    exact get?_docAfter (by simp [Store.idField, hkey]) t later
  · rw [view_eq hid, KeyMap.get?_insert_of_ne _ _ (by decide)]
    exact KeyMap.get?_erase_self _ _
  · rw [get?_view hid (by decide) (by decide), get?_docAfter_createdAt]
  · rw [view_eq hid, KeyMap.get?_insert_self]
  · rw [get?_view hid (by decide) (by decide), get?_docAfter_read]

/-! ### The order of an inbox -/

lemma optionLe_trans {a b c : Option String} (hab : optionLe a b = true)
    (hbc : optionLe b c = true) : optionLe a c = true := by
  rcases a with _ | a
  · rfl
  rcases b with _ | b
  · cases hab
  rcases c with _ | c
  · cases hbc
  simp only [optionLe, decide_eq_true_eq] at *
  exact Std.le_trans hab hbc

lemma optionLe_antisymm {a b : Option String} (hab : optionLe a b = true)
    (hba : optionLe b a = true) : a = b := by
  rcases a with _ | a <;> rcases b with _ | b
  · rfl
  · cases hba
  · cases hab
  · simp only [optionLe, decide_eq_true_eq] at *
    exact congrArg some (Std.le_antisymm hab hba)

lemma optionLe_total (a b : Option String) : (optionLe a b || optionLe b a) = true := by
  rcases a with _ | a <;> rcases b with _ | b
  · rfl
  · rfl
  · rfl
  · simpa [optionLe] using String.le_total a b

lemma timeLe_trans (a b c : Fields) (hab : timeLe a b = true) (hbc : timeLe b c = true) :
    timeLe a c = true := by
  rw [timeLe] at *
  split at hab
  · rename_i heq
    rw [heq]
    split at hbc
    · rename_i heq'
      rw [if_pos heq']
      exact optionLe_trans hab hbc
    · rename_i hne
      rwa [if_neg hne]
  · rename_i hne
    split at hbc
    · rename_i heq
      rwa [← heq, if_neg hne]
    · rename_i hne'
      rw [if_neg]
      · exact optionLe_trans hab hbc
      · intro heq
        rw [heq] at hab
        exact hne' (optionLe_antisymm hbc hab)

lemma timeLe_total (a b : Fields) : (timeLe a b || timeLe b a) = true := by
  rw [timeLe, timeLe]
  by_cases heq : a.string? "createdAt" = b.string? "createdAt"
  · rw [if_pos heq, if_pos heq.symm]
    exact optionLe_total _ _
  · rw [if_neg heq, if_neg (Ne.symm heq)]
    exact optionLe_total _ _

/-- Documents of strictly increasing times are in order, and there is no other order for them. -/
lemma mergeSort_eq {found docs : List Fields} (hperm : found.Perm docs)
    (hdocs : docs.Pairwise fun a b => timeLe a b = true ∧ timeLe b a = false) :
    found.mergeSort timeLe = docs := by
  refine List.Perm.eq_of_pairwise ?_ (List.pairwise_mergeSort timeLe_trans timeLe_total found)
    (hdocs.imp And.left) ((List.mergeSort_perm found timeLe).trans hperm)
  intro a b ha hb hab hba
  by_contra hne
  let Tied (a b : Fields) : Prop := timeLe a b = true ∧ timeLe b a = true
  have hstrict : docs.Pairwise fun a b => ¬ Tied a b :=
    hdocs.imp fun ⟨_, hfalse⟩ htied => absurd (hfalse.symm.trans htied.2) (by decide)
  have : Std.Symm fun a b => ¬ Tied a b := ⟨fun _ _ h htied => h htied.symm⟩
  have hmem : a ∈ docs := hperm.mem_iff.1 (List.mem_mergeSort.1 ha)
  exact hstrict.forall hmem hb hne ⟨hab, hba⟩

/-- Documents are in the order of their times. -/
lemma timeLe_docAfter {t u : Turn} (h : t.time.offsetText < u.time.offsetText)
    (later later' : List Turn) :
    timeLe (docAfter t later) (docAfter u later') = true ∧
      timeLe (docAfter u later') (docAfter t later) = false := by
  have hne : t.time.offsetText ≠ u.time.offsetText := Std.ne_of_lt h
  have hle : t.time.offsetText ≤ u.time.offsetText := Std.le_of_lt h
  have hnot : ¬ u.time.offsetText ≤ t.time.offsetText := fun hge => hne (Std.le_antisymm hle hge)
  simp [timeLe, KeyMap.string?, Value.asString?, optionLe, hne, hne.symm, hle, hnot]

end Synchrony.Notifying
