import Mathlib.Data.List.DropRight
import Synchrony.Concepts.ListCreation
import Synchrony.Proofs.Value.Reading
import Synchrony.Proofs.Value.Sameness

/-!
# Lists and their documents

A stored list is an `Entry`, and what the store has is its document (`Entry.doc`). Here is what the
queries and the writes of the concept come to on documents of entries.
-/

namespace Synchrony

/-! ### Names -/

namespace Text

@[simp] lemma trimChars_trimChars (cs : List Char) : trimChars (trimChars cs) = trimChars cs := by
  have hcut : trimChars cs = (cs.dropWhile isBlank).rdropWhile isBlank := rfl
  have hfront : (trimChars cs).dropWhile isBlank = trimChars cs := by
    refine List.dropWhile_eq_self_iff.2 fun hpos => ?_
    have hinit := List.rdropWhile_prefix isBlank (cs.dropWhile isBlank)
    rw [← hcut] at hinit
    rw [hinit.getElem hpos]
    exact List.dropWhile_get_zero_not isBlank cs (Nat.lt_of_lt_of_le hpos hinit.length_le)
  have hback : (trimChars cs).rdropWhile isBlank = trimChars cs := by
    rw [hcut, List.rdropWhile_idempotent]
  calc trimChars (trimChars cs)
      = ((trimChars cs).dropWhile isBlank).rdropWhile isBlank := rfl
    _ = trimChars cs := by rw [hfront, hback]

@[simp] lemma trim_trim (s : String) : trim (trim s) = trim s := by
  simp [trim]

/-- A text with something in it and without blanks at its ends. -/
def IsName (s : String) : Prop := s ≠ "" ∧ trim s = s

end Text

namespace ListCreation

lemma isName_of_name {input : Fields} {field name : String}
    (h : Arguments.name input field = .ok name) : Text.IsName name := by
  rw [Arguments.name] at h
  split at h
  · cases h
  · split at h
    · cases h
    · rename_i hempty
      cases h
      exact ⟨by simpa using hempty, Text.trim_trim _⟩

/-- A name is a text without the blanks at its ends. -/
lemma exists_text_of_name {input : Fields} {field name : String}
    (h : Arguments.name input field = .ok name) :
    ∃ text, Arguments.text input field = .ok text ∧ Text.trim text = name := by
  rw [Arguments.name] at h
  split at h
  · cases h
  · rename_i text htext
    split at h
    · cases h
    · cases h
      exact ⟨text, htext, rfl⟩

lemma get?_of_text {input : Fields} {field text : String}
    (h : Arguments.text input field = .ok text) :
    input.get? field = some (.str text) := by
  rw [Arguments.text] at h
  split at h
  · rename_i s hs
    cases h
    exact hs
  · cases h
  · cases h

/-- A list that is stored. -/
structure Entry where
  id : String
  name : String
  owner : Option String
  items : List String
  created : String

namespace Entry

/-- The document of a list. -/
def doc (e : Entry) : Fields :=
  Store.withId
    (KeyMap.ofList [
      ("listName", .str e.name),
      ("owner", (e.owner.map Value.str).getD .null),
      ("items", .arr (e.items.map .str)),
      ("createdAt", .str e.created)])
    e.id

lemma get?_doc (e : Entry) (key : String) :
    e.doc.get? key =
      if key = Store.idField then some (.str e.id)
      else if key = "createdAt" then some (.str e.created)
      else if key = "items" then some (.arr (e.items.map .str))
      else if key = "owner" then some ((e.owner.map Value.str).getD .null)
      else if key = "listName" then some (.str e.name)
      else none := by
  simp [doc, Store.withId, KeyMap.ofList, KeyMap.get?_insert]

@[simp] lemma get?_doc_id (e : Entry) : e.doc.get? Store.idField = some (.str e.id) := by
  simp [get?_doc]

@[simp] lemma get?_doc_name (e : Entry) : e.doc.get? "listName" = some (.str e.name) := by
  simp [get?_doc, Store.idField]

@[simp] lemma get?_doc_owner (e : Entry) :
    e.doc.get? "owner" = some ((e.owner.map Value.str).getD .null) := by
  simp [get?_doc, Store.idField]

@[simp] lemma get?_doc_items (e : Entry) :
    e.doc.get? "items" = some (.arr (e.items.map .str)) := by
  simp [get?_doc, Store.idField]

@[simp] lemma string?_doc_id (e : Entry) : e.doc.string? Store.idField = some e.id := by
  simp [KeyMap.string?, Value.asString?]

@[simp] lemma string?_doc_name (e : Entry) : e.doc.string? "listName" = some e.name := by
  simp [KeyMap.string?, Value.asString?]

@[simp] lemma hasId_doc (e : Entry) (id : String) : Store.hasId e.doc id = decide (e.id = id) := by
  simp [Store.hasId]

@[simp] lemma items_doc (e : Entry) : ListCreation.items e.doc = e.items.map Value.str := by
  simp [ListCreation.items, Value.asArray?]

@[simp] lemma any_items_doc (e : Entry) (item : String) :
    (ListCreation.items e.doc).any (·.asString? = some item) = decide (item ∈ e.items) := by
  simp [Value.asString?, List.any_eq]

@[simp] lemma filter_items_doc (e : Entry) (item : String) :
    (ListCreation.items e.doc).filter (·.asString? ≠ some item) =
      (e.items.filter (· ≠ item)).map Value.str := by
  simp [List.filter_map, Function.comp_def, Value.asString?]

lemma patched_doc (e : Entry) (items : List String) :
    Store.patched e.doc (KeyMap.singleton "items" (.arr (items.map .str))) = doc { e with items } := by
  have hinsert : Store.patched e.doc (KeyMap.singleton "items" (.arr (items.map .str))) =
      e.doc.insert "items" (.arr (items.map .str)) := by
    simp [Store.patched, KeyMap.mergeExcept, KeyMap.singleton, KeyMap.insert, KeyMap.empty,
      KeyMap.place, Store.idField]
  refine hinsert.trans (KeyMap.ext_get? fun key => ?_)
  rw [KeyMap.get?_insert, get?_doc, get?_doc]
  split_ifs with hitems hid
  all_goals simp_all [Store.idField]

lemma legible (e : Entry) : Store.Legible e.doc := by
  refine Store.legible_of_plain fun f hf => ?_
  obtain ⟨key, v⟩ := f
  have hget := KeyMap.mem_entries_iff.1 hf
  rw [get?_doc] at hget
  split_ifs at hget
  all_goals obtain rfl := Option.some.inj hget
  · exact .str _ _
  · exact .str _ _
  · exact .arr fun v hv => by
      obtain ⟨item, -, rfl⟩ := List.mem_map.1 hv
      exact .str _ _
  · cases e.owner
    · exact .null _
    · exact .str _ _
  · exact .str _ _

/-! ### Searches -/

lemma matchesFilter_name (e : Entry) (name : String) :
    e.doc.matchesFilter (KeyMap.singleton "listName" (.str name)) = decide (e.name = name) := by
  simp [KeyMap.matchesFilter_singleton]

lemma matchesFilter_owner (e : Entry) (owner : String) :
    e.doc.matchesFilter (KeyMap.singleton "owner" (.str owner)) = decide (e.owner = some owner) := by
  cases howner : e.owner
  all_goals simp [KeyMap.matchesFilter_singleton, KeyMap.string?, howner, Value.asString?]

end Entry

/-! ### Collections of lists -/

/-- A change of the items of a list. -/
inductive Change where
  | add (item : String)
  | remove (item : String)

namespace Change

/-- The item that is added or removed. -/
def item : Change → String
  | add item => item
  | remove item => item

/-- The items after the change. -/
def apply : Change → List String → List String
  | add item, items => items ++ [item]
  | remove item, items => items.filter (· ≠ item)

/-- A name that is not on the list is added, an item that is on the list is removed. -/
def Fits : Change → List String → Prop
  | add item, items => Text.IsName item ∧ item ∉ items
  | remove item, items => item ∈ items

end Change

/-- The list with other items, if it has this identifier. -/
def Entry.withItems (id : String) (items : List String) (e : Entry) : Entry :=
  if e.id = id then { e with items } else e

variable {entries : List Entry} {e : Entry} {id : String}

@[simp] lemma Entry.withItems_id (id : String) (items : List String) (e : Entry) :
    (e.withItems id items).id = e.id := by
  rw [withItems]
  split <;> rfl

@[simp] lemma Entry.withItems_name (id : String) (items : List String) (e : Entry) :
    (e.withItems id items).name = e.name := by
  rw [withItems]
  split <;> rfl

@[simp] lemma Entry.withItems_owner (id : String) (items : List String) (e : Entry) :
    (e.withItems id items).owner = e.owner := by
  rw [withItems]
  split <;> rfl

/-- The lists have names and items, and no name or item twice. -/
structure Orderly (entries : List Entry) : Prop where
  names : (entries.map (·.name)).Nodup
  named : ∀ e ∈ entries, Text.IsName e.name
  distinct : ∀ e ∈ entries, e.items.Nodup
  items : ∀ e ∈ entries, ∀ item ∈ e.items, Text.IsName item

/-- A change that fits leaves the items in order. -/
lemma Change.Fits.nodup {change : Change} {items : List String} (h : change.Fits items)
    (hitems : items.Nodup) : (change.apply items).Nodup := by
  cases change with
  | add item =>
    refine List.nodup_append.2 ⟨hitems, List.nodup_singleton _, fun a ha b hb => ?_⟩
    rw [List.mem_singleton.1 hb]
    exact fun heq => h.2 (heq ▸ ha)
  | remove item => exact hitems.filter _

lemma Change.Fits.isName {change : Change} {items : List String} (h : change.Fits items)
    (hitems : ∀ item ∈ items, Text.IsName item) :
    ∀ item ∈ change.apply items, Text.IsName item := by
  cases change with
  | add item => exact List.forall_mem_append.2 ⟨hitems, List.forall_mem_singleton.2 h.1⟩
  | remove item => exact fun other hother => hitems other (List.mem_of_mem_filter hother)

namespace Orderly

lemma nil : Orderly [] := ⟨List.nodup_nil, by simp, by simp, by simp⟩

lemma create (h : Orderly entries) (hname : Text.IsName e.name)
    (hnew : ∀ f ∈ entries, f.name ≠ e.name)
    (hitems : e.items = []) : Orderly (entries ++ [e]) := by
  refine ⟨?_, ?_, ?_, ?_⟩
  · rw [List.map_append, List.nodup_append]
    refine ⟨h.names, List.nodup_singleton _, ?_⟩
    intro a ha b hb
    obtain ⟨f, hf, rfl⟩ := List.mem_map.1 ha
    rw [List.map_singleton, List.mem_singleton] at hb
    exact hb ▸ hnew f hf
  · exact List.forall_mem_append.2 ⟨h.named, List.forall_mem_singleton.2 hname⟩
  · refine List.forall_mem_append.2 ⟨h.distinct, List.forall_mem_singleton.2 ?_⟩
    simp [hitems]
  · refine List.forall_mem_append.2 ⟨h.items, List.forall_mem_singleton.2 ?_⟩
    simp [hitems]

lemma sublist (h : Orderly entries) {kept : List Entry} (hsub : kept.Sublist entries) :
    Orderly kept :=
  ⟨h.names.sublist (hsub.map _), fun e he => h.named e (hsub.subset he),
    fun e he => h.distinct e (hsub.subset he), fun e he => h.items e (hsub.subset he)⟩

/-- Changes of the items of one list keep the lists in order if its items stay in order. -/
lemma withItems (h : Orderly entries) {items : List String} (hdistinct : items.Nodup)
    (hitems : ∀ item ∈ items, Text.IsName item) :
    Orderly (entries.map (Entry.withItems id items)) := by
  refine ⟨?_, ?_, ?_, ?_⟩
  · simpa [List.map_map, Function.comp_def] using h.names
  · simpa using h.named
  · refine List.forall_mem_map.2 fun e he => ?_
    rw [Entry.withItems]
    split
    · exact hdistinct
    · exact h.distinct e he
  · refine List.forall_mem_map.2 fun e he => ?_
    rw [Entry.withItems]
    split
    · exact hitems
    · exact h.items e he

end Orderly

end ListCreation

end Synchrony
