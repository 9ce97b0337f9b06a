import Synchrony.Proofs.ListCreation.Entries
import Synchrony.Proofs.Work.Resources

/-!
# Operations on stored lists

What the store operations of the concept come to if a store has exactly some lists (`Has`): one
lemma for each operation, with its answer and the lists that the store has afterwards.
-/

namespace Synchrony.ListCreation

variable {entries : List Entry} {e : Entry} {id store : String} {r r' : Resources}

/-- The store has exactly these lists, under identifiers that were drawn. -/
def Has (store : String) (entries : List Entry) (r : Resources) : Prop :=
  r.Keeps store lists (entries.map Entry.doc)

lemma isCollection_lists : Store.isCollection lists = true := by decide

/-- What a search for all lists finds. -/
def contents (store : String) (r : Resources) : Except StoreError (List Fields) :=
  ((r.storeNamed store).perform "" (.find lists .empty)).1

lemma has_nil (h : contents store r = .ok []) : Has store [] r := Store.keeps_nil h

lemma find?_hasId_map_doc (entries : List Entry) (id : String) :
    (entries.map Entry.doc).find? (Store.hasId · id) =
      (entries.find? (·.id = id)).map Entry.doc := by
  simp [List.find?_map]

lemma any_hasId_map_doc (entries : List Entry) (id : String) :
    (entries.map Entry.doc).any (Store.hasId · id) = entries.any (·.id = id) := by
  simp [List.any_map, Function.comp_def]

lemma filter_hasId_map_doc (entries : List Entry) (id : String) :
    (entries.map Entry.doc).filter (! Store.hasId · id) =
      (entries.filter (·.id ≠ id)).map Entry.doc := by
  simp [List.filter_map, Function.comp_def]

lemma patchedAt_doc (e : Entry) (id : String) (items : List String) :
    Store.patchedAt id (KeyMap.singleton "items" (.arr (items.map .str))) e.doc =
      (e.withItems id items).doc := by
  rw [Store.patchedAt, Entry.withItems, Entry.hasId_doc, Entry.patched_doc]
  by_cases hid : e.id = id <;> simp [hid]

namespace Has

section

variable (h : Has store entries r)
include h

lemma of_untouched (hsame : r.Untouched r') : Has store entries r' :=
  Resources.Keeps.of_untouched h hsame

lemma nodup_id : (entries.map (·.id)).Nodup := by
  have hnodup := Store.Keeps.nodup h
  rw [List.map_map] at hnodup
  exact .of_map some (by simpa [Function.comp_def] using hnodup)

lemma drawn (he : e ∈ entries) : e.id ∈ r.drawnIds := by
  obtain ⟨t, htwins⟩ := Store.Keeps.exists_twins h
  obtain ⟨id, hid, heq⟩ := htwins.issued e.doc (List.mem_map_of_mem he)
  rw [Entry.string?_doc_id] at heq
  exact Option.some.inj heq ▸ hid

lemma find?_eq_some (he : e ∈ entries) : entries.find? (·.id = e.id) = some e := by
  cases hfound : entries.find? (·.id = e.id) with
  | none => exact absurd (decide_eq_true rfl) (List.find?_eq_none.1 hfound e he)
  | some other =>
    have hid : other.id = e.id := by simpa using List.find?_some hfound
    rw [List.inj_on_of_nodup_map h.nodup_id (List.mem_of_find?_eq_some hfound) he hid]

/-! ### Operations -/

lemma onStore_findOne (name : String) : ∃ (found : Option Fields) (r' : Resources),
    r.onStore store (.findOne lists (KeyMap.singleton "listName" (.str name))) = (.ok found, r') ∧
      (found.isSome = true ↔ ∃ e ∈ entries, e.name = name) ∧ r.Untouched r' := by
  obtain ⟨found, r', hr, hsome, hsame⟩ :=
    Resources.Keeps.onStore_findOne h isCollection_lists (KeyMap.singleton "listName" (.str name))
  refine ⟨found, r', hr, ?_, hsame⟩
  simp [hsome, Entry.matchesFilter_name]

lemma onStore_get (id : String) : ∃ r',
    r.onStore store (.get lists id) = (.ok ((entries.find? (·.id = id)).map Entry.doc), r') ∧
      r.Untouched r' := by
  rw [← find?_hasId_map_doc]
  exact Resources.Keeps.onStore_get h isCollection_lists id

lemma onStore_get_of_mem (he : e ∈ entries) : ∃ r',
    r.onStore store (.get lists e.id) = (.ok (some e.doc), r') ∧ r.Untouched r' := by
  obtain ⟨r', hr, hsame⟩ := h.onStore_get e.id
  rw [h.find?_eq_some he] at hr
  exact ⟨r', hr, hsame⟩

lemma onStore_insert (name : String) (owner : Option String) (created : Timestamp) : ∃ r',
    r.onStore store (.insert lists (newDoc name owner created)) =
      (.ok (Resources.idText (r.drawn + 1)), r') ∧
      Has store (entries ++
        [⟨Resources.idText (r.drawn + 1), name, owner, [], created.offsetText⟩]) r' ∧
      r'.drawn = r.drawn + 1 := by
  obtain ⟨r', hr, hkeeps, hdrawn⟩ :=
    Resources.Keeps.onStore_insert h isCollection_lists (Entry.legible ⟨_, name, owner, [], _⟩)
  refine ⟨r', hr, ?_, hdrawn⟩
  rw [Has, List.map_append]
  exact hkeeps

lemma onStore_update (he : e ∈ entries) (items : List String) : ∃ doc r',
    r.onStore store (.update lists e.id (KeyMap.singleton "items" (.arr (items.map .str)))) =
      (.ok doc, r') ∧
      Has store (entries.map (Entry.withItems e.id items)) r' ∧ r'.drawn = r.drawn := by
  have hfound : (entries.map Entry.doc).find? (Store.hasId · e.id) = some e.doc := by
    rw [find?_hasId_map_doc, h.find?_eq_some he]
    rfl
  have hlegible : Store.Legible
      (Store.patched e.doc (KeyMap.singleton "items" (.arr (items.map .str)))) := by
    rw [Entry.patched_doc]
    exact Entry.legible _
  obtain ⟨r', hr, hkeeps, hdrawn⟩ :=
    Resources.Keeps.onStore_update h isCollection_lists hfound hlegible
  refine ⟨_, r', hr, ?_, hdrawn⟩
  rw [List.map_map] at hkeeps
  rw [Has, List.map_map]
  simpa only [Function.comp_def, patchedAt_doc] using hkeeps

lemma onStore_update_of_ne (hid : ∀ e ∈ entries, e.id ≠ id) (patch : Fields) : ∃ r',
    r.onStore store (.update lists id patch) = (.error (.notFound lists id), r') ∧
      r.Untouched r' := by
  refine Resources.Keeps.onStore_update_of_none h isCollection_lists ?_
  rw [find?_hasId_map_doc, List.find?_eq_none.2 (by simpa using hid)]
  rfl

lemma onStore_delete (id : String) : ∃ r',
    r.onStore store (.delete lists id) = (.ok (entries.any (·.id = id)), r') ∧
      Has store (entries.filter (·.id ≠ id)) r' ∧ r'.drawn = r.drawn := by
  obtain ⟨r', hr, hkeeps, hdrawn⟩ := Resources.Keeps.onStore_delete h isCollection_lists id
  rw [any_hasId_map_doc] at hr
  rw [filter_hasId_map_doc] at hkeeps
  exact ⟨r', hr, hkeeps, hdrawn⟩

lemma onStore_find (filter : Fields) : ∃ (found : List Fields) (r' : Resources),
    r.onStore store (.find lists filter) = (.ok found, r') ∧
      found.Perm ((entries.filter (·.doc.matchesFilter filter)).map Entry.doc) ∧
      r.Untouched r' := by
  obtain ⟨found, r', hr, hperm, hsame⟩ :=
    Resources.Keeps.onStore_find h isCollection_lists filter
  refine ⟨found, r', hr, ?_, hsame⟩
  rwa [List.filter_map] at hperm

/-- A search for all lists finds them, in some order. -/
lemma exists_contents : ∃ docs, contents store r = .ok docs ∧ docs.Perm
    (entries.map Entry.doc) := by
  obtain ⟨found, hfound, hperm⟩ := Store.Keeps.perform_find h isCollection_lists .empty
  rw [Store.filter_matchesFilter_empty] at hperm
  exact ⟨found, congrArg Prod.fst hfound, hperm⟩

/-- A search for all lists finds the same in a store of the same kind that has the same lists. -/
lemma contents_eq (h' : Has store entries r')
    (hkind : (r'.storeNamed store).isDurable = (r.storeNamed store).isDurable) :
    contents store r' = contents store r :=
  Store.Keeps.find_eq h h' hkind isCollection_lists .empty

end

end Has

end Synchrony.ListCreation

