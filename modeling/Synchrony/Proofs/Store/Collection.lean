import Mathlib.Data.List.Nodup
import Synchrony.KeyMap.Lookup
import Synchrony.Store.Either

/-!
# One collection in both stores

A list of documents and a table of texts are twins if they hold the same documents: each document has an
identifier of its own, and the table has its text under that identifier (`Twins`). Inserting, patching
and deleting on both sides keeps them twins, and looking up and searching give the same documents.
-/

namespace Synchrony

/-! ### Identifiers of documents -/

namespace KeyMap

variable {α : Type}

/-- A merge does not touch the name that it leaves out. -/
@[simp] lemma get?_mergeExcept_kept (kept : String) (into m : KeyMap α) :
    (mergeExcept kept into m).get? kept = into.get? kept := by
  rw [mergeExcept]
  generalize m.entries = entries
  induction entries generalizing into with
  | nil => rfl
  | cons e rest ih =>
    rw [List.foldl_cons, ih]
    split
    · rfl
    · rename_i hne
      exact get?_insert_of_ne _ _ (Ne.symm hne)

end KeyMap

namespace Store

@[simp] lemma string?_withId (doc : Fields) (id : String) :
    (withId doc id).string? idField = some id := by
  simp [withId, KeyMap.string?, Value.asString?]

@[simp] lemma string?_patched (doc patch : Fields) :
    (patched doc patch).string? idField = doc.string? idField := by
  simp [patched, KeyMap.string?]

lemma hasId_iff {doc : Fields} {id : String} : hasId doc id ↔ doc.string? idField = some id := by
  simp [hasId]

lemma string?_of_find? {docs : List Fields} {doc : Fields} {id : String}
    (h : docs.find? (hasId · id) = some doc) : doc.string? idField = some id :=
  hasId_iff.1 (by simpa using List.find?_some h)

/-- The stored text of the document reads back as the document. -/
def Legible (doc : Fields) : Prop := Durable.decode (Durable.encode doc) = .ok doc

/-- Each of the documents has an identifier of its own, and it was issued. -/
structure Identified (issued : List String) (docs : List Fields) : Prop where
  nodup : (docs.map (·.string? idField)).Nodup
  issued : ∀ doc ∈ docs, ∃ id ∈ issued, doc.string? idField = some id

/-- The list and the table hold the same documents, under identifiers that were issued. -/
structure Twins (issued : List String) (docs : List Fields) (t : KeyMap String) : Prop where
  nodup : (docs.map (·.string? idField)).Nodup
  issued : ∀ doc ∈ docs, ∃ id ∈ issued, doc.string? idField = some id
  stored : ∀ id, t.get? id = (docs.find? (hasId · id)).map Durable.encode
  legible : ∀ doc ∈ docs, Legible doc

variable {issued more : List String} {docs : List Fields} {t : KeyMap String} {doc : Fields}
  {id : String}

/-- Among documents with different identifiers, an identifier finds its one document. -/
lemma find?_hasId_eq_some_iff (hnodup : (docs.map (·.string? idField)).Nodup) :
    docs.find? (hasId · id) = some doc ↔ doc ∈ docs ∧ doc.string? idField = some id := by
  constructor
  · intro h
    exact ⟨List.mem_of_find?_eq_some h, string?_of_find? h⟩
  · rintro ⟨hmem, hid⟩
    cases hfound : docs.find? (hasId · id) with
    | none => exact absurd (hasId_iff.2 hid) (List.find?_eq_none.1 hfound doc hmem)
    | some other =>
      rw [List.inj_on_of_nodup_map hnodup (List.mem_of_find?_eq_some hfound) hmem
        ((string?_of_find? hfound).trans hid.symm)]

namespace Identified

lemma mono (h : Identified issued docs) (hsub : issued ⊆ more) : Identified more docs := by
  refine ⟨h.nodup, fun doc hdoc => ?_⟩
  obtain ⟨id, hid, heq⟩ := h.issued doc hdoc
  exact ⟨id, hsub hid, heq⟩

/-- A new document gets an identifier that was not issued before. -/
lemma insert (h : Identified issued docs) (hid : id ∉ issued) (doc : Fields) :
    Identified (issued ++ [id]) (docs ++ [withId doc id]) := by
  refine ⟨?_, fun other hother => ?_⟩
  · rw [List.map_append, List.nodup_append]
    refine ⟨h.nodup, List.nodup_singleton _, ?_⟩
    rintro _ hother _ hnew rfl
    obtain ⟨other, hmem, heq⟩ := List.mem_map.1 hother
    obtain ⟨old, hold, hid'⟩ := h.issued other hmem
    simp only [List.map_cons, List.map_nil, string?_withId, List.mem_singleton] at hnew
    obtain rfl : old = id := Option.some.inj (hid'.symm.trans (heq.trans hnew))
    exact hid hold
  · rcases List.mem_append.1 hother with hother | hother
    · obtain ⟨old, hold, heq⟩ := h.issued other hother
      exact ⟨old, List.mem_append_left _ hold, heq⟩
    · obtain rfl := List.mem_singleton.1 hother
      exact ⟨id, by simp, string?_withId doc id⟩

end Identified

lemma twins_empty : Twins issued [] .empty :=
  ⟨List.nodup_nil, by simp, fun _ => rfl, by simp⟩

namespace Twins

lemma identified (h : Twins issued docs t) : Identified issued docs := ⟨h.nodup, h.issued⟩

lemma mono (h : Twins issued docs t) (hsub : issued ⊆ more) : Twins more docs t :=
  ⟨h.nodup, (h.identified.mono hsub).issued, h.stored, h.legible⟩

lemma find?_eq_none (h : Twins issued docs t) (hid : id ∉ issued) :
    docs.find? (hasId · id) = none := by
  rw [List.find?_eq_none]
  intro doc hdoc hhas
  obtain ⟨other, hother, heq⟩ := h.issued doc hdoc
  rw [hasId_iff.1 hhas] at heq
  cases heq
  exact hid hother

/-! ### Looking up and searching -/

/-- Both sides have the same document under an identifier, or none. -/
lemma lookup_eq (h : Twins issued docs t) (id : String) :
    Durable.lookup t id = .ok (docs.find? (hasId · id)) := by
  rw [Durable.lookup, h.stored]
  cases hfound : docs.find? (hasId · id) with
  | none => rfl
  | some doc =>
    have hlegible : Durable.decode (Durable.encode doc) = .ok doc :=
      h.legible doc (List.mem_of_find?_eq_some hfound)
    simp only [Option.map_some, hlegible, Except.map]

/-- A table has exactly the texts of the documents, under their identifiers. -/
lemma mem_entries_iff (h : Twins issued docs t) {text : String} :
    (id, text) ∈ t.entries ↔
      ∃ doc ∈ docs, doc.string? idField = some id ∧ Durable.encode doc = text := by
  rw [KeyMap.mem_entries_iff, h.stored, Option.map_eq_some_iff]
  constructor
  · rintro ⟨doc, hfound, rfl⟩
    obtain ⟨hdoc, hid⟩ := (find?_hasId_eq_some_iff h.nodup).1 hfound
    exact ⟨doc, hdoc, hid, rfl⟩
  · rintro ⟨doc, hdoc, hid, rfl⟩
    exact ⟨doc, (find?_hasId_eq_some_iff h.nodup).2 ⟨hdoc, hid⟩, rfl⟩

/-- The table has the texts of the documents, in the order of the identifiers. -/
lemma values_perm (h : Twins issued docs t) : t.values.Perm (docs.map Durable.encode) := by
  let entry (doc : Fields) := ((doc.string? idField).getD "", Durable.encode doc)
  have hentry {doc : Fields} {id : String} (hid : doc.string? idField = some id) :
      entry doc = (id, Durable.encode doc) := by simp [entry, hid]
  have hdocs : (docs.map entry).Nodup := by
    refine h.nodup.of_map.map_on fun a ha b hb heq => ?_
    obtain ⟨i, -, hi⟩ := h.issued a ha
    obtain ⟨j, -, hj⟩ := h.issued b hb
    rw [hentry hi, hentry hj] at heq
    obtain ⟨rfl, -⟩ := Prod.mk.inj heq
    exact List.inj_on_of_nodup_map h.nodup ha hb (hi.trans hj.symm)
  have hmem (e : String × String) : e ∈ t.entries ↔ e ∈ docs.map entry := by
    obtain ⟨id, text⟩ := e
    rw [h.mem_entries_iff, List.mem_map]
    constructor
    · rintro ⟨doc, hdoc, hid, rfl⟩
      exact ⟨doc, hdoc, hentry hid⟩
    · rintro ⟨doc, hdoc, heq⟩
      obtain ⟨other, -, hid⟩ := h.issued doc hdoc
      rw [hentry hid] at heq
      obtain ⟨rfl, rfl⟩ := Prod.mk.inj heq
      exact ⟨doc, hdoc, hid, rfl⟩
  have hperm := (List.perm_ext_iff_of_nodup t.nodup_entries hdocs).2 hmem
  simpa [KeyMap.values, List.map_map, entry, Function.comp_def] using hperm.map Prod.snd

end Twins

lemma decodeAll_eq {texts : List String} {read : String → Fields}
    (h : ∀ text ∈ texts, Durable.decode text = .ok (read text)) :
    Durable.decodeAll texts = .ok (texts.map read) := by
  induction texts with
  | nil => rfl
  | cons text rest ih =>
    obtain ⟨htext, hrest⟩ := List.forall_mem_cons.1 h
    simp only [Durable.decodeAll, htext, ih hrest, Except.map, List.map_cons]

namespace Twins

/-- Reading a whole table gives the documents in some order. -/
lemma exists_decodeAll (h : Twins issued docs t) :
    ∃ read, Durable.decodeAll t.values = .ok read ∧ read.Perm docs := by
  let read (text : String) := (Durable.decode text).toOption.getD .empty
  have hread {doc : Fields} (hdoc : doc ∈ docs) : read (Durable.encode doc) = doc := by
    have hlegible : Durable.decode (Durable.encode doc) = .ok doc := h.legible doc hdoc
    simp [read, hlegible, Except.toOption]
  have htexts : ∀ text ∈ t.values, Durable.decode text = .ok (read text) := by
    intro text htext
    obtain ⟨doc, hdoc, rfl⟩ := List.mem_map.1 (h.values_perm.mem_iff.1 htext)
    rw [hread hdoc]
    exact h.legible doc hdoc
  refine ⟨t.values.map read, decodeAll_eq htexts, ?_⟩
  have hdocs : (docs.map Durable.encode).map read = docs := by
    rw [List.map_map]
    exact (List.map_congr_left fun doc hdoc => hread hdoc).trans (List.map_id docs)
  have hperm := h.values_perm.map read
  rwa [hdocs] at hperm

/-! ### Changes -/

/-- A document is inserted under a fresh identifier. -/
lemma insert (h : Twins issued docs t) (hid : id ∉ issued) (hlegible : Legible (withId doc id)) :
    Twins (issued ++ [id]) (docs ++ [withId doc id])
      (t.insert id (Durable.encode (withId doc id))) := by
  have hids := h.identified.insert hid doc
  refine ⟨hids.nodup, hids.issued, ?_, ?_⟩
  · intro key
    rw [KeyMap.get?_insert, List.find?_append, h.stored]
    by_cases hkey : key = id
    · subst hkey
      have hnew : hasId (withId doc key) key = true := hasId_iff.2 (string?_withId doc key)
      simp [h.find?_eq_none hid, hnew]
    · have hne : hasId (withId doc id) key = false := by simp [hasId, Ne.symm hkey]
      simp [hkey, hne]
  · intro other hother
    rcases List.mem_append.1 hother with hother | hother
    · exact h.legible other hother
    · rwa [List.mem_singleton.1 hother]

/-- A document is deleted. -/
lemma delete (h : Twins issued docs t) :
    Twins issued (docs.filter (! hasId · id)) (t.erase id) := by
  refine ⟨(h.nodup.sublist (List.filter_sublist.map _)), ?_, ?_, ?_⟩
  · exact fun doc hdoc => h.issued doc (List.mem_of_mem_filter hdoc)
  · intro key
    rw [KeyMap.get?_erase, List.find?_filter, h.stored]
    by_cases hkey : key = id
    · subst hkey
      simp only [if_true]
      rw [List.find?_eq_none.2 (by simp), Option.map_none]
    · simp only [hkey, if_false]
      congr 2
      funext doc
      by_cases hdoc : hasId doc key = true
      · have hother : hasId doc id = false := by
          rw [hasId_iff] at hdoc
          simp [hasId, hdoc, hkey]
        simp [hdoc, hother]
      · simp [hdoc]
  · exact fun doc hdoc => h.legible doc (List.mem_of_mem_filter hdoc)

end Twins

/-! ### Patches -/

/-- The document with the patch, if it has the identifier. -/
def patchedAt (id : String) (patch doc : Fields) : Fields :=
  if hasId doc id then patched doc patch else doc

@[simp] lemma string?_patchedAt (id : String) (patch doc : Fields) :
    (patchedAt id patch doc).string? idField = doc.string? idField := by
  rw [patchedAt]
  split
  · exact string?_patched doc patch
  · rfl

lemma patchedAt_of_ne {patch : Fields} {other : String} (hdoc : doc.string? idField = some other)
    (hne : other ≠ id) : patchedAt id patch doc = doc := by
  simp [patchedAt, hasId, hdoc, hne]

/-- Among documents with different identifiers, the first one that is patched is the only one. -/
lemma patchFirst_eq (hnodup : (docs.map (·.string? idField)).Nodup) (id : String) (patch : Fields) :
    Volatile.patchFirst id patch docs =
      (docs.find? (hasId · id)).map fun doc => (patched doc patch, docs.map (patchedAt id patch)) := by
  induction docs with
  | nil => rfl
  | cons doc rest ih =>
    obtain ⟨hdoc, hrest⟩ := List.nodup_cons.1 hnodup
    rw [Volatile.patchFirst, ih hrest]
    by_cases hid : hasId doc id = true
    · have hothers : rest.map (patchedAt id patch) = rest := by
        refine (List.map_congr_left fun other hother => ?_).trans (List.map_id rest)
        refine if_neg fun hsame => hdoc (List.mem_map.2 ⟨other, hother, ?_⟩)
        exact (hasId_iff.1 hsame).trans (hasId_iff.1 hid).symm
      simp [hid, hothers, patchedAt]
    · cases hfound : rest.find? (hasId · id) <;> simp [hid, hfound, patchedAt]

lemma Identified.patch (h : Identified issued docs) (id : String) (patch : Fields) :
    Identified issued (docs.map (patchedAt id patch)) := by
  refine ⟨?_, ?_⟩
  · simpa [List.map_map, Function.comp_def] using h.nodup
  · simpa using h.issued

namespace Twins

/-- A document is patched. -/
lemma patch (h : Twins issued docs t) {patch : Fields} (hfound : docs.find? (hasId · id) = some doc)
    (hlegible : Legible (patched doc patch)) :
    Twins issued (docs.map (patchedAt id patch))
      (t.insert id (Durable.encode (patched doc patch))) := by
  have hdoc := string?_of_find? hfound
  have hpatched : patchedAt id patch doc = patched doc patch := if_pos (hasId_iff.2 hdoc)
  have hids := h.identified.patch id patch
  refine ⟨hids.nodup, hids.issued, ?_, ?_⟩
  · intro key
    have hkeys : ((hasId · key) ∘ patchedAt id patch) = (hasId · key) := by
      funext d
      simp [hasId]
    rw [KeyMap.get?_insert, List.find?_map, hkeys, h.stored]
    by_cases hkey : key = id
    · subst hkey
      simp [hfound, hpatched]
    · cases hother : docs.find? (hasId · key) with
      | none => simp [hkey]
      | some other => simp [hkey, patchedAt_of_ne (string?_of_find? hother) hkey]
  · rw [List.forall_mem_map]
    intro other hother
    rw [patchedAt]
    split
    · rename_i hsame
      obtain rfl := List.inj_on_of_nodup_map h.nodup hother (List.mem_of_find?_eq_some hfound)
        ((hasId_iff.1 hsame).trans hdoc.symm)
      exact hlegible
    · exact h.legible other hother

end Twins

end Store

end Synchrony
