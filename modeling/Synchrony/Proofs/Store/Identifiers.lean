import Synchrony.Proofs.RuleTable.Installed
import Synchrony.Proofs.Store.Contents

/-!
# The identifiers in a collection

A store has as many documents in a collection as it has identifiers there (`Store.ids`). An
insertion adds one, an update adds and removes none, and operations on other collections change
nothing (`Store.SameIn`). This holds for documents that cannot be read back as well.
-/

namespace Synchrony

namespace Store

/-- The identifiers in a collection. -/
def ids (c : String) : Store → List (Option String)
  | volatile v => (v.docs c).map (·.string? idField)
  | durable d => (Durable.table d.tables c).keys.map some

/-- Stores of one kind that have the same in a collection. -/
inductive SameIn (c : String) : Store → Store → Prop where
  | volatile {v v' : Volatile} (h : v'.docs c = v.docs c) : SameIn c (.volatile v) (.volatile v')
  | durable {d d' : Durable} (h : Durable.table d'.tables c = Durable.table d.tables c) :
      SameIn c (.durable d) (.durable d')

variable {c id fresh : String} {s s' s'' : Store} {op : Op}

/-! ### The same in a collection -/

namespace SameIn

lemma refl (c : String) (s : Store) : SameIn c s s := by
  cases s with
  | volatile v => exact .volatile rfl
  | durable d => exact .durable rfl

lemma trans (h : SameIn c s s') (h' : SameIn c s' s'') : SameIn c s s'' := by
  cases h with
  | volatile h =>
    cases h' with
    | volatile h' => exact .volatile (h'.trans h)
  | durable h =>
    cases h' with
    | durable h' => exact .durable (h'.trans h)

lemma ids_eq (h : SameIn c s s') : ids c s' = ids c s := by
  cases h with
  | volatile h => rw [ids, ids, h]
  | durable h => rw [ids, ids, h]

/-- The same documents are found under the same identifiers. -/
lemma get_eq (h : SameIn c s s') (fresh fresh' id : String) :
    (s'.perform fresh (.get c id)).1 = (s.perform fresh' (.get c id)).1 := by
  by_cases hvalid : isCollection (Op.collection (.get c id)) = true
  · cases h with
    | volatile h =>
      rw [perform_volatile hvalid, perform_volatile hvalid]
      simp only [Volatile.perform, h]
    | durable h =>
      rw [perform_durable hvalid, perform_durable hvalid, Durable.perform_get, Durable.perform_get, h]
  · rw [perform_of_not_valid (by simpa using hvalid), perform_of_not_valid (by simpa using hvalid)]

end SameIn

/-- An operation on another collection leaves this one as it is. -/
lemma sameIn_perform_of_ne (s : Store) (fresh : String) (hne : op.collection ≠ c) :
    SameIn c s (s.perform fresh op).2 := by
  by_cases hvalid : isCollection op.collection = true
  · cases s with
    | volatile v =>
      rw [perform_volatile hvalid]
      exact .volatile (Volatile.docs_perform_of_ne hne)
    | durable d =>
      rw [perform_durable hvalid]
      exact .durable (Durable.table_perform_of_ne hne)
  · rw [perform_of_not_valid (by simpa using hvalid)]
    exact .refl c s

/-! ### Operations on the collection -/

/-- Whether an operation can add or remove documents. -/
def Op.resizes : Op → Bool
  | insert _ _ | delete _ _ => true
  | _ => false

lemma map_string?_of_patchFirst {patch found : Fields} {docs docs' : List Fields}
    (h : Volatile.patchFirst id patch docs = some (found, docs')) :
    docs'.map (·.string? idField) = docs.map (·.string? idField) := by
  induction docs generalizing docs' with
  | nil => cases h
  | cons doc rest ih =>
    rw [Volatile.patchFirst] at h
    split at h
    · cases h
      simp
    · obtain ⟨⟨found', rest'⟩, hrest, heq⟩ := Option.map_eq_some_iff.1 h
      cases heq
      rw [List.map_cons, List.map_cons, ih hrest]

/-- An update rewrites a document under its identifier, if it is there. -/
lemma ids_perform_update (s : Store) (fresh id : String) (patch : Fields) :
    ids c (s.perform fresh (.update c id patch)).2 = ids c s := by
  by_cases hvalid : isCollection (Op.collection (.update c id patch)) = true
  · cases s with
    | volatile v =>
      rw [perform_volatile hvalid, Volatile.perform]
      split
      · rename_i found docs hpatch
        simpa [ids] using map_string?_of_patchFirst hpatch
      · rfl
    | durable d =>
      rw [perform_durable hvalid]
      cases hlookup : Durable.lookup (Durable.table d.tables c) id with
      | error e =>
        rw [Durable.perform, Durable.transactOn_of_error (e := e) (by rw [hlookup]; rfl)]
      | ok found =>
        cases found with
        | none => rw [Durable.perform_update_of_none hlookup]
        | some doc =>
          have hcontains : (Durable.table d.tables c).contains id = true := by
            rw [Durable.lookup] at hlookup
            split at hlookup
            · rename_i text htext
              exact KeyMap.contains_iff.2 ⟨text, htext⟩
            · cases hlookup
          rw [Durable.perform_update hlookup]
          simp [ids, KeyMap.keys_insert_of_contains _ hcontains]
  · rw [perform_of_not_valid (by simpa using hvalid)]

/-- An operation that adds and removes nothing leaves the identifiers as they are. -/
lemma ids_perform_of_not_resizes (s : Store) (fresh : String) (hop : op.resizes = false) :
    ids c (s.perform fresh op).2 = ids c s := by
  by_cases hcollection : op.collection = c
  · subst hcollection
    cases op with
    | insert _ _ | delete _ _ => cases hop
    | update _ id patch => exact ids_perform_update s fresh id patch
    | get _ _ | find _ _ | findOne _ _ =>
      simp only [perform]
      split
      · rfl
      · cases s <;> rfl
  · exact (sameIn_perform_of_ne s fresh hcollection).ids_eq

/-- A deletion leaves some of the identifiers. -/
lemma ids_perform_delete_subset (s : Store) (fresh id : String) :
    ids c (s.perform fresh (.delete c id)).2 ⊆ ids c s := by
  by_cases hvalid : isCollection (Op.collection (.delete c id)) = true
  · cases s with
    | volatile v =>
      rw [perform_volatile hvalid, Volatile.perform]
      split
      · simpa only [ids, docs_setDocs, if_true] using (List.filter_sublist.map _).subset
      · exact List.Subset.refl _
    | durable d =>
      rw [perform_durable hvalid, Durable.perform_delete]
      have hsub : ((Durable.table d.tables c).erase id).keys ⊆ (Durable.table d.tables c).keys :=
        (List.filter_sublist.map _).subset
      simpa only [ids, table_insert, if_true] using List.map_subset some hsub
  · rw [perform_of_not_valid (by simpa using hvalid)]
    exact List.Subset.refl _

/-- The identifiers after an insertion were there before, but for the new one. -/
lemma mem_ids_perform_insert {doc : Fields}
    (h : some id ∈ ids c (s.perform fresh (.insert c doc)).2) :
    some id ∈ ids c s ∨ isCollection c = true ∧ id = fresh := by
  by_cases hvalid : isCollection (Op.collection (.insert c doc)) = true
  · refine (?_ : id = fresh ∨ some id ∈ ids c s).symm.imp_right fun heq => ⟨hvalid, heq⟩
    cases s with
    | volatile v =>
      rw [perform_volatile hvalid] at h
      simpa [ids, Volatile.perform, eq_comm, or_comm] using h
    | durable d =>
      rw [perform_durable hvalid, Durable.perform_insert] at h
      simpa [ids, KeyMap.mem_keys_iff, KeyMap.contains_insert_iff] using h
  · rw [perform_of_not_valid (by simpa using hvalid)] at h
    exact .inl h

/-- Every identifier after an operation was there before, or was given to a new document. -/
lemma mem_ids_perform (h : some id ∈ ids c (s.perform fresh op).2) :
    some id ∈ ids c s ∨ takesId op = true ∧ id = fresh := by
  by_cases hcollection : op.collection = c
  · subst hcollection
    cases op with
    | insert _ _ => exact mem_ids_perform_insert h
    | delete _ _ => exact .inl (ids_perform_delete_subset _ _ _ h)
    | update _ _ _ | get _ _ | find _ _ | findOne _ _ =>
      rw [ids_perform_of_not_resizes s fresh rfl] at h
      exact .inl h
  · rw [(sameIn_perform_of_ne s fresh hcollection).ids_eq] at h
    exact .inl h

section Insert

variable {doc : Fields} (hvalid : isCollection c = true)
include hvalid

/-- An insertion adds an identifier that was not there. -/
lemma ids_perform_insert (hnew : some fresh ∉ ids c s) :
    (ids c (s.perform fresh (.insert c doc)).2).Perm (some fresh :: ids c s) := by
  change isCollection (Op.collection (.insert c doc)) = true at hvalid
  cases s with
  | volatile v =>
    rw [perform_volatile hvalid]
    simp [ids, Volatile.perform]
  | durable d =>
    have hkeys : fresh ∉ (Durable.table d.tables c).keys := fun hmem =>
      hnew (List.mem_map_of_mem hmem)
    rw [perform_durable hvalid, Durable.perform_insert]
    simpa [ids] using (KeyMap.keys_insert_perm _ hkeys).map some

/-- A new document is found under its identifier. -/
lemma get_perform_insert_self (hnew : some fresh ∉ ids c s) (hlegible : Legible (withId doc fresh))
    (other : String) : ((s.perform fresh (.insert c doc)).2.perform other (.get c fresh)).1 =
      .ok (some (withId doc fresh)) := by
  have hvalid' : isCollection (Op.collection (.get c fresh)) = true := hvalid
  change isCollection (Op.collection (.insert c doc)) = true at hvalid
  cases s with
  | volatile v =>
    have hnone : (v.docs c).find? (hasId · fresh) = none := List.find?_eq_none.2 fun d hd hid =>
      hnew (List.mem_map.2 ⟨d, hd, hasId_iff.1 hid⟩)
    have hfound : (v.docs c ++ [withId doc fresh]).find? (hasId · fresh) =
        some (withId doc fresh) := by
      rw [List.find?_append, hnone]
      simp [hasId]
    rw [perform_volatile hvalid]
    dsimp only
    rw [perform_volatile hvalid']
    simp only [Volatile.perform, docs_setDocs, if_true, hfound]
  | durable d =>
    have hdecode : Durable.decode (Durable.encode (withId doc fresh)) = .ok (withId doc fresh) :=
      hlegible
    rw [perform_durable hvalid, Durable.perform_insert]
    dsimp only
    rw [perform_durable hvalid', Durable.perform_get]
    simp only [table_insert, if_true, Durable.lookup, KeyMap.get?_insert_self, hdecode]
    rfl

/-- The other documents are as they were. -/
lemma get_perform_insert_of_ne {id : String} (hid : id ≠ fresh) (other other' : String) :
    ((s.perform fresh (.insert c doc)).2.perform other (.get c id)).1 =
      (s.perform other' (.get c id)).1 := by
  have hvalid' : isCollection (Op.collection (.get c id)) = true := hvalid
  change isCollection (Op.collection (.insert c doc)) = true at hvalid
  cases s with
  | volatile v =>
    have hfound : (v.docs c ++ [withId doc fresh]).find? (hasId · id) =
        (v.docs c).find? (hasId · id) := by
      simp [hasId, Ne.symm hid]
    rw [perform_volatile hvalid]
    dsimp only
    rw [perform_volatile hvalid', perform_volatile hvalid']
    simp only [Volatile.perform, docs_setDocs, if_true, hfound]
  | durable d =>
    rw [perform_durable hvalid, Durable.perform_insert]
    dsimp only
    rw [perform_durable hvalid', perform_durable hvalid', Durable.perform_get, Durable.perform_get]
    simp only [table_insert, if_true, Durable.lookup, KeyMap.get?_insert_of_ne _ _ hid]
    rfl

end Insert

/-! ### A new document -/

/-- The second store has one more document in the collection than the first, under an identifier of
its own. -/
structure Adds (c id : String) (doc : Fields) (s s' : Store) : Prop where
  new : some id ∉ ids c s
  ids : (ids c s').Perm (some id :: ids c s)
  found : ∀ fresh, (s'.perform fresh (.get c id)).1 = .ok (some doc)
  others : ∀ other, other ≠ id → ∀ fresh,
    (s'.perform fresh (.get c other)).1 = (s.perform fresh (.get c other)).1

lemma adds_perform_insert {doc : Fields} (hvalid : isCollection c = true)
    (hnew : some fresh ∉ ids c s)
    (hlegible : Legible (withId doc fresh)) :
    Adds c fresh (withId doc fresh) s (s.perform fresh (.insert c doc)).2 where
  new := hnew
  ids := ids_perform_insert hvalid hnew
  found := get_perform_insert_self hvalid hnew hlegible
  others := fun _ hne other => get_perform_insert_of_ne hvalid hne other other

/-- What happens to other collections before and after does not matter. -/
lemma Adds.of_sameIn {doc : Fields} {s₁ s₂ s₃ s₄ : Store} (h : Adds c id doc s₂ s₃)
    (hbefore : SameIn c s₁ s₂) (hafter : SameIn c s₃ s₄) : Adds c id doc s₁ s₄ where
  new := hbefore.ids_eq ▸ h.new
  ids := by
    rw [hafter.ids_eq, ← hbefore.ids_eq]
    exact h.ids
  found := fun fresh => (hafter.get_eq fresh fresh id).trans (h.found fresh)
  others := fun other hne fresh =>
    (hafter.get_eq fresh fresh other).trans
      ((h.others other hne fresh).trans (hbefore.get_eq fresh fresh other))

end Store

end Synchrony
