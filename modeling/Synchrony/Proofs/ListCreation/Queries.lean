import Synchrony.Proofs.ListCreation.Stored
import Synchrony.Proofs.Work.Steps

/-!
# What the queries show

A query for one list shows its identifier, name, owner and items. A query for lists shows those of
the owner, or all, each once, in the order of their names, which no two lists share.
-/

namespace Synchrony.ListCreation

/-! ### The order of names -/

lemma nameLe_doc (a b : Entry) : nameLe a.doc b.doc = decide (a.name ≤ b.name) := by
  simp [nameLe]

lemma nameLe_trans (a b c : Fields) (hab : nameLe a b = true) (hbc : nameLe b c = true) :
    nameLe a c = true := by
  rw [nameLe] at *
  revert hab hbc
  rcases a.string? "listName" with _ | a <;> rcases b.string? "listName" with _ | b <;>
    rcases c.string? "listName" with _ | c <;> simp
  exact fun hab hbc => Std.le_trans hab hbc

lemma nameLe_total (a b : Fields) : (nameLe a b || nameLe b a) = true := by
  rw [nameLe, nameLe]
  rcases a.string? "listName" with _ | a <;> rcases b.string? "listName" with _ | b <;> simp
  exact String.le_total a b

variable {store : String} {entries : List Entry} {r : Resources}

/-- Documents of lists with different names are in a strict order once they are sorted. -/
lemma exists_mergeSort {found : List Fields} (hperm : found.Perm (entries.map Entry.doc))
    (hnames : (entries.map (·.name)).Nodup) : ∃ sorted : List Entry,
      found.mergeSort nameLe = sorted.map Entry.doc ∧ sorted.Perm entries ∧
        sorted.Pairwise fun a b => a.name < b.name := by
  let sorted := entries.mergeSort fun a b => nameLe a.doc b.doc
  have hsorted : sorted.Perm entries := List.mergeSort_perm _ _
  have hle : sorted.Pairwise fun a b => nameLe a.doc b.doc = true :=
    List.pairwise_mergeSort (fun a b c => nameLe_trans a.doc b.doc c.doc)
      (fun a b => nameLe_total a.doc b.doc) entries
  have hdistinct : sorted.Pairwise fun a b => a.name ≠ b.name := by
    have hnodup : (sorted.map (·.name)).Nodup := (hsorted.map _).nodup_iff.2 hnames
    exact List.pairwise_map.1 hnodup
  refine ⟨sorted, ?_, hsorted, (hle.and hdistinct).imp fun ⟨hle, hne⟩ => ?_⟩
  · refine List.Perm.eq_of_pairwise ?_ (List.pairwise_mergeSort nameLe_trans nameLe_total found)
      (List.pairwise_map.2 hle)
      ((List.mergeSort_perm found nameLe).trans (hperm.trans (hsorted.map Entry.doc).symm))
    intro a b ha hb hab hba
    obtain ⟨e, he, rfl⟩ := List.mem_map.1 (hperm.mem_iff.1 ((List.mem_mergeSort).1 ha))
    obtain ⟨f, hf, rfl⟩ := List.mem_map.1 hb
    rw [nameLe_doc, decide_eq_true_iff] at hab hba
    rw [List.inj_on_of_nodup_map hnames he (hsorted.mem_iff.1 hf) (Std.le_antisymm hab hba)]
  · rw [nameLe_doc, decide_eq_true_iff] at hle
    exact Std.lt_of_le_of_ne hle hne

/-! ### Queries -/

/-- The filter of a query for the lists of an owner, or for all lists. -/
def ownerFilter (owner : Option String) : Fields :=
  match owner with
  | some owner => KeyMap.singleton "owner" (.str owner)
  | none => .empty

/-- The lists of an owner, or all lists. -/
def ofOwner (owner : Option String) (entries : List Entry) : List Entry :=
  entries.filter fun e => owner.isNone || e.owner = owner

/-- What a query for lists answers. -/
def listsOutput (entries : List Entry) : Fields :=
  KeyMap.singleton "lists" (.arr (entries.map fun e => (view e.doc).toValue))

lemma filter_ownerFilter (owner : Option String) (entries : List Entry) :
    entries.filter (·.doc.matchesFilter (ownerFilter owner)) = ofOwner owner entries := by
  refine List.filter_congr fun e _ => ?_
  cases owner with
  | none => rfl
  | some owner => exact (e.matchesFilter_owner owner).trans (by simp)

/-- The search of a query for lists finds them, and once they are sorted they are in a strict order.
-/
lemma Has.exists_found (h : Has store entries r) (hnames : (entries.map (·.name)).Nodup)
    (owner : Option String) : ∃ (found : List Fields) (sorted : List Entry) (r' : Resources),
      r.onStore store (.find lists (ownerFilter owner)) = (.ok found, r') ∧
        found.mergeSort nameLe = sorted.map Entry.doc ∧ sorted.Perm (ofOwner owner entries) ∧
        (sorted.Pairwise fun a b => a.name < b.name) ∧ r.Untouched r' := by
  obtain ⟨found, r', hr, hperm, hsame⟩ := h.onStore_find (ownerFilter owner)
  rw [filter_ownerFilter] at hperm
  have hnames' : ((ofOwner owner entries).map (·.name)).Nodup :=
    hnames.sublist (List.filter_sublist.map _)
  obtain ⟨sorted, heq, hsorted, hpairwise⟩ := exists_mergeSort hperm hnames'
  exact ⟨found, sorted, r', hr, heq, hsorted, hpairwise, hsame⟩

variable {input : Fields} {owner : Option String}

lemma getLists_eq (howner : Arguments.optionalText input "owner" = .ok owner) :
    getLists store input = .onStore store (.find lists (ownerFilter owner)) fun found =>
      .succeed (KeyMap.singleton "lists"
        (.arr (((found : List Fields).mergeSort nameLe).map fun doc => (view doc).toValue))) := by
  rw [getLists, howner]
  cases owner <;> rfl

/-- The step of a query for lists. -/
lemma Has.advance_getLists (h : Has store entries r) (hnames : (entries.map (·.name)).Nodup)
    (howner : Arguments.optionalText input "owner" = .ok owner) : ∃ sorted r',
      (getLists store input).advance r = some (.succeed (listsOutput sorted), r') ∧
        sorted.Perm (ofOwner owner entries) ∧ sorted.Pairwise fun a b => a.name < b.name := by
  obtain ⟨found, sorted, r', hr, heq, hperm, hpairwise, -⟩ := h.exists_found hnames owner
  refine ⟨sorted, r', ?_, hperm, hpairwise⟩
  rw [getLists_eq howner, Work.advance_onStore_of_ok hr, listsOutput]
  simp only [heq, List.map_map]
  rfl

/-- A query for lists that is done at once. -/
lemma Has.run_getLists (h : Has store entries r) (hnames : (entries.map (·.name)).Nodup)
    (howner : Arguments.optionalText input "owner" = .ok owner) : ∃ sorted r',
      (getLists store input).run r = (.finished (.ok (listsOutput sorted)), r') ∧
        sorted.Perm (ofOwner owner entries) ∧ (sorted.Pairwise fun a b => a.name < b.name) ∧
        r.Untouched r' := by
  obtain ⟨found, sorted, r', hr, heq, hperm, hpairwise, hsame⟩ := h.exists_found hnames owner
  refine ⟨sorted, r', ?_, hperm, hpairwise, hsame⟩
  rw [getLists_eq howner, Work.run_onStore_of_ok hr, listsOutput]
  simp only [heq, List.map_map]
  rfl

/-! ### What an answer shows -/

@[simp] lemma get?_view_list (e : Entry) : (view e.doc).get? "list" = some (.str e.id) := by
  simp [view, KeyMap.ofList, KeyMap.get?_insert]

@[simp] lemma get?_view_owner (e : Entry) :
    (view e.doc).get? "owner" = some ((e.owner.map Value.str).getD .null) := by
  simp [view, KeyMap.ofList, KeyMap.get?_insert]

/-- The answer to a query for lists has the list of this identifier. -/
def Lists (output : Fields) (id : String) : Prop :=
  ∃ vs, output.get? "lists" = some (.arr vs) ∧
    ∃ shown : Fields, shown.toValue ∈ vs ∧ shown.get? "list" = some (.str id)

lemma lists_listsOutput_iff {id : String} :
    Lists (listsOutput entries) id ↔ ∃ e ∈ entries, e.id = id := by
  constructor
  · rintro ⟨vs, hvs, shown, hmem, hid⟩
    rw [listsOutput, KeyMap.get?_singleton_self] at hvs
    cases hvs
    obtain ⟨e, he, heq⟩ := List.mem_map.1 hmem
    have hentries : (view e.doc).entries = shown.entries := Value.obj.inj heq
    rw [KeyMap.get?, ← hentries] at hid
    exact ⟨e, he, by simpa using (get?_view_list e).symm.trans hid⟩
  · rintro ⟨e, he, rfl⟩
    exact ⟨_, KeyMap.get?_singleton_self _ _, view e.doc, List.mem_map_of_mem he, get?_view_list e⟩

end Synchrony.ListCreation
