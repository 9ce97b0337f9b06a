import Synchrony.KeyMap

/-!
# Look-ups in finite maps

What every operation on a map does to look-ups. A map is determined by its look-ups (`ext_get?`), and
an entry is stored exactly if it is looked up (`mem_entries_iff`).
-/

namespace Synchrony.KeyMap

variable {α β : Type}

/-! ### Entries -/

theorem find?_place_self (key : String) (a : α) (l : List (String × α)) :
    find? key (place key a l) = some a := by
  induction l with
  | nil => simp [place, find?]
  | cons e rest ih =>
    obtain ⟨k, b⟩ := e
    unfold place
    split
    · simp [find?]
    · split
      · simp [find?]
      · rename_i hne
        simp [find?, Ne.symm hne, ih]

theorem find?_place_of_ne {key other : String} (h : other ≠ key) (a : α) (l : List (String × α)) :
    find? other (place key a l) = find? other l := by
  induction l with
  | nil => simp [place, find?, Ne.symm h]
  | cons e rest ih =>
    obtain ⟨k, b⟩ := e
    unfold place
    split
    · simp [find?, Ne.symm h]
    · split
      · rename_i heq
        subst heq
        simp [find?, Ne.symm h]
      · simp [find?, ih]

theorem find?_eq_some_of_mem {l : List (String × α)} (h : l.Pairwise (fun a b => a.1 < b.1))
    {key : String} {a : α} (hm : (key, a) ∈ l) : find? key l = some a := by
  induction l with
  | nil => simp at hm
  | cons e rest ih =>
    obtain ⟨k, b⟩ := e
    obtain ⟨hk, hr⟩ := List.pairwise_cons.1 h
    rcases List.mem_cons.1 hm with hm | hm
    · cases hm
      simp [find?]
    · have hne : k ≠ key := fun he => String.lt_irrefl key (he ▸ hk _ hm)
      simp [find?, hne, ih hr hm]

theorem mem_of_find?_eq_some {l : List (String × α)} {key : String} {a : α}
    (h : find? key l = some a) : (key, a) ∈ l := by
  induction l with
  | nil => simp [find?] at h
  | cons e rest ih =>
    obtain ⟨k, b⟩ := e
    by_cases hk : k = key
    · simp_all [find?]
    · exact List.mem_cons_of_mem _ (ih (by simpa [find?, hk] using h))

theorem find?_filter_name (p : String → Bool) (key : String) (l : List (String × α)) :
    find? key (l.filter fun e => p e.1) = if p key then find? key l else none := by
  induction l with
  | nil => simp [find?]
  | cons e rest ih =>
    obtain ⟨k, b⟩ := e
    by_cases hk : k = key
    · subst hk
      cases hp : p k <;> simp_all [find?]
    · cases hp : p k <;> simp_all [find?]

theorem find?_map_snd (f : α → β) (key : String) (l : List (String × α)) :
    find? key (l.map fun e => (e.1, f e.2)) = (find? key l).map f := by
  induction l with
  | nil => rfl
  | cons e rest ih =>
    by_cases hk : e.1 = key <;> simp [find?, hk, ih]

/-! ### Maps -/

theorem mem_entries_iff {m : KeyMap α} {key : String} {a : α} :
    (key, a) ∈ m.entries ↔ m.get? key = some a :=
  ⟨find?_eq_some_of_mem m.ordered, mem_of_find?_eq_some⟩

@[simp] theorem get?_empty (key : String) : (empty : KeyMap α).get? key = none := rfl

@[simp] theorem get?_insert_self (m : KeyMap α) (key : String) (a : α) :
    (m.insert key a).get? key = some a := find?_place_self ..

theorem get?_insert_of_ne (m : KeyMap α) {key other : String} (a : α) (h : other ≠ key) :
    (m.insert key a).get? other = m.get? other := find?_place_of_ne h ..

theorem get?_insert (m : KeyMap α) (key other : String) (a : α) :
    (m.insert key a).get? other = if other = key then some a else m.get? other := by
  by_cases h : other = key
  · simp [h]
  · simp [h, get?_insert_of_ne]

theorem get?_filterKeys (p : String → Bool) (m : KeyMap α) (key : String) :
    (m.filterKeys p).get? key = if p key then m.get? key else none := find?_filter_name ..

theorem get?_erase (m : KeyMap α) (key other : String) :
    (m.erase key).get? other = if other = key then none else m.get? other := by
  have h := find?_filter_name (· != key) other m.entries
  by_cases ho : other = key <;> simpa [ho, get?, erase] using h

@[simp] theorem get?_erase_self (m : KeyMap α) (key : String) : (m.erase key).get? key = none := by
  simp [get?_erase]

@[simp] theorem get?_map (f : α → β) (m : KeyMap α) (key : String) :
    (m.map f).get? key = (m.get? key).map f := find?_map_snd ..

theorem get?_filterMap (f : String → α → Option β) (m : KeyMap α) (key : String) :
    (m.filterMap f).get? key = (m.get? key).bind (f key) := by
  apply Option.ext
  intro b
  rw [Option.bind_eq_some_iff, ← mem_entries_iff, filterMap, List.mem_filterMap]
  constructor
  · rintro ⟨⟨k, a⟩, hmem, hb⟩
    obtain ⟨b', hb', heq⟩ := Option.map_eq_some_iff.1 hb
    obtain ⟨rfl, rfl⟩ := Prod.mk.inj heq
    exact ⟨a, mem_entries_iff.1 hmem, hb'⟩
  · rintro ⟨a, ha, hb⟩
    exact ⟨(key, a), mem_entries_iff.2 ha, by rw [hb]; rfl⟩

@[simp] theorem get?_singleton_self (key : String) (a : α) :
    (singleton key a).get? key = some a := get?_insert_self ..

theorem contains_iff {m : KeyMap α} {key : String} : m.contains key ↔ ∃ a, m.get? key = some a :=
  Option.isSome_iff_exists

theorem nodup_entries (m : KeyMap α) : m.entries.Nodup :=
  List.nodup_iff_pairwise_ne.2 (m.ordered.imp fun {a b} hab (he : a = b) =>
    String.lt_irrefl a.1 (by rw [← he] at hab; exact hab))

/-- A map is determined by its look-ups. -/
theorem ext_get? {m n : KeyMap α} (h : ∀ key, m.get? key = n.get? key) : m = n := by
  have hmem (e : String × α) : e ∈ m.entries ↔ e ∈ n.entries := by
    obtain ⟨k, a⟩ := e
    rw [mem_entries_iff, mem_entries_iff, h]
  have hperm : m.entries.Perm n.entries :=
    (List.perm_ext_iff_of_nodup m.nodup_entries n.nodup_entries).2 hmem
  have heq : m.entries = n.entries :=
    hperm.eq_of_pairwise
      (fun a b _ _ hab hba => absurd (String.lt_trans hab hba) (String.lt_irrefl _))
      m.ordered n.ordered
  cases m
  cases n
  simp_all

end Synchrony.KeyMap
