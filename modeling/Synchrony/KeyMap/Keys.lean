import Mathlib.Data.List.Nodup
import Synchrony.KeyMap.Lookup

/-!
# Names of finite maps

Which names are stored after an operation, and what follows for the list of all names: it has no name
twice, so what is known of each name says how many there are.
-/

namespace Synchrony.KeyMap

variable {α β : Type} {m : KeyMap α} {key : String}

/-! ### What is stored -/

lemma contains_foldl_insert (l : List (String × α)) (m : KeyMap α) (key : String) :
    (l.foldl (fun m e => m.insert e.1 e.2) m).contains key = true ↔
      m.contains key = true ∨ key ∈ l.map (·.1) := by
  induction l generalizing m with
  | nil => simp
  | cons e rest ih =>
    rw [List.foldl_cons, ih, contains, get?_insert, List.map_cons, List.mem_cons]
    by_cases hkey : key = e.1
    · simp [hkey]
    · simp [hkey, contains]

lemma contains_ofList_iff {l : List (String × α)} {key : String} :
    (ofList l).contains key = true ↔ key ∈ l.map (·.1) := by
  rw [ofList, contains_foldl_insert]
  simp [contains]

lemma contains_insert_iff (a : α) (other : String) :
    (m.insert key a).contains other = true ↔ other = key ∨ m.contains other = true := by
  rw [contains, get?_insert]
  split_ifs with heq
  · simp [heq]
  · simp [heq, contains]

lemma contains_erase_iff (other : String) :
    (m.erase key).contains other = true ↔ other ≠ key ∧ m.contains other = true := by
  rw [contains, get?_erase]
  split_ifs with heq
  · simp [heq]
  · simp [heq, contains]

/-! ### All names -/

lemma mem_keys_iff : key ∈ m.keys ↔ m.contains key = true := by
  rw [keys, List.mem_map, contains_iff]
  constructor
  · rintro ⟨⟨k, a⟩, hmem, rfl⟩
    exact ⟨a, mem_entries_iff.1 hmem⟩
  · rintro ⟨a, ha⟩
    exact ⟨(key, a), mem_entries_iff.2 ha, rfl⟩

lemma nodup_keys (m : KeyMap α) : m.keys.Nodup :=
  List.pairwise_map.2 (m.ordered.imp fun {a b} hlt (heq : a.1 = b.1) =>
    String.lt_irrefl b.1 (heq ▸ hlt))

/-- Maps in which the same keys are stored list them in the same order. -/
lemma keys_eq_of_contains {m : KeyMap α} {n : KeyMap β}
    (h : ∀ key, m.contains key = true ↔ n.contains key = true) : m.keys = n.keys := by
  have hperm : m.keys.Perm n.keys :=
    (List.perm_ext_iff_of_nodup m.nodup_keys n.nodup_keys).2 fun key => by
      rw [mem_keys_iff, mem_keys_iff, h]
  exact hperm.eq_of_pairwise
    (fun a b _ _ (hab : a < b) hba => absurd (String.lt_trans hab hba) (String.lt_irrefl _))
    (List.pairwise_map.2 m.ordered) (List.pairwise_map.2 n.ordered)

/-- A map with some more keys has as many more entries. -/
lemma size_eq_add_length {m m' : KeyMap α} {l : List String} (hl : l.Nodup)
    (hnew : ∀ key ∈ l, ¬ m.contains key = true)
    (h : ∀ key, m'.contains key = true ↔ m.contains key = true ∨ key ∈ l) :
    m'.size = m.size + l.length := by
  have hnodup : (m.keys ++ l).Nodup :=
    List.nodup_append.2 ⟨m.nodup_keys, hl, fun key hkey key' hkey' heq =>
      hnew key' hkey' (heq ▸ mem_keys_iff.1 hkey)⟩
  have hperm : m'.keys.Perm (m.keys ++ l) :=
    (List.perm_ext_iff_of_nodup m'.nodup_keys hnodup).2 fun key => by
      rw [List.mem_append, mem_keys_iff, mem_keys_iff, h]
  simpa [size, keys] using hperm.length_eq

lemma keys_insert_of_contains (a : α) (h : m.contains key = true) :
    (m.insert key a).keys = m.keys := by
  refine keys_eq_of_contains fun other => ?_
  rw [contains_insert_iff]
  exact or_iff_right_of_imp fun heq => heq ▸ h

lemma keys_insert_perm (a : α) (h : key ∉ m.keys) :
    (m.insert key a).keys.Perm (key :: m.keys) := by
  refine (List.perm_ext_iff_of_nodup (nodup_keys _) (List.nodup_cons.2 ⟨h, m.nodup_keys⟩)).2 ?_
  intro other
  rw [mem_keys_iff, contains_insert_iff, List.mem_cons, mem_keys_iff]

end Synchrony.KeyMap
