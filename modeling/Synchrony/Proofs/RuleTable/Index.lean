import Mathlib.Data.List.Basic
import Mathlib.Tactic.Common
import Synchrony.RuleTable

/-!
# The index of a table

The table finds the rules with a pattern on an action through an index of all patterns, whose entries
it gathers rule by rule. What it finds is what it would find by going through its rules one after the
other (`RuleTable.triggeredBy_eq`).
-/

namespace Synchrony

namespace RuleTable

/-- The positions of a rule's patterns on an action are those of its entries. -/
lemma anchors_eq (rule : Rule) (action : ActionRef) :
    anchors rule action = (rule.conditions.zipIdx.filter (·.1.action = action)).map (·.2) := by
  have hrange : List.range rule.conditions.length = rule.conditions.zipIdx.map (·.2) := by
    rw [List.zipIdx_map_snd, List.range_eq_range']
  rw [anchors, hrange, List.filter_map]
  congr 1
  refine List.filter_congr fun x hx => ?_
  rw [Function.comp_apply, List.mem_zipIdx_iff_getElem?.1 hx]

/-- The entries of one rule for an action. -/
lemma entries_of_rule (rule : Rule) (i : Nat) (action : ActionRef) :
    ((rule.conditions.zipIdx.map fun x => (x.1.action, i, x.2)).filter (·.1 = action)).map (·.2) =
      (anchors rule action).map fun k => (i, k) := by
  rw [anchors_eq, List.filter_map, List.map_map, List.map_map]
  rfl

/-! ### Gathering -/

/-- The first group is that of the first entry. -/
lemma exists_gather_cons (i k : Nat) (rest : List (Nat × Nat)) :
    ∃ ks groups, gather ((i, k) :: rest) = (i, ks) :: groups := by
  rw [gather]
  split
  · exact ⟨_, _, rfl⟩
  · split <;> exact ⟨_, _, rfl⟩

/-- Entries of one rule in front of those of others make one group. -/
lemma gather_append {i : Nat} {ks : List Nat} {rest : List (Nat × Nat)}
    (hrest : ∀ e ∈ rest, e.1 ≠ i) (hks : ks ≠ []) :
    gather (ks.map (fun k => (i, k)) ++ rest) = (i, ks) :: gather rest := by
  induction ks with
  | nil => exact absurd rfl hks
  | cons k ks ih =>
    rw [List.map_cons, List.cons_append, gather]
    cases ks with
    | nil =>
      cases rest with
      | nil => rfl
      | cons e rest =>
        obtain ⟨js, groups, hgather⟩ := exists_gather_cons e.1 e.2 rest
        have hne : i ≠ e.1 := (hrest e List.mem_cons_self).symm
        simp [hgather, hne]
    | cons k' ks => simp only [ih (List.cons_ne_nil k' ks), if_true]

/-- A rule with its place and the positions of its patterns on an action, if it has any. -/
def group (action : ActionRef) (x : Rule × Nat) : Option (Nat × List Nat) :=
  match anchors x.1 action with
  | [] => none
  | positions => some (x.2, positions)

/-- Gathering the entries of rules gives a group for each rule that has any. -/
lemma gather_entries (action : ActionRef) {rules : List (Rule × Nat)}
    (hrules : rules.Pairwise fun x y => x.2 ≠ y.2) :
    gather (rules.flatMap fun x => (anchors x.1 action).map fun k => (x.2, k)) =
      rules.filterMap (group action) := by
  induction hrules with
  | nil => rfl
  | @cons x rules hx _ ih =>
    rw [List.flatMap_cons, List.filterMap_cons, group]
    cases hanchors : anchors x.1 action with
    | nil => exact ih
    | cons k ks =>
      rw [gather_append _ (List.cons_ne_nil k ks), ih]
      intro e he
      obtain ⟨y, hy, hmem⟩ := List.mem_flatMap.1 he
      obtain ⟨k', -, rfl⟩ := List.mem_map.1 hmem
      exact (hx y hy).symm

/-- The table finds what it would find by going through its rules. -/
theorem triggeredBy_eq (t : RuleTable) (action : ActionRef) :
    t.triggeredBy action = t.rules.filterMap fun rule =>
      match anchors rule action with
      | [] => none
      | positions => some (rule, positions) := by
  have hentries : (t.index.entries.filter (·.1 = action)).map (·.2) =
      t.rules.zipIdx.flatMap fun x => (anchors x.1 action).map fun k => (x.2, k) := by
    rw [t.index.faithful, patternsOf, List.filter_flatMap, List.map_flatMap]
    exact List.flatMap_congr fun x _ => entries_of_rule x.1 x.2 action
  have hplaces : t.rules.zipIdx.Pairwise fun x y => x.2 ≠ y.2 := by
    rw [← List.pairwise_map (f := Prod.snd) (R := (· ≠ ·)), List.zipIdx_map_snd]
    exact List.nodup_range'
  simp only [triggeredBy]
  rw [hentries, gather_entries action hplaces, List.filterMap_filterMap]
  conv_rhs => rw [← List.zipIdx_map_fst 0 t.rules, List.filterMap_map]
  refine List.filterMap_congr fun x hx => ?_
  have hget := List.mem_zipIdx_iff_getElem?.1 hx
  rw [group, Function.comp_apply]
  cases anchors x.1 action with
  | nil => rfl
  | cons k ks => simp [hget]

end RuleTable

end Synchrony
