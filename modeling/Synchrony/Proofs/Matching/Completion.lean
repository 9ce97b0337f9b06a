import Synchrony.Proofs.Matching.Search
import Synchrony.Proofs.RuleTable.Index

/-!
# The rules that a record completes

`Rule.Completes` says that a choice of records fits a rule and contains the trigger. If the trigger
is the latest of the records, looking for a match around each place the trigger can take finds one
exactly if there is such a choice (`Rule.completion_isSome_iff`), and what it finds is such a choice
(`Rule.completion_sound`). Later records change nothing (`Rule.completion_append`).
-/

namespace Synchrony

namespace Rule

/-- The match with which a record completes the rule, if it does. -/
def completion (rule : Rule) (records : List Record) (trigger : Record) : Option Match :=
  (RuleTable.anchors rule trigger.action).findSome? fun i =>
    Match.findAnchored? rule.conditions records i trigger rule.accepts

/--
The chosen records are among `records`, the trigger is one of them, and the rule's conditions fit
them, one record each, under a binding that the rule accepts.
-/
structure Completes (rule : Rule) (records : List Record) (trigger : Record) (chosen : List Record)
    (b : Binding) : Prop extends Match.Admits rule.accepts rule.conditions chosen b where
  listed : ∀ r ∈ chosen, r ∈ records
  trigger_mem : trigger ∈ chosen

variable {rule : Rule} {records : List Record} {trigger : Record}

lemma mem_anchors_iff {action : ActionRef} {i : Nat} :
    i ∈ RuleTable.anchors rule action ↔ ∃ p, rule.conditions[i]? = some p ∧ p.action = action := by
  simp only [RuleTable.anchors, List.mem_filter, List.mem_range]
  constructor
  · rintro ⟨hi, h⟩
    rw [List.getElem?_eq_getElem hi] at h
    exact ⟨_, List.getElem?_eq_getElem hi, by simpa using h⟩
  · rintro ⟨p, hp, haction⟩
    obtain ⟨hi, -⟩ := List.getElem?_eq_some_iff.1 hp
    exact ⟨hi, by simp [hp, haction]⟩

/-- A record whose action no condition asks for does not complete the rule. -/
lemma completion_eq_none_of_action (h : ∀ p ∈ rule.conditions, p.action ≠ trigger.action) :
    rule.completion records trigger = none := by
  have hanchors : RuleTable.anchors rule trigger.action = [] := by
    rw [List.eq_nil_iff_forall_not_mem]
    intro i hi
    obtain ⟨p, hp, haction⟩ := mem_anchors_iff.1 hi
    exact h p (List.mem_of_getElem? hp) haction
  rw [completion, hanchors]
  rfl

/-- The match with which a record completes a rule is a choice that completes it. -/
lemma completion_sound {m : Match} (htrigger : trigger ∈ records)
    (h : rule.completion records trigger = some m) :
    ∃ chosen, rule.Completes records trigger chosen m.binding ∧ m.records = chosen.map (·.seq) := by
  obtain ⟨i, -, hi⟩ := List.exists_of_findSome?_eq_some h
  obtain ⟨chosen, hlt, hanchored, hadmits, hrecords⟩ := Match.exists_of_findAnchored? hi
  have hat : chosen[i]? = some trigger := by
    have hget := hanchored i _ (List.getElem?_eq_getElem hlt)
    rw [if_pos rfl] at hget
    rw [List.getElem?_eq_getElem hlt, hget]
  exact ⟨chosen, ⟨hadmits, hanchored.listed htrigger, List.mem_of_getElem? hat⟩, hrecords⟩

/-- The place that the trigger takes in a choice is one at which the search is anchored. -/
lemma Completes.exists_anchor {chosen : List Record} {b : Binding}
    (h : rule.Completes records trigger chosen b) :
    ∃ i ∈ RuleTable.anchors rule trigger.action, chosen[i]? = some trigger := by
  obtain ⟨i, hi⟩ := List.mem_iff_getElem?.1 h.trigger_mem
  obtain ⟨hlt, hget⟩ := List.getElem?_eq_some_iff.1 hi
  have hlt' : i < rule.conditions.length := h.holds.length_eq ▸ hlt
  have hholds := List.Forall₂.get h.holds hlt' hlt
  refine ⟨i, mem_anchors_iff.2 ⟨_, List.getElem?_eq_getElem hlt', ?_⟩, hi⟩
  rw [List.get_eq_getElem, List.get_eq_getElem, hget] at hholds
  exact hholds.action

/-- The latest record completes a rule exactly if some choice with it does. -/
theorem completion_isSome_iff (htrigger : trigger ∈ records)
    (hlast : ∀ r ∈ records, r = trigger ∨ r.seq < trigger.seq) :
    (rule.completion records trigger).isSome = true ↔
      ∃ chosen b, rule.Completes records trigger chosen b := by
  constructor
  · intro h
    obtain ⟨m, hm⟩ := Option.isSome_iff_exists.1 h
    obtain ⟨chosen, hchosen, -⟩ := completion_sound htrigger hm
    exact ⟨chosen, m.binding, hchosen⟩
  · rintro ⟨chosen, b, h⟩
    obtain ⟨i, hanchor, hi⟩ := h.exists_anchor
    obtain ⟨hlt, -⟩ := List.getElem?_eq_some_iff.1 hi
    rw [completion, List.findSome?_isSome_iff]
    have hanchored := h.toAdmits.anchored h.listed hlast hi
    exact ⟨i, hanchor, Match.isSome_findAnchored? hlt hanchored h.toAdmits⟩

/-- A match binds all variables of the rule's conditions. -/
lemma isSome_get?_of_completion {m : Match} (htrigger : trigger ∈ records)
    (h : rule.completion records trigger = some m) {x : String}
    (hx : x ∈ rule.conditions.flatMap Pattern.vars) : (m.binding.get? x).isSome = true := by
  obtain ⟨chosen, hchosen, -⟩ := completion_sound htrigger h
  exact hchosen.toFits.isSome_get?_iff.2 hx

/-- Records that are not older than the trigger play no part. -/
lemma completion_append {later : List Record} (h : ∀ r ∈ later, trigger.seq ≤ r.seq) :
    rule.completion (records ++ later) trigger = rule.completion records trigger := by
  have hearlier : (records ++ later).reverse.filter (fun r => r.seq < trigger.seq) =
      records.reverse.filter fun r => r.seq < trigger.seq := by
    rw [List.reverse_append, List.filter_append, List.append_left_eq_self, List.filter_eq_nil_iff]
    intro r hr
    simpa using h r (List.mem_reverse.1 hr)
  simp only [completion, Match.findAnchored?, Match.pinned, hearlier]

end Rule

namespace RuleTable

/-- The table looks at its rules in order and keeps those that the record completes. -/
lemma completedBy_eq (t : RuleTable) (records : List Record) (trigger : Record) :
    t.completedBy records trigger = t.rules.filterMap fun rule =>
      (rule.completion records trigger).map fun m => (rule, m) := by
  rw [completedBy, triggeredBy_eq, List.filterMap_filterMap]
  congr 1
  funext rule
  simp only [Rule.completion]
  cases hanchors : anchors rule trigger.action <;> simp

lemma mem_completedBy_iff {t : RuleTable} {records : List Record} {trigger : Record} {rule : Rule}
    {m : Match} : (rule, m) ∈ t.completedBy records trigger ↔
      rule ∈ t.rules ∧ rule.completion records trigger = some m := by
  simp only [completedBy_eq, List.mem_filterMap, Option.map_eq_some_iff, Prod.mk.injEq]
  constructor
  · rintro ⟨rule, hrule, m, hm, rfl, rfl⟩
    exact ⟨hrule, hm⟩
  · rintro ⟨hrule, hm⟩
    exact ⟨rule, hrule, m, hm, rfl, rfl⟩

/-- Records that are not older than the trigger play no part. -/
lemma completedBy_append (t : RuleTable) {records later : List Record} {trigger : Record}
    (h : ∀ r ∈ later, trigger.seq ≤ r.seq) :
    t.completedBy (records ++ later) trigger = t.completedBy records trigger := by
  rw [completedBy_eq, completedBy_eq]
  simp only [Rule.completion_append h]

end RuleTable

end Synchrony
