import Synchrony.Proofs.Burst.Consistency
import Synchrony.Proofs.RuleTable.Installed

/-!
# Which rules a record fires

The firings in the report of a burst that ended without failure are those of its records, each with
the rules that it completes. Two rules have different names and two records different numbers, so
the firings of one rule on one record are the match found for it, if there is one
(`Report.firingsOf_eq`).
-/

namespace Synchrony

variable {ι : Type}

/-- If only one element gives anything, it gives everything. -/
lemma flatMap_eq_of_forall_ne {α β : Type} {l : List α} {g : α → List β} {a : α} (hl : l.Nodup)
    (ha : a ∈ l) (h : ∀ b ∈ l, b ≠ a → g b = []) : l.flatMap g = g a := by
  induction l with
  | nil => simp at ha
  | cons b rest ih =>
    obtain ⟨hb, hrest⟩ := List.nodup_cons.1 hl
    rw [List.flatMap_cons]
    rcases List.mem_cons.1 ha with rfl | ha
    · have hnil : rest.flatMap g = [] := List.flatMap_eq_nil_iff.2 fun c hc =>
        h c (List.mem_cons_of_mem _ hc) fun heq => hb (heq ▸ hc)
      rw [hnil, List.append_nil]
    · rw [h b List.mem_cons_self fun heq => hb (heq ▸ ha), List.nil_append]
      exact ih hrest ha fun c hc => h c (List.mem_cons_of_mem _ hc)

/-- The firings of a rule on the record with a number. -/
def Report.firingsOf (report : Report) (rule : String) (trigger : Nat) : List Firing :=
  report.firings.filter fun f => f.rule = rule ∧ f.trigger = trigger

/-! ### Firings and completions -/

section Firings

variable {t : RuleTable} {records : List Record}

lemma nodup_seqs (h : records.Pairwise (·.seq < ·.seq)) : (records.map (·.seq)).Nodup :=
  List.pairwise_map.2 (h.imp ne_of_lt)

/-- One record fires one rule with the match found for it. -/
lemma filter_firingsAmong (ht : t.Tidy) (hsorted : records.Pairwise (·.seq < ·.seq)) {rule : Rule}
    (hrule : rule ∈ t.rules) {r : Record} (hr : r ∈ records) :
    (t.firingsAmong records).filter (fun f => f.rule = rule.name ∧ f.trigger = r.seq) =
      ((rule.completion records r).map fun m => Firing.of r (rule, m)).toList := by
  rw [RuleTable.firingsAmong, List.filter_flatMap,
    flatMap_eq_of_forall_ne (nodup_seqs hsorted).of_map hr fun r' hr' hne => ?_]
  · rw [RuleTable.completedBy_eq, List.filterMap_eq_flatMap_toList, List.map_flatMap,
      List.filter_flatMap,
      flatMap_eq_of_forall_ne ht.names.of_map hrule fun rule' hrule' hne => ?_]
    · cases rule.completion records r <;> simp [Firing.of]
    · have hname : rule'.name ≠ rule.name := fun heq =>
        hne (List.inj_on_of_nodup_map ht.names hrule' hrule heq)
      cases rule'.completion records r <;> simp [Firing.of, hname]
  · have hseq : r'.seq ≠ r.seq := fun heq =>
      hne (List.inj_on_of_nodup_map (nodup_seqs hsorted) hr' hr heq)
    simp [List.filter_map, Function.comp_def, Firing.of, hseq]

end Firings

namespace Report

variable {e : Engine ι} {id : String} {report : Report}

/-- The firings of one rule on one record of a burst without failure. -/
lemma firingsOf_eq (h : Course e id report.records (.standing (.over report)))
    (ht : e.rules.Tidy) (hfailure : report.failure = none) {rule : Rule}
    (hrule : rule ∈ e.rules.rules) {r : Record} (hr : r ∈ report.records) :
    report.firingsOf rule.name r.seq =
      ((rule.completion report.records r).map fun m => Firing.of r (rule, m)).toList := by
  rw [firingsOf, h.tracks.2.2.2 hfailure]
  exact filter_firingsAmong ht h.sorted hrule hr

end Report

/-- Only the records up to a record can complete a rule with it. -/
lemma Rule.completion_of_sorted {rule : Rule} {before after : List Record} {r : Record}
    (h : (before ++ r :: after).Pairwise (·.seq < ·.seq)) :
    rule.completion (before ++ r :: after) r = rule.completion (before ++ [r]) r := by
  have hlater : ∀ r' ∈ after, r.seq ≤ r'.seq := fun r' hr' =>
    (List.rel_of_pairwise_cons (List.pairwise_append.1 h).2.1 hr').le
  rw [List.append_cons, Rule.completion_append hlater]

/-! ### What fires -/

/-- The latest record completes a rule exactly if some choice of records with it does. -/
lemma Rule.completion_isSome_iff_of_sorted {rule : Rule} {before : List Record} {r : Record}
    (h : (before ++ [r]).Pairwise (·.seq < ·.seq)) :
    (rule.completion (before ++ [r]) r).isSome = true ↔
      ∃ chosen b, rule.Completes (before ++ [r]) r chosen b :=
  Rule.completion_isSome_iff (by simp) (Match.eq_or_lt_of_sorted h)

/-- For a filter that does not tell equal values apart, any binding that the patterns hold under
is as good as the one that is found. -/
lemma Rule.exists_completes_iff {rule : Rule} {records : List Record} {r : Record}
    (hfilter : ∀ b b' : Binding, b.Agrees b' → rule.accepts b = rule.accepts b') :
    (∃ chosen b, rule.Completes records r chosen b) ↔
      ∃ chosen b, List.Forall₂ (fun p r => Pattern.Holds p r b) rule.conditions chosen ∧
        (∀ x, (b.get? x).isSome = true ↔ x ∈ rule.conditions.flatMap Pattern.vars) ∧
        (chosen.map (·.seq)).Nodup ∧ (∀ r' ∈ chosen, r' ∈ records) ∧ r ∈ chosen ∧
        rule.accepts b = true := by
  constructor
  · rintro ⟨chosen, b, h⟩
    exact ⟨chosen, b, h.holds, fun x => h.toFits.isSome_get?_iff, h.distinct, h.listed,
      h.trigger_mem, h.accepted⟩
  · rintro ⟨chosen, b, hholds, hvars, hdistinct, hlisted, htrigger, haccepted⟩
    obtain ⟨b₀, hfits, hagrees⟩ := exists_fits hholds hvars
    exact ⟨chosen, b₀, ⟨⟨hfits, hdistinct, (hfilter b₀ b hagrees).trans haccepted⟩, hlisted,
      htrigger⟩⟩

lemma Bells.installed_engine : engine.rules.Installed := ⟨[(registry.contains, [echo, both])], rfl⟩

namespace Traffic

variable {e : Engine ι} {s : Traffic ι} {events : List Event} {id : String} {report : Report}

/--
In a burst that ended without failure, a record fires an installed rule exactly if it completes the
rule together with the burst's earlier records, once, and with a choice that completes it.
-/
theorem firingsOf_iff_completes (hrules : e.rules.Installed)
    (hrun : (idle e).run events = some s) (hreport : s.report? id = some report)
    (hquiet : report.failure = none) {rule : Rule} (hrule : rule ∈ e.rules.rules)
    {before after : List Record} {r : Record} (hr : s.recordsOf id = before ++ r :: after) :
    (report.firingsOf rule.name r.seq ≠ [] ↔
        ∃ chosen b, rule.Completes (before ++ [r]) r chosen b) ∧
      (report.firingsOf rule.name r.seq).length ≤ 1 ∧
      (∀ f ∈ report.firingsOf rule.name r.seq, ∃ chosen,
        rule.Completes (before ++ [r]) r chosen f.binding ∧ f.records = chosen.map (·.seq)) ∧
      ((∀ b b' : Binding, b.Agrees b' → rule.accepts b = rule.accepts b') →
        (report.firingsOf rule.name r.seq ≠ [] ↔
          ∃ chosen b, List.Forall₂ (fun p r => Pattern.Holds p r b) rule.conditions chosen ∧
            (∀ x, (b.get? x).isSome = true ↔ x ∈ rule.conditions.flatMap Pattern.vars) ∧
            (chosen.map (·.seq)).Nodup ∧ (∀ r' ∈ chosen, r' ∈ before ++ [r]) ∧ r ∈ chosen ∧
            rule.accepts b = true)) := by
  have hcourse := course_of_report? hrun hreport
  rw [← records_of_report? hrun hreport] at hr
  have hsorted := hcourse.sorted
  have hmem : r ∈ report.records := by simp [hr]
  have hfirings := report.firingsOf_eq hcourse hrules.tidy hquiet hrule hmem
  rw [hr] at hfirings hsorted
  rw [Rule.completion_of_sorted hsorted] at hfirings
  have hsorted' : (before ++ [r]).Pairwise (·.seq < ·.seq) :=
    hsorted.sublist (List.Sublist.append_left (by simp) before)
  have hiff : report.firingsOf rule.name r.seq ≠ [] ↔
      ∃ chosen b, rule.Completes (before ++ [r]) r chosen b := by
    rw [← Rule.completion_isSome_iff_of_sorted hsorted', hfirings]
    cases rule.completion (before ++ [r]) r <;> simp
  refine ⟨hiff, ?_, fun f hf => ?_, fun hfilter => hiff.trans (Rule.exists_completes_iff hfilter)⟩
  · rw [hfirings]
    cases rule.completion (before ++ [r]) r <;> simp
  · rw [hfirings, Option.mem_toList, Option.map_eq_some_iff] at hf
    obtain ⟨m, hm, rfl⟩ := hf
    exact Rule.completion_sound (by simp) hm

theorem firingsOf_iff_completes_bells : Bells.report.failure = none ∧
    (Bells.report.firingsOf "both" 4).length = 1 ∧ ∃ chosen b,
      Bells.both.Completes Bells.report.records
        (Bells.record 4 "a" 1 "chime" "ann" (some "echo") 40) chosen b := by
  have hrule : Bells.both ∈ Bells.engine.rules.rules := .tail _ (.head _)
  have hrecords : Bells.traffic.recordsOf "a" = [Bells.record 1 "a" 0 "ring" "ann" none 10] ++
      Bells.record 4 "a" 1 "chime" "ann" (some "echo") 40 :: [] := rfl
  have h := firingsOf_iff_completes Bells.installed_engine Bells.run_events Bells.report?_traffic
    rfl hrule hrecords
  exact ⟨rfl, rfl, h.1.1 (List.cons_ne_nil _ _)⟩

end Traffic

end Synchrony
