import Synchrony.Proofs.Burst.Lineage

/-!
# Cycles are repeated firings of one chain

A burst fails with a cycle exactly if the evaluation of one of its records comes to a match that
repeats a firing of that record's chain (`Traffic.cycleDetected_iff`). No chain has the same rule
twice with an identical binding, not even when it goes on with a firing on its record. Firings that
are identical but lie on no common chain do not fail a burst.
-/

namespace Synchrony

variable {ι : Type}

/-- The match repeats a firing of the chain: the same rule fired, with an identical binding. -/
def Repeats (chain : List Firing) (x : Rule × Match) : Prop :=
  ∃ f ∈ chain, f.rule = x.1.name ∧ f.binding.canonical = x.2.binding.canonical

/-- The first match that a record may not fire, among those found for it, repeats its chain. -/
structure ComesToRepeat (limits : Limits) (record : Record) (chain : List Firing)
    (found : List (Rule × Match)) (rule : String) : Prop where
  depth : record.depth + 1 ≤ limits.maxDepth
  first : ∃ earlier x later, found = earlier ++ x :: later ∧ x.1.name = rule ∧ Repeats chain x ∧
    ∀ y ∈ earlier, ¬ Repeats chain y

section Evaluation

variable {limits : Limits} {id burst rule : String} {record : Record} {chain : List Firing}
  {found : List (Rule × Match)} {x : Rule × Match}

lemma key_mem_iff_repeats :
    (Firing.of record x).key ∈ chain.map Firing.key ↔ Repeats chain x :=
  Firing.keyOf_mem_iff

lemma blocked_iff_repeats (hdepth : record.depth + 1 ≤ limits.maxDepth) :
    Blocked limits record (chain.map Firing.key) x ↔ Repeats chain x := by
  rw [Blocked, key_mem_iff_repeats]
  exact or_iff_right (UInt32.not_lt.2 hdepth)

/-- An evaluation detects a cycle exactly if it comes to a match that repeats the chain. -/
lemma evaluate_cycleDetected_iff :
    (evaluate limits id record (chain.map Firing.key) found).failure =
        some (.cycleDetected burst rule) ↔
      burst = id ∧ ComesToRepeat limits record chain found rule := by
  rw [evaluate_failure_eq_some_iff]
  constructor
  · rintro ⟨earlier, x, later, rfl, hx, hearlier, hfailure⟩
    rw [blockedFailure] at hfailure
    split at hfailure
    · cases hfailure
    rename_i hdepth
    rw [UInt32.not_lt] at hdepth
    cases hfailure
    refine ⟨rfl, hdepth, earlier, x, later, rfl, rfl, (blocked_iff_repeats hdepth).1 hx, ?_⟩
    intro y hy
    exact mt (blocked_iff_repeats hdepth).2 (hearlier y hy)
  · rintro ⟨rfl, hdepth, earlier, x, later, rfl, rfl, hx, hearlier⟩
    refine ⟨earlier, x, later, rfl, (blocked_iff_repeats hdepth).2 hx, ?_, ?_⟩
    · intro y hy
      exact mt (blocked_iff_repeats hdepth).1 (hearlier y hy)
    · rw [blockedFailure, if_neg (UInt32.not_lt.2 hdepth)]

end Evaluation

namespace Course

variable {e : Engine ι} {id : String} {report : Report} {r : Record} {chain : List Firing}

/-! ### Evaluations of a burst that is over -/

/-- A burst that is over fails as the evaluation of one of its records does. -/
lemma failure_of_evaluation (ht : e.rules.Tidy)
    (h : Course e id report.records (.standing (.over report)))
    (hmem : (r, chain) ∈ (report.lineage e.rules.rules e.registry.contains).chains)
    {failure : BurstFailure}
    (hfailure : (e.evaluation id report.records r chain).failure = some failure) :
    report.failure = some failure := by
  have hr : r ∈ report.records := (h.chained ht).1 ▸ List.mem_map_of_mem hmem
  have hdescends := h.descends_of_mem ht hmem
  have hgrown := h.grown ht (List.ne_nil_of_mem hr)
  have hfails : ¬ e.Passes id report.records r := by
    rintro ⟨chain', hdescends', hnone⟩
    rw [hgrown.chain_unique h.sorted hdescends'.mem hdescends.mem, hfailure] at hnone
    cases hnone
  rcases h.descends ht with hexhausts | ⟨_, heq, before, record, chain', hrs, hpasses, hdescends',
    hfailure', -⟩
  · exact absurd (hexhausts.passes r hr) hfails
  · rw [hrs, List.mem_append, List.mem_singleton] at hr
    rcases hr with hr | rfl
    · exact absurd (hpasses r hr) hfails
    · rw [hgrown.chain_unique h.sorted hdescends'.mem hdescends.mem, hfailure] at hfailure'
      rw [heq, hfailure']

/-- A burst fails over budget, or as the evaluation of one of its records does. -/
lemma exists_evaluation_of_failure (ht : e.rules.Tidy)
    (h : Course e id report.records (.standing (.over report))) {failure : BurstFailure}
    (hfailure : report.failure = some failure) :
    failure = .budgetExceeded id e.limits.maxActions ∨
      ∃ r chain, (r, chain) ∈ (report.lineage e.rules.rules e.registry.contains).chains ∧
        (e.evaluation id report.records r chain).failure = some failure := by
  rcases h.descends ht with hexhausts | ⟨failure', heq, before, record, chain, -, -, hdescends,
    hfailure', -⟩
  · rcases hexhausts.failure_eq with ⟨hnone, -⟩ | ⟨hbudget, -⟩
    · rw [hnone] at hfailure
      cases hfailure
    · rw [hfailure] at hbudget
      exact Or.inl (Option.some.inj hbudget)
  · rw [hfailure] at heq
    cases heq
    refine Or.inr ⟨record, chain, ?_, hfailure'⟩
    rw [h.chains_lineage ht]
    exact hdescends.mem

/-- The firings on a record are those of its evaluation. -/
lemma mem_evaluation_of_trigger (ht : e.rules.Tidy)
    (h : Course e id report.records (.standing (.over report)))
    (hmem : (r, chain) ∈ (report.lineage e.rules.rules e.registry.contains).chains) {f : Firing}
    (hf : f ∈ report.firings) (htrigger : f.trigger = r.seq) :
    f ∈ (e.evaluation id report.records r chain).firings := by
  have hr : r ∈ report.records := (h.chained ht).1 ▸ List.mem_map_of_mem hmem
  have hdescends := h.descends_of_mem ht hmem
  have hgrown := h.grown ht (List.ne_nil_of_mem hr)
  have hunique : ∀ r' ∈ report.records, r'.seq = r.seq → r' = r := fun r' hr' hseq =>
    List.inj_on_of_nodup_map (nodup_seqs h.sorted) hr' hr hseq
  obtain ⟨before, record, last, hrs, hpasses, hlast, hfirings⟩ := h.exists_last ht
  rw [hfirings, List.mem_append] at hf
  rcases hf with hf | hf
  · obtain ⟨r', hr', hf⟩ := List.mem_flatMap.1 hf
    obtain ⟨x, hx, rfl⟩ := List.mem_map.1 hf
    obtain rfl := hunique r' (hrs ▸ List.mem_append_left _ hr') htrigger
    obtain ⟨chain', hdescends', hnone⟩ := hpasses r' hr'
    rw [hgrown.chain_unique h.sorted hdescends'.mem hdescends.mem] at hnone
    rw [Engine.evaluation, (evaluate_of_failure_eq_none hnone).1, hrs,
      Engine.completedBy_concat (hrs ▸ h.sorted) hr']
    exact List.mem_map_of_mem hx
  · rw [Engine.trigger_of_mem_evaluation hf] at htrigger
    obtain rfl := hunique record (hrs ▸ List.mem_append_right _ (by simp)) htrigger
    rwa [hgrown.chain_unique h.sorted hdescends.mem hlast.mem]

/-- No chain that goes on with a firing on its record repeats itself. -/
lemma nodup_identities (ht : e.rules.Tidy)
    (h : Course e id report.records (.standing (.over report)))
    (hmem : (r, chain) ∈ (report.lineage e.rules.rules e.registry.contains).chains) {f : Firing}
    (hf : f ∈ report.firings) (htrigger : f.trigger = r.seq) :
    ((f :: chain).map Firing.identity).Nodup := by
  obtain ⟨x, -, rfl, hfree⟩ :=
    exists_of_mem_firings (h.mem_evaluation_of_trigger ht hmem hf htrigger)
  apply Firing.nodup_map_identity
  rw [List.map_cons, List.nodup_cons]
  exact ⟨(not_or.1 hfree).2, (h.descends_of_mem ht hmem).nodup⟩

end Course

/-! ### A peal -/

namespace Peal

/-- Whoever rings lets two bells chime and rings again. -/
def peal : Rule :=
  ⟨"peal", [⟨⟨"Bell", "ring"⟩, Bells.who, .empty⟩],
    [⟨⟨"Bell", "chime"⟩, Bells.who⟩, ⟨⟨"Bell", "chime"⟩, Bells.who⟩, ⟨⟨"Bell", "ring"⟩, Bells.who⟩],
    none⟩

/-- A chime is heard. -/
def hear : Rule := ⟨"hear", [⟨⟨"Bell", "chime"⟩, Bells.who, .empty⟩], [], none⟩

def engine : Engine Unit :=
  { Bells.engine with
    rules := (({} : RuleTable).install Bells.registry.contains [peal, hear]).1 }

/-- Ann rings, both chimes are heard, and then she rings again. -/
def events : List Event :=
  .begin "a" ⟨"Bell", "ring"⟩ (KeyMap.singleton "who" (.str "ann")) ::
    ([10, 20, 30, 40].flatMap fun time =>
      [.move "a" (.answer .empty ⟨time⟩), .move "a" .observe, .move "a" .proceed])

def traffic : Traffic Unit := ((Traffic.idle engine).run events).getD (.idle engine)

/-- What Ann's burst was. -/
def report : Report where
  id := "a"
  root := Bells.record 1 "a" 0 "ring" "ann" none 10
  records := [Bells.record 1 "a" 0 "ring" "ann" none 10,
    Bells.record 2 "a" 1 "chime" "ann" (some "peal") 20,
    Bells.record 3 "a" 1 "chime" "ann" (some "peal") 30,
    Bells.record 4 "a" 1 "ring" "ann" (some "peal") 40]
  firings := [⟨"peal", 1, [1], KeyMap.singleton "who" (.str "ann")⟩,
    ⟨"hear", 2, [2], KeyMap.singleton "who" (.str "ann")⟩,
    ⟨"hear", 3, [3], KeyMap.singleton "who" (.str "ann")⟩]
  failure := some (.cycleDetected "a" "peal")

lemma installed_engine : engine.rules.Installed := ⟨[(Bells.registry.contains, [peal, hear])], rfl⟩

lemma run_events : (Traffic.idle engine).run events = some traffic := rfl

lemma report?_traffic : traffic.report? "a" = some report := rfl

end Peal

namespace Traffic

variable {e : Engine ι} {s : Traffic ι} {events : List Event} {id : String} {report : Report}

/--
Each record of a burst has its chain, which never has a rule twice with an identical binding, also
when it goes on with a firing on the record. The burst fails with a cycle exactly if the evaluation
of a record comes to a match that repeats its chain.
-/
theorem cycleDetected_iff (hrules : e.rules.Installed) (hrun : (idle e).run events = some s)
    (hreport : s.report? id = some report) :
    let chains := (report.lineage e.rules.rules e.registry.contains).chains
    (chains.map (·.1) = s.recordsOf id ∧ report.records = s.recordsOf id ∧
      Lineage.Chained (report.causesUnder e.rules.rules e.registry.contains) chains) ∧
    (∀ r chain, (r, chain) ∈ chains → (chain.map Firing.identity).Nodup ∧
      ∀ f ∈ report.firings, f.trigger = r.seq → ((f :: chain).map Firing.identity).Nodup) ∧
    ∀ burst rule, report.failure = some (.cycleDetected burst rule) ↔ burst = id ∧
      ∃ before r after chain, s.recordsOf id = before ++ r :: after ∧ (r, chain) ∈ chains ∧
        ComesToRepeat e.limits r chain (e.rules.completedBy (before ++ [r]) r) rule := by
  intro chains
  have ht := hrules.tidy
  have hcourse := course_of_report? hrun hreport
  obtain ⟨hrecords, hchained⟩ := hcourse.chained ht
  rw [← records_of_report? hrun hreport]
  refine ⟨⟨hrecords, rfl, hchained⟩, ?_, ?_⟩
  · intro r chain hmem
    refine ⟨Firing.nodup_map_identity (hcourse.descends_of_mem ht hmem).nodup, ?_⟩
    intro f hf htrigger
    exact hcourse.nodup_identities ht hmem hf htrigger
  intro burst rule
  constructor
  · intro hfailure
    rcases hcourse.exists_evaluation_of_failure ht hfailure with hbudget | ⟨r, chain, hmem, hcycle⟩
    · cases hbudget
    obtain ⟨hburst, hrepeat⟩ := evaluate_cycleDetected_iff.1 hcycle
    have hr : r ∈ report.records := hrecords ▸ List.mem_map_of_mem hmem
    obtain ⟨before, after, hsplit⟩ := List.append_of_mem hr
    refine ⟨hburst, before, r, after, chain, hsplit, hmem, ?_⟩
    rw [hsplit, RuleTable.completedBy_of_sorted _ (hsplit ▸ hcourse.sorted)] at hrepeat
    exact hrepeat
  · rintro ⟨rfl, before, r, after, chain, hsplit, hmem, hrepeat⟩
    apply hcourse.failure_of_evaluation ht hmem
    rw [Engine.evaluation, evaluate_cycleDetected_iff]
    rw [← RuleTable.completedBy_of_sorted _ (hsplit ▸ hcourse.sorted), ← hsplit] at hrepeat
    exact ⟨rfl, hrepeat⟩

theorem cycleDetected_iff_peal : Peal.report.fired "hear" = 2 ∧
    ∃ before r after chain, Peal.report.records = before ++ r :: after ∧
      (r, chain) ∈ (Peal.report.lineage Peal.engine.rules.rules
        Peal.engine.registry.contains).chains ∧
      ComesToRepeat Peal.engine.limits r chain (Peal.engine.rules.completedBy (before ++ [r]) r)
        "peal" := by
  obtain ⟨⟨-, hrecords, -⟩, -, hiff⟩ :=
    cycleDetected_iff Peal.installed_engine Peal.run_events Peal.report?_traffic
  rw [hrecords]
  exact ⟨rfl, ((hiff "a" "peal").1 rfl).2⟩

end Traffic

end Synchrony
