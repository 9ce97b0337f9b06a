import Synchrony.KeyMap.Keys
import Synchrony.RuleTable

/-!
# Installed tables

A table that was filled by installing batches of rules, whatever actions were declared at the time,
has no two rules of one name, and each of its rules has conditions that bind every variable of its
consequences (`RuleTable.Installed.sound`). So the arguments of a consequence have values under every
binding that binds the variables of the conditions (`Rule.exists_resolve`).
-/

namespace Synchrony

namespace Rule

lemma mem_sortedNames_iff {names : List String} {name : String} :
    name ∈ sortedNames names ↔ name ∈ names := by
  rw [sortedNames, KeyMap.mem_keys_iff, KeyMap.contains_ofList_iff]
  simp

/-- A rule with conditions that bind every variable of its consequences. -/
structure Sound (rule : Rule) : Prop where
  conditions : rule.conditions ≠ []
  bound : ∀ invocation ∈ rule.consequences, ∀ x ∈ invocation.args.vars,
    x ∈ rule.conditions.flatMap Pattern.vars

lemma sound_of_faults_eq_nil {rule : Rule} {declared : ActionRef → Bool}
    (h : rule.faults declared = []) : rule.Sound := by
  simp only [faults, List.append_eq_nil_iff, List.map_eq_nil_iff] at h
  obtain ⟨⟨hconditions, -⟩, hunbound⟩ := h
  refine ⟨fun hnil => by simp [hnil] at hconditions, fun invocation hinv x hx => ?_⟩
  by_contra hfree
  have hmem : x ∈ rule.unboundVars := by
    rw [unboundVars, mem_sortedNames_iff, List.mem_filter, List.mem_flatMap]
    refine ⟨⟨invocation, hinv, hx⟩, ?_⟩
    rw [Bool.not_eq_true', List.contains_eq_mem, decide_eq_false_iff_not, boundVars,
      mem_sortedNames_iff]
    exact hfree
  rw [hunbound] at hmem
  exact absurd hmem (by simp)

/-- Nothing is wrong with a sound rule that mentions declared actions only. -/
lemma Sound.faults_eq_nil {rule : Rule} {declared : ActionRef → Bool} (h : rule.Sound)
    (hdeclared : ∀ action ∈ rule.references, declared action = true) : rule.faults declared = [] := by
  have hunknown : rule.references.filter (! declared ·) = [] := by
    rw [List.filter_eq_nil_iff]
    intro action haction
    simp [hdeclared action haction]
  have hunbound : rule.unboundVars = [] := by
    rw [List.eq_nil_iff_forall_not_mem]
    intro x hx
    rw [unboundVars, mem_sortedNames_iff, List.mem_filter, List.mem_flatMap] at hx
    obtain ⟨⟨invocation, hinvocation, hvar⟩, hfree⟩ := hx
    rw [Bool.not_eq_true', List.contains_eq_mem, decide_eq_false_iff_not, boundVars,
      mem_sortedNames_iff] at hfree
    exact hfree (h.bound invocation hinvocation x hvar)
  simp [faults, h.conditions, hunknown, hunbound]

end Rule

/-! ### Arguments -/

lemma Shape.resolveEntries_cons_eq_ok_iff {b : Binding} {key : String} {term : Term}
    {rest : List (String × Term)} {fields : Fields} :
    resolveEntries b ((key, term) :: rest) = .ok fields ↔
      ∃ v fields', term.value? b = .ok v ∧ resolveEntries b rest = .ok fields' ∧
        fields'.insert key v = fields := by
  rw [resolveEntries]
  cases term.value? b with
  | error name => simp
  | ok v => cases resolveEntries b rest <;> simp

lemma Shape.exists_resolveEntries {b : Binding} {entries : List (String × Term)}
    (h : ∀ x ∈ entries.filterMap (·.2.var?), (b.get? x).isSome = true) :
    ∃ fields, resolveEntries b entries = .ok fields := by
  induction entries with
  | nil => exact ⟨.empty, rfl⟩
  | cons e rest ih =>
    obtain ⟨key, term⟩ := e
    have hvalue : ∃ v, term.value? b = .ok v := by
      cases term with
      | lit v => exact ⟨v, rfl⟩
      | var x =>
        obtain ⟨v, hv⟩ := Option.isSome_iff_exists.1 (h x (by simp [Term.var?]))
        exact ⟨v, by simp [Term.value?, hv]⟩
    obtain ⟨v, hv⟩ := hvalue
    obtain ⟨fields, hfields⟩ := ih fun x hx => h x (by
      rw [List.filterMap_cons]
      split
      · exact hx
      · exact List.mem_cons_of_mem _ hx)
    exact ⟨_, resolveEntries_cons_eq_ok_iff.2 ⟨v, fields, hv, hfields, rfl⟩⟩

/-- A consequence of a sound rule has arguments under what binds the variables of the conditions. -/
lemma Rule.Sound.exists_resolve {rule : Rule} (h : rule.Sound) {b : Binding}
    (hb : ∀ x ∈ rule.conditions.flatMap Pattern.vars, (b.get? x).isSome = true)
    {invocation : Invocation} (hinv : invocation ∈ rule.consequences) :
    ∃ args, invocation.args.resolve b = .ok args :=
  Shape.exists_resolveEntries fun x hx => hb x (h.bound invocation hinv x hx)

/-! ### Tables -/

namespace RuleTable

/-- The table was filled by batches, each checked against the actions declared at its time. -/
def Installed (t : RuleTable) : Prop :=
  ∃ batches : List ((ActionRef → Bool) × List Rule),
    t = batches.foldl (fun t batch => (t.install batch.1 batch.2).1) {}

/-- No two rules have one name, and every rule is sound. -/
structure Tidy (t : RuleTable) : Prop where
  names : (t.rules.map (·.name)).Nodup
  sound : ∀ rule ∈ t.rules, rule.Sound

lemma mem_put {rule r : Rule} {rules : List Rule} (h : r ∈ put rule rules) :
    r = rule ∨ r ∈ rules := by
  induction rules with
  | nil => simpa [put] using h
  | cons head rest ih =>
    rw [put] at h
    split at h
    · exact (List.mem_cons.1 h).imp_right (List.mem_cons_of_mem _)
    · rcases List.mem_cons.1 h with rfl | h
      · exact Or.inr List.mem_cons_self
      · exact (ih h).imp_right (List.mem_cons_of_mem _)

/-- A new name goes to the end, and any other stays where it is. -/
lemma map_name_put (rule : Rule) (rules : List Rule) : (put rule rules).map (·.name) =
    if rule.name ∈ rules.map (·.name) then rules.map (·.name)
    else rules.map (·.name) ++ [rule.name] := by
  induction rules with
  | nil => rfl
  | cons head rest ih =>
    rw [put]
    by_cases hname : head.name = rule.name
    · simp [hname]
    · rw [if_neg hname, List.map_cons, ih, List.map_cons]
      by_cases hmem : rule.name ∈ rest.map (·.name)
      · rw [if_pos hmem, if_pos (List.mem_cons_of_mem _ hmem)]
      · rw [if_neg hmem, if_neg (List.not_mem_cons_of_ne_of_not_mem (Ne.symm hname) hmem),
          List.cons_append]

lemma nodup_put {rule : Rule} {rules : List Rule} (h : (rules.map (·.name)).Nodup) :
    ((put rule rules).map (·.name)).Nodup := by
  rw [map_name_put]
  split
  · exact h
  · rename_i hnew
    rw [← List.concat_eq_append]
    exact h.concat hnew

lemma Tidy.upsert {t : RuleTable} (h : t.Tidy) {rule : Rule} (hrule : rule.Sound) :
    (t.upsert rule).Tidy :=
  ⟨nodup_put h.names, fun r hr => (mem_put hr).elim (fun heq => heq ▸ hrule) (h.sound r)⟩

lemma Tidy.installOne {declared : ActionRef → Bool} {state : RuleTable × Installation}
    (h : state.1.Tidy) (rule : Rule) : (RuleTable.installOne declared state rule).1.Tidy := by
  simp only [RuleTable.installOne]
  split
  · rename_i hfaults
    exact h.upsert (Rule.sound_of_faults_eq_nil hfaults)
  · exact h

lemma Tidy.install {t : RuleTable} (h : t.Tidy) (declared : ActionRef → Bool)
    (batch : List Rule) : (t.install declared batch).1.Tidy := by
  rw [RuleTable.install]
  generalize hstate : (t, ({} : Installation)) = state
  replace h : state.1.Tidy := hstate ▸ h
  clear hstate
  induction batch generalizing state with
  | nil => exact h
  | cons rule rest ih => exact ih _ (h.installOne rule)

lemma put_of_forall_ne {rule : Rule} {rules : List Rule} (h : ∀ r ∈ rules, r.name ≠ rule.name) :
    put rule rules = rules ++ [rule] := by
  induction rules with
  | nil => rfl
  | cons head rest ih =>
    rw [List.forall_mem_cons] at h
    rw [put, if_neg h.1, ih h.2, List.cons_append]

lemma contains_iff {t : RuleTable} {name : String} :
    t.contains name = true ↔ ∃ rule ∈ t.rules, rule.name = name := by
  simp [contains]

lemma contains_upsert {t : RuleTable} {rule : Rule} {name : String} :
    (t.upsert rule).contains name = true ↔ t.contains name = true ∨ rule.name = name := by
  have hnames (t : RuleTable) : t.contains name = true ↔ name ∈ t.rules.map (·.name) := by
    rw [contains_iff, List.mem_map]
  rw [hnames, hnames, upsert, map_name_put]
  split_ifs with hold
  · exact (or_iff_left_of_imp fun heq => heq ▸ hold).symm
  · rw [List.mem_append, List.mem_singleton, eq_comm (a := name)]

/-- A batch of rules with new names, with which nothing is wrong, is installed as it is. -/
lemma rules_install {t : RuleTable} {declared : ActionRef → Bool} {batch : List Rule}
    (hnames : (batch.map (·.name)).Nodup) (hnew : ∀ rule ∈ batch, ¬ t.contains rule.name = true)
    (hfaults : ∀ rule ∈ batch, rule.faults declared = []) :
    (t.install declared batch).1.rules = t.rules ++ batch := by
  rw [RuleTable.install]
  generalize hstate : (t, ({} : Installation)) = state
  obtain rfl : state.1 = t := by rw [← hstate]
  clear hstate
  induction batch generalizing state with
  | nil => exact (List.append_nil _).symm
  | cons rule rest ih =>
    rw [List.forall_mem_cons] at hfaults hnew
    rw [List.map_cons, List.nodup_cons] at hnames
    have hone : (RuleTable.installOne declared state rule).1 = state.1.upsert rule := by
      simp only [RuleTable.installOne, hfaults.1]
    have hrules : (state.1.upsert rule).rules = state.1.rules ++ [rule] :=
      put_of_forall_ne fun r hr hname => hnew.1 (contains_iff.2 ⟨r, hr, hname⟩)
    rw [List.foldl_cons, ih hnames.2 hfaults.2, hone, hrules, List.append_assoc]
    · rfl
    · intro r hr hcontains
      rw [hone, contains_upsert] at hcontains
      rcases hcontains with hold | hname
      · exact hnew.2 r hr hold
      · exact hnames.1 (hname ▸ List.mem_map_of_mem hr)

/-- Installing keeps names apart and lets only sound rules in. -/
theorem Installed.tidy {t : RuleTable} (h : t.Installed) : t.Tidy := by
  obtain ⟨batches, rfl⟩ := h
  suffices hgen : ∀ t : RuleTable, t.Tidy →
      (batches.foldl (fun t batch => (t.install batch.1 batch.2).1) t).Tidy from
    hgen {} ⟨.nil, by simp⟩
  induction batches with
  | nil => exact fun t ht => ht
  | cons batch rest ih => exact fun t ht => ih _ (ht.install batch.1 batch.2)

end RuleTable

end Synchrony
