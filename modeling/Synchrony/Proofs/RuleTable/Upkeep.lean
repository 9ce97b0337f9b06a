import Mathlib.Data.List.Induction
import Synchrony.Engine
import Synchrony.Proofs.Matching.Completion
import Synchrony.Proofs.RuleTable.Installed

/-!
# The upkeep of the table

An engine is changed from outside by installing batches of rules and by registering concepts. The
rules that are valid at their turn are admitted (`Registry.admitted`), and after any changes the table
is what they make it: one rule for each name, in the order in which the names came up first, each as
it was admitted last (`RuleTable.Keeps`). A rule that is not valid shows in the report of its batch
and nowhere else, and a batch that is installed again changes nothing (`Engine.keeps_after`).
-/

namespace Synchrony

/-! ### Valid rules -/

namespace Rule

/-- A sound rule that mentions declared actions only. -/
structure Valid (declared : ActionRef → Bool) (rule : Rule) : Prop extends rule.Sound where
  declared : ∀ action ∈ rule.references, declared action = true

variable {declared : ActionRef → Bool} {rule : Rule}

/-- Faults are found in a rule exactly if it is not valid. -/
lemma faults_eq_nil_iff : rule.faults declared = [] ↔ rule.Valid declared := by
  constructor
  · intro h
    refine ⟨sound_of_faults_eq_nil h, fun action haction => ?_⟩
    simp only [faults, List.append_eq_nil_iff, List.map_eq_nil_iff, List.filter_eq_nil_iff] at h
    simpa using h.1.2 action haction
  · exact fun h => h.toSound.faults_eq_nil h.declared

instance : Decidable (rule.Valid declared) := decidable_of_iff _ faults_eq_nil_iff

/-- One of the rule's conditions is on an action. -/
def Watches (rule : Rule) (action : ActionRef) : Prop := ∃ p ∈ rule.conditions, p.action = action

instance (action : ActionRef) : Decidable (rule.Watches action) :=
  inferInstanceAs (Decidable (∃ p ∈ rule.conditions, p.action = action))

lemma anchors_eq_nil_iff {action : ActionRef} :
    RuleTable.anchors rule action = [] ↔ ¬ rule.Watches action := by
  rw [List.eq_nil_iff_forall_not_mem]
  constructor
  · rintro h ⟨p, hp, haction⟩
    obtain ⟨i, hi⟩ := List.mem_iff_getElem?.1 hp
    exact h i (mem_anchors_iff.2 ⟨p, hi, haction⟩)
  · intro h i hi
    obtain ⟨p, hp, haction⟩ := mem_anchors_iff.1 hi
    exact h ⟨p, List.mem_of_getElem? hp, haction⟩

lemma pairwise_anchors (rule : Rule) (action : ActionRef) :
    (RuleTable.anchors rule action).Pairwise (· < ·) :=
  List.pairwise_lt_range.filter _

end Rule

namespace RuleTable

variable {t : RuleTable} {declared : ActionRef → Bool} {rule : Rule} {given : List Rule}

/-- The rules that watch an action are found in the order of the table, each with its positions. -/
lemma triggeredBy_eq_map (t : RuleTable) (action : ActionRef) : t.triggeredBy action =
    (t.rules.filter (·.Watches action)).map fun rule => (rule, anchors rule action) := by
  rw [triggeredBy_eq]
  induction t.rules with
  | nil => rfl
  | cons rule rest ih =>
    rw [List.filterMap_cons, List.filter_cons]
    by_cases hwatches : rule.Watches action
    · rw [if_pos (decide_eq_true hwatches), List.map_cons, ← ih]
      cases hanchors : anchors rule action with
      | nil => exact absurd hwatches (Rule.anchors_eq_nil_iff.1 hanchors)
      | cons k ks => rfl
    · rw [if_neg (by simpa using hwatches), Rule.anchors_eq_nil_iff.2 hwatches, ih]

/-! ### One rule more -/

lemma removeAll_singleton (name : String) (names : List String) :
    [name].removeAll names = if name ∈ names then [] else [name] := by
  by_cases h : name ∈ names
  · rw [if_pos h, List.removeAll, List.filter_cons_of_neg (by simpa using h), List.filter_nil]
  · rw [if_neg h, List.removeAll, List.filter_cons_of_pos (by simpa using h), List.filter_nil]

/-- Where names are kept apart, a rule drives out the one of its name. -/
lemma eq_or_of_mem_put {rule r : Rule} {rules : List Rule} (hnames : (rules.map (·.name)).Nodup)
    (h : r ∈ put rule rules) : r = rule ∨ r ∈ rules ∧ r.name ≠ rule.name := by
  induction rules with
  | nil => exact Or.inl (by simpa [put] using h)
  | cons head rest ih =>
    rw [List.map_cons, List.nodup_cons] at hnames
    rw [put] at h
    split at h
    · rename_i hname
      rcases List.mem_cons.1 h with rfl | hr
      · exact Or.inl rfl
      · refine Or.inr ⟨List.mem_cons_of_mem _ hr, fun heq => hnames.1 ?_⟩
        exact hname.trans heq.symm ▸ List.mem_map_of_mem hr
    · rename_i hname
      rcases List.mem_cons.1 h with rfl | hr
      · exact Or.inr ⟨List.mem_cons_self, hname⟩
      · exact (ih hnames.2 hr).imp_right (And.imp_left (List.mem_cons_of_mem _))

/--
The table is what the rules `given`, one after the other, make it: names are kept apart, stand in the
order in which they came up first, and each has the rule that was given last under it.
-/
structure Keeps (t : RuleTable) (given : List Rule) : Prop where
  names : (t.rules.map (·.name)).Nodup
  order : t.rules.map (·.name) = (given.map (·.name)).eraseDups
  last : ∀ rule ∈ t.rules, given.reverse.find? (·.name = rule.name) = some rule

namespace Keeps

lemma nil : ({} : RuleTable).Keeps [] := ⟨List.nodup_nil, rfl, by simp⟩

/-- What putting a rule preserves. -/
lemma upsert (h : t.Keeps given) (rule : Rule) : (t.upsert rule).Keeps (given ++ [rule]) where
  names := nodup_put h.names
  order := by
    change (put rule t.rules).map (·.name) = _
    rw [map_name_put, h.order, List.map_append, List.map_singleton, List.eraseDups_append,
      removeAll_singleton]
    by_cases hgiven : rule.name ∈ given.map (·.name)
    · rw [if_pos (List.mem_eraseDups.2 hgiven), if_pos hgiven, List.eraseDups_nil, List.append_nil]
    · rw [if_neg (mt List.mem_eraseDups.1 hgiven), if_neg hgiven]
      rfl
  last := by
    intro r hr
    rw [List.reverse_append, List.reverse_singleton, List.singleton_append, List.find?_cons]
    rcases eq_or_of_mem_put h.names hr with rfl | ⟨hr, hname⟩
    · rw [decide_eq_true rfl]
    · rw [decide_eq_false (Ne.symm hname)]
      exact h.last r hr

lemma foldl_upsert (h : t.Keeps given) (more : List Rule) :
    (more.foldl RuleTable.upsert t).Keeps (given ++ more) := by
  induction more generalizing t given with
  | nil => rwa [List.append_nil]
  | cons rule rest ih =>
    rw [List.foldl_cons, List.append_cons]
    exact ih (h.upsert rule)

/-- The table can be read off the rules that were given. -/
lemma map_some (h : t.Keeps given) : t.rules.map some =
    (given.map (·.name)).eraseDups.map fun name => given.reverse.find? (·.name = name) := by
  rw [← h.order, List.map_map]
  exact List.map_congr_left fun rule hrule => (h.last rule hrule).symm

/-- Rules that were given already change nothing when they are given once more. -/
lemma foldl_upsert_eq {more : List Rule} (h : t.Keeps (given ++ more)) :
    more.foldl RuleTable.upsert t = t := by
  apply RuleTable.ext
  have hnames : ((given ++ more ++ more).map (·.name)).eraseDups =
      ((given ++ more).map (·.name)).eraseDups := by
    have hold : (more.map (·.name)).removeAll ((given ++ more).map (·.name)) = [] := by
      simp +contextual [List.removeAll]
    rw [List.map_append, List.eraseDups_append, hold, List.eraseDups_nil, List.append_nil]
  have hlast (name : String) : (given ++ more ++ more).reverse.find? (·.name = name) =
      (given ++ more).reverse.find? (·.name = name) := by
    rw [List.reverse_append, List.reverse_append, List.find?_append, List.find?_append,
      ← Option.or_assoc, Option.or_self]
  apply List.map_injective_iff.2 (fun _ _ => Option.some.inj)
  rw [(h.foldl_upsert more).map_some, h.map_some, hnames]
  exact List.map_congr_left fun name _ => hlast name

end Keeps

/-! ### Batches -/

lemma installOne_of_valid (h : rule.Valid declared) (state : RuleTable × Installation) :
    installOne declared state rule =
      (state.1.upsert rule,
        { state.2 with
          installed := state.2.installed ++ [rule.name]
          replaced := if state.1.contains rule.name then state.2.replaced ++ [rule.name]
            else state.2.replaced }) := by
  simp only [installOne, Rule.faults_eq_nil_iff.2 h]

lemma installOne_of_not_valid (h : ¬ rule.Valid declared) (state : RuleTable × Installation) :
    installOne declared state rule =
      (state.1, { state.2 with
        rejected := state.2.rejected ++ (rule.faults declared).map fun f => (rule.name, f) }) := by
  simp only [installOne]
  split
  · rename_i hnil
    exact absurd (Rule.faults_eq_nil_iff.1 hnil) h
  · rfl

lemma install_concat (t : RuleTable) (batch : List Rule) (rule : Rule) :
    t.install declared (batch ++ [rule]) = installOne declared (t.install declared batch) rule := by
  rw [install, List.foldl_append]
  rfl

/-- The places of the valid rules of a batch whose name is in the table when their turn comes. -/
def replacing (declared : ActionRef → Bool) (t : RuleTable) (batch : List Rule) :
    List (Rule × Nat) :=
  batch.zipIdx.filter fun (rule, i) =>
    rule.Valid declared ∧ (t.install declared (batch.take i)).1.contains rule.name

lemma replacing_concat (t : RuleTable) (batch : List Rule) (rule : Rule) :
    t.replacing declared (batch ++ [rule]) = t.replacing declared batch ++
      if rule.Valid declared ∧ (t.install declared batch).1.contains rule.name
      then [(rule, batch.length)] else [] := by
  rw [replacing, List.zipIdx_append, List.filter_append, replacing]
  congr 1
  · refine List.filter_congr fun (r, i) hmem => ?_
    have hi : i ≤ batch.length := by
      obtain ⟨hi, -⟩ := List.getElem?_eq_some_iff.1 (List.mem_zipIdx_iff_getElem?.1 hmem)
      exact Nat.le_of_lt hi
    simp only [List.take_append_of_le_length hi]
  · simp [List.filter_cons]

/--
A batch puts its valid rules into the table. The report lists them, those among them that replaced a
rule, and every fault of every rule.
-/
lemma install_eq (t : RuleTable) (batch : List Rule) : t.install declared batch =
    ((batch.filter (·.Valid declared)).foldl upsert t,
      { installed := (batch.filter (·.Valid declared)).map (·.name)
        replaced := (t.replacing declared batch).map (·.1.name)
        rejected :=
          batch.flatMap fun rule => (rule.faults declared).map fun f => (rule.name, f) }) := by
  induction batch using List.reverseRecOn with
  | nil => rfl
  | append_singleton batch rule ih =>
    rw [install_concat, replacing_concat, ih, List.filter_append, List.foldl_append,
      List.flatMap_append, List.flatMap_singleton]
    by_cases h : rule.Valid declared
    · rw [installOne_of_valid h, List.filter_cons_of_pos (by simpa using h),
        Rule.faults_eq_nil_iff.2 h]
      split <;> simp_all
    · rw [installOne_of_not_valid h, List.filter_cons_of_neg (by simpa using h)]
      simp [h]

lemma fst_install (t : RuleTable) (batch : List Rule) : (t.install declared batch).1 =
    (batch.filter (·.Valid declared)).foldl upsert t :=
  congrArg Prod.fst (install_eq t batch)

lemma contains_foldl_upsert (t : RuleTable) (rules : List Rule) (name : String) :
    (rules.foldl upsert t).contains name = true ↔
      t.contains name = true ∨ name ∈ rules.map (·.name) := by
  induction rules generalizing t with
  | nil => simp
  | cons rule rest ih =>
    rw [List.foldl_cons, ih, contains_upsert, List.map_cons, List.mem_cons, or_assoc,
      eq_comm (a := rule.name)]

/-- A batch of valid rules replaces no rule exactly if its names are new and kept apart. -/
lemma replaced_eq_nil_iff {batch : List Rule} (hvalid : ∀ rule ∈ batch, rule.Valid declared) :
    (t.install declared batch).2.replaced = [] ↔
      (batch.map (·.name)).Nodup ∧ ∀ rule ∈ batch, ¬ t.contains rule.name = true := by
  induction batch using List.reverseRecOn with
  | nil => simp [install]
  | append_singleton batch rule ih =>
    rw [List.forall_mem_append, List.forall_mem_singleton] at hvalid
    have hfst : (t.install declared batch).1 = batch.foldl upsert t := by
      rw [fst_install, List.filter_eq_self.2 fun r hr => decide_eq_true (hvalid.1 r hr)]
    have hreplaced : (t.install declared (batch ++ [rule])).2.replaced = [] ↔
        (t.install declared batch).2.replaced = [] ∧
          ¬ (batch.foldl upsert t).contains rule.name = true := by
      rw [install_concat, installOne_of_valid hvalid.2, hfst]
      by_cases hold : (batch.foldl upsert t).contains rule.name = true <;> simp [hold]
    rw [hreplaced, ih hvalid.1, contains_foldl_upsert, not_or, List.map_append, List.map_singleton,
      List.forall_mem_append, List.forall_mem_singleton, ← List.concat_eq_append,
      List.nodup_concat]
    tauto

end RuleTable

/-! ### Engines -/

/-- What changes an engine from outside: a batch of rules, or a concept. -/
inductive Change (ι : Type) where
  | install (batch : List Rule)
  | register (concept : String) (interface : List ActionSpec) (performer : ι)

variable {ι : Type}

namespace Engine

/-- What a change makes of an engine. A registration that is refused makes nothing of it. -/
def change (e : Engine ι) : Change ι → Engine ι
  | .install batch => (e.install batch).2
  | .register concept interface performer =>
    match e.register concept interface performer with
    | .ok e => e
    | .error _ => e

/-- What changes make of an engine, one after the other. -/
def after (e : Engine ι) (changes : List (Change ι)) : Engine ι := changes.foldl change e

end Engine

/-- The rules of the batches that are valid when they are installed. -/
def Registry.admitted (r : Registry ι) : List (Change ι) → List Rule
  | [] => []
  | .install batch :: rest => batch.filter (·.Valid r.contains) ++ r.admitted rest
  | .register concept interface performer :: rest =>
    match r.register concept interface performer with
    | .ok r => r.admitted rest
    | .error _ => r.admitted rest

namespace Engine

/-- After any changes the table is what the admitted rules make it. -/
lemma keeps_admitted {e : Engine ι} {given : List Rule} (h : e.rules.Keeps given)
    (changes : List (Change ι)) :
    (e.after changes).rules.Keeps (given ++ e.registry.admitted changes) := by
  induction changes generalizing e given with
  | nil => rwa [Registry.admitted, List.append_nil]
  | cons c rest ih =>
    rw [after, List.foldl_cons]
    cases c with
    | install batch =>
      rw [Registry.admitted, ← List.append_assoc]
      refine ih (e := (e.install batch).2) ?_
      change (e.rules.install e.registry.contains batch).1.Keeps _
      rw [RuleTable.fst_install]
      exact h.foldl_upsert _
    | register concept interface performer =>
      rw [Registry.admitted, change, register]
      cases e.registry.register concept interface performer with
      | ok r => exact ih (e := { e with registry := r }) h
      | error fault => exact ih h

/-- A rule that is not valid makes no difference to what its batch makes of the engine. -/
lemma install_drop {e : Engine ι} {rule : Rule} (h : ¬ rule.Valid e.registry.contains)
    (before rest : List Rule) :
    (e.install (before ++ rule :: rest)).2 = (e.install (before ++ rest)).2 := by
  have hvalid : (before ++ rule :: rest).filter (·.Valid e.registry.contains) =
      (before ++ rest).filter (·.Valid e.registry.contains) := by
    rw [List.filter_append, List.filter_append, List.filter_cons_of_neg (by simpa using h)]
  simp only [install, RuleTable.fst_install, hvalid]

/-- A batch that is installed again changes nothing. -/
lemma install_again {e : Engine ι} {given : List Rule} (h : e.rules.Keeps given)
    (batch : List Rule) : ((e.install batch).2.install batch).2 = (e.install batch).2 := by
  simp only [install, RuleTable.fst_install, (h.foldl_upsert _).foldl_upsert_eq]

/--
Whatever was installed and registered, the table keeps the admitted rules, finds those that watch an
action with all their positions, and reports on a batch what becomes of each of its rules; rules that
are not valid leave it as it is, and so does a batch that was installed just before.
-/
theorem keeps_after (limits : Limits) (registry : Registry ι) (log : Log)
    (changes : List (Change ι)) :
    let e := Engine.after { limits, registry, log } changes
    let declared := e.registry.contains
    e.rules.Keeps (registry.admitted changes) ∧
    (∀ action, (e.rules.triggeredBy action).map (·.1) = e.rules.rules.filter (·.Watches action) ∧
      ∀ rule positions, (rule, positions) ∈ e.rules.triggeredBy action →
        positions.Pairwise (· < ·) ∧
        ∀ i, i ∈ positions ↔ ∃ p, rule.conditions[i]? = some p ∧ p.action = action) ∧
    ∀ batch : List Rule,
      let done := (e.install batch).1
      done.installed = (batch.filter (·.Valid declared)).map (·.name) ∧
      done.replaced = (batch.zipIdx.filter fun (rule, i) => rule.Valid declared ∧
        (e.install (batch.take i)).2.rules.contains rule.name).map (·.1.name) ∧
      done.rejected =
        batch.flatMap (fun rule => (rule.faults declared).map fun f => (rule.name, f)) ∧
      (∀ rule ∈ batch, rule.faults declared = [] ↔ rule.Valid declared) ∧
      (∀ before rule rest, batch = before ++ rule :: rest → ¬ rule.Valid declared →
        (e.install batch).2 = (e.install (before ++ rest)).2) ∧
      ((e.install batch).2.install batch).2 = (e.install batch).2 := by
  intro e declared
  have hkeeps : e.rules.Keeps (registry.admitted changes) :=
    keeps_admitted (e := { limits, registry, log }) .nil changes
  refine ⟨hkeeps, fun action => ⟨?_, fun rule positions hmem => ?_⟩, fun batch => ⟨?_, ?_, ?_, ?_,
    ?_, ?_⟩⟩
  · rw [RuleTable.triggeredBy_eq_map, List.map_map]
    exact List.map_id _
  · rw [RuleTable.triggeredBy_eq_map] at hmem
    obtain ⟨r, -, heq⟩ := List.mem_map.1 hmem
    obtain ⟨rfl, rfl⟩ := Prod.mk.inj heq
    exact ⟨Rule.pairwise_anchors r action, fun i => Rule.mem_anchors_iff⟩
  · exact congrArg (·.2.installed) (RuleTable.install_eq e.rules batch)
  · exact congrArg (·.2.replaced) (RuleTable.install_eq e.rules batch)
  · exact congrArg (·.2.rejected) (RuleTable.install_eq e.rules batch)
  · exact fun rule _ => Rule.faults_eq_nil_iff
  · rintro before rule rest rfl hvalid
    exact install_drop hvalid before rest
  · exact install_again hkeeps batch

end Engine

end Synchrony
