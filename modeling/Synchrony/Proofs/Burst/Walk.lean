import Mathlib.Data.List.Perm.Basic
import Synchrony.Proofs.Burst.Firings

/-!
# The records of a burst are a preorder walk

A firing causes one record for each consequence of its rule whose action is declared. `Walk` reads
this as a tree: each cause has one record, which is followed by the walk of what the record itself
causes. A burst dispatches from a queue, and what it has queued is the part of the tree that is not
walked yet: whatever walks the queue's causes completes the walk of the root
(`RuleTable.Completing`). When nothing is left in the queue, the records are the whole walk
(`Traffic.records_walk`).
-/

namespace Synchrony

variable {ι : Type}

/-! ### Causes and walks -/

/-- Why a record was made: a firing on its parent, and a consequence of the rule that fired. -/
structure Cause where
  parent : Record
  firing : Firing
  invocation : Invocation

/-- The record is what the cause asks for. -/
structure Cause.Explains (cause : Cause) (child : Record) : Prop where
  action : child.action = cause.invocation.action
  input : cause.invocation.args.resolve cause.firing.binding = .ok child.input
  depth : child.depth = cause.parent.depth + 1
  syncedBy : child.syncedBy = some cause.firing.rule

/--
What a record causes: for each rule in table order that fired on it, each consequence in the order
of the rule whose action is declared.
-/
def Report.causesUnder (report : Report) (rules : List Rule) (declared : ActionRef → Bool)
    (parent : Record) : List Cause :=
  rules.flatMap fun rule =>
    (report.firingsOf rule.name parent.seq).flatMap fun firing =>
      (rule.consequences.filter (declared ·.action)).map (Cause.mk parent firing)

/-- Each firing with each consequence of its rule whose action is declared, firing by firing. -/
def Report.dispatches (report : Report) (rules : List Rule) (declared : ActionRef → Bool) :
    List (Firing × Invocation) :=
  report.firings.flatMap fun firing =>
    rules.flatMap fun rule =>
      if firing.rule = rule.name then
        (rule.consequences.filter (declared ·.action)).map (Prod.mk firing)
      else []

/-- A preorder walk: each cause has one record, followed by the walk of what the record causes. -/
inductive Walk (under : Record → List Cause) : List Cause → List Record → Prop where
  | nil : Walk under [] []
  | cons {cause : Cause} {child : Record} {causes : List Cause} {below after : List Record}
      (h : cause.Explains child) (hbelow : Walk under (under child) below)
      (hafter : Walk under causes after) : Walk under (cause :: causes) (child :: (below ++ after))

namespace Walk

variable {under under' : Record → List Cause} {causes more : List Cause} {records : List Record}

lemma append {after : List Record} (h : Walk under causes records) (h' : Walk under more after) :
    Walk under (causes ++ more) (records ++ after) := by
  induction h with
  | nil => exact h'
  | cons hexplains hbelow _ _ ih =>
    rw [List.cons_append, List.cons_append, List.append_assoc]
    exact .cons hexplains hbelow ih

/-- The walk of some causes and then others falls into the walks of either. -/
lemma exists_of_append (h : Walk under (causes ++ more) records) :
    ∃ here after, records = here ++ after ∧ Walk under causes here ∧ Walk under more after := by
  induction causes generalizing records with
  | nil => exact ⟨[], records, rfl, .nil, h⟩
  | cons cause causes ih =>
    cases h with
    | @cons _ child _ below _ hexplains hbelow hrest =>
      obtain ⟨here, after, rfl, hhere, hafter⟩ := ih hrest
      exact ⟨child :: (below ++ here), after, by simp, .cons hexplains hbelow hhere, hafter⟩

/-- A walk depends only on what its own records cause. -/
lemma congr (h : Walk under causes records) (heq : ∀ r ∈ records, under r = under' r) :
    Walk under' causes records := by
  induction h with
  | nil => exact .nil
  | @cons cause child causes below after hexplains _ _ ihbelow ihafter =>
    rw [List.forall_mem_cons, List.forall_mem_append] at heq
    obtain ⟨hchild, hbelow, hafter⟩ := heq
    exact .cons hexplains (hchild ▸ ihbelow hbelow) (ihafter hafter)

/--
In a walk the records correspond, one by one and in order, to a rearrangement of all causes: those
the walk began with, and those under its records.
-/
lemma exists_perm (h : Walk under causes records) : ∃ sources,
    List.Forall₂ Cause.Explains sources records ∧
      sources.Perm (causes ++ records.flatMap under) := by
  induction h with
  | nil => exact ⟨[], .nil, .nil⟩
  | @cons cause child causes below after hexplains _ _ ihbelow ihafter =>
    obtain ⟨left, hleft, hleftPerm⟩ := ihbelow
    obtain ⟨right, hright, hrightPerm⟩ := ihafter
    refine ⟨cause :: (left ++ right), .cons hexplains (List.rel_append hleft hright), ?_⟩
    rw [List.cons_append, List.flatMap_cons, List.flatMap_append]
    refine List.Perm.cons cause ((hleftPerm.append hrightPerm).trans ?_)
    rw [← List.append_assoc (under child)]
    exact List.perm_append_comm_assoc _ _ _

end Walk

/-! ### What is queued is what is left to walk -/

namespace RuleTable

variable {t : RuleTable} {declared : ActionRef → Bool} {root record : Record} {rs : List Record}
  {cause : Cause} {causes : List Cause}

/-- What a record causes by completing rules, whether or not the actions are declared. -/
def causesUnder (t : RuleTable) (records : List Record) (parent : Record) : List Cause :=
  (t.completedBy records parent).flatMap fun x =>
    x.1.consequences.map (Cause.mk parent (Firing.of parent x))

/-- What a record causes by completing rules. -/
def declaredUnder (t : RuleTable) (declared : ActionRef → Bool) (records : List Record)
    (parent : Record) : List Cause :=
  (t.causesUnder records parent).filter (declared ·.invocation.action)

/-- Whatever walks these causes after `rs` completes the walk of the root. -/
def Completing (t : RuleTable) (declared : ActionRef → Bool) (root : Record) (rs : List Record)
    (causes : List Cause) : Prop :=
  ∀ later, (rs ++ later).Pairwise (·.seq < ·.seq) →
    Walk (t.declaredUnder declared (rs ++ later)) causes later →
      ∃ below, rs ++ later = root :: below ∧ Walk (t.declaredUnder declared (rs ++ later))
        (t.declaredUnder declared (rs ++ later) root) below

/-- Later records do not change what a record causes. -/
lemma declaredUnder_append (t : RuleTable) (declared : ActionRef → Bool) (before : List Record)
    {later : List Record} (h : (before ++ [record] ++ later).Pairwise (·.seq < ·.seq)) :
    t.declaredUnder declared (before ++ [record] ++ later) record =
      t.declaredUnder declared (before ++ [record]) record := by
  have hlater : ∀ r ∈ later, record.seq ≤ r.seq := fun r hr =>
    ((List.pairwise_append.1 h).2.2 record (by simp) r hr).le
  rw [declaredUnder, causesUnder, completedBy_append t hlater]
  rfl

lemma completing_root : t.Completing declared root [root] (t.declaredUnder declared [root] root) := by
  intro later hsorted hwalk
  refine ⟨later, rfl, ?_⟩
  have hroot := declaredUnder_append t declared [] hsorted
  rw [List.nil_append] at hroot
  rwa [hroot]

/-- A record takes its cause from what is left to walk, and puts in front what it causes itself. -/
lemma Completing.dispatch (h : t.Completing declared root rs (cause :: causes))
    (hexplains : cause.Explains record) :
    t.Completing declared root (rs ++ [record])
      (t.declaredUnder declared (rs ++ [record]) record ++ causes) := by
  intro later hsorted hwalk
  obtain ⟨here, after, rfl, hhere, hafter⟩ := hwalk.exists_of_append
  rw [← declaredUnder_append t declared rs hsorted] at hhere
  rw [← List.append_cons] at hsorted hhere hafter ⊢
  exact h (record :: (here ++ after)) hsorted (.cons hexplains hhere hafter)

/-- When nothing is left to walk, the records are the walk of the root. -/
lemma Completing.exists_walk (h : t.Completing declared root rs [])
    (hsorted : rs.Pairwise (·.seq < ·.seq)) :
    ∃ below, rs = root :: below ∧
      Walk (t.declaredUnder declared rs) (t.declaredUnder declared rs root) below := by
  have hdone := h [] (by rwa [List.append_nil])
  rw [List.append_nil] at hdone
  exact hdone .nil

end RuleTable

/-- The queued consequence stands for the cause, and its arguments have values. -/
structure Pending.Stems (p : Pending) (cause : Cause) : Prop where
  rule : p.rule = cause.firing.rule
  invocation : p.invocation = cause.invocation
  binding : p.binding = cause.firing.binding
  depth : p.depth = cause.parent.depth + 1
  resolves : ∃ args, p.invocation.args.resolve p.binding = .ok args

/-- The call of a consequence is what its cause asks for. -/
lemma Pending.Stems.explains {p : Pending} {cause : Cause} (h : p.Stems cause) {args : Fields}
    (hargs : p.invocation.args.resolve p.binding = .ok args) {record : Record} {id : String}
    {seq : Nat} {output : Fields} {time : Timestamp}
    (hrecord : record = ⟨seq, id, p.depth, p.invocation.action, args, output, some p.rule, time⟩) :
    cause.Explains record := by
  rw [h.invocation, h.binding] at hargs
  rw [hrecord]
  exact ⟨congrArg Invocation.action h.invocation, hargs, h.depth, congrArg some h.rule⟩

/-- The consequences of a rule that is completed have arguments. -/
lemma RuleTable.exists_resolve_of_mem_completedBy {t : RuleTable} (ht : t.Tidy)
    {records : List Record} {record : Record} (hrecord : record ∈ records) {x : Rule × Match}
    (hx : x ∈ t.completedBy records record) {invocation : Invocation}
    (hinvocation : invocation ∈ x.1.consequences) :
    ∃ args, invocation.args.resolve x.2.binding = .ok args := by
  obtain ⟨hrule, hm⟩ := mem_completedBy_iff.1 hx
  apply (ht.sound x.1 hrule).exists_resolve _ hinvocation
  intro y hy
  exact Rule.isSome_get?_of_completion hrecord hm hy

/-- What is queued corresponds to what the record causes, if it does so for every consequence. -/
lemma forall₂_queued {R : Pending → Cause → Prop} {record : Record} {depth : UInt32}
    {chain : List (List Char)} {found : List (Rule × Match)}
    (h : ∀ x ∈ found, ∀ invocation ∈ x.1.consequences,
      R ⟨x.1.name, invocation, x.2.binding, depth, Firing.keyOf x.1.name x.2.binding :: chain⟩
        ⟨record, Firing.of record x, invocation⟩) :
    List.Forall₂ R (found.flatMap fun x => consequencesOf x.1 x.2.binding depth chain)
      (found.flatMap fun x => x.1.consequences.map (Cause.mk record (Firing.of record x))) := by
  induction found with
  | nil => exact .nil
  | cons x rest ih =>
    rw [List.forall_mem_cons] at h
    refine List.rel_append ?_ (ih h.2)
    simp only [consequencesOf, List.forall₂_map_left_iff, List.forall₂_map_right_iff,
      List.forall₂_same]
    exact h.1

/-- An evaluation queues what the record causes. -/
lemma stems_queued {t : RuleTable} (ht : t.Tidy) {records : List Record} {record : Record}
    (hrecord : record ∈ records) (chain : List (List Char)) :
    List.Forall₂ Pending.Stems
      ((t.completedBy records record).flatMap fun x =>
        consequencesOf x.1 x.2.binding (record.depth + 1) chain)
      (t.causesUnder records record) := by
  apply forall₂_queued
  intro x hx invocation hinvocation
  exact ⟨rfl, rfl, rfl, rfl,
    RuleTable.exists_resolve_of_mem_completedBy ht hrecord hx hinvocation⟩

section Skipping

variable {registry : Registry ι} {queue skipped : List Pending}

/-- What is skipped from a queue falls out of what the queue stands for. -/
lemma exists_of_forall₂_append {β : Type} {R : Pending → β → Prop} {declared : β → Bool}
    {owed : List β} (h : List.Forall₂ R (skipped ++ queue) owed)
    (hskipped : ∀ p ∈ skipped, ∀ b, R p b → declared b = false) :
    ∃ left, List.Forall₂ R queue left ∧ owed.filter declared = left.filter declared := by
  induction skipped generalizing owed with
  | nil => exact ⟨owed, h, rfl⟩
  | cons p skipped ih =>
    cases h with
    | @cons _ b _ owed hb hrest =>
      obtain ⟨hp, hskipped⟩ := List.forall_mem_cons.1 hskipped
      obtain ⟨left, hleft, hfilter⟩ := ih hrest hskipped
      exact ⟨left, hleft, by rw [List.filter_cons_of_neg (by simp [hp b hb]), hfilter]⟩

/-- A consequence that cannot be dispatched has an action that is not declared. -/
lemma Pending.Stems.not_declared {p : Pending} {cause : Cause} (h : p.Stems cause)
    (hp : ¬ p.Dispatchable registry.lookup?) :
    registry.contains cause.invocation.action = false := by
  rw [Bool.eq_false_iff, Registry.contains]
  intro hdeclared
  exact hp ⟨h.resolves, h.invocation ▸ hdeclared⟩

/-- What is skipped has an action that is not declared. -/
lemma exists_of_stems_append {owed : List Cause}
    (h : List.Forall₂ Pending.Stems (skipped ++ queue) owed)
    (hskipped : ∀ p ∈ skipped, ¬ p.Dispatchable registry.lookup?) :
    ∃ left, List.Forall₂ Pending.Stems queue left ∧
      owed.filter (registry.contains ·.invocation.action) =
        left.filter (registry.contains ·.invocation.action) :=
  exists_of_forall₂_append h fun p hp _ hstems => hstems.not_declared (hskipped p hp)

end Skipping

/-! ### The walk along a course -/

/-- The queue is what is left to walk after the records `rs`, behind the causes `first`. -/
def Burst.LeavesToWalk (b : Burst) (e : Engine ι) (rs : List Record) (first : List Cause) : Prop :=
  ∃ owed, List.Forall₂ Pending.Stems b.queue owed ∧
    e.rules.Completing e.registry.contains b.root rs
      (first ++ owed.filter (e.registry.contains ·.invocation.action))

/-- What is left to walk at a phase of a burst that has not failed. -/
def Phase.LeavesToWalk (e : Engine ι) (rs : List Record) : Phase ι → Prop
  | .invoked .. => True
  | .recorded b record _ =>
    b.LeavesToWalk e rs (e.rules.declaredUnder e.registry.contains rs record)
  | .observed b failure => failure = none → b.LeavesToWalk e rs []
  | .standing (.call b pending args _) =>
    ∃ cause, pending.Stems cause ∧ pending.invocation.args.resolve pending.binding = .ok args ∧
      b.LeavesToWalk e rs [cause]
  | .standing (.over report) =>
    report.failure = none → e.rules.Completing e.registry.contains report.root rs []

section Course

variable {e : Engine ι} {id : String} {rs : List Record}

lemma leavesToWalk_observed (ht : e.rules.Tidy) {b : Burst} {record : Record}
    {chain : List (List Char)} {seen : Evaluation} (hrecord : record ∈ rs)
    (h : b.LeavesToWalk e rs (e.rules.declaredUnder e.registry.contains rs record))
    (hseen : seen = evaluate e.limits id record chain (e.rules.completedBy rs record))
    (hfailure : seen.failure = none) : (b.after seen).LeavesToWalk e rs [] := by
  obtain ⟨owed, hstems, hcompleting⟩ := h
  subst hseen
  refine ⟨e.rules.causesUnder rs record ++ owed, ?_, ?_⟩
  · rw [Burst.after, (evaluate_of_failure_eq_none hfailure).2]
    exact List.rel_append (stems_queued ht hrecord chain) hstems
  · rw [List.nil_append, List.filter_append]
    exact hcompleting

lemma leavesToWalk_dispatched {b : Burst} {pending : Pending} {args : Fields} {handle : Handle ι}
    {rest : List Pending} (h : b.LeavesToWalk e rs [])
    (hturn : nextTurn e.limits e.registry.lookup? id b.appended b.queue =
      .dispatch pending args handle rest) :
    (Phase.standing (.call { b with queue := rest } pending args handle)).LeavesToWalk e rs := by
  obtain ⟨owed, hstems, hcompleting⟩ := h
  obtain ⟨skipped, hqueue, hskipped, hargs, hhandle⟩ := exists_skipped_of_nextTurn hturn
  rw [hqueue] at hstems
  obtain ⟨left, hleft, hfilter⟩ := exists_of_stems_append hstems hskipped
  cases hleft with
  | @cons _ cause _ left hcause hleft =>
    refine ⟨cause, hcause, hargs, left, hleft, ?_⟩
    have hdeclared : e.registry.contains cause.invocation.action = true := by
      rw [← hcause.invocation, Registry.contains, hhandle]
      rfl
    have hfirst : (cause :: left).filter (e.registry.contains ·.invocation.action) =
        cause :: left.filter (e.registry.contains ·.invocation.action) :=
      List.filter_cons_of_pos hdeclared
    rwa [hfilter, hfirst] at hcompleting

lemma leavesToWalk_finished {b : Burst} (h : b.LeavesToWalk e rs [])
    (hturn : nextTurn e.limits e.registry.lookup? id b.appended b.queue = .over none) :
    e.rules.Completing e.registry.contains b.root rs [] := by
  obtain ⟨owed, hstems, hcompleting⟩ := h
  have hskipped := not_dispatchable_of_nextTurn hturn
  rw [← List.append_nil b.queue] at hstems
  obtain ⟨left, hleft, hfilter⟩ := exists_of_stems_append hstems hskipped
  cases hleft
  rwa [hfilter] at hcompleting

lemma leavesToWalk_answered {b : Burst} {pending : Pending} {args : Fields} {cause : Cause}
    {record : Record} (hcause : pending.Stems cause)
    (hargs : pending.invocation.args.resolve pending.binding = .ok args)
    (h : b.LeavesToWalk e rs [cause]) {seq : Nat} {output : Fields} {time : Timestamp}
    (hrecord : record = ⟨seq, id, pending.depth, pending.invocation.action, args, output,
      some pending.rule, time⟩) :
    { b with appended := b.appended + 1 }.LeavesToWalk e (rs ++ [record])
      (e.rules.declaredUnder e.registry.contains (rs ++ [record]) record) := by
  obtain ⟨owed, hstems, hcompleting⟩ := h
  exact ⟨owed, hstems, hcompleting.dispatch (hcause.explains hargs hrecord)⟩

/-- Along a course the queue of the burst is what is left to walk. -/
lemma Course.leavesToWalk (ht : e.rules.Tidy) {phase : Phase ι} (h : Course e id rs phase) :
    phase.LeavesToWalk e rs := by
  induction h with
  | invoked => trivial
  | opened =>
    refine ⟨[], .nil, ?_⟩
    rw [List.filter_nil, List.append_nil]
    exact RuleTable.completing_root
  | observed h hseen ih =>
    obtain ⟨-, before, hrs, -⟩ := h.tracks
    exact leavesToWalk_observed ht (by simp [hrs]) ih hseen
  | failed => exact fun hfailure => by simp at hfailure
  | finished _ hturn ih =>
    intro hfailure
    cases hfailure
    exact leavesToWalk_finished (ih rfl) hturn
  | dispatched _ hturn ih => exact leavesToWalk_dispatched (ih rfl) hturn
  | answered _ seq output time _ hrecord ih =>
    obtain ⟨cause, hcause, hargs, hleaves⟩ := ih
    exact leavesToWalk_answered hcause hargs hleaves hrecord

end Course

/-! ### The walk of a report -/

lemma RuleTable.declaredUnder_eq (t : RuleTable) (declared : ActionRef → Bool)
    (records : List Record) (parent : Record) :
    t.declaredUnder declared records parent = (t.completedBy records parent).flatMap fun x =>
      (x.1.consequences.filter (declared ·.action)).map (Cause.mk parent (Firing.of parent x)) := by
  simp only [declaredUnder, causesUnder, List.filter_flatMap, List.filter_map, Function.comp_def]

namespace Report

variable {e : Engine ι} {id : String} {report : Report} {declared : ActionRef → Bool}

/-- If the firings on a record are its completions, the causes are what it causes by completing. -/
lemma causesUnder_of_firingsOf {records : List Record} {parent : Record}
    (h : ∀ rule ∈ e.rules.rules, report.firingsOf rule.name parent.seq =
      ((rule.completion records parent).map fun m => Firing.of parent (rule, m)).toList) :
    report.causesUnder e.rules.rules declared parent =
      e.rules.declaredUnder declared records parent := by
  rw [RuleTable.declaredUnder_eq, RuleTable.completedBy_eq, List.filterMap_eq_flatMap_toList,
    List.flatMap_assoc]
  refine List.flatMap_congr fun rule hrule => ?_
  rw [h rule hrule]
  cases rule.completion records parent <;> simp

/-- What the firings on a record cause is what the record causes by completing rules. -/
lemma causesUnder_eq (h : Course e id report.records (.standing (.over report)))
    (ht : e.rules.Tidy) (hfailure : report.failure = none) {parent : Record}
    (hparent : parent ∈ report.records) :
    report.causesUnder e.rules.rules declared parent =
      e.rules.declaredUnder declared report.records parent :=
  causesUnder_of_firingsOf fun _ hrule => firingsOf_eq h ht hfailure hrule hparent

/-- The dispatches, firing by firing, are what the records cause, record by record. -/
lemma dispatches_eq (h : Course e id report.records (.standing (.over report)))
    (ht : e.rules.Tidy) (hfailure : report.failure = none) :
    report.dispatches e.rules.rules declared =
      (report.records.flatMap (e.rules.declaredUnder declared report.records)).map fun c =>
        (c.firing, c.invocation) := by
  rw [dispatches, h.tracks.2.2.2 hfailure, RuleTable.firingsAmong, List.flatMap_assoc,
    List.map_flatMap]
  refine List.flatMap_congr fun parent hparent => ?_
  rw [RuleTable.declaredUnder_eq, List.map_flatMap, List.flatMap_map]
  refine List.flatMap_congr fun x hx => ?_
  obtain ⟨hrule, -⟩ := RuleTable.mem_completedBy_iff.1 hx
  rw [flatMap_eq_of_forall_ne ht.names.of_map hrule fun rule hrule' hne => ?_]
  · simp [Firing.of]
  · rw [if_neg]
    exact fun heq => hne (List.inj_on_of_nodup_map ht.names hrule' hrule heq.symm)

end Report

/-- The first record of a burst is caused by no rule. -/
lemma Course.root_eq {e : Engine ι} {id : String} {rs : List Record} {phase : Phase ι}
    (h : Course e id rs phase) {root : Record} (hroot : rs.head? = some root) :
    root.depth = 0 ∧ root.syncedBy = none := by
  induction h with
  | invoked => simp at hroot
  | opened _ seq output time heq =>
    cases hroot
    rw [heq]
    exact ⟨rfl, rfl⟩
  | observed _ _ ih => exact ih hroot
  | failed _ ih => exact ih hroot
  | finished _ _ ih => exact ih hroot
  | dispatched _ _ ih => exact ih hroot
  | answered h _ _ _ _ _ ih =>
    refine ih ?_
    rw [List.head?_append, h.tracks.1.root] at hroot
    rw [h.tracks.1.root]
    exact hroot

namespace Traffic

variable {e : Engine ι} {s : Traffic ι} {events : List Event} {id : String} {report : Report}

/--
The records of a burst that ended without failure are the preorder walk of what its firings cause,
from the root. In order they correspond to the dispatches of all firings, each made once.
-/
theorem records_walk (hrules : e.rules.Installed) (hrun : (idle e).run events = some s)
    (hreport : s.report? id = some report) (hquiet : report.failure = none) :
    let under := report.causesUnder e.rules.rules e.registry.contains
    (report.root.depth = 0 ∧ report.root.syncedBy = none) ∧
      ∃ below, s.recordsOf id = report.root :: below ∧ report.records = report.root :: below ∧
        Walk under (under report.root) below ∧
        ∃ sources, List.Forall₂ Cause.Explains sources below ∧
          (∀ c ∈ sources, c.parent ∈ report.records ∧ c.firing.trigger = c.parent.seq) ∧
          (sources.map fun c => (c.firing, c.invocation)).Perm
            (report.dispatches e.rules.rules e.registry.contains) := by
  intro under
  have hcourse := course_of_report? hrun hreport
  have ht := hrules.tidy
  have hunder : ∀ r ∈ report.records,
      e.rules.declaredUnder e.registry.contains report.records r = under r :=
    fun r hr => (Report.causesUnder_eq hcourse ht hquiet hr).symm
  obtain ⟨below, hrecords, hwalk⟩ :=
    RuleTable.Completing.exists_walk (hcourse.leavesToWalk ht hquiet) hcourse.sorted
  have hroot : report.root ∈ report.records := by simp [hrecords]
  have hbelow : ∀ r ∈ below, r ∈ report.records := fun r hr => by simp [hrecords, hr]
  obtain ⟨sources, hexplains, hperm⟩ := hwalk.exists_perm
  have hall (g : Record → List Cause) :
      report.records.flatMap g = g report.root ++ below.flatMap g := by
    rw [hrecords, List.flatMap_cons]
  rw [← hall] at hperm
  refine ⟨hcourse.root_eq hcourse.tracks.2.1, below, ?_, hrecords, ?_, sources, hexplains, ?_, ?_⟩
  · rw [← records_of_report? hrun hreport, hrecords]
  · rw [← hunder report.root hroot]
    exact hwalk.congr fun r hr => hunder r (hbelow r hr)
  · intro c hc
    obtain ⟨parent, hparent, hcause⟩ := List.mem_flatMap.1 (hperm.mem_iff.1 hc)
    rw [RuleTable.declaredUnder_eq] at hcause
    simp only [List.mem_flatMap, List.mem_map] at hcause
    obtain ⟨x, -, invocation, -, rfl⟩ := hcause
    exact ⟨hparent, rfl⟩
  · rw [Report.dispatches_eq hcourse ht hquiet]
    exact hperm.map _

theorem records_walk_bells : Bells.report.failure = none ∧
    ∃ below, Bells.report.records = Bells.report.root :: below ∧ below.length = 1 ∧
      ∃ sources, List.Forall₂ Cause.Explains sources below ∧
        (sources.map fun c => (c.firing, c.invocation)).Perm
          (Bells.report.dispatches Bells.engine.rules.rules Bells.engine.registry.contains) := by
  obtain ⟨-, below, -, hrecords, -, sources, hexplains, -, hperm⟩ :=
    records_walk Bells.installed_engine Bells.run_events Bells.report?_traffic rfl
  refine ⟨rfl, below, hrecords, ?_, sources, hexplains, hperm⟩
  have hlength := congrArg List.length hrecords
  simpa [Bells.report] using hlength.symm

end Traffic

end Synchrony
