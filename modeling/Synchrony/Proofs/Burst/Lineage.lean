import Synchrony.Proofs.Burst.Evaluation
import Synchrony.Proofs.Burst.Walk

/-!
# Lineages

A record goes back to the root of its burst by a chain of firings: the firing that dispatched it,
then the firing that dispatched the record which that one fired on, and so on. Records do not name
the firing that dispatched them, but it follows from the order of dispatch: each record takes the
first of the causes that wait, and what it causes itself waits in front of the others
(`Lineage.of`). Along a course the keys that a burst carries from record to record are those of the
chains (`Course.descends`), in bursts that fail as well as in those that do not.
-/

namespace Synchrony

variable {ι : Type}

/-! ### Chains of records -/

/-- A cause that waits for its record, with the chain of its parent. -/
structure Branch where
  cause : Cause
  above : List Firing

/-- The chain of the record that takes the branch, the latest firing first. -/
def Branch.chain (b : Branch) : List Firing := b.cause.firing :: b.above

/-- Records with their chains, and the causes that wait for a record, the next one first. -/
structure Lineage where
  chains : List (Record × List Firing) := []
  waiting : List Branch := []

namespace Lineage

variable {under under' : Record → List Cause} {rs : List Record} {r : Record} {l : Lineage}
  {branch : Branch} {rest : List Branch}

/-- What a record causes, as branches of its chain. -/
def branches (under : Record → List Cause) (r : Record) (chain : List Firing) : List Branch :=
  (under r).map fun cause => ⟨cause, chain⟩

/-- The next record takes the first branch that waits, and what it causes waits in front. -/
def extend (under : Record → List Cause) (l : Lineage) (r : Record) : Lineage :=
  match l.waiting with
  | [] => l
  | branch :: rest =>
    { chains := l.chains ++ [(r, branch.chain)]
      waiting := branches under r branch.chain ++ rest }

/-- The lineage of records, the first of which is the root. -/
def of (under : Record → List Cause) : List Record → Lineage
  | [] => {}
  | root :: rest =>
    rest.foldl (extend under) { chains := [(root, [])], waiting := branches under root [] }

lemma extend_of_waiting (h : l.waiting = branch :: rest) : extend under l r =
    { chains := l.chains ++ [(r, branch.chain)]
      waiting := branches under r branch.chain ++ rest } := by
  rw [extend, h]

lemma of_concat (h : rs ≠ []) (r : Record) :
    of under (rs ++ [r]) = extend under (of under rs) r := by
  cases rs with
  | nil => exact absurd rfl h
  | cons root rest => rw [List.cons_append, of, List.foldl_concat, of]

lemma extend_congr (h : under r = under' r) (l : Lineage) :
    extend under l r = extend under' l r := by
  simp only [extend, branches, h]

/-- The lineage depends only on what its records cause. -/
lemma of_congr (h : ∀ r ∈ rs, under r = under' r) : of under rs = of under' rs := by
  induction rs using List.reverseRecOn with
  | nil => rfl
  | append_singleton rs r ih =>
    rw [List.forall_mem_append, List.forall_mem_singleton] at h
    cases rs with
    | nil => simp only [List.nil_append, of, branches, h.2, List.foldl_nil]
    | cons root rest =>
      rw [of_concat (List.cons_ne_nil _ _), of_concat (List.cons_ne_nil _ _), ih h.1,
        extend_congr h.2]

/-- The chains do not depend on what the last record causes. -/
lemma chains_of_congr (h : ∀ r ∈ rs, under r = under' r) (r : Record) :
    (of under (rs ++ [r])).chains = (of under' (rs ++ [r])).chains := by
  cases rs with
  | nil => rfl
  | cons root rest =>
    rw [of_concat (List.cons_ne_nil _ _), of_concat (List.cons_ne_nil _ _), of_congr h, extend,
      extend]
    cases (of under' (root :: rest)).waiting <;> rfl

/--
The chains of records that come one after the other: that of the first record is empty, that of each
other one begins with a firing on an earlier record, which asks for it, and goes on with the chain
of the earlier record.
-/
inductive Chained (under : Record → List Cause) : List (Record × List Firing) → Prop where
  | root (root : Record) : Chained under [(root, [])]
  | child {chains : List (Record × List Firing)} {parent : Record × List Firing} {cause : Cause}
      {r : Record} (h : Chained under chains) (hparent : parent ∈ chains)
      (hcause : cause ∈ under parent.1) (hexplains : cause.Explains r) :
      Chained under (chains ++ [(r, cause.firing :: parent.2)])

lemma Chained.congr {chains : List (Record × List Firing)} (h : Chained under chains)
    (heq : ∀ x ∈ chains, under x.1 = under' x.1) : Chained under' chains := by
  induction h with
  | root root => exact .root root
  | child _ hparent hcause hexplains ih =>
    rw [List.forall_mem_append] at heq
    exact .child (ih heq.1) hparent (heq.1 _ hparent ▸ hcause) hexplains

/-- What the last record causes is on no chain. -/
lemma Chained.congr_concat {chains : List (Record × List Firing)} {x : Record × List Firing}
    (h : Chained under (chains ++ [x])) (heq : ∀ y ∈ chains, under y.1 = under' y.1) :
    Chained under' (chains ++ [x]) := by
  generalize hall : chains ++ [x] = all at h
  cases h with
  | root root => exact .root root
  | child h hparent hcause hexplains =>
    obtain ⟨rfl, -⟩ := List.append_inj' hall rfl
    exact .child (h.congr heq) hparent (heq _ hparent ▸ hcause) hexplains

/-- The records have chains, and what waits for a record continues one of them. -/
structure Grown (under : Record → List Cause) (rs : List Record) (l : Lineage) : Prop where
  records : l.chains.map (·.1) = rs
  chained : Chained under l.chains
  waiting : ∀ branch ∈ l.waiting, ∃ parent ∈ l.chains, branch.above = parent.2 ∧
    branch.cause ∈ under parent.1

lemma Grown.mem (h : l.Grown under rs) {x : Record × List Firing} (hx : x ∈ l.chains) :
    x.1 ∈ rs := by
  rw [← h.records]
  exact List.mem_map_of_mem hx

/-- Different records have their own chains. -/
lemma Grown.chain_unique (h : l.Grown under rs) (hsorted : rs.Pairwise (·.seq < ·.seq))
    {chain chain' : List Firing} (hmem : (r, chain) ∈ l.chains) (hmem' : (r, chain') ∈ l.chains) :
    chain = chain' := by
  have hnodup : (l.chains.map (·.1)).Nodup := by
    rw [h.records]
    exact (nodup_seqs hsorted).of_map
  have heq := List.inj_on_of_nodup_map hnodup hmem hmem' rfl
  exact congrArg Prod.snd heq

lemma grown_root (under : Record → List Cause) (root : Record) :
    (of under [root]).Grown under [root] := by
  refine ⟨rfl, .root root, ?_⟩
  intro branch hbranch
  obtain ⟨cause, hcause, rfl⟩ := List.mem_map.1 hbranch
  exact ⟨(root, []), List.mem_singleton_self _, rfl, hcause⟩

/-- The lineage grows by a record that the first waiting cause asks for. -/
lemma Grown.extend (h : l.Grown under rs) (hunder : ∀ r ∈ rs, under r = under' r)
    (hwaiting : l.waiting = branch :: rest) (hexplains : branch.cause.Explains r) :
    (Lineage.extend under' l r).Grown under' (rs ++ [r]) := by
  have hwaits := h.waiting
  rw [hwaiting, List.forall_mem_cons] at hwaits
  obtain ⟨⟨parent, hparent, habove, hcause⟩, hrest⟩ := hwaits
  rw [extend_of_waiting hwaiting]
  refine ⟨by rw [List.map_append, h.records]; rfl, ?_, ?_⟩
  · rw [Branch.chain, habove]
    have hchained := h.chained.congr fun x hx => hunder x.1 (h.mem hx)
    exact .child hchained hparent (hunder _ (h.mem hparent) ▸ hcause) hexplains
  · intro other hother
    rcases List.mem_append.1 hother with hother | hother
    · obtain ⟨cause, hcause, rfl⟩ := List.mem_map.1 hother
      exact ⟨_, List.mem_append_right _ (List.mem_singleton_self _), rfl, hcause⟩
    · obtain ⟨parent, hparent, habove, hcause⟩ := hrest other hother
      exact ⟨parent, List.mem_append_left _ hparent, habove, hunder _ (h.mem hparent) ▸ hcause⟩

end Lineage

/-! ### Lineages of reports -/

/-- The records of a burst with their chains, and what waits for a record at its end. -/
def Report.lineage (report : Report) (rules : List Rule) (declared : ActionRef → Bool) : Lineage :=
  .of (report.causesUnder rules declared) report.records

/-! ### Lineages along a course -/

/-- Only the records up to a record can complete rules with it. -/
lemma RuleTable.completedBy_of_sorted (t : RuleTable) {before after : List Record} {r : Record}
    (h : (before ++ r :: after).Pairwise (·.seq < ·.seq)) :
    t.completedBy (before ++ r :: after) r = t.completedBy (before ++ [r]) r := by
  rw [List.append_cons] at h ⊢
  apply completedBy_append
  intro r' hr'
  exact ((List.pairwise_append.1 h).2.2 r (by simp) r' hr').le

namespace Engine

/-- What a record causes on an engine, among given records. -/
def under (e : Engine ι) (rs : List Record) : Record → List Cause :=
  e.rules.declaredUnder e.registry.contains rs

/-- The lineage of records on an engine. -/
def lineage (e : Engine ι) (rs : List Record) : Lineage := .of (e.under rs) rs

variable {e : Engine ι} {id : String} {rs : List Record} {record r : Record}

/-- A later record does not change what the others complete. -/
lemma completedBy_concat (h : (rs ++ [record]).Pairwise (·.seq < ·.seq)) (hr : r ∈ rs) :
    e.rules.completedBy (rs ++ [record]) r = e.rules.completedBy rs r := by
  apply RuleTable.completedBy_append
  intro r' hr'
  exact ((List.pairwise_append.1 h).2.2 r hr r' hr').le

lemma under_concat (h : (rs ++ [record]).Pairwise (·.seq < ·.seq)) (hr : r ∈ rs) :
    e.under (rs ++ [record]) r = e.under rs r := by
  rw [under, under, RuleTable.declaredUnder_eq, RuleTable.declaredUnder_eq, completedBy_concat h hr]

lemma lineage_concat (h : (rs ++ [record]).Pairwise (·.seq < ·.seq)) (hrs : rs ≠ []) :
    e.lineage (rs ++ [record]) =
      Lineage.extend (e.under (rs ++ [record])) (e.lineage rs) record := by
  rw [lineage, Lineage.of_concat hrs, lineage, Lineage.of_congr fun _ hr => under_concat h hr]

/-- The record has this chain, which does not repeat itself and is as long as the record is deep. -/
structure Descends (e : Engine ι) (rs : List Record) (r : Record) (chain : List Firing) : Prop where
  mem : (r, chain) ∈ (e.lineage rs).chains
  nodup : (chain.map Firing.key).Nodup
  depth_le : r.depth ≤ e.limits.maxDepth
  depth_eq : e.limits.maxDepth.toNat < UInt32.size - 1 → r.depth.toNat = chain.length

/-- What the evaluation of a record with a chain comes to. -/
def evaluation (e : Engine ι) (id : String) (rs : List Record) (r : Record) (chain : List Firing) :
    Evaluation :=
  evaluate e.limits id r (chain.map Firing.key) (e.rules.completedBy rs r)

/-- The evaluation of the record did not fail. -/
def Passes (e : Engine ι) (id : String) (rs : List Record) (r : Record) : Prop :=
  ∃ chain, e.Descends rs r chain ∧ (e.evaluation id rs r chain).failure = none

/-- The evaluation of the last record failed, after those of the others did not. -/
def Stops (e : Engine ι) (id : String) (rs : List Record) (firings : List Firing)
    (failure : BurstFailure) : Prop :=
  ∃ before record chain, rs = before ++ [record] ∧ (∀ r ∈ before, e.Passes id rs r) ∧
    e.Descends rs record chain ∧ (e.evaluation id rs record chain).failure = some failure ∧
    firings = e.rules.firingsAmong before ++ (e.evaluation id rs record chain).firings

/-- How a burst ends whose evaluations did not fail: nothing is left, or the budget is used up. -/
structure Exhausts (e : Engine ι) (id : String) (rs : List Record) (firings : List Firing)
    (failure : Option BurstFailure) : Prop where
  passes : ∀ r ∈ rs, e.Passes id rs r
  firings_eq : firings = e.rules.firingsAmong rs
  failure_eq : failure = none ∧ (e.lineage rs).waiting = [] ∨
    failure = some (.budgetExceeded id e.limits.maxActions) ∧ e.limits.maxActions ≤ rs.length ∧
      ∃ branch ∈ (e.lineage rs).waiting,
        e.registry.contains branch.cause.invocation.action = true ∧
          ∃ args, branch.cause.invocation.args.resolve branch.cause.firing.binding = .ok args

end Engine

/-- The queued consequence stands for the branch. -/
structure Pending.Awaits (limits : Limits) (p : Pending) (branch : Branch) : Prop
    extends p.Stems branch.cause where
  chain : p.chain = branch.chain.map Firing.key
  nodup : p.chain.Nodup
  depth_le : p.depth ≤ limits.maxDepth
  depth_eq : limits.maxDepth.toNat < UInt32.size - 1 → p.depth.toNat = branch.chain.length

/-- What waits for a record is the queue, behind the branches `first`. -/
def Burst.Owes (b : Burst) (e : Engine ι) (rs : List Record) (first : List Branch) : Prop :=
  ∃ owed, List.Forall₂ (Pending.Awaits e.limits) b.queue owed ∧
    (e.lineage rs).waiting =
      first ++ owed.filter (e.registry.contains ·.cause.invocation.action)

/-- What a phase says about chains. -/
def Phase.Descends (e : Engine ι) (id : String) (rs : List Record) : Phase ι → Prop
  | .invoked .. => True
  | .recorded b record keys => ∃ before chain, rs = before ++ [record] ∧
    (∀ r ∈ before, e.Passes id rs r) ∧ e.Descends rs record chain ∧ keys = chain.map Firing.key ∧
    b.Owes e rs (Lineage.branches (e.under rs) record chain)
  | .observed b none => (∀ r ∈ rs, e.Passes id rs r) ∧ b.Owes e rs []
  | .observed b (some failure) => e.Stops id rs b.firings failure
  | .standing (.call b pending args _) => (∀ r ∈ rs, e.Passes id rs r) ∧
    ∃ branch, pending.Awaits e.limits branch ∧
      pending.invocation.args.resolve pending.binding = .ok args ∧ b.Owes e rs [branch]
  | .standing (.over report) =>
    e.Exhausts id rs report.firings report.failure ∨
      ∃ failure, report.failure = some failure ∧ e.Stops id rs report.firings failure

section Course

variable {e : Engine ι} {id : String} {rs : List Record} {record r : Record}

/-! ### Later records -/

lemma Engine.Descends.concat {chain : List Firing} (h : e.Descends rs r chain)
    (hsorted : (rs ++ [record]).Pairwise (·.seq < ·.seq)) (hrs : rs ≠ []) :
    e.Descends (rs ++ [record]) r chain := by
  refine ⟨?_, h.nodup, h.depth_le, h.depth_eq⟩
  rw [Engine.lineage_concat hsorted hrs, Lineage.extend]
  split
  · exact h.mem
  · exact List.mem_append_left _ h.mem

lemma Engine.Passes.concat (h : e.Passes id rs r)
    (hsorted : (rs ++ [record]).Pairwise (·.seq < ·.seq)) (hr : r ∈ rs) :
    e.Passes id (rs ++ [record]) r := by
  obtain ⟨chain, hdescends, hfailure⟩ := h
  refine ⟨chain, hdescends.concat hsorted (List.ne_nil_of_mem hr), ?_⟩
  rwa [Engine.evaluation, Engine.completedBy_concat hsorted hr]

/-! ### Evaluation -/

/-- A record that is not blocked is one step deeper than its chain, without wrapping around. -/
lemma toNat_depth_add_one {limits : Limits} {depth : UInt32} {n : Nat}
    (hdepth : limits.maxDepth.toNat < UInt32.size - 1 → depth.toNat = n)
    (hle : depth ≤ limits.maxDepth) (hmax : limits.maxDepth.toNat < UInt32.size - 1) :
    (depth + 1).toNat = n + 1 := by
  have hdepth := hdepth hmax
  have hle : depth.toNat ≤ limits.maxDepth.toNat := UInt32.le_iff_toNat_le.1 hle
  rw [UInt32.toNat_add, hdepth]
  apply Nat.mod_eq_of_lt
  change n + 1 < UInt32.size
  omega

/-- What an evaluation queues stands for the causes under its record. -/
lemma awaits_queued (ht : e.rules.Tidy) (hrecord : record ∈ rs) {chain : List Firing}
    (hdescends : e.Descends rs record chain)
    (hfailure : (e.evaluation id rs record chain).failure = none) :
    List.Forall₂ (Pending.Awaits e.limits) (e.evaluation id rs record chain).queued
      ((e.rules.causesUnder rs record).map fun cause => ⟨cause, chain⟩) := by
  rw [Engine.evaluation, (evaluate_of_failure_eq_none hfailure).2, List.forall₂_map_right_iff,
    RuleTable.causesUnder]
  apply forall₂_queued
  intro x hx invocation hinvocation
  have hfree := evaluate_failure_eq_none_iff.1 hfailure x hx
  rw [Blocked, not_or, UInt32.not_lt] at hfree
  obtain ⟨hdepth, hnew⟩ := hfree
  refine ⟨⟨rfl, rfl, rfl, rfl, ?_⟩, rfl, List.nodup_cons.2 ⟨hnew, hdescends.nodup⟩, hdepth, ?_⟩
  · exact RuleTable.exists_resolve_of_mem_completedBy ht hrecord hx hinvocation
  · exact toNat_depth_add_one hdescends.depth_eq hdescends.depth_le

lemma owes_observed (ht : e.rules.Tidy) {b : Burst} (hrecord : record ∈ rs) {chain : List Firing}
    (hdescends : e.Descends rs record chain)
    (howes : b.Owes e rs (Lineage.branches (e.under rs) record chain))
    (hfailure : (e.evaluation id rs record chain).failure = none) :
    (b.after (e.evaluation id rs record chain)).Owes e rs [] := by
  obtain ⟨owed, hqueue, hwaiting⟩ := howes
  refine ⟨_, List.rel_append (awaits_queued ht hrecord hdescends hfailure) hqueue, ?_⟩
  rw [hwaiting, List.nil_append, List.filter_append, List.filter_map]
  rfl

/-! ### Dispatch -/

/-- What is skipped has an action that is not declared. -/
lemma exists_of_awaits_append {limits : Limits} {skipped queue : List Pending} {owed : List Branch}
    (h : List.Forall₂ (Pending.Awaits limits) (skipped ++ queue) owed)
    (hskipped : ∀ p ∈ skipped, ¬ p.Dispatchable e.registry.lookup?) :
    ∃ left, List.Forall₂ (Pending.Awaits limits) queue left ∧
      owed.filter (e.registry.contains ·.cause.invocation.action) =
        left.filter (e.registry.contains ·.cause.invocation.action) :=
  exists_of_forall₂_append h fun p hp _ hawaits => hawaits.not_declared (hskipped p hp)

lemma owes_dispatched {b : Burst} {pending : Pending} {args : Fields} {handle : Handle ι}
    {rest : List Pending} (howes : b.Owes e rs [])
    (hturn : nextTurn e.limits e.registry.lookup? id b.appended b.queue =
      .dispatch pending args handle rest) :
    ∃ branch, pending.Awaits e.limits branch ∧
      pending.invocation.args.resolve pending.binding = .ok args ∧
      { b with queue := rest }.Owes e rs [branch] := by
  obtain ⟨owed, hqueue, hwaiting⟩ := howes
  obtain ⟨skipped, heq, hskipped, hargs, hhandle⟩ := exists_skipped_of_nextTurn hturn
  rw [heq] at hqueue
  obtain ⟨left, hleft, hfilter⟩ := exists_of_awaits_append hqueue hskipped
  cases hleft with
  | @cons _ branch _ left hbranch hleft =>
    have hdeclared : e.registry.contains branch.cause.invocation.action = true := by
      rw [← hbranch.invocation, Registry.contains, hhandle]
      rfl
    have hfirst : (branch :: left).filter (e.registry.contains ·.cause.invocation.action) =
        branch :: left.filter (e.registry.contains ·.cause.invocation.action) :=
      List.filter_cons_of_pos hdeclared
    refine ⟨branch, hbranch, hargs, left, hleft, ?_⟩
    rw [hwaiting, hfilter, hfirst]
    rfl

/-- A burst that has nothing to dispatch has no branch that waits. -/
lemma waiting_eq_nil_of_nextTurn {b : Burst} (howes : b.Owes e rs [])
    (hturn : nextTurn e.limits e.registry.lookup? id b.appended b.queue = .over none) :
    (e.lineage rs).waiting = [] := by
  obtain ⟨owed, hqueue, hwaiting⟩ := howes
  rw [← List.append_nil b.queue] at hqueue
  obtain ⟨left, hleft, hfilter⟩ :=
    exists_of_awaits_append hqueue (not_dispatchable_of_nextTurn hturn)
  cases hleft
  rw [hwaiting, hfilter]
  rfl

/-- A burst over budget has a branch that waits and can be dispatched. -/
lemma exists_waiting_of_nextTurn {b : Burst} {failure : BurstFailure} (howes : b.Owes e rs [])
    (hturn : nextTurn e.limits e.registry.lookup? id b.appended b.queue = .over (some failure)) :
    ∃ branch ∈ (e.lineage rs).waiting,
      e.registry.contains branch.cause.invocation.action = true ∧
        ∃ args, branch.cause.invocation.args.resolve branch.cause.firing.binding = .ok args := by
  obtain ⟨owed, hqueue, hwaiting⟩ := howes
  obtain ⟨-, -, skipped, p, rest, heq, hp, hskipped⟩ := exists_dispatchable_of_nextTurn hturn
  rw [heq] at hqueue
  obtain ⟨left, hleft, hfilter⟩ := exists_of_awaits_append hqueue hskipped
  cases hleft with
  | @cons _ branch _ left hbranch hleft =>
    have hdeclared : e.registry.contains branch.cause.invocation.action = true := by
      rw [← hbranch.invocation]
      exact hp.2
    refine ⟨branch, ?_, hdeclared, ?_⟩
    · rw [hwaiting, hfilter, List.nil_append, List.mem_filter]
      exact ⟨List.mem_cons_self, hdeclared⟩
    · rw [← hbranch.invocation, ← hbranch.binding]
      exact hp.1

/-! ### Records -/

lemma descends_root {root : Record} (hroot : root.depth = 0) : e.Descends [root] root [] := by
  refine ⟨List.mem_singleton_self _, List.nodup_nil, ?_, ?_⟩
  · rw [hroot]
    exact UInt32.le_iff_toNat_le.2 (Nat.zero_le _)
  · intro _
    rw [hroot]
    rfl

lemma descends_opened {root : Record} (hroot : root.depth = 0) :
    (Phase.recorded (ι := ι) { id, root } root []).Descends e id [root] :=
  ⟨[], [], rfl, by simp, descends_root hroot, rfl, [], .nil, (List.append_nil _).symm⟩

/-- A call that returns is the record that the branch waits for. -/
lemma descends_answered {b : Burst} {pending : Pending} {branch : Branch}
    (hbranch : pending.Awaits e.limits branch) (howes : b.Owes e rs [branch])
    (hsorted : (rs ++ [record]).Pairwise (·.seq < ·.seq)) (hrs : rs ≠ [])
    (hdepth : record.depth = pending.depth) :
    e.Descends (rs ++ [record]) record branch.chain ∧
      { b with appended := b.appended + 1 }.Owes e (rs ++ [record])
        (Lineage.branches (e.under (rs ++ [record])) record branch.chain) := by
  obtain ⟨owed, hqueue, hwaiting⟩ := howes
  have hextend := Engine.lineage_concat (e := e) hsorted hrs
  rw [Lineage.extend_of_waiting hwaiting] at hextend
  constructor
  · refine ⟨?_, hbranch.chain ▸ hbranch.nodup, hdepth ▸ hbranch.depth_le, hdepth ▸ hbranch.depth_eq⟩
    rw [hextend]
    exact List.mem_append_right _ (List.mem_singleton_self _)
  · refine ⟨owed, hqueue, ?_⟩
    rw [hextend]
    rfl

lemma Burst.Carries.ne_nil {b : Burst} (h : b.Carries id rs) : rs ≠ [] := by
  intro hnil
  have hroot := h.root
  rw [hnil] at hroot
  cases hroot

/-- Along a course the keys that the burst carries are those of the chains. -/
theorem Course.descends (ht : e.rules.Tidy) {phase : Phase ι} (h : Course e id rs phase) :
    phase.Descends e id rs := by
  induction h with
  | invoked => trivial
  | opened _ seq output time hroot => exact descends_opened (by rw [hroot])
  | @observed rs b record keys seen h hseen ih =>
    obtain ⟨before, chain, hrs, hpasses, hdescends, rfl, howes⟩ := ih
    have hrecord : record ∈ rs := by simp [hrs]
    change seen = e.evaluation id rs record chain at hseen
    subst hseen
    cases hfailure : (e.evaluation id rs record chain).failure with
    | none =>
      refine ⟨?_, owes_observed ht hrecord hdescends howes hfailure⟩
      rw [hrs, List.forall_mem_append, List.forall_mem_singleton, ← hrs]
      exact ⟨hpasses, chain, hdescends, hfailure⟩
    | some failure =>
      obtain ⟨-, before', hrs', hfirings⟩ := h.tracks
      obtain ⟨rfl, -⟩ := List.append_inj' (hrs.symm.trans hrs') rfl
      refine ⟨before, record, chain, hrs, hpasses, hdescends, hfailure, ?_⟩
      rw [Burst.after, hfirings]
  | failed _ ih => exact Or.inr ⟨_, rfl, ih⟩
  | @finished rs b failure h hturn ih =>
    obtain ⟨hpasses, howes⟩ := ih
    obtain ⟨hcarries, hfirings⟩ := h.tracks
    refine Or.inl ⟨hpasses, hfirings rfl, ?_⟩
    cases failure with
    | none => exact Or.inl ⟨rfl, waiting_eq_nil_of_nextTurn howes hturn⟩
    | some failure =>
      obtain ⟨rfl, hbudget, -⟩ := exists_dispatchable_of_nextTurn hturn
      exact Or.inr ⟨rfl, hcarries.appended ▸ hbudget, exists_waiting_of_nextTurn howes hturn⟩
  | dispatched _ hturn ih => exact ⟨ih.1, owes_dispatched ih.2 hturn⟩
  | @answered rs b pending args handle record h seq output time hseq hrecord ih =>
    obtain ⟨hpasses, branch, hbranch, -, howes⟩ := ih
    have hsorted := (Course.answered h seq output time hseq hrecord).sorted
    have hdepth : record.depth = pending.depth := by rw [hrecord]
    obtain ⟨hdescends, howes⟩ := descends_answered hbranch howes hsorted h.tracks.1.ne_nil hdepth
    exact ⟨rs, branch.chain, rfl, fun r hr => (hpasses r hr).concat hsorted hr, hdescends,
      hbranch.chain, howes⟩

/-- Along a course each record descends along a chain. -/
lemma Course.exists_descends (ht : e.rules.Tidy) {phase : Phase ι} (h : Course e id rs phase)
    (hr : r ∈ rs) : ∃ chain, e.Descends rs r chain := by
  induction h with
  | invoked => simp at hr
  | @opened _ _ _ root _ seq output time hroot =>
    obtain rfl := List.mem_singleton.1 hr
    exact ⟨[], descends_root (by rw [hroot])⟩
  | observed _ _ ih => exact ih hr
  | failed _ ih => exact ih hr
  | finished _ _ ih => exact ih hr
  | dispatched _ _ ih => exact ih hr
  | @answered rs b pending args handle record h seq output time hseq hrecord ih =>
    have hanswered := Course.answered h seq output time hseq hrecord
    rcases List.mem_append.1 hr with hr | hr
    · obtain ⟨chain, hdescends⟩ := ih hr
      exact ⟨chain, hdescends.concat hanswered.sorted h.tracks.1.ne_nil⟩
    · obtain ⟨-, chain, -, -, hdescends, -, -⟩ := hanswered.descends ht
      rw [List.mem_singleton.1 hr]
      exact ⟨chain, hdescends⟩

/-- Along a course each record has its chain, once there are records. -/
theorem Course.grown (ht : e.rules.Tidy) {phase : Phase ι} (h : Course e id rs phase)
    (hrs : rs ≠ []) : (e.lineage rs).Grown (e.under rs) rs := by
  induction h with
  | invoked => exact absurd rfl hrs
  | opened => exact Lineage.grown_root _ _
  | observed _ _ ih => exact ih hrs
  | failed _ ih => exact ih hrs
  | finished _ _ ih => exact ih hrs
  | dispatched _ _ ih => exact ih hrs
  | @answered rs b pending args handle record h seq output time hseq hrecord ih =>
    obtain ⟨-, branch, hbranch, hargs, owed, -, hwaiting⟩ := h.descends ht
    have hsorted := (Course.answered h seq output time hseq hrecord).sorted
    rw [Engine.lineage_concat hsorted h.tracks.1.ne_nil]
    exact (ih h.tracks.1.ne_nil).extend (fun r hr => (Engine.under_concat hsorted hr).symm) hwaiting
      (hbranch.explains hargs hrecord)

/-- Each record but the first takes the first of the branches that wait when it comes. -/
theorem Course.exists_waiting (ht : e.rules.Tidy) {phase : Phase ι} (h : Course e id rs phase)
    {before after : List Record} (hrs : rs = before ++ r :: after) (hbefore : before ≠ []) :
    ∃ branch rest, (e.lineage before).waiting = branch :: rest ∧ branch.cause.Explains r := by
  induction h generalizing after with
  | invoked => simp at hrs
  | opened =>
    rw [List.singleton_eq_append_iff] at hrs
    simp [hbefore] at hrs
  | observed _ _ ih => exact ih hrs
  | failed _ ih => exact ih hrs
  | finished _ _ ih => exact ih hrs
  | dispatched _ _ ih => exact ih hrs
  | @answered rs b pending args handle record h seq output time hseq hrecord ih =>
    rcases List.eq_nil_or_concat' after with rfl | ⟨after, last, rfl⟩
    · obtain ⟨rfl, hlast⟩ := List.append_inj' hrs rfl
      cases hlast
      obtain ⟨-, branch, hbranch, hargs, owed, -, hwaiting⟩ := h.descends ht
      exact ⟨branch, _, hwaiting, hbranch.explains hargs hrecord⟩
    · rw [← List.cons_append, ← List.append_assoc] at hrs
      obtain ⟨rfl, -⟩ := List.append_inj' hrs rfl
      exact ih rfl

/-! ### Chains of a burst that is over -/

variable {report : Report}

/-- All records but the last have passed their evaluation, and the last one has been evaluated. -/
lemma Course.exists_last (ht : e.rules.Tidy)
    (h : Course e id report.records (.standing (.over report))) :
    ∃ before record chain, report.records = before ++ [record] ∧
      (∀ r ∈ before, e.Passes id report.records r) ∧ e.Descends report.records record chain ∧
      report.firings = e.rules.firingsAmong before ++
        (e.evaluation id report.records record chain).firings := by
  rcases h.descends ht with hexhausts | ⟨failure, -, before, record, chain, hrs, hpasses, hdescends,
    -, hfirings⟩
  · rcases List.eq_nil_or_concat' report.records with hnil | ⟨before, record, hrs⟩
    · have hroot := h.tracks.2.1
      rw [hnil] at hroot
      cases hroot
    have hpasses := hexhausts.passes
    rw [hrs, List.forall_mem_append, List.forall_mem_singleton, ← hrs] at hpasses
    obtain ⟨hbefore, chain, hdescends, hfailure⟩ := hpasses
    refine ⟨before, record, chain, hrs, hbefore, hdescends, ?_⟩
    have hsorted := h.sorted
    rw [hrs, List.pairwise_append] at hsorted
    rw [hexhausts.firings_eq, Engine.evaluation, (evaluate_of_failure_eq_none hfailure).1, hrs,
      e.rules.firingsAmong_concat fun r hr => (hsorted.2.2 r hr record (by simp)).le]
  · exact ⟨before, record, chain, hrs, hpasses, hdescends, hfirings⟩

/-- A burst in which no match is blocked goes on until nothing is left, or is over budget. -/
lemma Course.exhausts (ht : e.rules.Tidy)
    (h : Course e id report.records (.standing (.over report)))
    (hfree : ∀ r chain, e.Descends report.records r chain →
      ∀ x ∈ e.rules.completedBy report.records r,
        ¬ Blocked e.limits r (chain.map Firing.key) x) :
    e.Exhausts id report.records report.firings report.failure := by
  rcases h.descends ht with hexhausts | ⟨failure, -, _, record, chain, -, -, hdescends, hfailure, -⟩
  · exact hexhausts
  · obtain ⟨earlier, x, later, hfound, hblocked, -⟩ := evaluate_failure_eq_some_iff.1 hfailure
    exact absurd hblocked (hfree record chain hdescends x (by simp [hfound]))

lemma Engine.trigger_of_mem_evaluation {chain : List Firing} {f : Firing}
    (hf : f ∈ (e.evaluation id rs r chain).firings) : f.trigger = r.seq := by
  obtain ⟨x, -, rfl, -⟩ := exists_of_mem_firings hf
  rfl

/-- Of the records before the last one every match fired. -/
lemma Course.firingsOf_before (ht : e.rules.Tidy)
    (h : Course e id report.records (.standing (.over report))) {before : List Record}
    (hrs : report.records = before ++ [record]) {rule : Rule} (hrule : rule ∈ e.rules.rules)
    (hr : r ∈ before) : report.firingsOf rule.name r.seq =
      ((rule.completion report.records r).map fun m => Firing.of r (rule, m)).toList := by
  obtain ⟨before', record', chain, hrs', -, -, hfirings⟩ := h.exists_last ht
  obtain ⟨rfl, hlast⟩ := List.append_inj' (hrs'.symm.trans hrs) rfl
  cases hlast
  have hsorted := h.sorted
  rw [hrs] at hsorted ⊢
  obtain ⟨hbefore, -, hlater⟩ := List.pairwise_append.1 hsorted
  have hnone : (e.evaluation id report.records record chain).firings.filter
      (fun f => f.rule = rule.name ∧ f.trigger = r.seq) = [] := by
    rw [List.filter_eq_nil_iff]
    intro f hf hmatches
    have hseq := (of_decide_eq_true hmatches).2
    rw [Engine.trigger_of_mem_evaluation hf] at hseq
    exact (hlater r hr record (List.mem_singleton_self _)).ne' hseq
  rw [Report.firingsOf, hfirings, List.filter_append, hnone, List.append_nil,
    filter_firingsAmong ht hbefore hrule hr, Rule.completion_append]
  intro r' hr'
  exact (hlater r hr r' hr').le

lemma Course.chains_lineage (ht : e.rules.Tidy)
    (h : Course e id report.records (.standing (.over report))) :
    (report.lineage e.rules.rules e.registry.contains).chains =
      (e.lineage report.records).chains := by
  obtain ⟨before, record, -, hrs, -⟩ := h.exists_last ht
  rw [Report.lineage, Engine.lineage, hrs]
  apply Lineage.chains_of_congr
  intro r hr
  rw [← hrs]
  exact Report.causesUnder_of_firingsOf fun rule hrule => h.firingsOf_before ht hrs hrule hr

/-- If no evaluation failed, the report also tells what waits for a record. -/
lemma Course.lineage_eq (ht : e.rules.Tidy)
    (h : Course e id report.records (.standing (.over report)))
    (hexhausts : e.Exhausts id report.records report.firings report.failure) :
    report.lineage e.rules.rules e.registry.contains = e.lineage report.records := by
  apply Lineage.of_congr
  intro r hr
  apply Report.causesUnder_of_firingsOf
  intro rule hrule
  rw [Report.firingsOf, hexhausts.firings_eq]
  exact filter_firingsAmong ht h.sorted hrule hr

/-- The chains of a burst that is over go back to its root along the firings in its report. -/
theorem Course.chained (ht : e.rules.Tidy)
    (h : Course e id report.records (.standing (.over report))) :
    (report.lineage e.rules.rules e.registry.contains).chains.map (·.1) = report.records ∧
      Lineage.Chained (report.causesUnder e.rules.rules e.registry.contains)
        (report.lineage e.rules.rules e.registry.contains).chains := by
  obtain ⟨before, record, -, hrs, -⟩ := h.exists_last ht
  have hgrown := h.grown ht (by simp [hrs])
  rw [h.chains_lineage ht]
  refine ⟨hgrown.records, ?_⟩
  have hchained := hgrown.chained
  have hrecords := hgrown.records
  rcases List.eq_nil_or_concat' (e.lineage report.records).chains with
    hnil | ⟨chains, last, hchains⟩
  · rw [hnil, hrs] at hrecords
    simp at hrecords
  rw [hchains, hrs, List.map_append] at hrecords
  rw [hchains] at hchained ⊢
  apply hchained.congr_concat
  intro x hx
  obtain ⟨rfl, -⟩ := List.append_inj' hrecords rfl
  rw [Report.causesUnder_of_firingsOf fun rule hrule =>
    h.firingsOf_before ht hrs hrule (List.mem_map_of_mem hx)]
  rfl

/-- Each record of a burst that is over descends along its chain. -/
theorem Course.descends_of_mem (ht : e.rules.Tidy)
    (h : Course e id report.records (.standing (.over report))) {chain : List Firing}
    (hmem : (r, chain) ∈ (report.lineage e.rules.rules e.registry.contains).chains) :
    e.Descends report.records r chain := by
  obtain ⟨before, record, -, hrs, -⟩ := h.exists_last ht
  have hgrown := h.grown ht (by simp [hrs])
  rw [h.chains_lineage ht] at hmem
  obtain ⟨chain', hdescends⟩ := h.exists_descends ht (hgrown.mem hmem)
  rwa [hgrown.chain_unique h.sorted hmem hdescends.mem]

end Course

end Synchrony
