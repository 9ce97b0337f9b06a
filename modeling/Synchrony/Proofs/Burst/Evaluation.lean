import Synchrony.Proofs.Burst.Course
import Synchrony.Proofs.Value.Scan

/-!
# How far an evaluation and a dispatch go

An evaluation lets matches fire up to the first one that is blocked: the chain would get too long,
or would repeat a firing (`evaluate_append`, `evaluate_cons_of_blocked`). The key of a firing tells
which rule fired and the text of the binding (`Firing.keyOf_inj`), so a match is blocked by exactly
the firings of its own rule with an identical binding. With higher limits less is blocked and
nothing else changes.
-/

namespace Synchrony

/-! ### Keys -/

/-- The text by which the firing is compared with others of its chain. -/
def Firing.key (f : Firing) : List Char := Firing.keyOf f.rule f.binding

/-- The rule that fired and the text of its binding, by which firings are identical. -/
def Firing.identity (f : Firing) : String × List Char := (f.rule, f.binding.canonical)

lemma Binding.canonical_ne_append (b b' : Binding) (front : List Char) :
    b.canonical ≠ front ++ ':' :: b'.canonical :=
  Value.compact_obj_ne_append _ _ _

/-- A name with a longer name behind it would put a text of a binding behind a colon. -/
lemma Firing.keyOf_eq_append {rule rule' : String} {b b' : Binding} {more : List Char}
    (hname : rule'.toList = rule.toList ++ more)
    (h : ':' :: b.canonical = more ++ ':' :: b'.canonical) :
    rule = rule' ∧ b.canonical = b'.canonical := by
  cases more with
  | nil =>
    rw [List.append_nil] at hname
    rw [List.nil_append, List.cons.injEq] at h
    exact ⟨(String.toList_inj.1 hname).symm, h.2⟩
  | cons c more =>
    rw [List.cons_append, List.cons.injEq] at h
    exact absurd h.2 (Binding.canonical_ne_append b b' more)

/-- The key tells the rule and the text of the binding. -/
theorem Firing.keyOf_inj {rule rule' : String} {b b' : Binding}
    (h : keyOf rule b = keyOf rule' b') : rule = rule' ∧ b.canonical = b'.canonical := by
  rcases List.append_eq_append_iff.1 h with ⟨more, hname, htail⟩ | ⟨more, hname, htail⟩
  · exact keyOf_eq_append hname htail
  · obtain ⟨hrule, hcanonical⟩ := keyOf_eq_append hname htail
    exact ⟨hrule.symm, hcanonical.symm⟩

lemma Firing.key_eq_iff {f g : Firing} : f.key = g.key ↔ f.identity = g.identity := by
  rw [key, key, identity, identity, Prod.mk.injEq]
  constructor
  · exact keyOf_inj
  · rintro ⟨hrule, hcanonical⟩
    rw [keyOf, keyOf, hrule, hcanonical]

/-- A chain has a key exactly if the rule is on it with a binding of the same text. -/
lemma Firing.keyOf_mem_iff {chain : List Firing} {rule : String} {b : Binding} :
    keyOf rule b ∈ chain.map key ↔
      ∃ f ∈ chain, f.rule = rule ∧ f.binding.canonical = b.canonical := by
  constructor
  · intro hmem
    obtain ⟨f, hf, hkey⟩ := List.mem_map.1 hmem
    exact ⟨f, hf, keyOf_inj hkey⟩
  · rintro ⟨f, hf, rfl, hcanonical⟩
    refine List.mem_map.2 ⟨f, hf, ?_⟩
    rw [key, keyOf, keyOf, hcanonical]

/--
Whatever characters the names have, two keys are one exactly if the names are one and the texts of the
bindings are one. So looking for a key on a chain never takes one firing for another.
-/
theorem Firing.keyOf_eq_iff (rule rule' : String) (b b' : Binding) :
    (keyOf rule b = keyOf rule' b' ↔ rule = rule' ∧ b.canonical = b'.canonical) ∧
      ∀ chain : List Firing, (chain.map key).contains (keyOf rule b) = true ↔
        ∃ f ∈ chain, f.rule = rule ∧ f.binding.canonical = b.canonical := by
  refine ⟨⟨keyOf_inj, ?_⟩, fun chain => List.contains_iff_mem.trans keyOf_mem_iff⟩
  rintro ⟨hrule, hcanonical⟩
  rw [keyOf, keyOf, hrule, hcanonical]

lemma Firing.nodup_map_identity {chain : List Firing} (h : (chain.map key).Nodup) :
    (chain.map identity).Nodup := by
  rw [List.Nodup, List.pairwise_map] at h ⊢
  exact h.imp fun hne heq => hne (key_eq_iff.2 heq)

/-! ### Evaluation -/

/-- The match may not fire on the record: the chain is too long, or has fired like this before. -/
def Blocked (limits : Limits) (record : Record) (chain : List (List Char)) (x : Rule × Match) :
    Prop :=
  limits.maxDepth < record.depth + 1 ∨ (Firing.of record x).key ∈ chain

/-- The failure of a burst that comes to a blocked match. -/
def blockedFailure (limits : Limits) (id : String) (record : Record) (rule : String) :
    BurstFailure :=
  if limits.maxDepth < record.depth + 1 then .depthExceeded id limits.maxDepth rule
  else .cycleDetected id rule

section Evaluate

variable {limits limits' : Limits} {id : String} {record : Record} {chain : List (List Char)}
  {found earlier later : List (Rule × Match)} {x : Rule × Match}

lemma evaluate_cons_of_blocked (h : Blocked limits record chain x) :
    evaluate limits id record chain (x :: later) =
      { failure := some (blockedFailure limits id record x.1.name) } := by
  obtain ⟨rule, m⟩ := x
  rw [evaluate, blockedFailure]
  split
  · rfl
  rename_i hdepth
  have hrepeats : Firing.keyOf rule.name m.binding ∈ chain := h.resolve_left hdepth
  rw [if_pos (List.contains_iff_mem.2 hrepeats)]

lemma evaluate_cons_of_not_blocked (h : ¬ Blocked limits record chain x) :
    evaluate limits id record chain (x :: later) =
      { firings := Firing.of record x :: (evaluate limits id record chain later).firings
        queued := consequencesOf x.1 x.2.binding (record.depth + 1) chain ++
          (evaluate limits id record chain later).queued
        failure := (evaluate limits id record chain later).failure } := by
  obtain ⟨rule, m⟩ := x
  obtain ⟨hdepth, hrepeats⟩ := not_or.1 h
  have hnew : Firing.keyOf rule.name m.binding ∉ chain := hrepeats
  rw [evaluate, if_neg hdepth, if_neg (mt List.contains_iff_mem.1 hnew)]
  rfl

/-- Matches that are not blocked fire and queue their consequences, and the evaluation goes on. -/
lemma evaluate_append (h : ∀ x ∈ earlier, ¬ Blocked limits record chain x) :
    evaluate limits id record chain (earlier ++ later) =
      { firings := earlier.map (Firing.of record) ++ (evaluate limits id record chain later).firings
        queued := (earlier.flatMap fun x =>
          consequencesOf x.1 x.2.binding (record.depth + 1) chain) ++
            (evaluate limits id record chain later).queued
        failure := (evaluate limits id record chain later).failure } := by
  induction earlier with
  | nil => rfl
  | cons x earlier ih =>
    rw [List.forall_mem_cons] at h
    rw [List.cons_append, evaluate_cons_of_not_blocked h.1, ih h.2]
    simp

/-- If nothing is blocked, every match fires and queues its consequences. -/
lemma evaluate_of_forall (h : ∀ x ∈ found, ¬ Blocked limits record chain x) :
    evaluate limits id record chain found =
      { firings := found.map (Firing.of record)
        queued := found.flatMap fun x => consequencesOf x.1 x.2.binding (record.depth + 1) chain
        failure := none } := by
  have happend : evaluate limits id record chain (found ++ []) = _ := evaluate_append h
  simpa only [List.append_nil, evaluate] using happend

/-- Nothing is blocked, or there is a first match that is. -/
lemma forall_not_blocked_or_exists (limits : Limits) (record : Record) (chain : List (List Char))
    (found : List (Rule × Match)) : (∀ x ∈ found, ¬ Blocked limits record chain x) ∨
      ∃ earlier x later, found = earlier ++ x :: later ∧ Blocked limits record chain x ∧
        ∀ y ∈ earlier, ¬ Blocked limits record chain y := by
  induction found with
  | nil => exact Or.inl (by simp)
  | cons y rest ih =>
    by_cases hy : Blocked limits record chain y
    · exact Or.inr ⟨[], y, rest, rfl, hy, by simp⟩
    · rcases ih with hrest | ⟨earlier, x, later, rfl, hx, hearlier⟩
      · exact Or.inl (List.forall_mem_cons.2 ⟨hy, hrest⟩)
      · exact Or.inr ⟨y :: earlier, x, later, rfl, hx, List.forall_mem_cons.2 ⟨hy, hearlier⟩⟩

lemma evaluate_failure_eq_none_iff : (evaluate limits id record chain found).failure = none ↔
    ∀ x ∈ found, ¬ Blocked limits record chain x := by
  constructor
  · intro h
    rcases forall_not_blocked_or_exists limits record chain found with
      hfound | ⟨earlier, x, later, rfl, hx, hearlier⟩
    · exact hfound
    · rw [evaluate_append hearlier, evaluate_cons_of_blocked hx] at h
      cases h
  · intro h
    rw [evaluate_of_forall h]

/-- An evaluation fails at the first match that is blocked. -/
lemma evaluate_failure_eq_some_iff {failure : BurstFailure} :
    (evaluate limits id record chain found).failure = some failure ↔
      ∃ earlier x later, found = earlier ++ x :: later ∧ Blocked limits record chain x ∧
        (∀ y ∈ earlier, ¬ Blocked limits record chain y) ∧
        failure = blockedFailure limits id record x.1.name := by
  constructor
  · intro h
    rcases forall_not_blocked_or_exists limits record chain found with
      hfound | ⟨earlier, x, later, rfl, hx, hearlier⟩
    · rw [evaluate_failure_eq_none_iff.2 hfound] at h
      cases h
    · rw [evaluate_append hearlier, evaluate_cons_of_blocked hx] at h
      cases h
      exact ⟨earlier, x, later, rfl, hx, hearlier, rfl⟩
  · rintro ⟨earlier, x, later, rfl, hx, hearlier, rfl⟩
    rw [evaluate_append hearlier, evaluate_cons_of_blocked hx]

/-- What fires is a match that is not blocked. -/
lemma exists_of_mem_firings {f : Firing} (h : f ∈ (evaluate limits id record chain found).firings) :
    ∃ x ∈ found, f = Firing.of record x ∧ ¬ Blocked limits record chain x := by
  induction found with
  | nil => simp [evaluate] at h
  | cons y rest ih =>
    by_cases hy : Blocked limits record chain y
    · rw [evaluate_cons_of_blocked hy] at h
      simp at h
    · rw [evaluate_cons_of_not_blocked hy, List.mem_cons] at h
      rcases h with rfl | h
      · exact ⟨y, List.mem_cons_self, rfl, hy⟩
      · obtain ⟨x, hx, heq, hfree⟩ := ih h
        exact ⟨x, List.mem_cons_of_mem y hx, heq, hfree⟩

/-- An evaluation queues at most the consequences of all matches. -/
lemma length_queued_le : (evaluate limits id record chain found).queued.length ≤
    (found.flatMap (·.1.consequences)).length := by
  induction found with
  | nil => simp [evaluate]
  | cons y rest ih =>
    by_cases hy : Blocked limits record chain y
    · rw [evaluate_cons_of_blocked hy]
      simp
    · rw [evaluate_cons_of_not_blocked hy, List.length_append, consequencesOf, List.length_map,
        List.flatMap_cons, List.length_append]
      omega

/-! ### Higher limits -/

lemma Blocked.of_le (hdepth : limits.maxDepth ≤ limits'.maxDepth)
    (h : Blocked limits' record chain x) : Blocked limits record chain x := by
  rcases h with hlt | hrepeats
  · exact Or.inl (UInt32.lt_of_le_of_lt hdepth hlt)
  · exact Or.inr hrepeats

/-- With a higher limit an evaluation gets at least as far. -/
lemma evaluate_firings_isPrefix (hdepth : limits.maxDepth ≤ limits'.maxDepth) :
    (evaluate limits id record chain found).firings <+:
      (evaluate limits' id record chain found).firings := by
  induction found with
  | nil => exact List.prefix_refl _
  | cons y rest ih =>
    by_cases hy : Blocked limits record chain y
    · rw [evaluate_cons_of_blocked hy]
      exact List.nil_prefix
    · rw [evaluate_cons_of_not_blocked hy, evaluate_cons_of_not_blocked (mt (.of_le hdepth) hy)]
      exact (List.prefix_cons_inj _).2 ih

/-- An evaluation that does not fail is the same with a higher limit. -/
lemma evaluate_eq_of_le (hdepth : limits.maxDepth ≤ limits'.maxDepth)
    (h : (evaluate limits id record chain found).failure = none) :
    evaluate limits' id record chain found = evaluate limits id record chain found := by
  have hfree := evaluate_failure_eq_none_iff.1 h
  have hfree' : ∀ x ∈ found, ¬ Blocked limits' record chain x :=
    fun x hx => mt (.of_le hdepth) (hfree x hx)
  rw [evaluate_of_forall hfree, evaluate_of_forall hfree']

end Evaluate

/-! ### Dispatch -/

section NextTurn

variable {η : Type} {limits limits' : Limits} {lookup? : ActionRef → Option η} {id : String}
  {appended : Nat} {queue : List Pending}

/-- A burst is over budget only when the queue has something that can be dispatched. -/
lemma exists_dispatchable_of_nextTurn {failure : BurstFailure}
    (h : nextTurn limits lookup? id appended queue = .over (some failure)) :
    failure = .budgetExceeded id limits.maxActions ∧ limits.maxActions ≤ appended ∧
      ∃ skipped p rest, queue = skipped ++ p :: rest ∧ p.Dispatchable lookup? ∧
        ∀ q ∈ skipped, ¬ q.Dispatchable lookup? := by
  induction queue with
  | nil => simp [nextTurn] at h
  | cons p queue ih =>
    by_cases hp : p.Dispatchable lookup?
    · obtain ⟨args, hargs⟩ := hp.1
      obtain ⟨handle, hhandle⟩ := Option.isSome_iff_exists.1 hp.2
      simp only [nextTurn, hargs, hhandle] at h
      split at h
      · rename_i hbudget
        cases h
        exact ⟨rfl, hbudget, [], p, queue, rfl, hp, by simp⟩
      · cases h
    · rw [nextTurn_cons_of_not_dispatchable hp] at h
      obtain ⟨hfailure, hbudget, skipped, q, rest, rfl, hq, hskipped⟩ := ih h
      exact ⟨hfailure, hbudget, p :: skipped, q, rest, rfl, hq,
        List.forall_mem_cons.2 ⟨hp, hskipped⟩⟩

/-- What is dispatched, or that nothing is left, is the same with a higher limit. -/
lemma nextTurn_eq_of_le (hactions : limits.maxActions ≤ limits'.maxActions)
    (h : ∀ failure, nextTurn limits lookup? id appended queue ≠ .over (some failure)) :
    nextTurn limits' lookup? id appended queue = nextTurn limits lookup? id appended queue := by
  induction queue with
  | nil => rfl
  | cons p queue ih =>
    by_cases hp : p.Dispatchable lookup?
    · obtain ⟨args, hargs⟩ := hp.1
      obtain ⟨handle, hhandle⟩ := Option.isSome_iff_exists.1 hp.2
      simp only [nextTurn, hargs, hhandle] at h ⊢
      by_cases hbudget : limits.maxActions ≤ appended
      · rw [if_pos hbudget] at h
        exact absurd rfl (h _)
      · rw [if_neg hbudget, if_neg (by omega)]
    · rw [nextTurn_cons_of_not_dispatchable hp] at h ⊢
      rw [nextTurn_cons_of_not_dispatchable hp]
      exact ih h

end NextTurn

end Synchrony
