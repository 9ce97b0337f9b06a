import Synchrony.Proofs.Burst.Lineage

/-!
# Bursts of one thread

If each record of a burst causes at most one record, the burst is a thread (`Engine.Thread`). When
its last record causes one, the thread goes on with it while the budget lasts
(`Course.exists_next_of_thread`); when it completes nothing, the burst is over
(`Course.ends_of_thread`).
-/

namespace Synchrony

variable {ι : Type}

/-! ### Single causes -/

namespace Engine

variable {e : Engine ι} {rs : List Record} {last r : Record} {chain : List Firing} {cause : Cause}

/-- A record that completes no rule causes nothing. -/
lemma under_of_completedBy_nil (h : e.rules.completedBy rs r = []) : e.under rs r = [] := by
  rw [under, RuleTable.declaredUnder_eq, h]
  rfl

/-- A record that completes one rule with one consequence causes one record. -/
lemma under_of_completedBy_singleton {rule : Rule} {m : Match} {invocation : Invocation}
    (h : e.rules.completedBy rs r = [(rule, m)]) (hconsequences : rule.consequences = [invocation])
    (hdeclared : e.registry.contains invocation.action = true) :
    e.under rs r = [⟨r, Firing.of r (rule, m), invocation⟩] := by
  simp [under, RuleTable.declaredUnder_eq, h, hconsequences, hdeclared]

/-! ### Threads -/

/-- No match of the record is blocked. -/
def Free (e : Engine ι) (rs : List Record) (r : Record) (chain : List Firing) : Prop :=
  ∀ x ∈ e.rules.completedBy rs r, ¬ Blocked e.limits r (chain.map Firing.key) x

/-- Only what the last record causes waits, and no match of the records before it is blocked. -/
structure Thread (e : Engine ι) (rs : List Record) (last : Record) (chain : List Firing) :
    Prop where
  mem : last ∈ rs
  waiting : (e.lineage rs).waiting = Lineage.branches (e.under rs) last chain
  chains : ∀ r c, (r, c) ∈ (e.lineage rs).chains →
    r ∈ rs ∧ ((r, c) = (last, chain) ∨ e.Free rs r c)

lemma thread_root (e : Engine ι) (root : Record) : e.Thread [root] root [] := by
  refine ⟨List.mem_singleton_self _, rfl, ?_⟩
  intro r c hmem
  obtain ⟨rfl, rfl⟩ := Prod.mk.inj (List.mem_singleton.1 hmem)
  exact ⟨List.mem_singleton_self _, Or.inl rfl⟩

/-- A thread goes on with the one record that its last one causes. -/
lemma Thread.next (h : e.Thread rs last chain) (hfree : e.Free rs last chain)
    (hunder : e.under rs last = [cause]) (hsorted : (rs ++ [r]).Pairwise (·.seq < ·.seq)) :
    e.Thread (rs ++ [r]) r (cause.firing :: chain) := by
  have hwaiting : (e.lineage rs).waiting = [⟨cause, chain⟩] := by
    rw [h.waiting, Lineage.branches, hunder]
    rfl
  have hlineage := lineage_concat (e := e) hsorted (List.ne_nil_of_mem h.mem)
  rw [Lineage.extend_of_waiting hwaiting] at hlineage
  refine ⟨by simp, ?_, ?_⟩
  · rw [hlineage]
    exact List.append_nil _
  · intro r' c hmem
    rw [hlineage] at hmem
    rcases List.mem_append.1 hmem with hmem | hmem
    · obtain ⟨hr', heq⟩ := h.chains r' c hmem
      refine ⟨List.mem_append_left _ hr', Or.inr ?_⟩
      rw [Free, completedBy_concat hsorted hr']
      rcases heq with heq | hfree'
      · cases heq
        exact hfree
      · exact hfree'
    · cases List.mem_singleton.1 hmem
      exact ⟨List.mem_append_right _ (List.mem_singleton_self _), Or.inl rfl⟩

end Engine

section Course

variable {e : Engine ι} {id : String} {rs rest : List Record} {last r : Record}
  {chain : List Firing} {cause : Cause} {phase : Phase ι} {report : Report}

/-- The next record of a thread is the one that its last one causes. -/
lemma Course.explains_of_thread (ht : e.rules.Tidy) (hcourse : Course e id (rs ++ r :: rest) phase)
    (h : e.Thread rs last chain) (hunder : e.under rs last = [cause]) : cause.Explains r := by
  obtain ⟨branch, left, hwaiting, hexplains⟩ :=
    hcourse.exists_waiting ht rfl (List.ne_nil_of_mem h.mem)
  rw [h.waiting, Lineage.branches, hunder] at hwaiting
  cases hwaiting
  exact hexplains

/-- A thread whose last record causes nothing is the whole burst. -/
lemma Course.eq_nil_of_thread (ht : e.rules.Tidy) (hcourse : Course e id (rs ++ rest) phase)
    (h : e.Thread rs last chain) (hunder : e.under rs last = []) : rest = [] := by
  cases rest with
  | nil => rfl
  | cons r rest =>
    obtain ⟨branch, left, hwaiting, -⟩ :=
      hcourse.exists_waiting ht rfl (List.ne_nil_of_mem h.mem)
    rw [h.waiting, Lineage.branches, hunder] at hwaiting
    cases hwaiting

/-- No evaluation failed in a thread that is over. -/
lemma Course.exhausts_of_thread (ht : e.rules.Tidy)
    (hcourse : Course e id report.records (.standing (.over report)))
    (hrecords : report.records = rs) (h : e.Thread rs last chain) (hfree : e.Free rs last chain) :
    e.Exhausts id rs report.firings report.failure := by
  have hexhausts := hcourse.exhausts ht
  rw [hrecords] at hexhausts
  apply hexhausts
  intro r c hdescends
  rcases (h.chains r c hdescends.mem).2 with heq | hfree'
  · cases heq
    exact hfree
  · exact hfree'

/-- A thread whose last record completes nothing is the whole burst, which ends without failure. -/
theorem Course.ends_of_thread (ht : e.rules.Tidy)
    (hcourse : Course e id report.records (.standing (.over report)))
    (hrecords : report.records = rs ++ rest) (h : e.Thread rs last chain)
    (hnil : e.rules.completedBy rs last = []) :
    report.failure = none ∧ report.records = rs := by
  have hunder := Engine.under_of_completedBy_nil hnil
  have hfree : e.Free rs last chain := by simp [Engine.Free, hnil]
  obtain rfl := (hrecords ▸ hcourse).eq_nil_of_thread ht h hunder
  rw [List.append_nil] at hrecords
  refine ⟨?_, hrecords⟩
  rcases (hcourse.exhausts_of_thread ht hrecords h hfree).failure_eq with
    ⟨hnone, -⟩ | ⟨-, -, branch, hbranch, -⟩
  · exact hnone
  · rw [h.waiting, Lineage.branches, hunder] at hbranch
    cases hbranch

/-- A thread whose last record causes something goes on while the budget lasts. -/
theorem Course.exists_next_of_thread (ht : e.rules.Tidy)
    (hcourse : Course e id report.records (.standing (.over report)))
    (hrecords : report.records = rs ++ rest) (h : e.Thread rs last chain)
    (hfree : e.Free rs last chain) (hunder : e.under rs last = [cause])
    (hbudget : rs.length < e.limits.maxActions) :
    ∃ r rest', report.records = rs ++ [r] ++ rest' ∧ last.seq < r.seq ∧ cause.Explains r ∧
      e.Thread (rs ++ [r]) r (cause.firing :: chain) := by
  cases rest with
  | nil =>
    rw [List.append_nil] at hrecords
    rcases (hcourse.exhausts_of_thread ht hrecords h hfree).failure_eq with
      ⟨-, hnil⟩ | ⟨-, hlimit, -⟩
    · rw [h.waiting, Lineage.branches, hunder] at hnil
      cases hnil
    · exact absurd hlimit (Nat.not_le.2 hbudget)
  | cons r rest =>
    have hexplains := (hrecords ▸ hcourse).explains_of_thread ht h hunder
    rw [List.append_cons] at hrecords
    have hsorted : (rs ++ [r]).Pairwise (·.seq < ·.seq) :=
      (hrecords ▸ hcourse.sorted).sublist (List.sublist_append_left _ rest)
    exact ⟨r, rest, hrecords, (List.pairwise_append.1 hsorted).2.2 last h.mem r (by simp),
      hexplains, h.next hfree hunder hsorted⟩

end Course

end Synchrony
