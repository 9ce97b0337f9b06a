import Mathlib.Data.Set.Monotone
import Synchrony.Proofs.Matching.Completion

/-!
# Relabelling of records

A `Relabelling` gives records new numbers, a new burst and new times. Patterns look at none of these,
and the search uses numbers only to tell records apart and to find those before the trigger. So if
the new numbers keep the order of the records, matching commutes with the relabelling.
-/

namespace Synchrony

/-- New numbers for records, a new name for their burst, and the times that go with new numbers. -/
structure Relabelling where
  number : Nat → Nat
  burst : String
  clock : Nat → Timestamp

/-- The numbers of some records. -/
def numbersOf (records : List Record) : Set Nat := {n | n ∈ records.map (·.seq)}

lemma seq_mem_numbersOf {records : List Record} {r : Record} (h : r ∈ records) :
    r.seq ∈ numbersOf records := List.mem_map_of_mem h

lemma numbersOf_mono {records records' : List Record} (h : ∀ r ∈ records, r ∈ records') :
    numbersOf records ⊆ numbersOf records' := by
  intro n hn
  obtain ⟨r, hr, rfl⟩ := List.mem_map.1 hn
  exact seq_mem_numbersOf (h r hr)

/-- The new numbers keep the order of the records. -/
def Relabelling.KeepsOrder (τ : Relabelling) (records : List Record) : Prop :=
  StrictMonoOn τ.number (numbersOf records)

/-- The record with its new labels. -/
def Record.relabel (τ : Relabelling) (r : Record) : Record :=
  { r with seq := τ.number r.seq, burst := τ.burst, time := τ.clock (τ.number r.seq) }

/-- The match with the new numbers of its records. -/
def Match.relabel (τ : Relabelling) (m : Match) : Match :=
  { m with records := m.records.map τ.number }

variable {τ : Relabelling}

/-! ### Patterns -/

@[simp] lemma Pattern.unify_relabel (p : Pattern) (r : Record) (b : Binding) :
    p.unify (r.relabel τ) b = p.unify r b := rfl

/-! ### The search -/

lemma contains_map_iff {g : Nat → Nat} {s : Set Nat} (hg : Set.InjOn g s) {used : List Nat}
    (hused : ∀ n ∈ used, n ∈ s) {n : Nat} (hn : n ∈ s) :
    (used.map g).contains (g n) = used.contains n := by
  rw [Bool.eq_iff_iff, List.contains_iff_mem, List.contains_iff_mem, List.mem_map]
  constructor
  · rintro ⟨k, hk, heq⟩
    rwa [← hg (hused k hk) hn heq]
  · exact fun hmem => ⟨n, hmem, rfl⟩

lemma findSome?_eq_map {α β γ : Type} {f : α → Option β} {f' : α → Option γ} {g : β → γ}
    {l : List α} (h : ∀ a ∈ l, f' a = (f a).map g) : l.findSome? f' = (l.findSome? f).map g := by
  induction l with
  | nil => rfl
  | cons a rest ih =>
    obtain ⟨ha, hrest⟩ := List.forall_mem_cons.1 h
    rw [List.findSome?_cons, List.findSome?_cons, ha, ih hrest]
    cases f a <;> rfl

namespace Match

variable {accept : Binding → Bool} {s : Set Nat}

/-- The search commutes with new numbers that keep records apart. -/
lemma search_relabel (hτ : Set.InjOn τ.number s) {l : List (Pattern × List Record)}
    {used : List Nat} (hl : ∀ x ∈ l, ∀ r ∈ x.2, r.seq ∈ s) (hused : ∀ n ∈ used, n ∈ s)
    (b : Binding) :
    search accept (l.map fun x => (x.1, x.2.map (Record.relabel τ))) (used.map τ.number) b =
      (search accept l used b).map (Match.relabel τ) := by
  induction l generalizing used b with
  | nil =>
    simp only [List.map_nil, search]
    split <;> rfl
  | cons x rest ih =>
    obtain ⟨pattern, candidates⟩ := x
    obtain ⟨hcandidates, hrest⟩ := List.forall_mem_cons.1 hl
    simp only [List.map_cons, search, List.findSome?_map]
    refine findSome?_eq_map fun r hr => ?_
    have hseq : r.seq ∈ s := hcandidates r hr
    have hcontains : (used.map τ.number).contains (r.relabel τ).seq = used.contains r.seq :=
      contains_map_iff hτ hused hseq
    rw [Function.comp_apply, hcontains, Pattern.unify_relabel]
    split
    · rfl
    cases pattern.unify r b with
    | none => rfl
    | some b₁ =>
      have hrec := ih hrest (List.forall_mem_cons.2 ⟨hseq, hused⟩) b₁
      rw [List.map_cons] at hrec
      change Option.map _ (search accept _ (τ.number r.seq :: _) b₁) = _
      rw [hrec, Option.map_map, Option.map_map]
      rfl

/-- Relabelled records before a relabelled trigger are those before the trigger. -/
lemma filter_lt_relabel {records : List Record} {trigger : Record}
    (hτ : τ.KeepsOrder records) (htrigger : trigger ∈ records) :
    (records.map (Record.relabel τ)).reverse.filter (fun r => r.seq < (trigger.relabel τ).seq) =
      (records.reverse.filter fun r => r.seq < trigger.seq).map (Record.relabel τ) := by
  rw [← List.map_reverse, List.filter_map]
  congr 1
  refine List.filter_congr fun r hr => ?_
  have hlt := hτ.lt_iff_lt (seq_mem_numbersOf (List.mem_reverse.1 hr)) (seq_mem_numbersOf htrigger)
  simp only [Function.comp_apply, Record.relabel, hlt]

/-- The anchored search commutes with new numbers that keep the order of the records. -/
lemma findAnchored?_relabel {patterns : List Pattern} {records : List Record} {i : Nat}
    {trigger : Record} (hτ : τ.KeepsOrder records) (htrigger : trigger ∈ records) :
    findAnchored? patterns (records.map (Record.relabel τ)) i (trigger.relabel τ) accept =
      (findAnchored? patterns records i trigger accept).map (Match.relabel τ) := by
  rw [findAnchored?, findAnchored?]
  split
  · have hpinned : pinned patterns (records.map (Record.relabel τ)) i (trigger.relabel τ) =
        (pinned patterns records i trigger).map fun x =>
          (x.1, x.2.map (Record.relabel τ)) := by
      rw [pinned, pinned, filter_lt_relabel hτ htrigger, List.mapIdx_eq_iff]
      intro j
      rw [List.getElem?_map, List.getElem?_mapIdx, Option.map_map]
      congr 1
      funext p
      dsimp only [Function.comp_apply]
      split <;> rfl
    have hnone : ∀ n ∈ ([] : List Nat), n ∈ numbersOf records := fun n hn => by cases hn
    rw [hpinned]
    refine search_relabel hτ.injOn (fun x hx r hr => ?_) hnone .empty
    obtain ⟨j, hj, rfl⟩ := List.mem_mapIdx.1 hx
    dsimp only at hr
    split at hr
    · rw [List.mem_singleton.1 hr]
      exact seq_mem_numbersOf htrigger
    · exact seq_mem_numbersOf (List.mem_reverse.1 (List.mem_of_mem_filter hr))
  · rfl

end Match

/-! ### Completion -/

/-- Whether and how a record completes a rule does not depend on the labels. -/
lemma Rule.completion_relabel {rule : Rule} {records : List Record} {trigger : Record}
    (hτ : τ.KeepsOrder records) (htrigger : trigger ∈ records) :
    rule.completion (records.map (Record.relabel τ)) (trigger.relabel τ) =
      (rule.completion records trigger).map (Match.relabel τ) :=
  findSome?_eq_map fun _ _ => Match.findAnchored?_relabel hτ htrigger

/-- Which rules a record completes does not depend on the labels. -/
theorem RuleTable.completedBy_relabel (t : RuleTable) {records : List Record} {trigger : Record}
    (hτ : τ.KeepsOrder records) (htrigger : trigger ∈ records) :
    t.completedBy (records.map (Record.relabel τ)) (trigger.relabel τ) =
      (t.completedBy records trigger).map fun x => (x.1, x.2.relabel τ) := by
  rw [completedBy_eq, completedBy_eq, List.map_filterMap]
  congr 1
  funext rule
  rw [Rule.completion_relabel hτ htrigger, Option.map_map, Option.map_map]
  rfl

end Synchrony
