import Mathlib.Data.List.Forall2
import Mathlib.Data.List.Nodup
import Synchrony.Proofs.Matching.Fits
import Synchrony.RuleTable

/-!
# The search for a match

The backtracking search tries every choice of one candidate for each pattern, in the order that
compares the candidates of the first pattern first, and gives the first choice that is admissible
(`search_eq_findSome?`). So it finds a match exactly if there is an admissible choice. For a rule
this says when a new record completes it: `Rule.completion_isSome_iff`.
-/

namespace Synchrony

namespace Match

/-! ### One choice -/

/-- The chosen records fit the patterns under `b`, are different, and `b` is accepted. -/
structure Admits (accept : Binding → Bool) (patterns : List Pattern) (chosen : List Record)
    (b : Binding) : Prop extends Fits patterns chosen b where
  distinct : (chosen.map (·.seq)).Nodup
  accepted : accept b = true

/-- What becomes of one choice of records, when the numbers in `used` are taken already. -/
def judge (accept : Binding → Bool) :
    List Pattern → List Nat → Binding → List Record → Option Match
  | [], _, b, [] => if accept b then some ⟨b, []⟩ else none
  | pattern :: patterns, used, b, r :: rest =>
    if used.contains r.seq then none
    else
      match pattern.unify r b with
      | none => none
      | some b =>
        (judge accept patterns (r.seq :: used) b rest).map fun m => ⟨m.binding, r.seq :: m.records⟩
  | _, _, _, _ => none

lemma judge_sound {accept : Binding → Bool} {patterns : List Pattern} {used : List Nat}
    {b : Binding} {chosen : List Record} {m : Match}
    (h : judge accept patterns used b chosen = some m) :
    List.Forall₂ (fun p r => Pattern.Holds p r m.binding) patterns chosen ∧
      b.Gains (foundBy patterns chosen) m.binding ∧ (chosen.map (·.seq)).Nodup ∧
      (∀ r ∈ chosen, r.seq ∉ used) ∧ accept m.binding = true ∧ m.records = chosen.map (·.seq) := by
  induction patterns generalizing used b chosen m with
  | nil =>
    cases chosen with
    | cons r rest => simp [judge] at h
    | nil =>
      simp only [judge] at h
      split at h
      · rename_i haccept
        cases h
        exact ⟨.nil, Binding.gains_nil_iff.2 rfl, .nil, by simp, haccept, rfl⟩
      · simp at h
  | cons p patterns ih =>
    cases chosen with
    | nil => simp [judge] at h
    | cons r rest =>
      simp only [judge] at h
      split at h
      · simp at h
      rename_i hused
      split at h
      · simp at h
      rename_i b₁ hunify
      obtain ⟨m', hm', rfl⟩ := Option.map_eq_some_iff.1 h
      obtain ⟨hholds, hgain, hnodup, hfree, haccept, hrecords⟩ := ih hm'
      obtain ⟨hp, hgain₁⟩ := Pattern.unify_sound hunify
      refine ⟨.cons (hp.mono hgain) hholds, ?_, ?_, ?_, haccept, by simp [hrecords]⟩
      · simpa [foundBy] using hgain₁.append hgain
      · rw [List.map_cons, List.nodup_cons]
        refine ⟨fun hmem => ?_, hnodup⟩
        obtain ⟨r', hr', heq⟩ := List.mem_map.1 hmem
        exact hfree r' hr' (by simp [heq])
      · intro r' hr'
        rcases List.mem_cons.1 hr' with rfl | hr'
        · simpa using hused
        · exact fun hmem => hfree r' hr' (List.mem_cons_of_mem _ hmem)

lemma judge_complete {accept : Binding → Bool} {patterns : List Pattern} {used : List Nat}
    {b b' : Binding} {chosen : List Record}
    (hholds : List.Forall₂ (fun p r => Pattern.Holds p r b') patterns chosen)
    (hgain : b.Gains (foundBy patterns chosen) b') (hnodup : (chosen.map (·.seq)).Nodup)
    (hfree : ∀ r ∈ chosen, r.seq ∉ used) (haccept : accept b' = true) :
    judge accept patterns used b chosen = some ⟨b', chosen.map (·.seq)⟩ := by
  induction hholds generalizing used b with
  | nil =>
    rw [foundBy, List.zip_nil_left, List.flatMap_nil, Binding.gains_nil_iff] at hgain
    subst hgain
    simp [judge, haccept]
  | @cons p r patterns rest hp hrest ih =>
    obtain ⟨b₁, hunify, hgain₁⟩ := Pattern.exists_unify (l := foundBy patterns rest) hp
      (by simpa [foundBy] using hgain)
    rw [List.map_cons, List.nodup_cons] at hnodup
    have hfree' : ∀ r' ∈ rest, r'.seq ∉ r.seq :: used := by
      intro r' hr' hmem
      rcases List.mem_cons.1 hmem with heq | hmem
      · exact hnodup.1 (heq ▸ List.mem_map_of_mem hr')
      · exact hfree r' (List.mem_cons_of_mem _ hr') hmem
    have hjudge := ih hgain₁ hnodup.2 hfree'
    have hr : r.seq ∉ used := hfree r List.mem_cons_self
    simp [judge, hr, hunify, hjudge]

/-- A choice is judged a match exactly if it is admissible. -/
lemma judge_eq_some_iff {accept : Binding → Bool} {patterns : List Pattern}
    {chosen : List Record} {m : Match} :
    judge accept patterns [] .empty chosen = some m ↔
      Admits accept patterns chosen m.binding ∧ m.records = chosen.map (·.seq) := by
  constructor
  · intro h
    obtain ⟨hholds, hgain, hnodup, -, haccept, hrecords⟩ := judge_sound h
    exact ⟨⟨⟨hholds, Binding.empty_gains_iff.1 hgain⟩, hnodup, haccept⟩, hrecords⟩
  · rintro ⟨h, hrecords⟩
    rw [judge_complete h.holds (Binding.empty_gains_iff.2 h.values) h.distinct (by simp) h.accepted,
      ← hrecords]

/-! ### All choices -/

/-- Every choice of one candidate from each list, those with an earlier first candidate first. -/
def choices {α : Type} : List (List α) → List (List α)
  | [] => [[]]
  | candidates :: rest => candidates.flatMap fun r => (choices rest).map (r :: ·)

lemma mem_choices_iff {α : Type} {candidates : List (List α)} {chosen : List α} :
    chosen ∈ choices candidates ↔ List.Forall₂ (· ∈ ·) chosen candidates := by
  induction candidates generalizing chosen with
  | nil => simp [choices, List.forall₂_nil_right_iff]
  | cons c rest ih =>
    simp only [choices, List.mem_flatMap, List.mem_map, ih]
    constructor
    · rintro ⟨r, hr, chosen, hchosen, rfl⟩
      exact .cons hr hchosen
    · intro h
      cases h with
      | cons hr hchosen => exact ⟨_, hr, _, hchosen, rfl⟩

lemma findSome?_flatMap {α β γ : Type} (f : β → Option γ) (g : α → List β) (l : List α) :
    (l.flatMap g).findSome? f = l.findSome? fun a => (g a).findSome? f := by
  induction l with
  | nil => rfl
  | cons a l ih =>
    rw [List.flatMap_cons, List.findSome?_append, ih, List.findSome?_cons]
    cases (g a).findSome? f <;> rfl

/-- The search gives the first choice that is judged a match. -/
theorem search_eq_findSome? (accept : Binding → Bool) (l : List (Pattern × List Record))
    (used : List Nat) (b : Binding) :
    search accept l used b =
      (choices (l.map (·.2))).findSome? (judge accept (l.map (·.1)) used b) := by
  induction l generalizing used b with
  | nil => simp [search, choices, judge]
  | cons head rest ih =>
    obtain ⟨pattern, candidates⟩ := head
    rw [List.map_cons, List.map_cons, choices, findSome?_flatMap, search]
    congr 1
    funext r
    rw [List.findSome?_map]
    by_cases hused : r.seq ∈ used
    · rw [if_pos (by simpa using hused), eq_comm, List.findSome?_eq_none_iff]
      intro chosen _
      simp [judge, hused]
    · cases hunify : pattern.unify r b with
      | none =>
        rw [if_neg (by simpa using hused), eq_comm, List.findSome?_eq_none_iff]
        intro chosen _
        simp [judge, hunify]
      | some b₁ =>
        simp [judge, hused, hunify, Function.comp_def, ih, List.map_findSome?]

/-- A match that the search gives is an admissible choice of candidates. -/
lemma exists_of_search {accept : Binding → Bool} {l : List (Pattern × List Record)} {m : Match}
    (h : search accept l [] .empty = some m) :
    ∃ chosen, List.Forall₂ (· ∈ ·) chosen (l.map (·.2)) ∧
      Admits accept (l.map (·.1)) chosen m.binding ∧ m.records = chosen.map (·.seq) := by
  rw [search_eq_findSome?] at h
  obtain ⟨chosen, hmem, hjudge⟩ := List.exists_of_findSome?_eq_some h
  exact ⟨chosen, mem_choices_iff.1 hmem, judge_eq_some_iff.1 hjudge⟩

/-- If there is an admissible choice of candidates, the search gives a match. -/
lemma isSome_search {accept : Binding → Bool} {l : List (Pattern × List Record)}
    {chosen : List Record} {b : Binding} (hmem : List.Forall₂ (· ∈ ·) chosen (l.map (·.2)))
    (h : Admits accept (l.map (·.1)) chosen b) : (search accept l [] .empty).isSome = true := by
  rw [search_eq_findSome?, List.findSome?_isSome_iff]
  refine ⟨chosen, mem_choices_iff.2 hmem, ?_⟩
  rw [judge_eq_some_iff (m := ⟨b, chosen.map (·.seq)⟩) |>.2 ⟨h, rfl⟩]
  rfl

/-! ### The anchored search -/

/-- The chosen record at `anchor` is the trigger, and the others are listed and older. -/
def Anchored (records : List Record) (anchor : Nat) (trigger : Record) (chosen : List Record) :
    Prop :=
  ∀ i r, chosen[i]? = some r → if i = anchor then r = trigger else r ∈ records ∧ r.seq < trigger.seq

/-- Around a listed trigger all choices are listed. -/
lemma Anchored.listed {records : List Record} {anchor : Nat} {trigger : Record}
    {chosen : List Record} (h : Anchored records anchor trigger chosen)
    (htrigger : trigger ∈ records) : ∀ r ∈ chosen, r ∈ records := by
  intro r hr
  obtain ⟨i, hi⟩ := List.mem_iff_getElem?.1 hr
  have hget := h i r hi
  split at hget
  · exact hget ▸ htrigger
  · exact hget.1

/-- With increasing numbers all records but the last are older than it. -/
lemma eq_or_lt_of_sorted {records : List Record} {trigger : Record}
    (h : (records ++ [trigger]).Pairwise (·.seq < ·.seq)) :
    ∀ r ∈ records ++ [trigger], r = trigger ∨ r.seq < trigger.seq := by
  intro r hr
  rcases List.mem_append.1 hr with hr | hr
  · exact .inr ((List.pairwise_append.1 h).2.2 r hr trigger List.mem_cons_self)
  · exact .inl (List.mem_singleton.1 hr)

/-- A choice of listed records in which the latest one has a place is one around that place. -/
lemma Admits.anchored {accept : Binding → Bool} {patterns : List Pattern} {records : List Record}
    {trigger : Record} {chosen : List Record} {b : Binding} (h : Admits accept patterns chosen b)
    (hlisted : ∀ r ∈ chosen, r ∈ records) (hlast : ∀ r ∈ records, r = trigger ∨ r.seq < trigger.seq)
    {i : Nat} (hi : chosen[i]? = some trigger) : Anchored records i trigger chosen := by
  intro j r hj
  have hmem := List.mem_of_getElem? hj
  split
  · rename_i heq
    rw [heq, hi, Option.some.injEq] at hj
    exact hj.symm
  · rename_i hne
    refine ⟨hlisted r hmem, (hlast r (hlisted r hmem)).resolve_left fun heq => hne ?_⟩
    -- two places with the trigger's number would be one
    obtain ⟨hjlt, hjget⟩ := List.getElem?_eq_some_iff.1 hj
    obtain ⟨hilt, higet⟩ := List.getElem?_eq_some_iff.1 hi
    have hj' : j < (chosen.map (·.seq)).length := by rwa [List.length_map]
    have hi' : i < (chosen.map (·.seq)).length := by rwa [List.length_map]
    have hseq : (chosen.map (·.seq))[j] = (chosen.map (·.seq))[i] := by
      rw [List.getElem_map, List.getElem_map, hjget, higet, heq]
    exact h.distinct.getElem_inj_iff.1 hseq

lemma forall₂_pinned_iff {patterns : List Pattern} {records : List Record} {anchor : Nat}
    {trigger : Record} {chosen : List Record} :
    List.Forall₂ (· ∈ ·) chosen ((pinned patterns records anchor trigger).map (·.2)) ↔
      chosen.length = patterns.length ∧ Anchored records anchor trigger chosen := by
  have hget (i : Nat) (hi : i < patterns.length) (r : Record) :
      r ∈ (if i = anchor then [trigger] else records.reverse.filter fun r => r.seq < trigger.seq) ↔
        if i = anchor then r = trigger else r ∈ records ∧ r.seq < trigger.seq := by
    split <;> simp
  rw [List.forall₂_iff_get]
  simp only [pinned, List.length_map, List.length_mapIdx, List.get_eq_getElem, List.getElem_map,
    List.getElem_mapIdx]
  constructor
  · rintro ⟨hlen, h⟩
    refine ⟨hlen, fun i r hr => ?_⟩
    obtain ⟨hi, rfl⟩ := List.getElem?_eq_some_iff.1 hr
    exact (hget i (hlen ▸ hi) _).1 (h i hi (hlen ▸ hi))
  · rintro ⟨hlen, h⟩
    exact ⟨hlen, fun i hi hi' => (hget i hi' _).2 (h i _ (List.getElem?_eq_getElem hi))⟩

lemma map_fst_pinned (patterns : List Pattern) (records : List Record) (anchor : Nat)
    (trigger : Record) : (pinned patterns records anchor trigger).map (·.1) = patterns :=
  List.ext_getElem (by simp [pinned]) fun i _ _ => by simp [pinned]

/-- A match that the anchored search gives is an admissible choice around its trigger. -/
lemma exists_of_findAnchored? {patterns : List Pattern} {records : List Record} {anchor : Nat}
    {trigger : Record} {accept : Binding → Bool} {m : Match}
    (h : findAnchored? patterns records anchor trigger accept = some m) :
    ∃ chosen, anchor < chosen.length ∧ Anchored records anchor trigger chosen ∧
      Admits accept patterns chosen m.binding ∧ m.records = chosen.map (·.seq) := by
  rw [findAnchored?] at h
  split at h
  · rename_i hanchor
    obtain ⟨chosen, hmem, hadmits, hrecords⟩ := exists_of_search h
    obtain ⟨hlen, hanchored⟩ := forall₂_pinned_iff.1 hmem
    rw [map_fst_pinned] at hadmits
    exact ⟨chosen, hlen ▸ hanchor, hanchored, hadmits, hrecords⟩
  · simp at h

/-- If there is an admissible choice around the trigger, the anchored search gives a match. -/
lemma isSome_findAnchored? {patterns : List Pattern} {records : List Record} {anchor : Nat}
    {trigger : Record} {accept : Binding → Bool} {chosen : List Record} {b : Binding}
    (hanchor : anchor < chosen.length) (hanchored : Anchored records anchor trigger chosen)
    (h : Admits accept patterns chosen b) :
    (findAnchored? patterns records anchor trigger accept).isSome = true := by
  have hlen : chosen.length = patterns.length := h.holds.length_eq.symm
  rw [findAnchored?, if_pos (hlen ▸ hanchor)]
  refine isSome_search (forall₂_pinned_iff.2 ⟨hlen, hanchored⟩) (b := b) ?_
  rwa [map_fst_pinned]

end Match

end Synchrony
