import Mathlib.Logic.Equiv.Basic
import Synchrony.Proofs.Matching.Anchors
import Synchrony.Proofs.RuleTable.Installed

/-!
# The order of patterns

A search ranges over the choices of records that fit the patterns, each with the binding that it
makes (`Match.reached`), and gives the first whose binding is accepted. If the patterns stand in
another order, the choices are the same up to that order, and their bindings have the same values
(`Match.sameChoices_plain`, `Match.sameChoices_pinned`). Which match comes first may change with the
order, but not whether there is one.
-/

namespace Synchrony

/-! ### Lists in another order -/

/-- Every place of `l'` has what the place that `σ` gives it has in `l`. -/
def Rearranges {α : Type} (σ : Equiv.Perm Nat) (l l' : List α) : Prop := ∀ i, l'[i]? = l[σ i]?

/-- Leaves the first place as it is and lets `σ` act on the others. -/
def keepFirst (σ : Equiv.Perm Nat) : Equiv.Perm Nat where
  toFun
    | 0 => 0
    | i + 1 => σ i + 1
  invFun
    | 0 => 0
    | i + 1 => σ.symm i + 1
  left_inv i := by cases i <;> simp
  right_inv i := by cases i <;> simp

/-- Every permutation of a list moves its places. -/
lemma exists_rearranges {α : Type} {l l' : List α} (h : l.Perm l') : ∃ σ, Rearranges σ l l' := by
  induction h with
  | nil => exact ⟨Equiv.refl _, fun i => rfl⟩
  | cons a _ ih =>
    obtain ⟨σ, hσ⟩ := ih
    refine ⟨keepFirst σ, fun i => ?_⟩
    cases i with
    | zero => rfl
    | succ i => exact hσ i
  | swap a b l =>
    refine ⟨Equiv.swap 0 1, fun i => ?_⟩
    match i with
    | 0 => rfl
    | 1 => rfl
    | i + 2 => rw [Equiv.swap_apply_of_ne_of_ne (by omega) (by omega)]; rfl
  | trans _ _ ih ih' =>
    obtain ⟨σ, hσ⟩ := ih
    obtain ⟨σ', hσ'⟩ := ih'
    exact ⟨σ'.trans σ, fun i => (hσ' i).trans (hσ (σ' i))⟩

/-- Lists are related if at every place they have related things or both nothing. -/
lemma forall₂_iff_getElem? {α β : Type} {R : α → β → Prop} {l : List α} {m : List β} :
    List.Forall₂ R l m ↔ ∀ i : Nat, Option.Rel R l[i]? m[i]? := by
  constructor
  · intro h
    induction h with
    | nil => exact fun i => .none
    | cons hab _ ih =>
      intro i
      cases i with
      | zero => exact .some hab
      | succ i => exact ih i
  · intro h
    induction l generalizing m with
    | nil =>
      cases m with
      | nil => exact .nil
      | cons b m => cases h 0
    | cons a l ih =>
      cases m with
      | nil => cases h 0
      | cons b m =>
        have hab := h 0
        rw [List.getElem?_cons_zero, List.getElem?_cons_zero] at hab
        cases hab with
        | some hab => exact .cons hab (ih fun i => h (i + 1))

namespace Rearranges

variable {α β : Type} {σ : Equiv.Perm Nat} {l l' : List α} {m m' : List β}

lemma symm (h : Rearranges σ l l') : Rearranges σ.symm l' l := by
  intro i
  rw [h, Equiv.apply_symm_apply]

lemma map (h : Rearranges σ l l') (f : α → β) : Rearranges σ (l.map f) (l'.map f) := by
  intro i
  rw [List.getElem?_map, List.getElem?_map, h]

lemma lt_iff (h : Rearranges σ l l') {i : Nat} : i < l'.length ↔ σ i < l.length := by
  rw [← Nat.not_le, ← Nat.not_le, ← List.getElem?_eq_none_iff, ← List.getElem?_eq_none_iff, h]

lemma mem_iff (h : Rearranges σ l l') {a : α} : a ∈ l' ↔ a ∈ l := by
  rw [List.mem_iff_getElem?, List.mem_iff_getElem?]
  constructor
  · rintro ⟨i, hi⟩
    exact ⟨σ i, (h i).symm.trans hi⟩
  · rintro ⟨i, hi⟩
    exact ⟨σ.symm i, by rw [h, Equiv.apply_symm_apply, hi]⟩

lemma nodup (h : Rearranges σ l l') (hl : l.Nodup) : l'.Nodup := by
  rw [List.nodup_iff_getElem?_ne_getElem?]
  intro i j hij hj heq
  rw [h, h] at heq
  have hi : σ i < l.length := h.lt_iff.1 (hij.trans hj)
  exact hij.ne (σ.injective ((List.getElem?_inj hi hl).1 heq))

/-- A list of the same length can be rearranged likewise. -/
lemma exists_of_length_eq (h : Rearranges σ l l') (hlen : m.length = l.length) :
    ∃ m', Rearranges σ m m' := by
  have hlt (i : Fin l'.length) : σ i < m.length := hlen ▸ h.lt_iff.1 i.2
  refine ⟨List.ofFn fun i => m.get ⟨σ i, hlt i⟩, fun i => ?_⟩
  by_cases hi : i < l'.length
  · rw [List.getElem?_ofFn, dif_pos hi, List.getElem?_eq_getElem (hlt ⟨i, hi⟩)]
    rfl
  · rw [List.getElem?_ofFn, dif_neg hi, List.getElem?_eq_none]
    exact hlen ▸ Nat.not_lt.1 fun hlt => hi (h.lt_iff.2 hlt)

/-- Lists that are related place by place stay so if both are rearranged likewise. -/
lemma forall₂ {R : α → β → Prop} (h : Rearranges σ l l') (hm : Rearranges σ m m')
    (hlm : List.Forall₂ R l m) : List.Forall₂ R l' m' := by
  rw [forall₂_iff_getElem?] at hlm ⊢
  intro i
  rw [h, hm]
  exact hlm (σ i)

end Rearranges

/-! ### Equal bindings -/

lemma Value.sameFields_iff {l l' : List (String × Value)} : sameFields l l' = true ↔
    List.Forall₂ (fun e e' => e.1 = e'.1 ∧ e.2.same e'.2 = true) l l' := by
  induction l generalizing l' with
  | nil => cases l' <;> simp [sameFields]
  | cons e l ih =>
    cases l' with
    | nil => simp [sameFields]
    | cons e' l' => simp [sameFields, ih]

lemma KeyMap.rel_find? {α β : Type} {R : α → β → Prop} {l : List (String × α)}
    {l' : List (String × β)} (h : List.Forall₂ (fun e e' => e.1 = e'.1 ∧ R e.2 e'.2) l l')
    (x : String) : Option.Rel R (find? x l) (find? x l') := by
  induction h with
  | nil => exact .none
  | @cons e e' _ _ hee' _ ih =>
    obtain ⟨hkey, hrel⟩ := hee'
    rw [find?, find?, hkey]
    split
    · exact .some hrel
    · exact ih

lemma Binding.same_symm {b b' : Binding} (h : b.same b' = true) : b'.same b = true :=
  Value.sameFields_symm h

/-- Bindings are equal if they have the same variables with the same values. -/
lemma Binding.same_iff_agrees {b b' : Binding} : b.same b' = true ↔ b.Agrees b' := by
  rw [KeyMap.same, Value.sameFields_iff]
  refine ⟨fun h x => KeyMap.rel_find? h x, fun h => ?_⟩
  have hkeys : b.keys = b'.keys := by
    refine KeyMap.keys_eq_of_contains fun x => ?_
    have hx := h x
    rw [KeyMap.contains, KeyMap.contains]
    generalize b.get? x = v at hx ⊢
    generalize b'.get? x = v' at hx ⊢
    cases hx <;> simp
  have hlen : b.entries.length = b'.entries.length := by
    simpa [KeyMap.keys] using congrArg List.length hkeys
  refine List.forall₂_iff_get.2 ⟨hlen, fun i hi hi' => ?_⟩
  have hkey : b.entries[i].1 = b'.entries[i].1 := by
    simpa [KeyMap.keys, hi, hi'] using congrArg (·[i]?) hkeys
  have hget : b.get? b.entries[i].1 = some b.entries[i].2 :=
    KeyMap.mem_entries_iff.1 (List.getElem_mem hi)
  have hget' : b'.get? b'.entries[i].1 = some b'.entries[i].2 :=
    KeyMap.mem_entries_iff.1 (List.getElem_mem hi')
  have hrel := h b.entries[i].1
  rw [hget, hkey, hget'] at hrel
  cases hrel with
  | some hsame => exact ⟨hkey, hsame⟩

namespace Match

/-! ### What a search ranges over -/

/-- The choices that a search comes to, in its order, with the bindings that they make. -/
def reached : List (Pattern × List Record) → List Nat → Binding → List (List Record × Binding)
  | [], _, b => [([], b)]
  | (pattern, candidates) :: rest, used, b =>
    candidates.flatMap fun record =>
      if used.contains record.seq then []
      else
        match pattern.unify record b with
        | none => []
        | some b => (reached rest (record.seq :: used) b).map fun x => (record :: x.1, x.2)

variable {accept : Binding → Bool} {patterns patterns' : List Pattern}
  {chosen chosen' records : List Record} {b b' : Binding} {σ : Equiv.Perm Nat}

/-- The search gives the first choice it comes to whose binding is accepted. -/
lemma search_eq_findSome?_reached (l : List (Pattern × List Record)) (used : List Nat)
    (b : Binding) : search accept l used b = (reached l used b).findSome? fun x =>
      if accept x.2 then some ⟨x.2, x.1.map (·.seq)⟩ else none := by
  induction l generalizing used b with
  | nil => simp [search, reached]
  | cons head rest ih =>
    obtain ⟨pattern, candidates⟩ := head
    rw [search, reached, findSome?_flatMap]
    congr 1
    funext record
    split
    · rfl
    · cases pattern.unify record b with
      | none => rfl
      | some b₁ => simp [ih, List.findSome?_map, List.map_findSome?, Function.comp_def]

lemma isSome_search_iff {l : List (Pattern × List Record)} {used : List Nat} :
    (search accept l used b).isSome = true ↔ ∃ x ∈ reached l used b, accept x.2 = true := by
  rw [search_eq_findSome?_reached, List.findSome?_isSome_iff]
  refine exists_congr fun x => and_congr_right fun _ => ?_
  split <;> simp_all

/-- A choice is come to if it is one of the candidates and judged a match when all is accepted. -/
lemma mem_reached_iff_judge {l : List (Pattern × List Record)} {used : List Nat} :
    (chosen, b') ∈ reached l used b ↔ List.Forall₂ (· ∈ ·) chosen (l.map (·.2)) ∧
      judge (fun _ => true) (l.map (·.1)) used b chosen = some ⟨b', chosen.map (·.seq)⟩ := by
  induction l generalizing used b chosen with
  | nil => cases chosen <;> simp [reached, judge, eq_comm]
  | cons head rest ih =>
    obtain ⟨pattern, candidates⟩ := head
    cases chosen with
    | nil =>
      simp only [reached, List.mem_flatMap, List.map_cons, judge, reduceCtorEq, and_false,
        iff_false, not_exists, not_and]
      intro record _
      split
      · simp
      · split <;> simp
    | cons record chosen =>
      rw [List.map_cons, List.map_cons, List.forall₂_cons, judge, reached, List.mem_flatMap]
      constructor
      · rintro ⟨record', hmem, hreached⟩
        split at hreached
        · cases hreached
        rename_i hused
        split at hreached
        · cases hreached
        rename_i b₁ hunify
        obtain ⟨x, hx, heq⟩ := List.mem_map.1 hreached
        cases heq
        obtain ⟨hrest, hjudge⟩ := ih.1 hx
        rw [if_neg hused, hunify]
        simp [hmem, hrest, hjudge]
      · rintro ⟨⟨hmem, hrest⟩, hjudge⟩
        refine ⟨record, hmem, ?_⟩
        split at hjudge
        · cases hjudge
        rename_i hused
        split at hjudge
        · cases hjudge
        rename_i b₁ hunify
        obtain ⟨m, hm, heq⟩ := Option.map_eq_some_iff.1 hjudge
        rw [if_neg hused, hunify]
        refine List.mem_map.2 ⟨(chosen, b'), ih.2 ⟨hrest, ?_⟩, rfl⟩
        cases m
        simp_all

lemma mem_reached_iff {l : List (Pattern × List Record)} : (chosen, b) ∈ reached l [] .empty ↔
    List.Forall₂ (· ∈ ·) chosen (l.map (·.2)) ∧
      Admits (fun _ => true) (l.map (·.1)) chosen b := by
  rw [mem_reached_iff_judge, judge_eq_some_iff, and_iff_left rfl]

/-- The choices that the plain search ranges over. -/
def choicesAmong (patterns : List Pattern) (records : List Record) :
    List (List Record × Binding) :=
  if patterns.isEmpty then [] else reached (patterns.map fun p => (p, records.reverse)) [] .empty

/-- The choices that the search around a trigger ranges over. -/
def choicesAround (patterns : List Pattern) (records : List Record) (anchor : Nat)
    (trigger : Record) : List (List Record × Binding) :=
  if anchor < patterns.length then reached (pinned patterns records anchor trigger) [] .empty
  else []

lemma isSome_find?_iff : (find? patterns records accept).isSome = true ↔
    ∃ x ∈ choicesAmong patterns records, accept x.2 = true := by
  rw [find?, choicesAmong]
  split
  · simp
  · exact isSome_search_iff

lemma isSome_findAnchored?_iff {anchor : Nat} {trigger : Record} :
    (findAnchored? patterns records anchor trigger accept).isSome = true ↔
      ∃ x ∈ choicesAround patterns records anchor trigger, accept x.2 = true := by
  rw [findAnchored?, choicesAround]
  split
  · exact isSome_search_iff
  · simp

lemma mem_choicesAmong_iff : (chosen, b) ∈ choicesAmong patterns records ↔
    patterns ≠ [] ∧ Plain records chosen ∧ Admits (fun _ => true) patterns chosen b := by
  rw [choicesAmong]
  split
  · simp_all
  · rename_i hne
    have hpatterns : (patterns.map fun p => (p, records.reverse)).map (·.1) = patterns := by
      simp [Function.comp_def]
    rw [mem_reached_iff, forall₂_plain_iff, hpatterns]
    constructor
    · rintro ⟨⟨-, hplain⟩, hadmits⟩
      exact ⟨by simpa using hne, hplain, hadmits⟩
    · rintro ⟨-, hplain, hadmits⟩
      exact ⟨⟨hadmits.holds.length_eq.symm, hplain⟩, hadmits⟩

lemma mem_choicesAround_iff {anchor : Nat} {trigger : Record} :
    (chosen, b) ∈ choicesAround patterns records anchor trigger ↔ anchor < patterns.length ∧
      Anchored records anchor trigger chosen ∧ Admits (fun _ => true) patterns chosen b := by
  rw [choicesAround]
  split
  · rename_i hanchor
    rw [mem_reached_iff, forall₂_pinned_iff, map_fst_pinned]
    constructor
    · rintro ⟨⟨-, hanchored⟩, hadmits⟩
      exact ⟨hanchor, hanchored, hadmits⟩
    · rintro ⟨-, hanchored, hadmits⟩
      exact ⟨⟨hadmits.holds.length_eq.symm, hanchored⟩, hadmits⟩
  · simp_all

/-! ### Patterns in another order -/

/-- The same choices, each rearranged by `σ`, with equal bindings. -/
structure SameChoices (σ : Equiv.Perm Nat) (l l' : List (List Record × Binding)) : Prop where
  forth : ∀ x ∈ l, ∃ x' ∈ l', Rearranges σ x.1 x'.1 ∧ x.2.same x'.2 = true
  back : ∀ x' ∈ l', ∃ x ∈ l, Rearranges σ x.1 x'.1 ∧ x.2.same x'.2 = true

lemma SameChoices.exists_accepted_iff {l l' : List (List Record × Binding)}
    (h : SameChoices σ l l') (haccept : ∀ b b' : Binding, b.same b' = true → accept b = accept b') :
    (∃ x' ∈ l', accept x'.2 = true) ↔ ∃ x ∈ l, accept x.2 = true := by
  constructor
  · rintro ⟨x', hx', haccepted⟩
    obtain ⟨x, hx, -, hsame⟩ := h.back x' hx'
    exact ⟨x, hx, (haccept _ _ hsame).trans haccepted⟩
  · rintro ⟨x, hx, haccepted⟩
    obtain ⟨x', hx', -, hsame⟩ := h.forth x hx
    exact ⟨x', hx', (haccept _ _ hsame).symm.trans haccepted⟩

section Rearranged

variable (hσ : Rearranges σ patterns patterns')

include hσ

/-- The records that fit the patterns, rearranged likewise, fit them in the other order. -/
lemma exists_admits_of_rearranges (hchosen : Rearranges σ chosen chosen')
    (h : Admits (fun _ => true) patterns chosen b) :
    ∃ b', Admits (fun _ => true) patterns' chosen' b' ∧ b.same b' = true := by
  have hholds : List.Forall₂ (fun p r => Pattern.Holds p r b) patterns' chosen' :=
    hσ.forall₂ hchosen h.holds
  have hvars : ∀ x, (b.get? x).isSome = true ↔ x ∈ patterns'.flatMap Pattern.vars := by
    intro x
    rw [h.toFits.isSome_get?_iff, List.mem_flatMap, List.mem_flatMap]
    exact exists_congr fun p => and_congr_left fun _ => hσ.mem_iff.symm
  obtain ⟨b', hfits, hagrees⟩ := exists_fits hholds hvars
  have hdistinct : (chosen'.map (·.seq)).Nodup := (hchosen.map _).nodup h.distinct
  exact ⟨b', ⟨hfits, hdistinct, rfl⟩, Binding.same_symm (Binding.same_iff_agrees.2 hagrees)⟩

lemma exists_mem_choicesAmong (h : (chosen, b) ∈ choicesAmong patterns records) :
    ∃ x' ∈ choicesAmong patterns' records, Rearranges σ chosen x'.1 ∧ b.same x'.2 = true := by
  obtain ⟨hne, hplain, hadmits⟩ := mem_choicesAmong_iff.1 h
  obtain ⟨chosen', hchosen⟩ := hσ.exists_of_length_eq hadmits.holds.length_eq.symm
  obtain ⟨b', hadmits', hsame⟩ := exists_admits_of_rearranges hσ hchosen hadmits
  refine ⟨(chosen', b'), mem_choicesAmong_iff.2 ⟨?_, ?_, hadmits'⟩, hchosen, hsame⟩
  · obtain ⟨p, hp⟩ := List.exists_mem_of_ne_nil _ hne
    exact List.ne_nil_of_mem (hσ.mem_iff.2 hp)
  · exact fun r hr => hplain r (hchosen.mem_iff.1 hr)

lemma exists_mem_choicesAround {anchor : Nat} {trigger : Record}
    (h : (chosen, b) ∈ choicesAround patterns records anchor trigger) :
    ∃ x' ∈ choicesAround patterns' records (σ.symm anchor) trigger,
      Rearranges σ chosen x'.1 ∧ b.same x'.2 = true := by
  obtain ⟨hanchor, hanchored, hadmits⟩ := mem_choicesAround_iff.1 h
  obtain ⟨chosen', hchosen⟩ := hσ.exists_of_length_eq hadmits.holds.length_eq.symm
  obtain ⟨b', hadmits', hsame⟩ := exists_admits_of_rearranges hσ hchosen hadmits
  refine ⟨(chosen', b'), mem_choicesAround_iff.2 ⟨?_, ?_, hadmits'⟩, hchosen, hsame⟩
  · rw [hσ.lt_iff, Equiv.apply_symm_apply]
    exact hanchor
  · intro i r hr
    have hget := hanchored (σ i) r ((hchosen i).symm.trans hr)
    simpa only [Equiv.eq_symm_apply] using hget

/-- The plain search ranges over the same choices. -/
lemma sameChoices_plain :
    SameChoices σ (choicesAmong patterns records) (choicesAmong patterns' records) := by
  refine ⟨fun x hx => exists_mem_choicesAmong hσ hx, fun x' hx' => ?_⟩
  obtain ⟨x, hx, hchosen, hsame⟩ := exists_mem_choicesAmong hσ.symm hx'
  exact ⟨x, hx, hchosen.symm, Binding.same_symm hsame⟩

/-- The search around a trigger ranges over the same choices if the anchor moves with its pattern. -/
lemma sameChoices_pinned (anchor : Nat) (trigger : Record) :
    SameChoices σ (choicesAround patterns records anchor trigger)
      (choicesAround patterns' records (σ.symm anchor) trigger) := by
  refine ⟨fun x hx => exists_mem_choicesAround hσ hx, fun x' hx' => ?_⟩
  obtain ⟨x, hx, hchosen, hsame⟩ := exists_mem_choicesAround hσ.symm hx'
  rw [Equiv.symm_symm, Equiv.apply_symm_apply] at hx
  exact ⟨x, hx, hchosen.symm, Binding.same_symm hsame⟩

end Rearranged

/--
For a filter that does not tell equal bindings apart, the order of the patterns does not decide whether
there is a match, in the plain search and, if the anchor moves with its pattern, around a trigger. In
every order the searches range over the same choices of one record for each pattern, with the same
bindings.
-/
theorem isSome_iff_of_perm (hperm : patterns.Perm patterns')
    (haccept : ∀ b b' : Binding, b.same b' = true → accept b = accept b') :
    (∀ records, (find? patterns' records accept).isSome = true ↔
      (find? patterns records accept).isSome = true) ∧
    (∃ σ, Rearranges σ patterns patterns') ∧ ∀ σ, Rearranges σ patterns patterns' →
      ∀ records : List Record,
        SameChoices σ (choicesAmong patterns records) (choicesAmong patterns' records) ∧
        ∀ anchor trigger,
          ((findAnchored? patterns' records (σ.symm anchor) trigger accept).isSome = true ↔
            (findAnchored? patterns records anchor trigger accept).isSome = true) ∧
          SameChoices σ (choicesAround patterns records anchor trigger)
            (choicesAround patterns' records (σ.symm anchor) trigger) := by
  obtain ⟨σ, hσ⟩ := exists_rearranges hperm
  refine ⟨fun records => ?_, ⟨σ, hσ⟩, fun σ hσ records => ⟨sameChoices_plain hσ,
    fun anchor trigger => ⟨?_, sameChoices_pinned hσ anchor trigger⟩⟩⟩
  · rw [isSome_find?_iff, isSome_find?_iff]
    exact (sameChoices_plain hσ).exists_accepted_iff haccept
  · rw [isSome_findAnchored?_iff, isSome_findAnchored?_iff]
    exact (sameChoices_pinned hσ anchor trigger).exists_accepted_iff haccept

theorem isSome_iff_of_perm_bells :
    Bells.both.conditions.Perm Bells.both.conditions.reverse ∧
      (∀ b b' : Binding, b.same b' = true → Bells.both.accepts b = Bells.both.accepts b') ∧
      (find? Bells.both.conditions.reverse Bells.report.records Bells.both.accepts).isSome = true ∧
      ∃ x ∈ choicesAmong Bells.both.conditions.reverse Bells.report.records,
        x.1.map (·.seq) = [4, 1] := by
  have hperm : Bells.both.conditions.Perm Bells.both.conditions.reverse :=
    (List.reverse_perm _).symm
  have haccept : ∀ b b' : Binding, b.same b' = true →
      Bells.both.accepts b = Bells.both.accepts b' := fun _ _ _ => rfl
  have h := isSome_iff_of_perm hperm haccept
  exact ⟨hperm, haccept, (h.1 Bells.report.records).2 rfl, _, .head _, rfl⟩

end Match

end Synchrony
