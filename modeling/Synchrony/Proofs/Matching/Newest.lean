import Synchrony.Proofs.Matching.Search

/-!
# The match that is found first

A choice takes one place for each pattern, and the record that stands there. Choices are compared at
the first pattern for which their places differ, and the one with the later place comes first
(`Match.Newer`). Both searches give the match of the admissible choice that comes before all others
(`Match.IsNewest`), and they give one whenever there is an admissible choice.
-/

namespace Synchrony

namespace Match

/-! ### Choices by their places -/

/-- Where the places first differ, those on the left are the later ones. -/
def Newer (places places' : List Nat) : Prop := List.Lex (fun p q => q < p) places places'

/-- Any pattern may take the record at any place. -/
def Listed (records : List Record) (_pattern place : Nat) (r : Record) : Prop :=
  records[place]? = some r

/--
The pattern at `anchor` takes the trigger, whose place is the end of the list, whether it is listed or
not. Any other pattern may take the record at any place that is not newer and not the trigger's.
-/
def Around (records : List Record) (anchor : Nat) (trigger : Record) (pattern place : Nat)
    (r : Record) : Prop :=
  if pattern = anchor then place = records.length ∧ r = trigger
  else records[place]? = some r ∧ r.seq ≤ trigger.seq ∧ r.seq ≠ trigger.seq

/--
The chosen records stand at these places as candidates of their patterns, and they are admitted under
a binding that binds exactly the variables of the patterns.
-/
structure Admissible (candidate : Nat → Nat → Record → Prop) (accept : Binding → Bool)
    (patterns : List Pattern) (places : List Nat) (chosen : List Record) (b : Binding) : Prop
    extends Admits accept patterns chosen b where
  length_eq : places.length = chosen.length
  candidate : ∀ i p r, places[i]? = some p → chosen[i]? = some r → candidate i p r
  vars : ∀ x, (b.get? x).isSome = true ↔ x ∈ patterns.flatMap Pattern.vars

/-- The match is that of an admissible choice which comes before all others. -/
def IsNewest (candidate : Nat → Nat → Record → Prop) (accept : Binding → Bool)
    (patterns : List Pattern) (m : Match) : Prop :=
  ∃ places chosen, Admissible candidate accept patterns places chosen m.binding ∧
    m.records = chosen.map (·.seq) ∧
    ∀ places' chosen' b', Admissible candidate accept patterns places' chosen' b' →
      places' = places ∨ Newer places places'

variable {candidate : Nat → Nat → Record → Prop} {accept : Binding → Bool}
  {patterns : List Pattern} {chosen : List Record} {m m' : Match}

/-- Of two lists each comes first only if they are the same. -/
lemma eq_of_lex_or {α : Type} {R : α → α → Prop} (hR : ∀ {a b}, R a b → ¬ R b a) {l l' : List α}
    (h : l' = l ∨ List.Lex R l l') (h' : l = l' ∨ List.Lex R l' l) : l = l' := by
  rcases h with heq | hlex
  · exact heq.symm
  · exact h'.resolve_right (List.lex_asymm hR hlex)

/-- The records of a choice determine its binding. -/
lemma Admits.binding_unique {b b' : Binding} (h : Admits accept patterns chosen b)
    (h' : Admits accept patterns chosen b') : b = b' :=
  KeyMap.ext_get? fun x => (h.values x).trans (h'.values x).symm

/-- There is one match at most that comes first. -/
lemma IsNewest.unique (hone : ∀ i p r r', candidate i p r → candidate i p r' → r = r')
    (h : IsNewest candidate accept patterns m) (h' : IsNewest candidate accept patterns m') :
    m = m' := by
  obtain ⟨places, chosen, hadmissible, hrecords, hfirst⟩ := h
  obtain ⟨places', chosen', hadmissible', hrecords', hfirst'⟩ := h'
  have hplaces : places = places' :=
    eq_of_lex_or Nat.lt_asymm (hfirst _ _ _ hadmissible') (hfirst' _ _ _ hadmissible)
  subst hplaces
  have hchosen : chosen = chosen' := by
    refine List.ext_getElem (hadmissible.length_eq.symm.trans hadmissible'.length_eq) ?_
    intro i hi hi'
    have hp : i < places.length := hadmissible.length_eq ▸ hi
    exact hone i places[i] _ _
      (hadmissible.candidate i _ _ (List.getElem?_eq_getElem hp) (List.getElem?_eq_getElem hi))
      (hadmissible'.candidate i _ _ (List.getElem?_eq_getElem hp) (List.getElem?_eq_getElem hi'))
  subst hchosen
  have hbinding := hadmissible.toAdmits.binding_unique hadmissible'.toAdmits
  cases m
  cases m'
  simp_all

/-! ### The order in which choices are tried -/

lemma choices_map {α β : Type} (f : α → β) (l : List (List α)) :
    choices (l.map (·.map f)) = (choices l).map (·.map f) := by
  induction l with
  | nil => rfl
  | cons c rest ih =>
    simp [choices, ih, List.flatMap_map, List.map_flatMap, Function.comp_def]

/-- Choices from ordered lists are tried in the order that compares the first choice first. -/
lemma pairwise_choices {α : Type} {R : α → α → Prop} {l : List (List α)}
    (h : ∀ c ∈ l, c.Pairwise R) : (choices l).Pairwise (List.Lex R) := by
  induction l with
  | nil => exact List.pairwise_singleton _ _
  | cons c rest ih =>
    rw [choices, List.pairwise_flatMap]
    constructor
    · intro r _
      refine List.pairwise_map.2 ((ih fun c' hc' => h c' (List.mem_cons_of_mem _ hc')).imp ?_)
      exact .cons
    · refine (h c List.mem_cons_self).imp fun {r r'} hr x hx y hy => ?_
      obtain ⟨x, -, rfl⟩ := List.mem_map.1 hx
      obtain ⟨y, -, rfl⟩ := List.mem_map.1 hy
      exact .rel hr

/-- What is found in an ordered list is found at an element that comes before all others. -/
lemma exists_first_of_findSome? {α β : Type} {R : α → α → Prop} {l : List α} (h : l.Pairwise R)
    {f : α → Option β} {b : β} (hfind : l.findSome? f = some b) :
    ∃ a ∈ l, f a = some b ∧ ∀ a' ∈ l, (f a').isSome = true → a' = a ∨ R a a' := by
  obtain ⟨before, a, after, rfl, ha, hnone⟩ := List.findSome?_eq_some_iff.1 hfind
  refine ⟨a, by simp, ha, fun a' hmem hsome => ?_⟩
  rcases List.mem_append.1 hmem with hbefore | hmem
  · rw [hnone a' hbefore] at hsome
    cases hsome
  · rcases List.mem_cons.1 hmem with heq | hafter
    · exact .inl heq
    · exact .inr ((List.pairwise_cons.1 (List.pairwise_append.1 h).2.1).1 a' hafter)

lemma newer_of_lex {a a' : List (Record × Nat)} (h : List.Lex (fun x y => y.2 < x.2) a a') :
    Newer (a.map Prod.snd) (a'.map Prod.snd) := by
  induction h with
  | nil => exact .nil
  | cons _ ih => exact .cons ih
  | rel h => exact .rel h

/-! ### Searches over ranked candidates -/

/-- For each pattern its candidates with their places, the later places first. -/
structure Ranks (candidate : Nat → Nat → Record → Prop) (ranked : Nat → List (Record × Nat)) :
    Prop where
  mem_iff : ∀ i p r, (r, p) ∈ ranked i ↔ candidate i p r
  sorted : ∀ i, (ranked i).Pairwise fun x y => y.2 < x.2
  unique : ∀ i p r r', candidate i p r → candidate i p r' → r = r'

/-- The patterns with their candidates, as the search takes them. -/
def offered (patterns : List Pattern) (ranked : Nat → List (Record × Nat)) :
    List (Pattern × List Record) :=
  patterns.mapIdx fun i p => (p, (ranked i).map Prod.fst)

section Ranked

variable {ranked : Nat → List (Record × Nat)}

@[simp] lemma map_fst_offered : (offered patterns ranked).map (·.1) = patterns :=
  List.ext_getElem (by simp [offered]) fun i _ _ => by simp [offered]

lemma map_snd_offered : (offered patterns ranked).map (·.2) =
    (patterns.mapIdx fun i _ => ranked i).map (·.map Prod.fst) :=
  List.ext_getElem (by simp [offered]) fun i _ _ => by simp [offered]

lemma mem_choices_mapIdx_iff {choice : List (Record × Nat)} :
    choice ∈ choices (patterns.mapIdx fun i _ => ranked i) ↔
      choice.length = patterns.length ∧ ∀ i x, choice[i]? = some x → x ∈ ranked i := by
  rw [mem_choices_iff, List.forall₂_iff_get]
  simp only [List.length_mapIdx, List.get_eq_getElem, List.getElem_mapIdx]
  refine and_congr_right fun hlen => ?_
  constructor
  · intro h i x hx
    obtain ⟨hi, rfl⟩ := List.getElem?_eq_some_iff.1 hx
    exact h i hi (hlen ▸ hi)
  · exact fun h i hi _ => h i _ (List.getElem?_eq_getElem hi)

/-- A choice with its places is one of those that are tried. -/
lemma Admissible.zip_mem {places : List Nat} {b : Binding} (hranks : Ranks candidate ranked)
    (h : Admissible candidate accept patterns places chosen b) :
    chosen.zip places ∈ choices (patterns.mapIdx fun i _ => ranked i) := by
  refine mem_choices_mapIdx_iff.2 ⟨?_, fun i x hx => ?_⟩
  · rw [List.length_zip, h.length_eq, Nat.min_self, ← h.holds.length_eq]
  · obtain ⟨r, p⟩ := x
    obtain ⟨hr, hp⟩ := List.getElem?_zip_eq_some.1 hx
    exact (hranks.mem_iff i p r).2 (h.candidate i p r hp hr)

lemma isNewest_of_search (hranks : Ranks candidate ranked)
    (h : search accept (offered patterns ranked) [] .empty = some m) :
    IsNewest candidate accept patterns m := by
  rw [search_eq_findSome?, map_fst_offered, map_snd_offered, choices_map, List.findSome?_map] at h
  have hsorted : ∀ c ∈ patterns.mapIdx fun i _ => ranked i,
      c.Pairwise fun x y => y.2 < x.2 := by
    intro c hc
    obtain ⟨i, -, rfl⟩ := List.mem_mapIdx.1 hc
    exact hranks.sorted i
  obtain ⟨choice, hmem, hjudge, hfirst⟩ := exists_first_of_findSome? (pairwise_choices hsorted) h
  obtain ⟨hadmits, hrecords⟩ := judge_eq_some_iff.1 hjudge
  refine ⟨choice.map Prod.snd, choice.map Prod.fst,
    ⟨hadmits, by simp, fun i p r hp hr => ?_, fun x => hadmits.isSome_get?_iff⟩, hrecords,
    fun places' chosen' b' h' => ?_⟩
  · rw [List.getElem?_map, Option.map_eq_some_iff] at hp hr
    obtain ⟨x, hx, rfl⟩ := hp
    obtain ⟨y, hy, rfl⟩ := hr
    cases hx.symm.trans hy
    exact (hranks.mem_iff i x.2 x.1).1 ((mem_choices_mapIdx_iff.1 hmem).2 i x hx)
  · have hfst : (chosen'.zip places').map Prod.fst = chosen' :=
      List.map_fst_zip (Nat.le_of_eq h'.length_eq.symm)
    have hsnd : (chosen'.zip places').map Prod.snd = places' :=
      List.map_snd_zip (Nat.le_of_eq h'.length_eq)
    have hsome : judge accept patterns [] .empty chosen' = some ⟨b', chosen'.map (·.seq)⟩ :=
      judge_eq_some_iff.2 ⟨h'.toAdmits, rfl⟩
    rcases hfirst _ (h'.zip_mem hranks) (by simp [hfst, hsome]) with heq | hlex
    · exact .inl (by rw [← heq, hsnd])
    · exact .inr (hsnd ▸ newer_of_lex hlex)

lemma isSome_search_offered_iff (hranks : Ranks candidate ranked) :
    (search accept (offered patterns ranked) [] .empty).isSome = true ↔
      ∃ places chosen b, Admissible candidate accept patterns places chosen b := by
  constructor
  · intro h
    obtain ⟨m, hm⟩ := Option.isSome_iff_exists.1 h
    obtain ⟨places, chosen, hadmissible, -⟩ := isNewest_of_search hranks hm
    exact ⟨places, chosen, m.binding, hadmissible⟩
  · rintro ⟨places, chosen, b, h⟩
    have hmem : List.Forall₂ (· ∈ ·) chosen ((offered patterns ranked).map (·.2)) := by
      rw [← mem_choices_iff, map_snd_offered, choices_map]
      refine List.mem_map.2 ⟨chosen.zip places, h.zip_mem hranks, ?_⟩
      exact List.map_fst_zip (Nat.le_of_eq h.length_eq.symm)
    refine isSome_search hmem (b := b) ?_
    rw [map_fst_offered]
    exact h.toAdmits

/-- A search over ranked candidates gives the match that comes first. -/
lemma search_offered_eq_some_iff (hranks : Ranks candidate ranked) :
    search accept (offered patterns ranked) [] .empty = some m ↔
      IsNewest candidate accept patterns m := by
  refine ⟨isNewest_of_search hranks, fun h => ?_⟩
  obtain ⟨places, chosen, hadmissible, -⟩ := id h
  obtain ⟨m', hm'⟩ := Option.isSome_iff_exists.1
    ((isSome_search_offered_iff hranks).2 ⟨places, chosen, m.binding, hadmissible⟩)
  rw [hm', (isNewest_of_search hranks hm').unique hranks.unique h]

end Ranked

/-! ### The two searches -/

/-- The records of a list with their places, from its end on. -/
def fromEnd (records : List Record) : List (Record × Nat) := records.zipIdx.reverse

lemma mem_fromEnd_iff {records : List Record} {r : Record} {p : Nat} :
    (r, p) ∈ fromEnd records ↔ records[p]? = some r := by
  rw [fromEnd, List.mem_reverse, List.mem_zipIdx_iff_getElem?]

lemma pairwise_fromEnd (records : List Record) :
    (fromEnd records).Pairwise fun x y => y.2 < x.2 := by
  rw [fromEnd, List.pairwise_reverse, ← List.pairwise_map (f := Prod.snd), List.zipIdx_map_snd]
  exact List.pairwise_lt_range' 1

lemma map_fst_fromEnd (records : List Record) :
    (fromEnd records).map Prod.fst = records.reverse := by
  rw [fromEnd, List.map_reverse, List.zipIdx_map_fst]

lemma ranks_listed (records : List Record) : Ranks (Listed records) fun _ => fromEnd records :=
  ⟨fun _ _ _ => mem_fromEnd_iff, fun _ => pairwise_fromEnd records,
    fun _ _ _ _ hr hr' => Option.some.inj (hr.symm.trans hr')⟩

/-- The candidates around a trigger with their places. -/
def olderFromEnd (records : List Record) (anchor : Nat) (trigger : Record) (i : Nat) :
    List (Record × Nat) :=
  if i = anchor then [(trigger, records.length)]
  else (fromEnd records).filter fun x => x.1.seq < trigger.seq

lemma ranks_around (records : List Record) (anchor : Nat) (trigger : Record) :
    Ranks (Around records anchor trigger) (olderFromEnd records anchor trigger) := by
  refine ⟨fun i p r => ?_, fun i => ?_, fun i p r r' hr hr' => ?_⟩
  · unfold olderFromEnd Around
    split
    · simp [and_comm]
    · simp [mem_fromEnd_iff, Nat.lt_iff_le_and_ne]
  · unfold olderFromEnd
    split
    · exact List.pairwise_singleton _ _
    · exact (pairwise_fromEnd records).filter _
  · unfold Around at hr hr'
    split at hr
    · rename_i heq
      rw [if_pos heq] at hr'
      rw [hr.2, hr'.2]
    · rename_i hne
      rw [if_neg hne] at hr'
      exact Option.some.inj (hr.1.symm.trans hr'.1)

lemma pinned_eq_offered (patterns : List Pattern) (records : List Record) (anchor : Nat)
    (trigger : Record) : pinned patterns records anchor trigger =
      offered patterns (olderFromEnd records anchor trigger) := by
  have holder : ((fromEnd records).filter fun x => x.1.seq < trigger.seq).map Prod.fst =
      records.reverse.filter fun r => r.seq < trigger.seq := by
    rw [← map_fst_fromEnd, List.filter_map]
    rfl
  simp only [pinned, offered, olderFromEnd]
  congr 1
  funext i p
  split
  · rfl
  · rw [holder]

lemma map_eq_offered (patterns : List Pattern) (records : List Record) :
    (patterns.map fun p => (p, records.reverse)) = offered patterns fun _ => fromEnd records :=
  List.ext_getElem (by simp [offered]) fun i _ _ => by simp [offered, map_fst_fromEnd]

/-- The anchored search gives the match that comes first around the trigger. -/
lemma findAnchored?_eq_some_iff {records : List Record} {anchor : Nat} {trigger : Record} :
    findAnchored? patterns records anchor trigger accept = some m ↔
      anchor < patterns.length ∧ IsNewest (Around records anchor trigger) accept patterns m := by
  rw [← search_offered_eq_some_iff (ranks_around records anchor trigger), ← pinned_eq_offered,
    findAnchored?]
  by_cases hanchor : anchor < patterns.length <;> simp [hanchor]

/-- The plain search gives the match that comes first among all, if there are patterns at all. -/
lemma find?_eq_some_iff {records : List Record} :
    find? patterns records accept = some m ↔
      patterns ≠ [] ∧ IsNewest (Listed records) accept patterns m := by
  rw [← search_offered_eq_some_iff (ranks_listed records), ← map_eq_offered, find?]
  cases patterns <;> simp

lemma findAnchored?_isSome_iff {records : List Record} {anchor : Nat} {trigger : Record} :
    (findAnchored? patterns records anchor trigger accept).isSome = true ↔
      anchor < patterns.length ∧ ∃ places chosen b,
        Admissible (Around records anchor trigger) accept patterns places chosen b := by
  rw [← isSome_search_offered_iff (ranks_around records anchor trigger), ← pinned_eq_offered,
    findAnchored?]
  by_cases hanchor : anchor < patterns.length <;> simp [hanchor]

lemma find?_isSome_iff {records : List Record} :
    (find? patterns records accept).isSome = true ↔ patterns ≠ [] ∧
      ∃ places chosen b, Admissible (Listed records) accept patterns places chosen b := by
  rw [← isSome_search_offered_iff (ranks_listed records), ← map_eq_offered, find?]
  cases patterns <;> simp

/-- Records that fit under some binding of the patterns' variables fit under the first values met. -/
lemma exists_fits_iff : (∃ b, Fits patterns chosen b) ↔
    ∃ b, List.Forall₂ (fun p r => Pattern.Holds p r b) patterns chosen ∧
      ∀ x, (b.get? x).isSome = true ↔ x ∈ patterns.flatMap Pattern.vars := by
  constructor
  · rintro ⟨b, h⟩
    exact ⟨b, h.holds, fun x => h.isSome_get?_iff⟩
  · rintro ⟨b, hholds, hvars⟩
    obtain ⟨b₀, hfits, -⟩ := exists_fits hholds hvars
    exact ⟨b₀, hfits⟩

/--
A search gives a match exactly if there is an admissible choice, and then the match of the one that
comes first, for an anchor in range and for the plain search if there is a pattern. That the chosen
records fit is a matter of the values that the variables meet, not of a particular binding.
-/
theorem searches_give_newest (accept : Binding → Bool) (patterns : List Pattern)
    (records : List Record) :
    (∀ anchor trigger,
      ((findAnchored? patterns records anchor trigger accept).isSome = true ↔
        anchor < patterns.length ∧ ∃ places chosen b,
          Admissible (Around records anchor trigger) accept patterns places chosen b) ∧
      ∀ m, findAnchored? patterns records anchor trigger accept = some m ↔
        anchor < patterns.length ∧ IsNewest (Around records anchor trigger) accept patterns m) ∧
    ((find? patterns records accept).isSome = true ↔ patterns ≠ [] ∧
      ∃ places chosen b, Admissible (Listed records) accept patterns places chosen b) ∧
    (∀ m, find? patterns records accept = some m ↔
      patterns ≠ [] ∧ IsNewest (Listed records) accept patterns m) ∧
    ∀ chosen, (∃ b, Fits patterns chosen b) ↔
      ∃ b, List.Forall₂ (fun p r => Pattern.Holds p r b) patterns chosen ∧
        ∀ x, (b.get? x).isSome = true ↔ x ∈ patterns.flatMap Pattern.vars :=
  ⟨fun _ _ => ⟨findAnchored?_isSome_iff, fun _ => findAnchored?_eq_some_iff⟩, find?_isSome_iff,
    fun _ => find?_eq_some_iff, fun _ => exists_fits_iff⟩

end Match

end Synchrony
