import Synchrony.Proofs.Burst.Traffic
import Synchrony.Proofs.Matching.Completion
import Synchrony.Proofs.Matching.Newest

/-!
# Searching around the latest record

For a record that has just been appended, a rule is not searched among all records. The search is
anchored at the places the record can take, one after the other, and the first match is taken. Here
this is compared with the plain search. If the plain search gives the record a place, then the search
anchored there gives the same match (`Match.findAnchored?_of_find?`), but an earlier place may have a
match of its own, which is then taken. At the first place there is none
(`Match.findAnchored?_zero_of_find?`).
-/

namespace Synchrony

namespace Match

/-! ### Choices by the numbers of their records -/

/-- Where the records first differ, those on the left are the later ones. -/
def Fresher (chosen chosen' : List Record) : Prop :=
  List.Lex (fun r r' => r'.seq < r.seq) chosen chosen'

/-- The match is that of a choice that comes before all others on offer. -/
structure Freshest (offer : List Record → Prop) (accept : Binding → Bool)
    (patterns : List Pattern) (chosen : List Record) (m : Match) : Prop where
  offered : offer chosen
  admits : Admits accept patterns chosen m.binding
  records_eq : m.records = chosen.map (·.seq)
  first : ∀ chosen' b', offer chosen' → Admits accept patterns chosen' b' →
    chosen' = chosen ∨ Fresher chosen chosen'

variable {offer offer' : List Record → Prop} {accept : Binding → Bool} {patterns : List Pattern}
  {chosen chosen' records : List Record} {trigger : Record} {m m' : Match} {i k : Nat}

/-- Choices that come first in two offers are the same if each is in both. -/
lemma Freshest.eq (h : Freshest offer accept patterns chosen m)
    (h' : Freshest offer' accept patterns chosen' m') (hoffer : offer' chosen)
    (hoffer' : offer chosen') : m = m' := by
  have hchosen : chosen = chosen' :=
    eq_of_lex_or Nat.lt_asymm (h.first _ _ hoffer' h'.admits) (h'.first _ _ hoffer h.admits)
  subst hchosen
  have hbinding := h.admits.binding_unique h'.admits
  have hrecords := h.records_eq.trans h'.records_eq.symm
  cases m
  cases m'
  simp_all

/-- Only the admitted choices of an offer count. -/
lemma Freshest.congr (h : Freshest offer accept patterns chosen m)
    (hoffer : ∀ chosen b, Admits accept patterns chosen b → (offer chosen ↔ offer' chosen)) :
    Freshest offer' accept patterns chosen m :=
  ⟨(hoffer _ _ h.admits).1 h.offered, h.admits, h.records_eq,
    fun chosen' b' h' hadmits => h.first chosen' b' ((hoffer _ _ hadmits).2 h') hadmits⟩

/-- A search through candidates with the later ones first gives the match of the first choice. -/
lemma exists_freshest_of_search {l : List (Pattern × List Record)}
    (hsorted : ∀ c ∈ l.map (·.2), c.Pairwise fun r r' => r'.seq < r.seq)
    (h : search accept l [] .empty = some m) :
    ∃ chosen, Freshest (List.Forall₂ (· ∈ ·) · (l.map (·.2))) accept (l.map (·.1)) chosen m := by
  rw [search_eq_findSome?] at h
  obtain ⟨chosen, hmem, hjudge, hfirst⟩ := exists_first_of_findSome? (pairwise_choices hsorted) h
  obtain ⟨hadmits, hrecords⟩ := judge_eq_some_iff.1 hjudge
  refine ⟨chosen, mem_choices_iff.1 hmem, hadmits, hrecords, fun chosen' b' hoffer h' => ?_⟩
  refine hfirst chosen' (mem_choices_iff.2 hoffer) ?_
  rw [judge_eq_some_iff (m := ⟨b', chosen'.map (·.seq)⟩) |>.2 ⟨h', rfl⟩]
  rfl

/-! ### The two searches in a list of increasing numbers -/

/-- Every choice of listed records is on offer. -/
def Plain (records : List Record) (chosen : List Record) : Prop := ∀ r ∈ chosen, r ∈ records

lemma forall₂_plain_iff :
    List.Forall₂ (· ∈ ·) chosen ((patterns.map fun p => (p, records.reverse)).map (·.2)) ↔
      chosen.length = patterns.length ∧ Plain records chosen := by
  rw [List.forall₂_iff_get]
  simp only [List.length_map, List.get_eq_getElem, List.getElem_map, List.mem_reverse]
  refine and_congr_right fun hlen => ?_
  constructor
  · intro h r hr
    obtain ⟨i, hi, rfl⟩ := List.mem_iff_getElem.1 hr
    exact h i hi (hlen ▸ hi)
  · exact fun h i hi _ => h _ (List.getElem_mem hi)

section Sorted

variable (hsorted : records.Pairwise (·.seq < ·.seq))

include hsorted

lemma exists_freshest_of_find? (h : find? patterns records accept = some m) :
    ∃ chosen, Freshest (Plain records) accept patterns chosen m := by
  rw [find?] at h
  split at h
  · cases h
  have hlater : ∀ c ∈ (patterns.map fun p => (p, records.reverse)).map (·.2),
      c.Pairwise fun r r' => r'.seq < r.seq := by
    simp only [List.map_map, List.mem_map, Function.comp_apply]
    rintro - ⟨-, -, rfl⟩
    exact List.pairwise_reverse.2 hsorted
  obtain ⟨chosen, hchosen⟩ := exists_freshest_of_search hlater h
  have hpatterns : (patterns.map fun p => (p, records.reverse)).map (·.1) = patterns := by
    simp [Function.comp_def]
  rw [hpatterns] at hchosen
  exact ⟨chosen, hchosen.congr fun _ _ hadmits =>
    forall₂_plain_iff.trans (and_iff_right hadmits.holds.length_eq.symm)⟩

lemma exists_freshest_of_findAnchored?
    (h : findAnchored? patterns records k trigger accept = some m) :
    ∃ chosen, Freshest (Anchored records k trigger) accept patterns chosen m := by
  rw [findAnchored?] at h
  split at h
  · have hlater : ∀ c ∈ (pinned patterns records k trigger).map (·.2),
        c.Pairwise fun r r' => r'.seq < r.seq := by
      simp only [pinned, List.mem_map, List.mem_mapIdx]
      rintro - ⟨-, ⟨i, hi, rfl⟩, rfl⟩
      dsimp only
      split
      · exact List.pairwise_singleton _ _
      · exact (List.pairwise_reverse.2 hsorted).filter _
    obtain ⟨chosen, hchosen⟩ := exists_freshest_of_search hlater h
    rw [map_fst_pinned] at hchosen
    exact ⟨chosen, hchosen.congr fun _ _ hadmits =>
      forall₂_pinned_iff.trans (and_iff_right hadmits.holds.length_eq.symm)⟩
  · cases h

end Sorted

/-! ### The latest record -/

/-- A match around a trigger has its number at the anchor, whose pattern is on its action. -/
lemma findAnchored?_spec (h : findAnchored? patterns records i trigger accept = some m) :
    m.records[i]? = some trigger.seq ∧ m.records.Nodup ∧
      ∃ p, patterns[i]? = some p ∧ p.action = trigger.action := by
  obtain ⟨chosen, hlt, hanchored, hadmits, hrecords⟩ := exists_of_findAnchored? h
  have hget := hanchored i _ (List.getElem?_eq_getElem hlt)
  rw [if_pos rfl] at hget
  have hlt' : i < patterns.length := hadmits.holds.length_eq ▸ hlt
  have hholds := List.Forall₂.get hadmits.holds hlt' hlt
  rw [List.get_eq_getElem, List.get_eq_getElem, hget] at hholds
  refine ⟨?_, hrecords ▸ hadmits.distinct, _, List.getElem?_eq_getElem hlt', hholds.action⟩
  rw [hrecords, List.getElem?_map, List.getElem?_eq_getElem hlt, hget, Option.map_some]

section Latest

variable (hsorted : (records ++ [trigger]).Pairwise (·.seq < ·.seq))
  (h : find? patterns (records ++ [trigger]) accept = some m)
  (hk : m.records[k]? = some trigger.seq)

include hsorted h hk

/-- The choice of the plain search is one around the place that it gives the latest record. -/
lemma exists_anchored_of_find? : ∃ chosen, k < chosen.length ∧
    Anchored (records ++ [trigger]) k trigger chosen ∧
    Freshest (Plain (records ++ [trigger])) accept patterns chosen m := by
  obtain ⟨chosen, hfreshest⟩ := exists_freshest_of_find? hsorted h
  have hlast := eq_or_lt_of_sorted hsorted
  rw [hfreshest.records_eq, List.getElem?_map, Option.map_eq_some_iff] at hk
  obtain ⟨r, hr, hseq⟩ := hk
  obtain rfl := (hlast r (hfreshest.offered r (List.mem_of_getElem? hr))).resolve_right
    (by rw [hseq]; exact Nat.lt_irrefl _)
  obtain ⟨hlt, -⟩ := List.getElem?_eq_some_iff.1 hr
  exact ⟨chosen, hlt, hfreshest.admits.anchored hfreshest.offered hlast hr, hfreshest⟩

/-- Anchored at the place that the plain search gives the latest record, the search gives the same. -/
lemma findAnchored?_of_find? :
    findAnchored? patterns (records ++ [trigger]) k trigger accept = some m := by
  obtain ⟨chosen, hlt, hanchored, hfreshest⟩ := exists_anchored_of_find? hsorted h hk
  obtain ⟨m', hm'⟩ := Option.isSome_iff_exists.1
    (isSome_findAnchored? hlt hanchored hfreshest.admits)
  obtain ⟨chosen', hfreshest'⟩ := exists_freshest_of_findAnchored? hsorted hm'
  rw [hm', hfreshest.eq hfreshest' hanchored (hfreshest'.offered.listed (by simp))]

/-- If the plain search gives the latest record a later place, then none is found at the first. -/
lemma findAnchored?_zero_of_find? (hpos : 0 < k) :
    findAnchored? patterns (records ++ [trigger]) 0 trigger accept = none := by
  rw [Option.eq_none_iff_forall_ne_some]
  intro m' hm'
  obtain ⟨chosen, hlt, hanchored, hfreshest⟩ := exists_anchored_of_find? hsorted h hk
  obtain ⟨chosen', hlt', hanchored', hadmits', -⟩ := exists_of_findAnchored? hm'
  obtain ⟨r, rest, rfl⟩ := List.exists_cons_of_length_pos (Nat.lt_of_le_of_lt k.zero_le hlt)
  obtain ⟨r', rest', rfl⟩ := List.exists_cons_of_length_pos hlt'
  have hr : r.seq < trigger.seq := by
    have hget := hanchored 0 r rfl
    rw [if_neg hpos.ne] at hget
    exact hget.2
  have hr' : r' = trigger := by simpa using hanchored' 0 r' rfl
  subst hr'
  -- a choice that begins with the latest record comes before the one that was found
  have hsame : r :: rest = r' :: rest' := eq_of_lex_or Nat.lt_asymm
    (hfreshest.first _ _ (hanchored'.listed (by simp)) hadmits') (.inr (.rel hr))
  rw [(List.cons.inj hsame).1] at hr
  exact Nat.lt_irrefl _ hr

end Latest

end Match

/-- In an increasing list the first number with a result is the least one. -/
lemma findSome?_eq_some_iff_of_sorted {α : Type} {l : List Nat} (hl : l.Pairwise (· < ·))
    {f : Nat → Option α} {a : α} :
    l.findSome? f = some a ↔ ∃ i ∈ l, f i = some a ∧ ∀ j ∈ l, j < i → f j = none := by
  constructor
  · intro h
    obtain ⟨before, i, after, rfl, hi, hnone⟩ := List.findSome?_eq_some_iff.1 h
    refine ⟨i, by simp, hi, fun j hj hlt => ?_⟩
    rcases List.mem_append.1 hj with hj | hj
    · exact hnone j hj
    · rcases List.mem_cons.1 hj with rfl | hj
      · exact absurd hlt (Nat.lt_irrefl _)
      · exact absurd hlt (List.rel_of_pairwise_cons (List.pairwise_append.1 hl).2.1 hj).asymm
  · rintro ⟨i, hmem, hi, hnone⟩
    obtain ⟨before, after, rfl⟩ := List.append_of_mem hmem
    refine List.findSome?_eq_some_iff.2 ⟨before, i, after, rfl, hi, fun j hj => ?_⟩
    exact hnone j (by simp [hj]) ((List.pairwise_append.1 hl).2.2 j hj i List.mem_cons_self)

namespace Rule

variable {rule : Rule} {records : List Record} {trigger : Record} {m : Match} {k : Nat}

/-- A record completes a rule with the match around the first place that has one. -/
lemma completion_eq_some_iff : rule.completion records trigger = some m ↔
    ∃ i, Match.findAnchored? rule.conditions records i trigger rule.accepts = some m ∧
      ∀ j ∈ RuleTable.anchors rule trigger.action, j < i →
        Match.findAnchored? rule.conditions records j trigger rule.accepts = none := by
  have hanchors : (RuleTable.anchors rule trigger.action).Pairwise (· < ·) :=
    List.pairwise_lt_range.filter _
  rw [completion, findSome?_eq_some_iff_of_sorted hanchors]
  refine exists_congr fun i => ⟨fun h => h.2, fun h => ⟨?_, h⟩⟩
  exact mem_anchors_iff.2 (Match.findAnchored?_spec h.1).2.2

section Latest

variable (hsorted : (records ++ [trigger]).Pairwise (·.seq < ·.seq))
  (h : Match.find? rule.conditions (records ++ [trigger]) rule.accepts = some m)
  (hk : m.records[k]? = some trigger.seq)

include hsorted h hk

/-- What the plain search finds is taken unless an earlier place has a match of its own. -/
lemma completion_eq_of_find?_iff : rule.completion (records ++ [trigger]) trigger = some m ↔
    ∀ i ∈ RuleTable.anchors rule trigger.action, i < k →
      Match.findAnchored? rule.conditions (records ++ [trigger]) i trigger rule.accepts = none := by
  have hfound := Match.findAnchored?_of_find? hsorted h hk
  rw [completion_eq_some_iff]
  constructor
  · rintro ⟨i, hi, hnone⟩
    -- the number of the record has only one place in the match
    obtain ⟨hget, hnodup, -⟩ := Match.findAnchored?_spec hi
    obtain ⟨hlt, hget⟩ := List.getElem?_eq_some_iff.1 hget
    obtain ⟨hlt', hget'⟩ := List.getElem?_eq_some_iff.1 hk
    obtain rfl := hnodup.getElem_inj_iff.1 (hget.trans hget'.symm)
    exact hnone
  · exact fun hnone => ⟨k, hfound, hnone⟩

/-- If at most one pattern after the first is on the record's action, no earlier place has a match. -/
lemma completion_eq_of_find? (honce : rule.conditions.tail.Pairwise fun p q =>
      p.action = trigger.action → q.action ≠ trigger.action) :
    rule.completion (records ++ [trigger]) trigger = some m := by
  refine (completion_eq_of_find?_iff hsorted h hk).2 fun i hi hlt => ?_
  rcases Nat.eq_zero_or_pos i with rfl | hpos
  · exact Match.findAnchored?_zero_of_find? hsorted h hk hlt
  obtain ⟨p, hp, haction⟩ := mem_anchors_iff.1 hi
  have hfound := Match.findAnchored?_of_find? hsorted h hk
  obtain ⟨-, -, q, hq, haction'⟩ := Match.findAnchored?_spec hfound
  obtain ⟨i, rfl⟩ := Nat.exists_eq_succ_of_ne_zero hpos.ne'
  obtain ⟨k, rfl⟩ := Nat.exists_eq_succ_of_ne_zero (hpos.trans hlt).ne'
  rw [← List.getElem?_tail] at hp hq
  obtain ⟨hi', rfl⟩ := List.getElem?_eq_some_iff.1 hp
  obtain ⟨hk', rfl⟩ := List.getElem?_eq_some_iff.1 hq
  have hlt' : i < k := Nat.lt_of_succ_lt_succ hlt
  exact absurd haction' (List.pairwise_iff_getElem.1 honce i k hi' hk' hlt' haction)

end Latest

end Rule

/-! ### What fires -/

namespace Bells

/-- A ring and a chime of one person, with a chime of anybody. -/
def trio : Rule :=
  ⟨"trio", [⟨⟨"Bell", "ring"⟩, who, .empty⟩, ⟨⟨"Bell", "chime"⟩, who, .empty⟩,
    ⟨⟨"Bell", "chime"⟩, .empty, .empty⟩], [], none⟩

/-- Ann and Bob ring. -/
def rings : List Record :=
  [record 1 "a" 0 "ring" "ann" none 10, record 2 "a" 1 "ring" "bob" none 20]

/-- The chime of Bob, which comes before that of Ann. -/
def bobs : Record := record 3 "a" 1 "chime" "bob" none 30

/-- The chime of Ann. -/
def anns : Record := record 4 "a" 1 "chime" "ann" none 40

/-- An engine with one rule, after some records of one burst. -/
def heard (rule : Rule) (records : List Record) : Engine Unit where
  limits := ⟨8, 16⟩
  registry := registry
  rules := { rules := [rule] }
  log := { capacity := 4, active := KeyMap.singleton "a" records.reverse }

end Bells

namespace Engine

variable {ι : Type} {e : Engine ι} {rule : Rule} {records : List Record} {trigger : Record}
  {m : Match} {k : Nat}

/--
If the plain search through the records of a burst uses the latest one, at place `k`, then the search
anchored there gives the same match, and the record completes the rule with one match. It is that
match unless an earlier pattern on the record's action has a match around the record, which there
cannot be if at most one pattern after the first is on that action.
-/
theorem matchesOf_of_find? (hrule : rule ∈ e.rules.rules)
    (hlog : e.log.burstRecords trigger.burst = records ++ [trigger])
    (hsorted : (records ++ [trigger]).Pairwise (·.seq < ·.seq))
    (hfind : Match.find? rule.conditions (records ++ [trigger]) rule.accepts = some m)
    (hk : m.records[k]? = some trigger.seq) :
    Match.findAnchored? rule.conditions (records ++ [trigger]) k trigger rule.accepts = some m ∧
      (∃! m', (rule, m') ∈ e.matchesOf trigger) ∧
      ((rule, m) ∈ e.matchesOf trigger ↔
        ∀ i p, i < k → rule.conditions[i]? = some p → p.action = trigger.action →
          Match.findAnchored? rule.conditions (records ++ [trigger]) i trigger rule.accepts =
            none) ∧
      ((rule.conditions.tail.Pairwise fun p q =>
          p.action = trigger.action → q.action ≠ trigger.action) →
        (rule, m) ∈ e.matchesOf trigger) := by
  have hfound := Match.findAnchored?_of_find? hsorted hfind hk
  have hmem (m' : Match) : (rule, m') ∈ e.matchesOf trigger ↔
      rule.completion (records ++ [trigger]) trigger = some m' := by
    rw [matchesOf, hlog, RuleTable.mem_completedBy_iff, and_iff_right hrule]
  refine ⟨hfound, ?_, ?_, fun honce =>
    (hmem m).2 (Rule.completion_eq_of_find? hsorted hfind hk honce)⟩
  · have hsome : (rule.completion (records ++ [trigger]) trigger).isSome = true :=
      List.findSome?_isSome_iff.2 ⟨k, Rule.mem_anchors_iff.2 (Match.findAnchored?_spec hfound).2.2,
        by rw [hfound]; rfl⟩
    obtain ⟨m', hm'⟩ := Option.isSome_iff_exists.1 hsome
    exact ⟨m', (hmem m').2 hm', fun m'' h'' => Option.some.inj (((hmem m'').1 h'').symm.trans hm')⟩
  · rw [hmem, Rule.completion_eq_of_find?_iff hsorted hfind hk]
    simp only [Rule.mem_anchors_iff]
    exact ⟨fun h i p hlt hp haction => h i ⟨p, hp, haction⟩ hlt,
      fun h i ⟨p, hp, haction⟩ hlt => h i p hlt hp haction⟩

theorem matchesOf_of_find?_bells :
    (Bells.both, (⟨KeyMap.singleton "who" (.str "ann"), [1, 4]⟩ : Match)) ∈
      (Bells.heard Bells.both (Bells.rings ++ [Bells.anns])).matchesOf Bells.anns := by
  have hrule : Bells.both ∈ (Bells.heard Bells.both (Bells.rings ++ [Bells.anns])).rules.rules :=
    .head _
  have hlog : (Bells.heard Bells.both (Bells.rings ++ [Bells.anns])).log.burstRecords
      Bells.anns.burst = Bells.rings ++ [Bells.anns] := rfl
  have hfind : Match.find? Bells.both.conditions (Bells.rings ++ [Bells.anns]) Bells.both.accepts =
      some ⟨KeyMap.singleton "who" (.str "ann"), [1, 4]⟩ := rfl
  have h := matchesOf_of_find? hrule hlog (by decide) hfind (k := 1) rfl
  exact h.2.2.2 (List.pairwise_singleton _ _)

/-- A record can complete a rule with another match than the plain search finds with that record. -/
theorem not_forall_find?_mem_matchesOf : ¬ ∀ (e : Engine Unit) (rule : Rule) (records : List Record)
    (trigger : Record) (m : Match), rule ∈ e.rules.rules →
    e.log.burstRecords trigger.burst = records ++ [trigger] →
    (records ++ [trigger]).Pairwise (·.seq < ·.seq) →
    Match.find? rule.conditions (records ++ [trigger]) rule.accepts = some m →
    trigger.seq ∈ m.records → (rule, m) ∈ e.matchesOf trigger := by
  intro h
  have hfires := h (Bells.heard Bells.trio (Bells.rings ++ [Bells.bobs, Bells.anns])) Bells.trio
    (Bells.rings ++ [Bells.bobs]) Bells.anns ⟨KeyMap.singleton "who" (.str "bob"), [2, 3, 4]⟩
    (.head _) rfl (by decide) rfl (by decide)
  have hmatches : (Bells.heard Bells.trio (Bells.rings ++ [Bells.bobs, Bells.anns])).matchesOf
      Bells.anns = [(Bells.trio, ⟨KeyMap.singleton "who" (.str "ann"), [1, 4, 3]⟩)] := rfl
  rw [hmatches, List.mem_singleton] at hfires
  exact absurd (congrArg (·.2.records) hfires) (by decide)

end Engine

end Synchrony
