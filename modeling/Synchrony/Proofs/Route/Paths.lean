import Mathlib.Tactic.Common
import Synchrony.ActionRef

/-!
# Texts and paths of actions

The names that concepts and actions may have are the ASCII identifiers (`isName_iff`). A path is read
back as its reference exactly if neither name is empty or holds a slash (`ActionRef.ofPath?_path`), and
what is read from a text has that text as its path (`ActionRef.ofPath?_eq_some_iff`). An identifier has
neither a slash nor a dot, so the path of a reference with identifiers tells the reference
(`ActionRef.path_inj`), and so does its text (`ActionRef.text_inj`).
-/

namespace Synchrony

/-! ### Identifiers -/

/-- A letter or an underscore, and then letters, digits and underscores, all of them ASCII. -/
def IsIdentifier (name : String) : Prop :=
  ∃ c rest, name.toList = c :: rest ∧ (c.isAlpha = true ∨ c = '_') ∧
    ∀ d ∈ rest, d.isAlphanum = true ∨ d = '_'

lemma isNameStart_iff {c : Char} : isNameStart c = true ↔ c.isAlpha = true ∨ c = '_' := by
  have hupper : c.isUpper = ('A' ≤ c && c ≤ 'Z') := Bool.decide_and ('A' ≤ c) (c ≤ 'Z')
  have hlower : c.isLower = ('a' ≤ c && c ≤ 'z') := rfl
  have halpha : c.isAlpha = (c.isUpper || c.isLower) := rfl
  rw [isNameStart, halpha, hupper, hlower, Bool.or_eq_true _ (decide (c = '_')),
    decide_eq_true_eq]

lemma isNameChar_iff {c : Char} : isNameChar c = true ↔ c.isAlphanum = true ∨ c = '_' := by
  have halphanum : c.isAlphanum = (c.isAlpha || ('0' ≤ c && c ≤ '9')) := rfl
  rw [isNameChar, Bool.or_eq_true, isNameStart_iff, halphanum, Bool.or_eq_true, or_right_comm]

lemma isName_iff {name : String} : isName name = true ↔ IsIdentifier name := by
  rw [isName, IsIdentifier]
  cases name.toList with
  | nil => simp
  | cons c rest => simp [isNameStart_iff, isNameChar_iff]

namespace IsIdentifier

variable {name : String}

lemma ne_nil (h : IsIdentifier name) : name.toList ≠ [] := by
  obtain ⟨c, rest, hname, -⟩ := h
  rw [hname]
  exact List.cons_ne_nil _ _

/-- Only letters, digits and underscores stand in an identifier. -/
lemma notMem (h : IsIdentifier name) {c : Char} (hc : ¬ (c.isAlphanum = true ∨ c = '_')) :
    c ∉ name.toList := by
  obtain ⟨first, rest, hname, hstart, hrest⟩ := h
  have halphanum : c.isAlphanum = (c.isAlpha || c.isDigit) := rfl
  rw [hname, List.mem_cons, not_or]
  constructor
  · rintro rfl
    exact hc (hstart.imp_left fun halpha => by rw [halphanum, halpha, Bool.true_or])
  · exact fun hmem => hc (hrest c hmem)

end IsIdentifier

/-! ### Segments -/

/-- A name that can stand between two slashes: there is something, and no slash. -/
def IsSegment (name : String) : Prop := name ≠ "" ∧ '/' ∉ name.toList

instance (name : String) : Decidable (IsSegment name) :=
  inferInstanceAs (Decidable (name ≠ "" ∧ '/' ∉ name.toList))

lemma isSegment_ofList_iff {cs : List Char} :
    IsSegment (String.ofList cs) ↔ cs ≠ [] ∧ '/' ∉ cs := by
  rw [IsSegment, String.toList_ofList, Ne, String.ofList_eq_empty_iff]

lemma IsIdentifier.isSegment {name : String} (h : IsIdentifier name) : IsSegment name :=
  ⟨fun hempty => h.ne_nil (String.toList_eq_nil_iff.2 hempty), h.notMem (by decide)⟩

/-- What stands before the first separator, and behind it, can be read off. -/
lemma append_cons_inj {c : Char} {front front' rest rest' : List Char} (h : c ∉ front)
    (h' : c ∉ front') (heq : front ++ c :: rest = front' ++ c :: rest') :
    front = front' ∧ rest = rest' := by
  induction front generalizing front' with
  | nil =>
    cases front' with
    | nil => exact ⟨rfl, (List.cons.inj heq).2⟩
    | cons d front' => exact absurd (List.cons.inj heq).1 (List.ne_of_not_mem_cons h')
  | cons d front ih =>
    cases front' with
    | nil => exact absurd (List.cons.inj heq).1.symm (List.ne_of_not_mem_cons h)
    | cons d' front' =>
      obtain ⟨rfl, htail⟩ := List.cons.inj heq
      obtain ⟨rfl, rfl⟩ :=
        ih (List.not_mem_of_not_mem_cons h) (List.not_mem_of_not_mem_cons h') htail
      exact ⟨rfl, rfl⟩

namespace ActionRef

variable {r r' : ActionRef}

lemma eq_of_toList (hconcept : r.concept.toList = r'.concept.toList)
    (haction : r.action.toList = r'.action.toList) : r = r' := by
  obtain ⟨concept, action⟩ := r
  obtain ⟨concept', action'⟩ := r'
  exact congrArg₂ ActionRef.mk (String.toList_inj.1 hconcept) (String.toList_inj.1 haction)

/-! ### Paths -/

/-- Both names can stand between slashes, so a path can name the action. -/
structure Addressable (r : ActionRef) : Prop where
  concept : IsSegment r.concept
  action : IsSegment r.action

instance (r : ActionRef) : Decidable r.Addressable :=
  decidable_of_iff (IsSegment r.concept ∧ IsSegment r.action)
    ⟨fun h => ⟨h.1, h.2⟩, fun h => ⟨h.concept, h.action⟩⟩

lemma toList_path (r : ActionRef) :
    r.path.toList = '/' :: (r.concept.toList ++ '/' :: r.action.toList) := by
  simp [path, String.toList_append]

lemma splitAtSlash_append {front rest : List Char} (h : '/' ∉ front) :
    splitAtSlash (front ++ '/' :: rest) = some (front, rest) := by
  induction front with
  | nil => rfl
  | cons c front ih =>
    rw [List.mem_cons, not_or] at h
    rw [List.cons_append, splitAtSlash, if_neg (Ne.symm h.1), ih h.2]
    rfl

/-- A text is split at its first slash. -/
lemma eq_of_splitAtSlash {cs front rest : List Char} (h : splitAtSlash cs = some (front, rest)) :
    cs = front ++ '/' :: rest ∧ '/' ∉ front := by
  induction cs generalizing front with
  | nil => cases h
  | cons c cs ih =>
    rw [splitAtSlash] at h
    split at h
    · rename_i hc
      cases h
      subst hc
      exact ⟨rfl, List.not_mem_nil⟩
    · rename_i hc
      obtain ⟨⟨front', rest'⟩, hsplit, heq⟩ := Option.map_eq_some_iff.1 h
      cases heq
      obtain ⟨rfl, hfront⟩ := ih hsplit
      exact ⟨rfl, List.not_mem_cons_of_ne_of_not_mem (Ne.symm hc) hfront⟩

/--
A text is read as a reference exactly if it is the path of the reference and the two names can stand
in a path.
-/
theorem ofPath?_eq_some_iff {p : String} : ofPath? p = some r ↔ r.path = p ∧ r.Addressable := by
  constructor
  · intro h
    unfold ofPath? at h
    split at h
    · rename_i rest hp
      split at h
      · rename_i concept action hsplit
        obtain ⟨rfl, hconcept⟩ := eq_of_splitAtSlash hsplit
        split at h
        · cases h
        rename_i hnames
        simp only [Bool.or_eq_true, List.isEmpty_iff, List.contains_iff_mem, not_or] at hnames
        cases h
        refine ⟨?_, isSegment_ofList_iff.2 ⟨hnames.1.1, hconcept⟩,
          isSegment_ofList_iff.2 ⟨hnames.1.2, hnames.2⟩⟩
        rw [← String.toList_inj, toList_path, hp, String.toList_ofList, String.toList_ofList]
      · cases h
    · cases h
  · rintro ⟨rfl, hconcept, haction⟩
    simp only [ofPath?, toList_path, splitAtSlash_append hconcept.2]
    rw [if_neg]
    · rw [String.ofList_toList, String.ofList_toList]
    · simp [hconcept.1, haction.1, haction.2]

/-- No other reference has the path of one whose names can stand in a path. -/
lemma Addressable.eq_of_path (h : r.Addressable) (hpath : r'.path = r.path) : r' = r := by
  have hlist : r'.concept.toList ++ '/' :: r'.action.toList =
      r.concept.toList ++ '/' :: r.action.toList := by
    have heq := congrArg String.toList hpath
    rw [toList_path, toList_path] at heq
    exact (List.cons.inj heq).2
  -- the path has two slashes, so none is left for the names of the other reference
  have hconcept : '/' ∉ r'.concept.toList := by
    have hcount := congrArg (List.count '/') hlist
    rw [List.count_append, List.count_append, List.count_cons_self, List.count_cons_self,
      List.count_eq_zero.2 h.concept.2, List.count_eq_zero.2 h.action.2] at hcount
    exact List.count_eq_zero.1 (by omega)
  obtain ⟨hfront, hrest⟩ := append_cons_inj hconcept h.concept.2 hlist
  exact eq_of_toList hfront hrest

/-- The path of a reference is read back as that reference, or not at all. -/
lemma ofPath?_path (r : ActionRef) : ofPath? r.path = if r.Addressable then some r else none := by
  split
  · rename_i h
    exact ofPath?_eq_some_iff.2 ⟨rfl, h⟩
  · rename_i h
    refine Option.eq_none_iff_forall_ne_some.2 fun r' hr' => h ?_
    obtain ⟨hpath, hr'⟩ := ofPath?_eq_some_iff.1 hr'
    rwa [hr'.eq_of_path hpath.symm]

/-- The path of a reference with identifiers tells the reference. -/
theorem path_inj (hconcept : IsIdentifier r.concept) (haction : IsIdentifier r.action)
    (hpath : r.path = r'.path) : r = r' :=
  (Addressable.eq_of_path ⟨hconcept.isSegment, haction.isSegment⟩ hpath.symm).symm

/-! ### Texts -/

/-- The text of a reference with identifiers tells the reference. -/
theorem text_inj (hconcept : IsIdentifier r.concept) (hconcept' : IsIdentifier r'.concept)
    (htext : r.text = r'.text) : r = r' := by
  have hlist : r.concept.toList ++ '.' :: r.action.toList =
      r'.concept.toList ++ '.' :: r'.action.toList := by
    simpa [text, String.toList_append] using congrArg String.toList htext
  obtain ⟨hfront, hrest⟩ :=
    append_cons_inj (hconcept.notMem (by decide)) (hconcept'.notMem (by decide)) hlist
  exact eq_of_toList hfront hrest

end ActionRef

end Synchrony
