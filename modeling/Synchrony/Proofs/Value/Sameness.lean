import Mathlib.Tactic.Common
import Synchrony.Value

/-!
# Sameness of values is an equivalence

Matching compares values by `Value.same`, which identifies the two floating point zeros and nothing
else. It is reflexive, symmetric and transitive, so values fall into classes of the same value.
-/

namespace Synchrony

namespace Double

@[simp] lemma same_refl (x : Double) : x.same x = true := by
  simp [same]

lemma same_comm (x y : Double) : x.same y = y.same x := by
  simp only [same, Bool.and_comm x.isZero, eq_comm (a := x)]

lemma same_trans {x y z : Double} (hxy : x.same y = true) (hyz : y.same z = true) :
    x.same z = true := by
  simp only [same, Bool.or_eq_true, decide_eq_true_eq, Bool.and_eq_true] at hxy hyz ⊢
  rcases hxy with rfl | ⟨hx, hy⟩
  · exact hyz
  · rcases hyz with rfl | ⟨_, hz⟩
    · exact Or.inr ⟨hx, hy⟩
    · exact Or.inr ⟨hx, hz⟩

end Double

namespace Value

/-! ### Reflexivity -/

mutual
/-- Every value is the same as itself. -/
lemma same_refl : ∀ a : Value, same a a = true
  | null | bool _ | int _ | str _ => by simp [same]
  | double x => by simp [same]
  | arr items => by rw [same, sameItems_refl items]
  | obj fields => by rw [same, sameFields_refl fields]

lemma sameItems_refl : ∀ as : List Value, sameItems as as = true
  | [] => rfl
  | a :: as => by rw [sameItems, same_refl a, sameItems_refl as, Bool.and_self]

lemma sameFields_refl : ∀ as : List (String × Value), sameFields as as = true
  | [] => rfl
  | (k, a) :: as => by
    rw [sameFields, same_refl a, sameFields_refl as, beq_self_eq_true, Bool.and_self, Bool.and_self]
end

/-! ### Symmetry -/

mutual
lemma same_symm : ∀ {a b : Value}, same a b = true → same b a = true
  | null, b, h | bool _, b, h | int _, b, h | str _, b, h => by
    cases b <;> simp_all [same]
  | double x, b, h => by
    cases b <;> simp only [same, Bool.false_eq_true] at h ⊢
    rwa [Double.same_comm]
  | arr as, b, h => by
    cases b <;> simp only [same, Bool.false_eq_true] at h ⊢
    exact sameItems_symm h
  | obj as, b, h => by
    cases b <;> simp only [same, Bool.false_eq_true] at h ⊢
    exact sameFields_symm h

lemma sameItems_symm : ∀ {as bs : List Value}, sameItems as bs = true → sameItems bs as = true
  | [], bs, h => by cases bs <;> simp_all [sameItems]
  | a :: as, [], h => by simp [sameItems] at h
  | a :: as, b :: bs, h => by
    rw [sameItems, Bool.and_eq_true] at h ⊢
    exact ⟨same_symm h.1, sameItems_symm h.2⟩

lemma sameFields_symm : ∀ {as bs : List (String × Value)}, sameFields as bs = true →
    sameFields bs as = true
  | [], bs, h => by cases bs <;> simp_all [sameFields]
  | (k, a) :: as, [], h => by simp [sameFields] at h
  | (k, a) :: as, (l, b) :: bs, h => by
    rw [sameFields, Bool.and_eq_true, Bool.and_eq_true, beq_iff_eq] at h ⊢
    exact ⟨⟨h.1.1.symm, same_symm h.1.2⟩, sameFields_symm h.2⟩
end

/-! ### Transitivity -/

mutual
lemma same_trans : ∀ {a b c : Value}, same a b = true → same b c = true → same a c = true
  | null, b, c, hab, hbc | bool _, b, c, hab, hbc | int _, b, c, hab, hbc
  | str _, b, c, hab, hbc => by
    cases b <;> cases c <;> simp_all [same]
  | double x, b, c, hab, hbc => by
    cases b <;> cases c <;> simp only [same, Bool.false_eq_true] at hab hbc ⊢
    exact Double.same_trans hab hbc
  | arr as, b, c, hab, hbc => by
    cases b <;> cases c <;> simp only [same, Bool.false_eq_true] at hab hbc ⊢
    exact sameItems_trans hab hbc
  | obj as, b, c, hab, hbc => by
    cases b <;> cases c <;> simp only [same, Bool.false_eq_true] at hab hbc ⊢
    exact sameFields_trans hab hbc

lemma sameItems_trans : ∀ {as bs cs : List Value}, sameItems as bs = true →
    sameItems bs cs = true → sameItems as cs = true
  | [], bs, cs, hab, hbc => by cases bs <;> simp_all [sameItems]
  | a :: as, [], cs, hab, hbc => by simp [sameItems] at hab
  | a :: as, b :: bs, [], hab, hbc => by simp [sameItems] at hbc
  | a :: as, b :: bs, c :: cs, hab, hbc => by
    rw [sameItems, Bool.and_eq_true] at hab hbc ⊢
    exact ⟨same_trans hab.1 hbc.1, sameItems_trans hab.2 hbc.2⟩

lemma sameFields_trans : ∀ {as bs cs : List (String × Value)}, sameFields as bs = true →
    sameFields bs cs = true → sameFields as cs = true
  | [], bs, cs, hab, hbc => by cases bs <;> simp_all [sameFields]
  | (k, a) :: as, [], cs, hab, hbc => by simp [sameFields] at hab
  | (k, a) :: as, (l, b) :: bs, [], hab, hbc => by simp [sameFields] at hbc
  | (k, a) :: as, (l, b) :: bs, (m, c) :: cs, hab, hbc => by
    rw [sameFields, Bool.and_eq_true, Bool.and_eq_true, beq_iff_eq] at hab hbc ⊢
    exact ⟨⟨hab.1.1.trans hbc.1.1, same_trans hab.1.2 hbc.1.2⟩, sameFields_trans hab.2 hbc.2⟩
end

end Value

/-! ### Texts -/

lemma Value.same_str (v : Value) (s : String) :
    v.same (.str s) = decide (v.asString? = some s) := by
  cases v
  case str text => simp [Value.same, Value.asString?, beq_eq_decide]
  all_goals rfl

/-- A filter for a text finds the records that have the text there. -/
lemma KeyMap.matchesFilter_singleton (doc : Fields) (key s : String) :
    doc.matchesFilter (KeyMap.singleton key (.str s)) = decide (doc.string? key = some s) := by
  have hentries : (KeyMap.singleton key (Value.str s)).entries = [(key, .str s)] := rfl
  cases hget : doc.get? key with
  | none => simp [KeyMap.matchesFilter, hentries, KeyMap.string?, hget]
  | some v => simp [KeyMap.matchesFilter, hentries, KeyMap.string?, hget, Value.same_str]

end Synchrony
