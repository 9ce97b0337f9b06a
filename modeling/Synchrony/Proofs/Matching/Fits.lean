import Mathlib.Tactic.Common
import Synchrony.KeyMap.Lookup
import Synchrony.Proofs.Value.Sameness
import Synchrony.Rule

/-!
# What it means that a record fits a pattern

`Pattern.Holds p r b` says without any search that the record `r` fits the pattern `p` under the
binding `b`. Unification is shown to compute exactly this: it gives the one binding that extends the
one it starts from by the values it finds and under which the pattern holds
(`Pattern.unify_eq_some_iff`). For several patterns and one record each, `Fits` says that all of them
hold under one binding that has nothing but the values found.
-/

namespace Synchrony

/-! ### The declarative reading -/

/-- The term holds of an actual value under a binding. -/
def Term.Holds (b : Binding) (actual : Value) : Term → Prop
  | .lit expected => actual.same expected = true
  | .var name => ∃ bound, b.get? name = some bound ∧ bound.same actual = true

/-- Every field the shape mentions is there, and its term holds of it. -/
def Shape.Holds (s : Shape) (fields : Fields) (b : Binding) : Prop :=
  ∀ key term, s.get? key = some term → ∃ actual, fields.get? key = some actual ∧ term.Holds b actual

/-- The record fits the pattern under the binding. -/
structure Pattern.Holds (p : Pattern) (r : Record) (b : Binding) : Prop where
  action : p.action = r.action
  /-- A failed action only fits a pattern that mentions the error. -/
  error : r.isError = true → p.output.contains "error" = true
  input : p.input.Holds r.input b
  output : p.output.Holds r.output b

/-! ### The values that variables meet -/

/-- The variable of a term with the value it meets. -/
def Term.found (actual : Value) : Term → List (String × Value)
  | .lit _ => []
  | .var name => [(name, actual)]

/-- The variables of some entries with the values they meet, in the order of the entries. -/
def Shape.foundIn (fields : Fields) (entries : List (String × Term)) : List (String × Value) :=
  entries.flatMap fun e => ((fields.get? e.1).map e.2.found).getD []

/-- The variables of a pattern with the values they meet in a record, those of the input first. -/
def Pattern.found (p : Pattern) (r : Record) : List (String × Value) :=
  Shape.foundIn r.input p.input.entries ++ Shape.foundIn r.output p.output.entries

/-- The variables of several patterns with the values they meet, pattern by pattern. -/
def foundBy (patterns : List Pattern) (chosen : List Record) : List (String × Value) :=
  (patterns.zip chosen).flatMap fun pr => pr.1.found pr.2

/-- All patterns hold of their records under `b`, and `b` gives a variable the first value it meets. -/
structure Fits (patterns : List Pattern) (chosen : List Record) (b : Binding) : Prop where
  holds : List.Forall₂ (fun p r => Pattern.Holds p r b) patterns chosen
  values : ∀ x, b.get? x = KeyMap.find? x (foundBy patterns chosen)

/-! ### Extending a binding -/

/-- `b'` keeps the values of `b` and gives other variables the first value that `l` has for them. -/
def Binding.Gains (b : Binding) (l : List (String × Value)) (b' : Binding) : Prop :=
  ∀ x, b'.get? x = (b.get? x).or (KeyMap.find? x l)

lemma KeyMap.find?_append {α : Type} (x : String) (l l' : List (String × α)) :
    find? x (l ++ l') = (find? x l).or (find? x l') := by
  induction l with
  | nil => simp [find?]
  | cons e rest ih =>
    obtain ⟨k, a⟩ := e
    by_cases hk : k = x <;> simp [find?, hk, ih]

namespace Binding

variable {b b₁ b₂ : Binding} {l l' : List (String × Value)}

@[simp] lemma gains_nil_iff : b.Gains [] b₁ ↔ b₁ = b := by
  constructor
  · intro h
    exact KeyMap.ext_get? fun x => by simpa [KeyMap.find?] using h x
  · rintro rfl x
    simp [KeyMap.find?]

lemma Gains.append (h : b.Gains l b₁) (h' : b₁.Gains l' b₂) : b.Gains (l ++ l') b₂ := by
  intro x
  rw [h' x, h x, KeyMap.find?_append, Option.or_assoc]

/-- A binding that gains something keeps what it had. -/
lemma Gains.get?_of_some (h : b.Gains l b₁) {x : String} {v : Value} (hx : b.get? x = some v) :
    b₁.get? x = some v := by
  rw [h x, hx, Option.some_or]

lemma gains_cons_of_some {x : String} {v w : Value} (hx : b.get? x = some v) :
    b.Gains ((x, w) :: l) b₁ ↔ b.Gains l b₁ := by
  refine forall_congr' fun y => ?_
  by_cases hy : x = y
  · subst hy
    simp [hx]
  · simp [KeyMap.find?, hy]

lemma gains_cons_of_none {x : String} {w : Value} (hx : b.get? x = none) :
    b.Gains ((x, w) :: l) b₁ ↔ Gains (b.insert x w) l b₁ := by
  refine forall_congr' fun y => ?_
  by_cases hy : x = y
  · subst hy
    simp [hx, KeyMap.find?]
  · simp [KeyMap.find?, hy, KeyMap.get?_insert_of_ne _ _ (Ne.symm hy)]

/-- From the empty binding, a binding gains exactly the first values met. -/
lemma empty_gains_iff :
    Gains .empty l b ↔ ∀ x, b.get? x = KeyMap.find? x l := by
  simp [Gains]

end Binding

lemma Term.Holds.mono {b b' : Binding} {l : List (String × Value)} {actual : Value} {t : Term}
    (h : t.Holds b actual) (hb : b.Gains l b') : t.Holds b' actual := by
  cases t with
  | lit v => exact h
  | var x =>
    obtain ⟨v, hv, hsame⟩ := h
    exact ⟨v, hb.get?_of_some hv, hsame⟩

/-! ### Unification is sound: what it gives holds and was found -/

lemma Term.unify_sound {actual : Value} {b b' : Binding} {t : Term}
    (h : t.unify actual b = some b') : t.Holds b' actual ∧ b.Gains (t.found actual) b' := by
  cases t with
  | lit v =>
    simp only [unify] at h
    split at h
    · rename_i hsame
      cases h
      exact ⟨hsame, Binding.gains_nil_iff.2 rfl⟩
    · simp at h
  | var x =>
    simp only [unify] at h
    split at h
    · rename_i v hx
      split at h
      · rename_i hsame
        cases h
        exact ⟨⟨v, hx, hsame⟩, (Binding.gains_cons_of_some hx).2 (Binding.gains_nil_iff.2 rfl)⟩
      · simp at h
    · rename_i hx
      cases h
      exact ⟨⟨actual, KeyMap.get?_insert_self .., Value.same_refl _⟩,
        (Binding.gains_cons_of_none hx).2 (Binding.gains_nil_iff.2 rfl)⟩

namespace Shape

/-- The entries hold of the fields. -/
def HoldIn (fields : Fields) (entries : List (String × Term)) (b : Binding) : Prop :=
  ∀ e ∈ entries, ∃ actual, fields.get? e.1 = some actual ∧ e.2.Holds b actual

lemma holdIn_entries_iff {s : Shape} {fields : Fields} {b : Binding} :
    HoldIn fields s.entries b ↔ s.Holds fields b := by
  constructor
  · intro h key term hterm
    exact h (key, term) (KeyMap.mem_entries_iff.2 hterm)
  · rintro h ⟨key, term⟩ hmem
    exact h key term (KeyMap.mem_entries_iff.1 hmem)

lemma Holds.mono {s : Shape} {fields : Fields} {b b' : Binding} {l : List (String × Value)}
    (h : s.Holds fields b) (hb : b.Gains l b') : s.Holds fields b' := by
  intro key term hterm
  obtain ⟨actual, hactual, hholds⟩ := h key term hterm
  exact ⟨actual, hactual, hholds.mono hb⟩

lemma holdIn_cons_iff {fields : Fields} {key : String} {term : Term} {actual : Value}
    {rest : List (String × Term)} {b : Binding} (hkey : fields.get? key = some actual) :
    HoldIn fields ((key, term) :: rest) b ↔ term.Holds b actual ∧ HoldIn fields rest b := by
  simp [HoldIn, hkey]

lemma foundIn_cons {fields : Fields} {key : String} {actual : Value} (term : Term)
    (rest : List (String × Term)) (hkey : fields.get? key = some actual) :
    foundIn fields ((key, term) :: rest) = term.found actual ++ foundIn fields rest := by
  simp [foundIn, hkey]

lemma unifyEntries_sound {fields : Fields} {entries : List (String × Term)} {b b' : Binding}
    (h : unifyEntries fields entries b = some b') :
    HoldIn fields entries b' ∧ b.Gains (foundIn fields entries) b' := by
  induction entries generalizing b with
  | nil =>
    cases h
    exact ⟨fun e he => by simp at he, Binding.gains_nil_iff.2 rfl⟩
  | cons e rest ih =>
    obtain ⟨key, term⟩ := e
    simp only [unifyEntries] at h
    split at h
    · simp at h
    rename_i actual hkey
    split at h
    · simp at h
    rename_i b₁ hterm
    obtain ⟨hholds, hgain⟩ := Term.unify_sound hterm
    obtain ⟨hrest, hgain'⟩ := ih h
    rw [holdIn_cons_iff hkey, foundIn_cons term rest hkey]
    exact ⟨⟨hholds.mono hgain', hrest⟩, hgain.append hgain'⟩

lemma unify_sound {s : Shape} {fields : Fields} {b b' : Binding} (h : s.unify fields b = some b') :
    s.Holds fields b' ∧ b.Gains (foundIn fields s.entries) b' := by
  obtain ⟨hholds, hgain⟩ := unifyEntries_sound h
  exact ⟨holdIn_entries_iff.1 hholds, hgain⟩

end Shape

namespace Pattern

lemma Holds.mono {p : Pattern} {r : Record} {b b' : Binding} {l : List (String × Value)}
    (h : p.Holds r b) (hb : b.Gains l b') : p.Holds r b' :=
  ⟨h.action, h.error, h.input.mono hb, h.output.mono hb⟩

lemma unify_sound {p : Pattern} {r : Record} {b b' : Binding} (h : p.unify r b = some b') :
    p.Holds r b' ∧ b.Gains (p.found r) b' := by
  unfold unify at h
  split at h
  · simp at h
  rename_i haction
  split at h
  · simp at h
  rename_i herror
  obtain ⟨b₁, hin, hout⟩ := Option.bind_eq_some_iff.1 h
  obtain ⟨hin, hgain⟩ := Shape.unify_sound hin
  obtain ⟨hout, hgain'⟩ := Shape.unify_sound hout
  refine ⟨⟨not_not.1 haction, fun he => ?_, hin.mono hgain', hout⟩, hgain.append hgain'⟩
  by_contra hmention
  exact herror (by simp [he, hmention])

end Pattern

/-! ### Unification is complete: it finds its way to every binding that holds -/

/-- On the way to a binding under which the term holds, unification goes one step. -/
lemma Term.exists_unify {actual : Value} {b b' : Binding} {t : Term} {l : List (String × Value)}
    (ht : t.Holds b' actual) (h : b.Gains (t.found actual ++ l) b') :
    ∃ b₁, t.unify actual b = some b₁ ∧ b₁.Gains l b' := by
  cases t with
  | lit v => exact ⟨b, by simpa [unify, Holds] using ht, h⟩
  | var x =>
    obtain ⟨v, hv, hsame⟩ := ht
    cases hx : b.get? x with
    | none => exact ⟨b.insert x actual, by simp [unify, hx], (Binding.gains_cons_of_none hx).1 h⟩
    | some w =>
      have hgain := (Binding.gains_cons_of_some hx).1 h
      rw [hgain.get?_of_some hx, Option.some.injEq] at hv
      exact ⟨b, by simp [unify, hx, hv, hsame], hgain⟩

lemma Shape.exists_unifyEntries {fields : Fields} {entries : List (String × Term)}
    {b b' : Binding} {l : List (String × Value)} (hh : HoldIn fields entries b')
    (h : b.Gains (foundIn fields entries ++ l) b') :
    ∃ b₁, unifyEntries fields entries b = some b₁ ∧ b₁.Gains l b' := by
  induction entries generalizing b with
  | nil => exact ⟨b, rfl, h⟩
  | cons e rest ih =>
    obtain ⟨key, term⟩ := e
    obtain ⟨actual, hkey, -⟩ := hh (key, term) List.mem_cons_self
    rw [holdIn_cons_iff hkey] at hh
    rw [foundIn_cons term rest hkey, List.append_assoc] at h
    obtain ⟨b₁, hterm, hgain⟩ := Term.exists_unify hh.1 h
    obtain ⟨b₂, hrest, hgain'⟩ := ih hh.2 hgain
    exact ⟨b₂, by simp only [unifyEntries, hkey, hterm, hrest], hgain'⟩

lemma Pattern.exists_unify {p : Pattern} {r : Record} {b b' : Binding}
    {l : List (String × Value)} (hp : p.Holds r b') (h : b.Gains (p.found r ++ l) b') :
    ∃ b₁, p.unify r b = some b₁ ∧ b₁.Gains l b' := by
  rw [found, List.append_assoc] at h
  obtain ⟨b₁, hin, hgain⟩ := Shape.exists_unifyEntries (Shape.holdIn_entries_iff.2 hp.input) h
  obtain ⟨b₂, hout, hgain'⟩ := Shape.exists_unifyEntries (Shape.holdIn_entries_iff.2 hp.output) hgain
  have herror : (r.isError && !p.output.contains "error") = false := by
    cases he : r.isError with
    | false => rfl
    | true => simp [hp.error he]
  refine ⟨b₂, ?_, hgain'⟩
  rw [unify, if_neg (not_not.2 hp.action), herror]
  simp [Shape.unify, hin, hout]

/-- Unification gives the one binding that gains what it finds and under which the pattern holds. -/
theorem Pattern.unify_eq_some_iff {p : Pattern} {r : Record} {b b' : Binding} :
    p.unify r b = some b' ↔ p.Holds r b' ∧ b.Gains (p.found r) b' := by
  constructor
  · exact unify_sound
  · rintro ⟨hp, h⟩
    obtain ⟨b₁, hunify, hgain⟩ := exists_unify (l := []) hp (by rwa [List.append_nil])
    rw [hunify, Binding.gains_nil_iff.1 hgain]

/-! ### The values met decide whether patterns hold -/

/-- Every variable met has a value that is the same as the values it meets. -/
def Binding.Covers (b : Binding) (l : List (String × Value)) : Prop :=
  ∀ x v, (x, v) ∈ l → ∃ w, b.get? x = some w ∧ w.same v = true

lemma Binding.covers_append_iff {b : Binding} {l l' : List (String × Value)} :
    b.Covers (l ++ l') ↔ b.Covers l ∧ b.Covers l' := by
  simp only [Covers, List.mem_append]
  exact ⟨fun h => ⟨fun x v hx => h x v (.inl hx), fun x v hx => h x v (.inr hx)⟩,
    fun h x v hx => hx.elim (h.1 x v) (h.2 x v)⟩

namespace Shape

lemma mem_foundIn_iff {s : Shape} {fields : Fields} {x : String} {v : Value} :
    (x, v) ∈ foundIn fields s.entries ↔
      ∃ key, s.get? key = some (.var x) ∧ fields.get? key = some v := by
  simp only [foundIn, List.mem_flatMap]
  constructor
  · rintro ⟨⟨key, term⟩, hmem, hfound⟩
    cases hkey : fields.get? key with
    | none => simp [hkey] at hfound
    | some actual =>
      cases term with
      | lit w => simp [hkey, Term.found] at hfound
      | var y =>
        simp only [hkey, Term.found, Option.map_some, Option.getD_some, List.mem_singleton,
          Prod.mk.injEq] at hfound
        obtain ⟨rfl, rfl⟩ := hfound
        exact ⟨key, KeyMap.mem_entries_iff.1 hmem, hkey⟩
  · rintro ⟨key, hterm, hkey⟩
    exact ⟨(key, .var x), KeyMap.mem_entries_iff.2 hterm, by simp [hkey, Term.found]⟩

lemma Holds.covers {s : Shape} {fields : Fields} {b : Binding} (h : s.Holds fields b) :
    b.Covers (foundIn fields s.entries) := by
  intro x v hmem
  obtain ⟨key, hterm, hkey⟩ := mem_foundIn_iff.1 hmem
  obtain ⟨actual, hactual, w, hw, hsame⟩ := h key _ hterm
  rw [hkey, Option.some.injEq] at hactual
  exact ⟨w, hw, hactual ▸ hsame⟩

lemma Holds.of_covers {s : Shape} {fields : Fields} {b b' : Binding} (h : s.Holds fields b)
    (hb : b'.Covers (foundIn fields s.entries)) : s.Holds fields b' := by
  intro key term hterm
  obtain ⟨actual, hkey, hholds⟩ := h key term hterm
  refine ⟨actual, hkey, ?_⟩
  cases term with
  | lit w => exact hholds
  | var x => exact hb x actual (mem_foundIn_iff.2 ⟨key, hterm, hkey⟩)

/-- A shape that holds has met exactly its variables. -/
lemma Holds.mem_vars_iff {s : Shape} {fields : Fields} {b : Binding} (h : s.Holds fields b)
    {x : String} : x ∈ s.vars ↔ ∃ v, (x, v) ∈ foundIn fields s.entries := by
  simp only [vars, List.mem_filterMap, mem_foundIn_iff]
  constructor
  · rintro ⟨⟨key, term⟩, hmem, hvar⟩
    cases term with
    | lit w => simp [Term.var?] at hvar
    | var y =>
      cases hvar
      have hterm := KeyMap.mem_entries_iff.1 hmem
      obtain ⟨actual, hkey, -⟩ := h key _ hterm
      exact ⟨actual, key, hterm, hkey⟩
  · rintro ⟨v, key, hterm, -⟩
    exact ⟨(key, .var x), KeyMap.mem_entries_iff.2 hterm, rfl⟩

end Shape

namespace Pattern

lemma Holds.covers {p : Pattern} {r : Record} {b : Binding} (h : p.Holds r b) :
    b.Covers (p.found r) :=
  Binding.covers_append_iff.2 ⟨h.input.covers, h.output.covers⟩

lemma Holds.of_covers {p : Pattern} {r : Record} {b b' : Binding} (h : p.Holds r b)
    (hb : b'.Covers (p.found r)) : p.Holds r b' := by
  obtain ⟨hin, hout⟩ := Binding.covers_append_iff.1 hb
  exact ⟨h.action, h.error, h.input.of_covers hin, h.output.of_covers hout⟩

lemma Holds.mem_vars_iff {p : Pattern} {r : Record} {b : Binding} (h : p.Holds r b) {x : String} :
    x ∈ p.vars ↔ ∃ v, (x, v) ∈ p.found r := by
  simp only [vars, found, List.mem_append, h.input.mem_vars_iff, h.output.mem_vars_iff, exists_or]

end Pattern

/-! ### The least binding -/

/-- The same variables with the same values. -/
def Binding.Agrees (b b' : Binding) : Prop :=
  ∀ x, Option.Rel (fun v w => v.same w = true) (b.get? x) (b'.get? x)

/-- The binding that gives each name the first value that a list has for it. -/
def Binding.ofFirst (l : List (String × Value)) : Binding :=
  l.foldr (fun e b => b.insert e.1 e.2) .empty

lemma Binding.get?_ofFirst (l : List (String × Value)) (x : String) :
    (ofFirst l).get? x = KeyMap.find? x l := by
  induction l with
  | nil => rfl
  | cons e rest ih =>
    by_cases hx : x = e.1
    · simp [ofFirst, KeyMap.find?, hx]
    · simpa [ofFirst, KeyMap.find?, Ne.symm hx, KeyMap.get?_insert_of_ne _ _ hx] using ih

lemma KeyMap.find?_eq_none_iff {α : Type} {x : String} {l : List (String × α)} :
    find? x l = none ↔ ∀ v, (x, v) ∉ l := by
  induction l with
  | nil => simp [find?]
  | cons e rest ih =>
    obtain ⟨k, a⟩ := e
    by_cases hk : k = x
    · subst hk
      simp only [find?, if_true, reduceCtorEq, false_iff, not_forall, not_not]
      exact ⟨a, List.mem_cons_self⟩
    · simp [find?, hk, ih, Ne.symm hk]

section FirstValues

variable {patterns : List Pattern} {chosen : List Record} {b : Binding}

lemma covers_foundBy (h : List.Forall₂ (fun p r => Pattern.Holds p r b) patterns chosen) :
    b.Covers (foundBy patterns chosen) := by
  induction h with
  | nil => exact fun x v hmem => by simp [foundBy] at hmem
  | cons hp _ ih => simpa [foundBy, Binding.covers_append_iff] using ⟨hp.covers, ih⟩

lemma holds_of_covers {b' : Binding}
    (h : List.Forall₂ (fun p r => Pattern.Holds p r b) patterns chosen)
    (hb : b'.Covers (foundBy patterns chosen)) :
    List.Forall₂ (fun p r => Pattern.Holds p r b') patterns chosen := by
  induction h with
  | nil => exact .nil
  | cons hp _ ih =>
    rw [foundBy, List.zip_cons_cons, List.flatMap_cons, Binding.covers_append_iff] at hb
    exact .cons (hp.of_covers hb.1) (ih hb.2)

lemma mem_vars_iff (h : List.Forall₂ (fun p r => Pattern.Holds p r b) patterns chosen)
    {x : String} :
    x ∈ patterns.flatMap Pattern.vars ↔ ∃ v, (x, v) ∈ foundBy patterns chosen := by
  induction h with
  | nil => simp [foundBy]
  | cons hp _ ih =>
    simp only [List.flatMap_cons, foundBy, List.zip_cons_cons, List.mem_append, exists_or,
      hp.mem_vars_iff]
    rw [ih, foundBy]

/-- A binding that the patterns fit under binds exactly their variables. -/
lemma Fits.isSome_get?_iff (h : Fits patterns chosen b) {x : String} :
    (b.get? x).isSome = true ↔ x ∈ patterns.flatMap Pattern.vars := by
  rw [mem_vars_iff h.holds, h.values x, Option.isSome_iff_ne_none, ne_eq, KeyMap.find?_eq_none_iff]
  simp

/--
If the patterns hold under any binding, they fit under the one made of the first values, and the two
agree if the first has no other variables.
-/
lemma exists_fits (h : List.Forall₂ (fun p r => Pattern.Holds p r b) patterns chosen)
    (hvars : ∀ x, (b.get? x).isSome = true ↔ x ∈ patterns.flatMap Pattern.vars) :
    ∃ b₀, Fits patterns chosen b₀ ∧ b₀.Agrees b := by
  have hcovers := covers_foundBy h
  have hget := Binding.get?_ofFirst (foundBy patterns chosen)
  have hfits : Fits patterns chosen (Binding.ofFirst (foundBy patterns chosen)) := by
    refine ⟨holds_of_covers h fun x v hmem => ?_, hget⟩
    cases hfirst : KeyMap.find? x (foundBy patterns chosen) with
    | none => exact absurd hmem (KeyMap.find?_eq_none_iff.1 hfirst v)
    | some w =>
      -- the first value met is the same as the value under `b`, and so is every other one
      obtain ⟨u, hu, hsame⟩ := hcovers x w (KeyMap.mem_of_find?_eq_some hfirst)
      obtain ⟨u', hu', hsame'⟩ := hcovers x v hmem
      rw [hu, Option.some.injEq] at hu'
      subst hu'
      exact ⟨w, (hget x).trans hfirst, Value.same_trans (Value.same_symm hsame) hsame'⟩
  refine ⟨_, hfits, fun x => ?_⟩
  cases hfirst : (Binding.ofFirst (foundBy patterns chosen)).get? x with
  | none =>
    have hnone : (b.get? x).isSome = false := by
      rw [Bool.eq_false_iff, ne_eq, hvars, ← hfits.isSome_get?_iff, hfirst]
      simp
    rw [Option.isNone_iff_eq_none.1 (Option.isSome_eq_false_iff.1 hnone)]
    exact .none
  | some w =>
    obtain ⟨u, hu, hsame⟩ := hcovers x w (KeyMap.mem_of_find?_eq_some ((hget x).symm.trans hfirst))
    rw [hu]
    exact .some (Value.same_symm hsame)

end FirstValues

end Synchrony
