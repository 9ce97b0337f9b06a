import Synchrony.Proofs.Matching.Order
import Synchrony.Proofs.Route.Rules

/-!
# Unification computes the least extension

A binding is within another one if that has the same values for its variables (`Binding.Within`). A
pattern is met by a record under a binding if every field that its shapes mention is there with the
right value (`Pattern.Meets`). Unification leads to every extension under which the record meets the
pattern (`Pattern.exists_unify_within`), so what it gives is the least one, it succeeds the sooner the
less is bound, and it gives what it gave if it is repeated (`Pattern.unify_least`). The binding may as
well be extended in place: that is done on a copy, which is dropped where a field does not fit.
-/

namespace Synchrony

/-! ### Bindings within others -/

/-- The other binding has the same values for these variables, and may have more. -/
def Binding.Within (b e : Binding) : Prop :=
  ∀ x v, b.get? x = some v → ∃ w, e.get? x = some w ∧ v.same w = true

namespace Binding

variable {b b₁ b₂ : Binding}

lemma within_of_keeps (h : ∀ x v, b.get? x = some v → b₁.get? x = some v) : b.Within b₁ :=
  fun x v hx => ⟨v, h x v hx, v.same_refl⟩

lemma Within.trans (h : b.Within b₁) (h' : b₁.Within b₂) : b.Within b₂ := by
  intro x v hx
  obtain ⟨v₁, hx₁, hsame⟩ := h x v hx
  obtain ⟨v₂, hx₂, hsame'⟩ := h' x v₁ hx₁
  exact ⟨v₂, hx₂, Value.same_trans hsame hsame'⟩

/-- One more variable is within, if it has the same value there. -/
lemma Within.insert (h : b.Within b₁) {x : String} {v w : Value} (hx : b₁.get? x = some w)
    (hsame : v.same w = true) : Within (b.insert x v) b₁ := by
  intro y u hy
  rw [KeyMap.get?_insert] at hy
  split at hy
  · rename_i heq
    cases hy
    exact ⟨w, heq ▸ hx, hsame⟩
  · exact h y u hy

/-- Gaining values a second time adds nothing. -/
lemma Gains.again {l : List (String × Value)} (h : b.Gains l b₁) : b₁.Gains l b₁ := by
  intro x
  rw [h x, Option.or_assoc, Option.or_self]

end Binding

/-! ### Records that meet a pattern -/

/-- Every field that the shapes mention is in the record and equals its literal, or the value of its
variable. -/
structure Pattern.Meets (p : Pattern) (r : Record) (b : Binding) : Prop where
  input : p.input.Holds r.input b
  output : p.output.Holds r.output b

/-- A shape that mentions a field only holds of fields among which it is. -/
lemma Shape.Holds.contains {s : Shape} {fields : Fields} {b : Binding} (h : s.Holds fields b)
    {key : String} (hkey : s.contains key = true) : fields.contains key = true := by
  obtain ⟨term, hterm⟩ := KeyMap.contains_iff.1 hkey
  obtain ⟨actual, hactual, -⟩ := h key term hterm
  exact KeyMap.contains_iff.2 ⟨actual, hactual⟩

/-- A pattern holds if it is met, on its action, and mentions the error of a failed action only. -/
lemma Pattern.holds_iff {p : Pattern} {r : Record} {b : Binding} :
    p.Holds r b ↔ p.action = r.action ∧
      (r.isError = true ↔ p.output.contains "error" = true) ∧ p.Meets r b := by
  constructor
  · intro h
    exact ⟨h.action, ⟨h.error, h.output.contains⟩, h.input, h.output⟩
  · rintro ⟨haction, herror, hmeets⟩
    exact ⟨haction, herror.1, hmeets.input, hmeets.output⟩

/-! ### The way to every extension -/

lemma Term.exists_unify_within {t : Term} {actual : Value} {b e : Binding} (ht : t.Holds e actual)
    (hb : b.Within e) : ∃ b', t.unify actual b = some b' ∧ b'.Within e := by
  cases t with
  | lit v => exact ⟨b, by simpa [unify, Holds] using ht, hb⟩
  | var x =>
    obtain ⟨w, hw, hsame⟩ := ht
    cases hx : b.get? x with
    | none =>
      exact ⟨b.insert x actual, by simp [unify, hx], hb.insert hw (Value.same_symm hsame)⟩
    | some v =>
      obtain ⟨w', hw', hvw⟩ := hb x v hx
      rw [hw, Option.some.injEq] at hw'
      subst hw'
      exact ⟨b, by simp [unify, hx, Value.same_trans hvw hsame], hb⟩

lemma Shape.exists_unifyEntries_within {fields : Fields} {entries : List (String × Term)}
    {b e : Binding} (hh : HoldIn fields entries e) (hb : b.Within e) :
    ∃ b', unifyEntries fields entries b = some b' ∧ b'.Within e := by
  induction entries generalizing b with
  | nil => exact ⟨b, rfl, hb⟩
  | cons entry rest ih =>
    obtain ⟨key, term⟩ := entry
    obtain ⟨actual, hkey, -⟩ := hh (key, term) List.mem_cons_self
    rw [holdIn_cons_iff hkey] at hh
    obtain ⟨b₁, hterm, hb₁⟩ := Term.exists_unify_within hh.1 hb
    obtain ⟨b₂, hrest, hb₂⟩ := ih hh.2 hb₁
    exact ⟨b₂, by simp only [unifyEntries, hkey, hterm, hrest], hb₂⟩

namespace Pattern

variable {p : Pattern} {r : Record} {b b' e : Binding}

/-- On the way to any extension under which the pattern holds, unification does not stop. -/
lemma exists_unify_within (hp : p.Holds r e) (hb : b.Within e) :
    ∃ b', p.unify r b = some b' ∧ b'.Within e := by
  obtain ⟨b₁, hin, hb₁⟩ :=
    Shape.exists_unifyEntries_within (Shape.holdIn_entries_iff.2 hp.input) hb
  obtain ⟨b₂, hout, hb₂⟩ :=
    Shape.exists_unifyEntries_within (Shape.holdIn_entries_iff.2 hp.output) hb₁
  have herror : (r.isError && !p.output.contains "error") = false := by
    cases he : r.isError with
    | false => rfl
    | true => simp [hp.error he]
  refine ⟨b₂, ?_, hb₂⟩
  rw [unify, if_neg (not_not.2 hp.action), herror]
  simp [Shape.unify, hin, hout]

/-- What was bound stays as it was. -/
lemma keeps_of_unify (h : p.unify r b = some b') {x : String} {v : Value} (hx : b.get? x = some v) :
    b'.get? x = some v :=
  (unify_sound h).2.get?_of_some hx

lemma within_of_unify (h : p.unify r b = some b') : b.Within b' :=
  Binding.within_of_keeps fun _ _ => keeps_of_unify h

/-- Just the variables of the pattern are bound besides. -/
lemma contains_of_unify (h : p.unify r b = some b') (x : String) :
    b'.contains x = true ↔ b.contains x = true ∨ x ∈ p.vars := by
  obtain ⟨hp, hgain⟩ := unify_sound h
  have hfound : x ∈ p.vars ↔ (KeyMap.find? x (p.found r)).isSome = true := by
    rw [hp.mem_vars_iff, Option.isSome_iff_ne_none, ne_eq, KeyMap.find?_eq_none_iff]
    simp
  rw [KeyMap.contains, hgain x, Option.isSome_or, Bool.or_eq_true, hfound]
  rfl

/-- The result is reached again from itself. -/
lemma unify_self (h : p.unify r b = some b') : p.unify r b' = some b' := by
  obtain ⟨hp, hgain⟩ := unify_sound h
  exact unify_eq_some_iff.2 ⟨hp, hgain.again⟩

end Pattern

/-! ### What the shapes stand for under the result -/

/-- A shape that holds gives back the fields that it mentions, and no others. -/
lemma Shape.Holds.resolve {s : Shape} {fields : Fields} {b : Binding} (h : s.Holds fields b) :
    ∃ given, s.resolve b = .ok given ∧
      given.same (fields.filterKeys fun key => s.contains key) = true := by
  have hbound (x : String) (hx : x ∈ s.vars) : (b.get? x).isSome = true := by
    obtain ⟨key, hkey⟩ := Shape.mem_vars_iff.1 hx
    obtain ⟨actual, -, v, hv, -⟩ := h key _ hkey
    rw [hv]
    rfl
  obtain ⟨given, hgiven⟩ := Shape.exists_resolveEntries hbound
  refine ⟨given, hgiven, Binding.same_iff_agrees.2 fun key => ?_⟩
  rw [get?_of_resolve hgiven, KeyMap.get?_filterKeys, KeyMap.contains]
  cases hkey : s.get? key with
  | none => exact .none
  | some term =>
    obtain ⟨actual, hactual, hterm⟩ := h key term hkey
    rw [Option.bind_some, Option.isSome_some, if_pos rfl, hactual]
    cases term with
    | lit v => exact .some (Value.same_symm hterm)
    | var x =>
      obtain ⟨v, hv, hsame⟩ := hterm
      simp only [Term.value?, hv]
      exact .some hsame

/-! ### Extending in place -/

/-- One piece of work in place, and if it went well another one. -/
def Binding.andThen (first second : StateM Binding Bool) : StateM Binding Bool := do
  if ← first then second else pure false

/-- What a piece of work leaves of a copy of the binding; the copy is dropped if it did not go well. -/
def Binding.onCopy (work : StateM Binding Bool) (b : Binding) : Option Binding :=
  match work.run b with
  | (true, b') => some b'
  | (false, _) => none

/-- Lets a term hold an actual value, binding its variable in place. -/
def Term.absorb (actual : Value) : Term → StateM Binding Bool
  | lit expected => pure (actual.same expected)
  | var name => modifyGet fun b =>
    match b.get? name with
    | some bound => (bound.same actual, b)
    | none => (true, b.insert name actual)

/-- Lets each entry hold its field; what was bound before one that cannot hold stays bound. -/
def Shape.absorb (fields : Fields) : List (String × Term) → StateM Binding Bool
  | [] => pure true
  | (key, term) :: rest =>
    match fields.get? key with
    | none => pure false
    | some actual => Binding.andThen (term.absorb actual) (absorb fields rest)

/-- Lets the record fit the pattern: on a copy, so that the binding is as it was if it does not. -/
def Pattern.absorb (p : Pattern) (r : Record) : StateM Binding (Option Binding) := do
  if p.action ≠ r.action then pure none
  else if r.isError && !p.output.contains "error" then pure none
  else
    let b ← get
    pure (Binding.onCopy (Binding.andThen (Shape.absorb r.input p.input.entries)
      (Shape.absorb r.output p.output.entries)) b)

lemma Binding.onCopy_andThen (first second : StateM Binding Bool) (b : Binding) :
    onCopy (andThen first second) b = (onCopy first b).bind (onCopy second) := by
  have hrun : (andThen first second).run b =
      if (first.run b).1 then second.run (first.run b).2 else (false, (first.run b).2) := by
    rw [andThen, StateT.run_bind]
    rcases first.run b with ⟨_ | _, b'⟩ <;> rfl
  rw [onCopy, onCopy, hrun]
  rcases first.run b with ⟨_ | _, b'⟩ <;> rfl

lemma Term.onCopy_absorb (t : Term) (actual : Value) (b : Binding) :
    Binding.onCopy (t.absorb actual) b = t.unify actual b := by
  cases t with
  | lit expected =>
    have hrun : ((lit expected).absorb actual).run b = (actual.same expected, b) := rfl
    rw [Binding.onCopy, hrun, unify]
    cases actual.same expected <;> rfl
  | var name =>
    have hrun : ((var name).absorb actual).run b = match b.get? name with
      | some bound => (bound.same actual, b)
      | none => (true, b.insert name actual) := rfl
    rw [Binding.onCopy, hrun, unify]
    cases b.get? name with
    | none => rfl
    | some bound => cases hsame : bound.same actual <;> simp [hsame]

lemma Shape.onCopy_absorb (fields : Fields) (entries : List (String × Term)) (b : Binding) :
    Binding.onCopy (absorb fields entries) b = unifyEntries fields entries b := by
  induction entries generalizing b with
  | nil => rfl
  | cons entry rest ih =>
    obtain ⟨key, term⟩ := entry
    cases hkey : fields.get? key with
    | none =>
      simp only [absorb, unifyEntries, hkey]
      rfl
    | some actual =>
      simp only [absorb, unifyEntries, hkey, Binding.onCopy_andThen, Term.onCopy_absorb]
      cases term.unify actual b with
      | none => rfl
      | some b' => exact ih b'

/-- On a copy the result is the same, and the binding itself is as it was. -/
lemma Pattern.run_absorb (p : Pattern) (r : Record) (b : Binding) :
    (p.absorb r).run b = (p.unify r b, b) := by
  rw [absorb, unify]
  split
  · rfl
  split
  · rfl
  change (Binding.onCopy _ b, b) = _
  rw [Binding.onCopy_andThen, Shape.onCopy_absorb]
  simp only [Shape.onCopy_absorb]
  rfl

/-! ### The least extension -/

/-- `b'` is the least extension of `b` under which the record fits the pattern. -/
structure Pattern.Least (p : Pattern) (r : Record) (b b' : Binding) : Prop where
  keeps : ∀ x v, b.get? x = some v → b'.get? x = some v
  binds : ∀ x, b'.contains x = true ↔ b.contains x = true ∨ x ∈ p.vars
  meets : p.Meets r b'
  least : ∀ e, b.Within e → p.Meets r e → b'.Within e
  again : p.unify r b' = some b'
  /-- The shapes stand for the fields that they mention. -/
  input : ∃ given, p.input.resolve b' = .ok given ∧
    given.same (r.input.filterKeys fun key => p.input.contains key) = true
  output : ∃ given, p.output.resolve b' = .ok given ∧
    given.same (r.output.filterKeys fun key => p.output.contains key) = true

namespace Pattern

variable {p : Pattern} {r : Record} {b b' : Binding}

lemma least_of_unify (h : p.unify r b = some b') : p.Least r b b' where
  keeps _ _ := keeps_of_unify h
  binds := contains_of_unify h
  meets := (holds_iff.1 (unify_sound h).1).2.2
  least e hb he := by
    obtain ⟨haction, herror, -⟩ := holds_iff.1 (unify_sound h).1
    obtain ⟨b₁, hunify, hwithin⟩ := exists_unify_within (holds_iff.2 ⟨haction, herror, he⟩) hb
    rw [h, Option.some.injEq] at hunify
    exact hunify ▸ hwithin
  again := unify_self h
  input := (unify_sound h).1.input.resolve
  output := (unify_sound h).1.output.resolve

/-- Less is asked of a record if less is bound. -/
lemma exists_unify_of_within {b₀ : Binding} (hb : b₀.Within b) (h : p.unify r b = some b') :
    ∃ b₁, p.unify r b₀ = some b₁ ∧ b₁.Within b' :=
  exists_unify_within (unify_sound h).1 (hb.trans (within_of_unify h))

/--
Unification succeeds exactly if the record is one of the pattern's action, an error if and only if the
pattern mentions one, and meets the pattern under some extension of the binding. It then gives the least
one. With less bound it gives no more, and the binding it starts from stays as it is.
-/
theorem unify_least (p : Pattern) (r : Record) (b : Binding) :
    ((p.unify r b).isSome = true ↔
      p.action = r.action ∧ (r.isError = true ↔ p.output.contains "error" = true) ∧
        ∃ e, b.Within e ∧ p.Meets r e) ∧
      (∀ b', p.unify r b = some b' → p.Least r b b') ∧
      (∀ b' b₀, p.unify r b = some b' → b₀.Within b →
        ∃ b₁, p.unify r b₀ = some b₁ ∧ b₁.Within b') ∧
      (p.absorb r).run b = (p.unify r b, b) := by
  refine ⟨⟨fun h => ?_, ?_⟩, fun b' => least_of_unify, fun b' b₀ h hb => exists_unify_of_within hb h,
    run_absorb p r b⟩
  · obtain ⟨b', hb'⟩ := Option.isSome_iff_exists.1 h
    obtain ⟨haction, herror, hmeets⟩ := holds_iff.1 (unify_sound hb').1
    exact ⟨haction, herror, b', within_of_unify hb', hmeets⟩
  · rintro ⟨haction, herror, e, hb, he⟩
    obtain ⟨b', hb', -⟩ := exists_unify_within (holds_iff.2 ⟨haction, herror, he⟩) hb
    rw [hb']
    rfl

end Pattern

end Synchrony
