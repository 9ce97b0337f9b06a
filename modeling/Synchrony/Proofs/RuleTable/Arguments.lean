import Synchrony.Proofs.Matching.Search
import Synchrony.Proofs.Route.Rules
import Synchrony.Proofs.RuleTable.Upkeep

/-!
# The arguments of consequences

A rule that is accepted is valid, hence sound (`Engine.Accepts.valid`). The binding of a match has a
value for exactly the variables of the rule's conditions, and each value is carried by the chosen
records wherever a condition has the variable (`Fits.carried`). So every consequence of a sound rule
has arguments, one for each field of its shape: a literal as it is written, or what the records carry
for the variable (`Rule.Sound.exists_arguments`).
-/

namespace Synchrony

/-! ### Values that records carry -/

/-- Wherever the shape has the variable, the fields have a value that is the same as `v`. -/
def Shape.Shows (s : Shape) (fields : Fields) (x : String) (v : Value) : Prop :=
  ∀ key, s.get? key = some (.var x) → ∃ w, fields.get? key = some w ∧ v.same w = true

/-- Wherever a pattern has the variable, its record carries a value like `v`, and once `v` itself. -/
structure Carried (patterns : List Pattern) (chosen : List Record) (x : String) (v : Value) :
    Prop where
  everywhere : List.Forall₂ (fun p r => p.input.Shows r.input x v ∧ p.output.Shows r.output x v)
    patterns chosen
  somewhere : ∃ p r key, (p, r) ∈ patterns.zip chosen ∧
    (p.input.get? key = some (.var x) ∧ r.input.get? key = some v ∨
      p.output.get? key = some (.var x) ∧ r.output.get? key = some v)

/-- What an argument is for the term at its place, if these records are chosen. -/
inductive Term.Yields (patterns : List Pattern) (chosen : List Record) : Term → Value → Prop
  | lit (v : Value) : Yields patterns chosen (.lit v) v
  | var {x : String} {v : Value} (h : Carried patterns chosen x v) :
    Yields patterns chosen (.var x) v

/-- The arguments have the fields of the shape and no others, each with what its term yields. -/
def Shape.Yields (s : Shape) (patterns : List Pattern) (chosen : List Record) (args : Fields) :
    Prop :=
  ∀ key, Option.Rel (Term.Yields patterns chosen) (s.get? key) (args.get? key)

lemma Shape.Holds.shows {s : Shape} {fields : Fields} {b : Binding} {x : String} {v : Value}
    (h : s.Holds fields b) (hx : b.get? x = some v) : s.Shows fields x v := by
  intro key hkey
  obtain ⟨w, hw, bound, hbound, hsame⟩ := h key _ hkey
  rw [hx, Option.some.injEq] at hbound
  exact ⟨w, hw, hbound ▸ hsame⟩

section Fits

variable {patterns : List Pattern} {chosen : List Record} {b : Binding}

/-- The value of a variable is carried by the chosen records. -/
lemma Fits.carried (h : Fits patterns chosen b) {x : String} {v : Value} (hx : b.get? x = some v) :
    Carried patterns chosen x v where
  everywhere := h.holds.imp fun _ _ hp => ⟨hp.input.shows hx, hp.output.shows hx⟩
  somewhere := by
    rw [h.values] at hx
    obtain ⟨⟨p, r⟩, hpr, hfound⟩ := List.mem_flatMap.1 (KeyMap.mem_of_find?_eq_some hx)
    rw [Pattern.found, List.mem_append, Shape.mem_foundIn_iff, Shape.mem_foundIn_iff] at hfound
    obtain ⟨key, hkey⟩ | ⟨key, hkey⟩ := hfound
    · exact ⟨p, r, key, hpr, .inl hkey⟩
    · exact ⟨p, r, key, hpr, .inr hkey⟩

/-- A term yields its value. -/
lemma Fits.term_yields (h : Fits patterns chosen b) {term : Term} {v : Value}
    (hv : term.value? b = .ok v) : term.Yields patterns chosen v := by
  cases term with
  | lit w =>
    cases hv
    exact .lit _
  | var x =>
    rw [Term.value?] at hv
    split at hv
    · rename_i w hx
      cases hv
      exact .var (h.carried hx)
    · cases hv

end Fits

lemma Shape.exists_value_of_resolveEntries {b : Binding} {entries : List (String × Term)}
    {fields : Fields} (h : resolveEntries b entries = .ok fields) {e : String × Term}
    (he : e ∈ entries) : ∃ v, e.2.value? b = .ok v := by
  induction entries generalizing fields with
  | nil => simp at he
  | cons head rest ih =>
    obtain ⟨v, fields', hv, hrest, -⟩ := resolveEntries_cons_eq_ok_iff.1 h
    rcases List.mem_cons.1 he with rfl | he
    · exact ⟨v, hv⟩
    · exact ih hrest he

/-- Arguments that were found are what the shape yields. -/
lemma Fits.yields {patterns : List Pattern} {chosen : List Record} {b : Binding}
    (h : Fits patterns chosen b) {s : Shape} {args : Fields} (hargs : s.resolve b = .ok args) :
    s.Yields patterns chosen args := by
  intro key
  rw [Shape.get?_of_resolve hargs]
  cases hkey : s.get? key with
  | none => exact .none
  | some term =>
    obtain ⟨v, hv⟩ :=
      Shape.exists_value_of_resolveEntries hargs (KeyMap.mem_entries_iff.2 hkey)
    rw [Option.bind_some, hv]
    exact .some (h.term_yields hv)

/-! ### Matches of a sound rule -/

namespace Rule

variable {rule : Rule} {chosen : List Record} {b : Binding}

/-- A binding that the conditions fit under is defined on the bound variables of the rule. -/
lemma keys_eq_boundVars (h : Fits rule.conditions chosen b) : b.keys = rule.boundVars := by
  rw [boundVars, sortedNames]
  refine KeyMap.keys_eq_of_contains fun x => ?_
  rw [KeyMap.contains_ofList_iff, KeyMap.contains, h.isSome_get?_iff]
  simp

/-- Every consequence has arguments, and they are what its shape yields. -/
theorem Sound.exists_arguments (hrule : rule.Sound) (h : Fits rule.conditions chosen b)
    {invocation : Invocation} (hinvocation : invocation ∈ rule.consequences) :
    ∃ args, invocation.args.resolve b = .ok args ∧
      invocation.args.Yields rule.conditions chosen args := by
  obtain ⟨args, hargs⟩ :=
    hrule.exists_resolve (fun x hx => h.isSome_get?_iff.2 hx) hinvocation
  exact ⟨args, hargs, h.yields hargs⟩

end Rule

/-! ### Accepted rules -/

namespace Engine

variable {ι : Type} {e : Engine ι} {before : List Rule} {rule : Rule}

/-- The engine installs the rule when its turn in a batch comes, behind the rules `before`. -/
def Accepts (e : Engine ι) (before : List Rule) (rule : Rule) : Prop :=
  (e.install (before ++ [rule])).1.installed = (e.install before).1.installed ++ [rule.name]

instance : Decidable (e.Accepts before rule) := inferInstanceAs (Decidable (_ = _))

/-- What is accepted is valid. -/
lemma Accepts.valid (h : e.Accepts before rule) : rule.Valid e.registry.contains := by
  by_contra hvalid
  have hsame : (e.install (before ++ [rule])).1.installed = (e.install before).1.installed := by
    change (e.rules.install e.registry.contains (before ++ [rule])).2.installed = _
    rw [RuleTable.install_concat, RuleTable.installOne_of_not_valid hvalid]
    rfl
  rw [Accepts, hsame] at h
  exact List.cons_ne_nil _ _ (List.self_eq_append_right.1 h)

end Engine

end Synchrony
