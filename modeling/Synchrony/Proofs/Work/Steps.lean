import Mathlib.Logic.Relation
import Synchrony.Concepts.Arguments
import Synchrony.Proofs.Work.Resources

/-!
# Work in single steps

`Work.run` does work without a break. When several calls are under way, each takes its turn for one
step: one operation on a store, one reading of the clock, one look at a slot or a cell
(`Work.advance`). Work that is run without a pause takes these steps one after the other
(`Work.steps_of_run`). `Work.Ends` says that work comes to a result with a property, whatever the
store answers and the clock shows, and neither pauses nor touches the response slots.
-/

namespace Synchrony.Work

/-- The result of work that is at its end. -/
def result? : Work → Option (Except ConceptError Fields)
  | done result => some result
  | _ => none

/-- Does one step of work, unless it is at its end. -/
def advance (r : Resources) : Work → Option (Work × Resources)
  | done _ => none
  | store name op next =>
    let (result, r) := r.onStore name op
    some (next result, r)
  | clock next =>
    let (time, r) := r.readClock
    some (next time, r)
  | cell name change next =>
    let contents := change ((r.cells.get? name).getD .empty)
    some (next contents, { r with cells := r.cells.insert name contents })
  | request next =>
    let (id, r) := r.drawId
    some (next id, { r with slots := r.slots.request id })
  | respond id payload next =>
    match r.slots.respond id payload with
    | .ok slots => some (next (.ok ()), { r with slots })
    | .error e => some (next (.error e), r)
  | pause _ next => some (next, r)

/-- One step of work, with what it makes of the resources. -/
def Advances (a b : Work × Resources) : Prop := a.1.advance a.2 = some b

variable {w : Work} {r r' : Resources} {result : Except ConceptError Fields}

lemma advance_eq_none_iff : w.advance r = none ↔ w.result?.isSome = true := by
  cases w with
  | respond id payload next =>
    rw [advance]
    split
    all_goals simp [result?]
  | done result => simp [advance, result?]
  | store | clock | cell | request | pause => simp [advance, result?]

lemma eq_done_of_result? (h : w.result? = some result) : w = .done result := by
  cases w with
  | done x =>
    cases h
    rfl
  | store | clock | cell | request | respond | pause => cases h

/-- No step turns a store into one of the other kind. -/
lemma isDurable_of_advance {b : Work × Resources} (h : w.advance r = some b) (name : String) :
    (b.2.storeNamed name).isDurable = (r.storeNamed name).isDurable := by
  cases w with
  | done x => cases h
  | store other op next =>
    cases h
    exact r.isDurable_onStore other op name
  | respond id payload next =>
    rw [advance] at h
    split at h
    all_goals
      cases h
      rfl
  | clock | cell | request | pause =>
    cases h
    rfl

/-! ### Arguments and stores -/

/-- Work that goes on has the argument that it was given. -/
lemma exists_of_advance_given {α : Type} {argument : Except ConceptError α} {next : α → Work}
    {b : Work × Resources} (h : (given argument next).advance r = some b) :
    ∃ a, argument = .ok a ∧ (next a).advance r = some b := by
  cases argument with
  | ok a => exact ⟨a, rfl, h⟩
  | error e => cases h

lemma advance_onStore_of_ok {name : String} {op : Store.Op} {next : op.Result → Work}
    {x : op.Result}
    (h : r.onStore name op = (.ok x, r')) : (onStore name op next).advance r = some (next x, r') := by
  simp [onStore, advance, h]

lemma advance_onStore_of_error {name : String} {op : Store.Op} {next : op.Result → Work}
    {e : StoreError} (h : r.onStore name op = (.error e, r')) :
    (onStore name op next).advance r = some (fail (.store e), r') := by
  simp [onStore, advance, h]

lemma run_onStore_of_ok {name : String} {op : Store.Op} {next : op.Result → Work} {x : op.Result}
    (h : r.onStore name op = (.ok x, r')) : (onStore name op next).run r = (next x).run r' := by
  simp [onStore, run, h]

/-! ### Runs -/

/-- Work comes to one result only. -/
lemma eq_of_run {x y : Except ConceptError Fields} {r₁ r₂ : Resources}
    (h : w.run r = (.finished x, r₁)) (h' : w.run r = (.finished y, r₂)) : x = y ∧ r₁ = r₂ := by
  cases h.symm.trans h'
  exact ⟨rfl, rfl⟩

/-- Work that begins with an operation on a store fails with it, or goes on with its result. -/
lemma run_onStore_cases {name : String} {op : Store.Op} {next : op.Result → Work}
    (h : (onStore name op next).run r = (.finished result, r')) :
    (∃ e, r.onStore name op = (.error e, r')) ∨
      ∃ x r₁, r.onStore name op = (.ok x, r₁) ∧ (next x).run r₁ = (.finished result, r') := by
  rcases hr : r.onStore name op with ⟨found, r₁⟩
  cases found with
  | error e =>
    have hfailed : (onStore name op next).run r = (.finished (.error (.store e)), r₁) := by
      simp [onStore, run, hr, fail]
    obtain ⟨-, rfl⟩ := eq_of_run hfailed h
    exact .inl ⟨e, rfl⟩
  | ok x =>
    rw [run_onStore_of_ok hr] at h
    exact .inr ⟨x, r₁, rfl, h⟩

/-- Work that is run to its result gets there step by step. -/
theorem steps_of_run (h : w.run r = (.finished result, r')) :
    Relation.ReflTransGen Advances (w, r) (.done result, r') := by
  induction w generalizing r with
  | done x =>
    cases h
    exact .refl
  | store name op next ih => exact .head rfl (ih _ h)
  | clock next ih => exact .head rfl (ih _ h)
  | cell name change next ih => exact .head rfl (ih _ h)
  | request next ih => exact .head rfl (ih _ h)
  | respond id payload next ih =>
    rw [run] at h
    split at h
    all_goals
      rename_i hslots
      refine .head ?_ (ih _ h)
      rw [Advances, advance, hslots]
  | pause ms next ih =>
    rw [run] at h
    split at h
    · exact .head rfl (ih h)
    · cases h

/-! ### Work that ends -/

/--
The work ends in a result with the property, whatever the store and the clock say, without a pause
and without a look at the response slots.
-/
inductive Ends (P : Except ConceptError Fields → Prop) : Work → Prop where
  | done {result : Except ConceptError Fields} (h : P result) : Ends P (.done result)
  | store {name : String} {op : Store.Op} {next : Except StoreError op.Result → Work}
      (h : ∀ answer, Ends P (next answer)) : Ends P (.store name op next)
  | clock {next : Timestamp → Work} (h : ∀ time, Ends P (next time)) : Ends P (.clock next)

namespace Ends

variable {P : Except ConceptError Fields → Prop}

/-- Work that ends runs to its result in any resources, however the database fails, and leaves the
slots as they are. -/
theorem exists_run (h : w.Ends P) (r : Resources) (fails : Nat → Store.Failures) :
    ∃ result r', w.run r fails = (.finished result, r') ∧ P result ∧ r'.slots = r.slots := by
  induction h generalizing r fails with
  | done h => exact ⟨_, r, rfl, h, rfl⟩
  | @store name op next _ ih =>
    obtain ⟨result, r', hrun, hresult, hslots⟩ :=
      ih (r.onStore name op (fails 0)).1 (r.onStore name op (fails 0)).2 fun n => fails (n + 1)
    refine ⟨result, r', hrun, hresult, hslots.trans ?_⟩
    rw [Resources.onStore]
    cases Store.takesId op <;> rfl
  | clock _ ih =>
    obtain ⟨result, r', hrun, hresult, hslots⟩ := ih r.readClock.1 r.readClock.2 fails
    exact ⟨result, r', hrun, hresult, hslots⟩

lemma given {α : Type} {argument : Except ConceptError α} {next : α → Work}
    (herror : ∀ e, P (.error e)) (h : ∀ a, (next a).Ends P) : (Work.given argument next).Ends P := by
  cases argument with
  | ok a => exact h a
  | error e => exact .done (herror e)

lemma onStore {name : String} {op : Store.Op} {next : op.Result → Work}
    (herror : ∀ e, P (.error e)) (h : ∀ answer, (next answer).Ends P) :
    (Work.onStore name op next).Ends P := by
  apply Ends.store
  intro answer
  cases answer with
  | ok answer => exact h answer
  | error e => exact .done (herror (.store e))

end Ends

end Synchrony.Work
