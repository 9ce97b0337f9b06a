import Synchrony.Proofs.ListCreation.Desk
import Synchrony.Proofs.ListCreation.Queries
import Synchrony.Proofs.Work.Uses

/-!
# Lists that are created

A list is created exactly if it has a name that no other list has, and then has the owner that the
call was given (`Has.run_newList`). Queries show it with that owner, and list it for that owner
only.
-/

namespace Synchrony.ListCreation

variable {store name : String} {owner : Option String} {entries : List Entry} {e : Entry}
  {r r' : Resources} {input : Fields} {w : Work}

/-- The call creates this list beside those that are stored. -/
structure Creates (store : String) (entries : List Entry) (input : Fields) (e : Entry)
    (r' : Resources) :
    Prop where
  name : Arguments.name input "listName" = .ok e.name
  owner : Arguments.optionalText input "owner" = .ok e.owner
  new : ∀ f ∈ entries, f.name ≠ e.name
  items : e.items = []
  has : Has store (entries ++ [e]) r'

/-- The lists are in order beside the new one. -/
lemma Creates.orderly (h : Creates store entries input e r') (horderly : Orderly entries) :
    Orderly (entries ++ [e]) :=
  horderly.create (isName_of_name h.name) h.new h.items

namespace Has

section

variable (h : Has store entries r)
include h

/-- Work on other collections leaves the lists as they are. -/
lemma run_of_uses (hw : w.Uses fun _ op => op.collection ≠ lists) : Has store entries (w.run r).2 :=
  hw.run (fun _ _ _ hne hr => hr.of_elsewhere (.operation _ _ (.inr hne)))
    (fun _ _ hstores hdrawn hr => hr.of_elsewhere (.other hstores hdrawn)) h

/-- A call with a name and perhaps an owner creates a list unless there is one of that name. -/
lemma run_newList_of_ok (hname : Arguments.name input "listName" = .ok name)
    (howner : Arguments.optionalText input "owner" = .ok owner) :
    (∃ e r', (newList store input).run r = (.finished (.ok (named e.id)), r') ∧
        Creates store entries input e r') ∨
      ∃ r', (newList store input).run r =
          (.finished (.ok (errorOutput s!"List with name '{name}' already exists.")), r') ∧
        (∃ e ∈ entries, e.name = name) ∧ r.Untouched r' := by
  obtain ⟨found, r₁, hr, hsome, hsame⟩ := h.onStore_findOne name
  rw [newList, hname, howner, Work.given, Work.given, Work.run_onStore_of_ok hr]
  cases found with
  | some doc => exact .inr ⟨r₁, rfl, hsome.1 rfl, hsame⟩
  | none =>
    have hnew : ∀ e ∈ entries, e.name ≠ name := by simpa using hsome
    have hhas : Has store entries r₁.readClock.2 :=
      (h.of_untouched hsame).of_untouched ⟨rfl, fun _ => rfl⟩
    obtain ⟨r', hinsert, hhas', -⟩ := hhas.onStore_insert name owner r₁.readClock.1
    let e : Entry :=
      ⟨Resources.idText (r₁.readClock.2.drawn + 1), name, owner, [], r₁.readClock.1.offsetText⟩
    exact .inl ⟨e, r', Work.run_onStore_of_ok hinsert, hname, howner, hnew, rfl, hhas'⟩

/-- A call creates a list, or says what is wrong and changes nothing. -/
theorem run_newList (input : Fields) :
    (∃ e r', (newList store input).run r = (.finished (.ok (named e.id)), r') ∧
        Creates store entries input e r') ∨
      ∃ result r', (newList store input).run r = (.finished result, r') ∧
        (outputOf result).contains "error" = true ∧ r.Untouched r' := by
  cases hname : Arguments.name input "listName" with
  | error err =>
    refine .inr ⟨.error err, r, ?_, rfl, rfl, fun _ => rfl⟩
    rw [newList, hname]
    rfl
  | ok name =>
    cases howner : Arguments.optionalText input "owner" with
    | error err =>
      refine .inr ⟨.error err, r, ?_, rfl, rfl, fun _ => rfl⟩
      rw [newList, hname, howner]
      rfl
    | ok owner =>
      rcases h.run_newList_of_ok hname howner with hcreated | ⟨r', hrun, -, hsame⟩
      · exact .inl hcreated
      · exact .inr ⟨_, r', hrun, rfl, hsame⟩

/-- A query for a list shows it. -/
lemma run_getList (he : e ∈ entries) (hlist : Arguments.text input "list" = .ok e.id) :
    ∃ r', (getList store input).run r = (.finished (.ok (view e.doc)), r') ∧ r.Untouched r' := by
  obtain ⟨r', hr, hsame⟩ := h.onStore_get_of_mem he
  refine ⟨r', ?_, hsame⟩
  rw [getList, hlist, Work.given, Work.run_onStore_of_ok hr]
  rfl

end

end Has

end Synchrony.ListCreation
