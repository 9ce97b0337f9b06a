import Synchrony.Proofs.ListCreation.Effects

/-!
# Calls at one desk

Any number of calls of the concept share the store, and take their steps in any order that the write
lock allows (`Desk.Step`); other concepts use other collections meanwhile. However the steps fall,
the lists stay in order (`Desk.Sound`): each call that holds the lock can still rely on what it saw,
since the only calls that do not wait for the lock are queries and deletions.
-/

namespace Synchrony.ListCreation

/-! ### Steps -/

/-- The calls so far, the one that holds the lock, and those that took the lock, in their order. -/
structure Desk where
  resources : Resources
  calls : List Call := []
  holder : Option Nat := none
  turns : List Nat := []

/-- What others do meanwhile: they use other collections, and change what is no store. -/
inductive Elsewhere (store : String) (r : Resources) : Resources → Prop where
  | operation (name : String) (op : Store.Op) (hne : name ≠ store ∨ op.collection ≠ lists) :
      Elsewhere store r (r.onStore name op).2
  | other {r' : Resources} (hstores : r'.stores = r.stores) (hdrawn : r.drawn ≤ r'.drawn) :
      Elsewhere store r r'

lemma Has.of_elsewhere {store : String} {entries : List Entry} {r r' : Resources}
    (h : Has store entries r) (hr : Elsewhere store r r') : Has store entries r' := by
  cases hr with
  | operation name op hne => exact Resources.Keeps.onStore_of_ne h hne
  | other hstores hdrawn =>
    have hstored : r'.storeNamed store = r.storeNamed store := by
      rw [Resources.storeNamed, hstores, Resources.storeNamed]
    rw [Has, Resources.Keeps, hstored]
    exact Store.Keeps.mono h (Resources.drawnIds_subset hdrawn)

lemma Elsewhere.drawnIds_subset {store : String} {r r' : Resources} (h : Elsewhere store r r') :
    r.drawnIds ⊆ r'.drawnIds := by
  apply Resources.drawnIds_subset
  cases h with
  | operation name op hne =>
    rw [(r.leaves_onStore name op).drawn]
    split <;> omega
  | other hstores hdrawn => exact hdrawn

namespace Desk

/-- The desk with another state of one call, and with other resources. -/
def put (d : Desk) (i : Nat) (c : Call) (r : Resources) : Desk :=
  { d with resources := r, calls := d.calls.set i c }

/-- A call takes the lock, does one step of its work, or gives the lock back. -/
inductive Moves (i : Nat) (d : Desk) : Desk → Prop where
  | lock {c : Call} (hcall : d.calls[i]? = some c) (hlocks : holdsLock c.action = true)
      (hleft : c.left.result? = none) (hfree : d.holder = none) :
      Moves i d { d with holder := some i, turns := d.turns ++ [i] }
  | act {c : Call} {left : Work} {r : Resources} (hcall : d.calls[i]? = some c)
      (hlock : holdsLock c.action = true → d.holder = some i)
      (hadvance : c.left.advance d.resources = some (left, r)) :
      Moves i d (d.put i { c with left } r)
  | unlock {c : Call} (hcall : d.calls[i]? = some c) (hended : c.left.result?.isSome = true)
      (hholder : d.holder = some i) : Moves i d { d with holder := none }

/-- A call begins or moves, or something happens elsewhere. -/
inductive Step (store : String) (d : Desk) : Desk → Prop where
  | begin (action : String) (input : Fields) :
      Step store d
        { d with calls := d.calls ++ [⟨action, input, (concept store).perform action input⟩] }
  | moves {i : Nat} {d' : Desk} (h : Moves i d d') : Step store d d'
  | elsewhere {r : Resources} (h : Elsewhere store d.resources r) :
      Step store d { d with resources := r }

/-- Any number of steps. -/
def Reaches (store : String) : Desk → Desk → Prop := Relation.ReflTransGen (Step store)

/-! ### What stays true -/

/-- Where a call stands: at its beginning, at its end, or in between with the lock. -/
inductive Stage (store : String) (entries : List Entry) (d : Desk) (i : Nat) (c : Call) : Prop where
  | begun (hleft : c.left = (concept store).perform c.action c.input)
  | ended (hended : c.left.result?.isSome = true)
  | underway (hholder : d.holder = some i) (hlocks : holdsLock c.action = true)
      (hunderway : c.Underway store entries)

/-- The store has these lists, they are in order, and each call stands where it can rely on them. -/
structure Sound (store : String) (d : Desk) (entries : List Entry) : Prop where
  has : Has store entries d.resources
  orderly : Orderly entries
  stages : ∀ i c, d.calls[i]? = some c → Stage store entries d i c
  holder : ∀ i, d.holder = some i → ∃ c, d.calls[i]? = some c ∧ holdsLock c.action = true

variable {store : String} {d d' : Desk} {entries entries' : List Entry} {i : Nat} {c : Call}
  {left : Work} {r : Resources}

lemma getElem?_put (hcall : d.calls[i]? = some c) (c' : Call) (r : Resources) (j : Nat) :
    (d.put i c' r).calls[j]? = if i = j then some c' else d.calls[j]? := by
  obtain ⟨hlt, -⟩ := List.getElem?_eq_some_iff.1 hcall
  rw [put, List.getElem?_set, if_pos hlt]

lemma getElem?_concat_eq_some_iff {calls : List Call} {new : Call} :
    (calls ++ [new])[i]? = some c ↔ calls[i]? = some c ∨ i = calls.length ∧ new = c := by
  rcases Nat.lt_trichotomy i calls.length with hlt | rfl | hgt
  · rw [List.getElem?_append_left hlt]
    simp [Nat.ne_of_lt hlt]
  · simp
  · rw [List.getElem?_eq_none (by simpa using hgt), List.getElem?_eq_none (Nat.le_of_lt hgt)]
    simp [Nat.ne_of_gt hgt]

/-- A call stands where it stood as long as it keeps the lock that it has. -/
lemma Stage.keep (h : Stage store entries d i c)
    (hholder : d.holder = some i → d'.holder = some i) : Stage store entries d' i c := by
  cases h with
  | begun hleft => exact .begun hleft
  | ended hended => exact .ended hended
  | underway hheld hlocks hunderway => exact .underway (hholder hheld) hlocks hunderway

namespace Sound

lemma begin (h : Sound store d entries) (action : String) (input : Fields) :
    Sound store
      { d with calls := d.calls ++ [⟨action, input, (concept store).perform action input⟩] }
      entries := by
  refine ⟨h.has, h.orderly, fun j c hc => ?_, fun j hj => ?_⟩
  · rcases getElem?_concat_eq_some_iff.1 hc with hc | ⟨-, rfl⟩
    · exact (h.stages j c hc).keep id
    · exact .begun rfl
  · obtain ⟨c, hc, hlocks⟩ := h.holder j hj
    exact ⟨c, getElem?_concat_eq_some_iff.2 (.inl hc), hlocks⟩

lemma lock (h : Sound store d entries) (hcall : d.calls[i]? = some c)
    (hlocks : holdsLock c.action = true) (hfree : d.holder = none) :
    Sound store { d with holder := some i, turns := d.turns ++ [i] } entries := by
  refine ⟨h.has, h.orderly, fun j c' hc' => ?_, fun j hj => ?_⟩
  · exact (h.stages j c' hc').keep fun hheld => absurd (hfree.symm.trans hheld) (by simp)
  · cases hj
    exact ⟨c, hcall, hlocks⟩

lemma unlock (h : Sound store d entries) (hcall : d.calls[i]? = some c)
    (hended : c.left.result?.isSome = true) (hholder : d.holder = some i) :
    Sound store { d with holder := none } entries := by
  refine ⟨h.has, h.orderly, fun j c' hc' => ?_, by rintro j ⟨⟩⟩
  cases h.stages j c' hc' with
  | begun hleft => exact .begun hleft
  | ended hended => exact .ended hended
  | underway hother =>
    obtain rfl := Option.some.inj (hholder.symm.trans hother)
    exact .ended (Option.some.inj (hcall.symm.trans hc') ▸ hended)

lemma elsewhere (h : Sound store d entries) (hr : Elsewhere store d.resources r) :
    Sound store { d with resources := r } entries :=
  ⟨h.has.of_elsewhere hr, h.orderly, fun j c hc => (h.stages j c hc).keep id, h.holder⟩

/-- A step of a call that is not at its end. -/
lemma act (h : Sound store d entries) (hcall : d.calls[i]? = some c)
    (hlock : holdsLock c.action = true → d.holder = some i)
    (hadvance : c.left.advance d.resources = some (left, r)) :
    ∃ entries', Sound store (d.put i { c with left } r) entries' ∧
      Call.Acts store d.resources entries c left r entries' := by
  have hacts : ∃ entries', Call.Acts store d.resources entries c left r entries' := by
    cases h.stages i c hcall with
    | begun hleft => exact Call.acts_perform h.has h.orderly (hleft ▸ hadvance)
    | ended hended =>
      rw [Work.advance_eq_none_iff.2 hended] at hadvance
      cases hadvance
    | underway _ hlocks hunderway => exact Call.acts_underway h.has h.orderly hlocks hunderway hadvance
  obtain ⟨entries', hacts⟩ := hacts
  refine ⟨entries', ⟨hacts.has, hacts.orderly, fun j c' hc' => ?_, fun j hj => ?_⟩, hacts⟩
  · rw [getElem?_put hcall] at hc'
    split at hc'
    · rename_i heq
      cases hc'
      subst heq
      rcases hacts.goes with hended | ⟨hlocks, hunderway⟩
      · exact .ended hended
      · exact .underway (hlock hlocks) hlocks hunderway
    · rename_i hne
      cases h.stages j c' hc' with
      | begun hleft => exact .begun hleft
      | ended hended => exact .ended hended
      | underway hholder hlocks hunderway =>
        -- the call that moves does not have the lock
        have hnot : ¬ holdsLock c.action = true := fun hlocks =>
          hne (Option.some.inj ((hlock hlocks).symm.trans hholder))
        exact .underway hholder hlocks (hunderway.subset (hacts.effect.subset hnot))
  · obtain ⟨c', hc', hlocks⟩ := h.holder j hj
    rw [getElem?_put hcall]
    split
    · rename_i heq
      subst heq
      exact ⟨_, rfl, Option.some.inj (hcall.symm.trans hc') ▸ hlocks⟩
    · exact ⟨c', hc', hlocks⟩

end Sound

/-! ### Calls that have the desk to themselves -/

/-- A call that may take steps takes all the steps of its work. -/
lemma reaches_put (hcall : d.calls[i]? = some c)
    (hlock : holdsLock c.action = true → d.holder = some i) {b : Work × Resources}
    (hsteps : Relation.ReflTransGen Work.Advances (c.left, d.resources) b) :
    Reaches store d (d.put i { c with left := b.1 } b.2) := by
  induction hsteps with
  | refl =>
    have hsame : d.calls.set i c = d.calls := by
      obtain ⟨hlt, rfl⟩ := List.getElem?_eq_some_iff.1 hcall
      exact List.set_getElem_self hlt
    rw [put, hsame]
    exact .refl
  | @tail a b _ hstep ih =>
    have hnow : (d.put i { c with left := a.1 } a.2).calls[i]? = some { c with left := a.1 } := by
      rw [getElem?_put hcall, if_pos rfl]
    have hmoves := Moves.act hnow hlock hstep
    have hput : (d.put i { c with left := a.1 } a.2).put i { c with left := b.1 } b.2 =
        d.put i { c with left := b.1 } b.2 := by simp [put]
    exact ih.tail (.moves (hput ▸ hmoves))

/-- Where nobody has the lock, a call can come to its end at once, as if it was alone. -/
theorem exists_reaches_of_run (hfree : d.holder = none) {action : String} {input : Fields}
    {result : Except ConceptError Fields}
    (hrun : ((concept store).perform action input).run d.resources = (.finished result, r)) :
    ∃ d', Reaches store d d' ∧ d'.resources = r ∧ d'.holder = none ∧
      d'.calls = d.calls ++ [⟨action, input, .done result⟩] := by
  let c : Call := ⟨action, input, (concept store).perform action input⟩
  let d₁ : Desk := { d with calls := d.calls ++ [c] }
  have hbegin : Reaches store d d₁ := .single (.begin action input)
  have hcall : d₁.calls[d.calls.length]? = some c :=
    getElem?_concat_eq_some_iff.2 (.inr ⟨rfl, rfl⟩)
  have hsteps : Relation.ReflTransGen Work.Advances (c.left, d₁.resources) (.done result, r) :=
    Work.steps_of_run hrun
  have hset : (d.calls ++ [c]).set d.calls.length { c with left := .done result } =
      d.calls ++ [⟨action, input, .done result⟩] := by simp [c]
  by_cases hlocks : holdsLock action = true
  · cases hleft : c.left.result? with
    | none =>
      let d₂ : Desk := { d₁ with holder := some d.calls.length, turns := d.turns ++ [d.calls.length] }
      have hlock : Step store d₁ d₂ := .moves (.lock hcall hlocks hleft hfree)
      have hcall' : d₂.calls[d.calls.length]? = some c := hcall
      have hdone : Reaches store d₂ (d₂.put d.calls.length { c with left := .done result } r) :=
        reaches_put hcall' (fun _ => rfl) hsteps
      have hended : (d₂.put d.calls.length { c with left := .done result } r).calls[d.calls.length]? =
          some { c with left := .done result } := by
        rw [getElem?_put hcall', if_pos rfl]
      have hunlock := Moves.unlock hended rfl rfl
      exact ⟨_, ((hbegin.tail hlock).trans hdone).tail (.moves hunlock), rfl, rfl, hset⟩
    | some x =>
      -- the arguments are refused, and the call is over without the lock
      have hdone := Work.eq_done_of_result? hleft
      rw [hdone] at hsteps
      rcases Relation.ReflTransGen.cases_head hsteps with heq | ⟨b, hstep, -⟩
      · obtain ⟨hresult, rfl⟩ := Prod.mk.inj heq
        refine ⟨d₁, hbegin, rfl, hfree, ?_⟩
        rw [← hresult, ← hdone]
      · cases hstep
  · exact ⟨_, hbegin.trans (reaches_put hcall (fun h => absurd h hlocks) hsteps), rfl, hfree, hset⟩

end Desk

end Synchrony.ListCreation
