import Synchrony.Proofs.ListCreation.History
import Synchrony.Proofs.ListCreation.Queries

/-!
# What callers of the lists can rely on

From an empty collection on, whatever calls are made and however their steps fall, the lists are in
order at every moment, no change is lost, what was deleted stays deleted, a call that fails changes
nothing, and a query shows exactly the lists of the owner in the order of their names
(`Desk.lists_reliable`).
-/

namespace Synchrony.ListCreation

open ListCreation.Call (Deed)

/-- The call is at its end and failed: with an error, or with an output that has one. -/
def Call.Fails (c : Call) : Prop :=
  (∃ e, c.left = .done (.error e)) ∨
    ∃ output, c.left = .done (.ok output) ∧ output.contains "error" = true

namespace Desk

variable {store : String} {d d' d'' : Desk} {entries entries' : List Entry} {i : Nat} {c : Call}
  {left : Work} {r : Resources} {id : String}

/-- The list of this identifier is stored. -/
def Stores (store : String) (d : Desk) (id : String) : Prop :=
  ∃ docs, contents store d.resources = .ok docs ∧ ∃ doc ∈ docs, doc.string? Store.idField = some id

lemma Kept.stores_iff (h : Kept store d entries) :
    d.Stores store id ↔ ∃ e ∈ entries, e.id = id := by
  obtain ⟨docs, hdocs, hperm⟩ := h.sound.has.exists_contents
  rw [Stores, hdocs]
  constructor
  · rintro ⟨_, ⟨⟩, doc, hdoc, hid⟩
    obtain ⟨e, he, rfl⟩ := List.mem_map.1 (hperm.mem_iff.1 hdoc)
    rw [Entry.string?_doc_id] at hid
    exact ⟨e, he, Option.some.inj hid⟩
  · rintro ⟨e, he, rfl⟩
    exact ⟨docs, rfl, e.doc, hperm.mem_iff.2 (List.mem_map_of_mem he), e.string?_doc_id⟩

/-! ### Calls at their end -/

lemma Step.ended (h : Step store d d') (hcall : d.calls[i]? = some c)
    (hended : c.left.result?.isSome = true) : d'.calls[i]? = some c := by
  cases h with
  | begin action input => exact getElem?_concat_eq_some_iff.2 (.inl hcall)
  | elsewhere hr => exact hcall
  | @moves j d' hmoves =>
    cases hmoves with
    | lock | unlock => exact hcall
    | @act a left r hother hlock hadvance =>
      rw [getElem?_put hother, if_neg, hcall]
      rintro rfl
      obtain rfl := Option.some.inj (hother.symm.trans hcall)
      rw [Work.advance_eq_none_iff.2 hended] at hadvance
      cases hadvance

/-- A call that is at its end stays as it is. -/
lemma Reaches.ended (h : Reaches store d d') (hcall : d.calls[i]? = some c)
    (hended : c.left.result?.isSome = true) : d'.calls[i]? = some c := by
  induction h with
  | refl => exact hcall
  | tail _ hstep ih => exact hstep.ended ih hended

lemma result?_of_deed? {deed : Deed} (h : c.deed? = some deed) : c.left.result?.isSome = true := by
  cases hresult : c.left.result? with
  | some x => rfl
  | none =>
    rw [Call.deed?_eq_none_of_result? hresult] at h
    cases h

lemma Did.reaches {deed : Deed} (h : d.Did deed) (hreaches : Reaches store d d') : d'.Did deed := by
  obtain ⟨c, hc, hdeed⟩ := h
  obtain ⟨i, hi⟩ := List.mem_iff_getElem?.1 hc
  exact ⟨c, List.mem_of_getElem? (hreaches.ended hi (result?_of_deed? hdeed)), hdeed⟩

lemma not_fails_of_deed? {deed : Deed} (h : c.deed? = some deed) : ¬ c.Fails := by
  rw [Call.deed?] at h
  rintro (⟨e, hleft⟩ | ⟨output, hleft, herror⟩)
  · simp [hleft] at h
  · simp [hleft, herror] at h

/-- A step of a call that did nothing to the lists leaves what is stored as it is. -/
lemma Kept.moves (h : Kept store d entries) (hmoves : Moves i d d') :
    contents store d'.resources = contents store d.resources ∨
      ∃ c deed, d'.calls[i]? = some c ∧ c.deed? = some deed := by
  cases hmoves with
  | lock | unlock => exact .inl rfl
  | @act c left r hcall hlock hadvance =>
    obtain ⟨entries', -, hacts⟩ := h.sound.act hcall hlock hadvance
    have hnow : (d.put i { c with left } r).calls[i]? = some { c with left } := by
      rw [getElem?_put hcall, if_pos rfl]
    have hhas := hacts.has
    cases hacts.effect with
    | quiet hquiet =>
      exact .inl (h.sound.has.contents_eq hhas (Work.isDurable_of_advance hadvance store))
    | creates haction => exact .inr ⟨_, _, hnow, Call.deed?_newList haction⟩
    | changes he hchange => exact .inr ⟨_, _, hnow, Call.deed?_change hchange⟩
    | deletes he haction => exact .inr ⟨_, _, hnow, Call.deed?_deleteList haction⟩

/-- The step of a query for lists is its last. -/
lemma Kept.getLists (h : Kept store d entries) (hcall : d.calls[i]? = some c)
    (haction : c.action = "_getLists") (hmoves : Moves i d d') :
    ∃ owner sorted, Arguments.optionalText c.input "owner" = .ok owner ∧
      d'.calls[i]? = some { c with left := .succeed (listsOutput sorted) } ∧
      sorted.Perm (ofOwner owner entries) ∧ sorted.Pairwise fun a b => a.name < b.name := by
  have hlocks : ¬ holdsLock c.action = true := by simp [holdsLock, haction]
  cases hmoves with
  | lock hcall' hlocks' =>
    obtain rfl := Option.some.inj (hcall.symm.trans hcall')
    exact absurd hlocks' hlocks
  | unlock hcall' hended hholder =>
    obtain ⟨c', hc', hlocks'⟩ := h.sound.holder i hholder
    obtain rfl := Option.some.inj (hcall.symm.trans hc')
    exact absurd hlocks' hlocks
  | act hcall' hlock hadvance =>
    obtain rfl := Option.some.inj (hcall.symm.trans hcall')
    cases h.sound.stages i c hcall with
    | begun hleft =>
      have hgetLists : c.left = ListCreation.getLists store c.input := by
        simp [hleft, haction, concept]
      rw [hgetLists] at hadvance
      obtain ⟨owner, howner, -⟩ := Work.exists_of_advance_given hadvance
      obtain ⟨sorted, r', hstep, hperm, hpairwise⟩ :=
        h.sound.has.advance_getLists h.sound.orderly.names howner
      obtain ⟨rfl, rfl⟩ := Prod.mk.inj (Option.some.inj (hadvance.symm.trans hstep))
      refine ⟨owner, sorted, howner, ?_, hperm, hpairwise⟩
      rw [getElem?_put hcall, if_pos rfl]
    | ended hended =>
      rw [Work.advance_eq_none_iff.2 hended] at hadvance
      cases hadvance
    | underway hholder hlocks' => exact absurd hlocks' hlocks

/-! ### The guarantee -/

/-- What callers can rely on at a moment at which these lists are stored. -/
structure Reliable (store : String) (d : Desk) (entries : List Entry) : Prop where
  stored : ∃ docs, contents store d.resources = .ok docs ∧ docs.Perm (entries.map Entry.doc)
  identified : (entries.map (·.id)).Nodup
  /-- Names are different, and names and items are in order. -/
  orderly : Orderly entries
  created : ∀ e ∈ entries, d.CreatedAs e
  told : ∀ id, (∃ e ∈ entries, e.id = id) ↔ d.Did (.created id) ∧ ¬ d.Did (.deleted id)
  /-- No change is lost: the calls that made one took the lock once each. -/
  turns : d.turns.Nodup ∧ ∀ i c, d.calls[i]? = some c → ∀ id change,
    c.deed? = some (.changed id change) → i ∈ d.turns
  items : ∀ e ∈ entries, e.items = itemsAfter (d.changes e.id)
  gone : ∀ id d' d'', d.Stores store id → Reaches store d d' → ¬ d'.Stores store id →
    Reaches store d' d'' → ¬ d''.Stores store id
  /-- A step of a call that ever fails changes nothing. -/
  failing : ∀ i d' d'' c, d.Moves i d' → Reaches store d' d'' → d''.calls[i]? = some c → c.Fails →
    contents store d'.resources = contents store d.resources
  queries : ∀ i d' c, d.Moves i d' → d.calls[i]? = some c → c.action = "_getLists" →
    ∃ owner sorted, Arguments.optionalText c.input "owner" = .ok owner ∧
      d'.calls[i]? = some { c with left := .succeed (listsOutput sorted) } ∧
      sorted.Perm (ofOwner owner entries) ∧ sorted.Pairwise fun a b => a.name < b.name

lemma Kept.told (h : Kept store d entries) (id : String) :
    (∃ e ∈ entries, e.id = id) ↔ d.Did (.created id) ∧ ¬ d.Did (.deleted id) := by
  constructor
  · rintro ⟨e, he, rfl⟩
    obtain ⟨c, hc, hdeed, -⟩ := h.history.creators e he
    exact ⟨⟨c, hc, hdeed⟩, h.history.gone e he⟩
  · rintro ⟨hcreated, hdeleted⟩
    exact h.history.stored id hcreated hdeleted

/-- A list that is not stored any more was deleted, and so it stays. -/
lemma Kept.gone (h : Kept store d entries) (hstores : d.Stores store id)
    (hreaches : Reaches store d d') (hgone : ¬ d'.Stores store id)
    (hlater : Reaches store d' d'') : ¬ d''.Stores store id := by
  obtain ⟨entries', h'⟩ := h.reaches hreaches
  obtain ⟨entries'', h''⟩ := h'.reaches hlater
  have hcreated := ((h.told id).1 (h.stores_iff.1 hstores)).1.reaches hreaches
  have hdeleted : d'.Did (.deleted id) := by
    by_contra hnot
    exact hgone (h'.stores_iff.2 ((h'.told id).2 ⟨hcreated, hnot⟩))
  rw [h''.stores_iff, h''.told]
  exact fun hboth => hboth.2 (hdeleted.reaches hlater)

lemma Kept.failing (h : Kept store d entries) (hmoves : d.Moves i d')
    (hlater : Reaches store d' d'')
    (hcall : d''.calls[i]? = some c) (hfails : c.Fails) :
    contents store d'.resources = contents store d.resources := by
  refine (h.moves hmoves).resolve_right ?_
  rintro ⟨c', deed, hc', hdeed⟩
  have hsame := hlater.ended hc' (result?_of_deed? hdeed)
  obtain rfl := Option.some.inj (hcall.symm.trans hsame)
  exact not_fails_of_deed? hdeed hfails

/--
Lists stay in order under any concurrency. From an empty collection on, over a store of either kind,
with any number of calls of the actions with any inputs, and however their store operations
interleave as the write lock allows, there are lists at every moment that are exactly what is stored
and that callers can rely on.
-/
theorem lists_reliable {d₀ : Desk} (hopens : Opens store d₀) (hreaches : Reaches store d₀ d) :
    ∃ entries, Reliable store d entries := by
  obtain ⟨entries, h⟩ := hopens.kept.reaches hreaches
  refine ⟨entries, h.sound.has.exists_contents, h.sound.has.nodup_id, h.sound.orderly,
    h.history.creators, h.told, ⟨h.turns.nodup, ?_⟩, h.history.items, ?_, ?_, ?_⟩
  · intro i c hc id change hdeed
    exact h.turns.listed i c hc (Call.holdsLock_of_change? (Call.change?_of_deed? hdeed))
      (by rw [hdeed]; rfl)
  · exact fun id d' d'' hstores hd' hgone hd'' => h.gone hstores hd' hgone hd''
  · exact fun i d' d'' c hmoves hlater hc hfails => h.failing hmoves hlater hc hfails
  · exact fun i d' c hmoves hc haction => h.getLists hc haction hmoves

/-! ### A list that is deleted under a call's hands -/

namespace Groceries

/-- The identifier of the first document. -/
def list : String := "00000000-0000-4000-8000-000000000001"

/-- Nothing happened yet. -/
def start : Desk := { resources := {} }

/-- A new list. -/
def creation : Fields := KeyMap.singleton "listName" (.str "Groceries")

/-- An item for it, with blanks at its ends. -/
def addition : Fields := KeyMap.ofList [("list", .str list), ("item", .str " milk ")]

lemma opens_start : Opens "memory" start := ⟨rfl, rfl, rfl, rfl⟩

/-- The call that adds an item sees the list, and before it writes the item down the list is
deleted. -/
lemma exists_reaches_overlap : ∃ d, Reaches "memory" start d ∧
    d.calls = [
      ⟨"newList", creation, .succeed (named list)⟩,
      ⟨"addItem", addition, .fail (.store (.notFound lists list))⟩,
      ⟨"deleteList", named list, .succeed (named list)⟩] ∧
    contents "memory" d.resources = .ok [] := by
  obtain ⟨⟨r, calls, holder, turns⟩, hcreated, hr, hholder, hcalls⟩ :=
    @exists_reaches_of_run "memory" start _ rfl "newList" creation (.ok (named list)) rfl
  cases hr
  cases hholder
  cases hcalls
  have hbegun := hcreated.tail (.begin "addItem" addition)
  have hlocked := hbegun.tail (.moves (i := 1) (.lock rfl rfl rfl rfl))
  have hseen := hlocked.tail (.moves (i := 1) (.act rfl (fun _ => rfl) rfl))
  have hasked := hseen.tail (.begin "deleteList" (named list))
  have hdeleted := hasked.tail (.moves (i := 2) (.act rfl (by rintro ⟨⟩) rfl))
  have hrefused := hdeleted.tail (.moves (i := 1) (.act rfl (fun _ => rfl) rfl))
  exact ⟨_, hrefused, rfl, rfl⟩

end Groceries

theorem lists_reliable_overlap : Opens "memory" Groceries.start ∧
    ∃ d, Reaches "memory" Groceries.start d ∧
    d.calls.length = 3 ∧ ∃ entries, Reliable "memory" d entries ∧ entries = [] := by
  refine ⟨Groceries.opens_start, ?_⟩
  obtain ⟨d, hreaches, hcalls, hcontents⟩ := Groceries.exists_reaches_overlap
  obtain ⟨entries, h⟩ := lists_reliable Groceries.opens_start hreaches
  refine ⟨d, hreaches, by rw [hcalls]; rfl, entries, h, ?_⟩
  obtain ⟨docs, hdocs, hperm⟩ := h.stored
  rw [hcontents] at hdocs
  cases hdocs
  exact List.map_eq_nil_iff.1 (List.nil_perm.1 hperm)

end Desk

end Synchrony.ListCreation
