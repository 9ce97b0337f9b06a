import Synchrony.Proofs.ListCreation.Desk

/-!
# What happened to the lists

The lists that are stored are told by the calls that succeeded: those that were created and not
deleted, each with the items that the changes made of it, one change after the other in the order in
which the calls took the lock (`Desk.History`). From this and from the order of the lists comes what
every caller may rely on, whatever other calls are under way.
-/

namespace Synchrony.ListCreation

open ListCreation.Call (Deed)

/-- A call that has only begun has not succeeded. -/
lemma perform_ne_succeed (store action : String) (input output : Fields) :
    (concept store).perform action input ≠ .succeed output := by
  have hgiven {α : Type} {argument : Except ConceptError α} {next : α → Work}
      (h : ∀ a, next a ≠ .succeed output) : Work.given argument next ≠ .succeed output := by
    cases argument with
    | ok a => exact h a
    | error e => rintro ⟨⟩
  simp only [concept]
  split
  · exact hgiven fun _ => hgiven fun _ => by rintro ⟨⟩
  · exact hgiven fun _ => by rintro ⟨⟩
  · exact hgiven fun _ => hgiven fun _ => by rintro ⟨⟩
  · exact hgiven fun _ => hgiven fun _ => by rintro ⟨⟩
  · exact hgiven fun _ => by rintro ⟨⟩
  · exact hgiven fun _ => by rintro ⟨⟩
  · rintro ⟨⟩

lemma Call.deed?_perform (store action : String) (input : Fields) :
    (Call.mk action input ((concept store).perform action input)).deed? = none := by
  rw [deed?]
  split
  · rename_i output hleft
    exact absurd hleft (perform_ne_succeed store action input output)
  · rfl

/-- The change that a deed made of a list. -/
def Call.Deed.change? (list : String) : Deed → Option Change
  | .changed id change => if id = list then some change else none
  | _ => none

namespace Desk

/-- A call did this. -/
def Did (d : Desk) (deed : Deed) : Prop := ∃ c ∈ d.calls, c.deed? = some deed

/-- The change that the call of a number made of a list. -/
def change? (d : Desk) (list : String) (i : Nat) : Option Change :=
  (d.calls[i]?.bind Call.deed?).bind (Deed.change? list)

/-- The changes that calls made of a list, in the order in which the calls took the lock. -/
def changes (d : Desk) (list : String) : List Change := d.turns.filterMap (d.change? list)

/-- The items after some changes of an empty list. -/
def itemsAfter (changes : List Change) : List String :=
  changes.foldl (fun items change => change.apply items) []

/-- A call created the list, with its name and its owner. -/
def CreatedAs (d : Desk) (e : Entry) : Prop :=
  ∃ c ∈ d.calls, c.deed? = some (.created e.id) ∧
    Arguments.name c.input "listName" = .ok e.name ∧
    Arguments.optionalText c.input "owner" = .ok e.owner

/-- Each call takes the lock at most once, and before it creates or changes a list. -/
structure Turns (d : Desk) : Prop where
  nodup : d.turns.Nodup
  holder : ∀ i, d.holder = some i → ∃ front, d.turns = front ++ [i]
  served : ∀ i ∈ d.turns, d.holder = some i ∨
    ∃ c, d.calls[i]? = some c ∧ c.left.result?.isSome = true
  listed : ∀ i c, d.calls[i]? = some c → holdsLock c.action = true → c.deed?.isSome = true → i ∈ d.turns

/-- What is stored is what the calls that succeeded have left. -/
structure History (d : Desk) (entries : List Entry) : Prop where
  creators : ∀ e ∈ entries, d.CreatedAs e
  stored : ∀ id, d.Did (.created id) → ¬ d.Did (.deleted id) → ∃ e ∈ entries, e.id = id
  gone : ∀ e ∈ entries, ¬ d.Did (.deleted e.id)
  items : ∀ e ∈ entries, e.items = itemsAfter (d.changes e.id)
  drawn : ∀ deed, d.Did deed → deed.id ∈ d.resources.drawnIds

variable {store : String} {d d' : Desk} {entries entries' : List Entry} {i : Nat} {c c' : Call}
  {left : Work} {r : Resources} {deed : Deed}

/-! ### The lock -/

namespace Turns

lemma begin (h : Turns d) (action : String) (input : Fields) :
    Turns { d with calls := d.calls ++ [⟨action, input, (concept store).perform action input⟩] } := by
  refine ⟨h.nodup, h.holder, fun i hi => ?_, fun i c hc hlocks hdeed => ?_⟩
  · refine (h.served i hi).imp_right ?_
    rintro ⟨c, hc, hended⟩
    exact ⟨c, getElem?_concat_eq_some_iff.2 (.inl hc), hended⟩
  · rcases getElem?_concat_eq_some_iff.1 hc with hc | ⟨-, rfl⟩
    · exact h.listed i c hc hlocks hdeed
    · rw [Call.deed?_perform] at hdeed
      cases hdeed

lemma lock (h : Turns d) (hcall : d.calls[i]? = some c) (hleft : c.left.result? = none)
    (hfree : d.holder = none) : Turns { d with holder := some i, turns := d.turns ++ [i] } := by
  have hnew : i ∉ d.turns := by
    intro hi
    rcases h.served i hi with hholder | ⟨c', hc', hended⟩
    · cases hfree.symm.trans hholder
    · obtain rfl := Option.some.inj (hcall.symm.trans hc')
      rw [hleft] at hended
      cases hended
  refine ⟨?_, ?_, fun j hj => ?_, fun j c hc hlocks hdeed => ?_⟩
  · simpa [List.nodup_append] using ⟨h.nodup, fun j hj heq => hnew (heq ▸ hj)⟩
  · rintro j ⟨⟩
    exact ⟨d.turns, rfl⟩
  · rcases List.mem_append.1 hj with hj | hj
    · refine .inr ((h.served j hj).resolve_left ?_)
      rw [hfree]
      rintro ⟨⟩
    · exact .inl (congrArg some (List.mem_singleton.1 hj).symm)
  · exact List.mem_append_left _ (h.listed j c hc hlocks hdeed)

lemma unlock (h : Turns d) (hcall : d.calls[i]? = some c) (hended : c.left.result?.isSome = true)
    (hholder : d.holder = some i) : Turns { d with holder := none } := by
  refine ⟨h.nodup, by rintro j ⟨⟩, fun j hj => .inr ?_, h.listed⟩
  rcases h.served j hj with hother | hserved
  · obtain rfl := Option.some.inj (hholder.symm.trans hother)
    exact ⟨c, hcall, hended⟩
  · exact hserved

lemma act (h : Turns d) (hcall : d.calls[i]? = some c)
    (hlock : holdsLock c.action = true → d.holder = some i)
    (hadvance : c.left.advance d.resources = some (left, r)) :
    Turns (d.put i { c with left } r) := by
  refine ⟨h.nodup, h.holder, fun j hj => ?_, fun j c' hc' hlocks hdeed => ?_⟩
  · refine (h.served j hj).imp_right ?_
    rintro ⟨c', hc', hended⟩
    have hne : i ≠ j := by
      rintro rfl
      obtain rfl := Option.some.inj (hcall.symm.trans hc')
      rw [Work.advance_eq_none_iff.2 hended] at hadvance
      cases hadvance
    refine ⟨c', ?_, hended⟩
    rw [getElem?_put hcall, if_neg hne]
    exact hc'
  · rw [getElem?_put hcall] at hc'
    split at hc'
    · rename_i heq
      cases hc'
      obtain ⟨front, hturns⟩ := h.holder i (hlock hlocks)
      change j ∈ d.turns
      simp [hturns, heq]
    · exact h.listed j c' hc' hlocks hdeed

end Turns

/-! ### Calls that take a step -/

section

variable (hcall : d.calls[i]? = some c) (hnone : c.deed? = none)
include hcall hnone

/-- A step adds at most one call to those that did something to the lists. -/
lemma exists_mem_put_iff {P : Call → Prop} (hP : ∀ a : Call, P a → a.deed?.isSome = true) :
    (∃ a ∈ (d.put i c' r).calls, P a) ↔ (∃ a ∈ d.calls, P a) ∨ P c' := by
  have hlt := (List.getElem?_eq_some_iff.1 hcall).1
  constructor
  · rintro ⟨a, ha, h⟩
    rcases List.mem_or_eq_of_mem_set ha with ha | rfl
    · exact .inl ⟨a, ha, h⟩
    · exact .inr h
  · rintro (⟨a, ha, h⟩ | h)
    · obtain ⟨j, hj⟩ := List.mem_iff_getElem?.1 ha
      have hne : i ≠ j := by
        rintro rfl
        obtain rfl := Option.some.inj (hcall.symm.trans hj)
        simpa [hnone] using hP c h
      refine ⟨a, List.mem_iff_getElem?.2 ⟨j, ?_⟩, h⟩
      rw [getElem?_put hcall, if_neg hne]
      exact hj
    · exact ⟨c', List.mem_set hlt c', h⟩

lemma did_put_iff : (d.put i c' r).Did deed ↔
    d.Did deed ∨ c'.deed? = some deed :=
  exists_mem_put_iff hcall hnone fun a ha => by rw [ha]; rfl

omit hnone in
lemma change?_put (list : String) (j : Nat) :
    (d.put i c' r).change? list j =
      if i = j then c'.deed?.bind (Deed.change? list) else d.change? list j := by
  rw [change?, getElem?_put hcall]
  split
  · rfl
  · rfl

lemma changes_put_of_none {list : String} (hchange : c'.deed?.bind (Deed.change? list) = none) :
    (d.put i c' r).changes list = d.changes list := by
  refine List.filterMap_congr fun j _ => ?_
  rw [change?_put hcall]
  split
  · rename_i heq
    rw [hchange, ← heq, change?, hcall, Option.bind_some, hnone, Option.bind_none]
  · rfl

/-- The changes of the call that took the lock last come last. -/
lemma changes_put_of_holder {front : List Nat} (hturns : d.turns = front ++ [i])
    (hnodup : d.turns.Nodup) (list : String) :
    (d.put i c' r).changes list =
      d.changes list ++ (c'.deed?.bind (Deed.change? list)).toList := by
  have hfront : i ∉ front := by
    rw [hturns] at hnodup
    exact fun hi => (List.nodup_append.1 hnodup).2.2 i hi i (List.mem_singleton_self i) rfl
  have hbefore : front.filterMap ((d.put i c' r).change? list) = front.filterMap (d.change? list) := by
    refine List.filterMap_congr fun j hj => ?_
    rw [change?_put hcall, if_neg fun heq : i = j => hfront (heq ▸ hj)]
  have hlast : d.change? list i = none := by
    rw [change?, hcall, Option.bind_some, hnone, Option.bind_none]
  have hone (f : Nat → Option Change) : [i].filterMap f = (f i).toList := by
    cases hf : f i <;> simp [hf]
  have hnow : (d.put i c' r).change? list i = c'.deed?.bind (Deed.change? list) := by
    rw [change?_put hcall, if_pos rfl]
  calc (d.put i c' r).changes list
      = (front ++ [i]).filterMap ((d.put i c' r).change? list) := by rw [← hturns]; rfl
    _ = front.filterMap (d.change? list) ++ (c'.deed?.bind (Deed.change? list)).toList := by
      rw [List.filterMap_append, hbefore, hone, hnow]
    _ = d.changes list ++ (c'.deed?.bind (Deed.change? list)).toList := by
      rw [changes, hturns, List.filterMap_append, hone, hlast, Option.toList_none, List.append_nil]

end

/-- A list to which nothing was done has no changes. -/
lemma changes_eq_nil {id : String} (h : ∀ deed, d.Did deed → deed.id ≠ id) : d.changes id = [] := by
  refine List.filterMap_eq_nil_iff.2 fun i _ => ?_
  cases hdeed : d.calls[i]?.bind Call.deed? with
  | none => rw [change?, hdeed, Option.bind_none]
  | some deed =>
    obtain ⟨c, hc, hdeed'⟩ := Option.bind_eq_some_iff.1 hdeed
    have hne := h deed ⟨c, List.mem_of_getElem? hc, hdeed'⟩
    rw [change?, hdeed, Option.bind_some]
    cases deed with
    | created | deleted => rfl
    | changed other change => exact if_neg hne

/-! ### The history -/

namespace History

/-- The history is the same if the same calls did something to the lists. -/
lemma congr (h : History d entries)
    (hcalls : ∀ P : Call → Prop, (∀ a : Call, P a → a.deed?.isSome = true) →
      ((∃ a ∈ d'.calls, P a) ↔ ∃ a ∈ d.calls, P a))
    (hchanges : ∀ list, d'.changes list = d.changes list)
    (hids : d.resources.drawnIds ⊆ d'.resources.drawnIds) : History d' entries := by
  have hdid (deed : Deed) : d'.Did deed ↔ d.Did deed := hcalls _ fun a ha => by rw [ha]; rfl
  have hcreatedAs (e : Entry) : d'.CreatedAs e ↔ d.CreatedAs e :=
    hcalls _ fun a ha => by rw [ha.1]; rfl
  refine ⟨fun e he => (hcreatedAs e).2 (h.creators e he), fun id => ?_, fun e he => ?_,
    fun e he => ?_, fun deed => ?_⟩
  · rw [hdid, hdid]
    exact h.stored id
  · rw [hdid]
    exact h.gone e he
  · rw [hchanges]
    exact h.items e he
  · rw [hdid]
    exact fun hdeed => hids (h.drawn deed hdeed)

lemma begin (h : History d entries) (action : String) (input : Fields) :
    History { d with calls := d.calls ++ [⟨action, input, (concept store).perform action input⟩] }
      entries := by
  have hnone := Call.deed?_perform store action input
  refine h.congr (fun P hP => ?_) (fun list => ?_) (List.Subset.refl _)
  · have hnot : ¬ P ⟨action, input, (concept store).perform action input⟩ := fun h => by
      simpa [hnone] using hP _ h
    simp [or_and_right, exists_or, hnot]
  · refine List.filterMap_congr fun i _ => ?_
    rcases Nat.lt_or_ge i d.calls.length with hlt | hge
    · rw [change?, List.getElem?_append_left hlt]
      rfl
    · rw [change?, change?, List.getElem?_append_right hge, List.getElem?_eq_none hge]
      cases i - d.calls.length with
      | zero => exact congrArg (Option.bind · (Deed.change? list)) hnone
      | succ => rfl

lemma lock (h : History d entries) (hcall : d.calls[i]? = some c) (hleft : c.left.result? = none) :
    History { d with holder := some i, turns := d.turns ++ [i] } entries := by
  refine h.congr (fun P hP => Iff.rfl) (fun list => ?_) (List.Subset.refl _)
  have hnone : d.change? list i = none := by
    rw [change?, hcall, Option.bind_some, Call.deed?_eq_none_of_result? hleft, Option.bind_none]
  change (d.turns ++ [i]).filterMap (d.change? list) = d.turns.filterMap (d.change? list)
  simp [hnone]

section

variable (h : History d entries) (hcall : d.calls[i]? = some c) (hnone : c.deed? = none)
  (hids : d.resources.drawnIds ⊆ r.drawnIds) {e : Entry}
include h hcall hnone hids

lemma quiet (hquiet : c'.deed? = none) :
    History (d.put i c' r) entries := by
  refine h.congr (fun P hP => ?_) (fun list => ?_) hids
  · rw [exists_mem_put_iff hcall hnone hP]
    exact or_iff_left fun hc' => by simpa [hquiet] using hP c' hc'
  · exact changes_put_of_none hcall hnone (by rw [hquiet, Option.bind_none])

lemma creates (hdeed : c'.deed? = some (.created e.id))
    (hname : Arguments.name c'.input "listName" = .ok e.name)
    (howner : Arguments.optionalText c'.input "owner" = .ok e.owner) (hitems : e.items = [])
    (hnew : e.id ∉ d.resources.drawnIds) (hdrawn : e.id ∈ r.drawnIds) :
    History (d.put i c' r) (entries ++ [e]) := by
  have hother (deed : Deed) (hdid : d.Did deed) : deed.id ≠ e.id :=
    fun heq => hnew (heq ▸ h.drawn deed hdid)
  have hcreatedAs (f : Entry) : (d.put i c' r).CreatedAs f ↔
      d.CreatedAs f ∨ _ := exists_mem_put_iff hcall hnone fun a ha => by rw [ha.1]; rfl
  have hchanges (list : String) : (d.put i c' r).changes list = d.changes list :=
    changes_put_of_none hcall hnone (by rw [hdeed]; rfl)
  refine ⟨?_, fun id => ?_, ?_, ?_, fun deed => ?_⟩
  · refine List.forall_mem_append.2 ⟨fun f hf => ?_, List.forall_mem_singleton.2 ?_⟩
    · exact (hcreatedAs f).2 (.inl (h.creators f hf))
    · exact (hcreatedAs e).2 (.inr ⟨hdeed, hname, howner⟩)
  · rw [did_put_iff hcall hnone, did_put_iff hcall hnone, hdeed]
    rintro (hdid | hnow) hgone
    · obtain ⟨f, hf, hid⟩ := h.stored id hdid fun hdeleted => hgone (.inl hdeleted)
      exact ⟨f, List.mem_append_left _ hf, hid⟩
    · cases hnow
      exact ⟨e, by simp, rfl⟩
  · simp only [did_put_iff hcall hnone, hdeed]
    refine List.forall_mem_append.2 ⟨fun f hf => ?_, List.forall_mem_singleton.2 ?_⟩
    · rintro (hdid | ⟨⟨⟩⟩)
      exact h.gone f hf hdid
    · rintro (hdid | ⟨⟨⟩⟩)
      exact hother _ hdid rfl
  · simp only [hchanges]
    refine List.forall_mem_append.2 ⟨h.items, List.forall_mem_singleton.2 ?_⟩
    rw [hitems, changes_eq_nil hother]
    rfl
  · rw [did_put_iff hcall hnone, hdeed]
    rintro (hdid | ⟨⟨⟩⟩)
    · exact hids (h.drawn deed hdid)
    · exact hdrawn

/-- A step that changes the items of a list: the call took the lock last. -/
lemma changes {change : Change} {front : List Nat} (hturns : d.turns = front ++ [i])
    (hnodup : d.turns.Nodup) (hunique : ∀ f ∈ entries, f.id = e.id → f = e) (he : e ∈ entries)
    (hdeed : c'.deed? = some (.changed e.id change)) (hdrawn : e.id ∈ r.drawnIds) :
    History (d.put i c' r) (entries.map (Entry.withItems e.id (change.apply e.items))) := by
  have hcreatedAs (f : Entry) (hf : d.CreatedAs f) : (d.put i c' r).CreatedAs f :=
    (exists_mem_put_iff hcall hnone fun a ha => by rw [ha.1]; rfl).2 (.inl hf)
  have hdid (deed : Deed) (hne : deed ≠ .changed e.id change) :
      (d.put i c' r).Did deed ↔ d.Did deed := by
    rw [did_put_iff hcall hnone, hdeed]
    exact or_iff_left fun heq => hne (Option.some.inj heq).symm
  refine ⟨List.forall_mem_map.2 fun f hf => ?_, fun id => ?_, List.forall_mem_map.2 fun f hf => ?_,
    List.forall_mem_map.2 fun f hf => ?_, fun deed => ?_⟩
  · obtain ⟨a, ha, hcreates⟩ := hcreatedAs f (h.creators f hf)
    exact ⟨a, ha, by simpa using hcreates⟩
  · rw [hdid _ (by simp), hdid _ (by simp)]
    intro hcreated hdeleted
    obtain ⟨f, hf, hid⟩ := h.stored id hcreated hdeleted
    exact ⟨_, List.mem_map_of_mem hf, by simpa using hid⟩
  · rw [hdid _ (by simp), Entry.withItems_id]
    exact h.gone f hf
  · rw [Entry.withItems_id, changes_put_of_holder hcall hnone hturns hnodup, hdeed, Option.bind_some]
    by_cases hid : f.id = e.id
    · obtain rfl := hunique f hf hid
      simp [Entry.withItems, Deed.change?, itemsAfter, List.foldl_append, h.items f hf]
    · simp [Entry.withItems, Deed.change?, hid, Ne.symm hid, h.items f hf]
  · rw [did_put_iff hcall hnone, hdeed]
    rintro (hdid | ⟨⟨⟩⟩)
    · exact hids (h.drawn deed hdid)
    · exact hdrawn

lemma deletes (hdeed : c'.deed? = some (.deleted e.id)) (hdrawn : e.id ∈ r.drawnIds) :
    History (d.put i c' r) (entries.filter (·.id ≠ e.id)) := by
  have hcreatedAs (f : Entry) (hf : d.CreatedAs f) : (d.put i c' r).CreatedAs f :=
    (exists_mem_put_iff hcall hnone fun a ha => by rw [ha.1]; rfl).2 (.inl hf)
  have hchanges (list : String) : (d.put i c' r).changes list = d.changes list :=
    changes_put_of_none hcall hnone (by rw [hdeed]; rfl)
  have hmem {f : Entry} (hf : f ∈ entries.filter (·.id ≠ e.id)) : f ∈ entries ∧ f.id ≠ e.id := by
    simpa using List.mem_filter.1 hf
  refine ⟨fun f hf => hcreatedAs f (h.creators f (hmem hf).1), fun id => ?_, fun f hf => ?_,
    fun f hf => ?_, fun deed => ?_⟩
  · rw [did_put_iff hcall hnone, did_put_iff hcall hnone, hdeed]
    rintro (hdid | ⟨⟨⟩⟩) hgone
    obtain ⟨f, hf, rfl⟩ := h.stored id hdid fun hdeleted => hgone (.inl hdeleted)
    have hne : f.id ≠ e.id := fun heq => hgone (.inr (by rw [heq]))
    exact ⟨f, List.mem_filter.2 ⟨hf, by simpa using hne⟩, rfl⟩
  · rw [did_put_iff hcall hnone, hdeed]
    rintro (hdid | heq)
    · exact h.gone f (hmem hf).1 hdid
    · have hid : e.id = f.id := by simpa using heq
      exact (hmem hf).2 hid.symm
  · rw [hchanges]
    exact h.items f (hmem hf).1
  · rw [did_put_iff hcall hnone, hdeed]
    rintro (hdid | ⟨⟨⟩⟩)
    · exact hids (h.drawn deed hdid)
    · exact hdrawn

end

/-- A step of a call, whatever it does to the lists. -/
lemma act (h : History d entries) (hturns : Turns d) (hcall : d.calls[i]? = some c)
    (hlock : holdsLock c.action = true → d.holder = some i)
    (hadvance : c.left.advance d.resources = some (left, r))
    (hhas : Has store entries d.resources)
    (hacts : Call.Acts store d.resources entries c left r entries') :
    History (d.put i { c with left } r) entries' := by
  have hleft : c.left.result? = none := by
    cases hresult : c.left.result? with
    | none => rfl
    | some x =>
      rw [Work.advance_eq_none_iff.2 (by rw [hresult]; rfl)] at hadvance
      cases hadvance
  have hnone := Call.deed?_eq_none_of_result? hleft
  have hids := Resources.drawnIds_subset hacts.drawn
  have hhas' := hacts.has
  cases hacts.effect with
  | quiet hquiet => exact h.quiet hcall hnone hids hquiet
  | @creates e haction hname howner hitems hnew =>
    exact h.creates hcall hnone hids (Call.deed?_newList haction) hname howner hitems hnew
      (hhas'.drawn (by simp))
  | @changes e change he hchange =>
    obtain ⟨front, hfront⟩ := hturns.holder i (hlock (Call.holdsLock_of_change? hchange))
    exact h.changes hcall hnone hids hfront hturns.nodup
      (fun f hf hid => List.inj_on_of_nodup_map hhas.nodup_id hf he hid) he
      (Call.deed?_change hchange) (hids (hhas.drawn he))
  | @deletes e he haction hlist =>
    exact h.deletes hcall hnone hids (Call.deed?_deleteList haction) (hids (hhas.drawn he))

end History

/-! ### Runs -/

/-- No call began yet, and no list is stored. -/
structure Opens (store : String) (d : Desk) : Prop where
  calls : d.calls = []
  holder : d.holder = none
  turns : d.turns = []
  empty : contents store d.resources = .ok []

/-- All that is true at every moment. -/
structure Kept (store : String) (d : Desk) (entries : List Entry) : Prop where
  sound : Sound store d entries
  turns : Turns d
  history : History d entries

lemma Opens.kept (h : Opens store d) : Kept store d [] := by
  have hnot (deed : Deed) : ¬ d.Did deed := by
    rintro ⟨c, hc, -⟩
    simp [h.calls] at hc
  refine ⟨⟨has_nil h.empty, .nil, ?_, ?_⟩, ⟨?_, ?_, ?_, ?_⟩, ⟨?_, ?_, ?_, ?_, ?_⟩⟩
  · simp [h.calls]
  · simp [h.holder]
  · simp [h.turns]
  · simp [h.holder]
  · simp [h.turns]
  · simp [h.calls]
  · simp
  · exact fun id hdid => absurd hdid (hnot _)
  · simp
  · simp
  · exact fun deed hdid => absurd hdid (hnot deed)

lemma Kept.step (h : Kept store d entries) (hstep : Step store d d') :
    ∃ entries', Kept store d' entries' := by
  cases hstep with
  | begin action input =>
    exact ⟨entries, h.sound.begin action input, h.turns.begin action input, h.history.begin action input⟩
  | elsewhere hr =>
    refine ⟨entries, h.sound.elsewhere hr,
      ⟨h.turns.nodup, h.turns.holder, h.turns.served, h.turns.listed⟩, ?_⟩
    exact h.history.congr (fun P hP => Iff.rfl) (fun list => rfl) hr.drawnIds_subset
  | @moves i d' hmoves =>
    cases hmoves with
    | lock hcall hlocks hleft hfree =>
      exact ⟨entries, h.sound.lock hcall hlocks hfree, h.turns.lock hcall hleft hfree,
        h.history.lock hcall hleft⟩
    | act hcall hlock hadvance =>
      obtain ⟨entries', hsound, hacts⟩ := h.sound.act hcall hlock hadvance
      exact ⟨entries', hsound, h.turns.act hcall hlock hadvance,
        h.history.act h.turns hcall hlock hadvance h.sound.has hacts⟩
    | unlock hcall hended hholder =>
      refine ⟨entries, h.sound.unlock hcall hended hholder, h.turns.unlock hcall hended hholder, ?_⟩
      exact h.history.congr (fun P hP => Iff.rfl) (fun list => rfl) (List.Subset.refl _)

lemma Kept.reaches (h : Kept store d entries) (hreaches : Reaches store d d') :
    ∃ entries', Kept store d' entries' := by
  induction hreaches with
  | refl => exact ⟨entries, h⟩
  | tail _ hstep ih =>
    obtain ⟨entries', hkept⟩ := ih
    exact hkept.step hstep

end Desk

end Synchrony.ListCreation
