import Synchrony.Proofs.ListCreation.Stored
import Synchrony.Proofs.Work.Steps

/-!
# What one step of a call does

A call of an action of the concept is done step by step, and other calls may take their steps in
between. Each step either leaves the lists as they are, or creates, changes or deletes one of them
and is the call's last (`Call.Effect`). Between its steps a call that holds the write lock relies on
what it saw in its first one, and on nothing else (`Call.Underway`).
-/

namespace Synchrony.ListCreation

/-- A call of an action, and the work that is left of it. -/
structure Call where
  action : String
  input : Fields
  left : Work

namespace Call

/-- The change that a call asks for, and the list. -/
def change? (c : Call) : Option (String × Change) :=
  match Arguments.text c.input "list" with
  | .error _ => none
  | .ok list =>
    if c.action = "addItem" then
      (Arguments.name c.input "item").toOption.map fun item => (list, .add item)
    else if c.action = "removeItem" then
      (Arguments.text c.input "item").toOption.map fun item => (list, .remove item)
    else none

/-- What a call that succeeded did: it created, deleted or changed the list of an identifier. -/
inductive Deed where
  | created (id : String)
  | deleted (id : String)
  | changed (id : String) (change : Change)

/-- The identifier of the list. -/
def Deed.id : Deed → String
  | created id => id
  | deleted id => id
  | changed id _ => id

/-- What the call did, if it is at its end and its output does not say that it failed. -/
def deed? (c : Call) : Option Deed :=
  match c.left with
  | .done (.ok output) =>
    if output.contains "error" then none
    else if c.action = "newList" then (output.string? "list").map .created
    else if c.action = "deleteList" then (output.string? "list").map .deleted
    else c.change?.map fun (id, change) => .changed id change
  | _ => none

/-- What is left of the creation of a list after the search for its name. -/
def creation (store name : String) (owner : Option String) : Work :=
  .clock fun created =>
  .onStore store (.insert lists (newDoc name owner created)) fun id =>
  .succeed (named id)

/--
What a step that leaves some work makes of the lists; the identifiers are those that were drawn
before the step.
-/
inductive Effect (ids : List String) (entries : List Entry) (c : Call) :
    Work → List Entry → Prop where
  | quiet {left : Work} (hquiet : Call.deed? { c with left } = none) :
      Effect ids entries c left entries
  | creates {e : Entry} (haction : c.action = "newList")
      (hname : Arguments.name c.input "listName" = .ok e.name)
      (howner : Arguments.optionalText c.input "owner" = .ok e.owner) (hitems : e.items = [])
      (hnew : e.id ∉ ids) : Effect ids entries c (.succeed (named e.id)) (entries ++ [e])
  | changes {e : Entry} {change : Change} (he : e ∈ entries)
      (hchange : c.change? = some (e.id, change)) :
      Effect ids entries c (.succeed (itemOutput e.id change.item))
        (entries.map (Entry.withItems e.id (change.apply e.items)))
  | deletes {e : Entry} (he : e ∈ entries) (haction : c.action = "deleteList")
      (hlist : Arguments.text c.input "list" = .ok e.id) :
      Effect ids entries c (.succeed (named e.id)) (entries.filter (·.id ≠ e.id))

/-- What a call relies on that holds the lock and has seen the lists. -/
inductive Underway (store : String) (entries : List Entry) (c : Call) : Prop where
  | creating {name : String} {owner : Option String} (haction : c.action = "newList")
      (hname : Arguments.name c.input "listName" = .ok name)
      (howner : Arguments.optionalText c.input "owner" = .ok owner)
      (hnew : ∀ e ∈ entries, e.name ≠ name) (hleft : c.left = creation store name owner)
  | inserting {name : String} {owner : Option String} {created : Timestamp}
      (haction : c.action = "newList") (hname : Arguments.name c.input "listName" = .ok name)
      (howner : Arguments.optionalText c.input "owner" = .ok owner)
      (hnew : ∀ e ∈ entries, e.name ≠ name)
      (hleft : c.left = .onStore store (.insert lists (newDoc name owner created)) fun id =>
        .succeed (named id))
  | changing {list : String} {change : Change} {items : List String}
      (hchange : c.change? = some (list, change)) (hfits : change.Fits items)
      (hitems : ∀ e ∈ entries, e.id = list → e.items = items)
      (hleft : c.left = storeItems store list change.item ((change.apply items).map .str))

variable {store : String} {entries kept entries' : List Entry} {c : Call} {left : Work}
  {r r' : Resources} {ids : List String}

lemma deed?_eq_none_of_result? (h : c.left.result? = none) : c.deed? = none := by
  rw [deed?]
  split
  · rename_i hleft
    rw [hleft] at h
    cases h
  · rfl

lemma action_of_change? {x : String × Change} (h : c.change? = some x) :
    c.action = "addItem" ∨ c.action = "removeItem" := by
  rw [change?] at h
  split at h
  · cases h
  · split_ifs at h with hadd hremove
    · exact .inl hadd
    · exact .inr hremove

lemma holdsLock_of_change? {x : String × Change} (h : c.change? = some x) :
    holdsLock c.action = true := by
  rcases action_of_change? h with h | h <;> simp [holdsLock, h]

/-- A query does nothing to the lists. -/
lemma deed?_eq_none_of_query (h : c.action = "_getLists" ∨ c.action = "_getList") :
    c.deed? = none := by
  have hchange : c.change? = none := by
    rw [Option.eq_none_iff_forall_ne_some]
    intro x hx
    rcases h with h | h <;> simpa [h] using action_of_change? hx
  rw [deed?]
  split
  · rcases h with h | h <;> simp [h, hchange]
  · rfl

/-! ### Deeds of calls that succeed -/

lemma contains_error_named (list : String) : (named list).contains "error" = false := by
  simp [named, KeyMap.contains, KeyMap.singleton, KeyMap.get?_insert]

lemma contains_error_itemOutput (list item : String) :
    (itemOutput list item).contains "error" = false := by
  simp [itemOutput, named, KeyMap.contains, KeyMap.singleton, KeyMap.get?_insert]

@[simp] lemma string?_named (list : String) : (named list).string? "list" = some list := by
  simp [named, KeyMap.string?, Value.asString?]

lemma deed?_newList {id : String} (haction : c.action = "newList") :
    Call.deed? { c with left := .succeed (named id) } = some (.created id) := by
  simp [deed?, Work.succeed, contains_error_named, haction]

lemma deed?_deleteList {id : String} (haction : c.action = "deleteList") :
    Call.deed? { c with left := .succeed (named id) } = some (.deleted id) := by
  simp [deed?, Work.succeed, contains_error_named, haction]

lemma deed?_change {id item : String} {change : Change} (h : c.change? = some (id, change)) :
    Call.deed? { c with left := .succeed (itemOutput id item) } = some (.changed id change) := by
  have hdeed : Call.deed? { c with left := .succeed (itemOutput id item) } =
      c.change?.map fun (id, change) => .changed id change := by
    rcases action_of_change? h with haction | haction
    all_goals simp [deed?, Work.succeed, contains_error_itemOutput, haction, change?]
  rw [hdeed, h]
  rfl

lemma change?_of_deed? {id : String} {change : Change} (h : c.deed? = some (.changed id change)) :
    c.change? = some (id, change) := by
  rw [deed?] at h
  split at h
  · split_ifs at h
    · simp at h
    · simp at h
    · obtain ⟨x, hx, heq⟩ := Option.map_eq_some_iff.1 h
      cases heq
      exact hx
  · cases h

/-! ### Effects -/

/-- A call that does not take the lock can only delete a list. -/
lemma Effect.subset (h : Effect ids entries c left entries')
    (hlocks : ¬ holdsLock c.action = true) :
    entries' ⊆ entries := by
  cases h with
  | quiet hquiet => exact List.Subset.refl _
  | creates haction => exact absurd (by simp [holdsLock, haction]) hlocks
  | changes he hchange => exact absurd (holdsLock_of_change? hchange) hlocks
  | deletes he haction hlist => exact List.filter_subset_self _

/-- Lists that are deleted meanwhile do not matter. -/
lemma Underway.subset (h : Underway store entries c) (hsub : kept ⊆ entries) :
    Underway store kept c := by
  cases h with
  | creating haction hname howner hnew hleft =>
    exact .creating haction hname howner (fun e he => hnew e (hsub he)) hleft
  | inserting haction hname howner hnew hleft =>
    exact .inserting haction hname howner (fun e he => hnew e (hsub he)) hleft
  | changing hchange hfits hitems hleft =>
    exact .changing hchange hfits (fun e he => hitems e (hsub he)) hleft

/--
What a step of a call comes to: the lists that are stored then, and where the call is. A call that
is not at its end relies on the lists.
-/
structure Acts (store : String) (r : Resources) (entries : List Entry) (c : Call) (left : Work)
    (r' : Resources) (entries' : List Entry) : Prop where
  has : Has store entries' r'
  orderly : Orderly entries'
  drawn : r.drawn ≤ r'.drawn
  effect : Effect r.drawnIds entries c left entries'
  goes : left.result?.isSome = true ∨ holdsLock c.action = true ∧ Underway store entries' { c with left }

/-- A step that is the last one and changes nothing. -/
lemma acts_of_untouched (hhas : Has store entries r) (horderly : Orderly entries)
    (hsame : r.Untouched r') (hover : left.result?.isSome = true)
    (hquiet : Call.deed? { c with left } = none) :
    ∃ entries', Acts store r entries c left r' entries' :=
  ⟨entries, hhas.of_untouched hsame, horderly, hsame.drawn.ge, .quiet hquiet, .inl hover⟩

/-- A step after which the call relies on what it saw. -/
lemma acts_of_underway (hhas : Has store entries r) (horderly : Orderly entries)
    (hsame : r.Untouched r') (hlocks : holdsLock c.action = true)
    (hunderway : Underway store entries { c with left }) (hleft : left.result? = none) :
    ∃ entries', Acts store r entries c left r' entries' := by
  exact ⟨entries, hhas.of_untouched hsame, horderly, hsame.drawn.ge,
    .quiet (deed?_eq_none_of_result? hleft), .inr ⟨hlocks, hunderway⟩⟩

/-! ### First steps -/

/-- Work that begins with a look for a list goes on with it, or without it if there is none. -/
lemma eq_of_advance_get (hhas : Has store entries r) {list : String} {next : (Store.Op.get lists list).Result → Work}
    (h : (Work.onStore store (.get lists list) next).advance r = some (left, r')) :
    r.Untouched r' ∧ (left = next (none : Option Fields) ∨
      ∃ e ∈ entries, e.id = list ∧ left = next (some e.doc : Option Fields)) := by
  obtain ⟨r₁, hr, hsame⟩ := hhas.onStore_get list
  rw [Work.advance_onStore_of_ok hr] at h
  cases h
  refine ⟨hsame, ?_⟩
  cases hfound : entries.find? (·.id = list) with
  | none => exact .inl rfl
  | some e =>
    have hid : e.id = list := by simpa using List.find?_some hfound
    exact .inr ⟨e, List.mem_of_find?_eq_some hfound, hid, rfl⟩

section

variable (hhas : Has store entries r) (horderly : Orderly entries)
include hhas horderly

lemma acts_newList (haction : c.action = "newList")
    (h : (newList store c.input).advance r = some (left, r')) :
    ∃ entries', Acts store r entries c left r' entries' := by
  obtain ⟨name, hname, h⟩ := Work.exists_of_advance_given h
  obtain ⟨owner, howner, h⟩ := Work.exists_of_advance_given h
  obtain ⟨found, r₁, hr, hsome, hsame⟩ := hhas.onStore_findOne name
  rw [Work.advance_onStore_of_ok hr] at h
  cases h
  cases found with
  | some doc =>
    exact acts_of_untouched hhas horderly hsame rfl rfl
  | none =>
    have hnew : ∀ e ∈ entries, e.name ≠ name := by simpa using hsome
    exact acts_of_underway hhas horderly hsame (by simp [holdsLock, haction])
      (.creating haction hname howner hnew rfl) rfl

lemma acts_deleteList (haction : c.action = "deleteList")
    (h : (deleteList store c.input).advance r = some (left, r')) :
    ∃ entries', Acts store r entries c left r' entries' := by
  obtain ⟨list, hlist, h⟩ := Work.exists_of_advance_given h
  obtain ⟨r₁, hr, hhas', hdrawn⟩ := hhas.onStore_delete list
  rw [Work.advance_onStore_of_ok hr] at h
  cases h
  cases hany : entries.any (·.id = list) with
  | true =>
    obtain ⟨e, he, hid⟩ := List.any_eq_true.1 hany
    obtain rfl : e.id = list := by simpa using hid
    exact ⟨_, hhas', horderly.sublist List.filter_sublist, hdrawn.ge, .deletes he haction hlist,
      .inl rfl⟩
  | false =>
    have hsame : entries.filter (·.id ≠ list) = entries :=
      List.filter_eq_self.2 (by simpa using hany)
    rw [hsame] at hhas'
    exact ⟨_, hhas', horderly, hdrawn.ge, .quiet rfl,
      .inl rfl⟩

/-- The lists that are found have the items of the entries. -/
lemma acts_storeItems {e : Entry} {change : Change} (he : e ∈ entries)
    (hlocks : holdsLock c.action = true) (hchange : c.change? = some (e.id, change))
    (hfits : change.Fits e.items) (hsame : r.Untouched r') :
    ∃ entries', Acts store r entries c
      (storeItems store e.id change.item ((change.apply e.items).map .str)) r' entries' := by
  refine acts_of_underway hhas horderly hsame hlocks (.changing hchange hfits ?_ rfl) rfl
  intro f hf hid
  rw [List.inj_on_of_nodup_map hhas.nodup_id hf he hid]

lemma acts_addItem (haction : c.action = "addItem")
    (h : (addItem store c.input).advance r = some (left, r')) :
    ∃ entries', Acts store r entries c left r' entries' := by
  obtain ⟨list, hlist, h⟩ := Work.exists_of_advance_given h
  obtain ⟨item, hitem, h⟩ := Work.exists_of_advance_given h
  obtain ⟨hsame, rfl | ⟨e, he, rfl, rfl⟩⟩ := eq_of_advance_get hhas h
  · exact acts_of_untouched hhas horderly hsame rfl rfl
  · simp only [Entry.any_items_doc]
    split_ifs with hmem
    · exact acts_of_untouched hhas horderly hsame rfl rfl
    · have hchange : c.change? = some (e.id, .add item) := by
        simp [change?, hlist, haction, hitem, Except.toOption]
      have hfits : Change.Fits (.add item) e.items :=
        ⟨isName_of_name hitem, by simpa using hmem⟩
      have hitems : (items e.doc ++ [.str item]) =
          (Change.apply (.add item) e.items).map Value.str := by simp [Change.apply]
      rw [hitems]
      exact acts_storeItems hhas horderly he (by simp [holdsLock, haction]) hchange hfits hsame

lemma acts_removeItem (haction : c.action = "removeItem")
    (h : (removeItem store c.input).advance r = some (left, r')) :
    ∃ entries', Acts store r entries c left r' entries' := by
  obtain ⟨list, hlist, h⟩ := Work.exists_of_advance_given h
  obtain ⟨item, hitem, h⟩ := Work.exists_of_advance_given h
  obtain ⟨hsame, rfl | ⟨e, he, rfl, rfl⟩⟩ := eq_of_advance_get hhas h
  · exact acts_of_untouched hhas horderly hsame rfl rfl
  · simp only [Entry.any_items_doc]
    split_ifs with hmem
    · have hchange : c.change? = some (e.id, .remove item) := by
        simp [change?, hlist, haction, hitem, Except.toOption]
      have hfits : Change.Fits (.remove item) e.items := (by simpa using hmem : item ∈ e.items)
      rw [Entry.filter_items_doc]
      exact acts_storeItems hhas horderly he (by simp [holdsLock, haction]) hchange hfits hsame
    · exact acts_of_untouched hhas horderly hsame rfl rfl

/-- A query is over after its step, and changes nothing. -/
lemma acts_getLists (haction : c.action = "_getLists")
    (h : (getLists store c.input).advance r = some (left, r')) :
    ∃ entries', Acts store r entries c left r' entries' := by
  obtain ⟨owner, howner, h⟩ := Work.exists_of_advance_given h
  obtain ⟨found, r₁, hr, -, hsame⟩ := hhas.onStore_find _
  rw [Work.advance_onStore_of_ok hr] at h
  cases h
  exact acts_of_untouched hhas horderly hsame rfl (deed?_eq_none_of_query (.inl haction))

lemma acts_getList (haction : c.action = "_getList")
    (h : (getList store c.input).advance r = some (left, r')) :
    ∃ entries', Acts store r entries c left r' entries' := by
  obtain ⟨list, hlist, h⟩ := Work.exists_of_advance_given h
  have hquiet := deed?_eq_none_of_query (c := { c with left }) (.inr haction)
  obtain ⟨hsame, rfl | ⟨e, he, rfl, rfl⟩⟩ := eq_of_advance_get hhas h
  · exact acts_of_untouched hhas horderly hsame rfl hquiet
  · exact acts_of_untouched hhas horderly hsame rfl hquiet

/-- The first step of a call of any action. -/
theorem acts_perform (h : ((concept store).perform c.action c.input).advance r = some (left, r')) :
    ∃ entries', Acts store r entries c left r' entries' := by
  simp only [concept] at h
  split at h
  · exact acts_newList hhas horderly ‹_› h
  · exact acts_deleteList hhas horderly ‹_› h
  · exact acts_addItem hhas horderly ‹_› h
  · exact acts_removeItem hhas horderly ‹_› h
  · exact acts_getLists hhas horderly ‹_› h
  · exact acts_getList hhas horderly ‹_› h
  · cases h

/-! ### Later steps -/

theorem acts_underway (hlocks : holdsLock c.action = true) (hunderway : Underway store entries c)
    (h : c.left.advance r = some (left, r')) :
    ∃ entries', Acts store r entries c left r' entries' := by
  cases hunderway with
  | @creating name owner haction hname howner hnew hleft =>
    rw [hleft] at h
    cases h
    exact acts_of_underway hhas horderly ⟨rfl, fun _ => rfl⟩ hlocks
      (.inserting haction hname howner hnew rfl) rfl
  | @inserting name owner created haction hname howner hnew hleft =>
    obtain ⟨r₁, hr, hhas', hdrawn⟩ := hhas.onStore_insert name owner created
    rw [hleft, Work.advance_onStore_of_ok hr] at h
    cases h
    let e : Entry := ⟨Resources.idText (r.drawn + 1), name, owner, [], created.offsetText⟩
    have heffect : Effect r.drawnIds entries c (.succeed (named e.id)) (entries ++ [e]) :=
      .creates haction hname howner rfl r.idText_notMem_drawnIds
    exact ⟨_, hhas', horderly.create (isName_of_name hname) hnew rfl, by omega, heffect, .inl rfl⟩
  | @changing list change items hchange hfits hitems hleft =>
    rw [hleft, storeItems] at h
    by_cases hstored : ∃ e ∈ entries, e.id = list
    · obtain ⟨e, he, rfl⟩ := hstored
      obtain rfl := hitems e he rfl
      obtain ⟨doc, r₁, hr, hhas', hdrawn⟩ := hhas.onStore_update he (change.apply e.items)
      rw [Work.advance_onStore_of_ok hr] at h
      cases h
      exact ⟨_, hhas',
        horderly.withItems (hfits.nodup (horderly.distinct e he)) (hfits.isName (horderly.items e he)),
        hdrawn.ge, .changes he hchange, .inl rfl⟩
    · -- the list was deleted after the call saw it
      have hid : ∀ e ∈ entries, e.id ≠ list := fun e he heq => hstored ⟨e, he, heq⟩
      obtain ⟨r₁, hr, hsame⟩ := hhas.onStore_update_of_ne hid
        (KeyMap.singleton "items" (.arr ((change.apply items).map .str)))
      rw [Work.advance_onStore_of_error hr] at h
      cases h
      exact acts_of_untouched hhas horderly hsame rfl rfl

end

end Call

end Synchrony.ListCreation
