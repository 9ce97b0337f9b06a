import Synchrony.Proofs.ListCreation.Guarantee

/-!
# Items that are added and removed again

Removing what was just added gives all stores back as they were, since no item is twice on a list.
It has to be asked for by the name under which the item is stored: an item is added without the
blanks at its ends, and removed exactly as it is given (`Desk.removeItem_undoes_addItem`).
-/

namespace Synchrony.ListCreation

variable {store item : String} {entries : List Entry} {e : Entry} {items : List String}
  {r r' r₁ r₂ : Resources} {input output : Fields}

/-- The stores as they are when a list got these items. -/
def Replaces (store list : String) (items : List String) (r r' : Resources) : Prop :=
  ∃ fresh, ∀ name, r'.storeNamed name =
    if name = store then
      ((r.storeNamed store).perform fresh
        (.update lists list (KeyMap.singleton "items" (.arr (items.map .str))))).2
    else r.storeNamed name

namespace Has

section

variable (h : Has store entries r)
include h

/-- A list that gets its own items back is as it was, and so is everything else. -/
lemma storeNamed_of_replaces (he : e ∈ entries) (h₁ : Replaces store e.id items r r₁)
    (h₂ : Replaces store e.id e.items r₁ r₂) (name : String) :
    r₂.storeNamed name = r.storeNamed name := by
  obtain ⟨fresh₁, h₁⟩ := h₁
  obtain ⟨fresh₂, h₂⟩ := h₂
  have hfound : (entries.map Entry.doc).find? (Store.hasId · e.id) = some e.doc := by
    rw [find?_hasId_map_doc, h.find?_eq_some he]
    rfl
  rw [h₂, h₁, h₁, if_pos rfl]
  split
  · rename_i heq
    rw [heq]
    refine Store.Keeps.update_update h isCollection_lists hfound ?_ ?_ _
    · rw [Entry.patched_doc]
      exact Entry.legible _
    · rw [Entry.patched_doc, Entry.patched_doc]
  · rfl

/-- The write at the end of a call that changes the items of a list. -/
lemma run_storeItems (he : e ∈ entries) (hsame : r₁.Untouched r) (item : String)
    (items : List String) :
    ∃ r', (storeItems store e.id item (items.map .str)).run r =
        (.finished (.ok (itemOutput e.id item)), r') ∧
      Has store (entries.map (Entry.withItems e.id items)) r' ∧
      Replaces store e.id items r₁ r' := by
  obtain ⟨doc, r', hr, hhas, -⟩ := h.onStore_update he items
  refine ⟨r', ?_, hhas, Resources.idText (r.drawn + 1), fun name => ?_⟩
  · rw [storeItems, Work.run_onStore_of_ok hr]
    rfl
  · have hleaves := r.leaves_onStore store
      (.update lists e.id (KeyMap.singleton "items" (.arr (items.map .str))))
    rw [hr] at hleaves
    rw [hleaves.stored, hsame.stored, hsame.stored]

/-! ### Adding -/

/-- A call that added an item found the list without it. -/
lemma exists_of_addItem (hrun : (addItem store input).run r = (.finished (.ok output), r'))
    (hok : output.contains "error" = false) :
    ∃ e ∈ entries, ∃ item, Arguments.text input "list" = .ok e.id ∧
      Arguments.name input "item" = .ok item ∧ item ∉ e.items ∧ output = itemOutput e.id item ∧
      Has store (entries.map (Entry.withItems e.id (e.items ++ [item]))) r' ∧
      Replaces store e.id (e.items ++ [item]) r r' := by
  rw [addItem] at hrun
  cases hlist : Arguments.text input "list" with
  | error err =>
    rw [hlist] at hrun
    cases hrun
  | ok list =>
    cases hitem : Arguments.name input "item" with
    | error err =>
      rw [hlist, hitem] at hrun
      cases hrun
    | ok item =>
      obtain ⟨r₀, hr, hsame⟩ := h.onStore_get list
      rw [hlist, hitem, Work.given, Work.given, Work.run_onStore_of_ok hr] at hrun
      cases hfound : entries.find? (·.id = list) with
      | none =>
        rw [hfound] at hrun
        cases hrun
        cases hok
      | some e =>
        obtain rfl : e.id = list := by simpa using List.find?_some hfound
        have he := List.mem_of_find?_eq_some hfound
        simp only [hfound, Option.map_some, Entry.any_items_doc] at hrun
        split_ifs at hrun with hmem
        · cases hrun
          cases hok
        · have hitems : items e.doc ++ [.str item] = (e.items ++ [item]).map Value.str := by simp
          obtain ⟨r'', hstored, hhas, hreplaces⟩ :=
            (h.of_untouched hsame).run_storeItems he hsame item (e.items ++ [item])
          rw [hitems, hstored] at hrun
          cases hrun
          exact ⟨e, he, item, rfl, rfl, by simpa using hmem, rfl, hhas, hreplaces⟩

/-! ### Removing -/

/-- An item that is on the list is taken from it. -/
lemma run_removeItem (he : e ∈ entries) (hlist : Arguments.text input "list" = .ok e.id)
    (hitem : Arguments.text input "item" = .ok item) (hmem : item ∈ e.items) :
    ∃ r', (removeItem store input).run r = (.finished (.ok (itemOutput e.id item)), r') ∧
      Replaces store e.id (e.items.filter (· ≠ item)) r r' := by
  obtain ⟨r₀, hr, hsame⟩ := h.onStore_get_of_mem he
  obtain ⟨r', hstored, -, hreplaces⟩ :=
    (h.of_untouched hsame).run_storeItems he hsame item (e.items.filter (· ≠ item))
  refine ⟨r', ?_, hreplaces⟩
  rw [removeItem, hlist, hitem, Work.given, Work.given, Work.run_onStore_of_ok hr]
  simp only [Entry.any_items_doc, Entry.filter_items_doc]
  rw [if_pos (decide_eq_true hmem), hstored]

/-- An item that is not on the list is not looked for under any other name. -/
lemma run_removeItem_of_notMem (he : e ∈ entries) (hlist : Arguments.text input "list" = .ok e.id)
    (hitem : Arguments.text input "item" = .ok item) (hmem : item ∉ e.items) :
    ∃ r', (removeItem store input).run r =
        (.finished (.ok (errorOutput s!"Item '{item}' is not on the list.")), r') ∧
      r.Untouched r' := by
  obtain ⟨r₀, hr, hsame⟩ := h.onStore_get_of_mem he
  refine ⟨r₀, ?_, hsame⟩
  rw [removeItem, hlist, hitem, Work.given, Work.given, Work.run_onStore_of_ok hr]
  simp only [Entry.any_items_doc]
  rw [if_neg (by simpa using hmem)]
  rfl

end

/-- Taking the item that was added last gives the list its items back. -/
lemma run_removeItem_of_added (h : Has store entries r) (he : e ∈ entries) (hnew : item ∉ e.items)
    (hadded : Replaces store e.id (e.items ++ [item]) r r₁)
    (hhas : Has store (entries.map (Entry.withItems e.id (e.items ++ [item]))) r₁)
    (hlist : Arguments.text input "list" = .ok e.id)
    (hitem : Arguments.text input "item" = .ok item) :
    ∃ r₂, (removeItem store input).run r₁ = (.finished (.ok (itemOutput e.id item)), r₂) ∧
      ∀ name, r₂.storeNamed name = r.storeNamed name := by
  let e' : Entry := { e with items := e.items ++ [item] }
  have he' : e' ∈ entries.map (Entry.withItems e.id (e.items ++ [item])) :=
    List.mem_map.2 ⟨e, he, if_pos rfl⟩
  have hfilter : (e.items ++ [item]).filter (· ≠ item) = e.items := by
    have hkept : e.items.filter (· ≠ item) = e.items :=
      List.filter_eq_self.2 fun other hother => decide_eq_true fun heq => hnew (heq ▸ hother)
    simpa using hkept
  obtain ⟨r₂, hrun, hremoved⟩ := hhas.run_removeItem he' hlist hitem (by simp [e'])
  rw [show e'.items.filter (· ≠ item) = e.items from hfilter] at hremoved
  exact ⟨r₂, hrun, h.storeNamed_of_replaces he hadded hremoved⟩

end Has

lemma text_list_itemOutput (list item : String) :
    Arguments.text (itemOutput list item) "list" = .ok list := by
  simp [Arguments.text, itemOutput, named, KeyMap.singleton, KeyMap.get?_insert]

lemma text_item_itemOutput (list item : String) :
    Arguments.text (itemOutput list item) "item" = .ok item := by
  simp [Arguments.text, itemOutput]

namespace Desk

/--
Where an item was added to a list, removing the item of the answer answers the same and gives all
stores back as they were. So does removing with the arguments of the addition, if the item has no
blanks at its ends. If it has some, the item is said not to be on the list, and it stays there.
-/
theorem removeItem_undoes_addItem {d₀ d : Desk} (hopens : Opens store d₀)
    (hreaches : Reaches store d₀ d)
    (hadd : ((concept store).perform "addItem" input).run d.resources = (.finished (.ok output), r₁))
    (hok : output.contains "error" = false) :
    ∃ list item, Arguments.text input "list" = .ok list ∧ Arguments.text input "item" = .ok item ∧
      output = itemOutput list (Text.trim item) ∧
      (∃ r₂, ((concept store).perform "removeItem" output).run r₁ = (.finished (.ok output), r₂) ∧
        ∀ name, r₂.storeNamed name = d.resources.storeNamed name) ∧
      (Text.trim item = item →
        ∃ r₂, ((concept store).perform "removeItem" input).run r₁ = (.finished (.ok output), r₂) ∧
          ∀ name, r₂.storeNamed name = d.resources.storeNamed name) ∧
      (Text.trim item ≠ item →
        ∃ r₂, ((concept store).perform "removeItem" input).run r₁ =
            (.finished (.ok (errorOutput s!"Item '{item}' is not on the list.")), r₂) ∧
          ∀ name, r₂.storeNamed name = r₁.storeNamed name) := by
  obtain ⟨entries, hkept⟩ := hopens.kept.reaches hreaches
  have hhas := hkept.sound.has
  obtain ⟨e, he, name, hlist, hname, hnew, rfl, hadded, hreplaces⟩ := hhas.exists_of_addItem hadd hok
  obtain ⟨item, hitem, rfl⟩ := exists_text_of_name hname
  refine ⟨e.id, item, hlist, hitem, rfl, ?_, fun htrim => ?_, fun htrim => ?_⟩
  · exact hhas.run_removeItem_of_added he hnew hreplaces hadded (text_list_itemOutput _ _)
      (text_item_itemOutput _ _)
  · exact hhas.run_removeItem_of_added he hnew hreplaces hadded hlist (htrim.symm ▸ hitem)
  · -- what is on the lists has no blanks at its ends
    have hnot : item ∉ e.items ++ [Text.trim item] := by
      rw [List.mem_append, List.mem_singleton]
      rintro (hmem | heq)
      · exact htrim (hkept.sound.orderly.items e he item hmem).2
      · exact htrim heq.symm
    have he' : { e with items := e.items ++ [Text.trim item] } ∈
        entries.map (Entry.withItems e.id (e.items ++ [Text.trim item])) :=
      List.mem_map.2 ⟨e, he, if_pos rfl⟩
    obtain ⟨r₂, hrun, hsame⟩ := hadded.run_removeItem_of_notMem he' hlist hitem hnot
    exact ⟨r₂, hrun, hsame.stored⟩

/-! ### An item with blanks at its ends -/

namespace Groceries

/-- The item is added under its name, and not found under the text that was given. -/
lemma exists_reaches_added : ∃ d r₁ r₂, Reaches "memory" start d ∧
    ((concept "memory").perform "addItem" addition).run d.resources =
      (.finished (.ok (itemOutput list "milk")), r₁) ∧
    ((concept "memory").perform "removeItem" addition).run r₁ =
      (.finished (.ok (errorOutput "Item ' milk ' is not on the list.")), r₂) := by
  obtain ⟨⟨r, calls, holder, turns⟩, hreaches, hr, -⟩ :=
    @exists_reaches_of_run "memory" start _ rfl "newList" creation (.ok (named list)) rfl
  cases hr
  exact ⟨_, _, _, hreaches, rfl, rfl⟩

end Groceries

open Groceries in
theorem removeItem_undoes_addItem_milk : Opens "memory" start ∧ ∃ d r₁ r₂,
    Reaches "memory" start d ∧
      ((concept "memory").perform "addItem" addition).run d.resources =
        (.finished (.ok (itemOutput list "milk")), r₁) ∧
      ((concept "memory").perform "removeItem" (itemOutput list "milk")).run r₁ =
        (.finished (.ok (itemOutput list "milk")), r₂) ∧
      ∀ name, r₂.storeNamed name = d.resources.storeNamed name := by
  obtain ⟨d, r₁, -, hreaches, hadd, -⟩ := exists_reaches_added
  obtain ⟨_, _, -, -, -, ⟨r₂, hrun, hsame⟩, -⟩ :=
    removeItem_undoes_addItem opens_start hreaches hadd rfl
  exact ⟨opens_start, d, r₁, r₂, hreaches, hadd, hrun, hsame⟩

open Groceries in
/-- The arguments of an addition that succeeded do not always serve for the removal. -/
theorem not_forall_removeItem_undoes_addItem :
    ¬ ∀ (store : String) (d₀ d : Desk) (input output : Fields) (r₁ : Resources),
      Opens store d₀ → Reaches store d₀ d →
        ((concept store).perform "addItem" input).run d.resources = (.finished (.ok output), r₁) →
        output.contains "error" = false →
        ∃ removed r₂, ((concept store).perform "removeItem" input).run r₁ =
            (.finished (.ok removed), r₂) ∧ removed.contains "error" = false ∧
          ∀ name, r₂.storeNamed name = d.resources.storeNamed name := by
  intro h
  obtain ⟨d, r₁, r₂, hreaches, hadd, hanswer⟩ := exists_reaches_added
  obtain ⟨removed, _, hrun, hok, -⟩ :=
    h "memory" start d addition _ r₁ opens_start hreaches hadd rfl
  rw [hanswer] at hrun
  cases hrun
  cases hok

end Desk

end Synchrony.ListCreation
