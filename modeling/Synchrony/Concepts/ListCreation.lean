import Synchrony.Concepts.Arguments

/-!
# The concept of named lists

A list has a name that no other list has, perhaps an owner, and items that are pairwise different.
Creating a list, adding an item and removing one hold the concept's write lock from their first
store operation to their last.
-/

namespace Synchrony.ListCreation

/-- The name of the concept. -/
def conceptName : String := "ListCreation"

/-- The collection of the lists. -/
def lists : String := "ListCreation.lists"

/-- The declared actions. -/
def interface : List ActionSpec := [
  ⟨"newList", ["listName", "owner"], ["list"]⟩,
  ⟨"deleteList", ["list"], ["list"]⟩,
  ⟨"addItem", ["list", "item"], ["list", "item"]⟩,
  ⟨"removeItem", ["list", "item"], ["list", "item"]⟩,
  ⟨"_getLists", ["owner"], ["lists"]⟩,
  ⟨"_getList", ["list"], ["list", "listName", "owner", "items"]⟩]

/-- Whether an action holds the write lock while it uses the store. -/
def holdsLock (action : String) : Bool :=
  action = "newList" || action = "addItem" || action = "removeItem"

/-! ### Stored lists -/

/-- A new list. -/
def newDoc (listName : String) (owner : Option String) (created : Timestamp) : Fields :=
  KeyMap.ofList [
    ("listName", .str listName),
    ("owner", (owner.map Value.str).getD .null),
    ("items", .arr []),
    ("createdAt", .str created.offsetText)]

/-- The items of a stored list. -/
def items (doc : Fields) : List Value := ((doc.get? "items").bind Value.asArray?).getD []

/-- What a query shows of a stored list. -/
def view (doc : Fields) : Fields :=
  let orNull (key : String) := (doc.get? key).getD .null
  KeyMap.ofList [
    ("list", orNull Store.idField),
    ("listName", orNull "listName"),
    ("owner", orNull "owner"),
    ("items", (doc.get? "items").getD (.arr []))]

/-- The order of queries: lists without a name first, then by name. -/
def nameLe (a b : Fields) : Bool :=
  match a.string? "listName", b.string? "listName" with
  | none, _ => true
  | some _, none => false
  | some a, some b => a ≤ b

/-- The output that names a list. -/
def named (list : String) : Fields := KeyMap.singleton "list" (.str list)

/-- The output that names a list and an item. -/
def itemOutput (list item : String) : Fields := (named list).insert "item" (.str item)

/-- The failure for a list that is not there. -/
def notFound (list : String) : Work := .succeed (errorOutput s!"List '{list}' not found.")

/-! ### Actions -/

section
variable (store : String)

/-- Creates a list unless there is one of its name. -/
def newList (input : Fields) : Work :=
  .given (Arguments.name input "listName") fun listName =>
  .given (Arguments.optionalText input "owner") fun owner =>
  .onStore store (.findOne lists (KeyMap.singleton "listName" (.str listName))) fun existing =>
  match (existing : Option Fields) with
  | some _ => .succeed (errorOutput s!"List with name '{listName}' already exists.")
  | none =>
    .clock fun created =>
    .onStore store (.insert lists (newDoc listName owner created)) fun id =>
    .succeed (named id)

/-- Deletes a list. -/
def deleteList (input : Fields) : Work :=
  .given (Arguments.text input "list") fun list =>
  .onStore store (.delete lists list) fun deleted =>
  match (deleted : Bool) with
  | true => .succeed (named list)
  | false => notFound list

/-- Puts other items on a list. -/
def storeItems (list item : String) (items : List Value) : Work :=
  .onStore store (.update lists list (KeyMap.singleton "items" (.arr items))) fun _ =>
  .succeed (itemOutput list item)

/-- Adds an item at the end of a list that does not have it. -/
def addItem (input : Fields) : Work :=
  .given (Arguments.text input "list") fun list =>
  .given (Arguments.name input "item") fun item =>
  .onStore store (.get lists list) fun found =>
  match (found : Option Fields) with
  | none => notFound list
  | some doc =>
    if (items doc).any (·.asString? = some item) then
      .succeed (errorOutput s!"Item '{item}' is already on the list.")
    else storeItems store list item (items doc ++ [.str item])

/-- Removes an item from a list that has it. -/
def removeItem (input : Fields) : Work :=
  .given (Arguments.text input "list") fun list =>
  .given (Arguments.text input "item") fun item =>
  .onStore store (.get lists list) fun found =>
  match (found : Option Fields) with
  | none => notFound list
  | some doc =>
    if (items doc).any (·.asString? = some item) then
      storeItems store list item ((items doc).filter (·.asString? ≠ some item))
    else .succeed (errorOutput s!"Item '{item}' is not on the list.")

/-- The lists of an owner, or all lists, in the order of their names. -/
def getLists (input : Fields) : Work :=
  .given (Arguments.optionalText input "owner") fun owner =>
  let filter : Fields := match owner with
    | some owner => KeyMap.singleton "owner" (.str owner)
    | none => .empty
  .onStore store (.find lists filter) fun found =>
  let docs := (found : List Fields).mergeSort nameLe
  .succeed (KeyMap.singleton "lists" (.arr (docs.map fun doc => (view doc).toValue)))

/-- One list. -/
def getList (input : Fields) : Work :=
  .given (Arguments.text input "list") fun list =>
  .onStore store (.get lists list) fun found =>
  match (found : Option Fields) with
  | some doc => .succeed (view doc)
  | none => notFound list

end

/-- The concept over a store. -/
def concept (store : String) : Concept where
  interface := interface
  perform
    | "newList", input => newList store input
    | "deleteList", input => deleteList store input
    | "addItem", input => addItem store input
    | "removeItem", input => removeItem store input
    | "_getLists", input => getLists store input
    | "_getList", input => getList store input
    | other, _ => .fail (.unknownAction other)

end Synchrony.ListCreation
