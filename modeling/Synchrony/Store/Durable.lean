import Synchrony.Store
import Synchrony.Value.Reader
import Synchrony.Value.Text

/-!
# The store on disk

Each collection is a table that holds the texts of its documents under their identifiers, and is read
in the order of the identifiers. Every operation is a transaction. One that writes is committed as a
whole or not at all: the database may fail at any stage of it, and then nothing is committed. What is
committed stays when the store is closed and opened again.
-/

namespace Synchrony.Store

/-- Tables of texts under identifiers. -/
abbrev Tables := KeyMap (KeyMap String)

/-- The tables that were committed last. -/
structure Durable where
  tables : Tables := .empty

/-- What a database does for an operation. -/
inductive Stage where
  | begin
  | openTable
  | read
  | write
  | commit
deriving DecidableEq

/-- The reasons for which a database fails at the stages of an operation; without one it does not. -/
abbrev Failures := Stage → Option String

namespace Durable

/-! ### Documents as texts -/

/-- The text that is stored for a document. -/
def encode (doc : Fields) : String := doc.toValue.toText

/-- The document that a stored text stands for. -/
def decode (text : String) : Except StoreError Fields :=
  match Value.ofText? text with
  | some (.obj entries) => .ok (KeyMap.ofList entries)
  | _ => .error (.unreadable "not the text of a document")

/-- The documents that stored texts stand for. -/
def decodeAll : List String → Except StoreError (List Fields)
  | [] => .ok []
  | text :: rest =>
    match decode text with
    | .error e => .error e
    | .ok doc => (decodeAll rest).map (doc :: ·)

/-- The document under an identifier of a table, if there is one. -/
def lookup (t : KeyMap String) (id : String) : Except StoreError (Option Fields) :=
  match t.get? id with
  | some text => (decode text).map some
  | none => .ok none

/-! ### Transactions -/

/-- The table of a collection; one that was never written to is empty. -/
def table (tables : Tables) (collection : String) : KeyMap String :=
  (tables.get? collection).getD .empty

/-- Passes a stage of an operation, unless the database fails there. -/
def pass (fails : Failures) (stage : Stage) : Except StoreError Unit :=
  match fails stage with
  | some reason => .error (.backend reason)
  | none => .ok ()

/-- Lets a transaction work on the tables, and commits what it made of them unless it fails. -/
def transact {α : Type} (s : Durable) (work : Tables → Except StoreError (α × Tables)) :
    Except StoreError α × Durable :=
  match work s.tables with
  | .ok (a, tables) => (.ok a, ⟨tables⟩)
  | .error e => (.error e, s)

/-- Lets a transaction work on the table of a collection, which is made if it is missing. -/
def transactOn {α : Type} (fails : Failures) (s : Durable) (collection : String)
    (work : KeyMap String → Except StoreError (α × KeyMap String)) : Except StoreError α × Durable :=
  s.transact fun tables => do
    pass fails .begin
    pass fails .openTable
    let (a, t) ← work (table tables collection)
    pass fails .commit
    return (a, tables.insert collection t)

/-- A transaction is committed as a whole, or it fails and leaves the store as it was. -/
theorem transactOn_cases {α : Type} (fails : Failures) (s : Durable) (collection : String)
    (work : KeyMap String → Except StoreError (α × KeyMap String)) :
    (∃ e, s.transactOn fails collection work = (.error e, s)) ∨
      ∃ a t, work (table s.tables collection) = .ok (a, t) ∧
        s.transactOn fails collection work = (.ok a, ⟨s.tables.insert collection t⟩) := by
  simp only [transactOn, transact, pass, bind, Except.bind, pure, Except.pure]
  cases fails .begin with
  | some reason => exact .inl ⟨_, rfl⟩
  | none =>
    cases fails .openTable with
    | some reason => exact .inl ⟨_, rfl⟩
    | none =>
      cases work (table s.tables collection) with
      | error e => exact .inl ⟨e, rfl⟩
      | ok x =>
        cases fails .commit with
        | some reason => exact .inl ⟨_, rfl⟩
        | none => exact .inr ⟨x.1, x.2, rfl, rfl⟩

/-- Reads in the table of a collection, or in none if it was never written to. -/
def readOn {α : Type} (fails : Failures) (s : Durable) (collection : String)
    (work : KeyMap String → Except StoreError α) : Except StoreError α := do
  pass fails .begin
  pass fails .openTable
  if s.tables.contains collection then pass fails .read
  work (table s.tables collection)

/-! ### Operations -/

/-- The documents in a table that match a filter, if all its documents can be read. -/
def found (t : KeyMap String) (filter : Fields) : Except StoreError (List Fields) :=
  (decodeAll t.values).map (·.filter (·.matchesFilter filter))

/--
Performs an operation on a collection whose name is valid, with an identifier for a new document, while the
database fails as it does.
-/
def perform (s : Durable) (fresh : String) (op : Op) (fails : Failures := fun _ => none) :
    Except StoreError op.Result × Durable :=
  match op with
  | .insert c doc => s.transactOn fails c fun t => do
    pass fails .write
    return (fresh, t.insert fresh (encode (withId doc fresh)))
  | .get c id => (s.readOn fails c (lookup · id), s)
  | .update c id patch => s.transactOn fails c fun t => do
    pass fails .read
    match ← lookup t id with
    | none => .error (.notFound c id)
    | some doc =>
      pass fails .write
      return (patched doc patch, t.insert id (encode (patched doc patch)))
  | .delete c id => s.transactOn fails c fun t => do
    pass fails .write
    return (t.contains id, t.erase id)
  | .find c filter => (s.readOn fails c (found · filter), s)
  | .findOne c filter => (s.readOn fails c fun t => (found t filter).map List.head?, s)

/-! ### Databases that do not fail -/

section

variable {α : Type} {s : Durable} {c id : String}

theorem transactOn_of_ok {work : KeyMap String → Except StoreError (α × KeyMap String)} {a : α}
    {t : KeyMap String} (h : work (table s.tables c) = .ok (a, t)) :
    s.transactOn (fun _ => none) c work = (.ok a, ⟨s.tables.insert c t⟩) := by
  simp [transactOn, transact, pass, h, bind, Except.bind, pure, Except.pure]

theorem transactOn_of_error {work : KeyMap String → Except StoreError (α × KeyMap String)}
    {e : StoreError} (h : work (table s.tables c) = .error e) :
    s.transactOn (fun _ => none) c work = (.error e, s) := by
  simp [transactOn, transact, pass, h, bind, Except.bind]

theorem readOn_eq (s : Durable) (c : String) (work : KeyMap String → Except StoreError α) :
    s.readOn (fun _ => none) c work = work (table s.tables c) := by
  simp [readOn, pass, bind, Except.bind]

theorem perform_insert (s : Durable) (c fresh : String) (doc : Fields) :
    s.perform fresh (.insert c doc) = (.ok fresh,
      ⟨s.tables.insert c ((table s.tables c).insert fresh (encode (withId doc fresh)))⟩) := by
  rw [perform]
  exact transactOn_of_ok rfl

theorem perform_get (s : Durable) (fresh c id : String) :
    s.perform fresh (.get c id) = (lookup (table s.tables c) id, s) :=
  congrArg (·, s) (s.readOn_eq c (lookup · id))

theorem perform_update {doc : Fields} (h : lookup (table s.tables c) id = .ok (some doc))
    (fresh : String) (patch : Fields) : s.perform fresh (.update c id patch) =
      (.ok (patched doc patch),
        ⟨s.tables.insert c ((table s.tables c).insert id (encode (patched doc patch)))⟩) := by
  rw [perform]
  refine transactOn_of_ok ?_
  rw [h]
  rfl

/-- A document that is not there is not updated. -/
theorem perform_update_of_none (h : lookup (table s.tables c) id = .ok none) (fresh : String)
    (patch : Fields) : s.perform fresh (.update c id patch) = (.error (.notFound c id), s) := by
  rw [perform]
  refine transactOn_of_error ?_
  rw [h]
  rfl

theorem perform_delete (s : Durable) (fresh c id : String) :
    s.perform fresh (.delete c id) = (.ok ((table s.tables c).contains id),
      ⟨s.tables.insert c ((table s.tables c).erase id)⟩) := by
  rw [perform]
  exact transactOn_of_ok rfl

theorem perform_find (s : Durable) (fresh c : String) (filter : Fields) :
    s.perform fresh (.find c filter) = (found (table s.tables c) filter, s) :=
  congrArg (·, s) (s.readOn_eq c (found · filter))

theorem perform_findOne (s : Durable) (fresh c : String) (filter : Fields) :
    s.perform fresh (.findOne c filter) =
      ((found (table s.tables c) filter).map List.head?, s) :=
  congrArg (·, s) (s.readOn_eq c (fun t => (found t filter).map List.head?))

end

end Durable

end Synchrony.Store
