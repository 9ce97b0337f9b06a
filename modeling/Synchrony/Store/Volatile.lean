import Synchrony.Store

/-!
# The store in memory

Each collection is the list of its documents in the order of their insertion. The contents are gone
when the store is closed.
-/

namespace Synchrony.Store

/-- Collections of documents in the order of their insertion. -/
structure Volatile where
  collections : KeyMap (List Fields) := .empty

namespace Volatile

/-- The documents of a collection. -/
def docs (s : Volatile) (collection : String) : List Fields :=
  (s.collections.get? collection).getD []

/-- The store with other documents in a collection. -/
def setDocs (s : Volatile) (collection : String) (docs : List Fields) : Volatile :=
  ⟨s.collections.insert collection docs⟩

/-- Patches the first document with an identifier. -/
def patchFirst (id : String) (patch : Fields) : List Fields → Option (Fields × List Fields)
  | [] => none
  | doc :: rest =>
    if hasId doc id then some (patched doc patch, patched doc patch :: rest)
    else (patchFirst id patch rest).map fun (found, rest) => (found, doc :: rest)

/-- Performs an operation on a collection whose name is valid, with an identifier for a new document. -/
def perform (s : Volatile) (fresh : String) : (op : Op) → Except StoreError op.Result × Volatile
  | .insert c doc => (.ok fresh, s.setDocs c (s.docs c ++ [withId doc fresh]))
  | .get c id => (.ok ((s.docs c).find? (hasId · id)), s)
  | .update c id patch =>
    match patchFirst id patch (s.docs c) with
    | some (doc, docs) => (.ok doc, s.setDocs c docs)
    | none => (.error (.notFound c id), s)
  | .delete c id =>
    if (s.docs c).any (hasId · id) then
      (.ok true, s.setDocs c ((s.docs c).filter (! hasId · id)))
    else (.ok false, s)
  | .find c filter => (.ok ((s.docs c).filter (·.matchesFilter filter)), s)
  | .findOne c filter => (.ok ((s.docs c).find? (·.matchesFilter filter)), s)

end Volatile

end Synchrony.Store
