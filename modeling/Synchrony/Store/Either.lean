import Synchrony.Store.Durable
import Synchrony.Store.Volatile

/-!
# Stores of either kind

A `Store` is in memory or on disk. Both kinds check the name of the collection before anything
else, and take the identifier of a new document from outside. Only the database of a store on disk can
fail.
-/

namespace Synchrony

/-- A document store. -/
inductive Store where
  | volatile (contents : Store.Volatile)
  | durable (contents : Store.Durable)

namespace Store

/-- Performs an operation after checking the name of its collection, while a database fails as it does. -/
def perform (s : Store) (fresh : String) (op : Op) (fails : Failures := fun _ => none) :
    Except StoreError op.Result × Store :=
  if !isCollection op.collection then (.error (.invalidCollection op.collection), s)
  else
    match s with
    | volatile contents => let (r, s) := contents.perform fresh op; (r, volatile s)
    | durable contents => let (r, s) := contents.perform fresh op fails; (r, durable s)

/-- Whether an operation takes a fresh identifier. -/
def takesId : Op → Bool
  | .insert c _ => isCollection c
  | _ => false

/--
The store after it was closed and opened again. The tables of a store on disk are what was committed, so
they are all found again; no transaction is open between two operations.
-/
def reopened : Store → Store
  | volatile _ => volatile {}
  | durable contents => durable contents

/-- Opens a store a second time while it is open; only one in memory can be. -/
def openTwice : Store → Except StoreError Unit
  | volatile _ => .ok ()
  | durable _ => .error (.backend "already open")

end Store

end Synchrony
