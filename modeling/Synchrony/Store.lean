import Synchrony.Value

/-!
# Document stores: operations

A store keeps documents in named collections. A document carries its identifier in the field `_id`,
which is given when the document is inserted and never changes. This module holds what every store
has in common: the operations, their results, and the rules for names, patches and filters.
-/

namespace Synchrony

/-- Why a store refuses an operation. -/
inductive StoreError where
  | notFound (collection id : String)
  | invalidCollection (name : String)
  | backend (reason : String)
  | unreadable (reason : String)
deriving DecidableEq

/-- The text of a refusal. -/
def StoreError.message : StoreError → String
  | notFound collection id => s!"document not found: {collection}/{id}"
  | invalidCollection name => s!"invalid collection name '{name}'"
  | backend reason => s!"store backend error: {reason}"
  | unreadable reason => reason

namespace Store

/-- Whether a character may begin the name of a collection. -/
def isCollectionStart (c : Char) : Bool :=
  ('A' ≤ c && c ≤ 'Z') || ('a' ≤ c && c ≤ 'z') || ('0' ≤ c && c ≤ '9') || c = '_'

/-- Whether a character may stand in the name of a collection. -/
def isCollectionChar (c : Char) : Bool := isCollectionStart c || c = '.' || c = '-'

/-- Whether a text is the name of a collection. -/
def isCollection (name : String) : Bool :=
  match name.toList with
  | [] => false
  | c :: rest => isCollectionStart c && rest.all isCollectionChar

/-- The field that holds the identifier of a document. -/
def idField : String := "_id"

/-- The document with an identifier, whatever it had there before. -/
def withId (doc : Fields) (id : String) : Fields := doc.insert idField (.str id)

/-- Whether the document has this identifier. -/
def hasId (doc : Fields) (id : String) : Bool := doc.string? idField = some id

/-- The document with the fields of a patch; the identifier stays. -/
def patched (doc patch : Fields) : Fields := doc.mergeExcept idField patch

/-- An operation on a collection. -/
inductive Op where
  | insert (collection : String) (doc : Fields)
  | get (collection id : String)
  | update (collection id : String) (patch : Fields)
  | delete (collection id : String)
  | find (collection : String) (filter : Fields)
  | findOne (collection : String) (filter : Fields)

namespace Op

/-- The collection an operation is about. -/
def collection : Op → String
  | insert c _ => c
  | get c _ => c
  | update c _ _ => c
  | delete c _ => c
  | find c _ => c
  | findOne c _ => c

/-- What an operation gives: an identifier, a document if there is one, and so on. -/
def Result : Op → Type
  | insert _ _ => String
  | get _ _ => Option Fields
  | update _ _ _ => Fields
  | delete _ _ => Bool
  | find _ _ => List Fields
  | findOne _ _ => Option Fields

end Op

end Store

end Synchrony
