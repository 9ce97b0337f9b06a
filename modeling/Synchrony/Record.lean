import Synchrony.ActionRef
import Synchrony.Timestamp
import Synchrony.Value

/-!
# Action records

Every completed action becomes one record: what was called, with which input and which output, in
which burst, and how many rule firings lie between the burst's stimulus and the call. An output
with a field `error` marks a failed action.
-/

namespace Synchrony

/-- The output of an action that failed with a message. -/
def errorOutput (message : String) : Fields := KeyMap.singleton "error" (.str message)

/-- One completed action. -/
structure Record where
  seq : Nat
  burst : String
  depth : UInt32
  action : ActionRef
  input : Fields
  output : Fields
  syncedBy : Option String
  time : Timestamp

namespace Record

/-- Whether the action failed. -/
def isError (r : Record) : Bool := r.output.contains "error"

/-- The message of a failed action, if it is a text. -/
def error? (r : Record) : Option String := r.output.string? "error"

/-- The record as an object; a record that no rule caused has no `synced_by`. -/
def toValue (r : Record) : Value :=
  let fields : Fields := KeyMap.ofList [
    ("seq", .int r.seq),
    ("burst", .str r.burst),
    ("depth", .int r.depth.toNat),
    ("concept", .str r.action.concept),
    ("action", .str r.action.action),
    ("input", r.input.toValue),
    ("output", r.output.toValue),
    ("at", .str r.time.text)]
  match r.syncedBy with
  | some rule => (fields.insert "synced_by" (.str rule)).toValue
  | none => fields.toValue

end Record

end Synchrony
