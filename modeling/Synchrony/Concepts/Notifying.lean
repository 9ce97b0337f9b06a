import Synchrony.Concepts.Arguments

/-!
# The concept of notifications

Each recipient has an inbox. A notification carries everything it was sent with, its time, and
whether it was read; an inbox shows its notifications in the order of their times.
-/

namespace Synchrony.Notifying

/-- The name of the concept. -/
def conceptName : String := "Notifying"

/-- The collection of the notifications. -/
def notifications : String := "Notifying.notifications"

/-- The declared actions. -/
def interface : List ActionSpec := [
  ⟨"notify", ["recipient", "topic"], ["notification"]⟩,
  ⟨"markRead", ["notification"], ["notification"]⟩,
  ⟨"_getNotifications", ["recipient"], ["notifications"]⟩]

/-- A new notification. -/
def newDoc (input : Fields) (created : Timestamp) : Fields :=
  (input.insert "read" (.bool false)).insert "createdAt" (.str created.offsetText)

/-- What an inbox shows of a stored notification. -/
def view (doc : Fields) : Fields :=
  match doc.get? Store.idField with
  | some id => (doc.erase Store.idField).insert "notification" id
  | none => doc

/-- The order of texts that may be absent: an absent one comes first. -/
def optionLe : Option String → Option String → Bool
  | none, _ => true
  | some _, none => false
  | some a, some b => a ≤ b

/-- The order of an inbox: by time, then by identifier. -/
def timeLe (a b : Fields) : Bool :=
  if a.string? "createdAt" = b.string? "createdAt" then
    optionLe (a.string? Store.idField) (b.string? Store.idField)
  else optionLe (a.string? "createdAt") (b.string? "createdAt")

/-- The output that names a notification. -/
def named (id : String) : Fields := KeyMap.singleton "notification" (.str id)

section
variable (store : String)

/-- Puts a notification into the inbox of its recipient. -/
def notify (input : Fields) : Work :=
  .given (Arguments.name input "recipient") fun _ =>
  .given (Arguments.name input "topic") fun _ =>
  .clock fun created =>
  .onStore store (.insert notifications (newDoc input created)) fun id =>
  .succeed (named id)

/-- Marks a notification as read. -/
def markRead (input : Fields) : Work :=
  .given (Arguments.text input "notification") fun id =>
  .onStore store (.get notifications id) fun found =>
  match (found : Option Fields) with
  | none => .succeed (errorOutput s!"Notification '{id}' not found.")
  | some _ =>
    .onStore store (.update notifications id (KeyMap.singleton "read" (.bool true))) fun _ =>
    .succeed (named id)

/-- The inbox of a recipient. -/
def getNotifications (input : Fields) : Work :=
  .given (Arguments.text input "recipient") fun recipient =>
  .onStore store (.find notifications (KeyMap.singleton "recipient" (.str recipient))) fun found =>
  let docs := (found : List Fields).mergeSort timeLe
  .succeed (KeyMap.singleton "notifications" (.arr (docs.map fun doc => (view doc).toValue)))

end

/-- The concept over a store. -/
def concept (store : String) : Concept where
  interface := interface
  perform
    | "notify", input => notify store input
    | "markRead", input => markRead store input
    | "_getNotifications", input => getNotifications store input
    | other, _ => .fail (.unknownAction other)

end Synchrony.Notifying
