import Synchrony.Rule

/-!
# Matching patterns against records

A match chooses a different record for each pattern so that all patterns fit under one binding.
The search goes through the patterns in order and prefers later records; when a later pattern finds
no record it returns to the next choice for an earlier one. An anchored search pins one pattern to
a trigger and looks for the other patterns' records among those before the trigger.
-/

namespace Synchrony

/-- The records chosen for the patterns, in their order, and the binding they fit under. -/
structure Match where
  binding : Binding
  records : List Nat

namespace Match

/--
Chooses a record for each pattern among its candidates, the first possible one for the first
pattern, then for the second, and so on. No two patterns share the number of a record.
-/
def search (accept : Binding → Bool) :
    List (Pattern × List Record) → List Nat → Binding → Option Match
  | [], _, b => if accept b then some ⟨b, []⟩ else none
  | (pattern, candidates) :: rest, chosen, b =>
    candidates.findSome? fun record =>
      if chosen.contains record.seq then none
      else
        match pattern.unify record b with
        | none => none
        | some b =>
          (search accept rest (record.seq :: chosen) b).map fun m =>
            ⟨m.binding, record.seq :: m.records⟩

/-- The first match that prefers records near the end of the list. -/
def find? (patterns : List Pattern) (records : List Record) (accept : Binding → Bool) :
    Option Match :=
  if patterns.isEmpty then none
  else search accept (patterns.map fun p => (p, records.reverse)) [] .empty

/-- Each pattern with its candidates, when the one at `anchor` is pinned to the trigger. -/
def pinned (patterns : List Pattern) (records : List Record) (anchor : Nat) (trigger : Record) :
    List (Pattern × List Record) :=
  let earlier := records.reverse.filter fun r => r.seq < trigger.seq
  patterns.mapIdx fun i p => (p, if i = anchor then [trigger] else earlier)

/-- The first match in which the pattern at `anchor` takes the trigger. -/
def findAnchored? (patterns : List Pattern) (records : List Record) (anchor : Nat)
    (trigger : Record) (accept : Binding → Bool) : Option Match :=
  if anchor < patterns.length then
    search accept (pinned patterns records anchor trigger) [] .empty
  else none

end Match

end Synchrony
