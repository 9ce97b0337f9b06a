import Synchrony.Pattern

/-!
# Synchronisation rules

A rule says: when records fit these patterns under one binding, then invoke these actions with the
values of that binding. An optional filter refuses bindings.
-/

namespace Synchrony

/-- A named rule: conditions, consequences and an optional filter on complete bindings. -/
structure Rule where
  name : String
  conditions : List Pattern
  consequences : List Invocation
  filter : Option (Binding → Bool) := none

namespace Rule

/-- Whether the filter, if there is one, lets a binding pass. -/
def accepts (r : Rule) (b : Binding) : Bool :=
  match r.filter with
  | some f => f b
  | none => true

/-- The actions the rule mentions, those of its conditions first. -/
def references (r : Rule) : List ActionRef :=
  r.conditions.map (·.action) ++ r.consequences.map (·.action)

/-- Names in increasing order, each once. -/
def sortedNames (names : List String) : List String :=
  (KeyMap.ofList (names.map fun n => (n, ()))).keys

/-- The variables of the conditions, in increasing order. -/
def boundVars (r : Rule) : List String := sortedNames (r.conditions.flatMap Pattern.vars)

/-- The variables of the consequences that no condition binds, in increasing order. -/
def unboundVars (r : Rule) : List String :=
  sortedNames ((r.consequences.flatMap (·.args.vars)).filter (! r.boundVars.contains ·))

end Rule

end Synchrony
