import Synchrony.Matching
import Synchrony.Registry

/-!
# The table of installed rules

Rules are checked before they are installed: a rule needs a condition, mentions declared actions
only, and uses no variable that its conditions do not bind. An installed rule takes the place of
the one of its name, or goes to the end of the table. An index leads from an action to the rules
with patterns on it, among which the table finds those that a new record completes.
-/

namespace Synchrony

/-- Why a rule is not installed. -/
inductive RuleFault where
  | noConditions
  | unknownAction (action : ActionRef)
  | unboundVariable (name : String)
deriving DecidableEq

/-- The text of a fault. -/
def RuleFault.message : RuleFault → String
  | noConditions => "sync has no when patterns"
  | unknownAction action => (RegistryError.notFound action).message
  | unboundVariable name => s!"variable '{name}' is used in then but never bound by when"

/-- Everything that is wrong with a rule, given which actions are declared. -/
def Rule.faults (declared : ActionRef → Bool) (r : Rule) : List RuleFault :=
  (if r.conditions.isEmpty then [.noConditions] else []) ++
    (r.references.filter (! declared ·)).map .unknownAction ++
    r.unboundVars.map .unboundVariable

/-- What became of a batch of rules. -/
structure Installation where
  installed : List String := []
  replaced : List String := []
  rejected : List (String × RuleFault) := []

/-- Whether every rule of the batch was installed. -/
def Installation.isClean (i : Installation) : Bool := i.rejected.isEmpty

namespace RuleTable

/--
The patterns of some rules, in the order of the rules and of their patterns: for each its action, the
place of its rule and its own place.
-/
def patternsOf (rules : List Rule) : List (ActionRef × Nat × Nat) :=
  rules.zipIdx.flatMap fun (rule, i) => rule.conditions.zipIdx.map fun (p, k) => (p.action, i, k)

/-- An index of some rules, which has exactly their patterns. -/
structure Index (rules : List Rule) where
  entries : List (ActionRef × Nat × Nat)
  faithful : entries = patternsOf rules

/-- Makes the index of some rules. -/
def Index.of (rules : List Rule) : Index rules := ⟨patternsOf rules, rfl⟩

end RuleTable

/-- The installed rules in their order, with their index. -/
structure RuleTable where
  rules : List Rule := []
  index : RuleTable.Index rules := .of rules

namespace RuleTable

/-- The rules determine the table. -/
theorem ext : ∀ {t t' : RuleTable}, t.rules = t'.rules → t = t'
  | ⟨_, ⟨_, rfl⟩⟩, ⟨_, ⟨_, rfl⟩⟩, rfl => rfl

/-- Whether a rule of this name is installed. -/
def contains (t : RuleTable) (name : String) : Bool := t.rules.any (·.name = name)

/-- Puts a rule in the place of the first one of its name, or at the end. -/
def put (rule : Rule) : List Rule → List Rule
  | [] => [rule]
  | r :: rest => if r.name = rule.name then rule :: rest else r :: put rule rest

/-- Puts a rule in the place of the one of its name, or at the end, and makes the index anew. -/
def upsert (t : RuleTable) (rule : Rule) : RuleTable := { rules := put rule t.rules }

/-- Checks one rule of a batch and installs it if nothing is wrong with it. -/
def installOne (declared : ActionRef → Bool) (state : RuleTable × Installation) (rule : Rule) :
    RuleTable × Installation :=
  let (table, done) := state
  match rule.faults declared with
  | [] =>
    (table.upsert rule,
      { done with
        installed := done.installed ++ [rule.name]
        replaced := if table.contains rule.name then done.replaced ++ [rule.name]
          else done.replaced })
  | faults =>
    (table, { done with rejected := done.rejected ++ faults.map fun f => (rule.name, f) })

/-- Checks and installs rules one after the other. -/
def install (declared : ActionRef → Bool) (t : RuleTable) (batch : List Rule) :
    RuleTable × Installation :=
  batch.foldl (installOne declared) (t, {})

/-- The positions of a rule's patterns on an action. -/
def anchors (rule : Rule) (action : ActionRef) : List Nat :=
  (List.range rule.conditions.length).filter fun i =>
    match rule.conditions[i]? with
    | some p => p.action = action
    | none => false

/-- Gathers the patterns of consecutive entries that belong to one rule. -/
def gather : List (Nat × Nat) → List (Nat × List Nat)
  | [] => []
  | (i, k) :: rest =>
    match gather rest with
    | [] => [(i, [k])]
    | (j, ks) :: groups => if i = j then (i, k :: ks) :: groups else (i, [k]) :: (j, ks) :: groups

/-- The rules with a pattern on an action, in table order, each with the patterns' positions. -/
def triggeredBy (t : RuleTable) (action : ActionRef) : List (Rule × List Nat) :=
  let entries := (t.index.entries.filter (·.1 = action)).map (·.2)
  (gather entries).filterMap fun (i, positions) => t.rules[i]?.map fun rule => (rule, positions)

/--
The rules that a record completes together with earlier ones of a list, in table order, each with the
match found first.
-/
def completedBy (t : RuleTable) (records : List Record) (record : Record) : List (Rule × Match) :=
  (t.triggeredBy record.action).filterMap fun (rule, positions) =>
    (positions.findSome? fun i =>
      Match.findAnchored? rule.conditions records i record rule.accepts).map fun m => (rule, m)

end RuleTable

end Synchrony
