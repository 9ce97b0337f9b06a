import Synchrony.ActionRef
import Synchrony.KeyMap.Lookup

/-!
# The registry of concepts

A concept declares its actions in an interface. The registry keeps, for each concept name, the
interface and the instance that were registered last. Beside them it keeps a table of handles, in
which an action reference is resolved to the declared action and the instance that performs it. A
registration takes the handles of the earlier one out and puts its own in, so the two tables stay in
step (`Registry.declare_handlesOf`).
-/

namespace Synchrony

/-- The declaration of an action: its name and the fields it takes and returns. -/
structure ActionSpec where
  name : String
  inputs : List String
  outputs : List String
deriving DecidableEq

namespace ActionSpec

/-- Whether the action only reads: its name begins with an underscore. -/
def isQuery (s : ActionSpec) : Bool := s.name.toList.head? = some '_'

end ActionSpec

/-- Why a look-up or a registration is refused. -/
inductive RegistryError where
  | notFound (action : ActionRef)
  | invalidConceptName (concept : String)
  | invalidActionName (concept action : String)
  | duplicateAction (concept action : String)
deriving DecidableEq

/-- The text of a refusal. -/
def RegistryError.message : RegistryError → String
  | notFound action => s!"action not found: {action.text}"
  | invalidConceptName c => s!"invalid concept name '{c}': must be alphanumeric or underscore"
  | invalidActionName c a => s!"invalid action name '{a}' on concept '{c}'"
  | duplicateAction c a => s!"concept '{c}' declares action '{a}' more than once"

/-- A registered concept: its interface and the instance that performs its actions. -/
structure Registration (ι : Type) where
  interface : List ActionSpec
  performer : ι

/-- An action that can be called: its declaration and the instance that performs it. -/
structure Handle (ι : Type) where
  action : ActionRef
  spec : ActionSpec
  performer : ι

namespace Registry

variable {ι : Type}

/-- Puts the handle of an action into a table, in the row of its concept. -/
def put (rows : KeyMap (KeyMap (Handle ι))) (handle : Handle ι) : KeyMap (KeyMap (Handle ι)) :=
  let row := (rows.get? handle.action.concept).getD .empty
  rows.insert handle.action.concept (row.insert handle.action.action handle)

/-- Takes the handles of a concept out of a table and puts those of an interface in. -/
def declare (rows : KeyMap (KeyMap (Handle ι))) (concept : String) (interface : List ActionSpec)
    (performer : ι) : KeyMap (KeyMap (Handle ι)) :=
  interface.foldl (fun rows spec => put rows ⟨⟨concept, spec.name⟩, spec, performer⟩)
    (rows.erase concept)

/-- The handles of the actions that a concept declares, by their names. -/
def rowOf (concept : String) (registered : Registration ι) : KeyMap (Handle ι) :=
  registered.interface.foldl (fun row spec =>
    row.insert spec.name ⟨⟨concept, spec.name⟩, spec, registered.performer⟩) .empty

/-- The handles of all actions that concepts declare. Only a concept with actions has a row. -/
def handlesOf (concepts : KeyMap (Registration ι)) : KeyMap (KeyMap (Handle ι)) :=
  concepts.filterMap fun concept registered =>
    if registered.interface.isEmpty then none else some (rowOf concept registered)

/-! ### A registration changes one row -/

theorem get?_foldl_put_of_ne {rows : KeyMap (KeyMap (Handle ι))} {concept other : String}
    (h : other ≠ concept) (interface : List ActionSpec) (performer : ι) :
    (interface.foldl (fun rows spec => put rows ⟨⟨concept, spec.name⟩, spec, performer⟩)
      rows).get? other = rows.get? other := by
  induction interface generalizing rows with
  | nil => rfl
  | cons spec rest ih => rw [List.foldl_cons, ih, put, KeyMap.get?_insert_of_ne _ _ h]

theorem get?_foldl_put_self {rows : KeyMap (KeyMap (Handle ι))} {concept : String}
    {row : KeyMap (Handle ι)} (h : rows.get? concept = some row) (interface : List ActionSpec)
    (performer : ι) :
    (interface.foldl (fun rows spec => put rows ⟨⟨concept, spec.name⟩, spec, performer⟩)
      rows).get? concept =
      some (interface.foldl (fun row spec =>
        row.insert spec.name ⟨⟨concept, spec.name⟩, spec, performer⟩) row) := by
  induction interface generalizing rows row with
  | nil => exact h
  | cons spec rest ih =>
    rw [List.foldl_cons, List.foldl_cons]
    apply ih
    rw [put, KeyMap.get?_insert_self, h]
    rfl

/-- What a registration makes of the table is the table of the concepts with the new one. -/
theorem declare_handlesOf (concepts : KeyMap (Registration ι)) (concept : String)
    (interface : List ActionSpec) (performer : ι) :
    declare (handlesOf concepts) concept interface performer =
      handlesOf (concepts.insert concept ⟨interface, performer⟩) := by
  apply KeyMap.ext_get?
  intro other
  rw [declare, handlesOf, handlesOf, KeyMap.get?_filterMap]
  by_cases h : other = concept
  · subst h
    rw [KeyMap.get?_insert_self, Option.bind_some]
    cases interface with
    | nil => exact KeyMap.get?_erase_self _ _
    | cons spec rest =>
      have hrow : (put ((handlesOf concepts).erase other)
          ⟨⟨other, spec.name⟩, spec, performer⟩).get? other =
          some (KeyMap.empty.insert spec.name ⟨⟨other, spec.name⟩, spec, performer⟩) := by
        rw [put, KeyMap.get?_insert_self, KeyMap.get?_erase_self]
        rfl
      exact get?_foldl_put_self hrow rest performer
  · rw [KeyMap.get?_insert_of_ne _ _ h, get?_foldl_put_of_ne h, KeyMap.get?_erase, if_neg h,
      KeyMap.get?_filterMap]

end Registry

/-- The last registration of each concept, and the handles of the actions that they declare. -/
structure Registry (ι : Type) where
  concepts : KeyMap (Registration ι)
  handles : KeyMap (KeyMap (Handle ι)) := Registry.handlesOf concepts
  inStep : handles = Registry.handlesOf concepts := by exact rfl

namespace Registry

variable {ι : Type}

/-- The concepts determine the registry. -/
theorem ext : ∀ {r r' : Registry ι}, r.concepts = r'.concepts → r = r'
  | ⟨_, _, rfl⟩, ⟨_, _, rfl⟩, rfl => rfl

/-- The registry without concepts. -/
def empty : Registry ι := { concepts := .empty }

/-- The first fault of an interface, given the names declared before. -/
def interfaceFault (concept : String) (seen : List String) :
    List ActionSpec → Option RegistryError
  | [] => none
  | spec :: rest =>
    if !isName spec.name then some (.invalidActionName concept spec.name)
    else if seen.contains spec.name then some (.duplicateAction concept spec.name)
    else interfaceFault concept (spec.name :: seen) rest

/-- Stores a registration in place of an earlier one of its name. -/
def store (r : Registry ι) (concept : String) (interface : List ActionSpec) (performer : ι) :
    Registry ι where
  concepts := r.concepts.insert concept ⟨interface, performer⟩
  handles := declare r.handles concept interface performer
  inStep := by rw [r.inStep, declare_handlesOf]

/-- Registers a concept in place of an earlier one of its name. -/
def register (r : Registry ι) (concept : String) (interface : List ActionSpec) (performer : ι) :
    Except RegistryError (Registry ι) :=
  if !isName concept then .error (.invalidConceptName concept)
  else
    match interfaceFault concept [] interface with
    | some fault => .error fault
    | none => .ok (r.store concept interface performer)

theorem register_eq_ok {r : Registry ι} {concept : String} {interface : List ActionSpec}
    {performer : ι} (hname : isName concept = true)
    (hinterface : interfaceFault concept [] interface = none) :
    r.register concept interface performer = .ok (r.store concept interface performer) := by
  rw [register, hname, hinterface]
  rfl

/-- The declared action of a name. -/
def lookup? (r : Registry ι) (action : ActionRef) : Option (Handle ι) :=
  (r.handles.get? action.concept).bind (·.get? action.action)

/-- The declared action of a name, or the reason that there is none. -/
def resolve (r : Registry ι) (action : ActionRef) : Except RegistryError (Handle ι) :=
  match r.lookup? action with
  | some handle => .ok handle
  | none => .error (.notFound action)

/-- Whether an action is declared. -/
def contains (r : Registry ι) (action : ActionRef) : Bool := (r.lookup? action).isSome

/-- How many actions are declared. -/
def size (r : Registry ι) : Nat := r.handles.values.foldl (fun n row => n + row.size) 0

/-- Whether no action is declared. -/
def isEmpty (r : Registry ι) : Bool := r.handles.isEmpty

/-- The names of the registered concepts, in their order. -/
def names (r : Registry ι) : List String := r.concepts.keys

/-- The registered concepts with their interfaces, in the order of their names. -/
def summaries (r : Registry ι) : List (String × List ActionSpec) :=
  r.concepts.entries.map fun (name, registered) => (name, registered.interface)

/-! ### What is looked up -/

theorem get?_foldl_insert (concept : String) (performer : ι) (interface : List ActionSpec)
    (row : KeyMap (Handle ι)) (name : String) :
    (interface.foldl (fun row spec =>
      row.insert spec.name ⟨⟨concept, spec.name⟩, spec, performer⟩) row).get? name =
      ((interface.reverse.find? (·.name = name)).map fun spec =>
        ⟨⟨concept, name⟩, spec, performer⟩).or (row.get? name) := by
  induction interface generalizing row with
  | nil => rfl
  | cons spec rest ih =>
    rw [List.foldl_cons, ih, List.reverse_cons, List.find?_append, KeyMap.get?_insert]
    cases rest.reverse.find? (·.name = name) with
    | some later => rfl
    | none =>
      by_cases h : name = spec.name
      · subst h
        simp
      · simp [h, Ne.symm h]

/-- An action is looked up in the interface that its concept was registered with last. -/
theorem lookup?_eq (r : Registry ι) (action : ActionRef) :
    r.lookup? action = (r.concepts.get? action.concept).bind fun registered =>
      (registered.interface.reverse.find? (·.name = action.action)).map fun spec =>
        ⟨action, spec, registered.performer⟩ := by
  rw [lookup?, r.inStep, handlesOf, KeyMap.get?_filterMap, Option.bind_assoc]
  congr 1
  funext registered
  split
  · rename_i hempty
    rw [List.isEmpty_iff.1 hempty]
    rfl
  · rw [Option.bind_some, rowOf, get?_foldl_insert, KeyMap.get?_empty, Option.or_none]

end Registry

end Synchrony
