import Synchrony.Config
import Synchrony.Value

/-!
# Reading configurations

A configuration is read from a value of some format. The format says what a value is where a section,
a number, a text or a list is wanted. A section gives its settings by name, or in order without names.
A setting that is missing has its default, one of an unknown name is ignored, and one that is named
twice is an error.
-/

namespace Synchrony

/-- The settings of a section: by name, or in their order. -/
inductive Settings (α : Type) where
  | named (entries : List (String × α))
  | ordered (items : List α)

/-- What the values of a format are where something certain is wanted. -/
structure Format (α : Type) where
  settings? : α → Option (Settings α)
  natural? : α → Option Nat
  text? : α → Option String
  optionalText? : α → Option (Option String)
  items? : α → Option (List α)

namespace Settings

variable {α : Type}

/-- The settings of a section with certain names; there are no more of them, nor one named twice. -/
def select? (names : List String) : Settings α → Option (String → Option α)
  | named entries =>
    if names.all fun name => entries.countP (·.1 = name) ≤ 1 then some fun name => entries.lookup name
    else none
  | ordered items => if items.length ≤ names.length then some fun name => (names.zip items).lookup name
    else none

end Settings

namespace Format

variable {α β : Type} (f : Format α)

/-- A setting that is read, or its default. -/
def setting? (read : α → Option β) (default : β) : Option α → Option β
  | none => some default
  | some v => read v

/-- A number below `bound`. -/
def bounded? (bound : Nat) (v : α) : Option Nat :=
  (f.natural? v).bind fun n => if n < bound then some n else none

/-- A number of 16 bits. -/
def number16? (v : α) : Option UInt16 := (f.bounded? UInt16.size v).map UInt16.ofNat

/-- A number of 32 bits. -/
def number32? (v : α) : Option UInt32 := (f.bounded? UInt32.size v).map UInt32.ofNat

/-- A number of 64 bits. -/
def number64? (v : α) : Option UInt64 := (f.bounded? UInt64.size v).map UInt64.ofNat

/-- A list of texts. -/
def texts? (v : α) : Option (List String) := (f.items? v).bind fun items => items.mapM f.text?

/-- The limits of bursts and of the history. -/
def engine? (v : α) : Option EngineConfig := do
  let get ← (← f.settings? v).select? ["max_depth", "max_actions", "history"]
  let d : EngineConfig := {}
  pure {
    maxDepth := ← setting? f.number32? d.maxDepth (get "max_depth")
    maxActions := ← setting? f.number64? d.maxActions (get "max_actions")
    history := ← setting? f.number64? d.history (get "history") }

/-- How requests are taken. -/
def requesting? (v : α) : Option RequestingConfig := do
  let get ← (← f.settings? v).select? ["base_path", "timeout_ms", "passthrough"]
  let d : RequestingConfig := {}
  pure {
    basePath := ← setting? f.text? d.basePath (get "base_path")
    timeoutMs := ← setting? f.number64? d.timeoutMs (get "timeout_ms")
    passthrough := ← setting? f.texts? d.passthrough (get "passthrough") }

/-- The server. -/
def server? (v : α) : Option ServerConfig := do
  let get ← (← f.settings? v).select? ["port"]
  let d : ServerConfig := {}
  pure { port := ← setting? f.number16? d.port (get "port") }

/-- The store. -/
def store? (v : α) : Option StoreConfig := do
  let get ← (← f.settings? v).select? ["path"]
  let d : StoreConfig := {}
  pure { path := ← setting? f.optionalText? d.path (get "path") }

/-- A whole configuration. -/
def config? (v : α) : Option Config := do
  let get ← (← f.settings? v).select? ["engine", "requesting", "server", "store"]
  pure {
    engine := ← setting? f.engine? {} (get "engine")
    requesting := ← setting? f.requesting? {} (get "requesting")
    server := ← setting? f.server? {} (get "server")
    store := ← setting? f.store? {} (get "store") }

end Format

/-! ### JSON -/

/-- In JSON a section is an object or an array, and every other setting has the one type it needs. -/
def Value.format : Format Value where
  settings?
    | .obj entries => some (.named entries)
    | .arr items => some (.ordered items)
    | _ => none
  natural?
    | .int n => if 0 ≤ n then some n.toNat else none
    | _ => none
  text? := Value.asString?
  optionalText?
    | .null => some none
    | v => v.asString?.map some
  items? := Value.asArray?

/-- The configuration that a JSON value holds. -/
def Config.ofValue? (v : Value) : Option Config := Value.format.config? v

end Synchrony
