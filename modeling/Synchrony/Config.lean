import Synchrony.ActionRef
import Synchrony.Burst

/-!
# Configuration

What an installation can be told: the limits of bursts and of the history, where and how long
requests are answered, the port of the server and the file of the store. Every setting has a
default. Validation reports settings that cannot work as errors, and a base path without a leading
slash as a warning.
-/

namespace Synchrony

/-- Limits of bursts, and how many records are kept for inspection. -/
structure EngineConfig where
  maxDepth : UInt32 := 32
  maxActions : UInt64 := 1024
  history : UInt64 := 4096
deriving DecidableEq

/-- The limits of a burst. -/
def EngineConfig.limits (c : EngineConfig) : Limits := ⟨c.maxDepth, c.maxActions.toNat⟩

/-- Where requests arrive, how long they wait for a response, and which paths name actions. -/
structure RequestingConfig where
  basePath : String := "/api"
  timeoutMs : UInt64 := 10000
  passthrough : List String := []
deriving DecidableEq

namespace RequestingConfig

/-- The base path without slashes at its end. -/
def trimmedBase (c : RequestingConfig) : String :=
  String.ofList (c.basePath.toList.reverse.dropWhile (· = '/')).reverse

/-- The action that a listed path invokes directly. -/
def passthroughAction? (c : RequestingConfig) (path : String) : Option ActionRef :=
  if c.passthrough.contains path then ActionRef.ofPath? path else none

end RequestingConfig

/-- The port of the server. -/
structure ServerConfig where
  port : UInt16 := 8000
deriving DecidableEq

/-- The file of the store; without one the store is in memory. -/
structure StoreConfig where
  path : Option String := none
deriving DecidableEq

/-- A whole configuration. -/
structure Config where
  engine : EngineConfig := {}
  requesting : RequestingConfig := {}
  server : ServerConfig := {}
  store : StoreConfig := {}
deriving DecidableEq

/-! ### Validation -/

/-- What is questionable or wrong about a configuration. -/
inductive ConfigIssue where
  | zeroDepth
  | zeroActions
  | zeroTimeout
  | baseWithoutSlash (base : String)
  | badPassthrough (entry : String)
deriving DecidableEq

namespace ConfigIssue

/-- Whether the configuration cannot be used. -/
def isError : ConfigIssue → Bool
  | baseWithoutSlash _ => false
  | _ => true

/-- The word for how serious an issue is. -/
def level (i : ConfigIssue) : String := if i.isError then "error" else "warning"

/-- The text of an issue. -/
def message : ConfigIssue → String
  | zeroDepth => "engine.max_depth must be greater than 0"
  | zeroActions => "engine.max_actions must be greater than 0"
  | zeroTimeout => "requesting.timeout_ms must be greater than 0"
  | baseWithoutSlash base => s!"requesting.base_path '{base}' should start with '/'"
  | badPassthrough entry =>
    s!"requesting.passthrough entry '{entry}' is not of the form /Concept/action"

end ConfigIssue

namespace Config

/-- Everything that is questionable or wrong, in the order of the settings. -/
def validate (c : Config) : List ConfigIssue :=
  (if c.engine.maxDepth = 0 then [.zeroDepth] else []) ++
    (if c.engine.maxActions = 0 then [.zeroActions] else []) ++
    (if c.requesting.timeoutMs = 0 then [.zeroTimeout] else []) ++
    (if c.requesting.basePath.toList.head? = some '/' then []
      else [.baseWithoutSlash c.requesting.basePath]) ++
    (c.requesting.passthrough.filter fun p => (ActionRef.ofPath? p).isNone).map .badPassthrough

end Config

end Synchrony
