import Synchrony.Application
import Synchrony.Cli.Help
import Synchrony.Cli.Table
import Synchrony.Config.File
import Synchrony.Files
import Synchrony.Value.Text

/-!
# Running commands

A command reads its configuration from a file system, may write the default one into it, and ends with a
status, an output, and an error if it failed. What is shown about rules and concepts is that of the
application, put together over a store in memory.
-/

namespace Synchrony.Cli

/-- Why a command fails. -/
inductive Failure where
  | notLoaded (path : String)
  | notWritten (path : String)
  | notAssembled
  | invalid (issue : ConfigIssue)
  | faulty
  | cannotListen (port : UInt16)
deriving DecidableEq

/-- The text of a failure. -/
def Failure.message : Failure → String
  | notLoaded path => s!"failed to load config from {path}"
  | notWritten path => s!"failed to write {path}"
  | notAssembled => "failed to assemble app"
  | invalid issue => "invalid config: " ++ issue.message
  | faulty => "check found errors"
  | cannotListen port => s!"failed to listen on port {port.toNat}"

/-- How a run of the program ends: wrong arguments, or an output and perhaps a failure. -/
inductive Ending where
  | misused
  | ended (output : List String) (failure : Option Failure)

/-- The status that a run hands to its caller. -/
def Ending.status : Ending → Nat
  | misused => 2
  | ended _ (some _) => 1
  | ended _ none => 0

/-! ### What is shown -/

/-- A JSON value over several lines. -/
def jsonLines (v : Value) : List String := [v.toPrettyText]

/-- An array of texts. -/
def texts (l : List String) : Value := .arr (l.map .str)

/-- The issues of a configuration and what became of the rules. -/
def checkLines (json : Bool) (issues : List ConfigIssue) (i : Installation) (failed : Bool) :
    List String :=
  let count := i.installed.length
  if json then
    jsonLines (.obj [
      ("warnings", .arr (issues.map fun issue =>
        .obj [("level", .str issue.level), ("message", .str issue.message)])),
      ("syncs", .int count),
      ("rejected", .arr (i.rejected.map fun (rule, fault) =>
        .obj [("sync", .str rule), ("problem", .str fault.message)]))])
  else
    issues.map (fun issue => "[" ++ issue.level ++ "] " ++ issue.message) ++
      i.rejected.map (fun (rule, fault) => "[error] sync '" ++ rule ++ "': " ++ fault.message) ++
      if failed then [] else [s!"Config is valid. {count} syncs installed."]

/-- The rules. -/
def ruleLines (json : Bool) (rules : List Rule) : List String :=
  let conditions (r : Rule) := r.conditions.map (·.action.text)
  let consequences (r : Rule) := r.consequences.map (·.action.text)
  if json then
    jsonLines (.arr (rules.map fun r =>
      .obj [("name", .str r.name), ("when", texts (conditions r)), ("then", texts (consequences r)),
        ("filter", .bool r.filter.isSome)]))
  else if rules.isEmpty then ["No syncs installed."]
  else
    let name (r : Rule) := if r.filter.isSome then r.name ++ " (filtered)" else r.name
    Table.lines ⟨["NAME", "WHEN", "THEN"], rules.map fun r =>
      [name r, ", ".intercalate (conditions r), ", ".intercalate (consequences r)]⟩

/-- The word for what kind of action it is. -/
def kindWord (s : ActionSpec) : String := if s.isQuery then "query" else "action"

/-- The concepts with their actions. -/
def conceptLines (json : Bool) (concepts : List (String × List ActionSpec)) : List String :=
  if json then
    jsonLines (.obj [("concepts", .arr (concepts.map fun (name, specs) =>
      .obj [
        ("actions", .arr (specs.map fun s =>
          .obj [("inputs", texts s.inputs), ("kind", .str (kindWord s)), ("name", .str s.name),
            ("outputs", texts s.outputs)])),
        ("concept", .str name)]))])
  else
    Table.lines ⟨["CONCEPT", "ACTION", "KIND", "INPUTS", "OUTPUTS"],
      concepts.flatMap fun (name, specs) => specs.map fun s =>
        [name, s.name, kindWord s, ", ".intercalate s.inputs, ", ".intercalate s.outputs]⟩

/-- What became of the file of the configuration. -/
def initLines (json : Bool) (path : String) (created : Bool) : List String :=
  if json then jsonLines (.obj [("created", .bool created), ("path", .str path)])
  else if created then ["Created " ++ path]
  else [path ++ " already exists; left unchanged."]

/-! ### Commands -/

/-- Whether a store can be kept in a new file at a path. -/
def canHoldStore (files : FileTree) (path : String) : Bool :=
  !files.contains (.ofText path) && (files.write (fun _ => false) (.ofText path) .empty).1

/-- The application over a store in memory. -/
def inspected (c : Config) : Except RegistryError (Installation × World) :=
  Application.assemble (.ofConfig c.engine {}) "main"

/-- Runs a command that looks at the application. -/
def inspect (c : Config) (show? : Installation → World → List String × Option Failure) : Ending :=
  match inspected c with
  | .ok (i, w) => let (output, failure) := show? i w; .ended output failure
  | .error _ => .ended [] (some .notAssembled)

/-- Checks a configuration and the rules. -/
def check (json : Bool) (c : Config) : Ending :=
  inspect c fun i _ =>
    let issues := c.validate
    let failed := issues.any ConfigIssue.isError || !i.isClean
    (checkLines json issues i failed, if failed then some .faulty else none)

/-- Gets ready to serve. -/
def serve (files : FileTree) (c : Config) (port : Option UInt16) : Ending :=
  match c.validate.find? ConfigIssue.isError, c.store.path with
  | some issue, _ => .ended [] (some (.invalid issue))
  | none, some path =>
    if canHoldStore files path then .ended [] (some (.cannotListen (port.getD c.server.port)))
    else .ended [] (some .notAssembled)
  | none, none => .ended [] (some (.cannotListen (port.getD c.server.port)))

/-- Writes the default configuration unless there is a file. -/
def init (files : FileTree) (json : Bool) (path : String) : Ending × FileTree :=
  match files.writeIfMissing (fun _ => false) (.ofText path) ({} : Config).text.toUTF8 with
  | (none, files) => (.ended (initLines json path false) none, files)
  | (some true, files) => (.ended (initLines json path true) none, files)
  | (some false, files) => (.ended [] (some (.notWritten path)), files)

/-- What loading a configuration from a path finds: no file, data, or something that is no file. -/
def loadFrom (files : FileTree) (path : String) : Except Config.LoadError Config :=
  match files.find? (.ofText path) with
  | some (.directory _) => .error .unreadable
  | some (.file data) => Config.loadOrDefault (some data)
  | none => Config.loadOrDefault none

/-- Runs a command with the configuration that it names. -/
def withConfig (files : FileTree) (i : Invocation) (run : Config → Ending) : Ending × FileTree :=
  match loadFrom files i.config with
  | .ok c => (run c, files)
  | .error _ => (.ended [] (some (.notLoaded i.config)), files)

/-- Runs a command. -/
def Invocation.run (files : FileTree) (i : Invocation) : Ending × FileTree :=
  match i.verb with
  | .init => init files i.json i.config
  | .serve => withConfig files i fun c => serve files c i.port
  | .check => withConfig files i (check i.json)
  | .syncs => withConfig files i fun c =>
    inspect c fun _ w => (ruleLines i.json w.engine.rules.rules, none)
  | .concepts => withConfig files i fun c =>
    inspect c fun _ w => (conceptLines i.json w.engine.registry.summaries, none)

/-- Runs the program with its arguments. -/
def run (env : Option String) (args : List String) (files : FileTree) : Ending × FileTree :=
  match Wish.of? env args with
  | none => (.misused, files)
  | some (.help topic) => (.ended (Help.lines env topic) none, files)
  | some (.version verb) => (.ended [versionLine verb] none, files)
  | some (.run i) => i.run files

end Synchrony.Cli
