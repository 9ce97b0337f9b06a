import Synchrony.Cli.Arguments

/-!
# Help

The text that explains the program or one of its commands: what it does, how it is called, the commands,
and the options with their explanations in one column.
-/

namespace Synchrony.Cli

/-- The name of the program. -/
def programName : String := "concord"

/-- The version of the program. -/
def programVersion : String := "0.1.0"

/-- The variable of the environment that names the file of the configuration. -/
def configVariable : String := "CONCORD_CONFIG"

/-- What the program is. -/
def programPurpose : String := "Concept and sync engine: serve, inspect and validate a concord app"

/-- What a command does. -/
def Verb.purpose : Verb → String
  | .init => "Write a default configuration file"
  | .serve => "Run the HTTP server"
  | .check => "Validate the configuration and every installed sync"
  | .syncs => "List installed syncs"
  | .concepts => "List registered concepts and their actions"

namespace Help

/-- Lines of two columns; the second begins two blanks behind the longest entry of the first. -/
def columns (entries : List (String × String)) : List String :=
  let width := entries.foldl (fun w e => max w e.1.length) 0
  entries.map fun (name, text) =>
    "  " ++ name ++ String.ofList (List.replicate (width - name.length) ' ') ++ "  " ++ text

/-- The options of the program, or of a command. -/
def options (env : Option String) (verb : Option Verb) : List (String × String) :=
  let port := ("-p, --port <PORT>", "Port to listen on (overrides server.port)")
  let current := env.getD ""
  let config := ("    --config <CONFIG>",
    s!"Path to the configuration file [env: {configVariable}={current}] [default: {usualConfig}]")
  (if verb = some .serve then [port] else []) ++
    [config, ("-j, --json", "Output as JSON"), ("-h, --help", "Print help"),
      ("-V, --version", "Print version")]

/-- What the command that prints help does. -/
def purpose : String := "Print this message or the help of the given subcommand(s)"

/-- The commands, with the one that prints help. -/
def commands : List (String × String) :=
  Verb.all.map (fun v => (v.word, v.purpose)) ++ [("help", purpose)]

/-- The lines of help on a topic. -/
def lines (env : Option String) : Topic → List String
  | .program =>
    [programPurpose, "", s!"Usage: {programName} [OPTIONS] <COMMAND>", "", "Commands:"] ++
      columns commands ++ ["", "Options:"] ++ columns (options env none)
  | .command verb =>
    let word := verb.word
    [verb.purpose, "", s!"Usage: {programName} {word} [OPTIONS]", "", "Options:"] ++
      columns (options env (some verb))
  | .help =>
    [purpose, "", s!"Usage: {programName} help [COMMAND]...", "", "Arguments:"] ++
      columns [("[COMMAND]...", "Print help for the subcommand(s)")]

end Help

/-- The line that tells the version of the program or of a command. -/
def versionLine : Option Verb → String
  | none => programName ++ " " ++ programVersion
  | some verb => programName ++ "-" ++ verb.word ++ " " ++ programVersion

end Synchrony.Cli
