import Synchrony.Cli.Run

/-!
# The program

The outer layer of the command line: it looks at the files that a command concerns, runs the command, and
writes the file that the command made.
-/

namespace Synchrony.Cli

/-- The text of a path of names. -/
def pathText (absolute : Bool) (names : List String) : String :=
  (if absolute then "/" else "") ++ "/".intercalate names

/-- The files on the way to a path, as far as they are there. -/
def lookAround (absolute : Bool) (done here : List String) (t : FileTree) :
    List String → IO FileTree
  | [] => pure t
  | name :: names => do
    let done := done ++ [name]
    if name = ".." then lookAround absolute done here.dropLast t names
    else
      let found ← (IO.FS.readBinFile (pathText absolute done)).toBaseIO
      match found with
      | .ok data => pure (t.modify (FileTree.put name (.file data)) here)
      | .error (.noFileOrDirectory _ _ _) => pure t
      | .error _ =>
        lookAround absolute done (here ++ [name]) (t.modify (FileTree.put name .empty) here) names

/-- Writes a file by way of a temporary one beside it. -/
def store (absolute : Bool) (names : List String) (data : ByteArray) : IO Unit := do
  let parent := names.dropLast
  if !parent.isEmpty then IO.FS.createDirAll (pathText absolute parent)
  let temporary := pathText absolute names ++ ".tmp"
  IO.FS.writeBinFile temporary data
  IO.FS.rename temporary (pathText absolute names)

/-- Prints how a run ended, and hands its status on. -/
def report (ending : Ending) : IO UInt32 := do
  match ending with
  | .misused => IO.eprintln s!"Usage: {programName} [OPTIONS] <COMMAND>"
  | .ended output failure =>
    output.forM IO.println
    failure.forM fun f => IO.eprintln ("error: " ++ f.message)
  pure (UInt32.ofNat ending.status)

/-- Runs the program on the files of the system. -/
def runOnSystem (env : Option String) (args : List String) : IO UInt32 := do
  match Wish.of? env args with
  | some (.run i) =>
    let path := FilePath.ofText i.config
    let absolute := i.config.toList.head? = some '/'
    let before ← lookAround absolute [] [] .empty path.names
    let (ending, after) := i.run before
    match before.read? path, after.read? path with
    | none, some data =>
      match ← (store absolute path.names data).toBaseIO with
      | .ok () => report ending
      | .error _ => report (.ended [] (some (.notWritten i.config)))
    | _, _ => report ending
  | _ => report (run env args .empty).1

end Synchrony.Cli

/-- The command line. -/
def main (args : List String) : IO UInt32 := do
  Synchrony.Cli.runOnSystem (← IO.getEnv Synchrony.Cli.configVariable) args
