import Synchrony.Config.Format
import Synchrony.Text.Blank
import Synchrony.Yaml.Node
import Synchrony.Yaml.Written

/-!
# Configuration files

A configuration is kept in a YAML file. A file of blanks alone stands for the defaults. A section without
a value is an empty section. Any scalar counts as a text where a text is wanted, but only a plain one as a
number.
-/

namespace Synchrony

/-! ### Reading -/

namespace Yaml

/-- The tag of numbers, which makes a literal block a number. -/
def numberTag : String := "tag:yaml.org,2002:int"

/-- The tag of nothing. -/
def nullTag : String := "tag:yaml.org,2002:null"

namespace Document

/-- The text of a node that holds a scalar. -/
def text? (d : Document) (n : Node) : Option String :=
  match d.resolve n with
  | .scalar _ _ text => some text
  | _ => none

/-- The number of a node that holds one. -/
def natural? (d : Document) (n : Node) : Option Nat :=
  match d.resolve n with
  | .scalar .plain _ text => Yaml.natural? text.toList
  | .scalar .literal tag text => if tag = some numberTag then Yaml.natural? text.toList else none
  | _ => none

/-- The items of a sequence; a missing value has none. -/
def items? (d : Document) (n : Node) : Option (List Node) :=
  match d.resolve n with
  | .sequence items => some items
  | .scalar .plain _ "" => some []
  | _ => none

/-- The text of a scalar that may stand for nothing. -/
def optionalText? (d : Document) (n : Node) : Option (Option String) :=
  match d.resolve n with
  | .scalar .plain tag text =>
    if tag = some nullTag then (if isNullWord text then some none else none)
    else if tag = none && (text = "" || isNullWord text) then some none
    else some (some text)
  | .scalar _ _ text => some (some text)
  | _ => none

/-- The settings of a section; a missing value has none. -/
def settings? (d : Document) (n : Node) : Option (Settings Node) :=
  match d.resolve n with
  | .mapping entries =>
    (entries.mapM fun e => (d.text? e.1).map fun name => (name, e.2)).map .named
  | .sequence items => some (.ordered items)
  | .scalar .plain _ "" => some (.named [])
  | _ => none

/-- How the nodes of a document are read. -/
def format (d : Document) : Format Node where
  settings? := d.settings?
  natural? := d.natural?
  text? := d.text?
  optionalText? := d.optionalText?
  items? := d.items?

end Document

end Yaml

namespace Config

/-- The configuration that a document holds. -/
def ofDocument? (d : Yaml.Document) : Option Config := d.format.config? d.root

/-- The configuration that a text holds. -/
def ofText? (text : String) : Option Config :=
  if text.toList.all Text.isBlank then some {} else (Yaml.Document.ofText? text).bind ofDocument?

/-- Why a configuration cannot be loaded. -/
inductive LoadError where
  | notFound
  | unreadable
  | malformed
deriving DecidableEq

/-- The configuration in a file with this content, if there is a file. -/
def load : Option ByteArray → Except LoadError Config
  | none => .error .notFound
  | some content =>
    match String.fromUTF8? content with
    | none => .error .unreadable
    | some text => (ofText? text).elim (.error .malformed) .ok

/-- As `load`, but without a file there are the defaults. -/
def loadOrDefault (content : Option ByteArray) : Except LoadError Config :=
  match load content with
  | .error .notFound => .ok {}
  | loaded => loaded

/-! ### Writing -/

/-- A setting as it is written. -/
inductive Written where
  | nothing
  | number (n : Nat)
  | text (s : String)
  | texts (l : List String)

/-- The sections of a configuration with their settings, in order. -/
def sections (c : Config) : List (String × List (String × Written)) := [
  ("engine", [
    ("max_depth", .number c.engine.maxDepth.toNat),
    ("max_actions", .number c.engine.maxActions.toNat),
    ("history", .number c.engine.history.toNat)]),
  ("requesting", [
    ("base_path", .text c.requesting.basePath),
    ("timeout_ms", .number c.requesting.timeoutMs.toNat),
    ("passthrough", .texts c.requesting.passthrough)]),
  ("server", [("port", .number c.server.port.toNat)]),
  ("store", [("path", c.store.path.elim .nothing .text)])]

namespace Written

/-- Where the further lines of a text begin. -/
def depth : Nat := 4

/-- What stands behind the name of a setting, up to the end of the line or the last of its lines. -/
def lines : Written → List Char
  | nothing => " null\n".toList
  | number n => ' ' :: (toString n).toList ++ ['\n']
  | text s => ' ' :: Yaml.written depth s
  | texts [] => " []\n".toList
  | texts l => '\n' :: l.flatMap fun s => "  - ".toList ++ Yaml.written depth s

end Written

/-- The text of a configuration. -/
def text (c : Config) : String :=
  String.ofList (c.sections.flatMap fun (name, settings) =>
    name.toList ++ ":\n".toList ++
      settings.flatMap fun (name, setting) => ' ' :: ' ' :: name.toList ++ ':' :: setting.lines)

end Config

end Synchrony
