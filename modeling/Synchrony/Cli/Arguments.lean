/-!
# Arguments of the command line

Options may stand before or after the command; a value follows its option, or an equals sign. Arguments
are read in order, and the first one that asks for help or for the version, or that is wrong, decides.
The file of the configuration is named by the option, else by the environment, else it has its usual name.
-/

namespace Synchrony.Cli

/-- What the command line can be asked to do. -/
inductive Verb where
  | init
  | serve
  | check
  | syncs
  | concepts
deriving DecidableEq

namespace Verb

/-- All commands, in the order in which they are shown. -/
def all : List Verb := [init, serve, check, syncs, concepts]

/-- The word for a command. -/
def word : Verb → String
  | init => "init"
  | serve => "serve"
  | check => "check"
  | syncs => "syncs"
  | concepts => "concepts"

/-- The command that a word names. -/
def ofWord? (word : String) : Option Verb := all.find? fun v => v.word = word

end Verb

/-- A command with its settings. -/
structure Invocation where
  verb : Verb
  config : String
  json : Bool
  port : Option UInt16

/-- What help can be about. -/
inductive Topic where
  | program
  | command (verb : Verb)
  | help
deriving DecidableEq

namespace Topic

/-- The command, or else the program. -/
def ofVerb : Option Verb → Topic
  | some verb => command verb
  | none => program

/-- What the word behind a request for help names. -/
def ofWord? (word : String) : Option Topic :=
  if word = "help" then some help else (Verb.ofWord? word).map command

end Topic

/-- What the arguments ask for; a version is that of a command or of the program. -/
inductive Wish where
  | run (invocation : Invocation)
  | help (topic : Topic)
  | version (verb : Option Verb)

/-- The options given so far before or after the command. -/
structure Options where
  config : Option String := none
  json : Bool := false
  port : Option UInt16 := none

/-- An option that a verb accepts. -/
inductive Flag where
  | config
  | json
  | port
  | help
  | version
deriving DecidableEq

namespace Flag

/-- The option with a long name. -/
def ofLong? (verb : Option Verb) (name : List Char) : Option Flag :=
  match String.ofList name with
  | "config" => some config
  | "json" => some json
  | "port" => if verb = some .serve then some port else none
  | "help" => some help
  | "version" => some version
  | _ => none

/-- The option with a short name. -/
def ofShort? (verb : Option Verb) : Char → Option Flag
  | 'j' => some json
  | 'p' => if verb = some .serve then some port else none
  | 'h' => some help
  | 'V' => some version
  | _ => none

/-- Whether a value belongs to an option. -/
def takesValue : Flag → Bool
  | config | port => true
  | _ => false

end Flag

/-! ### Values -/

/-- The number that decimal digits write. -/
def digits? (cs : List Char) : Option Nat :=
  if cs.isEmpty || !cs.all Char.isDigit then none
  else some (cs.foldl (fun n c => n * 10 + (c.toNat - '0'.toNat)) 0)

/-- The port that a text writes; a sign may stand in front. -/
def port? (text : String) : Option UInt16 :=
  let n? := match text.toList with
    | '+' :: cs => digits? cs
    | '-' :: cs => (digits? cs).filter (· = 0)
    | cs => digits? cs
  n?.bind fun n => if n < UInt16.size then some (UInt16.ofNat n) else none

namespace Options

/-- Sets an option that takes no value; none may be given twice. -/
def switch? (o : Options) : Flag → Option Options
  | .json => if o.json then none else some { o with json := true }
  | _ => none

/-- Sets an option to a value; none may be given twice. -/
def assign? (o : Options) (flag : Flag) (value : String) : Option Options :=
  match flag with
  | .config => if o.config.isSome || value.isEmpty then none else some { o with config := some value }
  | .port => if o.port.isSome then none else (port? value).map fun p => { o with port := some p }
  | _ => none

end Options

/-! ### Reading -/

/-- What an argument is: an option with or without a value beside it, an end mark, or a word. -/
inductive Argument where
  | long (name : List Char) (value : Option (List Char))
  | short (letters : List Char)
  | endMark
  | word (text : String)

/-- What an argument is. -/
def Argument.of (text : String) : Argument :=
  match text.toList with
  | ['-', '-'] => .endMark
  | '-' :: '-' :: name =>
    let rest := name.dropWhile (· ≠ '=')
    .long (name.takeWhile (· ≠ '=')) (if rest.isEmpty then none else some (rest.drop 1))
  | '-' :: c :: letters => .short (c :: letters)
  | _ => .word text

/-- What reading options leads to: a wish at once, or options and the words behind them. -/
inductive Reading where
  | wish (w : Wish)
  | word (o : Options) (word : String) (rest : List String)
  | ended (o : Options)
  | wrong

/-- The value of an option among the arguments behind it. -/
def nextValue? : List String → Option (String × List String)
  | text :: rest =>
    match Argument.of text with
    | .word value => some (value, rest)
    | _ => none
  | [] => none

/-- What short options lead to that stand together; the last of them may take the next argument. -/
inductive Letters where
  | wish (w : Wish)
  | options (o : Options)
  | wantsValue (o : Options) (flag : Flag)
  | wrong

/-- Reads short options that stand together. -/
def Letters.of (verb : Option Verb) (o : Options) : List Char → Letters
  | [] => .options o
  | c :: letters =>
    match Flag.ofShort? verb c with
    | none => .wrong
    | some .help => .wish (.help (.ofVerb verb))
    | some .version => .wish (.version verb)
    | some flag =>
      if flag.takesValue then
        match letters with
        | [] => .wantsValue o flag
        | '=' :: value => (o.assign? flag (String.ofList value)).elim .wrong .options
        | value => (o.assign? flag (String.ofList value)).elim .wrong .options
      else
        match o.switch? flag with
        | some o => Letters.of verb o letters
        | none => .wrong

/-- Reads options up to the first word. -/
def readOptions (verb : Option Verb) : Nat → Options → List String → Reading
  | 0, _, _ => .wrong
  | _, o, [] => .ended o
  | fuel + 1, o, text :: rest =>
    let withNext (o : Options) (flag : Flag) : Reading :=
      match nextValue? rest with
      | some (value, rest) =>
        match o.assign? flag value with
        | some o => readOptions verb fuel o rest
        | none => .wrong
      | none => .wrong
    match Argument.of text with
    | .endMark => if rest.isEmpty then .ended o else .wrong
    | .word word => .word o word rest
    | .short letters =>
      match Letters.of verb o letters with
      | .wish w => .wish w
      | .options o => readOptions verb fuel o rest
      | .wantsValue o flag => withNext o flag
      | .wrong => .wrong
    | .long name value =>
      match Flag.ofLong? verb name, value with
      | some .help, none => .wish (.help (.ofVerb verb))
      | some .version, none => .wish (.version verb)
      | some .json, none =>
        match o.switch? .json with
        | some o => readOptions verb fuel o rest
        | none => .wrong
      | some flag, some value =>
        match o.assign? flag (String.ofList value) with
        | some o => readOptions verb fuel o rest
        | none => .wrong
      | some flag, none => withNext o flag
      | none, _ => .wrong

/-- The usual name of the file of the configuration. -/
def usualConfig : String := "concord.yaml"

/-- The command that the options before and after it make up. -/
def invocation? (env : Option String) (verb : Verb) (before after : Options) : Option Invocation :=
  let given := after.config <|> before.config
  if env = some "" && (before.config.isNone || after.config.isNone) then none
  else
    some ⟨verb, (given <|> env).getD usualConfig, before.json || after.json, after.port⟩

/-- What help is wanted about. -/
def helpTopic? : List String → Option Topic
  | [] => some .program
  | [word] => Topic.ofWord? word
  | _ => none

/-- What arguments ask for, unless they are wrong. -/
def Wish.of? (env : Option String) (args : List String) : Option Wish :=
  match readOptions none (args.length + 1) {} args with
  | .wish w => some w
  | .ended _ | .wrong => none
  | .word before word rest =>
    if word = "help" then (helpTopic? rest).map .help
    else
      (Verb.ofWord? word).bind fun verb =>
        match readOptions (some verb) (rest.length + 1) {} rest with
        | .wish w => some w
        | .ended after => (invocation? env verb before after).map .run
        | .word _ _ _ | .wrong => none

end Synchrony.Cli
