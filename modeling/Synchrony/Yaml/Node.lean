import Synchrony.Yaml.Token

/-!
# The tree of a YAML document

A document is a tree of scalars, sequences, mappings and aliases; a missing value is an empty plain
scalar. Aliases are not replaced, because one may stand inside the node that it names. Anchors are
numbered by how many names there were before. A name that is given anew gets the number of the next new
name, and of two nodes with one number the later one counts.
-/

namespace Synchrony.Yaml

/-- A node of a document. -/
inductive Node where
  | scalar (style : ScalarStyle) (tag : Option String) (text : String)
  | sequence (items : List Node)
  | mapping (entries : List (Node × Node))
  | alias (anchor : Nat)

/-- The node of a missing value. -/
def Node.missing : Node := .scalar .plain none ""

/-- A document: its tree, and the nodes that have a number (the latest first). -/
structure Document where
  root : Node
  anchored : List (Nat × Node) := []

/-- The node that an alias stands for, or the node itself. -/
def Document.resolve (d : Document) : Node → Node
  | .alias anchor => (d.anchored.lookup anchor).getD .missing
  | n => n

/--
The tokens that are left; the anchors' names and the numbers of anchored nodes in the order in which
the nodes begin (both the latest first); the anchored nodes by their place in that order; tag handles.
-/
structure Source where
  tokens : List Token
  names : List (String × Nat) := []
  numbers : List Nat := []
  nodes : List (Nat × Node) := []
  handles : List (String × String) := []

/-- The nodes that have a number, the latest first. -/
def Source.anchored (s : Source) : List (Nat × Node) :=
  let places := (List.range s.numbers.length).reverse
  (places.zip s.numbers).filterMap fun (place, number) =>
    (s.nodes.lookup place).map fun n => (number, n)

/-- A step that reads from a source and may fail. -/
abbrev Read := StateT Source Option

namespace Read

/-- The next token. -/
def peek : Read Token := do pure ((← get).tokens.headD .streamEnd)

/-- Moves past the next token. -/
def skip : Read Unit := modify fun s => { s with tokens := s.tokens.drop 1 }

/-- Moves past the next token if it is the given one, and tells whether it was. -/
def accept (t : Token) : Read Bool := do
  if (← peek) = t then do skip; pure true else pure false

/-- Moves past the given token, which has to come next. -/
def expect (t : Token) : Read Unit := do
  if ← accept t then pure () else failure

/-- Reads a node that may have an anchor, which is known inside the node already. -/
def anchoring (anchor : Option String) (read : Read Node) : Read Node :=
  match anchor with
  | none => read
  | some name => do
    let s ← get
    let place := s.numbers.length
    let number := (s.names.map (·.1)).eraseDups.length
    set { s with names := (name, number) :: s.names, numbers := number :: s.numbers }
    let n ← read
    modify fun s => { s with nodes := (place, n) :: s.nodes }
    pure n

/-- The alias of a name. -/
def aliasOf (name : String) : Read Node := do
  match (← get).names.lookup name with
  | some number => pure (.alias number)
  | none => failure

/-- The full text of a tag. -/
def resolveTag (handle suffix : String) : Read String := do
  if handle.isEmpty then pure suffix
  else
    match (← get).handles.lookup handle with
    | some expansion => pure (expansion ++ suffix)
    | none => failure

/-- The anchor and the tag in front of a node, in any order. -/
def properties : Read (Option String × Option String) := do
  match ← peek with
  | .anchor name => do
    skip
    match ← peek with
    | .tag handle suffix => do skip; pure (some name, some (← resolveTag handle suffix))
    | _ => pure (some name, none)
  | .tag handle suffix => do
    skip
    match ← peek with
    | .anchor name => do skip; pure (some name, some (← resolveTag handle suffix))
    | _ => pure (none, some (← resolveTag handle suffix))
  | _ => pure (none, none)

mutual
/-- A node; `block` admits block collections, `indentless` entries without deeper indentation. -/
def node (block indentless : Bool) : Nat → Read Node
  | 0 => failure
  | fuel + 1 => do
    match ← peek with
    | .alias name => do skip; aliasOf name
    | _ => do
      let (anchor, tag) ← properties
      match ← peek with
      | .scalar style text => do
        skip
        anchoring anchor (pure (.scalar style (tag.filter (· ≠ "!")) text))
      | .flowSequenceStart => do skip; anchoring anchor (flowSequence fuel [] true)
      | .flowMappingStart => do skip; anchoring anchor (flowMapping fuel [] true)
      | .blockSequenceStart => if block then do skip; anchoring anchor (blockSequence fuel []) else failure
      | .blockMappingStart => if block then do skip; anchoring anchor (blockMapping fuel []) else failure
      | t =>
        if t = .blockEntry && indentless then anchoring anchor (indentlessSequence fuel [])
        else if anchor.isSome || tag.isSome then anchoring anchor (pure (.scalar .plain tag ""))
        else failure

/-- A node, or the missing value before one of some tokens. -/
def nodeUnless (block indentless : Bool) (ends : List Token) : Nat → Read Node
  | 0 => failure
  | fuel + 1 => do
    if ends.contains (← peek) then pure .missing else node block indentless fuel

/-- The entries of an indented sequence. -/
def blockSequence : Nat → List Node → Read Node
  | 0, _ => failure
  | fuel + 1, items => do
    if ← accept .blockEntry then
      let item ← nodeUnless true false [.blockEntry, .blockEnd] fuel
      blockSequence fuel (item :: items)
    else do
      expect .blockEnd
      pure (.sequence items.reverse)

/-- The entries of a sequence that is not indented more than its key. -/
def indentlessSequence : Nat → List Node → Read Node
  | 0, _ => failure
  | fuel + 1, items => do
    if ← accept .blockEntry then
      let item ← nodeUnless true false [.blockEntry, .key, .value, .blockEnd] fuel
      indentlessSequence fuel (item :: items)
    else pure (.sequence items.reverse)

/-- The entries of an indented mapping. -/
def blockMapping : Nat → List (Node × Node) → Read Node
  | 0, _ => failure
  | fuel + 1, entries => do
    if ← accept .key then
      let k ← nodeUnless true true [.key, .value, .blockEnd] fuel
      let v ← if ← accept .value then nodeUnless true true [.key, .value, .blockEnd] fuel
        else pure .missing
      blockMapping fuel ((k, v) :: entries)
    else do
      expect .blockEnd
      pure (.mapping entries.reverse)

/-- The entries of a sequence in brackets; an entry with a key is a mapping of its own. -/
def flowSequence : Nat → List Node → Bool → Read Node
  | 0, _, _ => failure
  | fuel + 1, items, first => do
    if ← accept .flowSequenceEnd then pure (.sequence items.reverse)
    else do
      if !first then expect .flowEntry
      if ← accept .flowSequenceEnd then pure (.sequence items.reverse)
      else if ← accept .key then
        let k ← nodeUnless false false [.value, .flowEntry, .flowSequenceEnd] fuel
        let v ← if ← accept .value then nodeUnless false false [.flowEntry, .flowSequenceEnd] fuel
          else pure .missing
        flowSequence fuel (.mapping [(k, v)] :: items) false
      else do
        let item ← node false false fuel
        flowSequence fuel (item :: items) false

/-- The entries of a mapping in brackets; the value of an entry may be missing. -/
def flowMapping : Nat → List (Node × Node) → Bool → Read Node
  | 0, _, _ => failure
  | fuel + 1, entries, first => do
    if ← accept .flowMappingEnd then pure (.mapping entries.reverse)
    else do
      if !first then expect .flowEntry
      if ← accept .flowMappingEnd then pure (.mapping entries.reverse)
      else if ← accept .key then
        let k ← nodeUnless false false [.value, .flowEntry, .flowMappingEnd] fuel
        let v ← if ← accept .value then nodeUnless false false [.flowEntry, .flowMappingEnd] fuel
          else pure .missing
        flowMapping fuel ((k, v) :: entries) false
      else do
        let k ← node false false fuel
        flowMapping fuel ((k, .missing) :: entries) false
end

/-! ### Documents -/

/-- The tag handles that every document has. -/
def standardHandles : List (String × String) := [("!", "!"), ("!!", "tag:yaml.org,2002:")]

/-- Reads directives; one may not be repeated, and the version has to be 1.1 or 1.2. -/
def directives (version : Bool) : Nat → List (String × String) → Read (Bool × List (String × String))
  | 0, _ => failure
  | fuel + 1, handles => do
    match ← peek with
    | .versionDirective major minor => do
      guard (!version && major = 1 && (minor = 1 || minor = 2))
      skip
      directives true fuel handles
    | .tagDirective handle expansion => do
      guard ((handles.lookup handle).isNone)
      skip
      directives version fuel ((handle, expansion) :: handles)
    | _ => pure (version || !handles.isEmpty, handles)

/-- The one document of a source; nothing at all is a document without a value. -/
def document (fuel : Nat) : Read Document := do
  if (← peek) = .streamEnd then pure ⟨.missing, []⟩
  else do
    let (any, handles) ← directives false fuel []
    modify fun s => { s with handles := handles ++ standardHandles }
    let explicit ← accept .documentStart
    guard (explicit || !any)
    let ends : List Token := [.documentStart, .documentEnd, .streamEnd]
    let n ← if explicit then nodeUnless true false ends fuel else node true false fuel
    modify fun s => { s with tokens := s.tokens.dropWhile (· = .documentEnd) }
    expect .streamEnd
    pure ⟨n, (← get).anchored⟩

end Read

/-- The document of a text that holds one. -/
def Document.ofText? (text : String) : Option Document := do
  let tokens ← tokens? text
  let (d, _) ← (Read.document (4 * tokens.length + 8)).run { tokens }
  pure d

end Synchrony.Yaml
