import Synchrony.Yaml.Scalar

/-!
# Tokens of a YAML text

Indentation becomes explicit in the tokens: a block collection has a token at its beginning and at its
end. A key of a mapping is known as one only by the colon after it, so the tokens for the key, and for
the beginning of its mapping, are put in front of it afterwards. Such a key stands on one line, within
1024 characters.
-/

namespace Synchrony.Yaml

/-- A token. -/
inductive Token where
  | streamEnd
  | versionDirective (major minor : Nat)
  | tagDirective (handle expansion : String)
  | documentStart
  | documentEnd
  | blockSequenceStart
  | blockMappingStart
  | blockEnd
  | flowSequenceStart
  | flowSequenceEnd
  | flowMappingStart
  | flowMappingEnd
  | blockEntry
  | flowEntry
  | key
  | value
  | alias (name : String)
  | anchor (name : String)
  | tag (handle suffix : String)
  | scalar (style : ScalarStyle) (text : String)
deriving DecidableEq

/-- A place where a key may have begun. -/
structure KeyStart where
  required : Bool
  token : Nat
  line : Nat
  column : Nat
  index : Nat

/-- The tokens so far, and what decides how the text goes on. -/
structure Scan where
  cursor : Cursor
  tokens : List Token := []
  indent : Int := -1
  outer : List Int := []
  keyAllowed : Bool := true
  keys : List (Option KeyStart) := [none]

namespace Scan

/-- Whether a collection in brackets is open. -/
def inFlow (s : Scan) : Bool := 1 < s.keys.length

/-- Adds a token at the end. -/
def add (s : Scan) (t : Token) : Scan := { s with tokens := s.tokens ++ [t] }

/-- Puts a token in front of the one with a number. -/
def insertAt (s : Scan) (n : Nat) (t : Token) : Scan :=
  { s with tokens := s.tokens.take n ++ t :: s.tokens.drop n }

/-- Moves on. -/
def moveTo (s : Scan) (c : Cursor) : Scan := { s with cursor := c }

/-! ### Indentation -/

/-- Opens a block collection if the column is deeper than the indentation. -/
def indentTo (s : Scan) (column : Nat) (before : Option Nat) (t : Token) : Scan :=
  if s.inFlow || (column : Int) ≤ s.indent then s
  else
    let s := { s with outer := s.indent :: s.outer, indent := column }
    match before with
    | some n => s.insertAt n t
    | none => s.add t

/-- Closes the block collections that are deeper than a column. -/
def dedentTo (column : Int) : List Int → Scan → Scan
  | [], s => s
  | outer :: rest, s =>
    if column < s.indent then dedentTo column rest { s.add .blockEnd with indent := outer, outer := rest }
    else s

/-- Closes block collections unless a collection in brackets is open. -/
def dedent (s : Scan) (column : Int) : Scan := if s.inFlow then s else dedentTo column s.outer s

/-! ### Keys -/

/-- Gives up the place where a key may have begun; one that has to be a key is an error. -/
def dropKey (s : Scan) : Option Scan :=
  match s.keys with
  | some k :: rest => if k.required then none else some { s with keys := none :: rest }
  | _ => some s

/-- Notes that a key may begin here. -/
def markKey (s : Scan) : Option Scan :=
  if !s.keyAllowed then some s
  else do
    let s ← s.dropKey
    let c := s.cursor
    let required := !s.inFlow && s.indent = (c.column : Int)
    pure { s with keys := some ⟨required, s.tokens.length, c.line, c.column, c.index⟩ :: s.keys.drop 1 }

/-- Gives up the places where a key can have begun no longer. -/
def dropStale (s : Scan) : Option Scan := do
  let stale (k : KeyStart) : Bool :=
    k.line < s.cursor.line || k.index + 1024 < s.cursor.index
  let keys ← s.keys.mapM fun k? =>
    match k? with
    | some k => if stale k then (if k.required then none else some none) else some (some k)
    | none => some none
  pure { s with keys }

/-! ### Blanks and comments -/

/-- Skips blanks, comments and line breaks up to the next token. -/
def skipBlanks : Nat → Scan → Scan
  | 0, s => s
  | fuel + 1, s =>
    let c := s.cursor
    let c := if c.column = 0 && c.peek = '\ufeff' then c.skip else c
    let c := c.skipWhile fun b => b = ' ' || ((s.inFlow || !s.keyAllowed) && b = '\t')
    let c := if c.peek = '#' then c.skipWhile (! isBreakZ ·) else c
    if isBreak c.peek then
      skipBlanks fuel
        { s with cursor := c.readBreak.2, keyAllowed := if s.inFlow then s.keyAllowed else true }
    else s.moveTo c

/-! ### Directives, anchors and tags -/

/-- The number written by digits in front, and the cursor behind. -/
def number? (c : Cursor) : Option (Nat × Cursor) :=
  let (ds, after) := c.takeWhile Char.isDigit
  if ds.isEmpty || 9 < ds.length then none
  else some (ds.foldl (fun n d => n * 10 + (d.toNat - '0'.toNat)) 0, after)

/-- Whether a character may stand in a tag; the last three only where a directive or brackets end it. -/
def isTagChar (wide : Bool) (c : Char) : Bool :=
  isWord c || [';', '/', '?', ':', '@', '&', '=', '+', '$', '.', '%', '!', '~', '*', '\'', '(', ')'].contains c ||
    (wide && [',', '[', ']'].contains c)

/-- Replaces the percent escapes of a tag. -/
def unescapeTag : List Char → Option (List Char)
  | '%' :: a :: b :: rest => do
    let n := (← hexDigit? a) * 16 + (← hexDigit? b)
    pure (Char.ofNat n :: (← unescapeTag rest))
  | ['%', _] => none
  | ['%'] => none
  | c :: rest => (unescapeTag rest).map (c :: ·)
  | [] => some []

/-- Reads the characters of a tag after those read already. -/
def tagText? (wide : Bool) (head : List Char) (c : Cursor) : Option (String × Cursor) := do
  let (cs, c) := c.takeWhile (isTagChar wide)
  guard (!(head.isEmpty && cs.isEmpty))
  pure (String.ofList (head.drop 1 ++ (← unescapeTag cs)), c)

/-- Reads the handle of a tag: `!`, `!word` or `!word!`. -/
def tagHandle? (directive : Bool) (c : Cursor) : Option (List Char × Cursor) := do
  guard (c.peek = '!')
  let (word, after) := c.skip.takeWhile isWord
  if after.peek = '!' then pure ('!' :: word ++ ['!'], after.skip)
  else do
    guard (!directive || word.isEmpty)
    pure ('!' :: word, after)

/-- Reads a directive from its `%` on. -/
def directive? (c : Cursor) : Option (Token × Cursor) := do
  let (name, c) := c.skip.takeWhile isWord
  guard (!name.isEmpty && isBlankZ c.peek)
  let c := c.skipWhile isBlank
  if name = "YAML".toList then do
    let (major, c) ← number? c
    guard (c.peek = '.')
    let (minor, c) ← number? c.skip
    pure (.versionDirective major minor, ← restOfLine? c)
  else if name = "TAG".toList then do
    let (handle, c) ← tagHandle? true c
    guard (isBlank c.peek)
    let (expansion, c) ← tagText? true [] (c.skipWhile isBlank)
    guard (isBlankZ c.peek)
    pure (.tagDirective (String.ofList handle) expansion, ← restOfLine? c)
  else none

/-- Reads the name of an anchor or an alias after its sign. -/
def anchorName? (c : Cursor) : Option (String × Cursor) := do
  let (name, c) := c.skip.takeWhile isWord
  let ends := isBlankZ c.peek || ['?', ':', ',', ']', '}', '%', '@', '\x60'].contains c.peek
  guard (!name.isEmpty && ends)
  pure (String.ofList name, c)

/-- Reads a tag. -/
def tag? (flow : Bool) (c : Cursor) : Option (Token × Cursor) := do
  let (handle, suffix, c) ←
    if c.peek 1 = '<' then do
      let (suffix, c) ← tagText? true [] (c.skip 2)
      guard (c.peek = '>')
      pure ("", suffix, c.skip)
    else do
      let (handle, after) ← tagHandle? false c
      if 1 < handle.length && handle.getLast? = some '!' then do
        let (suffix, c) ← tagText? false [] after
        pure (String.ofList handle, suffix, c)
      else do
        let (suffix, c) ← tagText? false handle after
        if suffix.isEmpty then pure ("", "!", c) else pure ("!", suffix, c)
  guard (isBlankZ c.peek || (flow && c.peek = ','))
  pure (.tag handle suffix, c)

/-! ### The next token -/

/-- Ends what is open before a directive or a document mark. -/
def outermost (s : Scan) : Option Scan := do
  let s ← (s.dedent (-1)).dropKey
  pure { s with keyAllowed := false }

/-- A bracket that opens a collection. -/
def openFlow (s : Scan) (t : Token) : Option Scan := do
  let s ← s.markKey
  pure { s.add t with cursor := s.cursor.skip, keys := none :: s.keys, keyAllowed := true }

/-- A bracket that closes a collection. -/
def closeFlow (s : Scan) (t : Token) : Option Scan := do
  let s ← s.dropKey
  let keys := if s.inFlow then s.keys.drop 1 else s.keys
  pure { s.add t with cursor := s.cursor.skip, keys, keyAllowed := false }

/-- A comma between entries of a collection in brackets. -/
def flowEntry (s : Scan) : Option Scan := do
  let s ← s.dropKey
  pure { s.add .flowEntry with cursor := s.cursor.skip, keyAllowed := true }

/-- A dash in front of an entry. -/
def blockEntry (s : Scan) : Option Scan := do
  guard (s.inFlow || s.keyAllowed)
  let s ← (s.indentTo s.cursor.column none .blockSequenceStart).dropKey
  pure { s.add .blockEntry with cursor := s.cursor.skip, keyAllowed := true }

/-- A question mark in front of a key. -/
def explicitKey (s : Scan) : Option Scan := do
  guard (s.inFlow || s.keyAllowed)
  let s ← (s.indentTo s.cursor.column none .blockMappingStart).dropKey
  pure { s.add .key with cursor := s.cursor.skip, keyAllowed := !s.inFlow }

/-- A colon in front of a value. -/
def value (s : Scan) : Option Scan :=
  match s.keys with
  | some k :: rest =>
    let s := (s.insertAt k.token .key).indentTo k.column (some k.token) .blockMappingStart
    some { s.add .value with cursor := s.cursor.skip, keys := none :: rest, keyAllowed := false }
  | _ => do
    guard (s.inFlow || s.keyAllowed)
    let s := s.indentTo s.cursor.column none .blockMappingStart
    pure { s.add .value with cursor := s.cursor.skip, keyAllowed := !s.inFlow }

/-- A token that may be a key or belong to one, and the cursor behind it. -/
def keyLike (s : Scan) (read : Scan → Option (Token × Cursor)) : Option Scan := do
  let s ← s.markKey
  let (t, c) ← read s
  pure { s.add t with cursor := c, keyAllowed := false }

/-- A block scalar. -/
def block (s : Scan) (literal : Bool) : Option Scan := do
  let s ← s.dropKey
  let (text, c) ← readBlock literal s.indent s.cursor
  pure { s.add (.scalar (if literal then .literal else .folded) text) with cursor := c, keyAllowed := true }

/-- A scalar in quotes. -/
def quoted (s : Scan) (single : Bool) : Option Scan :=
  s.keyLike fun s => (readQuoted single s.cursor).map fun (text, c) => (.scalar .quoted text, c)

/-- A plain scalar. -/
def plain (s : Scan) : Option Scan := do
  let s ← s.markKey
  let (text, broken, c) ← readPlain s.inFlow (s.indent + 1) s.cursor
  pure { s.add (.scalar .plain text) with cursor := c, keyAllowed := broken }

/-- Whether a plain scalar may begin here. -/
def beginsPlain (s : Scan) : Bool :=
  let c := s.cursor
  let marks := ['-', '?', ':', ',', '[', ']', '{', '}', '#', '&', '*', '!', '|', '>', '\'', '"', '%', '@', '\x60']
  !(isBlankZ c.peek || marks.contains c.peek) ||
    (c.peek = '-' && !isBlank (c.peek 1)) ||
    (!s.inFlow && (c.peek = '?' || c.peek = ':') && !isBlankZ (c.peek 1))

/-- Gets to the next token: skips blanks, and ends what can go on no longer. -/
def settle (s : Scan) : Option Scan := do
  let s ← (skipBlanks (s.cursor.rest.length + 1) s).dropStale
  pure (s.dedent s.cursor.column)

/-- Reads the token that begins here. -/
def readToken (s : Scan) : Option Scan := do
  let c := s.cursor
  if c.atEnd then do
    let s ← s.outermost
    pure (s.add .streamEnd)
  else if c.column = 0 && c.peek = '%' then do
    let s ← s.outermost
    let (t, c) ← directive? c
    pure ((s.add t).moveTo c)
  else if c.atMark '-' then do
    let s ← s.outermost
    pure ((s.add .documentStart).moveTo (c.skip 3))
  else if c.atMark '.' then do
    let s ← s.outermost
    pure ((s.add .documentEnd).moveTo (c.skip 3))
  else
    let spaced := isBlankZ (c.peek 1)
    match c.peek with
    | '[' => s.openFlow .flowSequenceStart
    | '{' => s.openFlow .flowMappingStart
    | ']' => s.closeFlow .flowSequenceEnd
    | '}' => s.closeFlow .flowMappingEnd
    | ',' => s.flowEntry
    | '*' => s.keyLike fun s => (anchorName? s.cursor).map fun (n, c) => (.alias n, c)
    | '&' => s.keyLike fun s => (anchorName? s.cursor).map fun (n, c) => (.anchor n, c)
    | '!' => s.keyLike fun s => tag? s.inFlow s.cursor
    | '\'' => s.quoted true
    | '"' => s.quoted false
    | first =>
      if first = '-' && spaced then s.blockEntry
      else if first = '?' && (s.inFlow || spaced) then s.explicitKey
      else if first = ':' && (s.inFlow || spaced) then s.value
      else if first = '|' && !s.inFlow then s.block true
      else if first = '>' && !s.inFlow then s.block false
      else if s.beginsPlain then s.plain
      else none

/-- Reads the next token. -/
def next (s : Scan) : Option Scan := do (← s.settle).readToken

/-- Reads tokens up to the end of the text. -/
def toEnd : Nat → Scan → Option (List Token)
  | 0, _ => none
  | fuel + 1, s => s.next.bind fun s =>
    if s.tokens.getLast? = some .streamEnd then some s.tokens else toEnd fuel s

end Scan

/-- The tokens of a text, if it is well formed so far; a byte order mark in front is skipped. -/
def tokens? (text : String) : Option (List Token) :=
  let cs := match text.toList with
    | '\ufeff' :: rest => rest
    | cs => cs
  if cs.all isPrintable then Scan.toEnd (cs.length + 2) { cursor := { rest := cs } } else none

end Synchrony.Yaml
