import Synchrony.Yaml.Cursor

/-!
# Scalars in a YAML text

A scalar is written plain, in quotes, or as an indented block. Line breaks inside a plain or quoted
scalar are folded: a single one counts as a blank, and of several all but the first count.
-/

namespace Synchrony.Yaml

/-- How a scalar is written. -/
inductive ScalarStyle where
  | plain
  | quoted
  | literal
  | folded
deriving DecidableEq

/-- A scalar while it is read: its text so far (reversed), and the blanks and breaks after it. -/
structure Fold where
  text : List Char := []
  blanks : List Char := []
  firstBreak : List Char := []
  moreBreaks : List Char := []
  broken : Bool := false

namespace Fold

/-- What the blanks and breaks count as when more text follows. -/
def gap (f : Fold) : List Char :=
  if f.broken then
    if f.firstBreak = ['\n'] then (if f.moreBreaks.isEmpty then [' '] else f.moreBreaks)
    else f.firstBreak ++ f.moreBreaks
  else f.blanks

/-- The text with the gap after it. -/
def close (f : Fold) : Fold := { text := f.gap.reverse ++ f.text }

/-- One more character of text. -/
def push (f : Fold) (c : Char) : Fold := { f.close with text := c :: f.close.text }

/-- One more blank, which counts only on the line of the text. -/
def blank (f : Fold) (c : Char) : Fold := if f.broken then f else { f with blanks := f.blanks ++ [c] }

/-- One more line break. -/
def lineBreak (f : Fold) (b : List Char) : Fold :=
  if f.broken then { f with moreBreaks := f.moreBreaks ++ b }
  else { f with blanks := [], firstBreak := b, broken := true }

end Fold

/-! ### Plain scalars -/

/-- Whether a character separates entries of a collection in brackets. -/
def isFlowMark (c : Char) : Bool := c = ',' || c = '[' || c = ']' || c = '{' || c = '}'

/-- Whether a plain scalar ends before the character here. -/
def endsPlain (flow : Bool) (c : Cursor) : Bool :=
  (c.peek = ':' && isBlankZ (c.peek 1)) || (flow && isFlowMark c.peek)

mutual
/-- A plain scalar from the beginning of a word on. -/
def plainWord (flow : Bool) (indent : Int) : Nat → Cursor → Fold → Option (Fold × Cursor)
  | 0, _, _ => none
  | fuel + 1, c, f =>
    if c.atDocumentMark || c.peek = '#' then some (f, c) else plainChars flow indent fuel c f

/-- A plain scalar inside a word. -/
def plainChars (flow : Bool) (indent : Int) : Nat → Cursor → Fold → Option (Fold × Cursor)
  | 0, _, _ => none
  | fuel + 1, c, f =>
    if isBlankZ c.peek then
      if c.atEnd then some (f, c) else plainGap flow indent fuel c f
    else if flow && c.peek = ':' && (isFlowMark (c.peek 1) || c.peek 1 = '?') then none
    else if endsPlain flow c then some (f, c)
    else plainChars flow indent fuel c.skip (f.push c.peek)

/-- A plain scalar between words. -/
def plainGap (flow : Bool) (indent : Int) : Nat → Cursor → Fold → Option (Fold × Cursor)
  | 0, _, _ => none
  | fuel + 1, c, f =>
    if isBlank c.peek then
      if f.broken && (c.column : Int) < indent && c.peek = '\t' then none
      else plainGap flow indent fuel c.skip (f.blank c.peek)
    else if isBreak c.peek then
      let (b, c) := c.readBreak
      plainGap flow indent fuel c (f.lineBreak b)
    else if !flow && (c.column : Int) < indent then some (f, c)
    else plainWord flow indent fuel c f
end

/-- Reads a plain scalar: its text, whether a line ended after it, and the cursor behind. -/
def readPlain (flow : Bool) (indent : Int) (c : Cursor) : Option (String × Bool × Cursor) :=
  (plainWord flow indent (3 * c.rest.length + 3) c {}).map fun (f, c) =>
    (String.ofList f.text.reverse, f.broken, c)

/-! ### Quoted scalars -/

/-- The value of a hexadecimal digit. -/
def hexDigit? (c : Char) : Option Nat :=
  if '0' ≤ c ∧ c ≤ '9' then some (c.toNat - '0'.toNat)
  else if 'a' ≤ c ∧ c ≤ 'f' then some (c.toNat - 'a'.toNat + 10)
  else if 'A' ≤ c ∧ c ≤ 'F' then some (c.toNat - 'A'.toNat + 10)
  else none

/-- The number written by hexadecimal digits. -/
def hexNumber? (cs : List Char) : Option Nat :=
  cs.foldl (fun n? c => do pure ((← n?) * 16 + (← hexDigit? c))) (some 0)

/-- The character with a number, unless there is none. -/
def scalarChar? (n : Nat) : Option Char :=
  if (0xD800 ≤ n ∧ n ≤ 0xDFFF) ∨ 0x10FFFF < n then none else some (Char.ofNat n)

/-- The character of a numeric escape with so many digits, and the cursor behind. -/
def numericEscape? (c : Cursor) (digits : Nat) : Option (Char × Cursor) := do
  let cs := (c.rest.drop 2).take digits
  guard (cs.length = digits)
  let n ← hexNumber? cs
  pure (← scalarChar? n, c.skip (2 + digits))

/-- The character of an escape that begins here, and the cursor behind. -/
def escape? (c : Cursor) : Option (Char × Cursor) :=
  let simple (r : Char) : Option (Char × Cursor) := some (r, c.skip 2)
  match c.peek 1 with
  | '0' => simple '\x00'
  | 'a' => simple '\x07'
  | 'b' => simple '\x08'
  | 't' => simple '\t'
  | '\t' => simple '\t'
  | 'n' => simple '\n'
  | 'v' => simple '\x0b'
  | 'f' => simple '\x0c'
  | 'r' => simple '\r'
  | 'e' => simple '\x1b'
  | ' ' => simple ' '
  | '"' => simple '"'
  | '/' => simple '/'
  | '\\' => simple '\\'
  | 'N' => simple '\u0085'
  | '_' => simple '\u00a0'
  | 'L' => simple '\u2028'
  | 'P' => simple '\u2029'
  | 'x' => numericEscape? c 2
  | 'u' => numericEscape? c 4
  | 'U' => numericEscape? c 8
  | _ => none

mutual
/-- A quoted scalar from the beginning of a line or word on. -/
def quotedWord (single : Bool) : Nat → Cursor → Fold → Option (Fold × Cursor)
  | 0, _, _ => none
  | fuel + 1, c, f =>
    if c.atDocumentMark || c.atEnd then none else quotedChars single fuel c f

/-- A quoted scalar inside a word. -/
def quotedChars (single : Bool) : Nat → Cursor → Fold → Option (Fold × Cursor)
  | 0, _, _ => none
  | fuel + 1, c, f =>
    if c.atEnd then none
    else if isBlankZ c.peek then quotedGap single fuel c f
    else if single && c.peek = '\'' && c.peek 1 = '\'' then
      quotedChars single fuel (c.skip 2) (f.push '\'')
    else if c.peek = (if single then '\'' else '"') then some (f.close, c.skip)
    else if !single && c.peek = '\\' then
      if isBreak (c.peek 1) then
        quotedGap single fuel c.skip.readBreak.2 { f.close with broken := true }
      else
        match escape? c with
        | some (r, c) => quotedChars single fuel c (f.push r)
        | none => none
    else quotedChars single fuel c.skip (f.push c.peek)

/-- A quoted scalar between words. -/
def quotedGap (single : Bool) : Nat → Cursor → Fold → Option (Fold × Cursor)
  | 0, _, _ => none
  | fuel + 1, c, f =>
    if isBlank c.peek then quotedGap single fuel c.skip (f.blank c.peek)
    else if isBreak c.peek then
      let (b, c) := c.readBreak
      quotedGap single fuel c (f.lineBreak b)
    else quotedWord single fuel c f.close
end

/-- Reads a scalar in single or double quotes: its text, and the cursor behind. -/
def readQuoted (single : Bool) (c : Cursor) : Option (String × Cursor) :=
  (quotedWord single (3 * c.rest.length + 3) c.skip {}).map fun (f, c) =>
    (String.ofList f.text.reverse, c)

/-! ### Block scalars -/

/-- What becomes of the line breaks at the end of a block. -/
inductive Chomping where
  | strip
  | clip
  | keep
deriving DecidableEq

/-- The chomping that a sign asks for. -/
def chomping? (c : Char) : Option Chomping :=
  if c = '+' then some .keep else if c = '-' then some .strip else none

/-- The indentation that a digit asks for; zero is refused. -/
def indentDigit? (c : Char) : Option Nat :=
  if '0' ≤ c ∧ c ≤ '9' then some (c.toNat - '0'.toNat) else none

/-- The header after the indicator: chomping and indentation in any order. -/
def blockHeader? (c : Cursor) : Option (Chomping × Nat × Cursor) :=
  let digit (c : Cursor) : Option (Nat × Cursor) :=
    match indentDigit? c.peek with
    | some 0 => none
    | some n => some (n, c.skip)
    | none => some (0, c)
  match chomping? c.peek with
  | some chomp => (digit c.skip).map fun (n, c) => (chomp, n, c)
  | none => do
    let (n, c) ← digit c
    match chomping? c.peek with
    | some chomp => pure (chomp, n, c.skip)
    | none => pure (.clip, n, c)

/-- Skips blanks and a comment up to the end of the line, which has to follow. -/
def restOfLine? (c : Cursor) : Option Cursor :=
  let c := c.skipWhile isBlank
  let c := if c.peek = '#' then c.skipWhile (! isBreakZ ·) else c
  if c.atEnd then some c else if isBreak c.peek then some c.readBreak.2 else none

/-- The line breaks before the next line of a block, and the deepest indentation among them. -/
def blockBreaks (indent : Nat) : Nat → Nat → List Char → Cursor → Option (List Char × Nat × Cursor)
  | 0, _, _, _ => none
  | fuel + 1, deepest, breaks, c =>
    let room := if indent = 0 then c.rest.length else indent - c.column
    let c := c.skip ((c.rest.take room).takeWhile (· = ' ')).length
    let deepest := max deepest c.column
    if (indent = 0 || c.column < indent) && c.peek = '\t' then none
    else if isBreak c.peek then
      let (b, c) := c.readBreak
      blockBreaks indent fuel deepest (breaks ++ b) c
    else some (breaks, deepest, c)

/-- The lines of a block: text so far (reversed), the last line break, and those after it. -/
def blockLines (literal : Bool) (indent : Nat) :
    Nat → List Char → List Char → List Char → Bool → Cursor →
      Option (List Char × List Char × List Char × Cursor)
  | 0, _, _, _, _, _ => none
  | fuel + 1, text, lead, trail, leadBlank, c =>
    if c.column ≠ indent || c.atEnd then some (text, lead, trail, c)
    else do
      let folds := !literal && lead = ['\n'] && !leadBlank && !isBlank c.peek
      let gap := if folds then (if trail.isEmpty then [' '] else trail) else lead ++ trail
      let blank := isBlank c.peek
      let (line, c) := c.takeWhile (! isBreakZ ·)
      let (lead, c) := c.readBreak
      let (trail, _, c) ← blockBreaks indent (c.rest.length + 1) 0 [] c
      blockLines literal indent fuel (line.reverse ++ gap.reverse ++ text) lead trail blank c

/-- Reads a block scalar from its indicator on: its text, and the cursor behind. -/
def readBlock (literal : Bool) (parent : Int) (c : Cursor) : Option (String × Cursor) := do
  let (chomp, increment, c) ← blockHeader? c.skip
  let c ← restOfLine? c
  let given := if increment = 0 then 0 else (max parent 0).toNat + increment
  let (trail, deepest, c) ← blockBreaks given (c.rest.length + 1) 0 [] c
  let indent := if given = 0 then max (max deepest (parent + 1).toNat) 1 else given
  let (text, lead, trail, c) ← blockLines literal indent (c.rest.length + 1) [] [] trail false c
  let tail := match chomp with
    | .strip => []
    | .clip => lead
    | .keep => lead ++ trail
  pure (String.ofList (text.reverse ++ tail), c)

end Synchrony.Yaml
