/-!
# Positions in a YAML text

A cursor is the rest of a text with the line and the column it stands in. The end of the text reads
as the character NUL, which no text contains.
-/

namespace Synchrony.Yaml

/-! ### Characters -/

/-- Whether a character may stand in a YAML text. -/
def isPrintable (c : Char) : Bool :=
  let n := c.toNat
  n == 0x09 || n == 0x0A || n == 0x0D || (0x20 ≤ n && n ≤ 0x7E) || n == 0x85 ||
    (0xA0 ≤ n && n ≤ 0xD7FF) || (0xE000 ≤ n && n ≤ 0xFFFD) || 0x10000 ≤ n

/-- Whether a character ends a line. -/
def isBreak (c : Char) : Bool :=
  c = '\r' || c = '\n' || c = '\u0085' || c = '\u2028' || c = '\u2029'

/-- Whether a line ends here, or the text. -/
def isBreakZ (c : Char) : Bool := isBreak c || c = '\x00'

/-- Whether a character is a space or a tab. -/
def isBlank (c : Char) : Bool := c = ' ' || c = '\t'

/-- Whether a word ends here. -/
def isBlankZ (c : Char) : Bool := isBlank c || isBreakZ c

/-- Whether a character may stand in an anchor or the name of a directive. -/
def isWord (c : Char) : Bool := c.isAlphanum || c = '_' || c = '-'

/-! ### Cursors -/

/-- The rest of a text and where it begins. -/
structure Cursor where
  rest : List Char
  line : Nat := 0
  column : Nat := 0
  index : Nat := 0

namespace Cursor

/-- The character `k` places ahead, NUL after the end. -/
def peek (c : Cursor) (k : Nat := 0) : Char := (c.rest.drop k).headD '\x00'

/-- Whether nothing is left. -/
def atEnd (c : Cursor) : Bool := c.rest.isEmpty

/-- The cursor after a number of characters of one line. -/
def skip (c : Cursor) (k : Nat := 1) : Cursor :=
  { c with rest := c.rest.drop k, column := c.column + k, index := c.index + k }

/-- Reads a line break: what it counts as, and the cursor on the next line. -/
def readBreak (c : Cursor) : List Char × Cursor :=
  let next (rest : List Char) (k : Nat) : Cursor := ⟨rest, c.line + 1, 0, c.index + k⟩
  match c.rest with
  | '\r' :: '\n' :: rest => (['\n'], next rest 2)
  | '\u2028' :: rest => (['\u2028'], next rest 1)
  | '\u2029' :: rest => (['\u2029'], next rest 1)
  | b :: rest => if isBreak b then (['\n'], next rest 1) else ([], c)
  | [] => ([], c)

/-- Reads the characters in front that satisfy a test, within one line. -/
def takeWhile (c : Cursor) (p : Char → Bool) : List Char × Cursor :=
  let taken := c.rest.takeWhile p
  (taken, c.skip taken.length)

/-- The cursor after the characters in front that satisfy a test, within one line. -/
def skipWhile (c : Cursor) (p : Char → Bool) : Cursor := (c.takeWhile p).2

/-- Whether a document mark, `---` or `...`, stands here. -/
def atMark (c : Cursor) (mark : Char) : Bool :=
  c.column == 0 && c.peek 0 = mark && c.peek 1 = mark && c.peek 2 = mark && isBlankZ (c.peek 3)

/-- Whether either document mark stands here. -/
def atDocumentMark (c : Cursor) : Bool := c.atMark '-' || c.atMark '.'

end Cursor

end Synchrony.Yaml
