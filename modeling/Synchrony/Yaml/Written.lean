import Synchrony.Yaml.Number

/-!
# How texts are written in YAML

A text of several lines is written as a literal block, any other one plain if it reads back as the same
text, else in single quotes. What neither a block nor single quotes can hold is written in double quotes,
with escapes.
-/

namespace Synchrony.Yaml

/-! ### What a text is like -/

/-- Whether a character is written as itself. -/
def isWritable (c : Char) : Bool :=
  let n := c.toNat
  n == 0x0A || (0x20 ≤ n && n ≤ 0x7E) || (0xA0 ≤ n && n ≤ 0xD7FF) ||
    (0xE000 ≤ n && n ≤ 0xFFFD && n ≠ 0xFEFF)

/-- Whether some neighbours in a text satisfy a test. -/
def anyNeighbours (test : Char → Char → Bool) (cs : List Char) : Bool :=
  (cs.zip (cs.drop 1)).any fun (a, b) => test a b

/-- Whether every character is written as itself, and no line ends in a space. -/
def isClean (cs : List Char) : Bool :=
  cs.all isWritable && !anyNeighbours (fun a b => a = ' ' && isBreak b) cs

/-- Whether a text can be written in single quotes: it is clean, and no further line begins with a space. -/
def fitsSingle (cs : List Char) : Bool :=
  isClean cs && !anyNeighbours (fun a b => isBreak a && b = ' ') cs

/-- Whether a text can be written as a block. -/
def fitsBlock (cs : List Char) : Bool := isClean cs && cs.getLast? ≠ some ' '

/-- Whether a text begins like something else than a plain scalar. -/
def beginsMarked : List Char → Bool
  | '-' :: '-' :: '-' :: _ => true
  | '.' :: '.' :: '.' :: _ => true
  | c :: rest =>
    ['#', ',', '[', ']', '{', '}', '&', '*', '!', '|', '>', '\'', '"', '%', '@', '\x60'].contains c ||
      (['?', ':', '-'].contains c && isBlankZ (rest.headD '\x00'))
  | [] => false

/-- Whether a colon ends a word, or a number sign begins one behind the first. -/
def hasMarks (cs : List Char) : Bool :=
  cs.getLast? = some ':' ||
    anyNeighbours (fun a b => (a = ':' && isBlankZ b) || (isBlankZ a && b = '#')) cs

/-- Whether a text can be written plain. -/
def fitsPlain (cs : List Char) : Bool :=
  let outer (c? : Option Char) : Bool := c?.any fun c => c = ' ' || isBreak c
  cs.all isWritable && !cs.any isBreak && !outer cs.head? && !outer cs.getLast? &&
    !beginsMarked cs && !hasMarks cs

/-- Whether a plain scalar would be read as something else than a text. -/
def isAmbiguous (text : String) : Bool :=
  text.isEmpty || isNullWord text || isTruthWord text || isNumber text.toList ||
    hasLeadingZero text.toList

/-- How a text is written. -/
def styleOf (text : String) : ScalarStyle :=
  let cs := text.toList
  if cs.contains '\n' then (if fitsBlock cs then .literal else .quoted)
  else if fitsPlain cs && !isAmbiguous text then .plain
  else .quoted

/-! ### Writing -/

/-- The text of an indentation. -/
def blanks (indent : Nat) : List Char := List.replicate indent ' '

/-- Writes lines, the first of which has begun; each further line that is not empty is indented. -/
def indented (indent : Nat) (begins : Bool) : List Char → List Char
  | [] => []
  | c :: rest =>
    if isBreak c then c :: indented indent true rest
    else (if begins then blanks indent else []) ++ c :: indented indent false rest

/-- What stands in a block's header: where its lines begin if they begin blank, and what its end keeps. -/
def blockHeader (cs : List Char) : List Char :=
  let hint := if cs.head?.any fun c => c = ' ' || isBreak c then ['2'] else []
  let chomp := match cs.reverse with
    | a :: b :: _ => if !isBreak a then ['-'] else if isBreak b then ['+'] else []
    | [a] => if isBreak a then ['+'] else ['-']
    | [] => ['-']
  '|' :: hint ++ chomp

/-- Writes a literal block up to the end of its last line, which a line break of the text may be. -/
def literalBlock (indent : Nat) (cs : List Char) : List Char :=
  blockHeader cs ++ '\n' :: (indented indent true cs ++ if cs.getLast?.any isBreak then [] else ['\n'])

/-- Writes a text in single quotes. -/
def singleQuoted (indent : Nat) (cs : List Char) : List Char :=
  let body := indented indent false (cs.flatMap fun c => if c = '\'' then ['\'', '\''] else [c])
  '\'' :: body ++ (if cs.getLast?.any isBreak then blanks indent else []) ++ ['\'']

/-- The digits of a number in base sixteen. -/
def hexDigits (width n : Nat) : List Char :=
  let ds := (Nat.toDigits 16 n).map Char.toUpper
  List.replicate (width - ds.length) '0' ++ ds

/-- The letter of an escape. -/
def escapeLetter? (c : Char) : Option Char :=
  [('\x00', '0'), ('\x07', 'a'), ('\x08', 'b'), ('\t', 't'), ('\n', 'n'), ('\x0b', 'v'), ('\x0c', 'f'),
    ('\r', 'r'), ('\x1b', 'e'), ('"', '"'), ('\\', '\\'), ('\u0085', 'N'), ('\u2028', 'L'),
    ('\u2029', 'P')].lookup c

/-- Writes a character inside double quotes. -/
def doubleQuotedChar (c : Char) : List Char :=
  match escapeLetter? c with
  | some letter => ['\\', letter]
  | none =>
    if isWritable c then [c]
    else if c.toNat ≤ 0xFF then '\\' :: 'x' :: hexDigits 2 c.toNat
    else if c.toNat ≤ 0xFFFF then '\\' :: 'u' :: hexDigits 4 c.toNat
    else '\\' :: 'U' :: hexDigits 8 c.toNat

/-- Writes a text in double quotes. -/
def doubleQuoted (cs : List Char) : List Char := '"' :: cs.flatMap doubleQuotedChar ++ ['"']

/-- Writes a text up to the end of its last line; `indent` is where its further lines begin. -/
def written (indent : Nat) (text : String) : List Char :=
  let cs := text.toList
  match styleOf text with
  | .plain => cs ++ ['\n']
  | .literal | .folded => literalBlock indent cs
  | .quoted =>
    (if !cs.contains '\n' && fitsSingle cs then singleQuoted indent cs else doubleQuoted cs) ++ ['\n']

end Synchrony.Yaml
