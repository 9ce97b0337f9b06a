import Synchrony.Double.Shortest
import Synchrony.Value

/-!
# Texts of values

`Value.compact` writes a value on one line without blanks, `Value.pretty` with one entry a line
and two blanks per level. In strings only the quote, the backslash and the control characters
below U+0020 are escaped.
-/

namespace Synchrony.Value

/-! ### Strings -/

/-- The hexadecimal digit of a number below sixteen. -/
def hexDigit (n : Nat) : Char := Nat.digitChar n

/-- A character inside quotes. -/
def escapeChar (c : Char) : List Char :=
  if c = '"' then ['\\', '"']
  else if c = '\\' then ['\\', '\\']
  else if c = '\n' then ['\\', 'n']
  else if c = '\r' then ['\\', 'r']
  else if c = '\t' then ['\\', 't']
  else if c = '\x08' then ['\\', 'b']
  else if c = '\x0c' then ['\\', 'f']
  else if c.toNat < 32 then
    ['\\', 'u', '0', '0', hexDigit (c.toNat / 16), hexDigit (c.toNat % 16)]
  else [c]

/-- A string in quotes. -/
def quote (s : String) : List Char := '"' :: (s.toList.flatMap escapeChar ++ ['"'])

/-! ### Numbers -/

/-- The decimal digits of an integer, with a minus sign if it is negative. -/
def renderInt : Int → List Char
  | .ofNat n => Double.digits n
  | .negSucc n => '-' :: Double.digits (n + 1)

/-! ### Compact text -/

mutual
/-- The text of a value without blanks. -/
def compact : Value → List Char
  | null => ['n', 'u', 'l', 'l']
  | bool true => ['t', 'r', 'u', 'e']
  | bool false => ['f', 'a', 'l', 's', 'e']
  | int n => renderInt n
  | double x => x.render
  | str s => quote s
  | arr [] => ['[', ']']
  | arr (item :: rest) => '[' :: (compact item ++ compactItems rest)
  | obj [] => ['{', '}']
  | obj ((key, v) :: rest) => '{' :: (quote key ++ ':' :: (compact v ++ compactFields rest))

/-- The items after the first, and the closing bracket. -/
def compactItems : List Value → List Char
  | [] => [']']
  | item :: rest => ',' :: (compact item ++ compactItems rest)

/-- The fields after the first, and the closing brace. -/
def compactFields : List (String × Value) → List Char
  | [] => ['}']
  | (key, v) :: rest => ',' :: (quote key ++ ':' :: (compact v ++ compactFields rest))
end

/-! ### Indented text -/

/-- A new line with two blanks per level. -/
def newLine (level : Nat) : List Char := '\n' :: List.replicate (2 * level) ' '

mutual
/-- The text of a value at a level of indentation. -/
def pretty (level : Nat) : Value → List Char
  | arr [] => ['[', ']']
  | arr (item :: rest) =>
    '[' :: (newLine (level + 1) ++ pretty (level + 1) item ++ prettyItems level rest)
  | obj [] => ['{', '}']
  | obj ((key, v) :: rest) =>
    '{' :: (newLine (level + 1) ++ quote key ++ ':' :: ' ' :: pretty (level + 1) v
      ++ prettyFields level rest)
  | v => compact v

/-- The items after the first, each on a line of its own, and the closing bracket. -/
def prettyItems (level : Nat) : List Value → List Char
  | [] => newLine level ++ [']']
  | item :: rest =>
    ',' :: (newLine (level + 1) ++ pretty (level + 1) item ++ prettyItems level rest)

/-- The fields after the first, each on a line of its own, and the closing brace. -/
def prettyFields (level : Nat) : List (String × Value) → List Char
  | [] => newLine level ++ ['}']
  | (key, v) :: rest =>
    ',' :: (newLine (level + 1) ++ quote key ++ ':' :: ' ' :: pretty (level + 1) v
      ++ prettyFields level rest)
end

/-- The compact text as a string. -/
def toText (v : Value) : String := String.ofList v.compact

/-- The indented text as a string. -/
def toPrettyText (v : Value) : String := String.ofList (v.pretty 0)

end Synchrony.Value
