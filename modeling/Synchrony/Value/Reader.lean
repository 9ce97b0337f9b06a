import Synchrony.Value

/-!
# Reading values

`Value.ofText?` reads a JSON text. Objects and arrays may be nested 127 deep; of two fields with
one name the later counts. An integer that fits 64 bits (with or without a sign) stays an integer.
Any other number is a `double`: its leading digits, as many as form a number below `2 ^ 64`, are
rounded and then scaled by a power of ten.
-/

namespace Synchrony.Value.Reader

/-! ### Characters -/

/-- The blanks that may stand between tokens. -/
def isBlank (c : Char) : Bool := c = ' ' || c = '\t' || c = '\n' || c = '\r'

/-- The value of a decimal digit. -/
def digit? (c : Char) : Option Nat :=
  if '0' ≤ c ∧ c ≤ '9' then some (c.toNat - '0'.toNat) else none

/-- The value of a hexadecimal digit. -/
def hexDigit? (c : Char) : Option Nat :=
  if '0' ≤ c ∧ c ≤ '9' then some (c.toNat - '0'.toNat)
  else if 'a' ≤ c ∧ c ≤ 'f' then some (c.toNat - 'a'.toNat + 10)
  else if 'A' ≤ c ∧ c ≤ 'F' then some (c.toNat - 'A'.toNat + 10)
  else none

/-- The decimal digits in front, and what follows them. -/
def spanDigits : List Char → List Nat × List Char
  | [] => ([], [])
  | c :: rest =>
    match digit? c with
    | some d => let (ds, after) := spanDigits rest; (d :: ds, after)
    | none => ([], c :: rest)

/-! ### Numbers -/

/-- Appends digits to a number as long as it stays below `2 ^ 64`; also gives the other digits. -/
def gather (n : Nat) : List Nat → Nat × List Nat
  | [] => (n, [])
  | d :: ds => if n * 10 + d < Nat.pow 2 64 then gather (n * 10 + d) ds else (n, d :: ds)

/-- The number written by decimal digits. -/
def ofDigits (ds : List Nat) : Nat := ds.foldl (fun n d => n * 10 + d) 0

/-- The exponent part, if there is one, and what follows it. -/
def exponent? : List Char → Option (Option Int × List Char)
  | c :: rest =>
    if c = 'e' ∨ c = 'E' then
      let (negative, rest) := match rest with
        | '+' :: r => (false, r)
        | '-' :: r => (true, r)
        | r => (false, r)
      match spanDigits rest with
      | ([], _) => none
      | (ds, after) =>
        let n : Int := ofDigits ds
        some (some (if negative then -n else n), after)
    else some (none, c :: rest)
  | [] => some (none, [])

/-- The fraction part's digits, if there is one, and what follows it. -/
def fraction? : List Char → Option (Option (List Nat) × List Char)
  | '.' :: rest =>
    match spanDigits rest with
    | ([], _) => none
    | (ds, after) => some (some ds, after)
  | rest => some (none, rest)

/-- The value of a number that has no fraction and no exponent. -/
def integer? (negative : Bool) (significand : Nat) (dropped : List Nat) : Option Value :=
  if dropped.isEmpty ∧ !negative then some (.int significand)
  else if dropped.isEmpty ∧ significand ≠ 0 ∧ significand ≤ Nat.pow 2 63 then
    some (.int (-significand))
  else (Double.ofDecimal? negative significand dropped.length).map .double

/-- A number after its sign. -/
def number? (negative : Bool) (text : List Char) : Option (Value × List Char) := do
  let (whole, rest) := spanDigits text
  guard (whole ≠ [] ∧ (whole.head? ≠ some 0 ∨ whole.length = 1))
  let (significand, dropped) := gather 0 whole
  let (fraction, rest) ← fraction? rest
  let (exponent, rest) ← exponent? rest
  match fraction, exponent with
  | none, none => pure (← integer? negative significand dropped, rest)
  | fraction, exponent =>
    let places := fraction.getD []
    let (significand, unused) := gather significand places
    let scale : Int := dropped.length - (places.length - unused.length)
    let x ← Double.ofDecimal? negative significand (scale + exponent.getD 0)
    pure (.double x, rest)

/-! ### Strings -/

/-- Four hexadecimal digits, and what follows them. -/
def hexQuad? : List Char → Option (Nat × List Char)
  | a :: b :: c :: d :: rest => do
    let a ← hexDigit? a
    let b ← hexDigit? b
    let c ← hexDigit? c
    let d ← hexDigit? d
    pure (a * 4096 + b * 256 + c * 16 + d, rest)
  | _ => none

/-- The character of a `\u` escape, which may take a second one, and what follows it. -/
def unicodeEscape? (text : List Char) : Option (Char × List Char) := do
  let (high, rest) ← hexQuad? text
  if 0xDC00 ≤ high ∧ high ≤ 0xDFFF then none
  else if 0xD800 ≤ high ∧ high ≤ 0xDBFF then
    match rest with
    | '\\' :: 'u' :: rest => do
      let (low, rest) ← hexQuad? rest
      guard (0xDC00 ≤ low ∧ low ≤ 0xDFFF)
      pure (Char.ofNat (0x10000 + (high - 0xD800) * 1024 + (low - 0xDC00)), rest)
    | _ => none
  else pure (Char.ofNat high, rest)

/-- The character of an escape after its backslash, and what follows it. -/
def escape? : List Char → Option (Char × List Char)
  | '"' :: rest => some ('"', rest)
  | '\\' :: rest => some ('\\', rest)
  | '/' :: rest => some ('/', rest)
  | 'b' :: rest => some ('\x08', rest)
  | 'f' :: rest => some ('\x0c', rest)
  | 'n' :: rest => some ('\n', rest)
  | 'r' :: rest => some ('\r', rest)
  | 't' :: rest => some ('\t', rest)
  | 'u' :: rest => unicodeEscape? rest
  | _ => none

/-- A string after its opening quote, and what follows the closing one. -/
def string? (fuel : Nat) (read : List Char) (text : List Char) : Option (String × List Char) :=
  match fuel, text with
  | 0, _ => none
  | _, [] => none
  | _, '"' :: rest => some (String.ofList read.reverse, rest)
  | fuel + 1, '\\' :: rest => do
    let (c, rest) ← escape? rest
    string? fuel (c :: read) rest
  | fuel + 1, c :: rest => if c.toNat < 32 then none else string? fuel (c :: read) rest

/-! ### Values -/

/-- Drops blanks. -/
def skip (text : List Char) : List Char := text.dropWhile isBlank

mutual
/-- A value, and what follows it. -/
def value? (fuel depth : Nat) (text : List Char) : Option (Value × List Char) :=
  match fuel with
  | 0 => none
  | fuel + 1 =>
    match skip text with
    | 'n' :: 'u' :: 'l' :: 'l' :: rest => some (.null, rest)
    | 't' :: 'r' :: 'u' :: 'e' :: rest => some (.bool true, rest)
    | 'f' :: 'a' :: 'l' :: 's' :: 'e' :: rest => some (.bool false, rest)
    | '"' :: rest => (string? fuel [] rest).map fun (s, rest) => (.str s, rest)
    | '-' :: rest => number? true rest
    | '[' :: rest =>
      if depth = 0 then none
      else match skip rest with
        | ']' :: rest => some (.arr [], rest)
        | rest => items? fuel (depth - 1) [] rest
    | '{' :: rest =>
      if depth = 0 then none
      else match skip rest with
        | '}' :: rest => some (.obj [], rest)
        | rest => members? fuel (depth - 1) .empty rest
    | rest => number? false rest

/-- The items of an array from one of them on, and what follows the closing bracket. -/
def items? (fuel depth : Nat) (read : List Value) (text : List Char) :
    Option (Value × List Char) :=
  match fuel with
  | 0 => none
  | fuel + 1 => do
    let (v, rest) ← value? fuel depth text
    match skip rest with
    | ',' :: rest => items? fuel depth (v :: read) rest
    | ']' :: rest => some (.arr (v :: read).reverse, rest)
    | _ => none

/-- The fields of an object from one of them on, and what follows the closing brace. -/
def members? (fuel depth : Nat) (read : Fields) (text : List Char) : Option (Value × List Char) :=
  match fuel with
  | 0 => none
  | fuel + 1 =>
    match skip text with
    | '"' :: rest => do
      let (key, rest) ← string? fuel [] rest
      match skip rest with
      | ':' :: rest => do
        let (v, rest) ← value? fuel depth rest
        match skip rest with
        | ',' :: rest => members? fuel depth (read.insert key v) rest
        | '}' :: rest => some ((read.insert key v).toValue, rest)
        | _ => none
      | _ => none
    | _ => none
end

end Synchrony.Value.Reader

namespace Synchrony.Value

/-- The value that a JSON text stands for, if it is one. -/
def ofText? (text : String) : Option Value := do
  let cs := text.toList
  let (v, rest) ← Reader.value? (2 * cs.length + 2) 127 cs
  guard (Reader.skip rest).isEmpty
  pure v

end Synchrony.Value
