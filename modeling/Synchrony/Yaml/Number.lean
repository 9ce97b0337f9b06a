import Synchrony.Double
import Synchrony.Yaml.Scalar

/-!
# What plain scalars mean

A plain scalar may be a number, a truth value or nothing. Whole numbers are written in decimal digits
without a leading zero, or with `0x`, `0o` or `0b` in front of the digits of another base.
-/

namespace Synchrony.Yaml

/-- The value of a digit in a base up to 16. -/
def digit? (base : Nat) (c : Char) : Option Nat :=
  (hexDigit? c).bind fun d => if d < base then some d else none

/-- The number that digits of a base write. -/
def digits? (base : Nat) : List Char → Option Nat
  | [] => none
  | cs => cs.foldl (fun n? c => do pure ((← n?) * base + (← digit? base c))) (some 0)

/-- Whether there are decimal digits alone, behind a sign or not, of which the first is a needless zero. -/
def hasLeadingZero (cs : List Char) : Bool :=
  let cs := match cs with
    | '+' :: rest | '-' :: rest => rest
    | cs => cs
  match cs with
  | '0' :: rest => !rest.isEmpty && rest.all Char.isDigit
  | _ => false

/-- A number without a sign. -/
def unsigned? : List Char → Option Nat
  | '0' :: 'x' :: digits => digits? 16 digits
  | '0' :: 'o' :: digits => digits? 8 digits
  | '0' :: 'b' :: digits => digits? 2 digits
  | cs => if hasLeadingZero cs then none else digits? 10 cs

/-- A number that is not negative. -/
def natural? : List Char → Option Nat
  | '+' :: cs => unsigned? cs
  | cs => unsigned? cs

/-! ### Other numbers -/

/-- The digits in front, and what follows them. -/
def splitDigits (cs : List Char) : List Char × List Char :=
  (cs.takeWhile Char.isDigit, cs.dropWhile Char.isDigit)

/-- The power of ten that a text like `e-7` writes; no text is the power zero. -/
def exponent? : List Char → Option Int
  | [] => some 0
  | e :: cs =>
    if e = 'e' || e = 'E' then
      match cs with
      | '-' :: ds => (digits? 10 ds).map fun n => -(n : Int)
      | '+' :: ds => (digits? 10 ds).map fun n => (n : Int)
      | ds => (digits? 10 ds).map fun n => (n : Int)
    else none

/-- Whether `m · 10 ^ e` is no greater than a double can be. -/
def isInRange (m : Nat) (e : Int) : Bool :=
  let size := (Nat.toDigits 10 m).length + e
  if m = 0 || size < 0 then true
  else if 400 < size then false
  else if 0 ≤ e then (Double.ofRatio? false (m * Nat.pow 10 e.toNat) 1).isSome
  else (Double.ofRatio? false m (Nat.pow 10 (-e).toNat)).isSome

/-- Whether digits, with a decimal point or an exponent or neither, write a number within range. -/
def isDecimal (cs : List Char) : Bool :=
  let (whole, rest) := splitDigits cs
  let (fraction, rest) := match rest with
    | '.' :: rest => splitDigits rest
    | rest => ([], rest)
  match digits? 10 (whole ++ fraction), exponent? rest with
  | some m, some e => isInRange m (e - fraction.length)
  | _, _ => false

/-- The words for infinity and for what is no number. -/
def isUnboundedWord (cs : List Char) : Bool :=
  let unsignedWords := [".inf", ".Inf", ".INF"]
  let signs := ["", "+", "-"]
  let words := signs.flatMap (fun sign => unsignedWords.map (sign ++ ·)) ++ [".nan", ".NaN", ".NAN"]
  words.contains (String.ofList cs)

/-- Whether a plain scalar is a number of any kind. -/
def isNumber (cs : List Char) : Bool :=
  let digits := match cs with
    | '+' :: rest | '-' :: rest => rest
    | cs => cs
  (unsigned? digits).any (· < Nat.pow 2 127) || (isDecimal digits && !hasLeadingZero digits) ||
    isUnboundedWord cs

/-! ### Words -/

/-- Whether a plain scalar stands for nothing. -/
def isNullWord (text : String) : Bool := ["null", "Null", "NULL", "~"].contains text

/-- Whether a plain scalar is, or has ever been, a truth value. -/
def isTruthWord (text : String) : Bool :=
  let words := ["true", "false", "yes", "no", "on", "off"]
  let capital (w : String) : String := String.ofList (w.toList.modifyHead Char.toUpper)
  let forms := words.flatMap fun w => [w, capital w, String.ofList (w.toList.map Char.toUpper)]
  (["y", "Y", "n", "N"] ++ forms).contains text

end Synchrony.Yaml
