/-!
# Request targets

The path and the query of a request's target, percent-encoded octets, and the fields of a query.
-/

namespace Synchrony.Http

/-- The path of a target and its query, without a fragment. -/
structure Uri where
  path : List Char
  query : List Char

namespace Uri

/-- Whether a character is neither a control character, nor a blank, nor a bracket of the angular kind. -/
def isAllowed (c : Char) : Bool := 32 < c.toNat && c ≠ '<' && c ≠ '>'

/-- Splits path and query of a target that begins with its path, and drops a fragment. -/
def ofPath? (cs : List Char) : Option Uri :=
  let cs := cs.takeWhile (· ≠ '#')
  let path := cs.takeWhile (· ≠ '?')
  let query := (cs.dropWhile (· ≠ '?')).drop 1
  if path.all (fun c => isAllowed c && c ≠ '\x60') && query.all (fun c => isAllowed c && c ≠ '"') then
    some ⟨path, query⟩
  else none

/-- What follows the scheme and its `://`, if there is one. -/
def afterScheme? : List Char → Option (List Char)
  | ':' :: '/' :: '/' :: rest => some rest
  | [] => none
  | _ :: rest => afterScheme? rest

/-- Reads a target; one with scheme and host is read from its path on, and a host alone has no path. -/
def ofText? (text : String) : Option Uri :=
  let cs := text.toList
  if cs.head? = some '/' then ofPath? cs
  else
    match afterScheme? cs with
    | some rest =>
      (ofPath? (rest.dropWhile fun c => c ≠ '/' && c ≠ '?' && c ≠ '#')).map fun uri =>
        { uri with path := if uri.path.isEmpty then ['/'] else uri.path }
    | none => if cs.isEmpty || cs.contains '/' || !cs.all isAllowed then none else some ⟨[], []⟩

end Uri

/-! ### Octets -/

/-- The value of a hexadecimal digit. -/
def hexValue? (c : Char) : Option Nat :=
  if '0' ≤ c ∧ c ≤ '9' then some (c.toNat - '0'.toNat)
  else if 'a' ≤ c ∧ c ≤ 'f' then some (c.toNat - 'a'.toNat + 10)
  else if 'A' ≤ c ∧ c ≤ 'F' then some (c.toNat - 'A'.toNat + 10)
  else none

/-- The octets of a text in which `%` with two hexadecimal digits stands for one. -/
def percentDecode : List Char → List UInt8
  | '%' :: a :: b :: rest =>
    match hexValue? a, hexValue? b with
    | some x, some y => UInt8.ofNat (x * 16 + y) :: percentDecode rest
    | _, _ => 37 :: percentDecode (a :: b :: rest)
  | c :: rest => (String.singleton c).toUTF8.toList ++ percentDecode rest
  | [] => []

/-- The text of octets in UTF-8. -/
def utf8Text? (octets : List UInt8) : Option String := String.fromUTF8? ⟨octets.toArray⟩

/-! ### Queries -/

/-- The pieces of a text between occurrences of a character. -/
def splitOn (sep : Char) : List Char → List (List Char)
  | [] => [[]]
  | c :: rest =>
    if c = sep then [] :: splitOn sep rest
    else
      match splitOn sep rest with
      | piece :: pieces => (c :: piece) :: pieces
      | [] => [[c]]

/-- The octets of a name or value in a query, where a plus sign stands for a blank. -/
def queryOctets (cs : List Char) : List UInt8 :=
  percentDecode (cs.map fun c => if c = '+' then ' ' else c)

/-- The names and values of a query. -/
def queryFields (query : List Char) : List (List UInt8 × List UInt8) :=
  ((splitOn '&' query).filter (! ·.isEmpty)).map fun field =>
    (queryOctets (field.takeWhile (· ≠ '=')), queryOctets ((field.dropWhile (· ≠ '=')).drop 1))

/-- A decimal number below `2 ^ 64`, perhaps with a plus sign. -/
def natOctets? (octets : List UInt8) : Option Nat :=
  let digits := match octets with
    | 43 :: rest => rest
    | all => all
  if digits.isEmpty || !digits.all (fun d => 48 ≤ d && d ≤ 57) then none
  else
    let n := digits.foldl (fun n d => n * 10 + (d.toNat - 48)) 0
    if n < Nat.pow 2 64 then some n else none

/-- The `limit` of a query: nothing if it is not given, an error if it is no number or given twice. -/
def queryLimit (query : List Char) : Except Unit (Option Nat) :=
  let name := "limit".toUTF8.toList
  match (queryFields query).filter (·.1 = name) with
  | [] => .ok none
  | [(_, v)] =>
    match natOctets? v with
    | some n => .ok (some n)
    | none => .error ()
  | _ => .error ()

end Synchrony.Http
