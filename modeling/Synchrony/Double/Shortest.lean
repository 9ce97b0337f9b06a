import Synchrony.Double

/-!
# Shortest decimal text of a floating point number

Among the decimals that round to a given number, the shortest one is a multiple of the largest
possible power of ten. `Double.shortest` finds it by exact arithmetic, and `Double.render` writes
it: positionally while the leading digit stands between the fifth decimal place and the sixteenth
place before the point, with a signed exponent otherwise.
-/

namespace Synchrony.Double

/-! ### The decimals that round to a number -/

/--
Whether `d · 10 ^ k` lies in the interval of reals that round to `mantissa · 2 ^ (exponent − 1074)`.
Its ends are half-way to the neighbours, and belong to it if the mantissa is even.
-/
def rounds (mantissa exponent d : Nat) (k : Int) : Bool :=
  let up := Nat.pow 10 k.toNat
  let down := Nat.pow 10 (-k).toNat
  let below := if mantissa = Nat.pow 2 52 ∧ exponent ≠ 0 then 1 else 2
  let low := (4 * mantissa - below) * Nat.pow 2 exponent * down
  let high := (4 * mantissa + 2) * Nat.pow 2 exponent * down
  let point := d * up * (4 * Nat.pow 2 1074)
  if mantissa % 2 = 0 then low ≤ point && point ≤ high else low < point && point < high

/-- The multiples of `10 ^ k` next to the number that round to it, the nearer one. -/
def onGrid? (mantissa exponent : Nat) (k : Int) : Option Nat :=
  let up := Nat.pow 10 k.toNat
  let down := Nat.pow 10 (-k).toNat
  let num := mantissa * Nat.pow 2 exponent * down
  let den := up * Nat.pow 2 1074
  let d := num / den
  let nearest := roundDiv num den
  let other := if nearest = d then d + 1 else d
  if rounds mantissa exponent nearest k && nearest != 0 then some nearest
  else if rounds mantissa exponent other k && other != 0 then some other
  else none

/-- The first grid `10 ^ k`, `10 ^ (k − 1)`, … with a decimal that rounds to the number. -/
def shortestFrom (mantissa exponent : Nat) (k : Int) : Nat → Nat × Int
  | 0 => (0, 0)
  | steps + 1 =>
    match onGrid? mantissa exponent k with
    | some d => (d, k)
    | none => shortestFrom mantissa exponent (k - 1) steps

/--
The digits and the power of ten of the shortest decimal. Grids are tried from `10 ^ 309` down to
`10 ^ -1074`, of which every number is a multiple.
-/
def shortest (x : Double) : Nat × Int := shortestFrom x.mantissa x.exponent 309 1384

/-! ### Text -/

/-- The decimal digits of a natural number. -/
def digits (n : Nat) : List Char := Nat.toDigits 10 n

/-- `d · 10 ^ k` with a point, or with an exponent if the leading digit stands far from it. -/
def renderDecimal (d : Nat) (k : Int) : List Char :=
  let ds := digits d
  let lead : Int := ds.length - 1 + k
  if lead < -5 ∨ 16 ≤ lead then
    let sign := if lead < 0 then '-' else '+'
    let fraction := match ds.drop 1 with
      | [] => []
      | rest => '.' :: rest
    ds.take 1 ++ fraction ++ 'e' :: sign :: digits lead.natAbs
  else if 0 ≤ k then ds ++ List.replicate k.toNat '0' ++ ['.', '0']
  else if 0 ≤ lead then ds.take (lead + 1).toNat ++ '.' :: ds.drop (lead + 1).toNat
  else '0' :: '.' :: (List.replicate (-lead - 1).toNat '0' ++ ds)

/-- The shortest text that reads back as the number. -/
def render (x : Double) : List Char :=
  let body := if x.isZero then ['0', '.', '0'] else renderDecimal x.shortest.1 x.shortest.2
  if x.negative then '-' :: body else body

end Synchrony.Double
