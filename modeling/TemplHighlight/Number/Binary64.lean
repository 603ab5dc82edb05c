import TemplHighlight.Text.Basic

/-!
# Numbers of 64 bits

A number with a fraction is kept with 53 significant bits. `nearest?` rounds a fraction to such a
number, and `shortest` finds the fewest decimal digits that are nearer to it than to any other.
-/

namespace TemplHighlight

/-- The number `mantissa · 2 ^ exponent`. -/
structure Binary64 where
  mantissa : Nat
  exponent : Int
  deriving DecidableEq

namespace Binary64

/-- The number of binary digits. -/
def bitLength (n : Nat) : Nat := if n = 0 then 0 else n.log2 + 1

/-- A quotient rounded to the nearest whole number; halves go to the even neighbour. -/
def roundDiv (num den : Nat) : Nat :=
  let floor := num / den
  let twice := 2 * (num % den)
  if twice < den then floor
  else if den < twice then floor + 1
  else if floor % 2 = 0 then floor else floor + 1

/-- The fraction `num / den` divided by a power of two. -/
def scale (num den : Nat) (exponent : Int) : Nat × Nat :=
  if exponent < 0 then (num * Nat.pow 2 (-exponent).toNat, den)
  else (num, den * Nat.pow 2 exponent.toNat)

/-- The number nearest to `num / den`; none if that is too large. -/
def nearest? (num den : Nat) : Option Binary64 :=
  if num = 0 then some ⟨0, -1074⟩
  else
    let guess : Int := (bitLength num : Int) - (bitLength den : Int) - 53
    let (n, d) := scale num den guess
    let exponent := max (if Nat.pow 2 53 * d ≤ n then guess + 1 else guess) (-1074)
    let (n, d) := scale num den exponent
    let mantissa := roundDiv n d
    let result : Binary64 :=
      if mantissa = Nat.pow 2 53 then ⟨Nat.pow 2 52, exponent + 1⟩ else ⟨mantissa, exponent⟩
    if result.exponent > 971 then none else some result

/-- Decimal digits: the number `digits · 10 ^ exponent`. -/
structure Decimal where
  digits : Nat
  exponent : Int
  deriving DecidableEq

/-- The fraction `num / den` in steps of `10 ^ exponent`. -/
def scaleDecimal (num den : Nat) (exponent : Int) : Nat × Nat :=
  if exponent < 0 then (num * Nat.pow 10 (-exponent).toNat, den)
  else (num, den * Nat.pow 10 exponent.toNat)

/-- The multiple of `10 ^ exponent` next to `value` that lies between `low` and `high`, all given in
parts of `den`; the ends belong to it if `closed`. -/
def onGrid? (low value high den : Nat) (closed : Bool) (exponent : Int) : Option Decimal :=
  let (v, d) := scaleDecimal value den exponent
  let (l, _) := scaleDecimal low den exponent
  let (h, _) := scaleDecimal high den exponent
  let inside (n : Nat) : Bool := if closed then l ≤ n * d && n * d ≤ h else l < n * d && n * d < h
  let below := v / d
  let above := below + 1
  if inside below then
    if inside above then
      let toBelow := v - below * d
      let toAbove := above * d - v
      if toBelow < toAbove || toBelow = toAbove && below % 2 = 0 then some ⟨below, exponent⟩
      else some ⟨above, exponent⟩
    else some ⟨below, exponent⟩
  else if inside above then some ⟨above, exponent⟩
  else none

/-- The first grid, from coarse to fine, with a multiple in the interval. -/
def firstGrid (low value high den : Nat) (closed : Bool) : (count : Nat) → Int → Decimal
  | 0, exponent => ⟨0, exponent⟩
  | count + 1, exponent =>
    match onGrid? low value high den closed exponent with
    | some found => found
    | none => firstGrid low value high den closed count (exponent - 1)

/-- A power of ten above the number, found from the number of its digits. -/
def magnitude (num den : Nat) : Int :=
  if den ≤ num then ((Nat.toDigits 10 (num / den)).length : Int)
  else 1 - ((Nat.toDigits 10 (den / num)).length : Int)

/-- The fewest decimal digits that are nearer to a positive number than to any other. -/
def shortest (x : Binary64) : Decimal :=
  let below := if x.mantissa = Nat.pow 2 52 ∧ x.exponent > -1074 then 1 else 2
  let (unit, den) : Nat × Nat :=
    if x.exponent < 0 then (1, 4 * Nat.pow 2 (-x.exponent).toNat)
    else (Nat.pow 2 x.exponent.toNat, 4)
  let value := 4 * x.mantissa * unit
  firstGrid ((4 * x.mantissa - below) * unit) value ((4 * x.mantissa + 2) * unit) den
    (x.mantissa % 2 = 0) 20 (magnitude value den)

/-- Without the zeros at the end of the digits; `fuel` bounds their number. -/
def trim : (fuel : Nat) → Decimal → Decimal
  | 0, x => x
  | fuel + 1, x =>
    if x.digits ≠ 0 ∧ x.digits % 10 = 0 then trim fuel ⟨x.digits / 10, x.exponent + 1⟩ else x

/-- A positive number as text: with a point if it is below 10 ^ 16 and not below 10 ^ -4, else with
an exponent of at least two digits. -/
def positiveText (x : Binary64) : Text :=
  let decimal := trim 20 x.shortest
  let digits := Text.decimal decimal.digits
  let point : Int := digits.length + decimal.exponent
  if -4 < point ∧ point ≤ 16 then
    if point ≤ 0 then "0.".toList ++ List.replicate (-point).toNat '0' ++ digits
    else if point.toNat < digits.length then
      digits.take point.toNat ++ '.' :: digits.drop point.toNat
    else digits ++ List.replicate (point.toNat - digits.length) '0' ++ ".0".toList
  else
    let exponent := point - 1
    let mark := if exponent < 0 then "e-" else "e+"
    let size := Text.decimal exponent.natAbs
    digits.take 1 ++ (if digits.length > 1 then '.' :: digits.drop 1 else []) ++ mark.toList ++
      (if size.length < 2 then '0' :: size else size)

end Binary64

/-- A number with a fraction, or one that is too large for it or none at all. -/
inductive Real64 where
  | finite (negative : Bool) (size : Binary64)
  | infinite (negative : Bool)
  | notANumber

namespace Real64

/-- The number nearest to `digits · 10 ^ exponent`. Beyond any number that could matter the exponent
is cut off, so that no huge power has to be computed. -/
def ofDecimal (negative : Bool) (digits : Nat) (exponent : Int) : Real64 :=
  let size := ((Nat.toDigits 10 digits).length : Int) + exponent
  if digits = 0 ∨ size < -400 then finite negative ⟨0, -1074⟩
  else if 400 < size then infinite negative
  else
    let (num, den) := Binary64.scaleDecimal digits 1 (-exponent)
    match Binary64.nearest? num den with
    | some x => finite negative x
    | none => infinite negative

/-- A number as text. -/
def toText : Real64 → Text
  | finite negative x =>
    (if negative then ['-'] else []) ++ if x.mantissa = 0 then "0.0".toList else x.positiveText
  | infinite negative => (if negative then ['-'] else []) ++ "Infinity".toList
  | notANumber => "NaN".toList

end Real64

end TemplHighlight
