import Inventory.Number.Double

/-!
# Decimal spelling of doubles

A double is written with the fewest digits that no other double is nearest to, in positional
notation without an exponent. Of several such digit strings the one nearest to the number is
written, and of two equally near ones the larger.

The reals that round to a given double form an interval around it, whose ends belong to it when
the double's last bit is zero. The digits are those of a multiple of a power of ten in that
interval, for the greatest power that has one.
-/

namespace Inventory.Double

/-- The reals that round to a magnitude, in halves of the smallest positive double: both ends,
the number between them, and whether the ends belong to the interval. -/
structure Rounding where
  lower : Nat
  middle : Nat
  upper : Nat
  closed : Bool

namespace Rounding

/-- The interval of a magnitude. -/
def ofMagnitude (m : Nat) : Rounding :=
  let f := Format.double
  ⟨f.units (m - 1) + f.units m, 2 * f.units m, f.units m + f.units (m + 1), m % 2 == 0⟩

/-- Whether `n / d` lies in the interval. -/
def covers (r : Rounding) (n d : Nat) : Bool :=
  if r.closed then r.lower * d ≤ n && n ≤ r.upper * d else r.lower * d < n && n < r.upper * d

/-- The multiple of `step / d` in the interval that is nearest to its middle. -/
def nearest? (r : Rounding) (step d : Nat) : Option Nat :=
  let below := r.middle * d / step
  let above := below + 1
  match r.covers (below * step) d, r.covers (above * step) d with
  | true, true =>
    if above * step - r.middle * d ≤ r.middle * d - below * step then some above else some below
  | true, false => some below
  | false, true => some above
  | false, false => none

end Rounding

/-- A decimal: `digits` times the power of ten `exponent`. -/
structure Decimal where
  digits : Nat
  exponent : Int

/-- Halves of the smallest positive double in one. -/
def halvesInOne : Nat := twoPow (Format.double.scale + 1)

/-- The decimal of the greatest power of ten, counting down from `start`, that has a multiple in
the interval. -/
def shortestFrom (r : Rounding) : Nat → Int → Decimal
  | 0, start => ⟨0, start⟩
  | fuel + 1, start =>
    let hit :=
      if 0 ≤ start then r.nearest? (Nat.pow 10 start.toNat * halvesInOne) 1
      else r.nearest? halvesInOne (Nat.pow 10 (-start).toNat)
    match hit with
    | some digits => ⟨digits, start⟩
    | none => shortestFrom r fuel (start - 1)

/-- The shortest decimal that rounds to a magnitude. A double is less than the power of ten with
as many zeros as its integral part has digits, and a power of ten below every double's rounding
interval ends the search. -/
def shortest (m : Nat) : Decimal :=
  let r := Rounding.ofMagnitude m
  let start := (Nat.toDigits 10 (r.middle / halvesInOne)).length
  shortestFrom r (start + Format.double.scale + 2) start

/-- A decimal in positional notation. -/
def Decimal.positional (d : Decimal) : List Char :=
  let cs := Nat.toDigits 10 d.digits
  if 0 ≤ d.exponent then cs ++ List.replicate d.exponent.toNat '0'
  else
    let places := (-d.exponent).toNat
    let cs := List.replicate (places + 1 - cs.length) '0' ++ cs
    cs.take (cs.length - places) ++ '.' :: cs.drop (cs.length - places)

/-- The decimal spelling of a double. -/
def text (x : Double) : String :=
  if x.isNaN then "NaN"
  else
    let sign := if x.isNegative then "-" else ""
    if x.isInfinite then sign ++ "inf"
    else if x.magnitude = 0 then sign ++ "0"
    else sign ++ String.ofList (shortest x.magnitude).positional

end Inventory.Double
