import Inventory.Number.Power

/-!
# Binary floating-point numbers

A double is its sixty-four bits. Its arithmetic is carried out exactly on natural numbers and
rounded once, to the nearest double and from the middle between two doubles to the one whose
last bit is zero, so that every operation here is a plain function of the bits.

A binary format is a sign, an exponent field and a fraction; the fields after the sign, read as
one number, are its *magnitude*. Magnitudes grow with the numbers they stand for. `Format.units`
gives the number a magnitude stands for, counted in the smallest positive number of the format,
and `Format.ofUnits?` gives it back.
-/

namespace Inventory

/-- The quotient of two natural numbers, rounded to the nearest one; a half goes to the even
neighbour. -/
def roundHalfEven (n d : Nat) : Nat :=
  let q := n / d
  let r := n % d
  if 2 * r < d then q else if d < 2 * r then q + 1 else q + q % 2

/-- A binary format: the width of its fraction, the power of two of its smallest positive number
(negated), and the exponent field of the infinities. -/
structure Format where
  fraction : Nat
  scale : Nat
  top : Nat

namespace Format

/-- Two bytes. -/
def half : Format := ⟨10, 24, 31⟩

/-- Four bytes. -/
def single : Format := ⟨23, 149, 255⟩

/-- Eight bytes. -/
def double : Format := ⟨52, 1074, 2047⟩

/-- The magnitude of infinity; magnitudes above it are no numbers. -/
def infinity (f : Format) : Nat := f.top * twoPow f.fraction

/-- The number of a magnitude, counted in the smallest positive number of the format. -/
def units (f : Format) (magnitude : Nat) : Nat :=
  let exponent := magnitude / twoPow f.fraction
  let digits := magnitude % twoPow f.fraction
  if exponent = 0 then digits else (twoPow f.fraction + digits) * twoPow (exponent - 1)

/-- The magnitude nearest to `n / d` of the format's smallest positive numbers; whatever is too
large becomes infinity. -/
def ofRatio (f : Format) (n d : Nat) : Nat :=
  let exponent := Nat.log2 (n / d) - f.fraction
  min (exponent * twoPow f.fraction + roundHalfEven n (d * twoPow exponent)) f.infinity

/-- The magnitude that stands for exactly `n` of the format's smallest positive numbers. -/
def ofUnits? (f : Format) (n : Nat) : Option Nat :=
  let exponent := Nat.log2 n - f.fraction
  let magnitude := exponent * twoPow f.fraction + n / twoPow exponent
  if n % twoPow exponent = 0 ∧ magnitude < f.infinity then some magnitude else none

end Format

/-- A number of the eight-byte format. -/
structure Double where
  bits : UInt64
  deriving DecidableEq, Repr

namespace Double

/-- The fields after the sign. -/
def magnitude (x : Double) : Nat := x.bits.toNat % twoPow 63

/-- Whether the sign bit is set. -/
def isNegative (x : Double) : Bool := x.bits.toNat / twoPow 63 == 1

/-- Whether this stands for no number. -/
def isNaN (x : Double) : Bool := Format.double.infinity < x.magnitude

/-- Whether this is one of the two infinities. -/
def isInfinite (x : Double) : Bool := x.magnitude == Format.double.infinity

/-- A double from its sign and the fields after it. -/
def ofMagnitude (negative : Bool) (magnitude : Nat) : Double :=
  ⟨UInt64.ofNat ((if negative then twoPow 63 else 0) + magnitude)⟩

/-- Positive zero. -/
def zero : Double := ⟨0⟩

/-- The one that stands for no number where an operation has none to give. -/
def nan : Double := ⟨0x7ff8000000000000⟩

/-- The signed number of a double, counted in its smallest positive number; an infinity counts
as the number its magnitude would stand for, which is beyond all others. -/
def units (x : Double) : Int :=
  let n := Format.double.units x.magnitude
  if x.isNegative then -(n : Int) else n

/-- The double nearest to `n / d`, with a sign. -/
def ofRatio (negative : Bool) (n d : Nat) : Double :=
  ofMagnitude negative (Format.double.ofRatio (n * twoPow Format.double.scale) d)

/-- The double nearest to a natural number. -/
def ofNat (n : Nat) : Double := ofRatio false n 1

/-- The double nearest to an integer. -/
def ofInt (n : Int) : Double := ofRatio (n < 0) n.natAbs 1

/-! ## Comparison

What stands for no number compares with nothing, itself included; the two zeros are equal. -/

/-- Numeric equality. -/
def eqv (x y : Double) : Bool := !x.isNaN && !y.isNaN && x.units == y.units

/-- Numeric order. -/
def lt (x y : Double) : Bool := !x.isNaN && !y.isNaN && x.units < y.units

/-- Numeric order or equality. -/
def le (x y : Double) : Bool := !x.isNaN && !y.isNaN && x.units ≤ y.units

/-- The smaller of two numbers; what stands for no number gives way to the other. -/
def min (x y : Double) : Double :=
  if x.isNaN then y else if y.isNaN || x.le y then x else y

/-! ## Arithmetic -/

/-- The double nearest to a sum. -/
def add (x y : Double) : Double :=
  if x.isNaN || y.isNaN then nan
  else if x.isInfinite then
    if y.isInfinite && x.isNegative != y.isNegative then nan else x
  else if y.isInfinite then y
  else
    let sum := x.units + y.units
    if sum = 0 then ofMagnitude (x.isNegative && y.isNegative) 0
    else ofMagnitude (sum < 0) (Format.double.ofRatio sum.natAbs 1)

/-- The double nearest to a product. -/
def mul (x y : Double) : Double :=
  let negative := x.isNegative != y.isNegative
  if x.isNaN || y.isNaN then nan
  else if x.isInfinite || y.isInfinite then
    if x.magnitude = 0 || y.magnitude = 0 then nan
    else ofMagnitude negative Format.double.infinity
  else
    ofMagnitude negative
      (Format.double.ofRatio (x.units.natAbs * y.units.natAbs) (twoPow Format.double.scale))

/-- One bit of an exponent after another, the last one first: `acc` is the power so far and
`base` the factor that the next bit stands for. -/
def powBits (acc base : Double) : Nat → Nat → Double
  | 0, _ => acc
  | fuel + 1, n =>
    let acc := if n % 2 = 1 then acc.mul base else acc
    if n / 2 = 0 then acc else powBits acc (base.mul base) fuel (n / 2)

/-- A power by repeated squaring, rounded at each multiplication. -/
def pow (base : Double) (n : Nat) : Double := powBits (ofNat 1) base (Nat.log2 n + 1) n

/-! ## The shorter formats -/

/-- The double that a magnitude of another format stands for. -/
def ofFormat (f : Format) (negative : Bool) (magnitude : Nat) : Double :=
  if f.infinity < magnitude then nan
  else if magnitude = f.infinity then ofMagnitude negative Format.double.infinity
  else ofRatio negative (f.units magnitude) (twoPow f.scale)

/-- The magnitude in another format that stands for exactly the same number, if there is one. -/
def toFormat? (f : Format) (x : Double) : Option Nat :=
  if x.isNaN then none
  else if x.isInfinite then some f.infinity
  else
    let step := twoPow (Format.double.scale - f.scale)
    let n := x.units.natAbs
    if n % step = 0 then f.ofUnits? (n / step) else none

end Double

end Inventory
