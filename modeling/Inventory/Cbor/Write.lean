import Inventory.Schema.Basic
import Inventory.Cbor.Head

/-!
# Writing stored values

A record is a map with an entry for each field of the schema in its order, whatever the value.
Integers, lengths and doubles are written in the shortest form that holds them; what stands for
no number is always written alike.
-/

namespace Inventory

namespace Cbor

/-- A text. -/
def writeText (s : String) : Bytes :=
  let bs := Text.utf8 s
  writeHead 3 bs.length ++ bs

/-- A natural number. -/
def writeNat (n : Nat) : Bytes := writeHead 0 n

/-- An integer. -/
def writeInt (n : Int) : Bytes :=
  if n < 0 then writeHead 1 (-1 - n).toNat else writeHead 0 n.toNat

/-- The bits of a number in a format, with its sign before its magnitude. -/
def signed (x : Double) (width magnitude : Nat) : Nat :=
  (if x.isNegative then twoPow (width - 1) else 0) + magnitude

/-- A double, in the shortest format that has it. -/
def writeDouble (x : Double) : Bytes :=
  if x.isNaN then [0xf9, 0x7e, 0x00]
  else
    match x.toFormat? .half with
    | some m => 0xf9 :: bigEndian 2 (signed x 16 m)
    | none =>
      match x.toFormat? .single with
      | some m => 0xfa :: bigEndian 4 (signed x 32 m)
      | none => 0xfb :: bigEndian 8 x.bits.toNat

end Cbor

open Cbor in
/-- The stored form of a leaf. -/
def Leaf.write : (l : Leaf) → l.Val → Bytes
  | text, v => writeText v
  | texts, v => writeHead 4 (List.length (α := String) v) ++ List.flatMap writeText v
  | word32, v => writeNat (UInt32.toNat v)
  | word64, v => writeNat (UInt64.toNat v)
  | int64, v => writeInt (Int64.toInt v)
  | real, v => writeDouble v
  | choice c, v => writeText (c.name v)

mutual

/-- The stored form of a value. -/
def Shape.write : (s : Shape) → s.Val → Bytes
  | .leaf kind, v => kind.write v
  | .record fields, v => Cbor.writeHead 5 fields.count ++ fields.write v

/-- The entries of a map. -/
def Fields.write : (fs : Fields) → fs.Val → Bytes
  | .nil, _ => []
  | .cons _ name shape rest, v => Cbor.writeText name ++ shape.write v.1 ++ rest.write v.2

end

end Inventory
