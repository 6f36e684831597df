import Inventory.Schema.Partial
import Inventory.Cbor.Head

/-!
# Reading stored values

A record is read from a map in any order. Entries under names that the schema does not know are
passed over; a field that comes twice is refused, and a field that is missing gets its zero
value. Tags before an item are ignored. A choice is its name, or a map of one entry, of which the
name is read and no more, so that a value in it is left over. Reading stops after the first item;
whatever follows it is left over as well.

The readers take a budget of nesting levels. A map, an array and a tag before an item that is
passed over take one level each. Tags two and three take none where they make a big number of a
short byte string.
-/

namespace Inventory

namespace Cbor

/-- How many levels a stored value may nest. -/
def maxNesting : Nat := 256

/-- How many bytes a big number may have. -/
def maxDigits : Nat := 16

/-- How many bytes a name may take. -/
def maxName : Nat := 4096

/-- Passes over what stands behind a tag, given how to pass over an item one level below, if there
is one. Tags two and three make a big number of a short byte string in one piece. Tag three counts
it down from minus one, and what that gives has to fit into sixteen bytes with a sign. -/
def skipTagged (inner : Option (Bytes → Option Bytes)) (tag : Nat) (bs : Bytes) : Option Bytes :=
  match Head.read bs with
  | some (.bytes (some n), rest) =>
    if (tag = 2 ∨ tag = 3) ∧ n ≤ maxDigits then
      match takeExact n rest with
      | none => none
      | some (digits, rest) =>
        if tag = 3 ∧ twoPow 127 ≤ ofBigEndian 0 digits then none else some rest
    else inner.bind fun f => f bs
  | _ => inner.bind fun f => f bs

/-- Passes over an item, given how to pass over an item one level below, if there is one. -/
def skipWith (inner : Option (Bytes → Option Bytes)) (bs : Bytes) : Option Bytes :=
  let entry (count : Nat) (f : Bytes → Option Bytes) (_ : Unit) (bs : Bytes) :
      Option (Unit × Bytes) :=
    (repeatStep (fun _ bs => (f bs).map ((), ·)) count () bs)
  match Head.read bs with
  | none => none
  | some (head, rest) =>
    match head with
    | .unsigned _ | .negative _ | .half _ | .single _ | .double _ => some rest
    | .simple n => if 20 ≤ n ∧ n ≤ 23 then some rest else none
    | .stop => none
    | .bytes length => (readContent .bytes length rest).map (·.2)
    | .text length =>
      match readContent .text length rest with
      | none => none
      | some (pieces, rest) => (joinTexts pieces).map fun _ => rest
    | .array length => inner.bind fun f => (forEntries (entry 1 f) length () rest).map (·.2)
    | .map length => inner.bind fun f => (forEntries (entry 2 f) length () rest).map (·.2)
    | .tag tag => skipTagged inner tag rest

/-- Passes over an item that nests at most `budget` levels. -/
def skip : (budget : Nat) → Bytes → Option Bytes
  | 0, bs => skipWith none bs
  | budget + 1, bs => skipWith (some (skip budget)) bs

/-- Reads a text. -/
def readText (bs : Bytes) : Option (String × Bytes) :=
  match untagged bs with
  | some (.text length, rest) =>
    match readContent .text length rest with
    | none => none
    | some (pieces, rest) => (joinTexts pieces).map fun s => (s, rest)
  | _ => none

/-- Takes the bytes of a name, unless it is too long. -/
def takeName (n : Nat) (bs : Bytes) : Option (Bytes × Bytes) :=
  if n ≤ maxName then takeExact n bs else none

/-- Reads a name, as its bytes. A name is a text or a byte string in one piece. -/
def readName (bs : Bytes) : Option (Bytes × Bytes) :=
  match untagged bs with
  | some (.text (some n), rest) =>
    match takeName n rest with
    | none => none
    | some (name, rest) => (Text.ofUtf8? name).map fun _ => (name, rest)
  | some (.bytes (some n), rest) => takeName n rest
  | _ => none

/-- Reads a big number, given as its bytes. Leading zeros do not count as digits. -/
def readBigNumber (bs : Bytes) : Option (Nat × Bytes) :=
  match Head.read bs with
  | some (.bytes length, rest) =>
    match readContent .bytes length rest with
    | none => none
    | some (pieces, rest) =>
      let digits := pieces.flatten.dropWhile (· == 0)
      if digits.length ≤ maxDigits then some (ofBigEndian 0 digits, rest) else none
  | _ => none

/-- Reads an integer. Tags two and three announce a natural number, or one counted down from
minus one, as bytes; other tags are ignored. -/
def readIntegerFrom : (fuel : Nat) → Bytes → Option (Int × Bytes)
  | 0, _ => none
  | fuel + 1, bs =>
    match Head.read bs with
    | some (.unsigned n, rest) => some (n, rest)
    | some (.negative n, rest) => some (-1 - n, rest)
    | some (.tag 2, rest) => (readBigNumber rest).map fun (n, rest) => ((n : Int), rest)
    | some (.tag 3, rest) => (readBigNumber rest).map fun (n, rest) => (-1 - (n : Int), rest)
    | some (.tag _, rest) => readIntegerFrom fuel rest
    | _ => none

/-- Reads an integer between two bounds. -/
def readInteger (low high : Int) (bs : Bytes) : Option (Int × Bytes) :=
  match readIntegerFrom bs.length bs with
  | some (n, rest) => if low ≤ n ∧ n ≤ high then some (n, rest) else none
  | none => none

/-- The double that the bits of a number in a format stand for. -/
def ofSigned (f : Format) (width bits : Nat) : Double :=
  Double.ofFormat f (bits / twoPow (width - 1) == 1) (bits % twoPow (width - 1))

/-- Reads a double in any format. -/
def readDouble (bs : Bytes) : Option (Double × Bytes) :=
  match untagged bs with
  | some (.half bits, rest) => some (ofSigned .half 16 bits, rest)
  | some (.single bits, rest) => some (ofSigned .single 32 bits, rest)
  | some (.double bits, rest) => some (⟨UInt64.ofNat bits⟩, rest)
  | _ => none

/-- Reads the name of a choice: a text, or the name that a map of one entry begins with. -/
def readChoiceName (bs : Bytes) : Option (Bytes × Bytes) :=
  match untagged bs with
  | some (.text _, _) => readName bs
  | some (.map (some 1), rest) => readName rest
  | _ => none

/-- Reads a choice by its name. -/
def readChoice (c : Choice) (bs : Bytes) : Option (c.Val × Bytes) :=
  match readChoiceName bs with
  | none => none
  | some (name, rest) => ((Text.ofUtf8? name).bind c.ofName?).map fun v => (v, rest)

/-- Reads a list of texts. A byte string without bytes is as good as an array without texts. -/
def readTexts (budget : Nat) (bs : Bytes) : Option (List String × Bytes) :=
  match untagged bs with
  | some (.array length, rest) =>
    if budget = 0 then none
    else
      let step (read : List String) (bs : Bytes) : Option (List String × Bytes) :=
        (readText bs).map fun (s, bs) => (read ++ [s], bs)
      forEntries step length [] rest
  | some (.bytes length, rest) =>
    match readContent .bytes length rest with
    | none => none
    | some (pieces, rest) => if pieces.flatten.isEmpty then some ([], rest) else none
  | _ => none

/-- Reads an entry of a map into what has been read so far, given how to read the value of the
entry with a name. -/
def readEntry {σ : Type} (field : Bytes → σ → Bytes → Option (σ × Bytes)) (st : σ) (bs : Bytes) :
    Option (σ × Bytes) :=
  match readName bs with
  | none => none
  | some (name, bs) => field name st bs

end Cbor

open Cbor in
/-- Reads a leaf. -/
def Leaf.read (budget : Nat) : (l : Leaf) → Bytes → Option (l.Val × Bytes)
  | text, bs => readText bs
  | texts, bs => readTexts budget bs
  | word32, bs => (readInteger 0 (twoPow 32 - 1) bs).map fun (n, bs) => (UInt32.ofNat n.toNat, bs)
  | word64, bs => (readInteger 0 (twoPow 64 - 1) bs).map fun (n, bs) => (UInt64.ofNat n.toNat, bs)
  | int64, bs => (readInteger (-twoPow 63) (twoPow 63 - 1) bs).map fun (n, bs) => (Int64.ofInt n, bs)
  | real, bs => readDouble bs
  | choice c, bs => readChoice c bs

mutual

/-- Reads a value that nests at most `budget` levels. -/
def Shape.read : (s : Shape) → (budget : Nat) → Bytes → Option (s.Val × Bytes)
  | .leaf kind, budget, bs => kind.read budget bs
  | .record fields, budget, bs =>
    match budget, Cbor.untagged bs with
    | budget + 1, some (.map length, rest) =>
      (Cbor.forEntries (Cbor.readEntry (fields.readField budget)) length fields.blank rest).map
        fun (st, rest) => (fields.complete st, rest)
    | _, _ => none

/-- Reads the value of the entry with a name. -/
def Fields.readField : (fs : Fields) → (budget : Nat) → (name : Bytes) → fs.Partial → Bytes →
    Option (fs.Partial × Bytes)
  | .nil, budget, _, _, bs => (Cbor.skip budget bs).map fun rest => ((), rest)
  | .cons _ known shape rest, budget, name, st, bs =>
    if name = Text.utf8 known then
      match st.1 with
      | some _ => none
      | none => (shape.read budget bs).map fun (v, bs) => ((some v, st.2), bs)
    else (rest.readField budget name st.2 bs).map fun (p, bs) => ((st.1, p), bs)

end

/-- The value at the front of stored bytes. -/
def Shape.decode (s : Shape) (bs : Bytes) : Option s.Val :=
  (s.read Cbor.maxNesting bs).map (·.1)

end Inventory
