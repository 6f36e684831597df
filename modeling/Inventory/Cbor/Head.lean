import Inventory.Number.Power
import Inventory.Text.Utf8

/-!
# Heads of stored items

A stored value is a sequence of bytes that starts with a head: the major type of the item in the
first three bits, and its argument in the other five or in the one, two, four or eight bytes
after them. The argument is the number itself, a length, a tag, or the bits of a floating-point
number. Heads are written with the shortest argument and read with any.
-/

namespace Inventory.Cbor

/-- The head of an item; a length is absent where the item is a sequence of pieces up to a
stop. -/
inductive Head where
  | unsigned (n : Nat)
  | negative (n : Nat)
  | bytes (length : Option Nat)
  | text (length : Option Nat)
  | array (length : Option Nat)
  | map (length : Option Nat)
  | tag (n : Nat)
  | simple (n : Nat)
  | half (bits : Nat)
  | single (bits : Nat)
  | double (bits : Nat)
  | stop
  deriving DecidableEq, Repr

/-- The last `count` bytes of a number, the most significant first. -/
def bigEndian : (count : Nat) → Nat → Bytes
  | 0, _ => []
  | count + 1, n => UInt8.ofNat (n / twoPow (8 * count)) :: bigEndian count n

/-- The number that bytes spell, after those that spell `acc`. -/
def ofBigEndian (acc : Nat) (bs : Bytes) : Nat := bs.foldl (fun n b => n * 256 + b.toNat) acc

/-- Splits off a number of bytes, if there are as many. -/
def takeExact (n : Nat) (bs : Bytes) : Option (Bytes × Bytes) :=
  if n ≤ bs.length then some (bs.take n, bs.drop n) else none

/-- The head of a major type with the shortest argument. -/
def writeHead (major n : Nat) : Bytes :=
  let first (minor : Nat) := UInt8.ofNat (major * 32 + minor)
  if n < 24 then [first n]
  else if n < twoPow 8 then first 24 :: bigEndian 1 n
  else if n < twoPow 16 then first 25 :: bigEndian 2 n
  else if n < twoPow 32 then first 26 :: bigEndian 4 n
  else first 27 :: bigEndian 8 n

/-- How the argument of a head was given: in the first byte, in a number of bytes after it, or
not at all. -/
inductive Argument where
  | short (n : Nat)
  | long (count n : Nat)
  | absent

namespace Argument

/-- The argument that the last five bits of the first byte announce. -/
def read (minor : Nat) (bs : Bytes) : Option (Argument × Bytes) :=
  if minor < 24 then some (short minor, bs)
  else if minor < 28 then
    let count := twoPow (minor - 24)
    (takeExact count bs).map fun (taken, bs) => (long count (ofBigEndian 0 taken), bs)
  else if minor = 31 then some (absent, bs)
  else none

/-- An argument as a number, where there has to be one. -/
def number? : Argument → Option Nat
  | short n | long _ n => some n
  | absent => none

end Argument

namespace Head

/-- The head of a major type and an argument. -/
def ofArgument (major : Nat) (a : Argument) : Option Head :=
  match major with
  | 0 => a.number?.map unsigned
  | 1 => a.number?.map negative
  | 2 => some (bytes a.number?)
  | 3 => some (text a.number?)
  | 4 => some (array a.number?)
  | 5 => some (map a.number?)
  | 6 => a.number?.map tag
  | _ =>
    match a with
    | .short n => some (simple n)
    | .absent => some stop
    | .long count n =>
      if count = 1 then some (simple n)
      else if count = 2 then some (half n)
      else if count = 4 then some (single n)
      else some (double n)

/-- Reads a head. -/
def read : Bytes → Option (Head × Bytes)
  | [] => none
  | b :: rest =>
    match Argument.read (b.toNat % 32) rest with
    | none => none
    | some (a, rest) => (ofArgument (b.toNat / 32) a).map fun h => (h, rest)

/-- Reads the head behind any number of tags. Each tag takes at least a byte. -/
def readUntagged : (fuel : Nat) → Bytes → Option (Head × Bytes)
  | 0, _ => none
  | fuel + 1, bs =>
    match read bs with
    | some (tag _, rest) => readUntagged fuel rest
    | other => other

end Head

/-- Reads the head behind any number of tags. -/
def untagged (bs : Bytes) : Option (Head × Bytes) := Head.readUntagged bs.length bs

/-- Does a step a number of times. -/
def repeatStep {σ : Type} (step : σ → Bytes → Option (σ × Bytes)) :
    Nat → σ → Bytes → Option (σ × Bytes)
  | 0, st, bs => some (st, bs)
  | n + 1, st, bs =>
    match step st bs with
    | none => none
    | some (st, bs) => repeatStep step n st bs

/-- Does a step until a stop comes instead. Each step takes at least a byte. -/
def repeatToStop {σ : Type} (step : σ → Bytes → Option (σ × Bytes)) :
    (fuel : Nat) → σ → Bytes → Option (σ × Bytes)
  | 0, _, _ => none
  | fuel + 1, st, bs =>
    match Head.read bs with
    | some (.stop, rest) => some (st, rest)
    | _ =>
      match step st bs with
      | none => none
      | some (st, bs) => repeatToStop step fuel st bs

/-- Does a step for each entry of an array or map whose head has been read. -/
def forEntries {σ : Type} (step : σ → Bytes → Option (σ × Bytes)) (length : Option Nat) (st : σ)
    (bs : Bytes) : Option (σ × Bytes) :=
  match length with
  | some n => repeatStep step n st bs
  | none => repeatToStop step bs.length st bs

/-- What a head announces as pieces of a text or byte string: a piece of a length, or a sequence
of pieces. -/
abbrev PieceHead := Head → Option (Option Nat)

/-- Pieces of byte strings. -/
def PieceHead.bytes : PieceHead
  | .bytes length => some length
  | _ => none

/-- Pieces of texts. -/
def PieceHead.text : PieceHead
  | .text length => some length
  | _ => none

/-- Reads pieces up to the stop of the outermost of `nested` sequences. -/
def readPieces (kind : PieceHead) :
    (fuel nested : Nat) → Bytes → Option (List Bytes × Bytes)
  | 0, _, _ => none
  | fuel + 1, nested, bs =>
    match Head.read bs with
    | none => none
    | some (.stop, rest) =>
      if nested ≤ 1 then some ([], rest) else readPieces kind fuel (nested - 1) rest
    | some (head, rest) =>
      match kind head with
      | none => none
      | some none => readPieces kind fuel (nested + 1) rest
      | some (some n) =>
        match takeExact n rest with
        | none => none
        | some (piece, rest) =>
          (readPieces kind fuel nested rest).map fun (pieces, rest) => (piece :: pieces, rest)

/-- Reads the content of a text or byte string whose head has been read, piece by piece. -/
def readContent (kind : PieceHead) (length : Option Nat) (bs : Bytes) :
    Option (List Bytes × Bytes) :=
  match length with
  | some n => (takeExact n bs).map fun (piece, rest) => ([piece], rest)
  | none => readPieces kind bs.length 1 bs

/-- The text of pieces, each of which is a text by itself. -/
def joinTexts (pieces : List Bytes) : Option String :=
  (pieces.mapM Text.ofUtf8?).map String.join

end Inventory.Cbor
