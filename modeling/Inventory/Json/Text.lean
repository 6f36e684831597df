/-!
# Texts in key strings

A text inside a key string stands in double quotes. A quote, a backslash and the control
characters below the space are escaped, everything else stands for itself. A reader accepts any
escape of the notation: a code unit in four hexadecimal digits may also be half of a pair that
stands for one character beyond the first plane, but not half of a pair by itself.
-/

namespace Inventory.Json

/-- One character of a text. -/
def writeChar (c : Char) : List Char :=
  match c with
  | '"' => ['\\', '"']
  | '\\' => ['\\', '\\']
  | '\x08' => ['\\', 'b']
  | '\x0c' => ['\\', 'f']
  | '\n' => ['\\', 'n']
  | '\r' => ['\\', 'r']
  | '\t' => ['\\', 't']
  | c =>
    if c.toNat < 0x20 then
      ['\\', 'u', '0', '0', Nat.digitChar (c.toNat / 16), Nat.digitChar (c.toNat % 16)]
    else [c]

/-- A text in quotes. -/
def writeText (s : String) : List Char := '"' :: s.toList.flatMap writeChar ++ ['"']

/-- The value of a hexadecimal digit. -/
def hexDigit? (c : Char) : Option Nat :=
  let n := c.toNat
  if 0x30 ≤ n ∧ n ≤ 0x39 then some (n - 0x30)
  else if 0x41 ≤ n ∧ n ≤ 0x46 then some (n - 0x41 + 10)
  else if 0x61 ≤ n ∧ n ≤ 0x66 then some (n - 0x61 + 10)
  else none

/-- The code unit of four hexadecimal digits. -/
def codeUnit? (a b c d : Char) : Option Nat := do
  return (((← hexDigit? a) * 16 + (← hexDigit? b)) * 16 + (← hexDigit? c)) * 16 + (← hexDigit? d)

/-- Whether a code unit is the first half of a pair. -/
def isHighHalf (n : Nat) : Bool := 0xd800 ≤ n && n ≤ 0xdbff

/-- Whether a code unit is the second half of a pair. -/
def isLowHalf (n : Nat) : Bool := 0xdc00 ≤ n && n ≤ 0xdfff

/-- The character of a pair of code units. -/
def joinHalves (high low : Nat) : Char :=
  Char.ofNat (0x10000 + (high - 0xd800) * 0x400 + (low - 0xdc00))

/-- The character of an escape that is a single letter. -/
def shortEscape? (c : Char) : Option Char :=
  match c with
  | '"' => some '"'
  | '\\' => some '\\'
  | '/' => some '/'
  | 'b' => some '\x08'
  | 'f' => some '\x0c'
  | 'n' => some '\n'
  | 'r' => some '\r'
  | 't' => some '\t'
  | _ => none

/-- Reads a text whose opening quote has been read, up to and with its closing quote. -/
def readText : List Char → Option (List Char × List Char)
  | [] => none
  | c :: rest =>
    if c = '"' then some ([], rest)
    else if c = '\\' then
      match rest with
      | [] => none
      | e :: rest =>
        if e = 'u' then
          match rest with
          | a :: b :: c :: d :: rest =>
            match codeUnit? a b c d with
            | none => none
            | some unit =>
              if isLowHalf unit then none
              else if isHighHalf unit then
                match rest with
                | '\\' :: 'u' :: a :: b :: c :: d :: rest =>
                  match codeUnit? a b c d with
                  | none => none
                  | some low =>
                    if isLowHalf low then
                      (readText rest).map fun (cs, rest) => (joinHalves unit low :: cs, rest)
                    else none
                | _ => none
              else (readText rest).map fun (cs, rest) => (Char.ofNat unit :: cs, rest)
          | _ => none
        else
          match shortEscape? e with
          | none => none
          | some c => (readText rest).map fun (cs, rest) => (c :: cs, rest)
    else if c.toNat < 0x20 then none
    else (readText rest).map fun (cs, rest) => (c :: cs, rest)

/-- Passes over a text whose opening quote has been read. Halves of pairs may stand alone in a
text that is not kept. -/
def skipText : List Char → Option (List Char)
  | [] => none
  | c :: rest =>
    if c = '"' then some rest
    else if c = '\\' then
      match rest with
      | [] => none
      | e :: rest =>
        if e = 'u' then
          match rest with
          | a :: b :: c :: d :: rest =>
            match codeUnit? a b c d with
            | none => none
            | some _ => skipText rest
          | _ => none
        else
          match shortEscape? e with
          | none => none
          | some _ => skipText rest
    else if c.toNat < 0x20 then none
    else skipText rest

end Inventory.Json
