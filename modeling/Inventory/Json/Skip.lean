import Inventory.Json.Text

/-!
# Values that are passed over

A key string may hold members that the key does not know. Their values are passed over: they
must be well formed, of any depth, but nothing of them is kept.
-/

namespace Inventory.Json

/-- Whether a character may stand between the parts of a key string. -/
def isGap (c : Char) : Bool := c = ' ' || c = '\n' || c = '\t' || c = '\r'

/-- Drops the gap before the next part. -/
def skipGap (cs : List Char) : List Char := cs.dropWhile isGap

/-- Whether a character is a decimal digit. -/
def isDigit (c : Char) : Bool := 0x30 ≤ c.toNat && c.toNat ≤ 0x39

/-- Passes over at least one decimal digit. -/
def skipDigits (cs : List Char) : Option (List Char) :=
  match cs with
  | c :: rest => if isDigit c then some (rest.dropWhile isDigit) else none
  | [] => none

/-- Passes over the integral part of a number: a zero, or digits that start with none. -/
def skipIntegral (cs : List Char) : Option (List Char) :=
  match cs with
  | '0' :: rest =>
    match rest with
    | c :: _ => if isDigit c then none else some rest
    | [] => some rest
  | _ => skipDigits cs

/-- Passes over the fraction of a number, if there is one. -/
def skipFraction (cs : List Char) : Option (List Char) :=
  match cs with
  | '.' :: rest => skipDigits rest
  | _ => some cs

/-- Passes over the exponent of a number, if there is one. -/
def skipExponent (cs : List Char) : Option (List Char) :=
  match cs with
  | 'e' :: '+' :: rest | 'e' :: '-' :: rest | 'E' :: '+' :: rest | 'E' :: '-' :: rest =>
    skipDigits rest
  | 'e' :: rest | 'E' :: rest => skipDigits rest
  | _ => some cs

/-- Passes over a number. -/
def skipNumber (cs : List Char) : Option (List Char) :=
  let cs := match cs with
    | '-' :: rest => rest
    | _ => cs
  ((skipIntegral cs).bind skipFraction).bind skipExponent

mutual

/-- Passes over a value. -/
def skipValue : Nat → List Char → Option (List Char)
  | 0, _ => none
  | fuel + 1, cs =>
    match skipGap cs with
    | '"' :: rest => skipText rest
    | '\x7b' :: rest =>
      match skipGap rest with
      | '\x7d' :: rest => some rest
      | rest => skipMembers fuel rest
    | '[' :: rest =>
      match skipGap rest with
      | ']' :: rest => some rest
      | rest => skipItems fuel rest
    | 't' :: 'r' :: 'u' :: 'e' :: rest => some rest
    | 'f' :: 'a' :: 'l' :: 's' :: 'e' :: rest => some rest
    | 'n' :: 'u' :: 'l' :: 'l' :: rest => some rest
    | cs => skipNumber cs

/-- Passes over the items of a list, up to and with its closing bracket. -/
def skipItems : Nat → List Char → Option (List Char)
  | 0, _ => none
  | fuel + 1, cs =>
    match skipValue fuel cs with
    | none => none
    | some rest =>
      match skipGap rest with
      | ',' :: rest => skipItems fuel rest
      | ']' :: rest => some rest
      | _ => none

/-- Passes over the members of an object, up to and with its closing brace. -/
def skipMembers : Nat → List Char → Option (List Char)
  | 0, _ => none
  | fuel + 1, cs =>
    match skipGap cs with
    | '"' :: rest =>
      match skipText rest with
      | none => none
      | some rest =>
        match skipGap rest with
        | ':' :: rest =>
          match skipValue fuel rest with
          | none => none
          | some rest =>
            match skipGap rest with
            | ',' :: rest => skipMembers fuel rest
            | '\x7d' :: rest => some rest
            | _ => none
        | _ => none
    | _ => none

end

/-- Passes over a value. Between two characters read there are at most two steps into the value,
so twice its length bounds the depth of the walk. -/
def skip (cs : List Char) : Option (List Char) := skipValue (2 * cs.length + 2) cs

end Inventory.Json
