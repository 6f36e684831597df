import Inventory.Text.Blank
import Inventory.Text.Lowercase
import Inventory.Text.Utf8

/-!
# Names as labels

A name becomes a piece of a DNS label by turning `_` into `-`, dropping what may not stand in a
label and lowercasing the rest; a `-` at the end is dropped too. Long labels are cut to a number
of bytes, between two characters.
-/

namespace Inventory.Label

/-- The longest label that an entity is given, in bytes. -/
def maxBytes : Nat := 63

/-- Whether a character is dropped from a label. -/
def isDropped (c : Char) : Bool := [' ', '&', ',', '.', '!'].contains c

/-- What a character of a name becomes in a label. -/
def sanitizeChar (c : Char) : List Char :=
  if c = '_' then ['-'] else if isDropped c then [] else Text.lowercase c

/-- Drops each `-` at the end. -/
def dropDashes : List Char → List Char := Text.dropEndWhile (· == '-')

/-- A name as a piece of a label. -/
def sanitize (name : List Char) : List Char := dropDashes (name.flatMap sanitizeChar)

/-- A name as a piece of a label of at most so many bytes. -/
def sanitizeTo (max : Nat) (name : List Char) : List Char := Text.takeBytes max (sanitize name)

/-- A name as a label that stands alone. -/
def hostname (name : List Char) : List Char := dropDashes (sanitizeTo maxBytes name)

end Inventory.Label
