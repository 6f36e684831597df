import Inventory.Schema.Basic

/-!
# Records that are being read

While a record is read, some of its fields have a value and others do not yet. A field is read
at most once, and a field that was not read when the record ends gets its zero value.
-/

namespace Inventory.Fields

/-- The values read so far. -/
@[reducible] def Partial : Fields → Type
  | .nil => Unit
  | .cons _ _ shape rest => Option shape.Val × rest.Partial

/-- Nothing read yet. -/
def blank : (fs : Fields) → fs.Partial
  | .nil => ()
  | .cons _ _ _ rest => (none, rest.blank)

/-- The record, with zero values for what was not read. -/
def complete : (fs : Fields) → fs.Partial → fs.Val
  | .nil, _ => ()
  | .cons _ _ shape rest, p => (p.1.getD shape.zero, rest.complete p.2)

end Inventory.Fields
