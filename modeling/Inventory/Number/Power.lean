/-!
# Powers of two

The widths of fields and formats are counted in bits.
-/

namespace Inventory

/-- How many numbers fit into so many bits. -/
def twoPow (bits : Nat) : Nat := Nat.pow 2 bits

end Inventory
