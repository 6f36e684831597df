/-!
# Revisions

The store counts its commits. Revision `0` stands for the empty store and, where the revision of
a key is asked for, for an absent key.
-/

namespace Inventory

/-- The number of a commit. -/
abbrev Revision := Nat

namespace Revision

/-- The spelling of a revision in messages. -/
def text (r : Revision) : String := "rev:" ++ r.repr

/-- The revision of the next commit. -/
def next (r : Revision) : Revision := r + 1

/-- Whether this is the revision of the empty store. -/
def isZero (r : Revision) : Bool := r == 0

end Revision

end Inventory
