import Inventory.Entity.AppInst
import Inventory.Label.Sanitize

/-!
# Candidate labels and ids

The label of a cloudlet is made of its name and its operator, the label of an instance of the
application's name, version and developer. When a label is taken the next candidate has a number
at its end, for which the label is shortened if need be. The id of an instance is made of the
whole of its key, and its next candidates have a number at their end as well.
-/

namespace Inventory

namespace Label

/-- What the candidate of a number has at its end: nothing for the first one. -/
def suffix (counter : Nat) : List Char := if counter = 0 then [] else counter.repr.toList

/-- The candidate of a number for a label, in at most so many bytes. -/
def numbered (label : List Char) (max counter : Nat) : List Char :=
  Text.takeBytes (max - Text.byteLength (suffix counter)) label ++ suffix counter

/-- The candidate of a number for a label, in at most so many bytes; refuses a number that leaves
no room for the label. -/
def next (label : List Char) (max counter : Nat) : StoreResult (List Char) :=
  if max ≤ Text.byteLength (suffix counter) then
    .error (.invalid ("suffix " ++ String.ofList (suffix counter) ++
      " cannot be longer than dns label max len of " ++ max.repr))
  else .ok (numbered label max counter)

/-- How many candidates are tried. -/
def maxCandidates : Nat := 10

/-- The candidates for a label. -/
def candidates (base : List Char) : List (List Char) :=
  (List.range maxCandidates).map (numbered base maxBytes)

end Label

/-- What the label of a cloudlet is made of. The name is cut, so that a long one leaves room for
the operator. -/
def CloudletKey.labelBase (k : CloudletKey) : List Char :=
  Label.sanitizeTo 40 k.name.toList ++ '-' :: Label.sanitizeTo 20 k.operatorKey.name.toList

/-- What the label of an instance is made of. If it is too long the name and the version of the
application are cut. -/
def AppInstKey.labelBase (k : AppInstKey) : List Char :=
  let name := Label.sanitizeTo 60 k.appKey.name.toList
  let version := Label.sanitizeTo 60 k.appKey.version.toList
  let developer := Label.sanitizeTo 60 k.appKey.developerKey.name.toList
  let base := name ++ version ++ '-' :: developer
  if Text.byteLength base ≤ Label.maxBytes then base
  else Text.takeBytes 40 name ++ Text.takeBytes 10 version ++ '-' :: developer

/-- The id of an instance, with some salt at the end unless that is empty. -/
def AppInstKey.uniqueId (k : AppInstKey) (salt : List Char) : List Char :=
  let app := Label.sanitize k.appKey.developerKey.name.toList
    ++ Label.sanitize k.appKey.name.toList ++ Label.sanitize k.appKey.version.toList
  let cloudlet := Label.sanitize k.cloudletKey.name.toList
  let operator := Label.sanitize k.cloudletKey.operatorKey.name.toList
  app ++ '-' :: cloudlet ++ '-' :: operator
    ++ (if salt.isEmpty then [] else '-' :: Label.sanitize salt)

/-- The candidates for the id of an instance. -/
def AppInstKey.idCandidates (k : AppInstKey) : List (List Char) :=
  (List.range Label.maxCandidates).map fun counter => k.uniqueId (Label.suffix counter)

end Inventory
