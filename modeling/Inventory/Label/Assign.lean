import Inventory.Label.Candidate
import Inventory.Label.Reservation

/-!
# Giving out labels and ids

An instance or cloudlet gets the first candidate that is not in use. An id is reserved at once;
reserving a label is left to the caller, in the same transaction. Where no candidate is free, or
the store cannot be read, the field is left empty.

A full name is the label of an instance, the label of its cloudlet and the region, with dots
between them. The load balancer of a cloudlet has a label of its own, which no instance or
cloudlet is given.
-/

namespace Inventory

namespace Label

/-- The label of the load balancer of a cloudlet. -/
def sharedHost : String := "shared"

/-- The first of some candidates that is not taken. -/
def firstFree (taken : String → Program Bool) : List (List Char) → Program (Option String)
  | [] => pure none
  | c :: cs => do
    let name := String.ofList c
    if ← taken name then firstFree taken cs else return some name

/-- Refuses to go on where every candidate is taken. -/
def orRefuse (found : Option String) (message : String) : Program String :=
  .ofExcept <|
    match found with
    | some name => .ok name
    | none => .error (.invalid message)

/-- The first candidate for a label that is neither the load balancer's nor reserved. -/
def pick (reservation : String → Reservation) (base : List Char) : Program String := do
  let taken (name : String) : Program Bool :=
    if name == sharedHost then pure true else (reservation name).isMade
  orRefuse (← firstFree taken (candidates base)) <|
    "unable to compute unique DNS label from base label of " ++ Text.quoted (String.ofList base) ++
      ", please change key values"

/-- The first candidate for the id of an instance that is not reserved; reserves it. -/
def pickId (k : AppInstKey) : Program String := do
  let id ← orRefuse
    (← firstFree (fun id => (Reservation.instanceId id).isMade) k.idCandidates)
    "unable to compute unique app inst id, please change key values"
  (Reservation.instanceId id).reserve
  return id

/-- Sets a field to what a program gives, or empties it if the program fails. -/
def setTo {α : Type} (set : String → α) (p : Program String) : Program (StoreResult Unit × α) := do
  match ← p.attempt with
  | .ok name => return (.ok (), set name)
  | .error e => return (.error e, set "")

end Label

/-- The reservation of the label of a cloudlet. -/
def Cloudlet.labelReservation (c : Cloudlet) : Reservation := .cloudletLabel c.dnsLabel

/-- The reservation of the label of an instance. -/
def AppInst.labelReservation (i : AppInst) : Reservation :=
  .instanceLabel i.key.cloudletKey i.dnsLabel

/-- Gives a cloudlet a label. -/
def Cloudlet.assignLabel (c : Cloudlet) : Program (StoreResult Unit × Cloudlet) :=
  Label.setTo (fun label => { c with dnsLabel := label })
    (Label.pick .cloudletLabel c.key.labelBase)

/-- Gives an instance a label. -/
def AppInst.assignLabel (i : AppInst) : Program (StoreResult Unit × AppInst) :=
  Label.setTo (fun label => { i with dnsLabel := label })
    (Label.pick (.instanceLabel i.key.cloudletKey) i.key.labelBase)

/-- Gives an instance an id, which is reserved. -/
def AppInst.assignId (i : AppInst) : Program (StoreResult Unit × AppInst) :=
  Label.setTo (fun id => { i with uniqueId := id }) (Label.pickId i.key)

/-- Four pieces of a name with dots between them. -/
def Label.dotted (host cloudlet region root : String) : String :=
  host ++ "." ++ cloudlet ++ "." ++ region ++ "." ++ root

/-- The full name of the load balancer of a cloudlet. -/
def Cloudlet.balancerName (c : Cloudlet) (region root : String) : String :=
  Label.dotted Label.sharedHost c.dnsLabel (String.ofList (Label.hostname region.toList)) root

/-- The full name of an instance on a cloudlet. -/
def AppInst.fullName (i : AppInst) (c : Cloudlet) (region root : String) : String :=
  Label.dotted i.dnsLabel c.dnsLabel (String.ofList (Label.hostname region.toList)) root

end Inventory
