import Inventory.Proofs.Checks
import Inventory.Proofs.StoreKey

/-!
# Checks before a copy

A request is checked where it selects something, before its selected leaves are copied into an
entity that is valid as a whole. The check looks at more than what is copied: a cloudlet that moves
north has to name a place with both coordinates, though only one of them is copied. It never looks
at less.

* `Entity.valid_copyFrom_iff`: what comes of a copy into a valid entity is valid exactly if the
  leaves that were copied are allowed.
* `Entity.allowed_of_checked`: a check of what is selected lets no other leaf through.
* `Entity.copy_of_checked_is_valid`: **a copy of what was checked keeps a valid entity valid.**
-/

namespace Inventory.Entity

open CheckedEntity

variable {α : Type} [Entity α] [CheckedEntity α] {current a : α} {names : List String}

/-- An entity is valid if its key and all its leaves are allowed. -/
theorem valid_iff : validate (fullMask α) a = .ok () ↔
    ObjKey.validate (key a) = .ok () ∧ ∀ c ∈ checks (α := α), c.passes (body a) = true := by
  rw [validate_eq_ok_iff]
  refine and_congr_right fun _ => forall₂_congr fun c _ => ?_
  have hgate := c.has_gate (isNamed_allFields c.place)
  exact ⟨fun h => h hgate, fun h _ => h⟩

/-- The leaves of an entity that some addresses name are allowed. -/
def Allowed (names : List String) (a : α) : Prop :=
  ∀ c ∈ checks (α := α), (c.place.path .root).isNamed names = true → c.passes (body a) = true

/-- **A check of what is selected looks at every selected leaf**, since it is made if an address at
or above the leaf is selected. -/
theorem allowed_of_checked (h : validate (.ofFields names) a = .ok ()) : Allowed names a := by
  intro c hc hnamed
  obtain ⟨-, hchecks⟩ := validate_eq_ok_iff.1 h
  exact hchecks c hc (c.has_gate hnamed)

/-- **What comes of a copy into a valid entity is valid** exactly if the leaves that were copied are
allowed. -/
theorem valid_copyFrom_iff [LawfulEntity α] (hcurrent : validate (fullMask α) current = .ok ())
    (hkey : key current = key a) :
    validate (fullMask α) (copyFrom (.ofFields names) .root current a).1 = .ok () ↔
      Allowed names a := by
  obtain ⟨hvalidKey, hpasses⟩ := valid_iff.1 hcurrent
  have hsameKey : key (copyFrom (.ofFields names) .root current a).1 = key current :=
    LawfulEntity.key_copyFrom _ _ hkey
  rw [valid_iff, hsameKey, and_iff_right hvalidKey]
  refine forall₂_congr fun c hc => ?_
  rw [c.passes_copyFrom]
  cases (c.place.path .root).isNamed names with
  | false => exact ⟨fun _ h => (nomatch h), fun _ => hpasses c hc⟩
  | true => exact ⟨fun h _ => h, fun h => h rfl⟩

/-- **A copy of what was checked keeps a valid entity valid.** An entity of any kind passes the
check of all fields, and another one with its key passes the check of those fields that some
addresses select, whatever the addresses look like. Then the entity with the selected leaves of the
other one in the place of its own passes the check of all fields again. -/
theorem copy_of_checked_is_valid (kind : Kind) (current a : kind.Obj) (names : List String)
    (hcurrent : validate (fullMask kind.Obj) current = .ok ()) (hkey : key a = key current)
    (hchecked : validate (.ofFields names) a = .ok ()) :
    validate (fullMask kind.Obj) (copyFrom (.ofFields names) .root current a).1 = .ok () := by
  rw [valid_copyFrom_iff hcurrent hkey.symm]
  exact allowed_of_checked hchecked

namespace Adrift

/-- Positive infinity. -/
def infinite : Double := .ofMagnitude false Format.double.infinity

/-- A cloudlet on a ship. -/
def ship (location : Loc) : Kind.cloudlet.Obj := ⟨[], ⟨⟨"o"⟩, "c"⟩, "", location, ""⟩

theorem key_ship (location : Loc) : key (ship location) = (⟨⟨"o"⟩, "c"⟩ : CloudletKey) := rfl

/-- In port, at an altitude that is no number. -/
def moored : Kind.cloudlet.Obj := ship ⟨.ofNat 48, .ofNat 11, .nan⟩

/-- Far in the south, and in the sky. -/
def sailing : Kind.cloudlet.Obj := ship ⟨.ofInt (-33), .ofNat 151, infinite⟩

/-- A limit on requests. -/
def limit (rate : Double) (burst : Int64) : Kind.rateLimitSettings.Obj :=
  ⟨[], ⟨"Register", "Dme", "PerIp"⟩, ⟨.tokenBucket, rate, burst⟩, ⟨1, 1⟩⟩

theorem key_limit (rate : Double) (burst : Int64) :
    key (limit rate burst) = (⟨"Register", "Dme", "PerIp"⟩ : RateLimitSettingsKey) := rfl

end Adrift

/-- A ship goes south and into the sky. It keeps its longitude, which was checked all the same. A
limit gets an infinite rate from one whose burst is not allowed. -/
theorem copy_of_checked_is_valid_at_sea :
    (copyFrom (.ofFields ["5.1", "5.3"]) .root Adrift.moored Adrift.sailing).1 =
        Adrift.ship ⟨.ofInt (-33), .ofNat 11, Adrift.infinite⟩ ∧
      validate (fullMask Kind.cloudlet.Obj)
        (copyFrom (.ofFields ["5.1", "5.3"]) .root Adrift.moored Adrift.sailing).1 = .ok () ∧
      validate (fullMask Kind.rateLimitSettings.Obj)
        (copyFrom (.ofFields ["3.2"]) .root (Adrift.limit (.ofNat 10) 5)
          (Adrift.limit Adrift.infinite 0)).1 = .ok () := by
  refine ⟨by decide +kernel, ?_, ?_⟩
  · exact copy_of_checked_is_valid .cloudlet Adrift.moored Adrift.sailing ["5.1", "5.3"]
      (by decide +kernel) ((Adrift.key_ship _).trans (Adrift.key_ship _).symm) (by decide +kernel)
  · exact copy_of_checked_is_valid .rateLimitSettings (Adrift.limit (.ofNat 10) 5)
      (Adrift.limit Adrift.infinite 0) ["3.2"] (by decide +kernel)
      ((Adrift.key_limit _ _).trans (Adrift.key_limit _ _).symm) (by decide +kernel)

/-- A longitude that is no number is refused, also where only the latitude is selected. -/
example : (validate (.ofFields ["5.1"]) (Adrift.ship ⟨.zero, .nan, .zero⟩)).isOk = false := by
  decide +kernel

end Inventory.Entity
