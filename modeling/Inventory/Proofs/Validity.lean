import Inventory.Proofs.Checks
import Inventory.Proofs.Edits
import Inventory.Proofs.Masks

/-!
# Validity of what is stored

An edit is checked where it selects something; what it does not select is not looked at. So what is
stored is as valid as what has been named of it, and as the zero values of everything else.

* `Registry`: a store, and what has been named of each record since it came to be.
* `Edit.Effect.tracked`: an effect on a record keeps track of what has been checked.
* `Registry.Sound.step`, `Edit.sound_runAll`: **edits keep track of all records.**
* `Kind.required`: the fields that must not be zero, of two kinds only.
* `Entity.stored_valid_iff`: a stored entity passes the check of all fields exactly if its required
  fields have been named.
-/

namespace Inventory

/-! ## What has been named of a record -/

/-- A store, and the addresses that have been named of each record since it came to be. -/
structure Registry where
  store : Store
  named : String → List String

/-- Nothing is stored. -/
def Registry.empty : Registry := ⟨.empty, fun _ => []⟩

namespace Edit

variable {α : Type} [Entity α]

/-- What has been named of a record after an edit that succeeds; a creation names every field, and
with a record all that was named of it is gone. -/
def naming : Edit α → List String → List String
  | create _, named => named ++ Entity.allFields α
  | update _ names, named | put _ names, named => named ++ names
  | delete _, _ => []

/-- Does an edit and keeps track of what it names; an edit that fails names nothing. -/
def step (d : Edit α) (r : Registry) : Registry where
  store := (d.run r.store).2
  named k :=
    if k = d.storeKey ∧ (d.run r.store).1.isOk = true then d.naming (r.named k) else r.named k

/-- Does edits one after another, whatever they answer. -/
def runAll (edits : List (Edit α)) : Registry := edits.foldl (fun r d => d.step r) .empty

end Edit

/-! ## What has been checked of a record -/

section Tracking

variable {α : Type} [Entity α] [LawfulEntity α] [CheckedEntity α]

open CheckedEntity in
/-- A record of which some addresses have been named: its key is allowed, and a leaf is allowed if
it has been named or if zero is. -/
def Tracked (named : List String) : Option α → Prop
  | none => named = []
  | some a => Entity.Fits a ∧ ObjKey.validate (Entity.key a) = .ok () ∧
    ∀ c ∈ checks (α := α), c.passes (Entity.body a) =
      ((c.place.path .root).isNamed named || c.passes (Entity.schema α).zero)

variable {d : Edit α} {found left : Option α} {named : List String}

/-- A record that is merged with what was checked, under the same key. -/
theorem Tracked.merge {a b : α} {names : List String} (hfits : Entity.Fits a)
    (hvalid : Entity.validate (.ofFields names) a = .ok ()) (hkey : Entity.key b = Entity.key a)
    (h : Tracked named (some b)) :
    Tracked (named ++ names) (some (Entity.merge (.ofFields names) b a)) ∧
      ∀ e ∈ some (Entity.merge (.ofFields names) b a), Entity.key e = Entity.key a := by
  obtain ⟨hb, hbkey, hleaf⟩ := h
  obtain ⟨-, hchecks⟩ := CheckedEntity.validate_eq_ok_iff.1 hvalid
  have hmerged : Entity.key (Entity.merge (.ofFields names) b a) = Entity.key b :=
    Entity.key_merge _ hkey
  refine ⟨⟨hb.merge _ hfits, by rw [hmerged, hbkey], fun c hc => ?_⟩, fun e he => ?_⟩
  · rw [c.passes_merge (hchecks c hc), hleaf c hc, FieldPath.isNamed_append, ← Bool.or_assoc,
      Bool.or_comm ((c.place.path .root).isNamed names)]
  · rw [← Option.some.inj he, hmerged, hkey]

/-- A record that is read. -/
theorem Tracked.restored {b : α} (h : Tracked named (some b)) :
    Tracked named (some (Entity.restored b)) := by
  obtain ⟨hb, hkey, hleaf⟩ := h
  refine ⟨hb.restored, by rw [Entity.key_restored, hkey], fun c hc => ?_⟩
  rw [Entity.body_restored, c.passes_canonical, hleaf c hc]

/-- A record with zero values. -/
theorem Tracked.fresh {a : α} (hfits : Entity.Fits a)
    (hkey : ObjKey.validate (Entity.key a) = .ok ()) :
    Tracked [] (some (Entity.fresh (Entity.key a))) := by
  refine ⟨hfits.fresh, by rw [Entity.key_fresh, hkey], fun c hc => ?_⟩
  have hzero : Entity.body (Entity.zero α) = (Entity.schema α).zero := Entity.body_make _ _
  unfold Entity.fresh
  rw [CheckedEntity.passes_setKey _ _ c hc, hzero]
  rfl

omit [LawfulEntity α] in
/-- An entity all of whose fields were checked. -/
theorem Tracked.created {a : α} (hfits : Entity.Fits a)
    (hvalid : Entity.validate (Entity.fullMask α) a = .ok ()) (named : List String) :
    Tracked (named ++ Entity.allFields α) (some a) := by
  obtain ⟨hkey, hchecks⟩ := CheckedEntity.validate_eq_ok_iff.1 hvalid
  refine ⟨hfits, hkey, fun c hc => ?_⟩
  have hnamed := Entity.isNamed_allFields c.place
  rw [hchecks c hc (c.has_gate hnamed), FieldPath.isNamed_append, hnamed, Bool.or_true,
    Bool.true_or]

/-- **An effect on a record keeps track of what has been checked.** -/
theorem Edit.Effect.tracked (h : d.Effect found left) (hfits : Entity.Fits d.subject)
    (hfound : Tracked named found) (hkey : ∀ b ∈ found, Entity.key b = Entity.key d.subject) :
    Tracked (d.naming named) left ∧ ∀ a ∈ left, Entity.key a = Entity.key d.subject := by
  cases h with
  | create hvalid =>
    refine ⟨.created hfits hvalid named, fun e he => ?_⟩
    rw [← Option.some.inj he]
    rfl
  | @update a b _ hvalid =>
    exact hfound.restored.merge hfits hvalid ((Entity.key_restored b).trans (hkey b rfl))
  | @putNew a _ hvalid =>
    obtain rfl : named = [] := hfound
    have hvalidKey := (CheckedEntity.validate_eq_ok_iff.1 hvalid).1
    exact (Tracked.fresh hfits hvalidKey).merge hfits hvalid (Entity.key_fresh _)
  | @putOver a b _ hvalid =>
    exact hfound.restored.merge hfits hvalid ((Entity.key_restored b).trans (hkey b rfl))
  | delete => exact ⟨rfl, fun _ he => nomatch he⟩

end Tracking

/-! ## Runs of edits -/

section Runs

variable (α : Type) [Entity α] [LawfulEntity α] [CheckedEntity α]

/-- What a store of entities of a type holds under each key is known, with what has been checked of
it. -/
def Registry.Sound (r : Registry) : Prop :=
  ∀ k, ∃ found : Option α, r.store.value? k = found.map Entity.encode ∧
    (∀ a ∈ found, k = Entity.storeKey (Entity.key a)) ∧ Tracked (r.named k) found

variable {α} {r : Registry}

omit [LawfulEntity α] in
theorem Registry.Sound.empty : Registry.empty.Sound α := fun _ =>
  ⟨none, congrArg (Option.map _) Std.ExtTreeMap.getElem?_empty, fun _ h => (nomatch h), rfl⟩

/-- **An edit keeps track of all records.** -/
theorem Registry.Sound.step (h : r.Sound α) {d : Edit α} (hfits : Entity.Fits d.subject) :
    (d.step r).Sound α := by
  obtain ⟨found, hvalue, hown, htracked⟩ := h d.storeKey
  have hkey : ∀ b ∈ found, Entity.key b = Entity.key d.subject := fun b hb =>
    Entity.storeKey_injective (hown b hb).symm
  have hfound : ∀ b ∈ found, Entity.Fits b := by
    rintro b hb
    cases hb
    exact htracked.1
  rcases d.ends hvalue hfound with ⟨e, hrun⟩ | ⟨left, heffect, hdone⟩
  · -- an edit that fails leaves everything as it was
    have hsame : d.step r = r := by
      unfold Edit.step
      rw [hrun]
      exact congrArg (Registry.mk r.store) (funext fun k => if_neg fun h => nomatch h.2)
    rw [hsame]
    exact h
  · intro k
    have hnamed : (d.step r).named k =
        if k = d.storeKey ∧ (d.run r.store).1.isOk = true then d.naming (r.named k)
        else r.named k := rfl
    rw [hnamed]
    have hstore : (d.step r).store.value? k = _ := hdone.value k
    rw [hstore]
    by_cases hk : k = d.storeKey
    · subst hk
      obtain ⟨hleft, hleftKey⟩ := heffect.tracked hfits htracked hkey
      rw [if_pos rfl, if_pos ⟨rfl, hdone.ok⟩]
      refine ⟨left, rfl, fun a ha => ?_, hleft⟩
      rw [hleftKey a ha]
      rfl
    · rw [if_neg hk, if_neg fun h => hk h.1]
      exact h k

/-- **Edits keep track of all records.** -/
theorem Edit.sound_runAll (edits : List (Edit α)) (hfits : ∀ d ∈ edits, Entity.Fits d.subject) :
    (runAll edits).Sound α := by
  have hrun : ∀ r : Registry, r.Sound α → (edits.foldl (fun r d => d.step r) r).Sound α := by
    induction edits with
    | nil => exact fun _ h => h
    | cons d edits ih =>
      intro r h
      exact ih (fun d hd => hfits d (List.mem_cons_of_mem _ hd)) _
        (h.step (hfits d List.mem_cons_self))
  exact hrun _ .empty

end Runs

/-! ## Required fields -/

/-- The addresses of the fields that must not be zero. -/
def Kind.required : Kind → List String
  | settings => ["2", "3", "4", "6", "7", "9"]
  | rateLimitSettings => ["3.2", "3.3", "4.1", "4.2"]
  | app | appInst | cloudlet | controller | flavor | operator => []

namespace Entity

open CheckedEntity

/-- The required fields are the leaves whose check refuses zero. -/
theorem required_eq (kind : Kind) :
    ((checks (α := kind.Obj)).filter fun c => !c.passes (schema kind.Obj).zero).map
      (fun c => (c.place.path .root).text) = kind.required := by
  cases kind <;> decide +kernel

/-- All checks pass if zero is allowed or the field has been named. -/
theorem forall_checks_iff (kind : Kind) (named : List String) :
    (∀ c ∈ checks (α := kind.Obj),
      ((c.place.path .root).isNamed named || c.passes (schema kind.Obj).zero) = true) ↔
      ∀ field ∈ kind.required, FieldPath.isNamed named ⟨field⟩ = true := by
  rw [← required_eq, List.forall_mem_map]
  refine forall_congr' fun c => ?_
  rw [List.mem_filter, and_imp]
  refine imp_congr_right fun _ => ?_
  cases c.passes (schema kind.Obj).zero with
  | false => rw [Bool.or_false]; exact ⟨fun h _ => h, fun h => h rfl⟩
  | true => rw [Bool.or_true]; exact ⟨fun _ h => (nomatch h), fun _ => rfl⟩

/-- **How valid what is stored is.** After any edits on the entities of a kind, every record of the
store is an entity under its own key, which is allowed. It passes the check of all fields exactly if
each field that must not be zero has been named since the record came to be: a creation names all
fields, a put over nothing only those it selects. -/
theorem stored_valid_iff (kind : Kind) (edits : List (Edit kind.Obj))
    (hfits : ∀ d ∈ edits, Fits d.subject) (k : String) (stored : Stored)
    (h : (Edit.runAll edits).store.contents[k]? = some stored) :
    ∃ a : kind.Obj, decode k stored.value = .ok a ∧ k = storeKey (key a) ∧
      ObjKey.validate (key a) = .ok () ∧
      (validate (fullMask kind.Obj) a = .ok () ↔ ∀ field ∈ kind.required,
        FieldPath.isNamed ((Edit.runAll edits).named k) ⟨field⟩ = true) := by
  obtain ⟨found, hvalue, hown, htracked⟩ := Edit.sound_runAll edits hfits k
  have hstored : found.map encode = some stored.value := by
    rw [← hvalue, Store.value?, h]
    rfl
  obtain ⟨b, rfl, hencode⟩ := Option.map_eq_some_iff.1 hstored
  obtain ⟨hb, hkey, hleaf⟩ := htracked.restored
  refine ⟨restored b, ?_, by rw [key_restored]; exact hown b rfl, hkey, ?_⟩
  · rw [← hencode]
    exact decode_encode htracked.1 k
  · rw [validate_eq_ok_iff, and_iff_right hkey, ← forall_checks_iff]
    refine forall_congr' fun c => imp_congr_right fun hc => ?_
    rw [← hleaf c hc]
    exact ⟨fun h => h (c.has_gate (isNamed_allFields c.place)), fun h _ => h⟩

namespace HalfSettled

/-- The settings of a new region, of which only the last field is asked for. -/
def first : Edit Kind.settings.Obj := .put Settings.initial ["9"]

/-- The other required fields. -/
def second : Edit Kind.settings.Obj := .update Settings.initial ["2", "3", "4", "6", "7"]

/-- What the first edit stores. -/
def begun : Kind.settings.Obj :=
  { zero Settings with maxTrackedDmeClients := Settings.initial.maxTrackedDmeClients }

/-- What the second edit stores. -/
def finished : Kind.settings.Obj := { Settings.initial with autoDeployOffsetSec := .zero }

/-- The store key of the settings. -/
def place : String := "Settings/settings"

end HalfSettled

/-- Settings that are put in halves are valid once the second half is there. -/
theorem stored_valid_iff_of_settings :
    (Edit.runAll [HalfSettled.first, HalfSettled.second]).store.contents[HalfSettled.place]? =
        some ⟨encode HalfSettled.finished, 2, 1, 2⟩ ∧
      ∃ a : Kind.settings.Obj,
        decode HalfSettled.place (encode HalfSettled.finished) = .ok a ∧
          validate (fullMask Kind.settings.Obj) a = .ok () := by
  obtain ⟨a, hdecode, -, -, hvalid⟩ := stored_valid_iff .settings
    [HalfSettled.first, HalfSettled.second] (by decide +kernel) HalfSettled.place
    ⟨encode HalfSettled.finished, 2, 1, 2⟩ (by decide +kernel)
  exact ⟨by decide +kernel, a, hdecode, hvalid.2 (by decide +kernel)⟩

/-- **Not all that is stored is valid**: a put over nothing stores zeros that no check has seen. -/
theorem stored_unchecked :
    ¬ ∀ (kind : Kind) (edits : List (Edit kind.Obj)) (k : String) (stored : Stored),
      (Edit.runAll edits).store.contents[k]? = some stored →
        ∃ a : kind.Obj, decode k stored.value = .ok a ∧
          validate (fullMask kind.Obj) a = .ok () := by
  intro h
  obtain ⟨a, hdecode, hvalid⟩ := h .settings [HalfSettled.first] HalfSettled.place
    ⟨encode HalfSettled.begun, 1, 1, 1⟩ (by decide +kernel)
  have hread : (decode HalfSettled.place (encode HalfSettled.begun) :
      StoreResult Kind.settings.Obj).toOption = some HalfSettled.begun := by decide +kernel
  have hbegun : some a = some HalfSettled.begun := by
    rw [← hread]
    exact (congrArg Except.toOption hdecode).symm
  rw [Option.some.inj hbegun] at hvalid
  have hinvalid : (validate (fullMask Kind.settings.Obj) HalfSettled.begun).isOk = false := by
    decide +kernel
  have hisOk := congrArg Except.isOk hvalid
  rw [hinvalid] at hisOk
  cases hisOk

end Entity

end Inventory
