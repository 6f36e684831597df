import Inventory.Proofs.Alone
import Inventory.Proofs.Clients
import Inventory.Proofs.Label
import Inventory.Proofs.StoreKey

/-!
# Ids and labels are unique

Clients create instances and cloudlets, which get an id and labels, and delete instances. Nobody
else writes these records or reservations.

* `Contents.Kept`: the invariant that ties records to reservations. What a record needs is reserved,
  and no two records need the same.
* `Kept.rewrite`: **a record may be written with reservations that no other record needs.**
* `Errand.kept`: the transactions do nothing else, so they keep the invariant.
* `reservations_unique`: **ids and labels are unique** whatever clients do at the same time.
-/

namespace Inventory

/-! ## What clients do -/

/-- Creates an instance, which must be absent: it gets an id and a label, and both are reserved. -/
def AppInst.create (template : AppInst) (refusal : StoreError) : Program Unit := do
  if (← @Program.readEntity AppInst _ template.key).isSome then
    .fail refusal
  else
    let (done, inst) ← template.assignId
    .ofExcept done
    let (done, inst) ← inst.assignLabel
    .ofExcept done
    inst.labelReservation.reserve
    Program.writeEntity inst

/-- Deletes an instance, and gives up its id and its label; `absent` says what to do without one. -/
def AppInstKey.delete (k : AppInstKey) (absent : StoreResult Unit) : Program Unit := do
  match ← @Program.readEntity AppInst _ k with
  | none => .ofExcept absent
  | some inst =>
    @Program.eraseEntity AppInst _ k
    (Reservation.instanceId inst.uniqueId).release
    inst.labelReservation.release

/-- Creates a cloudlet, or replaces it: it gets a label, which is reserved. -/
def Cloudlet.create (template : Cloudlet) : Program Unit := do
  let (done, cloudlet) ← template.assignLabel
  .ofExcept done
  cloudlet.labelReservation.reserve
  Program.writeEntity cloudlet

/-- What a client does with a transaction. -/
inductive Errand where
  | createInstance (template : AppInst) (refusal : StoreError)
  | deleteInstance (k : AppInstKey) (absent : StoreResult Unit)
  | createCloudlet (template : Cloudlet)

namespace Errand

/-- The transaction that a client runs. -/
def program : Errand → Program Unit
  | createInstance template refusal => template.create refusal
  | deleteInstance k absent => k.delete absent
  | createCloudlet template => template.create

/-- No text is so long that stored values cannot tell its length: that takes `2 ^ 64` bytes. -/
def Fits : Errand → Prop
  | createInstance template _ =>
    Entity.Fits template ∧ ∀ cand ∈ template.key.idCandidates, Text.Fits (String.ofList cand)
  | deleteInstance _ _ => True
  | createCloudlet template => Entity.Fits template

instance : DecidablePred Fits
  | createInstance template _ => inferInstanceAs (Decidable (Entity.Fits template ∧
      ∀ cand ∈ template.key.idCandidates, Text.Fits (String.ofList cand)))
  | deleteInstance _ _ => isTrue trivial
  | createCloudlet template => inferInstanceAs (Decidable (Entity.Fits template))

end Errand

/-- The reservations that an instance needs. -/
def AppInst.reservations (i : AppInst) : List Reservation :=
  [.instanceId i.uniqueId, i.labelReservation]

/-- The reservations that a cloudlet needs. -/
def Cloudlet.reservations (c : Cloudlet) : List Reservation := [c.labelReservation]

/-! ## Records and what they need -/

/-- Whether records of instances or cloudlets stand under a store key. -/
def IsRecordKey (key : String) : Prop :=
  Text.hasPrefix (Entity.typePrefix AppInst) key = true ∨
    Text.hasPrefix (Entity.typePrefix Cloudlet) key = true

/-- Whether a store key is for the record of an instance or cloudlet, or for a reservation. -/
def IsGuarded (key : String) : Prop := IsRecordKey key ∨ ∃ r : Reservation, key = r.storeKey

theorem IsRecordKey.storeKey_ne {key : String} (h : IsRecordKey key) (r : Reservation) :
    key ≠ r.storeKey := by
  have hplain : ∀ name ∈ [Reservation.instanceIdType, Reservation.cloudletLabelType,
      Reservation.instanceLabelType],
      Entity.typeName AppInst ≠ name ∧ Entity.typeName Cloudlet ≠ name := by decide
  have hname : r.typeName ∈ [Reservation.instanceIdType, Reservation.cloudletLabelType,
      Reservation.instanceLabelType] := by
    cases r <;> simp [Reservation.typeName]
  rcases h with h | h
  · exact Reservation.storeKey_ne h (hplain _ hname).1
  · exact Reservation.storeKey_ne h (hplain _ hname).2

namespace Contents

variable {α : Type} [Entity α] {m m' : Contents} {key : String} {r : Reservation}

/-- The store holds an entity under a store key. -/
def Stores (m : Contents) (key : String) (a : α) : Prop :=
  Text.hasPrefix (Entity.typePrefix α) key = true ∧
    ∃ stored, m[key]? = some stored ∧ Entity.decode key stored.value = .ok a

variable (α) in
/-- What stands under a store key can be read, and is the entity of this store key. -/
def FiledAt (m : Contents) (key : String) : Prop :=
  ∀ stored, Text.hasPrefix (Entity.typePrefix α) key = true → m[key]? = some stored →
    ∃ a : α, Entity.decode key stored.value = .ok a ∧ Entity.storeKey (Entity.key a) = key

/-- The record under a store key needs a reservation. -/
inductive Needs (m : Contents) (key : String) : Reservation → Prop
  | ofInstance {i : AppInst} {r : Reservation} (h : m.Stores key i) (hr : r ∈ i.reservations) :
      Needs m key r
  | ofCloudlet {c : Cloudlet} {r : Reservation} (h : m.Stores key c) (hr : r ∈ c.reservations) :
      Needs m key r

theorem Stores.congr {a : α} (h : m.Stores key a) (hsame : m'[key]? = m[key]?) :
    m'.Stores key a := by
  obtain ⟨hkey, stored, hm, hdecode⟩ := h
  exact ⟨hkey, stored, hsame.trans hm, hdecode⟩

theorem FiledAt.congr (h : m.FiledAt α key) (hsame : m'[key]? = m[key]?) : m'.FiledAt α key :=
  fun stored hkey hm => h stored hkey (hsame.symm.trans hm)

theorem Needs.congr (h : m.Needs key r) (hsame : m'[key]? = m[key]?) : m'.Needs key r := by
  cases h with
  | ofInstance h hr => exact .ofInstance (h.congr hsame) hr
  | ofCloudlet h hr => exact .ofCloudlet (h.congr hsame) hr

theorem Needs.isRecordKey (h : m.Needs key r) : IsRecordKey key := by
  cases h with
  | ofInstance h _ => exact .inl h.1
  | ofCloudlet h _ => exact .inr h.1

theorem not_needs_of_absent (h : m[key]? = none) : ¬ m.Needs key r := by
  rintro (⟨⟨-, stored, hm, -⟩, -⟩ | ⟨⟨-, stored, hm, -⟩, -⟩)
  all_goals
    rw [h] at hm
    cases hm

theorem filedAt_of_absent (h : m[key]? = none) : m.FiledAt α key := by
  intro stored _ hm
  rw [h] at hm
  cases hm

section Written

variable [LawfulEntity α] {a : α}

/-- A store key is for one type of entities. -/
theorem not_prefix_of_ne {β : Type} [Entity β] [LawfulEntity β]
    (h : Entity.typeName α ≠ Entity.typeName β) (k : Entity.Key α) :
    ¬ Text.hasPrefix (Entity.typePrefix β) (Entity.storeKey k) = true := by
  intro hkey
  obtain ⟨rest, hsplit⟩ := Entity.splitStoreKey_of_prefix hkey
  rw [Entity.splitStoreKey_storeKey] at hsplit
  exact h (Prod.mk.inj (Option.some.inj hsplit)).1

/-- What was written is read. -/
theorem filedAt_of_written (hfits : Entity.Fits a)
    (h : ∃ stored, m[Entity.storeKey (Entity.key a)]? = some stored ∧
      stored.value = Entity.encode a) :
    m.FiledAt α (Entity.storeKey (Entity.key a)) := by
  obtain ⟨stored, hm, hvalue⟩ := h
  intro stored' _ hm'
  rw [hm] at hm'
  obtain rfl := Option.some.inj hm'
  rw [hvalue, Entity.decode_encode hfits]
  exact ⟨_, rfl, congrArg Entity.storeKey (Entity.key_restored a)⟩

/-- Nothing but what was written is read. -/
theorem eq_restored_of_written (hfits : Entity.Fits a) {b : α}
    (h : ∃ stored, m[Entity.storeKey (Entity.key a)]? = some stored ∧
      stored.value = Entity.encode a)
    (hb : m.Stores (Entity.storeKey (Entity.key a)) b) : b = Entity.restored a := by
  obtain ⟨stored, hm, hvalue⟩ := h
  obtain ⟨-, stored', hm', hdecode⟩ := hb
  rw [hm] at hm'
  obtain rfl := Option.some.inj hm'
  rw [hvalue, Entity.decode_encode hfits] at hdecode
  exact (Except.ok.inj hdecode).symm

end Written

/-! ## The invariant -/

/-- Records can be read and stand under their own store keys. What they need is reserved, and no
two need the same. -/
structure Kept (m : Contents) : Prop where
  instances : ∀ key, m.FiledAt AppInst key
  cloudlets : ∀ key, m.FiledAt Cloudlet key
  made : ∀ key r, m.Needs key r → m[r.storeKey]?.isSome = true
  unshared : ∀ key key' r, m.Needs key r → m.Needs key' r → key = key'

theorem Kept.empty : Kept ∅ := by
  have habsent (key : String) : (∅ : Contents)[key]? = none := Std.ExtTreeMap.getElem?_empty
  exact ⟨fun key => filedAt_of_absent (habsent key), fun key => filedAt_of_absent (habsent key),
    fun key r h => absurd h (not_needs_of_absent (habsent key)),
    fun key _ r h _ => absurd h (not_needs_of_absent (habsent key))⟩

/-- What nobody reserved nobody needs. -/
theorem Kept.not_needed (h : m.Kept) (hr : m[r.storeKey]? = none) (key : String) :
    ¬ m.Needs key r := by
  intro hneeds
  have hmade := h.made key r hneeds
  rw [hr] at hmade
  cases hmade

/-- **A record may be written or deleted**, together with reservations that no other record needs,
if it has what it needs then. -/
theorem Kept.rewrite (h : m.Kept) {k : String} (hk : IsRecordKey k) (rs : List Reservation)
    (hsame : ∀ key, key ≠ k → (∀ r ∈ rs, key ≠ r.storeKey) → m'[key]? = m[key]?)
    (hown : ∀ r ∈ rs, ∀ key, m.Needs key r → key = k)
    (hneeds : ∀ r, m'.Needs k r → r ∈ rs ∧ m'[r.storeKey]?.isSome = true)
    (hinstance : m'.FiledAt AppInst k) (hcloudlet : m'.FiledAt Cloudlet k) : m'.Kept := by
  have hrecord : ∀ key, IsRecordKey key → key ≠ k → m'[key]? = m[key]? := fun key hkey hne =>
    hsame key hne fun r _ => hkey.storeKey_ne r
  have hbefore : ∀ key r, key ≠ k → m'.Needs key r → m.Needs key r := fun key r hne hr =>
    hr.congr (hrecord key hr.isRecordKey hne).symm
  refine ⟨fun key => ?_, fun key => ?_, fun key r hr => ?_, fun key key' r hr hr' => ?_⟩
  · by_cases hkey : key = k
    · rw [hkey]; exact hinstance
    · intro stored hprefix
      exact (h.instances key).congr (hrecord key (.inl hprefix) hkey) stored hprefix
  · by_cases hkey : key = k
    · rw [hkey]; exact hcloudlet
    · intro stored hprefix
      exact (h.cloudlets key).congr (hrecord key (.inr hprefix) hkey) stored hprefix
  · by_cases hkey : key = k
    · rw [hkey] at hr
      exact (hneeds r hr).2
    · have hold := hbefore key r hkey hr
      -- no other record needs what is written or given up here
      rw [hsame r.storeKey (hk.storeKey_ne r).symm fun r' hr' heq =>
        hkey (hown r' hr' key (Reservation.storeKey_injective heq ▸ hold))]
      exact h.made key r hold
  · -- what `k` needs now no other record needed before
    by_cases hkey : key = k
    · by_cases hkey' : key' = k
      · rw [hkey, hkey']
      · rw [hkey] at hr
        exact absurd (hown r (hneeds r hr).1 key' (hbefore key' r hkey' hr')) hkey'
    · by_cases hkey' : key' = k
      · rw [hkey'] at hr'
        exact absurd (hown r (hneeds r hr').1 key (hbefore key r hkey hr)) hkey
      · exact h.unshared key key' r (hbefore key r hkey hr) (hbefore key' r hkey' hr')

/-- What neither is a record nor a reservation does not matter. -/
theorem Kept.congr (h : m.Kept) (hsame : ∀ key, IsGuarded key → m'[key]? = m[key]?) : m'.Kept := by
  have hbefore : ∀ key r, m'.Needs key r → m.Needs key r := fun key r hr =>
    hr.congr (hsame key (.inl hr.isRecordKey)).symm
  refine ⟨fun key stored hkey => ?_, fun key stored hkey => ?_, fun key r hr => ?_,
    fun key key' r hr hr' => h.unshared key key' r (hbefore key r hr) (hbefore key' r hr')⟩
  · exact (h.instances key).congr (hsame key (.inl (.inl hkey))) stored hkey
  · exact (h.cloudlets key).congr (hsame key (.inl (.inr hkey))) stored hkey
  · rw [hsame r.storeKey (.inr ⟨r, rfl⟩)]
    exact h.made key r (hbefore key r hr)

end Contents

/-! ## What is written together -/

namespace Planned

variable {f : Reservation → Option Bytes} {rs : List Reservation} {ws : Planned} {key k : String}
  {value : Bytes}

/-- Plans something for each of some reservations. -/
def eachOf (f : Reservation → Option Bytes) (rs : List Reservation) (ws : Planned) : Planned :=
  rs.foldl (fun ws r => ws.insert r.storeKey (f r)) ws

/-- A record, and the reservations that are made with it. -/
def claim (rs : List Reservation) (key : String) (value : Bytes) : Planned :=
  (eachOf (fun r => some (Text.utf8 r.name)) rs ∅).insert key (some value)

/-- The end of a record, and of the reservations that are given up with it. -/
def giveUp (rs : List Reservation) (key : String) : Planned :=
  eachOf (fun _ => none) rs ((∅ : Planned).insert key none)

theorem getElem?_eachOf_of_ne (h : ∀ r ∈ rs, k ≠ r.storeKey) : (eachOf f rs ws)[k]? = ws[k]? := by
  induction rs generalizing ws with
  | nil => rfl
  | cons r rs ih =>
    have hrest : (eachOf f rs (ws.insert r.storeKey (f r)))[k]? =
        (ws.insert r.storeKey (f r))[k]? :=
      ih fun r' hr' => h r' (List.mem_cons_of_mem r hr')
    rw [Contents.getElem?_insert, if_neg (h r List.mem_cons_self)] at hrest
    exact hrest

theorem getElem?_eachOf_of_mem {r : Reservation} (h : r ∈ rs) :
    (eachOf f rs ws)[r.storeKey]? = some (f r) := by
  induction rs generalizing ws with
  | nil => cases h
  | cons r' rs ih =>
    by_cases hr : r ∈ rs
    · -- the last plan for a reservation counts
      exact ih hr
    · obtain rfl := (List.mem_cons.1 h).resolve_right hr
      have hrest : (eachOf f rs (ws.insert r.storeKey (f r)))[r.storeKey]? =
          (ws.insert r.storeKey (f r))[r.storeKey]? :=
        getElem?_eachOf_of_ne fun r' hr' heq => hr (Reservation.storeKey_injective heq ▸ hr')
      rw [Contents.getElem?_insert, if_pos rfl] at hrest
      exact hrest

end Planned

namespace Session.Commits

variable {t : Session} {before after : Store} {rev : Revision} {rs : List Reservation}
  {key : String}

/-- After a record was written with reservations they all are there, and nothing else changed. -/
theorem claimed {value : Bytes} (hc : t.Commits before rev after)
    (hw : t.writes = Planned.claim rs key value) :
    (∃ stored, after.contents[key]? = some stored ∧ stored.value = value) ∧
      (∀ r ∈ rs, after.contents[r.storeKey]?.isSome = true) ∧
      ∀ k, k ≠ key → (∀ r ∈ rs, k ≠ r.storeKey) → after.contents[k]? = before.contents[k]? := by
  unfold Planned.claim at hw
  refine ⟨hc.put ?_, fun r hr => ?_, fun k hk hrs => hc.unwritten ?_⟩
  · rw [hw, Contents.getElem?_insert, if_pos rfl]
  · have hput : ∃ new : Bytes, t.writes[r.storeKey]? = some (some new) := by
      rw [hw, Contents.getElem?_insert]
      split
      · exact ⟨value, rfl⟩
      · exact ⟨_, Planned.getElem?_eachOf_of_mem hr⟩
    obtain ⟨new, hput⟩ := hput
    obtain ⟨stored, hm, -⟩ := hc.put hput
    rw [hm]
    rfl
  · rw [hw, Contents.getElem?_insert, if_neg hk, Planned.getElem?_eachOf_of_ne hrs]
    exact Std.ExtTreeMap.getElem?_empty

/-- After a record was deleted with reservations it is gone, and nothing but these changed. -/
theorem gaveUp (hc : t.Commits before rev after) (hw : t.writes = Planned.giveUp rs key)
    (hkey : ∀ r ∈ rs, key ≠ r.storeKey) :
    after.contents[key]? = none ∧
      ∀ k, k ≠ key → (∀ r ∈ rs, k ≠ r.storeKey) → after.contents[k]? = before.contents[k]? := by
  unfold Planned.giveUp at hw
  refine ⟨hc.deleted ?_, fun k hk hrs => hc.unwritten ?_⟩
  · rw [hw, Planned.getElem?_eachOf_of_ne hkey, Contents.getElem?_insert, if_pos rfl]
  · rw [hw, Planned.getElem?_eachOf_of_ne hrs, Contents.getElem?_insert, if_neg hk]
    exact Std.ExtTreeMap.getElem?_empty

end Session.Commits

/-! ## What the transactions do -/

section Transactions

variable {s s' : Store} {t : Session} {rev rev' : Revision}

/-- An instance that was created has an id and a label that were not reserved, and these are
reserved with it. -/
theorem AppInst.create_ok {template : AppInst} {refusal : StoreError} (hs : s.closed = false)
    (h : (template.create refusal).run (.alone s (.start rev)) = (.ok (), .alone s t)) :
    ∃ inst : AppInst,
      (∃ id ∈ template.key.idCandidates, ∃ label ∈ Label.candidates template.key.labelBase,
        inst = { template with uniqueId := String.ofList id, dnsLabel := String.ofList label }) ∧
      (∀ r ∈ inst.reservations, s.contents[r.storeKey]? = none) ∧
      t.writes = Planned.claim inst.reservations (Entity.storeKey (Entity.key inst))
        (Entity.encode inst) := by
  have halone := Running.Alone.start hs rev
  unfold AppInst.create at h
  obtain ⟨found, r₁, hread, h₁⟩ := Program.run_bind_ok h
  obtain ⟨hfound, halone₁⟩ := halone.readEntity hread
  cases hf : found.isSome with
  | true => rw [hf] at h₁; cases h₁
  | false =>
    rw [hf] at h₁
    obtain ⟨⟨done, inst⟩, r₂, hassign, h₂⟩ := Program.run_bind_ok h₁
    obtain ⟨u, r₃, hdone, h₃⟩ := Program.run_bind_ok h₂
    obtain ⟨rfl, rfl⟩ := Program.run_ofExcept_ok hdone
    obtain ⟨id, hpick, rfl⟩ := Running.Alone.setTo_ok hassign
    obtain ⟨⟨idCand, hid, rfl⟩, hidFree, halone₂⟩ := halone₁.pickId hpick
    obtain ⟨⟨done, inst⟩, r₄, hassign', h₄⟩ := Program.run_bind_ok h₃
    obtain ⟨u, r₅, hdone, h₅⟩ := Program.run_bind_ok h₄
    obtain ⟨rfl, rfl⟩ := Program.run_ofExcept_ok hdone
    obtain ⟨label, hpick', rfl⟩ := Running.Alone.setTo_ok hassign'
    obtain ⟨⟨labelCand, hlabel, rfl⟩, -, hlabelFree, halone₃⟩ := halone₂.pick hpick'
    -- nothing but the id, the label and the instance is planned
    obtain ⟨u, r₆, hreserve, h₆⟩ := Program.run_bind_ok h₅
    have hend := (halone₃.write hreserve).write h₆
    refine ⟨_, ⟨idCand, hid, labelCand, hlabel, rfl⟩, fun r hr => ?_, hend.planned⟩
    rw [Planned.sees_empty, Option.map_eq_none_iff] at hidFree
    -- the label was looked up when the id was already planned
    rw [Planned.sees_insert] at hlabelFree
    split at hlabelFree
    · cases hlabelFree
    · rw [Planned.sees_empty, Option.map_eq_none_iff] at hlabelFree
      rcases List.mem_cons.1 hr with rfl | hr
      · exact hidFree
      · rw [List.mem_singleton.1 hr]
        exact hlabelFree

/-- An instance that is deleted gives up its id and its label. -/
theorem AppInstKey.delete_ok {k : AppInstKey} {absent : StoreResult Unit} (hs : s.closed = false)
    (h : (k.delete absent).run (.alone s (.start rev)) = (.ok (), .alone s t)) :
    t.writes = ∅ ∨
    ∃ inst : AppInst, s.contents.Stores (@Entity.storeKey AppInst _ k) inst ∧
      t.writes = Planned.giveUp inst.reservations (@Entity.storeKey AppInst _ k) := by
  have halone := Running.Alone.start hs rev
  unfold AppInstKey.delete at h
  obtain ⟨found, r₁, hread, h₁⟩ := Program.run_bind_ok h
  obtain ⟨hfound, halone₁⟩ := halone.readEntity hread
  cases found with
  | none =>
    obtain ⟨-, hr⟩ := Program.run_ofExcept_ok h₁
    rw [← hr] at halone₁
    exact .inl halone₁.planned
  | some inst =>
    obtain ⟨u, r₂, herase, h₂⟩ := Program.run_bind_ok h₁
    obtain ⟨u, r₃, hid, h₃⟩ := Program.run_bind_ok h₂
    have hend := ((halone₁.erase herase).erase hid).erase h₃
    rw [Planned.sees_empty] at hfound
    exact .inr ⟨inst, ⟨@Entity.hasPrefix_storeKey AppInst _ k, Program.entity?_some hfound.symm⟩,
      hend.planned⟩

/-- A cloudlet that was created has a label that was not reserved, and it is reserved with it. -/
theorem Cloudlet.create_ok {template : Cloudlet} (hs : s.closed = false)
    (h : template.create.run (.alone s (.start rev)) = (.ok (), .alone s t)) :
    ∃ cloudlet : Cloudlet,
      (∃ label ∈ Label.candidates template.key.labelBase,
        cloudlet = { template with dnsLabel := String.ofList label }) ∧
      (∀ r ∈ cloudlet.reservations, s.contents[r.storeKey]? = none) ∧
      t.writes = Planned.claim cloudlet.reservations (Entity.storeKey (Entity.key cloudlet))
        (Entity.encode cloudlet) := by
  have halone := Running.Alone.start hs rev
  unfold Cloudlet.create at h
  obtain ⟨⟨done, cloudlet⟩, r₁, hassign, h₁⟩ := Program.run_bind_ok h
  obtain ⟨u, r₂, hdone, h₂⟩ := Program.run_bind_ok h₁
  obtain ⟨rfl, rfl⟩ := Program.run_ofExcept_ok hdone
  obtain ⟨label, hpick, rfl⟩ := Running.Alone.setTo_ok hassign
  obtain ⟨⟨cand, hlabel, rfl⟩, -, hfree, halone₁⟩ := halone.pick hpick
  obtain ⟨u, r₃, hreserve, h₃⟩ := Program.run_bind_ok h₂
  have hend := (halone₁.write hreserve).write h₃
  refine ⟨_, ⟨cand, hlabel, rfl⟩, fun r hr => ?_, hend.planned⟩
  rw [Planned.sees_empty, Option.map_eq_none_iff] at hfree
  rw [List.mem_singleton.1 hr]
  exact hfree

end Transactions

@[simp] theorem AppInst.reservations_restored (i : AppInst) :
    (Entity.restored i).reservations = i.reservations := rfl

@[simp] theorem Cloudlet.reservations_restored (c : Cloudlet) :
    (Entity.restored c).reservations = c.reservations := rfl

namespace Contents.Kept

variable {s s' : Store} {t : Session} {rev : Revision}

/-- A record may be written with reservations that were not made yet, if it needs no others. -/
theorem claim (h : s.contents.Kept) (hc : t.Commits s rev s') {rs : List Reservation}
    {key : String} {value : Bytes} (hkey : IsRecordKey key)
    (hfresh : ∀ r ∈ rs, s.contents[r.storeKey]? = none) (hw : t.writes = Planned.claim rs key value)
    (hneeds : ∀ r, s'.contents.Needs key r → r ∈ rs) (hinstance : s'.contents.FiledAt AppInst key)
    (hcloudlet : s'.contents.FiledAt Cloudlet key) : s'.contents.Kept := by
  obtain ⟨-, hmade, hsame⟩ := hc.claimed hw
  have hown : ∀ r ∈ rs, ∀ key', s.contents.Needs key' r → key' = key := fun r hr key' hneed =>
    absurd hneed (h.not_needed (hfresh r hr) key')
  exact h.rewrite hkey rs hsame hown (fun r hr => ⟨hneeds r hr, hmade r (hneeds r hr)⟩) hinstance
    hcloudlet

/-- An instance may be written with an id and a label that were not reserved. -/
theorem put_instance (h : s.contents.Kept) (hc : t.Commits s rev s') {inst : AppInst}
    (hfits : Entity.Fits inst) (hfresh : ∀ r ∈ inst.reservations, s.contents[r.storeKey]? = none)
    (hw : t.writes =
      Planned.claim inst.reservations (Entity.storeKey (Entity.key inst)) (Entity.encode inst)) :
    s'.contents.Kept := by
  obtain ⟨hwritten, -, -⟩ := hc.claimed hw
  have hother : ¬ Text.hasPrefix (Entity.typePrefix Cloudlet)
      (Entity.storeKey (Entity.key inst)) = true := not_prefix_of_ne (by decide) _
  refine h.claim hc (.inl (Entity.hasPrefix_storeKey (Entity.key inst))) hfresh hw (fun r hr => ?_)
    (filedAt_of_written hfits hwritten) fun _ hprefix => absurd hprefix hother
  cases hr with
  | ofInstance hi hr =>
    rw [eq_restored_of_written hfits hwritten hi, AppInst.reservations_restored] at hr
    exact hr
  | ofCloudlet hcl _ => exact absurd hcl.1 hother

/-- A cloudlet may be written with a label that was not reserved. -/
theorem put_cloudlet (h : s.contents.Kept) (hc : t.Commits s rev s') {cloudlet : Cloudlet}
    (hfits : Entity.Fits cloudlet)
    (hfresh : ∀ r ∈ cloudlet.reservations, s.contents[r.storeKey]? = none)
    (hw : t.writes = Planned.claim cloudlet.reservations (Entity.storeKey (Entity.key cloudlet))
      (Entity.encode cloudlet)) : s'.contents.Kept := by
  obtain ⟨hwritten, -, -⟩ := hc.claimed hw
  have hother : ¬ Text.hasPrefix (Entity.typePrefix AppInst)
      (Entity.storeKey (Entity.key cloudlet)) = true := not_prefix_of_ne (by decide) _
  refine h.claim hc (.inr (Entity.hasPrefix_storeKey (Entity.key cloudlet))) hfresh hw
    (fun r hr => ?_) (fun _ hprefix => absurd hprefix hother) (filedAt_of_written hfits hwritten)
  cases hr with
  | ofInstance hi _ => exact absurd hi.1 hother
  | ofCloudlet hcl hr =>
    rw [eq_restored_of_written hfits hwritten hcl, Cloudlet.reservations_restored] at hr
    exact hr

/-- An instance may be deleted with its own id and label. -/
theorem delete_instance (h : s.contents.Kept) (hc : t.Commits s rev s') {k : AppInstKey}
    {inst : AppInst} (hstores : s.contents.Stores (@Entity.storeKey AppInst _ k) inst)
    (hw : t.writes = Planned.giveUp inst.reservations (@Entity.storeKey AppInst _ k)) :
    s'.contents.Kept := by
  have hk : IsRecordKey (@Entity.storeKey AppInst _ k) := .inl hstores.1
  obtain ⟨hgone, hsame⟩ := hc.gaveUp hw fun r _ => hk.storeKey_ne r
  exact h.rewrite hk inst.reservations hsame
    (fun r hr key hneeds => h.unshared key _ r hneeds (.ofInstance hstores hr))
    (fun r hr => absurd hr (not_needs_of_absent hgone)) (filedAt_of_absent hgone)
    (filedAt_of_absent hgone)

end Contents.Kept

/-! ## Many clients -/

namespace Label

/-- A candidate for a label is short. -/
theorem fits_candidate {base cand : List Char} (h : cand ∈ candidates base) :
    Text.Fits (String.ofList cand) := by
  have hlen := byteLength_candidate h
  have hmax : maxBytes = 63 := rfl
  unfold Text.Fits
  rw [Text.length_utf8_ofList]
  omega

end Label

/-- **The transactions of clients keep the invariant**, one at a time. -/
theorem Errand.kept {e : Errand} (he : e.Fits) {s s' : Store} {t : Session} {rev rev' : Revision}
    (hs : s.closed = false)
    (hrun : e.program.run (.alone s (.start rev)) = (.ok (), .alone s t))
    (hc : t.Commits s rev' s') (h : s.contents.Kept) : s'.contents.Kept := by
  cases e with
  | createInstance template refusal =>
    obtain ⟨inst, ⟨id, hid, label, hlabel, rfl⟩, hfresh, hw⟩ := AppInst.create_ok hs hrun
    obtain ⟨⟨hkey, hloc, huri, hflavor, -, -, hliveness, -⟩, hids⟩ := he
    refine h.put_instance hc ?_ hfresh hw
    exact ⟨hkey, hloc, huri, hflavor, Label.fits_candidate hlabel, hids id hid, hliveness, trivial⟩
  | deleteInstance k absent =>
    rcases AppInstKey.delete_ok hs hrun with hw | ⟨inst, hstores, hw⟩
    · -- there was nothing to delete
      refine h.congr fun key _ => hc.unwritten ?_
      rw [hw]
      exact Std.ExtTreeMap.getElem?_empty
    · exact h.delete_instance hc hstores hw
  | createCloudlet template =>
    obtain ⟨cloudlet, ⟨label, hlabel, rfl⟩, hfresh, hw⟩ := Cloudlet.create_ok hs hrun
    obtain ⟨hkey, huri, hloc, -, -⟩ := he
    refine h.put_cloudlet hc ?_ hfresh hw
    exact ⟨hkey, huri, hloc, Label.fits_candidate hlabel, trivial⟩

namespace Clients

variable {st : Clients}

/-- A move keeps the invariant if what is done from outside touches neither records nor
reservations. -/
theorem kept_move (h : st.Sound)
    (hcalls : ∀ c ∈ st.calls, ∃ e : Errand, e.Fits ∧ c.program = e.program) {m : Move}
    (hm : ∀ op, m = .op op → ∀ key ∈ op.targets, ¬ IsGuarded key) (hkept : st.store.contents.Kept) :
    (st.move m).store.contents.Kept := by
  rcases move_cases h m with ⟨op, hop, hs, -⟩ | ⟨hs, -⟩ | ⟨c, hc, t, rev, hcommits, -⟩
  · -- what is done from outside is done elsewhere
    rw [hs]
    exact hkept.congr fun key hkey =>
      Op.run_getElem?_of_not_target fun htarget => hm op hop key htarget hkey
  · rw [hs]
    exact hkept
  · -- the transaction would do the same with the store for itself
    obtain ⟨e, hfits, heq⟩ := hcalls c hc
    have hagain := hcommits.again
    rw [heq] at hagain
    exact Errand.kept hfits hcommits.opened hagain hcommits.commits hkept

theorem kept_run (h : st.Sound)
    (hcalls : ∀ c ∈ st.calls, ∃ e : Errand, e.Fits ∧ c.program = e.program) {moves : List Move}
    (hm : ∀ op, Move.op op ∈ moves → ∀ key ∈ op.targets, ¬ IsGuarded key)
    (hkept : st.store.contents.Kept) : (st.run moves).store.contents.Kept := by
  induction moves generalizing st with
  | nil => exact hkept
  | cons m moves ih =>
    refine ih (h.move m) (fun c' hc' => ?_) (fun op ho => hm op (List.mem_cons_of_mem m ho))
      (kept_move h hcalls (fun op ho => hm op (ho ▸ List.mem_cons_self)) hkept)
    obtain ⟨c, hc, heq⟩ := program_of_move hc'
    rw [heq]
    exact hcalls c hc

end Clients

/-- Ids and labels are unique, and all of them are reserved. -/
structure Contents.Unambiguous (m : Contents) : Prop where
  ids : ∀ (key key' : String) (i i' : AppInst), m.Stores key i → m.Stores key' i' → key ≠ key' →
    i.uniqueId ≠ i'.uniqueId
  labels : ∀ (key key' : String) (i i' : AppInst), m.Stores key i → m.Stores key' i' →
    key ≠ key' → i.key.cloudletKey = i'.key.cloudletKey → i.dnsLabel ≠ i'.dnsLabel
  cloudletLabels : ∀ (key key' : String) (c c' : Cloudlet), m.Stores key c → m.Stores key' c' →
    key ≠ key' → c.dnsLabel ≠ c'.dnsLabel
  ofInstance : ∀ (key : String) (i : AppInst), m.Stores key i →
    ∀ r ∈ i.reservations, m[r.storeKey]?.isSome = true
  ofCloudlet : ∀ (key : String) (c : Cloudlet), m.Stores key c →
    ∀ r ∈ c.reservations, m[r.storeKey]?.isSome = true

theorem Contents.Kept.unambiguous {m : Contents} (h : m.Kept) : m.Unambiguous := by
  refine ⟨fun key key' i i' hi hi' hne heq => ?_, fun key key' i i' hi hi' hne hcloudlet heq => ?_,
    fun key key' c c' hc hc' hne heq => ?_, fun key i hi r hr => h.made key r (.ofInstance hi hr),
    fun key c hc r hr => h.made key r (.ofCloudlet hc hr)⟩
  · refine hne (h.unshared key key' (.instanceId i.uniqueId) (.ofInstance hi (.head _)) ?_)
    rw [heq]
    exact .ofInstance hi' (.head _)
  · refine hne (h.unshared key key' i.labelReservation (.ofInstance hi (.tail _ (.head _))) ?_)
    have hlabel : i.labelReservation = i'.labelReservation := by
      unfold AppInst.labelReservation
      rw [hcloudlet, heq]
    rw [hlabel]
    exact .ofInstance hi' (.tail _ (.head _))
  · refine hne (h.unshared key key' c.labelReservation (.ofCloudlet hc (.head _)) ?_)
    have hlabel : c.labelReservation = c'.labelReservation := congrArg Reservation.cloudletLabel heq
    rw [hlabel]
    exact .ofCloudlet hc' (.head _)

/-- **Ids and labels are unique.** Any number of clients create instances and cloudlets and delete
instances, each with a transaction, and nothing else touches these records or reservations. Then
in whatever order their steps come, no two instances have the same id, no two instances on a
cloudlet the same label and no two cloudlets the same label, every id and label is reserved, and
every record can be read and stands under its own store key. What a client is told is what its
transaction gives. -/
theorem reservations_unique (calls : List Call) (moves : List Move)
    (hcalls : ∀ c ∈ calls, ∃ (policy : RetryPolicy) (e : Errand), e.Fits ∧
      c = .fresh policy e.program)
    (hmoves : ∀ op, Move.op op ∈ moves → ∀ key ∈ op.targets, ¬ IsGuarded key) :
    ((Clients.mk .empty calls).run moves).store.contents.Unambiguous ∧
    (∀ key, ((Clients.mk .empty calls).run moves).store.contents.FiledAt AppInst key ∧
      ((Clients.mk .empty calls).run moves).store.contents.FiledAt Cloudlet key) ∧
    ∀ (i : Nat) (c : Call) (result : StoreResult Revision),
      ((Clients.mk .empty calls).run moves).calls[i]? = some c → c.phase = .ended result →
        ∃ (e : Errand) (others : List (List Op)), c.program = e.program ∧
          (transact c.policy e.program ⟨.empty, others⟩).1 = result := by
  have hfresh : ∀ c ∈ (Clients.mk .empty calls).calls, c = .fresh c.policy c.program := by
    intro c hc
    obtain ⟨policy, e, -, rfl⟩ := hcalls c hc
    rfl
  have herrand : ∀ c ∈ (Clients.mk .empty calls).calls,
      ∃ e : Errand, e.Fits ∧ c.program = e.program := by
    intro c hc
    obtain ⟨policy, e, hfits, rfl⟩ := hcalls c hc
    exact ⟨e, hfits, rfl⟩
  have hkept := Clients.kept_run (.fresh .empty hfresh) herrand hmoves .empty
  refine ⟨hkept.unambiguous, fun key => ⟨hkept.instances key, hkept.cloudlets key⟩, ?_⟩
  intro i c result hc hended
  obtain ⟨⟨c₀, hc₀, heq⟩, others, hresult⟩ := Clients.call_result hfresh hc hended
  obtain ⟨e, -, he⟩ := herrand c₀ hc₀
  rw [heq, he] at hresult
  exact ⟨e, others, heq.trans he, hresult⟩

namespace Rush

/-- A cloudlet of one operator. -/
def cloudlet (name : String) : Cloudlet :=
  ⟨[], ⟨⟨"o"⟩, name⟩, "", ⟨.zero, .zero, .zero⟩, ""⟩

/-- An instance on a cloudlet. -/
def appInst : AppInst :=
  ⟨[], ⟨⟨⟨"d"⟩, "a", "1"⟩, (cloudlet "c").key⟩, (cloudlet "c").location, "", ⟨""⟩, "", "", .dynamic⟩

/-- Two cloudlets whose names are alike once they are labels, and an instance that comes and
goes. -/
def errands : List Errand :=
  [.createCloudlet (cloudlet "c"), .createCloudlet (cloudlet "c!"),
    .createInstance appInst (.alreadyExists "instance"), .deleteInstance appInst.key (.ok ())]

def clients : Clients := ⟨.empty, errands.map fun e => .fresh (.new 3) e.program⟩

/-- The second cloudlet finds the label free, but then the first one takes it. -/
def moves : List Move :=
  List.replicate 2 (.step 1) ++ List.replicate 5 (.step 0) ++ [.op (.put "m" [])] ++
    List.replicate 9 (.step 1) ++ [.step 2, .step 3]

end Rush

/-- Two cloudlets that want the same label, while an instance is about to be created. -/
theorem reservations_unique_in_a_rush :
    (∀ e ∈ Rush.errands, e.Fits) ∧
    (∀ op, Move.op op ∈ Rush.moves → ∀ key ∈ op.targets, ¬ IsGuarded key) ∧
    (Rush.clients.run Rush.moves).successes = 2 ∧
    (Rush.clients.run Rush.moves).store.contents.Unambiguous := by
  have hfits : ∀ e ∈ Rush.errands, e.Fits := by decide +kernel
  have hmoves : ∀ op, Move.op op ∈ Rush.moves → ∀ key ∈ op.targets, ¬ IsGuarded key := by
    intro op hop key hkey
    obtain rfl : op = .put "m" [] := by simpa [Rush.moves] using hop
    obtain rfl : key = "m" := List.mem_singleton.1 hkey
    rintro ((h | h) | ⟨r, h⟩)
    · exact absurd h (by decide)
    · exact absurd h (by decide)
    · have hsplit := r.splitStoreKey_storeKey
      rw [← h, show splitStoreKey "m" = none by decide] at hsplit
      cases hsplit
  refine ⟨hfits, hmoves, by decide +kernel, (reservations_unique Rush.clients.calls Rush.moves
    (fun c hc => ?_) hmoves).1⟩
  obtain ⟨e, he, rfl⟩ := List.mem_map.1 hc
  exact ⟨_, e, hfits e he, rfl⟩

end Inventory
