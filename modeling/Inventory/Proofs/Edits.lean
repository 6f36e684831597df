import Inventory.Proofs.Records
import Inventory.Proofs.Update

/-!
# Edits of one client

A client makes one edit after another, and nobody else writes. What an edit can do is said once:

* `Store.create_cases`, `Store.delete_cases`: an operation is refused, or it commits one write.
* `Edit.Effect`: **the five effects that an edit can have on its record.**
* `Edit.ends`: an edit fails and leaves the store alone, or it has an effect on its record and none
  on any other.
-/

namespace Inventory

/-! ## What an edit does -/

/-- An edit on the entities of a type: what is asked for, and which fields are to be changed. -/
inductive Edit (α : Type) where
  | create (a : α)
  | update (a : α) (names : List String)
  | put (a : α) (names : List String)
  | delete (a : α)

namespace Edit

variable {α : Type} [Entity α]

/-- The entity of an edit. -/
def subject : Edit α → α
  | create a | update a _ | put a _ | delete a => a

/-- Does an edit. -/
def run : Edit α → Store → StoreResult Revision × Store
  | create a, s => Entity.create a s
  | update a names, s => Entity.update a (.ofFields names) [] s
  | put a names, s => Entity.put a (.ofFields names) [] s
  | delete a, s => Entity.delete a s

/-- The store key of the record of an edit. -/
def storeKey (d : Edit α) : String := Entity.storeKey (Entity.key d.subject)

/-- What an edit that is not refused makes of a record. -/
inductive Effect : Edit α → Option α → Option α → Prop where
  | create {a : α} (valid : Entity.validate (Entity.fullMask α) a = .ok ()) :
    Effect (.create a) none (some a)
  | update {a b : α} {names : List String} (valid : Entity.validate (.ofFields names) a = .ok ()) :
    Effect (.update a names) (some b) (some (Entity.merge (.ofFields names) (Entity.restored b) a))
  | putNew {a : α} {names : List String} (valid : Entity.validate (.ofFields names) a = .ok ()) :
    Effect (.put a names) none
      (some (Entity.merge (.ofFields names) (Entity.fresh (Entity.key a)) a))
  | putOver {a b : α} {names : List String}
    (valid : Entity.validate (.ofFields names) a = .ok ()) :
    Effect (.put a names) (some b) (some (Entity.merge (.ofFields names) (Entity.restored b) a))
  | delete {a b : α} : Effect (.delete a) (some b) none

end Edit

/-- The value that a write leaves under its key. -/
def Write.value? : Write → Option Bytes
  | .put _ value => some value
  | .delete _ => none

namespace Store

/-- The value under a key. -/
def value? (s : Store) (k : String) : Option Bytes := s.contents[k]?.map (·.value)

/-- A commit of one write changes the value under its key, and no other. -/
theorem value?_commitOk (s : Store) (w : Write) (k : String) :
    (s.commitOk [w]).2.value? k = if k = w.key then w.value? else s.value? k := by
  have hafter : (s.commitOk [w]).2.contents[k]? =
      if k = w.key then w.leaves s.contents[w.key]? s.revision.next else s.contents[k]? := by
    unfold commitOk
    rw [commit_eq]
    exact Contents.getElem?_write s.contents s.revision.next w k
  unfold value?
  rw [hafter]
  split
  · cases w with
    | put key value => exact congrArg some (Stored.rewritten_value _ _ _)
    | delete key => rfl
  · rfl

/-- A creation is refused, or it puts a value under an absent key. -/
theorem create_cases (s : Store) (k : String) (value : Bytes) :
    (∃ e, s.create k value = (.error e, s)) ∨
      s.value? k = none ∧ s.create k value = s.commitOk [.put k value] := by
  unfold create
  cases ho : s.closed with
  | true => exact .inl ⟨_, ifOpen_of_closed ho⟩
  | false =>
    rw [ifOpen_of_open ho]
    by_cases hc : s.contents.contains k = true
    · exact .inl ⟨_, if_pos hc⟩
    · exact .inr ⟨congrArg _ (Contents.getElem?_of_not_contains hc), if_neg hc⟩

/-- A deletion is refused, or it deletes a value. -/
theorem delete_cases (s : Store) (k : String) :
    (∃ e, s.delete k = (.error e, s)) ∨
      s.value? k ≠ none ∧ s.delete k = s.commitOk [.delete k] := by
  unfold delete
  cases ho : s.closed with
  | true => exact .inl ⟨_, ifOpen_of_closed ho⟩
  | false =>
    rw [ifOpen_of_open ho]
    by_cases hc : s.contents.contains k = true
    · refine .inr ⟨fun hnone => ?_, if_pos hc⟩
      rw [Std.ExtTreeMap.contains_eq_isSome_getElem?, Option.map_eq_none_iff.1 hnone] at hc
      cases hc
    · exact .inl ⟨_, if_neg hc⟩

end Store

namespace Entity

variable {α : Type} [Entity α] {a current : α} {mask : FieldMap} {s : Store}

theorem put_of_closed (h : validate mask a = .ok ()) (hclosed : s.closed = true) :
    put a mask [] s = (.error (.ofKv (.unavailable "store is closed")), s) := by
  unfold put Store.get
  simp only [h, Store.ifOpen_of_closed hclosed]
  rfl

/-- A put over what it can start from. -/
theorem put_of_open (h : validate mask a = .ok ()) (hopen : s.closed = false)
    (hstart : start a s.contents[storeKey (key a)]? = .ok current) :
    put a mask [] s =
      lift (s.commitOk [.put (storeKey (key a)) (encode (merge mask current a))]) := by
  unfold put Store.get
  simp only [h, Store.ifOpen_of_open hopen]
  cases hfound : s.contents[storeKey (key a)]? with
  | none =>
    rw [hfound] at hstart
    obtain rfl := Except.ok.inj hstart
    exact congrArg lift (Store.ifOpen_of_open hopen)
  | some stored =>
    rw [hfound] at hstart
    have hdecode : decode (storeKey (key a)) stored.value = .ok current := hstart
    simp only [hdecode]
    exact congrArg lift (Store.ifOpen_of_open hopen)

end Entity

namespace Edit

variable {α : Type} [Entity α] {a : α} {names : List String} {d : Edit α} {s : Store}
  {found left : Option α}

/-- What comes of an edit that succeeds: its record is changed, and no other. -/
structure Done (d : Edit α) (left : Option α) (s : Store) : Prop where
  ok : (d.run s).1.isOk = true
  value : ∀ k, (d.run s).2.value? k =
    if k = d.storeKey then left.map Entity.encode else s.value? k

theorem Done.of_commit {w : Write} (h : d.run s = Entity.lift (s.commitOk [w]))
    (hkey : w.key = d.storeKey) (hvalue : w.value? = left.map Entity.encode) : d.Done left s := by
  refine ⟨by rw [h]; rfl, fun k => ?_⟩
  rw [h, ← hkey, ← hvalue]
  exact s.value?_commitOk w k

/-- What an edit can do to a store in which a record was found: it fails and leaves the store alone,
or it succeeds and has its effect on the record. -/
def Ends (d : Edit α) (found : Option α) (s : Store) : Prop :=
  (∃ e, d.run s = (.error e, s)) ∨ ∃ left, d.Effect found left ∧ d.Done left s

theorem Ends.create (hfound : s.value? (create a).storeKey = found.map Entity.encode) :
    (Edit.create a).Ends found s := by
  cases hvalid : Entity.validate (Entity.fullMask α) a with
  | error e => exact .inl ⟨e, Entity.create_of_invalid hvalid⟩
  | ok u =>
    have hrun : (Edit.create a).run s = _ := Entity.create_of_valid hvalid
    rcases s.create_cases (Entity.storeKey (Entity.key a)) (Entity.encode a) with
      ⟨e, h⟩ | ⟨hnone, h⟩
    · rw [h] at hrun
      exact .inl ⟨_, hrun⟩
    · rw [h] at hrun
      obtain rfl : found = none := Option.map_eq_none_iff.1 (hfound.symm.trans hnone)
      exact .inr ⟨some a, .create hvalid, .of_commit hrun rfl rfl⟩

theorem Ends.delete (hfound : s.value? (delete a).storeKey = found.map Entity.encode) :
    (Edit.delete a).Ends found s := by
  cases hvalid : Entity.validateKey a with
  | error e => exact .inl ⟨e, Entity.delete_of_invalid hvalid⟩
  | ok u =>
    have hrun : (Edit.delete a).run s = _ := Entity.delete_of_valid hvalid
    rcases s.delete_cases (Entity.storeKey (Entity.key a)) with ⟨e, h⟩ | ⟨hsome, h⟩
    · rw [h] at hrun
      exact .inl ⟨_, hrun⟩
    · rw [h] at hrun
      cases found with
      | none => exact absurd hfound hsome
      | some b => exact .inr ⟨none, .delete, .of_commit hrun rfl rfl⟩

variable [LawfulEntity α]

/-- An entity that is stored can be read. -/
theorem decode_of_value? {k : String} {b : α} (h : s.value? k = some (Entity.encode b))
    (hb : Entity.Fits b) : ∃ stored, s.contents[k]? = some stored ∧
      Entity.decode k stored.value = .ok (Entity.restored b) := by
  obtain ⟨stored, hstored, hvalue⟩ := Option.map_eq_some_iff.1 h
  exact ⟨stored, hstored, by rw [hvalue, Entity.decode_encode hb]⟩

theorem Ends.update (hfound : s.value? (update a names).storeKey = found.map Entity.encode)
    (hfits : ∀ b ∈ found, Entity.Fits b) : (Edit.update a names).Ends found s := by
  cases hvalid : Entity.validate (.ofFields names) a with
  | error e => exact .inl ⟨e, Entity.update_of_invalid hvalid [] s⟩
  | ok u =>
    rcases Entity.reaches_or_fails hvalid [] s with ⟨stored, h⟩ | hfail
    · cases found with
      | none =>
        have hstored : s.contents[Entity.storeKey (Entity.key a)]? = none :=
          Option.map_eq_none_iff.1 hfound
        rw [h.stored] at hstored
        cases hstored
      | some b =>
        -- what was found is what is written over
        obtain ⟨stored', hstored, hdecode⟩ := decode_of_value? hfound (hfits b rfl)
        obtain ⟨current, hcurrent, hrun⟩ := h.update_eq []
        rw [show Op.runAll [] s = s from rfl, Store.update_of_current h.unclosed h.stored] at hrun
        obtain rfl : stored = stored' := Option.some.inj (h.stored.symm.trans hstored)
        obtain rfl := Except.ok.inj (hcurrent.symm.trans hdecode)
        exact .inr ⟨_, .update hvalid, .of_commit hrun rfl rfl⟩
    · exact .inl hfail

theorem Ends.put (hfound : s.value? (put a names).storeKey = found.map Entity.encode)
    (hfits : ∀ b ∈ found, Entity.Fits b) : (Edit.put a names).Ends found s := by
  cases hvalid : Entity.validate (.ofFields names) a with
  | error e => exact .inl ⟨e, Entity.put_of_invalid hvalid [] s⟩
  | ok u =>
    cases ho : s.closed with
    | true => exact .inl ⟨_, Entity.put_of_closed hvalid ho⟩
    | false =>
      cases found with
      | none =>
        have hnone : s.contents[Entity.storeKey (Entity.key a)]? = none :=
          Option.map_eq_none_iff.1 hfound
        have hrun := Entity.put_of_open hvalid ho (by rw [hnone]; rfl)
        exact .inr ⟨_, .putNew hvalid, .of_commit hrun rfl rfl⟩
      | some b =>
        obtain ⟨stored, hstored, hdecode⟩ := decode_of_value? hfound (hfits b rfl)
        have hstart : Entity.start a s.contents[Entity.storeKey (Entity.key a)]? =
            .ok (Entity.restored b) := by
          rw [show s.contents[Entity.storeKey (Entity.key a)]? = some stored from hstored]
          exact hdecode
        exact .inr ⟨_, .putOver hvalid, .of_commit (Entity.put_of_open hvalid ho hstart) rfl rfl⟩

/-- **What an edit can do.** -/
theorem ends (d : Edit α) (hfound : s.value? d.storeKey = found.map Entity.encode)
    (hfits : ∀ b ∈ found, Entity.Fits b) : d.Ends found s := by
  cases d with
  | create a => exact .create hfound
  | update a names => exact .update hfound hfits
  | put a names => exact .put hfound hfits
  | delete a => exact .delete hfound

end Edit

end Inventory
