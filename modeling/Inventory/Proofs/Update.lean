import Inventory.Entity.Cloudlet
import Inventory.Proofs.Leaves
import Inventory.Proofs.Requests
import Inventory.Proofs.Snapshot

/-!
# Updates lose no write

An update reads a record, replaces the selected leaves of what it found, and writes the result
back on the condition that the record still has the revision it was found at. Between the two
steps other clients may do anything.

* `Store.update_of_closed`, `update_of_absent`, `update_of_moved`, `update_of_current`: the
  conditional write is refused, for one of three reasons, or it is a commit of one put.
* `Op.modRevision_eq_iff`: **a record has the revision it was found at exactly if nothing has
  changed its key since**; deleting and creating it again counts as a change.
* `Entity.replaced_iff`: what an update writes is the one entity that has the leaves it should have.
* `Entity.update_loses_no_write`: an update that succeeds replaced the selected leaves of what was
  stored right before its write, and nothing else; one whose record was changed meanwhile is
  refused.
-/

namespace Inventory

/-! ## The conditional write -/

namespace Store

variable {s : Store} {k : String} {value : Bytes} {found stored : Stored} {rev : Revision}

theorem update_of_closed (h : s.closed = true) (k : String) (value : Bytes) (rev : Revision) :
    s.update k value rev = (.error (.unavailable "store is closed"), s) :=
  ifOpen_of_closed h

theorem update_of_absent (ho : s.closed = false) (h : s.contents[k]? = none) :
    s.update k value rev = (.error (.notFound k), s) := by
  unfold update
  rw [ifOpen_of_open ho, h]

/-- The wording of a record that is not at the revision that was expected. -/
def movedMessage (k : String) (moved expected : Revision) : String :=
  "key " ++ k ++ " is at " ++ moved.text ++ ", expected " ++ expected.text

theorem update_of_moved (ho : s.closed = false) (h : s.contents[k]? = some stored)
    (hpos : 0 < rev) (hne : stored.modRevision ≠ rev) :
    s.update k value rev = (.error (.conflict (movedMessage k stored.modRevision rev)), s) := by
  have hzero : rev.isZero = false := beq_eq_false_iff_ne.2 (Nat.ne_of_gt hpos)
  unfold update
  rw [ifOpen_of_open ho, h]
  simp only [hzero, Bool.not_false, Bool.true_and, bne_iff_ne, ne_eq, hne, not_false_eq_true,
    if_true]
  rfl

theorem update_of_current (ho : s.closed = false) (h : s.contents[k]? = some stored) :
    s.update k value stored.modRevision = s.commitOk [.put k value] := by
  unfold update
  rw [ifOpen_of_open ho, h]
  simp

/-- A commit of one put. -/
theorem commitOk_put (s : Store) (k : String) (value : Bytes) :
    s.commitOk [.put k value] = (.ok s.revision.next, { s with
      contents := s.contents.put k value s.revision.next
      revision := s.revision.next
      subscriptions := s.subscriptions.filterMap
        (Subscription.publish [⟨k, .put value, s.revision.next, false⟩]) }) := by
  unfold commitOk
  rw [commit_eq]
  rfl

end Store

/-- **A record has the revision it was found at exactly if its key was not changed since.** -/
theorem Op.modRevision_eq_iff {s : Store} {k : String} {found stored : Stored} {others : List Op}
    (hs : s.Stamped) (hfound : s.contents[k]? = some found)
    (hnow : (runAll others s).contents[k]? = some stored) :
    stored.modRevision = found.modRevision ↔ ¬ Changes others s k := by
  constructor
  · intro heq hchanges
    rcases hchanges.found with hgone | ⟨stored', hstored, hlater⟩
    · rw [hnow] at hgone
      cases hgone
    · -- the new revision is beyond the one that was found
      obtain rfl : stored = stored' := by
        rw [hnow] at hstored
        exact Option.some.inj hstored
      have hle : found.modRevision ≤ s.revision := (hs k found hfound).2
      rw [heq] at hlater
      exact absurd hlater (Nat.not_lt.2 hle)
  · intro hsame
    have hkept := unchanged hsame
    rw [hnow, hfound] at hkept
    rw [Option.some.inj hkept]

/-! ## What an update does -/

namespace Entity

variable {α : Type} [Entity α] {a : α} {mask : FieldMap} {others : List Op} {s : Store}
  {found : Stored} {rev : Revision}

/-- An update gets as far as its write: the request is in order, and under the key of the entity
stands a record that can be read. -/
structure Reaches (a : α) (mask : FieldMap) (s : Store) (found : Stored) : Prop where
  valid : validate mask a = .ok ()
  unclosed : s.closed = false
  stored : s.contents[storeKey (key a)]? = some found
  readable : ∃ current : α, decode (storeKey (key a)) found.value = .ok current

/-- An entity with the selected leaves of another one in the place of its own, and without the
addresses of what a request wants to change. -/
structure Replaced (mask : FieldMap) (current a updated : α) : Prop where
  fields : fields updated = []
  leaf : ∀ p : (schema α).Place, p.leaf (body updated) =
    if mask.hasPath (p.path .root) then p.kind.replaced (p.leaf (body current)) (p.leaf (body a))
    else p.leaf (body current)

/-- What an update under a new revision makes of a store: the record under the key of the entity
gets the selected leaves of the entity, and all that happens besides is that whoever watches the
key is told. -/
structure Updated (a : α) (mask : FieldMap) (rev : Revision) (now after : Store) : Prop where
  next : rev = now.revision.next
  revision : after.revision = rev
  record : ∃ (stored : Stored) (current updated : α),
    now.contents[storeKey (key a)]? = some stored ∧
      decode (storeKey (key a)) stored.value = .ok current ∧
      (∀ e : α, Replaced mask current a e ↔ e = updated) ∧
      after.contents[storeKey (key a)]? =
        some ⟨encode updated, rev, stored.createRevision, stored.version + 1⟩ ∧
      after.subscriptions = now.subscriptions.filterMap
        (Subscription.publish [⟨storeKey (key a), .put (encode updated), rev, false⟩])
  elsewhere : ∀ k : String, k ≠ storeKey (key a) → after.contents[k]? = now.contents[k]?
  closed : after.closed = now.closed

/-- There is one such entity. -/
theorem Replaced.unique {current updated updated' : α} (h : Replaced mask current a updated)
    (h' : Replaced mask current a updated') : updated = updated' := by
  have hbody : body updated = body updated' :=
    (schema α).ext_leaves fun p => (h.leaf p).trans (h'.leaf p).symm
  exact eq_of_body (h.fields.trans h'.fields.symm) hbody

theorem replaced_merge (fields : List String) (current a : α) :
    Replaced (.ofFields fields) current a (merge (.ofFields fields) current a) where
  fields := fields_make _ _
  leaf p := by
    have hbody : body (merge (.ofFields fields) current a) =
        ((schema α).copyFrom (.ofFields fields) .root (body current) (body a)).1 := by
      unfold merge clearFields
      rw [body_make, body_copyFrom]
    rw [hbody, Fields.leaf_copyFrom]

/-- What an update writes is the one entity with the selected leaves replaced. -/
theorem replaced_iff (fields : List String) (current a e : α) :
    Replaced (.ofFields fields) current a e ↔ e = merge (.ofFields fields) current a := by
  constructor
  · intro h
    exact h.unique (replaced_merge fields current a)
  · rintro rfl
    exact replaced_merge fields current a

/-- An update that gets as far as its write. -/
theorem Reaches.update_eq (h : Reaches a mask s found) (others : List Op) :
    ∃ current : α, decode (storeKey (key a)) found.value = .ok current ∧
      update a mask others s = lift ((Op.runAll others s).update (storeKey (key a))
        (encode (merge mask current a)) found.modRevision) := by
  obtain ⟨current, hcurrent⟩ := h.readable
  refine ⟨current, hcurrent, ?_⟩
  have hget : (s.get (storeKey (key a))).1 = .ok (some found) := by
    unfold Store.get
    rw [Store.ifOpen_of_open h.unclosed, h.stored]
  unfold update
  simp only [h.valid, hget, hcurrent]

/-- An update in order that does not get as far as its write fails, and only the others did
anything. -/
theorem reaches_or_fails (h : validate mask a = .ok ()) (others : List Op) (s : Store) :
    (∃ found, Reaches a mask s found) ∨
      ∃ e, update a mask others s = (.error e, Op.runAll others s) := by
  cases hclosed : s.closed with
  | true =>
    have hget : (s.get (storeKey (key a))).1 = .error (.unavailable "store is closed") := by
      unfold Store.get
      rw [Store.ifOpen_of_closed hclosed]
    refine .inr ⟨.ofKv (.unavailable "store is closed"), ?_⟩
    unfold update
    simp only [h, hget]
  | false =>
    have hget : (s.get (storeKey (key a))).1 = .ok s.contents[storeKey (key a)]? := by
      unfold Store.get
      rw [Store.ifOpen_of_open hclosed]
    cases hstored : s.contents[storeKey (key a)]? with
    | none =>
      refine .inr ⟨.notFound (storeKey (key a)), ?_⟩
      unfold update
      simp only [h, hget, hstored]
    | some found =>
      cases hcurrent : (decode (storeKey (key a)) found.value : StoreResult α) with
      | error e =>
        refine .inr ⟨e, ?_⟩
        unfold update
        simp only [h, hget, hstored, hcurrent]
      | ok current => exact .inl ⟨found, h, hclosed, hstored, current, hcurrent⟩

/-- A conditional write over the record that an update found, where it is still that record. -/
theorem Reaches.updated {fields : List String} (h : Reaches a (.ofFields fields) s found)
    (hopen : (Op.runAll others s).closed = false)
    (hsame : ¬ Op.Changes others s (storeKey (key a))) :
    (update a (.ofFields fields) others s).1 = .ok (Op.runAll others s).revision.next ∧
      Updated a (.ofFields fields) (Op.runAll others s).revision.next (Op.runAll others s)
        (update a (.ofFields fields) others s).2 := by
  obtain ⟨current, hcurrent, hupdate⟩ := h.update_eq others
  have hstored : (Op.runAll others s).contents[storeKey (key a)]? = some found := by
    rw [Op.unchanged hsame, h.stored]
  rw [hupdate, Store.update_of_current hopen hstored, Store.commitOk_put]
  refine ⟨rfl, rfl, rfl, ⟨found, current, _, hstored, hcurrent, replaced_iff fields current a,
    ?_, rfl⟩, fun k hk => ?_, rfl⟩
  · show ((Op.runAll others s).contents.put _ _ _)[_]? = _
    rw [Contents.getElem?_put, if_pos rfl, hstored]
    rfl
  · show ((Op.runAll others s).contents.put _ _ _)[k]? = _
    rw [Contents.getElem?_put, if_neg hk]

/-- A conditional write where the record is gone. -/
theorem Reaches.gone (h : Reaches a mask s found) (hopen : (Op.runAll others s).closed = false)
    (hnow : (Op.runAll others s).contents[storeKey (key a)]? = none) :
    update a mask others s = (.error (.notFound (storeKey (key a))), Op.runAll others s) := by
  obtain ⟨current, -, hupdate⟩ := h.update_eq others
  rw [hupdate, Store.update_of_absent hopen hnow]
  rfl

/-- A conditional write over a record that is not the one that an update found. -/
theorem Reaches.changed {stored : Stored} (h : Reaches a mask s found) (hs : s.Stamped)
    (hopen : (Op.runAll others s).closed = false)
    (hchanges : Op.Changes others s (storeKey (key a)))
    (hnow : (Op.runAll others s).contents[storeKey (key a)]? = some stored) :
    update a mask others s =
      (.error (.conflict (Store.movedMessage (storeKey (key a)) stored.modRevision
        found.modRevision)), Op.runAll others s) := by
  obtain ⟨current, -, hupdate⟩ := h.update_eq others
  have hmoved : stored.modRevision ≠ found.modRevision := fun heq =>
    (Op.modRevision_eq_iff hs h.stored hnow).1 heq hchanges
  -- a stored record never has revision zero, so the condition is looked at
  have hpos : 0 < found.modRevision := (hs _ found h.stored).1
  rw [hupdate, Store.update_of_moved hopen hnow hpos hmoved]
  rfl

/-- A conditional write where the store was closed. -/
theorem Reaches.closed (h : Reaches a mask s found)
    (hclosed : (Op.runAll others s).closed = true) :
    update a mask others s =
      (.error (.unavailable "store is closed"), Op.runAll others s) := by
  obtain ⟨current, -, hupdate⟩ := h.update_eq others
  rw [hupdate, Store.update_of_closed hclosed]
  rfl

/-- An update in order either reaches its write in an open store, over a record that was not
changed, or it fails and only the others did anything. -/
theorem unchanged_or_fails (hs : s.Stamped) (hvalid : validate mask a = .ok ())
    (others : List Op) :
    (∃ found, Reaches a mask s found ∧ (Op.runAll others s).closed = false ∧
        ¬ Op.Changes others s (storeKey (key a))) ∨
      ∃ e, update a mask others s = (.error e, Op.runAll others s) := by
  rcases reaches_or_fails hvalid others s with ⟨found, h⟩ | hfail
  · cases hopen : (Op.runAll others s).closed with
    | true => exact .inr ⟨_, h.closed hopen⟩
    | false =>
      by_cases hchanges : Op.Changes others s (storeKey (key a))
      · -- the key is absent or at another revision
        cases hnow : (Op.runAll others s).contents[storeKey (key a)]? with
        | none => exact .inr ⟨_, h.gone hopen hnow⟩
        | some stored => exact .inr ⟨_, h.changed hs hopen hchanges hnow⟩
      · exact .inl ⟨found, h, rfl, hchanges⟩
  · exact .inr hfail

/-- What comes of an update, whatever others do between its read and its write. -/
structure LosesNoWrite (a : α) (mask : FieldMap) (others : List Op) (s : Store) : Prop where
  /-- A success replaced the selected leaves of what was stored at the moment of the write, and
  the key had not changed since the read. -/
  success : ∀ rev, (update a mask others s).1 = .ok rev →
    (∃ found, Reaches a mask s found) ∧ ¬ Op.Changes others s (storeKey (key a)) ∧
      (Op.runAll others s).closed = false ∧
      Updated a mask rev (Op.runAll others s) (update a mask others s).2
  /-- A write over a record whose key was not changed succeeds. -/
  unchanged : ∀ found, Reaches a mask s found → (Op.runAll others s).closed = false →
    ¬ Op.Changes others s (storeKey (key a)) → ∃ rev, (update a mask others s).1 = .ok rev
  /-- A write over a record that is gone is refused, and nothing is stored. -/
  gone : ∀ found, Reaches a mask s found → (Op.runAll others s).closed = false →
    (Op.runAll others s).contents[storeKey (key a)]? = none →
    update a mask others s = (.error (.notFound (storeKey (key a))), Op.runAll others s)
  /-- A write over a record whose key was changed is refused, also if the record was deleted and
  created again, and nothing is stored. -/
  changed : ∀ found, Reaches a mask s found → (Op.runAll others s).closed = false →
    Op.Changes others s (storeKey (key a)) →
    ∀ stored, (Op.runAll others s).contents[storeKey (key a)]? = some stored →
      update a mask others s = (.error (.conflict (Store.movedMessage (storeKey (key a))
        stored.modRevision found.modRevision)), Op.runAll others s)
  /-- A write to a store that was closed is refused, and nothing is stored. -/
  closed : ∀ found, Reaches a mask s found → (Op.runAll others s).closed = true →
    update a mask others s = (.error (.unavailable "store is closed"), Op.runAll others s)
  /-- An update that does not get as far as its write stores nothing either. -/
  failure : ∀ e, (update a mask others s).1 = .error e →
    (update a mask others s).2 =
      match validate mask a with
      | .ok () => Op.runAll others s
      | .error _ => s

/-- **An update loses no write of others.** After any history, whatever others do between its read
and its write: if it succeeds, the record that was stored right before it has got the selected
leaves of the entity, and nothing else has changed; if the key was changed meanwhile, it is refused
and stores nothing. -/
theorem update_loses_no_write (before others : List Op) (a : α) (fields : List String) :
    LosesNoWrite a (.ofFields fields) others (Op.runAll before .empty) := by
  have hs : (Op.runAll before .empty).Stamped := Store.Stamped.empty.runAll before
  refine ⟨?success, ?unchanged, fun _ h ho hn => h.gone ho hn,
    fun _ h ho hc _ hn => h.changed hs ho hc hn, fun _ h hc => h.closed hc, ?failure⟩
  case success =>
    intro rev hok
    cases hvalid : validate (.ofFields fields) a with
    | error e =>
      rw [update_of_invalid hvalid] at hok
      cases hok
    | ok u =>
      rcases unchanged_or_fails hs hvalid others with ⟨found, h, hopen, hsame⟩ | ⟨e, hfail⟩
      · obtain ⟨hrev, hupdated⟩ := h.updated hopen hsame
        rw [hrev] at hok
        obtain rfl := Except.ok.inj hok
        exact ⟨⟨found, h⟩, hsame, hopen, hupdated⟩
      · rw [hfail] at hok
        cases hok
  case unchanged =>
    intro found h hopen hsame
    exact ⟨_, (h.updated hopen hsame).1⟩
  case failure =>
    intro e herr
    cases hvalid : validate (.ofFields fields) a with
    | error e' => rw [update_of_invalid hvalid]
    | ok u =>
      rcases unchanged_or_fails hs hvalid others with ⟨found, h, hopen, hsame⟩ | ⟨e', hfail⟩
      · rw [(h.updated hopen hsame).1] at herr
        cases herr
      · rw [hfail]

/-! ## Cloudlets at sea level -/

namespace SeaLevel

/-- Zero with a sign. -/
def negativeZero : Double := .ofMagnitude true 0

/-- The key of a cloudlet. -/
def cloudletKey : CloudletKey := ⟨⟨"o"⟩, "c"⟩

/-- A cloudlet at an altitude. -/
def cloudlet (altitude : Double) : Cloudlet :=
  ⟨[], cloudletKey, "", ⟨.zero, .zero, altitude⟩, ""⟩

/-- The key of the cloudlet in the store. -/
def place : String := storeKey (α := Cloudlet) cloudletKey

theorem storeKey_cloudlet (altitude : Double) : storeKey (key (cloudlet altitude)) = place := rfl

/-- A store with the cloudlet. -/
def stored (altitude : Double) : List Op := [.put place (encode (cloudlet altitude))]

/-- The cloudlet of a store. -/
def shown (s : Store) : Option Cloudlet :=
  s.contents[place]?.bind fun stored => (decode place stored.value).toOption

end SeaLevel

/-- A cloudlet is raised where nobody is in the way, and it is not where somebody has deleted it and
created it again. -/
theorem update_loses_no_write_at_sea :
    (Updated (SeaLevel.cloudlet (.ofNat 1)) (.ofFields ["5.3"]) 2
        (Op.runAll (SeaLevel.stored .zero) .empty)
        (update (SeaLevel.cloudlet (.ofNat 1)) (.ofFields ["5.3"]) []
          (Op.runAll (SeaLevel.stored .zero) .empty)).2) ∧
      ∃ message, (update (SeaLevel.cloudlet (.ofNat 1)) (.ofFields ["5.3"])
        (.delete SeaLevel.place :: SeaLevel.stored .zero)
        (Op.runAll (SeaLevel.stored .zero) .empty)).1 = .error (.conflict message) := by
  have hreaches : Reaches (SeaLevel.cloudlet (.ofNat 1)) (.ofFields ["5.3"])
      (Op.runAll (SeaLevel.stored .zero) .empty)
      ⟨encode (SeaLevel.cloudlet .zero), 1, 1, 1⟩ := by
    refine ⟨by decide +kernel, by decide +kernel, by decide +kernel, ?_⟩
    rw [SeaLevel.storeKey_cloudlet]
    have hsome : (decode SeaLevel.place (encode (SeaLevel.cloudlet .zero)) :
        StoreResult Cloudlet).toOption = some (SeaLevel.cloudlet .zero) := by decide +kernel
    cases hdecode : (decode SeaLevel.place (encode (SeaLevel.cloudlet .zero)) :
        StoreResult Cloudlet) with
    | error e => rw [hdecode] at hsome; cases hsome
    | ok current => exact ⟨current, rfl⟩
  constructor
  · have hok : (update (SeaLevel.cloudlet (.ofNat 1)) (.ofFields ["5.3"]) []
        (Op.runAll (SeaLevel.stored .zero) .empty)).1 = .ok 2 := by decide +kernel
    exact ((update_loses_no_write (SeaLevel.stored .zero) [] _ _).success 2 hok).2.2.2
  · have hnow : (Op.runAll (.delete SeaLevel.place :: SeaLevel.stored .zero)
        (Op.runAll (SeaLevel.stored .zero) .empty)).contents[
          storeKey (key (SeaLevel.cloudlet (.ofNat 1)))]? =
          some ⟨encode (SeaLevel.cloudlet .zero), 3, 3, 1⟩ := by
      rw [SeaLevel.storeKey_cloudlet]
      decide +kernel
    have hchanges : Op.Changes (.delete SeaLevel.place :: SeaLevel.stored .zero)
        (Op.runAll (SeaLevel.stored .zero) .empty)
        (storeKey (key (SeaLevel.cloudlet (.ofNat 1)))) := by
      rw [SeaLevel.storeKey_cloudlet]
      exact ⟨[⟨SeaLevel.place, .delete, 2, false⟩], by decide +kernel, _,
        List.mem_cons_self, rfl⟩
    have hrefused := (update_loses_no_write (SeaLevel.stored .zero)
      (.delete SeaLevel.place :: SeaLevel.stored .zero) (SeaLevel.cloudlet (.ofNat 1))
      ["5.3"]).changed _ hreaches (by decide +kernel) hchanges _ hnow
    exact ⟨_, congrArg Prod.fst hrefused⟩

/-- **A leaf that is to become zero keeps its sign**: literally, a selected leaf need not be
replaced by the one of the entity. -/
theorem negative_zero_stays :
    ¬ ∀ (before others : List Op) (a : Cloudlet) (fields : List String) (rev : Revision),
      (update a (.ofFields fields) others (Op.runAll before .empty)).1 = .ok rev →
        ∃ (stored : Stored) (updated : Cloudlet),
          (update a (.ofFields fields) others (Op.runAll before .empty)).2.contents[
              storeKey (key a)]? = some stored ∧
            decode (storeKey (key a)) stored.value = .ok updated ∧
            ∀ p : (schema Cloudlet).Place,
              (FieldMap.ofFields fields).hasPath (p.path .root) = true →
                p.leaf (body updated) = p.leaf (body a) := by
  intro h
  have hok : (update (SeaLevel.cloudlet .zero) (.ofFields ["5.3"]) []
      (Op.runAll (SeaLevel.stored SeaLevel.negativeZero) .empty)).1 = .ok 2 := by decide +kernel
  obtain ⟨stored, updated, hstored, hdecode, hleaf⟩ := h _ _ _ _ _ hok
  -- the altitude that is stored is still the negative zero
  have hshown : SeaLevel.shown (update (SeaLevel.cloudlet .zero) (.ofFields ["5.3"]) []
      (Op.runAll (SeaLevel.stored SeaLevel.negativeZero) .empty)).2 =
        some (SeaLevel.cloudlet SeaLevel.negativeZero) := by decide +kernel
  have hupdated : updated = SeaLevel.cloudlet SeaLevel.negativeZero := by
    have hsome : SeaLevel.shown (update (SeaLevel.cloudlet .zero) (.ofFields ["5.3"]) []
        (Op.runAll (SeaLevel.stored SeaLevel.negativeZero) .empty)).2 = some updated := by
      unfold SeaLevel.shown
      rw [← SeaLevel.storeKey_cloudlet .zero, hstored, Option.bind_some, hdecode]
      rfl
    rw [hshown] at hsome
    exact (Option.some.inj hsome).symm
  have haltitude := hleaf (.later (.later (.first (.inside (.later (.later (.first .here)))))))
    (by decide +kernel)
  rw [hupdated] at haltitude
  have hne : SeaLevel.negativeZero ≠ Double.zero := by decide +kernel
  exact hne haltitude

end Entity

end Inventory
