import Inventory.Proofs.Shares

/-!
# Two ways to what a cache holds

A cache comes to what it holds in one of two ways. A list tells it of the records that there are, in
the order of their keys; commits tell it of one change after another. Records are put under any
key and with any value: what a record is about is read from its value, and what a delete is about
from the key, so that a key of an entity can be spoken of in several places, or in a record that
nobody can read.

* `saidOf`: what is left of what events say of a key, one after another. A list says what puts of
  its records would say.
* `Cache.afterShares_get?`, `Cache.listed_get?`: **a cache holds of a key what was said of it
  last**, in commits as in a list.
* `Heeds.all`: what was said of a key in its own place follows the record there.
* `live_and_listed`: **a cache that has followed a history and one that has received the list of its
  end** differ, on a key that was spoken of in its own place only, just where the record in this
  place is there and cannot be read, and something was said of the key.
-/

namespace Inventory

/-! ## What is said of a key -/

section Said

variable {α : Type} [Entity α]

/-- The entity of a key, if a stored value reads as one. -/
def Entity.reads (k : Entity.Key α) (value : Bytes) : Option α :=
  match Entity.decode (Entity.storeKey k) value with
  | .ok a => if compare (Entity.key a) k = .eq then some a else none
  | .error _ => none

/-- What an event says of a key: the entity that it has now, or that it has none. An event says
nothing of other keys, and nothing at all if it cannot be read. -/
def WatchEvent.tells (k : Entity.Key α) (e : WatchEvent) : Option (Option α) :=
  match e.change with
  | .put value => (Entity.reads k value).map some
  | .delete =>
    match Entity.keyOfStoreKey α e.key with
    | .ok k' => if compare k' k = .eq then some none else none
    | .error _ => none

/-- What is left of what events say of a key, if something was known of it before. -/
def saidOf (k : Entity.Key α) (events : List WatchEvent) (known : Option α) : Option α :=
  events.foldl (fun known e => (e.tells k).getD known) known

/-- The records of a list as puts, in the order of the list. -/
def putsOf (rs : List KvRecord) : List WatchEvent :=
  rs.map fun r => ⟨r.key, .put r.value, r.modRevision, false⟩

/-- Events speak of a key of an entity in its own place only. -/
def InPlace (k : Entity.Key α) (events : List WatchEvent) : Prop :=
  ∀ e ∈ events, (e.tells k).isSome = true → e.key = Entity.storeKey k

instance (k : Entity.Key α) (events : List WatchEvent) : Decidable (InPlace k events) :=
  inferInstanceAs (Decidable (∀ e ∈ events, _ → _))

variable {k : Entity.Key α} {events early late : List WatchEvent} {known : Option α}

theorem WatchEvent.tells_put {e : WatchEvent} {value : Bytes} (h : e.change = .put value) :
    e.tells k = (Entity.reads k value).map some := by
  unfold tells
  rw [h]

/-- A delete in the place of a key says that the key has no entity. -/
theorem WatchEvent.tells_delete [LawfulEntity α] {e : WatchEvent} (h : e.change = .delete)
    (hkey : e.key = Entity.storeKey k) : e.tells k = some none := by
  unfold tells
  rw [h, hkey]
  simp only [Entity.keyOfStoreKey_storeKey, Std.ReflCmp.compare_self, if_true]

theorem saidOf_cons (e : WatchEvent) (es : List WatchEvent) (known : Option α) :
    saidOf k (e :: es) known = saidOf k es ((e.tells k).getD known) := rfl

theorem saidOf_append (early late : List WatchEvent) (known : Option α) :
    saidOf k (early ++ late) known = saidOf k late (saidOf k early known) :=
  List.foldl_append

/-- Events that all say one thing of a key, if they say anything. -/
theorem saidOf_of_agreed {v : Option α} (h : ∀ e ∈ events, ∀ w, e.tells k = some w → w = v)
    (hsaid : known = v ∨ ∃ e ∈ events, e.tells k = some v) : saidOf k events known = v := by
  induction events generalizing known with
  | nil =>
    rcases hsaid with hknown | ⟨e, he, -⟩
    · exact hknown
    · cases he
  | cons e es ih =>
    have hrest : ∀ f ∈ es, ∀ w, f.tells k = some w → w = v := fun f hf =>
      h f (List.mem_cons_of_mem e hf)
    rw [saidOf_cons]
    apply ih hrest
    cases htells : e.tells k with
    | some w =>
      have hw : w = v := h e List.mem_cons_self w htells
      exact .inl hw
    | none =>
      rcases hsaid with hknown | ⟨f, hf, hv⟩
      · exact .inl hknown
      · rcases List.mem_cons.1 hf with rfl | hf
        · rw [htells] at hv
          cases hv
        · exact .inr ⟨f, hf, hv⟩

theorem InPlace.append : InPlace k (early ++ late) ↔ InPlace k early ∧ InPlace k late := by
  unfold InPlace
  simp only [List.mem_append]
  constructor
  · intro h
    exact ⟨fun e he => h e (.inl he), fun e he => h e (.inr he)⟩
  · rintro ⟨hearly, hlate⟩ e (he | he)
    · exact hearly e he
    · exact hlate e he

end Said

/-! ## What a cache holds of a key -/

namespace Cache

variable {α : Type} [Entity α] {c : Cache α} {k : Entity.Key α} {rev : Revision}

theorem get?_congr {c c' : Cache α} (h : c.entries = c'.entries) (k : Entity.Key α) :
    c.get? k = c'.get? k := by
  unfold get?
  rw [h]

/-- An entity that was read is stored as it is. -/
theorem asStored_decoded {key : String} {value : Bytes} {a : α}
    (h : Entity.decode key value = .ok a) : asStored (Entity.key a) a = a := by
  have hsame : compare (Entity.key a) (Entity.key a) = .eq := Std.ReflCmp.compare_self
  unfold Entity.decode at h
  cases hv : (Shape.record (Entity.schema α)).decode value with
  | none =>
    rw [hv] at h
    cases h
  | some v =>
    rw [hv] at h
    have ha : Entity.make [] v = a := Except.ok.inj h
    unfold asStored
    rw [hsame, ← ha]
    show Entity.make [] (Entity.body (Entity.make [] v : α)) = _
    rw [Entity.body_make]

/-- Reading does not depend on where the value is stored. -/
theorem reads_eq (k : Entity.Key α) (key : String) (value : Bytes) :
    Entity.reads k value =
      (Entity.decode key value : StoreResult α).toOption.bind fun a =>
        if compare (Entity.key a) k = .eq then some a else none := by
  unfold Entity.reads Entity.decode
  cases (Shape.record (Entity.schema α)).decode value <;> rfl

/-- Storing an entity that was read. -/
theorem store_get? {key : String} {value : Bytes} {a : α} (h : Entity.decode key value = .ok a)
    (c : Cache α) (rev : Revision) (k : Entity.Key α) :
    (c.store (Entity.key a) rev a).1.get? k =
      ((Entity.reads k value).map some).getD (c.get? k) := by
  rw [reads_eq k key value, h]
  show _ = (((if compare (Entity.key a) k = .eq then some a else none).map some).getD _)
  by_cases hk : compare (Entity.key a) k = .eq
  · have heq : Entity.key a = k := Std.LawfulEqOrd.eq_of_compare hk
    rw [if_pos hk, ← heq]
    unfold get?
    rw [store_entry, asStored_decoded h]
    rfl
  · have hne : k ≠ Entity.key a := by
      rintro rfl
      exact hk Std.ReflCmp.compare_self
    rw [if_neg hk]
    unfold get?
    rw [store_other _ _ _ hne]
    rfl

theorem reads_of_error {key : String} {value : Bytes} {err : StoreError}
    (h : (Entity.decode key value : StoreResult α) = .error err) (k : Entity.Key α) :
    Entity.reads k value = none := by
  rw [reads_eq k key value, h]
  rfl

theorem remove_get? (c : Cache α) (k' k : Entity.Key α) :
    (c.remove k').1.get? k = if compare k' k = .eq then none else c.get? k := by
  by_cases hk : compare k' k = .eq
  · have heq : k' = k := Std.LawfulEqOrd.eq_of_compare hk
    rw [if_pos hk, ← heq]
    unfold get?
    rw [remove_entry]
    rfl
  · have hne : k ≠ k' := by
      rintro rfl
      exact hk Std.ReflCmp.compare_self
    rw [if_neg hk]
    unfold get?
    rw [c.remove_other hne]

/-- An event changes what a cache holds of a key by what it says of it. -/
theorem applyPart_get? (c : Cache α) (e : WatchEvent) (k : Entity.Key α) :
    (c.applyPart (e.decode α)).1.get? k = (e.tells k).getD (c.get? k) := by
  unfold WatchEvent.decode WatchEvent.tells
  cases e.change with
  | put value =>
    simp only
    cases hd : (Entity.decode e.key value : StoreResult α) with
    | error err =>
      rw [reads_of_error hd]
      rfl
    | ok a => exact store_get? hd c e.revision k
  | delete =>
    simp only
    cases Entity.keyOfStoreKey α e.key with
    | error err => rfl
    | ok k' =>
      refine (c.remove_get? k' k).trans ?_
      simp only
      split <;> rfl

theorem applyParts_get? (es : List WatchEvent) (c : Cache α) (k : Entity.Key α) :
    (applyParts (es.map (WatchEvent.decode α)) c).1.get? k = saidOf k es (c.get? k) := by
  induction es generalizing c with
  | nil => rfl
  | cons e es ih =>
    rw [saidOf_cons, ← applyPart_get?]
    exact ih (c.applyPart (e.decode α)).1

/-- What a cache hears changes its entries as the whole commit would. -/
theorem hear_entries (c : Cache α) (es : List WatchEvent) :
    (c.hear es).cache.entries = c.changedBy es := by
  unfold hear changedBy
  by_cases hshare : eventsUnder (Entity.typePrefix α) es = []
  · have hnothing : told α es = [] := by
      unfold told
      rw [hshare]
      rfl
    rw [if_pos hshare, hnothing]
    rfl
  · rw [if_neg hshare, ← told_markMore]
    exact applyCommit_entries _ c

theorem afterShares_entries (cs : List (List WatchEvent)) (c : Cache α) :
    (c.afterShares cs).entries = c.changedBy cs.flatten := by
  induction cs generalizing c with
  | nil => rfl
  | cons es cs ih =>
    rw [afterShares_cons, ih, List.flatten_cons]
    exact changedBy_append (c.hear_entries es)

/-- **A cache that is told of commits holds of a key what was said of it last.** -/
theorem afterShares_get? (cs : List (List WatchEvent)) (c : Cache α) (k : Entity.Key α) :
    (c.afterShares cs).get? k =
      saidOf k (eventsUnder (Entity.typePrefix α) cs.flatten) (c.get? k) := by
  have hentries : (c.afterShares cs).entries = (applyParts (told α cs.flatten) c).1.entries :=
    afterShares_entries cs c
  rw [get?_congr hentries]
  exact applyParts_get? _ c k

/-! ### Lists -/

/-- What a cache that has received the first records of a list holds of a key of which they
speak. -/
structure ListedSoFar (c : Cache α) (k : Entity.Key α) (done : List KvRecord) : Prop where
  listed : ∃ seen : Std.ExtTreeSet (Entity.Key α), c.listed = some seen ∧
    (k ∈ seen ↔ saidOf k (putsOf done) none ≠ none)
  held : saidOf k (putsOf done) none ≠ none → c.get? k = saidOf k (putsOf done) none

theorem ListedSoFar.start (c : Cache α) (k : Entity.Key α) : c.listStart.ListedSoFar k [] where
  listed := ⟨∅, rfl, fun h => absurd h Std.ExtTreeSet.not_mem_empty, fun h => absurd rfl h⟩
  held h := absurd rfl h

/-- The next record of a list. -/
theorem ListedSoFar.record {done : List KvRecord} (h : c.ListedSoFar k done) (r : KvRecord)
    (rev : Revision) :
    (c.receiveDelivery (.record r rev)).1.ListedSoFar k (done ++ [r]) := by
  obtain ⟨⟨seen, hseen, hiff⟩, hheld⟩ := h
  have hsaid : saidOf k (putsOf (done ++ [r])) none =
      ((Entity.reads k r.value).map some).getD (saidOf k (putsOf done) none) := by
    unfold putsOf
    rw [List.map_append, saidOf_append]
    rfl
  cases hd : (Entity.decode r.key r.value : StoreResult α) with
  | error err =>
    -- a record that cannot be read is left out
    have hreceive : (c.receiveDelivery (.record r rev)).1 = c := by
      unfold receiveDelivery Delivery.message?
      simp only [hd]
    rw [hreceive]
    rw [reads_of_error hd] at hsaid
    constructor
    case listed =>
      rw [hsaid]
      exact ⟨seen, hseen, hiff⟩
    case held =>
      rw [hsaid]
      exact hheld
  | ok a =>
    have hreceive : (c.receiveDelivery (.record r rev)).1 =
        ((c.noteListed (Entity.key a)).store (Entity.key a) rev a).1 := by
      unfold receiveDelivery Delivery.message?
      simp only [hd]
      rfl
    have hget := store_get? hd (c.noteListed (Entity.key a)) rev k
    have hread := reads_eq k r.key r.value
    rw [hd] at hread
    rw [hreceive]
    constructor
    case listed =>
      refine ⟨seen.insert (Entity.key a), ?_, ?_⟩
      · show c.listed.map _ = _
        rw [hseen]
        rfl
      · rw [Std.ExtTreeSet.mem_insert, hiff, hsaid, hread]
        by_cases hk : compare (Entity.key a) k = .eq
        · simp [hk, Except.toOption]
        · simp [hk, Except.toOption]
    case held =>
      intro hsome
      rw [hget, hsaid]
      rw [hsaid] at hsome
      cases hr : Entity.reads k r.value with
      | some b => rfl
      | none =>
        rw [hr] at hsome
        exact hheld hsome

/-- **A cache that has received a list holds of a key what was said of it last.** -/
theorem listed_get? (c : Cache α) (rs : List KvRecord) (rev : Revision) (k : Entity.Key α) :
    (c.afterDeliveries (Delivery.listing rs rev)).get? k = saidOf k (putsOf rs) none := by
  have hrecords (todo done : List KvRecord) (c : Cache α) (h : c.ListedSoFar k done) :
      (c.afterDeliveries (todo.map (.record · rev))).ListedSoFar k (done ++ todo) := by
    induction todo generalizing c done with
    | nil =>
      rw [List.append_nil]
      exact h
    | cons r todo ih =>
      have hrest := ih (done ++ [r]) _ (h.record r rev)
      rw [List.append_assoc] at hrest
      exact hrest
  obtain ⟨⟨seen, hseen, hiff⟩, hheld⟩ := hrecords rs [] _ (.start c k)
  rw [List.nil_append] at hiff hheld
  rw [afterDeliveries_listing]
  set reached := c.listStart.afterDeliveries (rs.map (.record · rev))
  have hend : (reached.listEnd rev).1.entries[k]? =
      if seen.contains k then reached.entries[k]? else none := by
    show (({ reached with listed := none } : Cache α).retain _).1.entries[k]? = _
    rw [retain_entry]
    simp only [hseen]
  unfold get? at hheld ⊢
  rw [hend]
  by_cases hk : k ∈ seen
  · rw [if_pos (Std.ExtTreeSet.contains_iff_mem.2 hk)]
    exact hheld (hiff.1 hk)
  · -- what was not listed is removed
    have hnone : saidOf k (putsOf rs) none = none := not_not.1 fun h => hk (hiff.2 h)
    rw [if_neg fun hc => hk (Std.ExtTreeSet.contains_iff_mem.1 hc), hnone]
    rfl

end Cache

/-! ## What is said in place -/

section Place

variable {α : Type} [Entity α] {k : Entity.Key α} {events : List WatchEvent} {known : Option α}
  {m : Std.ExtTreeMap String Bytes}

/-- What is known of a key agrees with the value in its own place, as far as this can be read. -/
structure Heeds (k : Entity.Key α) (m : Std.ExtTreeMap String Bytes) (known : Option α) :
    Prop where
  absent : m[Entity.storeKey k]? = none → known = none
  present : ∀ value a, m[Entity.storeKey k]? = some value → Entity.reads k value = some a →
    known = some a

/-- Values that read as the entity of a key stand in its own place only. -/
def ReadsInPlace (k : Entity.Key α) (m : Std.ExtTreeMap String Bytes) : Prop :=
  ∀ key value, m[key]? = some value → (Entity.reads k value).isSome = true →
    key = Entity.storeKey k

theorem getElem?_replay (m : Std.ExtTreeMap String Bytes) (e : WatchEvent) (key : String) :
    (e.replay m)[key]? =
      if key = e.key then (match e.change with | .put value => some value | .delete => none)
      else m[key]? := by
  unfold WatchEvent.replay
  cases e.change with
  | put value => exact Contents.getElem?_insert m e.key key value
  | delete =>
    show (m.erase e.key)[key]? = _
    rw [Std.ExtTreeMap.getElem?_erase]
    simp only [Std.compare_eq_iff_eq, eq_comm (a := key)]

theorem Heeds.congr {m' : Std.ExtTreeMap String Bytes} (h : Heeds k m known)
    (hsame : m'[Entity.storeKey k]? = m[Entity.storeKey k]?) : Heeds k m' known := by
  constructor
  case absent =>
    rw [hsame]
    exact h.absent
  case present =>
    rw [hsame]
    exact h.present

/-- A value in the place of a key, and what it reads as if it can be read. -/
theorem Heeds.put {value : Bytes} (hvalue : m[Entity.storeKey k]? = some value)
    (hread : ∀ a, Entity.reads k value = some a → known = some a) : Heeds k m known := by
  constructor
  case absent =>
    intro hnone
    rw [hvalue] at hnone
    cases hnone
  case present =>
    intro value' a hvalue' ha
    rw [hvalue] at hvalue'
    obtain rfl : value = value' := Option.some.inj hvalue'
    exact hread a ha

/-- An event that speaks of a key in its own place. -/
theorem Heeds.event [LawfulEntity α] (h : Heeds k m known) {e : WatchEvent}
    (hplace : (e.tells k).isSome = true → e.key = Entity.storeKey k) :
    Heeds k (e.replay m) ((e.tells k).getD known) := by
  by_cases hkey : Entity.storeKey k = e.key
  · have hnow := getElem?_replay m e (Entity.storeKey k)
    rw [if_pos hkey] at hnow
    cases hchange : e.change with
    | put value =>
      rw [hchange] at hnow
      refine .put hnow fun a hread => ?_
      rw [WatchEvent.tells_put hchange, hread]
      rfl
    | delete =>
      rw [hchange] at hnow
      rw [WatchEvent.tells_delete hchange hkey.symm]
      refine ⟨fun _ => rfl, fun value a hvalue _ => ?_⟩
      rw [hnow] at hvalue
      cases hvalue
  · -- an event elsewhere says nothing of the key
    have hsilent : e.tells k = none := by
      rw [← Option.not_isSome_iff_eq_none]
      intro hsome
      exact hkey (hplace hsome).symm
    rw [hsilent]
    refine h.congr ?_
    rw [getElem?_replay, if_neg hkey]

/-- **What was said of a key in its own place agrees with the value there**, as far as this can be
read. -/
theorem Heeds.all [LawfulEntity α] (h : Heeds k m known) (hplace : InPlace k events) :
    Heeds k (replay events m) (saidOf k events known) := by
  induction events generalizing m known with
  | nil => exact h
  | cons e es ih =>
    have hfirst := h.event (hplace e List.mem_cons_self)
    exact ih hfirst fun f hf => hplace f (List.mem_cons_of_mem e hf)

theorem ReadsInPlace.event (h : ReadsInPlace k m) {e : WatchEvent}
    (hplace : (e.tells k).isSome = true → e.key = Entity.storeKey k) :
    ReadsInPlace k (e.replay m) := by
  intro key value hvalue hread
  rw [getElem?_replay] at hvalue
  split at hvalue
  case isFalse hne => exact h key value hvalue hread
  case isTrue heq =>
    cases hchange : e.change with
    | delete =>
      rw [hchange] at hvalue
      cases hvalue
    | put value' =>
      rw [hchange] at hvalue
      obtain rfl : value' = value := Option.some.inj hvalue
      have htells : (e.tells k).isSome = true := by
        rw [WatchEvent.tells_put hchange, Option.isSome_map]
        exact hread
      rw [heq]
      exact hplace htells

theorem ReadsInPlace.all (h : ReadsInPlace k m) (hplace : InPlace k events) :
    ReadsInPlace k (replay events m) := by
  induction events generalizing m with
  | nil => exact h
  | cons e es ih =>
    exact ih (h.event (hplace e List.mem_cons_self)) fun f hf =>
      hplace f (List.mem_cons_of_mem e hf)

/-- The records of a list speak of a key as the values under the prefix do. -/
theorem inPlace_putsOf {m : Contents} :
    InPlace k (putsOf (m.scan (Entity.typePrefix α))) ↔
      ReadsInPlace k (m.under (Entity.typePrefix α)) := by
  have htells (r : KvRecord) :
      ((⟨r.key, .put r.value, r.modRevision, false⟩ : WatchEvent).tells k).isSome =
        (Entity.reads k r.value).isSome := by
    rw [WatchEvent.tells_put rfl, Option.isSome_map]
  constructor
  · intro h key value hvalue hread
    rw [Contents.getElem?_under] at hvalue
    split at hvalue
    case isFalse => cases hvalue
    case isTrue hkey =>
      obtain ⟨stored, hstored, rfl⟩ := Option.map_eq_some_iff.1 hvalue
      have hmem : (⟨key, stored.value, stored.modRevision⟩ : KvRecord) ∈
          m.scan (Entity.typePrefix α) := Contents.mem_scan.2 ⟨hkey, stored, hstored, rfl⟩
      refine h _ (List.mem_map_of_mem hmem) ?_
      rw [htells]
      exact hread
  · intro h e he hsome
    obtain ⟨r, hr, rfl⟩ := List.mem_map.1 he
    obtain ⟨hkey, stored, hstored, hrecord⟩ := Contents.mem_scan.1 hr
    rw [htells] at hsome
    refine h r.key r.value ?_ hsome
    rw [Contents.getElem?_under, if_pos hkey, hstored, hrecord]
    rfl

/-- **A list that speaks of a key in its own place only** says what can be read there. -/
theorem saidOf_putsOf {m : Contents} (h : ReadsInPlace k (m.under (Entity.typePrefix α))) :
    saidOf k (putsOf (m.scan (Entity.typePrefix α))) none =
      m[Entity.storeKey k]?.bind fun stored => Entity.reads k stored.value := by
  have hin := inPlace_putsOf.2 h
  -- whatever is said is said by the record in the place of the key
  have hsaid : ∀ e ∈ putsOf (m.scan (Entity.typePrefix α)), ∀ w, e.tells k = some w →
      w = m[Entity.storeKey k]?.bind fun stored => Entity.reads k stored.value := by
    intro e he w hw
    have hkey := hin e he (by rw [hw]; rfl)
    obtain ⟨r, hr, rfl⟩ := List.mem_map.1 he
    obtain ⟨-, stored, hstored, hrecord⟩ := Contents.mem_scan.1 hr
    have hplace : r.key = Entity.storeKey k := hkey
    have hvalue : r.value = stored.value := congrArg KvRecord.value hrecord
    obtain ⟨a, hread, rfl⟩ := Option.map_eq_some_iff.1 hw
    rw [← hplace, hstored, Option.bind_some, ← hvalue]
    exact hread.symm
  refine saidOf_of_agreed hsaid ?_
  cases hfound : m[Entity.storeKey k]? with
  | none => exact .inl rfl
  | some stored =>
    rw [Option.bind_some]
    cases hread : Entity.reads k stored.value with
    | none => exact .inl rfl
    | some a =>
      refine .inr ⟨⟨Entity.storeKey k, .put stored.value, stored.modRevision, false⟩, ?_, ?_⟩
      · have hmem : (⟨Entity.storeKey k, stored.value, stored.modRevision⟩ : KvRecord) ∈
            m.scan (Entity.typePrefix α) :=
          Contents.mem_scan.2 ⟨Entity.hasPrefix_storeKey k, stored, hfound, rfl⟩
        exact List.mem_map_of_mem hmem
      · show (Entity.reads k stored.value).map some = _
        rw [hread]
        rfl

/-- What a list says agrees with the value in the place of a key. -/
theorem heeds_putsOf {m : Contents} (h : ReadsInPlace k (m.under (Entity.typePrefix α))) :
    Heeds k (m.under (Entity.typePrefix α))
      (saidOf k (putsOf (m.scan (Entity.typePrefix α))) none) := by
  have hunder : (m.under (Entity.typePrefix α))[Entity.storeKey k]? =
      m[Entity.storeKey k]?.map (·.value) := by
    rw [Contents.getElem?_under, if_pos (Entity.hasPrefix_storeKey k)]
  rw [saidOf_putsOf h]
  constructor
  case absent =>
    intro hnone
    rw [hunder, Option.map_eq_none_iff] at hnone
    rw [hnone]
    rfl
  case present =>
    intro value a hvalue hread
    rw [hunder] at hvalue
    obtain ⟨stored, hstored, rfl⟩ := Option.map_eq_some_iff.1 hvalue
    rw [hstored, Option.bind_some, hread]

end Place

/-- Replaying the changes of operations under a prefix. -/
theorem Op.replay_under (ops : List Op) (s : Store) (scope : String) :
    replay (eventsUnder scope (log ops s).flatten) (s.contents.under scope) =
      (runAll ops s).contents.under scope := by
  induction ops generalizing s with
  | nil => rfl
  | cons op ops ih =>
    have hsplit : eventsUnder scope (log (op :: ops) s).flatten =
        eventsUnder scope (op.events s) ++ eventsUnder scope (log ops (op.run s).2).flatten := by
      rw [log, List.flatten_cons]
      exact List.filter_append ..
    rw [hsplit, replay_append, events, Contents.replay_writeAll, ← run_contents, ih, runAll_cons]

/-! ## A cache that is fed through a history -/

theorem Sync.leave_get? {α : Type} [Entity α] (sync : Sync) (c : Cache α) (k : Entity.Key α) :
    (sync.leave c).get? k = c.get? k := by
  unfold leave
  split <;> rfl

/-- The operations among some steps. -/
def FeedStep.ops (steps : List FeedStep) : List Op :=
  steps.filterMap fun
    | .op o => some o
    | .deliver => none

namespace Mirroring

variable {α : Type} [Entity α] {st : Mirroring α} {who : Subscriber} {s₀ : Store} {c₀ : Cache α}
  {done late : List Op}

/-- A cache has come so far in a history: it started with the list, and was told of the commits of
the operations `done`. Those of `late` wait. -/
structure Along (st : Mirroring α) (who : Subscriber) (s₀ : Store) (c₀ : Cache α)
    (done late : List Op) : Prop where
  abreast : st.feed.sync.Abreast who (Entity.typePrefix α) s₀ done late st.store
  cache : st.feed.cache = st.feed.sync.leave (c₀.afterShares (Op.log done s₀))

theorem Along.start (c : Cache α) (who : Subscriber) (s : Store) :
    (start c who s).Along who s (c.afterDeliveries (Sync.start who (Entity.typePrefix α) s).2.1)
      [] [] := by
  obtain ⟨hsync, hcache, -, hstore⟩ := Feed.start_parts c who s
  obtain ⟨habreast, -, -⟩ := Sync.start_abreast who (Entity.typePrefix α) s
  constructor
  case abreast =>
    show (Feed.start c who s).1.sync.Abreast _ _ _ _ _ (Feed.start c who s).2.2
    rw [hsync, hstore]
    exact habreast
  case cache =>
    show (Feed.start c who s).1.cache = (Feed.start c who s).1.sync.leave _
    rw [hsync, hcache]
    rfl

theorem Along.op (h : st.Along who s₀ c₀ done late) {op : Op} (hop : op.subscriber? ≠ some who) :
    (st.step (.op op)).Along who s₀ c₀ done (late ++ [op]) :=
  ⟨h.abreast.op hop, h.cache⟩

theorem Along.deliver (h : st.Along who s₀ c₀ done late) :
    (st.step .deliver).Along who s₀ c₀ (done ++ late) [] := by
  obtain ⟨habreast, hcache, -, -⟩ := Feed.deliver_abreast h.abreast h.cache
  refine ⟨habreast, ?_⟩
  rw [Op.log_append, Cache.afterShares_append]
  exact hcache

/-- Steps lead on from what has been delivered and what waits, if each of them does: an operation
waits for the next delivery, and a delivery delivers all that waits. -/
theorem run_parts {P : Mirroring α → List Op → List Op → Prop}
    (hop : ∀ st done late op, op.subscriber? ≠ some who → P st done late →
      P (st.step (.op op)) done (late ++ [op]))
    (hdeliver : ∀ st done late, P st done late → P (st.step .deliver) (done ++ late) [])
    (h : P st done late) {steps : List FeedStep}
    (hsteps : ∀ op, FeedStep.op op ∈ steps → op.subscriber? ≠ some who) :
    ∃ done' late', done' ++ late' = done ++ late ++ FeedStep.ops steps ∧
      P (st.run steps) done' late' := by
  induction steps generalizing st done late with
  | nil => exact ⟨done, late, (List.append_nil _).symm, h⟩
  | cons step steps ih =>
    have hrest : ∀ op, FeedStep.op op ∈ steps → op.subscriber? ≠ some who :=
      fun op hop => hsteps op (List.mem_cons_of_mem _ hop)
    cases step with
    | op o =>
      have hnext := hop st done late o (hsteps o List.mem_cons_self) h
      obtain ⟨done', late', hops, hrun⟩ := ih hnext hrest
      refine ⟨done', late', hops.trans ?_, hrun⟩
      show done ++ (late ++ [o]) ++ FeedStep.ops steps = done ++ late ++ (o :: FeedStep.ops steps)
      simp only [List.append_assoc, List.cons_append, List.nil_append]
    | deliver =>
      obtain ⟨done', late', hops, hrun⟩ := ih (hdeliver st done late h) hrest
      refine ⟨done', late', hops.trans ?_, hrun⟩
      rw [List.append_nil]
      rfl

theorem Along.run {steps : List FeedStep} (h : st.Along who s₀ c₀ done late)
    (hsteps : ∀ op, FeedStep.op op ∈ steps → op.subscriber? ≠ some who) :
    ∃ done' late', done' ++ late' = done ++ late ++ FeedStep.ops steps ∧
      (st.run steps).Along who s₀ c₀ done' late' :=
  run_parts (P := fun st => st.Along who s₀ c₀) (fun _ _ _ _ hop h => h.op hop)
    (fun _ _ _ h => h.deliver) h hsteps

/-- What a cache has come to that was told of a whole history. -/
theorem Along.finished (h : st.Along who s₀ c₀ done []) (k : Entity.Key α) :
    st.feed.cache.get? k =
      saidOf k (eventsUnder (Entity.typePrefix α) (Op.log done s₀).flatten) (c₀.get? k) := by
  rw [h.cache, Sync.leave_get?, Cache.afterShares_get?]

end Mirroring

/-! ## Live and listed -/

/-- How a cache that has followed a history compares, on a key, with one that has received the list
of its end: `before` and `after` is what the store held before and after the history, whose changes
are `history`. -/
structure Cache.Compares {α : Type} [Entity α] (live listed : Cache α) (before after : Contents)
    (history : List WatchEvent) (k : Entity.Key α) : Prop where
  /-- The one that has followed holds what was said of the key last, by the list it started with or
  by a change. -/
  told : live.get? k = saidOf k
    (putsOf (before.scan (Entity.typePrefix α)) ++
      eventsUnder (Entity.typePrefix α) history) none
  /-- The other one holds what the list of the end says of the key last. -/
  shown : listed.get? k = saidOf k (putsOf (after.scan (Entity.typePrefix α))) none
  /-- If only records in the place of the key were ever about it, the list says what can be read
  there. -/
  read : InPlace k (putsOf (before.scan (Entity.typePrefix α)) ++
      eventsUnder (Entity.typePrefix α) history) →
    listed.get? k = after[Entity.storeKey k]?.bind fun stored => Entity.reads k stored.value
  /-- Then the two differ just if a record is there that cannot be read, while something was said of
  the key since it was last deleted. -/
  differ : InPlace k (putsOf (before.scan (Entity.typePrefix α)) ++
      eventsUnder (Entity.typePrefix α) history) →
    (live.get? k ≠ listed.get? k ↔
      (∃ stored, after[Entity.storeKey k]? = some stored ∧
        Entity.reads k stored.value = none) ∧ live.get? k ≠ none)

theorem Cache.Compares.of_said {α : Type} [Entity α] [LawfulEntity α] {live listed : Cache α}
    {k : Entity.Key α} {ops : List Op} {s : Store}
    (hlive : live.get? k = saidOf k (eventsUnder (Entity.typePrefix α) (Op.log ops s).flatten)
      (saidOf k (putsOf (s.contents.scan (Entity.typePrefix α))) none))
    (hlisted : listed.get? k = saidOf k
      (putsOf ((Op.runAll ops s).contents.scan (Entity.typePrefix α))) none) :
    live.Compares listed s.contents (Op.runAll ops s).contents (Op.log ops s).flatten k := by
  have hread (hplace : InPlace k (putsOf (s.contents.scan (Entity.typePrefix α)) ++
      eventsUnder (Entity.typePrefix α) (Op.log ops s).flatten)) :
      listed.get? k = (Op.runAll ops s).contents[Entity.storeKey k]?.bind fun stored =>
        Entity.reads k stored.value := by
    obtain ⟨hbefore, hhistory⟩ := InPlace.append.1 hplace
    have hafter := (inPlace_putsOf.1 hbefore).all hhistory
    rw [Op.replay_under] at hafter
    rw [hlisted, saidOf_putsOf hafter]
  refine ⟨by rw [saidOf_append]; exact hlive, hlisted, hread, fun hplace => ?_⟩
  obtain ⟨hbefore, hhistory⟩ := InPlace.append.1 hplace
  have hheeds := (heeds_putsOf (inPlace_putsOf.1 hbefore)).all hhistory
  rw [Op.replay_under, ← hlive] at hheeds
  have hunder : ((Op.runAll ops s).contents.under (Entity.typePrefix α))[Entity.storeKey k]? =
      (Op.runAll ops s).contents[Entity.storeKey k]?.map (·.value) := by
    rw [Contents.getElem?_under, if_pos (Entity.hasPrefix_storeKey k)]
  obtain ⟨habsent, hpresent⟩ := hheeds
  rw [hunder] at habsent hpresent
  rw [hread hplace]
  cases hfound : (Op.runAll ops s).contents[Entity.storeKey k]? with
  | none =>
    rw [hfound] at habsent
    have hnone : live.get? k = none := habsent rfl
    simp [hnone]
  | some stored =>
    rw [hfound] at hpresent
    cases hr : Entity.reads k stored.value with
    | none => simp [hr]
    | some a =>
      have hsome : live.get? k = some a := hpresent stored.value a rfl hr
      simp [hr, hsome]

/-- **Live and listed.** A cache is fed from a store by a sync of its own, while others use the
store in any way and the commits are delivered at any time, in the end all of them. Then another
sync of the store is started for a new cache. -/
theorem live_and_listed (k : Kind) (c : Cache k.Obj) (who other : Subscriber) (s : Store)
    (steps : List FeedStep) (hsteps : ∀ op, FeedStep.op op ∈ steps → op.subscriber? ≠ some who)
    (hopen : ((Mirroring.start c who s).run (steps ++ [.deliver])).store.closed = false)
    (key : k.Key) :
    ((Mirroring.start c who s).run (steps ++ [.deliver])).feed.cache.Compares
      (Feed.start (.empty k.Obj) other
        ((Mirroring.start c who s).run (steps ++ [.deliver])).store).1.cache
      s.contents (Op.runAll (FeedStep.ops steps) s).contents
      (Op.log (FeedStep.ops steps) s).flatten key := by
  have hsplit : (Mirroring.start c who s).run (steps ++ [.deliver]) =
      ((Mirroring.start c who s).run steps).step .deliver := by
    unfold Mirroring.run
    rw [List.foldl_append]
    rfl
  rw [hsplit] at hopen ⊢
  obtain ⟨done, late, hops, hrun⟩ := (Mirroring.Along.start c who s).run hsteps
  have hend := hrun.deliver
  rw [hops, List.nil_append, List.nil_append] at hend
  set st := ((Mirroring.start c who s).run steps).step .deliver
  have hsame := hend.abreast.store
  rw [List.append_nil] at hsame
  -- a store that is open now has been open all the time
  have hwasOpen : s.closed = false := by
    cases hs : s.closed with
    | false => rfl
    | true =>
      have hclosed := (Store.later_runAll (FeedStep.ops steps) s).closed hs
      rw [← hsame.closed, hopen] at hclosed
      cases hclosed
  have hlist (who : Subscriber) {s : Store} (hs : s.closed = false) :
      (Sync.start who (Entity.typePrefix k.Obj) s).2.1 =
        Delivery.listing (s.contents.scan (Entity.typePrefix k.Obj)) s.revision := by
    obtain ⟨-, hlist, -⟩ := Sync.start_abreast who (Entity.typePrefix k.Obj) s
    rw [hlist, hs]
    rfl
  refine .of_said ?live ?listed
  case live =>
    rw [hend.finished key, hlist who hwasOpen, Cache.listed_get?]
  case listed =>
    obtain ⟨-, hcache, -, -⟩ := Feed.start_parts (.empty k.Obj) other st.store
    rw [hcache, Sync.leave_get?, hlist other hopen, Cache.listed_get?, hsame.contents]

namespace Strays

def who : Subscriber := .feed 0

/-- Who the new cache is fed for. -/
def other : Subscriber := .feed 1

def flavor (name : String) : Flavor := ⟨[], ⟨name⟩, 1, 1, 0⟩

/-- The key of a flavor. -/
def key (name : String) : Kind.flavor.Key := (flavor name).key

def place (name : String) : String := @Entity.storeKey Flavor _ (flavor name).key

/-- The record of a flavor is written over by one that cannot be read. Another flavor is put where
its record does not belong, and the record there is deleted. -/
def steps : List FeedStep :=
  [.op (.put (place "a") (Entity.encode (flavor "a"))), .deliver, .op (.put (place "a") [255]),
    .op (.put "Flavor/other" (Entity.encode (flavor "b"))), .op (.delete "Flavor/other")]

/-- A cache that was fed all the time, with the store in the end. -/
def lived : Mirroring Flavor :=
  (Mirroring.start (.empty Flavor) who .empty).run (steps ++ [.deliver])

/-- A cache that is new. -/
def fresh : Cache Flavor := (Feed.start (.empty Flavor) other lived.store).1.cache

theorem raw (op : Op) (h : FeedStep.op op ∈ steps) :
    op.subscriber? ≠ some who ∧ ∀ w ∈ op.asks, Text.hasPrefix (Entity.typePrefix Flavor) w.key := by
  simp only [steps, List.mem_cons, FeedStep.op.injEq, reduceCtorEq, List.not_mem_nil, or_false,
    false_or] at h
  rcases h with rfl | rfl | rfl | rfl <;>
    exact ⟨(Option.some_ne_none who).symm, by decide +kernel⟩

end Strays

open Strays in
/-- A record that was written over by one that cannot be read, and a record that went from a place
where it did not belong. -/
theorem live_and_listed_of_strays :
    (∀ op, FeedStep.op op ∈ steps → op.subscriber? ≠ some who) ∧ lived.store.closed = false ∧
    InPlace (key "a") (putsOf ((∅ : Contents).scan (Entity.typePrefix Flavor)) ++
      eventsUnder (Entity.typePrefix Flavor) (Op.log (FeedStep.ops steps) .empty).flatten) ∧
    lived.feed.cache.Compares fresh ∅ (Op.runAll (FeedStep.ops steps) .empty).contents
      (Op.log (FeedStep.ops steps) .empty).flatten (key "a") := by
  have hothers : ∀ op, FeedStep.op op ∈ steps → op.subscriber? ≠ some who := fun op hop =>
    (raw op hop).1
  have hopen : lived.store.closed = false := by decide +kernel
  exact ⟨hothers, hopen, by decide +kernel,
    live_and_listed .flavor (.empty Flavor) who other .empty steps hothers hopen (key "a")⟩

open Strays in
/-- A list does not always show what a cache holds that has followed the store: raw operations on
the keys of a type can leave a cache with a flavor whose record is overwritten, and with one whose
record is gone. -/
theorem live_holds_what_no_list_shows :
    (∀ op, FeedStep.op op ∈ steps → op.subscriber? ≠ some who ∧
      ∀ w ∈ op.asks, Text.hasPrefix (Entity.typePrefix Flavor) w.key) ∧
    lived.store.closed = false ∧
    (lived.feed.cache.has (key "a") = true ∧ fresh.has (key "a") = false) ∧
    (lived.feed.cache.has (key "b") = true ∧ fresh.has (key "b") = false) := by
  have hopen : lived.store.closed = false := by decide +kernel
  refine ⟨raw, hopen, ?_, ?_⟩
  · decide +kernel
  · decide +kernel

end Inventory
