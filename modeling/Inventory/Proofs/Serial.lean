import Inventory.Proofs.History
import Inventory.Transaction.Transact

/-!
# Transactions are serializable

A transaction reads at different moments and commits at yet another one. Still it does what it
would have done with the store for itself at the moment of the commit.

* `Session.Seen`: what a transaction knows of a key is what the key held at some earlier moment.
  With the conditions of the commit this is what the key holds now (`Seen.current`).
* `Program.run_again`: **a program that is told the same about the keys it reads does the same**,
  so it can be run again on the contents before the commit.
* `Session.getElem?_request`: the commit leaves exactly the planned writes.
* `transactFrom_committed`: a transaction that succeeds ends with a try that committed, after tries
  that met with conflicts, and that try is serial (`Serial`).
-/

namespace Inventory

/-! ## Programs and what they are told -/

namespace Program

variable {α : Type}

/-- A program that does not ask when the transaction began. -/
def Timeless : Program α → Prop
  | pure _ | fail _ => True
  | get _ next => ∀ v, (next v).Timeless
  | revision _ next => ∀ v, (next v).Timeless
  | snapshot _ => False
  | plan _ _ next => next.Timeless

/-- A step of a program, with the answer it got. -/
inductive Entry where
  | get (key : String) (answer : KvResult (Option Bytes))
  | revision (key : String) (answer : Revision)
  | snapshot (answer : Revision)
  | plan (key : String) (value : Option Bytes)

/-- The steps of a program in a transaction, with the answers it got. -/
def transcript : Program α → Running → List Entry
  | pure _, _ | fail _, _ => []
  | get key next, r => .get key (r.get key).1 :: (next (r.get key).1).transcript (r.get key).2
  | revision key next, r =>
    .revision key (r.session.revision key) :: (next (r.session.revision key)).transcript r
  | snapshot next, r => .snapshot r.session.snapshot :: (next r.session.snapshot).transcript r
  | plan key value next, r => .plan key value :: next.transcript (r.plan key value)

end Program

/-! ## What a transaction knows -/

namespace Session

variable {t : Session} {s s' : Store} {key : String} {found : Option Stored}

/-- What a transaction found under each key is what the key held at some earlier moment. -/
def Seen (t : Session) (s : Store) : Prop :=
  ∀ (key : String) (found : Option Stored), t.reads[key]? = some found →
    ∃ s₀ : Store, s₀.Stamped ∧ s₀.Later s ∧ s₀.contents[key]? = found

/-- What a transaction found under each key is what the key holds. -/
def Current (t : Session) (m : Contents) : Prop :=
  ∀ (key : String) (found : Option Stored), t.reads[key]? = some found → m[key]? = found

theorem Seen.start (snapshot : Revision) (s : Store) : (start snapshot).Seen s := by
  intro key found h
  have h : (∅ : Std.ExtTreeMap String (Option Stored))[key]? = some found := h
  rw [Std.ExtTreeMap.getElem?_empty] at h
  cases h

theorem Seen.later (h : t.Seen s) (hs : s.Later s') : t.Seen s' := by
  intro key found hf
  obtain ⟨s₀, h1, h2, h3⟩ := h key found hf
  exact ⟨s₀, h1, h2.trans hs, h3⟩

theorem getElem?_observe (t : Session) (key k : String) (found : Option Stored) :
    (t.observe key found).reads[k]? = if k = key then some found else t.reads[k]? :=
  Contents.getElem?_insert t.reads key k found

theorem not_read_of_unknown (h : t.known? key = none) : t.reads[key]? = none := by
  unfold known? at h
  split at h
  · cases h
  · exact Option.map_eq_none_iff.1 h

theorem not_planned_of_unknown (h : t.known? key = none) : t.writes[key]? = none := by
  unfold known? at h
  split at h
  · cases h
  · assumption

theorem Current.of_observe {m : Contents} (h : (t.observe key found).Current m)
    (hk : t.known? key = none) : t.Current m ∧ m[key]? = found := by
  refine ⟨fun k found' hf => h k found' ?_, h key found ?_⟩
  · rw [getElem?_observe, if_neg]
    · exact hf
    · rintro rfl
      rw [not_read_of_unknown hk] at hf
      cases hf
  · rw [getElem?_observe, if_pos rfl]

theorem Seen.observe (h : t.Seen s) (hs : s.Stamped) (key : String) :
    (t.observe key s.contents[key]?).Seen s := by
  intro k found hf
  rw [getElem?_observe] at hf
  split at hf
  · rename_i hk
    obtain rfl := Option.some.inj hf
    exact ⟨s, hs, .refl s, by rw [hk]⟩
  · exact h k found hf

theorem foundRevision_eq (m : Contents) (key : String) :
    foundRevision m[key]? = m.modRevision key := by
  unfold foundRevision Contents.modRevision
  rfl

/-- **If no key that was read has a new revision, all that was found is still there.** -/
theorem Seen.current (h : t.Seen s)
    (hrev : ∀ (key : String) (found : Option Stored), t.reads[key]? = some found →
      s.contents.modRevision key = foundRevision found) :
    t.Current s.contents := by
  intro key found hf
  obtain ⟨s₀, hs₀, hlater, hk⟩ := h key found hf
  rw [← hk]
  refine hlater.unchanged hs₀ ?_
  rw [hrev key found hf, ← hk, foundRevision_eq]

theorem mem_reads {key : String} {found : Option Stored} (h : t.reads[key]? = some found) :
    (key, foundRevision found) ∈ t.request.reads :=
  List.mem_map_of_mem (f := fun r => (r.1, foundRevision r.2))
    (Std.ExtTreeMap.mem_toList_iff_getElem?_eq_some.2 h)

/-- A commit that nothing stands in the way of finds every key at the revision observed. -/
theorem revisions_of_no_obstacle {m : Contents} (h : Store.obstacle? m t.request = none)
    (hf : t.reads[key]? = some found) : m.modRevision key = foundRevision found :=
  (Store.obstacle?_eq_none_iff.1 h).1 _ (mem_reads hf)

end Session

/-! ## A body under way -/

namespace Running

variable {r r' : Running} {key : String}

/-- A transaction under way has found what the store held. -/
structure Sound (r : Running) : Prop where
  stamped : r.store.Stamped
  seen : r.session.Seen r.store

/-- The store of a transaction after what others do. -/
theorem turn_later (w : Shared) : w.store.Later w.turn.store :=
  Store.later_runAll _ _

theorem turn_stamped {w : Shared} (h : w.store.Stamped) : w.turn.store.Stamped :=
  h.runAll _

theorem get_of_known {value : Option Bytes} (h : r.session.known? key = some value) :
    r.get key = (.ok value, r) := by
  unfold get; rw [h]

theorem get_of_unknown (h : r.session.known? key = none)
    (hopen : r.toShared.turn.store.closed = false) :
    r.get key = (.ok (r.toShared.turn.store.contents[key]?.map (·.value)),
      ⟨r.toShared.turn, r.session.observe key r.toShared.turn.store.contents[key]?⟩) := by
  unfold get
  rw [h]
  simp only [Store.get, Store.ifOpen_of_open hopen]

theorem get_of_closed (h : r.session.known? key = none)
    (hclosed : r.toShared.turn.store.closed = true) :
    r.get key = (.error (.unavailable "store is closed"), ⟨r.toShared.turn, r.session⟩) := by
  unfold get
  rw [h]
  simp only [Store.get, Store.ifOpen_of_closed hclosed]

/-- A read of a transaction under way. -/
theorem Sound.get (h : r.Sound) (key : String) : (r.get key).2.Sound := by
  cases hk : r.session.known? key with
  | some value => rw [get_of_known hk]; exact h
  | none =>
    have hs := turn_stamped h.stamped
    have hseen := h.seen.later (turn_later r.toShared)
    cases ho : r.toShared.turn.store.closed with
    | false => rw [get_of_unknown hk ho]; exact ⟨hs, hseen.observe hs key⟩
    | true => rw [get_of_closed hk ho]; exact ⟨hs, hseen⟩

theorem get_later (r : Running) (key : String) : r.store.Later (r.get key).2.store := by
  cases hk : r.session.known? key with
  | some value => rw [get_of_known hk]; exact .refl _
  | none =>
    cases ho : r.toShared.turn.store.closed with
    | false => rw [get_of_unknown hk ho]; exact turn_later r.toShared
    | true => rw [get_of_closed hk ho]; exact turn_later r.toShared

/-- What is known of a key stays known. -/
theorem get_keeps_reads {k : String} {found : Option Stored}
    (h : r.session.reads[k]? = some found) : (r.get key).2.session.reads[k]? = some found := by
  cases hk : r.session.known? key with
  | some value => rw [get_of_known hk]; exact h
  | none =>
    cases ho : r.toShared.turn.store.closed with
    | true => rw [get_of_closed hk ho]; exact h
    | false =>
      rw [get_of_unknown hk ho]
      show (r.session.observe key _).reads[k]? = _
      rw [Session.getElem?_observe, if_neg]
      · exact h
      · rintro rfl
        rw [Session.not_read_of_unknown hk] at h
        cases h

end Running

/-! ## Running a body again -/

/-- A transaction under way on a store that nobody else uses. -/
def Running.alone (s : Store) (t : Session) : Running := ⟨.quiet s, t⟩

theorem Running.alone_get_of_known {s : Store} {t : Session} {key : String} {value : Option Bytes}
    (h : t.known? key = some value) : (alone s t).get key = (.ok value, alone s t) :=
  get_of_known h

theorem Running.alone_get_of_unknown {s : Store} {t : Session} {key : String}
    (h : t.known? key = none) (hopen : s.closed = false) :
    (alone s t).get key =
      (.ok (s.contents[key]?.map (·.value)), alone s (t.observe key s.contents[key]?)) :=
  get_of_unknown (r := alone s t) h hopen

namespace Program

variable {α : Type} {r r' : Running} {result : StoreResult α}

theorem run_sound (p : Program α) (h : r.Sound) : (p.run r).2.Sound := by
  induction p generalizing r with
  | pure a => exact h
  | fail e => exact h
  | get key next ih => exact ih _ (h.get key)
  | revision key next ih => exact ih _ h
  | snapshot next ih => exact ih _ h
  | plan key value next ih => exact ih ⟨h.stamped, h.seen⟩

theorem run_later (p : Program α) (r : Running) : r.store.Later (p.run r).2.store := by
  induction p generalizing r with
  | pure a => exact .refl _
  | fail e => exact .refl _
  | get key next ih => exact (Running.get_later r key).trans (ih _ _)
  | revision key next ih => exact ih _ r
  | snapshot next ih => exact ih _ r
  | plan key value next ih => exact ih (r.plan key value)

theorem run_keeps_reads (p : Program α) {k : String} {found : Option Stored}
    (h : r.session.reads[k]? = some found) : (p.run r).2.session.reads[k]? = some found := by
  induction p generalizing r with
  | pure a => exact h
  | fail e => exact h
  | get key next ih => exact ih _ (Running.get_keeps_reads h)
  | revision key next ih => exact ih _ h
  | snapshot next ih => exact ih _ h
  | plan key value next ih => exact ih (r := r.plan key value) h

theorem run_bind {β : Type} (p : Program α) (f : α → Program β) (r : Running) :
    (p >>= f).run r =
      match p.run r with
      | (.ok a, r') => (f a).run r'
      | (.error e, r') => (.error e, r') := by
  show (p.bind f).run r = _
  induction p generalizing r with
  | pure a => rfl
  | fail e => rfl
  | get key next ih => exact ih _ _
  | revision key next ih => exact ih _ r
  | snapshot next ih => exact ih _ r
  | plan key value next ih => exact ih (r.plan key value)

theorem run_ofExcept (x : StoreResult α) (r : Running) : (ofExcept x).run r = (x, r) := by
  cases x <;> rfl

/-- A read that is the first of its key finds what the store holds. -/
theorem run_read {s : Store} {t : Session} {key : String} (h : t.known? key = none)
    (hs : s.closed = false) :
    (read key).run (.alone s t) =
      (.ok (s.contents[key]?.map (·.value)), .alone s (t.observe key s.contents[key]?)) := by
  unfold read
  simp only [run, Running.alone_get_of_unknown h hs]
  rfl

/-- **A program that is told the same about the keys it reads does the same**: if everything that
it found is what a store holds, it does the same steps on that store without others. -/
theorem run_again (p : Program α) (hrun : p.run r = (result, r'))
    (hopen : r'.store.closed = false) {s : Store} (hs : s.closed = false)
    (hcurrent : r'.session.Current s.contents) :
    p.run (.alone s r.session) = (result, .alone s r'.session) ∧
      p.transcript (.alone s r.session) = p.transcript r := by
  induction p generalizing r with
  | pure a =>
    obtain ⟨rfl, rfl⟩ := Prod.mk.inj hrun
    exact ⟨rfl, rfl⟩
  | fail e =>
    obtain ⟨rfl, rfl⟩ := Prod.mk.inj hrun
    exact ⟨rfl, rfl⟩
  | revision key next ih =>
    obtain ⟨h1, h2⟩ := ih _ hrun
    exact ⟨h1, congrArg (List.cons (Entry.revision key (r.session.revision key))) h2⟩
  | snapshot next ih =>
    obtain ⟨h1, h2⟩ := ih _ hrun
    exact ⟨h1, congrArg (List.cons (Entry.snapshot r.session.snapshot)) h2⟩
  | plan key value next ih =>
    obtain ⟨h1, h2⟩ := ih (r := r.plan key value) hrun
    exact ⟨h1, congrArg (List.cons (Entry.plan key value)) h2⟩
  | get key next ih =>
    have hrun : (next (r.get key).1).run (r.get key).2 = (result, r') := hrun
    obtain ⟨h1, h2⟩ := ih _ hrun
    -- the store gives the answer that was given before
    have hget : (Running.alone s r.session).get key =
        ((r.get key).1, .alone s (r.get key).2.session) := by
      cases hk : r.session.known? key with
      | some value => rw [Running.get_of_known hk]; exact Running.alone_get_of_known hk
      | none =>
        -- a closed store stays closed, and it is open at the end
        have ho : r.toShared.turn.store.closed = false := by
          cases ho : r.toShared.turn.store.closed with
          | false => rfl
          | true =>
            have hlate := run_later (next (r.get key).1) (r.get key).2
            rw [hrun, Running.get_of_closed hk ho] at hlate
            rw [hlate.closed ho] at hopen
            cases hopen
        -- what was found is known to the end, and what is known then is what the store holds
        have hfound : s.contents[key]? = r.toShared.turn.store.contents[key]? := by
          refine hcurrent key _ ?_
          have hread : (r.get key).2.session.reads[key]? =
              some r.toShared.turn.store.contents[key]? := by
            rw [Running.get_of_unknown hk ho]
            show (r.session.observe key _).reads[key]? = _
            rw [Session.getElem?_observe, if_pos rfl]
          have hkeep := run_keeps_reads (next (r.get key).1) hread
          rw [hrun] at hkeep
          exact hkeep
        rw [Running.get_of_unknown hk ho, Running.alone_get_of_unknown hk hs, hfound]
    constructor
    · show (next ((Running.alone s r.session).get key).1).run
        ((Running.alone s r.session).get key).2 = _
      rw [hget]
      exact h1
    · show Entry.get key ((Running.alone s r.session).get key).1 ::
        (next ((Running.alone s r.session).get key).1).transcript
          ((Running.alone s r.session).get key).2 = _
      rw [hget]
      exact congrArg (List.cons (Entry.get key (r.get key).1)) h2

end Program

/-! ## When a transaction began -/

/-- The transaction as it would be if it had begun at another revision. -/
def Session.since (t : Session) (rev : Revision) : Session := { t with snapshot := rev }

namespace Running

/-- The transaction under way as it would be if it had begun at another revision. -/
def since (r : Running) (rev : Revision) : Running := { r with session := r.session.since rev }

theorem since_get (r : Running) (rev : Revision) (key : String) :
    (r.since rev).get key = ((r.get key).1, (r.get key).2.since rev) := by
  cases hk : r.session.known? key with
  | some value => rw [get_of_known hk]; exact get_of_known (r := r.since rev) hk
  | none =>
    cases ho : r.toShared.turn.store.closed with
    | false => rw [get_of_unknown hk ho]; exact get_of_unknown (r := r.since rev) hk ho
    | true => rw [get_of_closed hk ho]; exact get_of_closed (r := r.since rev) hk ho

end Running

namespace Program

variable {α : Type}

/-- A program that does not ask when it began does the same whenever that was. -/
theorem run_since (p : Program α) (hp : p.Timeless) (r : Running) (rev : Revision) :
    p.run (r.since rev) = ((p.run r).1, (p.run r).2.since rev) ∧
      p.transcript (r.since rev) = p.transcript r := by
  induction p generalizing r with
  | pure a => exact ⟨rfl, rfl⟩
  | fail e => exact ⟨rfl, rfl⟩
  | snapshot next ih => exact absurd hp id
  | revision key next ih =>
    obtain ⟨h1, h2⟩ := ih _ (hp _) r
    exact ⟨h1, congrArg (List.cons (Entry.revision key (r.session.revision key))) h2⟩
  | plan key value next ih =>
    obtain ⟨h1, h2⟩ := ih hp (r.plan key value)
    exact ⟨h1, congrArg (List.cons (Entry.plan key value)) h2⟩
  | get key next ih =>
    obtain ⟨h1, h2⟩ := ih _ (hp _) (r.get key).2
    constructor
    · show (next ((r.since rev).get key).1).run ((r.since rev).get key).2 = _
      rw [Running.since_get]
      exact h1
    · show Entry.get key ((r.since rev).get key).1 ::
        (next ((r.since rev).get key).1).transcript ((r.since rev).get key).2 = _
      rw [Running.since_get]
      exact congrArg (List.cons (Entry.get key (r.get key).1)) h2

end Program

/-! ## What a commit leaves -/

namespace Contents

variable {m : Contents} {rev : Revision} {ws : List Write} {w : Write} {k : String}

/-- Of writes to different keys each has its own effect. -/
theorem getElem?_writeAll_of_mem (hd : ws.Pairwise fun v w => v.key ≠ w.key) (hw : w ∈ ws) :
    (writeAll rev ws m).1[w.key]? = w.leaves m[w.key]? rev := by
  induction ws generalizing m with
  | nil => cases hw
  | cons v ws ih =>
    rw [List.pairwise_cons] at hd
    rw [writeAll_cons]
    rcases List.mem_cons.1 hw with rfl | hw
    · -- the later writes are to other keys
      rw [getElem?_writeAll_of_ne fun x hx => (hd.1 x hx).symm, getElem?_write, if_pos rfl]
    · rw [ih hd.2 hw, getElem?_write, if_neg (hd.1 w hw).symm]

/-- Writes to different keys change something unless each deletes an absent key. -/
theorem writeAll_no_events_iff (hd : ws.Pairwise fun v w => v.key ≠ w.key) :
    (writeAll rev ws m).2 = [] ↔ ∀ w ∈ ws, w = .delete w.key ∧ m[w.key]? = none := by
  induction ws generalizing m with
  | nil => exact ⟨fun _ _ h => absurd h List.not_mem_nil, fun _ => rfl⟩
  | cons v ws ih =>
    rw [List.pairwise_cons] at hd
    have hrest : ∀ w ∈ ws, (m.write rev v).1[w.key]? = m[w.key]? := fun w hw => by
      rw [getElem?_write, if_neg (hd.1 w hw).symm]
    have hfirst : (m.write rev v).2 = none ↔ v = .delete v.key ∧ m[v.key]? = none := by
      cases v with
      | put key value =>
        exact ⟨fun h => absurd h (Option.some_ne_none _), fun h => Write.noConfusion h.1⟩
      | delete key =>
        show (m.write rev (.delete key)).2 = none ↔ Write.delete key = .delete key ∧ m[key]? = none
        simp only [write]
        by_cases hc : m.contains key = true
        · rw [if_pos hc]
          refine ⟨fun h => absurd h (Option.some_ne_none _), fun h => ?_⟩
          rw [Std.ExtTreeMap.contains_eq_isSome_getElem?, h.2] at hc
          cases hc
        · rw [if_neg hc]
          exact ⟨fun _ => ⟨trivial, getElem?_of_not_contains hc⟩, fun _ => rfl⟩
    rw [writeAll_cons, List.append_eq_nil_iff, Option.toList_eq_nil_iff, hfirst, ih hd.2,
      List.forall_mem_cons]
    exact and_congr_right fun _ => forall₂_congr fun w hw => by rw [hrest w hw]

end Contents

namespace Session

variable {t : Session} {m : Contents} {rev : Revision} {key : String}

/-- What the commit of a transaction leaves under a key. -/
def leaves (t : Session) (m : Contents) (rev : Revision) (key : String) : Option Stored :=
  match t.writes[key]? with
  | none => m[key]?
  | some none => none
  | some (some value) => some (.rewritten m[key]? value rev)

/-- All that a transaction plans is to delete keys that are absent. -/
def Idle (t : Session) (m : Contents) : Prop :=
  ∀ (key : String) (value : Option Bytes), t.writes[key]? = some value →
    value = none ∧ m[key]? = none

theorem toWrite_key (w : String × Option Bytes) : (toWrite w).key = w.1 := by
  obtain ⟨key, _ | value⟩ := w <;> rfl

theorem toWrite_leaves (w : String × Option Bytes) (old : Option Stored) (rev : Revision) :
    (toWrite w).leaves old rev = w.2.map fun value => .rewritten old value rev := by
  obtain ⟨key, _ | value⟩ := w <;> rfl

theorem request_writes_distinct (t : Session) :
    t.request.writes.Pairwise fun v w => v.key ≠ w.key := by
  refine List.pairwise_map.2 (Std.ExtTreeMap.distinct_keys_toList.imp fun {v w} h => ?_)
  rw [toWrite_key, toWrite_key]
  exact fun he => h (Std.compare_eq_iff_eq.2 he)

theorem mem_writes (t : Session) (w : Write) :
    w ∈ t.request.writes ↔ ∃ value, t.writes[w.key]? = some value ∧ toWrite (w.key, value) = w := by
  constructor
  · intro hw
    obtain ⟨⟨key, value⟩, hmem, rfl⟩ := List.mem_map.1 hw
    rw [toWrite_key]
    exact ⟨value, Std.ExtTreeMap.mem_toList_iff_getElem?_eq_some.1 hmem, rfl⟩
  · rintro ⟨value, hv, hw⟩
    rw [← hw]
    exact List.mem_map_of_mem (Std.ExtTreeMap.mem_toList_iff_getElem?_eq_some.2 hv)

theorem request_writes_nil_iff (t : Session) : t.request.writes = [] ↔ t.writes = ∅ := by
  unfold request
  rw [List.map_eq_nil_iff, Std.ExtTreeMap.toList_eq_nil_iff]

/-- **A commit leaves exactly the planned writes.** -/
theorem getElem?_request (t : Session) (m : Contents) (rev : Revision) (key : String) :
    (m.writeAll rev t.request.writes).1[key]? = t.leaves m rev key := by
  unfold leaves
  cases hw : t.writes[key]? with
  | none =>
    refine Contents.getElem?_writeAll_of_ne fun w hmem hk => ?_
    obtain ⟨value, hv, -⟩ := (mem_writes t w).1 hmem
    rw [hk, hw] at hv
    cases hv
  | some value =>
    have hmem : toWrite (key, value) ∈ t.request.writes :=
      List.mem_map_of_mem (Std.ExtTreeMap.mem_toList_iff_getElem?_eq_some.2 hw)
    have h : (m.writeAll rev t.request.writes).1[(toWrite (key, value)).key]? = _ :=
      Contents.getElem?_writeAll_of_mem t.request_writes_distinct hmem
    rw [toWrite_key, toWrite_leaves] at h
    rw [h]
    cases value <;> rfl

theorem request_no_events_iff (t : Session) (m : Contents) (rev : Revision) :
    (m.writeAll rev t.request.writes).2 = [] ↔ t.Idle m := by
  rw [Contents.writeAll_no_events_iff t.request_writes_distinct]
  constructor
  · intro h key value hw
    have hmem : toWrite (key, value) ∈ t.request.writes :=
      List.mem_map_of_mem (Std.ExtTreeMap.mem_toList_iff_getElem?_eq_some.2 hw)
    obtain ⟨h1, h2⟩ := h _ hmem
    rw [toWrite_key] at h2
    cases value with
    | none => exact ⟨rfl, h2⟩
    | some value => cases h1
  · intro h w hmem
    obtain ⟨value, hv, hw⟩ := (mem_writes t w).1 hmem
    obtain ⟨rfl, hc⟩ := h w.key value hv
    exact ⟨hw.symm, hc⟩

end Session

/-! ## Commits -/

/-- How a commit of a transaction relates to the store before it. -/
structure Session.Commits (t : Session) (before : Store) (rev : Revision) (after : Store) :
    Prop where
  contents : ∀ key : String, after.contents[key]? = t.leaves before.contents rev key
  changed : ¬ t.Idle before.contents → rev = before.revision.next ∧ after.revision = rev
  unchanged : t.Idle before.contents → rev = before.revision ∧ after = before

namespace Session.Commits

variable {t : Session} {before after : Store} {rev : Revision} {key : String}

/-- A commit leaves a key alone that the transaction does not write. -/
theorem unwritten (h : t.Commits before rev after) (hw : t.writes[key]? = none) :
    after.contents[key]? = before.contents[key]? := by
  rw [h.contents]
  unfold leaves
  rw [hw]

theorem put {value : Bytes} (h : t.Commits before rev after)
    (hw : t.writes[key]? = some (some value)) :
    ∃ stored, after.contents[key]? = some stored ∧ stored.value = value := by
  rw [h.contents]
  unfold leaves
  rw [hw]
  exact ⟨_, rfl, Stored.rewritten_value _ _ _⟩

theorem deleted (h : t.Commits before rev after) (hw : t.writes[key]? = some none) :
    after.contents[key]? = none := by
  rw [h.contents]
  unfold leaves
  rw [hw]

end Session.Commits

/-- Commits of planned writes that nothing stands in the way of. -/
theorem Session.commits (t : Session) (s : Store) :
    t.Commits s (s.commit t.request.writes).1 (s.commit t.request.writes).2 := by
  by_cases hidle : t.Idle s.contents
  · -- deletes of absent keys take no revision
    rw [Store.commit_of_no_events ((request_no_events_iff t _ _).2 hidle)]
    refine ⟨fun key => ?_, fun h => absurd hidle h, fun _ => ⟨rfl, rfl⟩⟩
    unfold leaves
    cases hw : t.writes[key]? with
    | none => rfl
    | some value =>
      obtain ⟨rfl, hc⟩ := hidle key value hw
      exact hc
  · have hev : ¬ (s.contents.writeAll s.revision.next t.request.writes).2 = [] :=
      fun h => hidle ((request_no_events_iff t _ _).1 h)
    rw [Store.commit_eq, if_neg hev]
    exact ⟨getElem?_request t _ _, fun _ => ⟨rfl, rfl⟩, fun h => absurd h hidle⟩

/-- A transaction that has planned a write commits only if the store is open and nothing stands in
the way. -/
theorem Store.commitTxn_ok {s s' : Store} {t : Session} {rev : Revision}
    (hw : t.writes ≠ ∅) (h : s.commitTxn t.request = (.ok rev, s')) :
    s.closed = false ∧ Store.obstacle? s.contents t.request = none ∧ t.Commits s rev s' := by
  cases hs : s.closed with
  | true => unfold commitTxn at h; rw [ifOpen_of_closed hs] at h; cases h
  | false =>
    unfold commitTxn at h
    rw [ifOpen_of_open hs] at h
    rw [if_neg fun he => hw (t.request_writes_nil_iff.1 (List.isEmpty_iff.1 he))] at h
    cases ho : obstacle? s.contents t.request with
    | some e => rw [ho] at h; cases h
    | none =>
      rw [ho] at h
      obtain ⟨hrev, rfl⟩ := Prod.mk.inj h
      obtain rfl := Except.ok.inj hrev
      exact ⟨rfl, rfl, t.commits s⟩

/-! ## Tries -/

/-- A try of a transaction: it begins, and does its body to the end. -/
structure Tried (p : Program Unit) (w : Shared) (begun ended : Running) : Prop where
  begins : (Running.begin w).1 = .ok begun
  runs : p.run begun = (.ok (), ended)

/-- Tries one after another that all met with conflicts. -/
inductive Conflicts (p : Program Unit) : Nat → Shared → Shared → Prop where
  | none (w : Shared) : Conflicts p 0 w w
  | more {n : Nat} {w w₁ w₂ : Shared} {begun ended : Running} {message : String}
      (tried : Tried p w begun ended) (conflict : ended.commit = (.error (.conflict message), w₁))
      (rest : Conflicts p n w₁ w₂) : Conflicts p (n + 1) w w₂

/-- A commit is serial if the transaction would do the same, being told the same, with the store
as it was before the commit for itself, and if the commit leaves exactly its writes. -/
structure Serial (p : Program Unit) (begun ended : Running) (rev : Revision) (after : Store) :
    Prop where
  again : p.run (.alone ended.toShared.turn.store (.start ended.toShared.turn.store.revision)) =
    (.ok (), .alone ended.toShared.turn.store
      (ended.session.since ended.toShared.turn.store.revision))
  told : p.transcript
      (.alone ended.toShared.turn.store (.start ended.toShared.turn.store.revision)) =
    p.transcript begun
  commits : ended.session.Commits ended.toShared.turn.store rev after

namespace Running

theorem begin_ok {w : Shared} {begun : Running} (h : (begin w).1 = .ok begun) :
    begun = ⟨w.turn, .start w.turn.store.revision⟩ := by
  cases hs : w.turn.store.closed with
  | true => simp only [begin, Store.currentRevision, Store.ifOpen_of_closed hs] at h; cases h
  | false =>
    simp only [begin, Store.currentRevision, Store.ifOpen_of_open hs] at h
    exact (Except.ok.inj h).symm

theorem commit_ok {r : Running} {rev : Revision} {w : Shared} (h : r.commit = (.ok rev, w)) :
    r.toShared.turn.store.commitTxn r.session.request = (.ok rev, w.store) := by
  obtain ⟨h1, rfl⟩ := Prod.mk.inj h
  exact Prod.ext h1 rfl

end Running

namespace Tried

variable {p : Program Unit} {w w' : Shared} {begun ended : Running} {rev : Revision}

/-- At its end a try has found what the store held. -/
theorem sound (h : Tried p w begun ended) (hs : w.store.Stamped) : ended.Sound := by
  have hbegun : begun.Sound := by
    rw [Running.begin_ok h.begins]
    exact ⟨Running.turn_stamped hs, .start _ _⟩
  have hrun := p.run_sound hbegun
  rw [h.runs] at hrun
  exact hrun

/-- **A try that commits a write is serial.** What it found is still there, so it would have
found the same at once. -/
theorem serial (h : Tried p w begun ended) (hp : p.Timeless) (hs : w.store.Stamped)
    (hw : ended.session.writes ≠ ∅) (hc : ended.commit = (.ok rev, w')) :
    Serial p begun ended rev w'.store := by
  obtain ⟨hopen, hobs, hcommits⟩ := Store.commitTxn_ok hw (Running.commit_ok hc)
  have hsound := h.sound hs
  have hlater := Running.turn_later ended.toShared
  have hcurrent : ended.session.Current ended.toShared.turn.store.contents :=
    (hsound.seen.later hlater).current fun _ _ => Session.revisions_of_no_obstacle hobs
  -- the store was open all the time
  have hstill : ended.store.closed = false := by
    cases ho : ended.store.closed with
    | false => rfl
    | true => rw [hlater.closed ho] at hopen; cases hopen
  obtain ⟨h1, h2⟩ := p.run_again h.runs hstill hopen hcurrent
  obtain ⟨h3, h4⟩ := p.run_since hp (.alone ended.toShared.turn.store begun.session)
    ended.toShared.turn.store.revision
  rw [h1] at h3
  rw [h2] at h4
  rw [Running.begin_ok h.begins] at h3 h4 ⊢
  exact ⟨h3, h4, hcommits⟩

theorem stamped (h : Tried p w begun ended) (hs : w.store.Stamped) :
    ended.commit.2.store.Stamped :=
  (Running.turn_stamped (h.sound hs).stamped).run (.txn ended.session.request)

end Tried

theorem Conflicts.stamped {p : Program Unit} {n : Nat} {w w' : Shared} (h : Conflicts p n w w')
    (hs : w.store.Stamped) : w'.store.Stamped := by
  induction h with
  | none w => exact hs
  | more tried conflict rest ih =>
    have hstamped := tried.stamped hs
    rw [conflict] at hstamped
    exact ih hstamped

/-! ## Transactions -/

section Transact

variable {p : Program Unit} {policy : RetryPolicy} {w w' : Shared} {rev : Revision}

/-- A plain program as the body of a transaction. -/
def Program.body (p : Program Unit) : Body Unit := fun _ r s => ((p.run r).1, (p.run r).2, s)

theorem transact_eq (policy : RetryPolicy) (p : Program Unit) (w : Shared) :
    transact policy p w =
      ((transactFrom policy.attempts p.body policy.attempts "" w ()).1,
        (transactFrom policy.attempts p.body policy.attempts "" w ()).2.1) := rfl

/-- A try ends with a commit, or it fails before. -/
theorem tryOnce_cases (p : Program Unit) (n : Nat) (w : Shared) :
    (∃ begun ended, Tried p w begun ended ∧
      tryOnce (p.body n) w () = (.ofCommit ended.commit.1, ended.commit.2, ())) ∨
    ∃ e w', tryOnce (p.body n) w () = (.failed e, w', ()) := by
  unfold tryOnce
  cases hb : Running.begin w with
  | mk result w₁ =>
    cases result with
    | error e => exact .inr ⟨_, _, rfl⟩
    | ok begun =>
      cases hr : p.run begun with
      | mk result ended =>
        cases result with
        | error e => exact .inr ⟨e, ended.toShared, by simp only [Program.body, hr]⟩
        | ok u =>
          refine .inl ⟨begun, ended, ⟨by rw [hb], hr⟩, ?_⟩
          simp only [Program.body, hr]

theorem Try.ofCommit_committed {result : KvResult Revision} (h : ofCommit result = .committed rev) :
    result = .ok rev := by
  match result, h with
  | .ok _, h => cases h; rfl
  | .error e, h => cases e <;> cases h

theorem Try.ofCommit_conflicted {result : KvResult Revision} {m : String}
    (h : ofCommit result = .conflicted m) : result = .error (.conflict m) := by
  match result, h with
  | .ok _, h => cases h
  | .error e, h => cases e <;> cases h; rfl

/-- A transaction that succeeds ends with a try that commits, after tries that met with
conflicts. -/
theorem transactFrom_committed {attempts left : Nat} {last : String}
    (h : transactFrom attempts p.body left last w () = (.ok rev, w', ())) :
    ∃ n w₁ begun ended, n < left ∧ Conflicts p n w w₁ ∧ Tried p w₁ begun ended ∧
      ended.commit = (.ok rev, w') := by
  induction left generalizing last w with
  | zero => cases h
  | succ left ih =>
    unfold transactFrom at h
    rcases tryOnce_cases p (attempts - (left + 1)) w with
      ⟨begun, ended, htried, heq⟩ | ⟨e, w₁, heq⟩
    · rw [heq] at h
      cases hr : Try.ofCommit ended.commit.1 with
      | committed rev' =>
        rw [hr] at h
        obtain ⟨h1, h2⟩ := Prod.mk.inj h
        obtain rfl := Except.ok.inj h1
        obtain ⟨rfl, -⟩ := Prod.mk.inj h2
        exact ⟨0, w, begun, ended, Nat.succ_pos left, .none w, htried,
          Prod.ext (Try.ofCommit_committed hr) rfl⟩
      | failed e => rw [hr] at h; cases h
      | conflicted m =>
        -- the next try
        rw [hr] at h
        obtain ⟨n, w₁, begun', ended', hn, hconf, htried', hcommit⟩ := ih h
        exact ⟨n + 1, w₁, begun', ended', Nat.succ_lt_succ hn,
          .more htried (Prod.ext (Try.ofCommit_conflicted hr) rfl) hconf, htried', hcommit⟩
    · rw [heq] at h
      cases h

/-- **A transaction that succeeds is serial**, unless it had nothing to write: the try that
committed would have done the same with the store as it was just before the commit for itself. -/
theorem transact_serial (hp : p.Timeless) (hs : w.store.Reachable)
    (h : transact policy p w = (.ok rev, w')) :
    ∃ n w₁ begun ended, n < policy.attempts ∧ Conflicts p n w w₁ ∧ Tried p w₁ begun ended ∧
      ended.commit = (.ok rev, w') ∧
      (ended.session.writes ≠ ∅ → Serial p begun ended rev w'.store) := by
  rw [transact_eq] at h
  obtain ⟨h1, h2⟩ := Prod.mk.inj h
  obtain ⟨n, w₁, begun, ended, hn, hconf, htried, hcommit⟩ :=
    transactFrom_committed (Prod.ext h1 (Prod.ext h2 rfl))
  exact ⟨n, w₁, begun, ended, hn, hconf, htried, hcommit,
    fun hw => htried.serial hp (hconf.stamped hs.stamped) hw hcommit⟩

end Transact

end Inventory
