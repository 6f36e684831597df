import Inventory.Proofs.Requests
import Inventory.Proofs.Serial
import Inventory.Proofs.StoreKey
import Inventory.Transaction.Objects

/-!
# Records of a type

Whoever writes the records of a type through its entities leaves every record under the store key
of its own entity.

* `Write.Files`: a write of an entity under its own store key, or of something else.
* `Contents.Recorded`: every record is an entity under its own store key. Writes that file keep it
  (`Recorded.runAll`).
* `Deed.byFiling`: **typed requests and transactions that put and delete entities do nothing to the
  store but operations that file**, whatever is done in between.
-/

namespace Inventory

/-! ## Entities that are merged -/

namespace Entity

variable {α : Type} [Entity α] [LawfulEntity α] {a b : α}

theorem key_clearFields (a : α) : key (clearFields a) = key a := LawfulEntity.key_make [] a

omit [LawfulEntity α] in
theorem fits_make {fs : List String} {v : (schema α).Val} (h : (Shape.record (schema α)).Fits v) :
    Fits (make fs v : α) := by
  unfold Fits
  rw [body_make]
  exact h

omit [LawfulEntity α] in
theorem Fits.restored (h : Fits a) : Fits (restored a) := fits_make (Shape.Fits.canonical h)

/-- Merging leaves the key. -/
theorem key_merge (mask : FieldMap) (h : key a = key b) : key (merge mask a b) = key a := by
  unfold merge
  rw [key_clearFields, LawfulEntity.key_copyFrom mask .root h]

omit [LawfulEntity α] in
theorem Fits.merge (mask : FieldMap) (ha : Fits a) (hb : Fits b) : Fits (merge mask a b) := by
  have hcopy : (Shape.record (schema α)).Fits
      ((schema α).copyFrom mask .root (body a) (body b)).1 :=
    Fields.Fits.copyFrom ha hb .root
  have hfits : Fits (copyFrom mask .root a b).1 := fits_make hcopy
  exact fits_make hfits

theorem key_fresh (k : Key α) : key (fresh k) = k := LawfulEntity.key_setKey k _

theorem Fits.fresh (h : Fits a) : Fits (fresh (key a)) :=
  LawfulEntity.fits_setKey h (fits_make (Fields.fits_zero _))

end Entity

/-! ## Writes that file -/

section Files

variable (α : Type) [Entity α]

/-- Where a value stands for a record of the type, it is an entity under its own store key. -/
def Filed (key : String) (value : Bytes) : Prop :=
  Text.hasPrefix (Entity.typePrefix α) key = true →
    ∃ a : α, Entity.Fits a ∧ key = Entity.storeKey (Entity.key a) ∧ value = Entity.encode a

/-- Where a write is to a record of the type, it puts an entity under its own store key or deletes
the record of a key. -/
def Write.Files : Write → Prop
  | .put key value => Filed α key value
  | .delete key =>
    Text.hasPrefix (Entity.typePrefix α) key = true → ∃ k : Entity.Key α, key = Entity.storeKey k

/-- An operation all of whose writes file. -/
def Op.Files (op : Op) : Prop := ∀ w ∈ op.asks, w.Files α

/-- Every record of the type is an entity under its own store key. -/
def Contents.Recorded (m : Contents) : Prop :=
  ∀ (key : String) (stored : Stored), m[key]? = some stored → Filed α key stored.value

/-- An operation that files, in the name of somebody else than a subscriber. -/
def Op.FilesAside (who : Subscriber) (op : Op) : Prop := op.Files α ∧ op.subscriber? ≠ some who

/-- Operations that file lead from one store to another, aside from a subscriber. -/
def Store.ByFiling (who : Subscriber) (s s' : Store) : Prop :=
  ∃ ops, (∀ op ∈ ops, op.FilesAside α who) ∧ s' = Op.runAll ops s

end Files

/-- A write of something else files. -/
theorem Write.files_of_elsewhere {α : Type} [Entity α] {w : Write}
    (h : ¬ Text.hasPrefix (Entity.typePrefix α) w.key = true) : w.Files α := by
  cases w with
  | put key value => exact fun hunder => absurd hunder h
  | delete key => exact fun hunder => absurd hunder h

/-- What was filed is read as the entity that was written. -/
theorem Filed.decode {α : Type} [Entity α] [LawfulEntity α] {k : Entity.Key α} {value : Bytes}
    (h : Filed α (Entity.storeKey k) value) :
    ∃ a : α, Entity.Fits a ∧ Entity.key a = k ∧
      Entity.decode (Entity.storeKey k) value = .ok (Entity.restored a) := by
  obtain ⟨a, hfits, hown, rfl⟩ := h (Entity.hasPrefix_storeKey k)
  rw [Entity.decode_encode hfits]
  exact ⟨a, hfits, (Entity.storeKey_injective hown).symm, rfl⟩

namespace Contents.Recorded

variable {α : Type} [Entity α] {m : Contents} {s : Store}

theorem empty : (∅ : Contents).Recorded α := by
  intro key stored h
  rw [Std.ExtTreeMap.getElem?_empty] at h
  cases h

theorem write (h : m.Recorded α) (rev : Revision) {w : Write} (hw : w.Files α) :
    (m.write rev w).1.Recorded α := by
  intro key stored hm
  rw [Contents.getElem?_write] at hm
  split at hm
  · rename_i heq
    subst heq
    cases w with
    | put key value =>
      obtain rfl := Option.some.inj hm
      rw [Stored.rewritten_value]
      exact hw
    | delete key => cases hm
  · exact h key stored hm

theorem writeAll (h : m.Recorded α) (rev : Revision) {ws : List Write}
    (hws : ∀ w ∈ ws, w.Files α) : (m.writeAll rev ws).1.Recorded α := by
  induction ws generalizing m with
  | nil => exact h
  | cons w ws ih =>
    exact ih (h.write rev (hws w List.mem_cons_self)) fun v hv => hws v (List.mem_cons_of_mem w hv)

/-- **Operations that file keep every record under its own store key.** -/
theorem runAll (h : s.contents.Recorded α) {ops : List Op} (hops : ∀ op ∈ ops, op.Files α) :
    (Op.runAll ops s).contents.Recorded α := by
  induction ops generalizing s with
  | nil => exact h
  | cons op ops ih =>
    refine ih ?_ fun o ho => hops o (List.mem_cons_of_mem op ho)
    rw [Op.run_contents]
    exact h.writeAll _ fun w hw => hops op List.mem_cons_self w (Op.asks_of_writes hw)

end Contents.Recorded

namespace Store.ByFiling

variable {α : Type} [Entity α] {who : Subscriber} {s s' s'' : Store}

theorem refl (s : Store) : s.ByFiling α who s := ⟨[], fun _ h => (nomatch h), rfl⟩

theorem trans (h : s.ByFiling α who s') (h' : s'.ByFiling α who s'') : s.ByFiling α who s'' := by
  obtain ⟨early, hearly, rfl⟩ := h
  obtain ⟨late, hlate, rfl⟩ := h'
  refine ⟨early ++ late, fun op hop => ?_, (Op.runAll_append early late s).symm⟩
  exact (List.mem_append.1 hop).elim (hearly op) (hlate op)

theorem one (op : Op) (h : op.FilesAside α who) (s : Store) : s.ByFiling α who (op.run s).2 := by
  refine ⟨[op], fun o ho => ?_, rfl⟩
  rw [List.mem_singleton.1 ho]
  exact h

theorem all {ops : List Op} (h : ∀ op ∈ ops, op.FilesAside α who) (s : Store) :
    s.ByFiling α who (Op.runAll ops s) := ⟨ops, h, rfl⟩

theorem recorded (h : s.ByFiling α who s') (hs : s.contents.Recorded α) :
    s'.contents.Recorded α := by
  obtain ⟨ops, hops, rfl⟩ := h
  exact hs.runAll fun op hop => (hops op hop).1

end Store.ByFiling

/-! ## Typed requests -/

namespace Request

variable {α : Type} [Entity α] {who : Subscriber} {s : Store}

/-- A request for an entity that fits, while others do operations that file. -/
def Files (who : Subscriber) : Request α → Prop
  | create a => Entity.Fits a
  | update a _ others | put a _ others => Entity.Fits a ∧ ∀ op ∈ others, op.FilesAside α who
  | delete _ => True

/-- An entity is written under its own store key. -/
theorem files_of_own {a : α} (hfits : Entity.Fits a) {k : Entity.Key α} (hk : Entity.key a = k) :
    (Write.put (Entity.storeKey k) (Entity.encode a)).Files α :=
  fun _ => ⟨a, hfits, by rw [hk], rfl⟩

/-- An operation that asks for one write. -/
theorem files_of_asks {op : Op} {w : Write} (h : op.asks = [w]) (hw : w.Files α) :
    op.Files α := by
  intro v hv
  rw [h] at hv
  rw [List.mem_singleton.1 hv]
  exact hw

variable [LawfulEntity α]

/-- A merged entity is written under the store key that both entities have. -/
theorem files_of_merge {a b : α} (ha : Entity.Fits a) (hb : Entity.Fits b)
    (hkey : Entity.key b = Entity.key a) (mask : FieldMap) :
    (Write.put (Entity.storeKey (Entity.key a)) (Entity.encode (Entity.merge mask b a))).Files α :=
  files_of_own (hb.merge mask ha) ((Entity.key_merge mask hkey).trans hkey)

/-- The entity of a request fits; a deletion looks at nothing but the key. -/
def Fits : Request α → Prop
  | create a | update a _ _ | put a _ _ => Entity.Fits a
  | delete _ => True

omit [LawfulEntity α] in
theorem Files.fits {q : Request α} (hq : q.Files who) : q.Fits := by
  cases q with
  | create a => exact hq
  | update a mask others | put a mask others => exact hq.1
  | delete a => trivial

omit [LawfulEntity α] in
theorem Files.meanwhile {q : Request α} (hq : q.Files who) :
    ∀ op ∈ q.meanwhile, op.FilesAside α who := by
  unfold Request.meanwhile
  intro op hop
  split at hop
  · cases q with
    | update a mask others | put a mask others => exact hq.2 op hop
    | create a | delete a => cases hop
  · cases hop

/-- **The operation that a request ends with files**, whatever its mask selects: the record that was
read is an entity with the same key. -/
theorem closing_files (h : s.contents.Recorded α) {q : Request α} (hq : q.Fits) {op : Op}
    (hop : q.closing s = .ok op) : op.Files α := by
  cases plans_of_closing hop with
  | create a => exact files_of_asks rfl (files_of_own hq rfl)
  | delete a => exact files_of_asks rfl fun _ => ⟨_, rfl⟩
  | update found read =>
    obtain ⟨b, hb, hkey, hdecode⟩ := (h _ _ found).decode
    obtain rfl := Except.ok.inj (hdecode.symm.trans read)
    exact files_of_asks rfl (files_of_merge hq hb.restored ((Entity.key_restored b).trans hkey) _)
  | put start =>
    rename_i a current mask others
    -- a put that finds nothing starts from an entity that has been given the key
    cases hfound : s.contents[Entity.storeKey (Entity.key a)]? with
    | none =>
      rw [hfound] at start
      obtain rfl := Except.ok.inj start
      exact files_of_asks rfl (files_of_merge hq hq.fresh (Entity.key_fresh _) _)
    | some stored =>
      rw [hfound] at start
      obtain ⟨b, hb, hkey, hdecode⟩ := (h _ stored hfound).decode
      obtain rfl := Except.ok.inj (hdecode.symm.trans start)
      exact files_of_asks rfl (files_of_merge hq hb.restored ((Entity.key_restored b).trans hkey) _)

/-- **A typed request does nothing to the store but operations that file.** -/
theorem byFiling (h : s.contents.Recorded α) {q : Request α} (hq : q.Files who) :
    s.ByFiling α who (q.run s) := by
  rw [run_eq_outcome, outcome_eq_ops]
  refine .all (fun op hop => ?_) s
  rcases List.mem_append.1 hop with hop | hop
  · exact hq.meanwhile op hop
  · cases hclosing : q.closing s with
    | error e =>
      rw [hclosing] at hop
      cases hop
    | ok closing =>
      rw [hclosing] at hop
      rw [List.mem_singleton.1 hop]
      refine ⟨closing_files h hq.fits hclosing, ?_⟩
      rw [(closing_asks hclosing).2.1]
      exact (Option.some_ne_none who).symm

end Request

/-! ## Transactions that put and delete entities -/

section Transactions

variable {α β γ : Type} [Entity α] {who : Subscriber}

variable (α) in
/-- What a read is told where all records are filed. -/
def Program.Told (key : String) (v : KvResult (Option Bytes)) : Prop :=
  ∀ value : Bytes, v = .ok (some value) → Filed α key value

variable (α) in
/-- A program all of whose planned writes file if all that it reads was filed. -/
def Program.Files : Program β → Prop
  | pure _ | fail _ => True
  | get key next => ∀ v, Told α key v → (next v).Files
  | revision _ next | snapshot next => ∀ v, (next v).Files
  | plan key value next => (Session.toWrite (key, value)).Files α ∧ next.Files

variable (α) in
/-- All planned writes file, and all that was found was filed. -/
structure Session.Files (t : Session) : Prop where
  writes : ∀ (key : String) (value : Option Bytes), t.writes[key]? = some value →
    (toWrite (key, value)).Files α
  reads : ∀ (key : String) (stored : Stored), t.reads[key]? = some (some stored) →
    Filed α key stored.value

namespace Program

theorem Files.bind {p : Program β} {f : β → Program γ} (hp : p.Files α)
    (hf : ∀ b, (f b).Files α) : (p >>= f).Files α := by
  show (p.bind f).Files α
  induction p with
  | pure b => exact hf b
  | fail e => trivial
  | get key next ih => exact fun v hv => ih v (hp v hv)
  | revision key next ih => exact fun v => ih v (hp v)
  | snapshot next ih => exact fun v => ih v (hp v)
  | plan key value next ih => exact ⟨hp.1, ih hp.2⟩

/-- A program that goes on from an entity that was read. -/
theorem Files.readEntity [LawfulEntity α] {k : Entity.Key α} {f : Option α → Program γ}
    (hnone : (f none).Files α)
    (hsome : ∀ a : α, Entity.Fits a → Entity.key a = k → (f (some a)).Files α) :
    (Program.readEntity k >>= f).Files α := by
  intro v hv
  cases v with
  | error e => trivial
  | ok found =>
    cases found with
    | none => exact hnone
    | some value =>
      obtain ⟨a, hfits, hkey, hdecode⟩ := (hv value rfl).decode
      show (f (Entity.decode (Entity.storeKey k) value).toOption).Files α
      rw [hdecode]
      exact hsome _ hfits.restored ((Entity.key_restored a).trans hkey)

theorem writeEntity_files {a : α} (h : Entity.Fits a) : (writeEntity a).Files α :=
  ⟨Request.files_of_own h rfl, trivial⟩

theorem eraseEntity_files (k : Entity.Key α) : (eraseEntity k).Files α :=
  ⟨fun _ => ⟨k, rfl⟩, trivial⟩

end Program

namespace Session.Files

variable {t : Session} {key : String}

theorem start (rev : Revision) : (Session.start rev).Files α := by
  constructor
  · intro key value h
    have h : (∅ : Std.ExtTreeMap String (Option Bytes))[key]? = some value := h
    rw [Std.ExtTreeMap.getElem?_empty] at h
    cases h
  · intro key stored h
    have h : (∅ : Std.ExtTreeMap String (Option Stored))[key]? = some (some stored) := h
    rw [Std.ExtTreeMap.getElem?_empty] at h
    cases h

theorem plan (h : t.Files α) {value : Option Bytes} (hw : (toWrite (key, value)).Files α) :
    (t.plan key value).Files α := by
  refine ⟨fun k v hk => ?_, h.reads⟩
  have hk : (t.writes.insert key value)[k]? = some v := hk
  rw [Contents.getElem?_insert] at hk
  split at hk
  · rename_i heq
    rw [heq, ← Option.some.inj hk]
    exact hw
  · exact h.writes k v hk

theorem observe (h : t.Files α) {m : Contents} (hm : m.Recorded α) :
    (t.observe key m[key]?).Files α := by
  refine ⟨h.writes, fun k stored hk => ?_⟩
  rw [getElem?_observe] at hk
  split at hk
  · rename_i heq
    rw [heq]
    exact hm key stored (Option.some.inj hk)
  · exact h.reads k stored hk

/-- What is known was planned or found. -/
theorem known (h : t.Files α) {value : Option Bytes} (hk : t.known? key = some value) :
    Program.Told α key (.ok value) := by
  intro bytes heq
  obtain rfl := Except.ok.inj heq
  unfold known? at hk
  cases hw : t.writes[key]? with
  | some planned =>
    rw [hw] at hk
    obtain rfl := Option.some.inj hk
    exact h.writes key (some bytes) hw
  | none =>
    rw [hw] at hk
    obtain ⟨found, hfound, hvalue⟩ := Option.map_eq_some_iff.1 hk
    obtain ⟨stored, rfl, rfl⟩ := Option.map_eq_some_iff.1 hvalue
    exact h.reads key stored hfound

theorem request (h : t.Files α) : (Op.txn t.request).Files α := by
  intro w hw
  obtain ⟨value, hvalue, hwrite⟩ := (t.mem_writes w).1 hw
  rw [← hwrite]
  exact h.writes w.key value hvalue

end Session.Files

/-- What others are going to do files. -/
def Shared.Files (α : Type) [Entity α] (who : Subscriber) (w : Shared) : Prop :=
  ∀ ops ∈ w.others, ∀ op ∈ ops, op.FilesAside α who

namespace Shared.Files

variable {w : Shared}

/-- A turn of the others. -/
theorem turn (h : w.Files α who) : w.turn.Files α who ∧ w.store.ByFiling α who w.turn.store := by
  refine ⟨fun ops hops => h ops (List.mem_of_mem_tail hops), .all (fun op hop => ?_) w.store⟩
  -- a turn is the first of what the others are going to do
  cases ho : w.others with
  | nil => rw [ho] at hop; cases hop
  | cons ops rest =>
    rw [ho] at hop
    exact h ops (ho ▸ List.mem_cons_self) op hop

/-- A read is told what was filed. -/
theorem get {r : Running} (h : r.toShared.Files α who) (hm : r.store.contents.Recorded α)
    (ht : r.session.Files α) (key : String) :
    (r.get key).2.toShared.Files α who ∧ r.store.ByFiling α who (r.get key).2.store ∧
      (r.get key).2.session.Files α ∧ Program.Told α key (r.get key).1 := by
  cases hk : r.session.known? key with
  | some value => rw [Running.get_of_known hk]; exact ⟨h, .refl _, ht, ht.known hk⟩
  | none =>
    obtain ⟨hothers, hturn⟩ := h.turn
    have hafter := hturn.recorded hm
    cases ho : r.toShared.turn.store.closed with
    | true =>
      rw [Running.get_of_closed hk ho]
      exact ⟨hothers, hturn, ht, fun value heq => (nomatch heq)⟩
    | false =>
      rw [Running.get_of_unknown hk ho]
      refine ⟨hothers, hturn, ht.observe hafter, fun value heq => ?_⟩
      obtain ⟨stored, hstored, rfl⟩ := Option.map_eq_some_iff.1 (Except.ok.inj heq)
      exact hafter key stored hstored

/-- A body that files plans only writes that file. -/
theorem run {p : Program β} {r : Running} (h : r.toShared.Files α who)
    (hm : r.store.contents.Recorded α) (hp : p.Files α) (ht : r.session.Files α) :
    (p.run r).2.toShared.Files α who ∧ r.store.ByFiling α who (p.run r).2.store ∧
      (p.run r).2.session.Files α := by
  induction p generalizing r with
  | pure b => exact ⟨h, .refl _, ht⟩
  | fail e => exact ⟨h, .refl _, ht⟩
  | revision key next ih => exact ih _ h hm (hp _) ht
  | snapshot next ih => exact ih _ h hm (hp _) ht
  | plan key value next ih => exact ih (r := r.plan key value) h hm hp.2 (ht.plan hp.1)
  | get key next ih =>
    obtain ⟨hothers, hstore, hsession, htold⟩ := h.get hm ht key
    obtain ⟨h1, h2, h3⟩ :=
      ih (r.get key).1 hothers (hstore.recorded hm) (hp _ htold) hsession
    exact ⟨h1, hstore.trans h2, h3⟩

theorem commit {r : Running} (h : r.toShared.Files α who) (ht : r.session.Files α) :
    r.commit.2.Files α who ∧ r.store.ByFiling α who r.commit.2.store :=
  ⟨h.turn.1, h.turn.2.trans (.one (.txn r.session.request) ⟨ht.request, nofun⟩ _)⟩

theorem tryOnce {p : Program Unit} (h : w.Files α who) (hm : w.store.contents.Recorded α)
    (hp : p.Files α) (n : Nat) :
    (tryOnce (p.body n) w ()).2.1.Files α who ∧
      w.store.ByFiling α who (Inventory.tryOnce (p.body n) w ()).2.1.store := by
  obtain ⟨hothers, hstore⟩ := h.turn
  unfold Inventory.tryOnce Running.begin Program.body
  simp only
  cases w.turn.store.currentRevision.1 with
  | error e => exact ⟨hothers, hstore⟩
  | ok rev =>
    obtain ⟨h1, h2, h3⟩ := Shared.Files.run (r := ⟨w.turn, .start rev⟩) hothers
      (hstore.recorded hm) hp (.start rev)
    obtain ⟨h4, h5⟩ := Shared.Files.commit h1 h3
    simp only [Except.map]
    cases hr : p.run ⟨w.turn, .start rev⟩ with
    | mk result r =>
      rw [hr] at h1 h2 h4 h5
      cases result with
      | error e => exact ⟨h1, hstore.trans h2⟩
      | ok u => exact ⟨h4, (hstore.trans h2).trans h5⟩

/-- **A transaction that puts and deletes entities does nothing to the store but operations that
file.** -/
theorem transactFrom {p : Program Unit} (hp : p.Files α) (attempts left : Nat) (last : String)
    (h : w.Files α who) (hm : w.store.contents.Recorded α) :
    w.store.ByFiling α who (transactFrom attempts p.body left last w ()).2.1.store := by
  induction left generalizing last w with
  | zero => exact .refl _
  | succ left ih =>
    obtain ⟨hothers, hstore⟩ := h.tryOnce hm hp (attempts - (left + 1))
    unfold Inventory.transactFrom
    cases ht : Inventory.tryOnce (p.body (attempts - (left + 1))) w () with
    | mk result rest =>
      rw [ht] at hothers hstore
      cases result with
      | committed rev => exact hstore
      | failed e => exact hstore
      | conflicted m => exact hstore.trans (ih m hothers (hstore.recorded hm))

end Shared.Files

end Transactions

/-! ## Everything that is done -/

/-- What is done to a store: a typed request, a transaction, or another operation. -/
inductive Deed (α : Type) [Entity α] where
  | request (q : Request α)
  | transaction (policy : RetryPolicy) (p : Program Unit) (others : List (List Op))
  | op (op : Op)

namespace Deed

variable {α : Type} [Entity α] {who : Subscriber}

/-- The store after a deed. -/
def run : Deed α → Store → Store
  | request q, s => q.run s
  | transaction policy p others, s => (transact policy p ⟨s, others⟩).2.store
  | op o, s => (o.run s).2

/-- The records of the type are written only as entities, in the names of others than a
subscriber. -/
def Files (who : Subscriber) : Deed α → Prop
  | request q => q.Files who
  | transaction _ p others => p.Files α ∧ ∀ ops ∈ others, ∀ op ∈ ops, op.FilesAside α who
  | op o => o.FilesAside α who

variable [LawfulEntity α] {s : Store}

/-- **Whatever is done to the records of a type through its entities** is done by operations that
file. -/
theorem byFiling (h : s.contents.Recorded α) {d : Deed α} (hd : d.Files who) :
    s.ByFiling α who (d.run s) := by
  cases d with
  | request q => exact Request.byFiling h hd
  | transaction policy p others =>
    obtain ⟨hp, hothers⟩ := hd
    exact Shared.Files.transactFrom (w := ⟨s, others⟩) hp policy.attempts policy.attempts "" hothers
      h
  | op op => exact .one op hd s

end Deed

end Inventory
