import Inventory.Entity.Operations
import Inventory.Proofs.CommitLog

/-!
# How a typed request ends

A typed request checks its entity, reads the record if it has to, and ends with one operation on
the store. What it reads decides which operation that is, and others may do anything before it.

* `Request.closing`: the operation that a request ends with, or why there is none.
* `Request.ends`: **a request is refused with nothing done but by others, or it does the closing
  operation and is answered what that is answered.**
* `Request.plans_of_closing`: the four operations that a request can end with.
* `Request.outcome_of_error`, `Request.outcome_of_ok`: a request that fails leaves no trace, and one
  that succeeds makes a commit and is told its revision.
-/

namespace Inventory

/-! ## Operations on entities -/

theorem Store.contents_of_get {s : Store} {k : String} {found : Option Stored}
    (h : (s.get k).1 = .ok found) : s.contents[k]? = found := by
  unfold get ifOpen at h
  split at h
  · cases h
  · exact Except.ok.inj h

namespace Entity

variable {α : Type} [Entity α] {a : α} {mask : FieldMap} {s : Store}

theorem create_of_valid (h : validate (fullMask α) a = .ok ()) :
    create a s = lift (s.create (storeKey (key a)) (encode a)) := by
  unfold create
  rw [h]

theorem create_of_invalid {e : StoreError} (h : validate (fullMask α) a = .error e) :
    create a s = (.error e, s) := by
  unfold create
  rw [h]

theorem delete_of_valid (h : validateKey a = .ok ()) :
    delete a s = lift (s.delete (storeKey (key a))) := by
  unfold delete
  rw [h]

theorem delete_of_invalid {e : StoreError} (h : validateKey a = .error e) :
    delete a s = (.error e, s) := by
  unfold delete
  rw [h]

theorem update_of_invalid {e : StoreError} (h : validate mask a = .error e) (others : List Op)
    (s : Store) : update a mask others s = (.error e, s) := by
  unfold update
  rw [h]

theorem put_of_invalid {e : StoreError} (h : validate mask a = .error e) (others : List Op)
    (s : Store) : put a mask others s = (.error e, s) := by
  unfold put
  rw [h]

/-- A put starts from what it found, or from an entity with zero values. -/
def start (a : α) : Option Stored → StoreResult α
  | some stored => decode (storeKey (key a)) stored.value
  | none => .ok (fresh (key a))

end Entity

/-! ## What a request does -/

/-- A typed request, with what others do while it is between its read and its write. -/
inductive Request (α : Type) [Entity α] where
  | create (a : α)
  | update (a : α) (mask : FieldMap) (others : List Op)
  | put (a : α) (mask : FieldMap) (others : List Op)
  | delete (a : α)

namespace Request

variable {α : Type} [Entity α] {q : Request α} {s : Store} {op : Op}

/-- The store after a request. -/
def run : Request α → Store → Store
  | create a, s => (Entity.create a s).2
  | update a mask others, s => (Entity.update a mask others s).2
  | put a mask others, s => (Entity.put a mask others s).2
  | delete a, s => (Entity.delete a s).2

/-- The answer to a request and the store after it. -/
def outcome : Request α → Store → StoreResult Revision × Store
  | create a, s => Entity.create a s
  | update a mask others, s => Entity.update a mask others s
  | put a mask others, s => Entity.put a mask others s
  | delete a, s => Entity.delete a s

theorem run_eq_outcome (q : Request α) (s : Store) : q.run s = (q.outcome s).2 := by
  cases q <;> rfl

/-- The entity of a request. -/
def subject : Request α → α
  | create a | update a _ _ | put a _ _ | delete a => a

/-- The check of a request. -/
def check : Request α → StoreResult Unit
  | create a => Entity.validate (Entity.fullMask α) a
  | update a mask _ | put a mask _ => Entity.validate mask a
  | delete a => Entity.validateKey a

/-- What others do between the read and the write of a request. -/
def others : Request α → List Op
  | update _ _ others | put _ _ others => others
  | create _ | delete _ => []

/-- What others do while a request is under way; they do not get the time where its check refuses
it. -/
def meanwhile (q : Request α) : List Op :=
  match q.check with
  | .ok () => q.others
  | .error _ => []

/-- What a checked request does once it has read what it needs. -/
def plan : Request α → Store → StoreResult Op
  | create a, _ => .ok (.create (Entity.storeKey (Entity.key a)) (Entity.encode a))
  | update a mask _, s =>
    match (s.get (Entity.storeKey (Entity.key a))).1 with
    | .error e => .error (.ofKv e)
    | .ok none => .error (.notFound (Entity.storeKey (Entity.key a)))
    | .ok (some stored) =>
      match Entity.decode (Entity.storeKey (Entity.key a)) stored.value with
      | .error e => .error e
      | .ok current =>
        .ok (.update (Entity.storeKey (Entity.key a)) (Entity.encode (Entity.merge mask current a))
          stored.modRevision)
  | put a mask _, s =>
    match (s.get (Entity.storeKey (Entity.key a))).1 with
    | .error e => .error (.ofKv e)
    | .ok found =>
      match Entity.start a found with
      | .error e => .error e
      | .ok current =>
        .ok (.put (Entity.storeKey (Entity.key a)) (Entity.encode (Entity.merge mask current a)))
  | delete a, _ => .ok (.delete (Entity.storeKey (Entity.key a)))

/-- The operation that a request ends with, or why there is none. -/
def closing (q : Request α) (s : Store) : StoreResult Op :=
  match q.check with
  | .error e => .error e
  | .ok () => q.plan s

/-- All that is done to a store while a request is under way. -/
def ops (q : Request α) (s : Store) : List Op :=
  q.meanwhile ++ (q.closing s).toOption.toList

/-! ## How it ends -/

/-- A request is refused before it does anything, or it does the operation that it ends with and is
answered what that is answered. -/
inductive Ends (q : Request α) (s : Store) : Prop where
  | refused (e : StoreError) (closing : q.closing s = .error e)
      (outcome : q.outcome s = (.error e, Op.runAll q.meanwhile s))
  | closed (op : Op) (r : KvResult Revision) (closing : q.closing s = .ok op)
      (reply : (op.run (Op.runAll q.meanwhile s)).1 = r.map .revision)
      (outcome : q.outcome s = (r.lift, (op.run (Op.runAll q.meanwhile s)).2))

theorem closing_of_check_ok (h : q.check = .ok ()) (s : Store) : q.closing s = q.plan s := by
  unfold closing
  rw [h]

theorem meanwhile_of_check_ok (h : q.check = .ok ()) : q.meanwhile = q.others := by
  unfold meanwhile
  rw [h]

/-- A request that its check refuses does nothing. -/
theorem ends_of_check_error {e : StoreError} (h : q.check = .error e) (s : Store) :
    q.Ends s := by
  have hclosing : q.closing s = .error e := by
    unfold closing
    rw [h]
  have hmeanwhile : q.meanwhile = [] := by
    unfold meanwhile
    rw [h]
  have houtcome : q.outcome s = (.error e, s) := by
    cases q with
    | create a => exact Entity.create_of_invalid h
    | update a mask others => exact Entity.update_of_invalid h others s
    | put a mask others => exact Entity.put_of_invalid h others s
    | delete a => exact Entity.delete_of_invalid h
  exact .refused e hclosing (by rw [hmeanwhile]; exact houtcome)

/-- A request with nothing to read does its write. -/
theorem ends_of_write {r : KvResult Revision × Store} (h : q.check = .ok ())
    (hothers : q.others = []) (hplan : q.plan s = .ok op) (hop : op.run s = Op.answer .revision r)
    (houtcome : q.outcome s = Entity.lift r) : q.Ends s := by
  have hmeanwhile : q.meanwhile = [] := (meanwhile_of_check_ok h).trans hothers
  refine .closed op r.1 ((closing_of_check_ok h s).trans hplan) ?_ ?_ <;> rw [hmeanwhile]
  · exact congrArg Prod.fst hop
  · rw [houtcome]
    exact congrArg (Prod.mk r.1.lift) (congrArg Prod.snd hop).symm

/-- An update goes as far as what it reads lets it. -/
theorem ends_update {a : α} {mask : FieldMap} {others : List Op}
    (h : Entity.validate mask a = .ok ()) (s : Store) : (update a mask others).Ends s := by
  have hmeanwhile : (update a mask others).meanwhile = others :=
    meanwhile_of_check_ok (q := update a mask others) h
  have hclosing := closing_of_check_ok (q := update a mask others) h s
  simp only [plan] at hclosing
  cases hfound : (s.get (Entity.storeKey (Entity.key a))).1 with
  | error e =>
    rw [hfound] at hclosing
    refine .refused _ hclosing ?_
    simp only [outcome, Entity.update, h, hfound, hmeanwhile]
  | ok found =>
    rw [hfound] at hclosing
    cases found with
    | none =>
      refine .refused _ hclosing ?_
      simp only [outcome, Entity.update, h, hfound, hmeanwhile]
    | some stored =>
      cases hcurrent :
          (Entity.decode (Entity.storeKey (Entity.key a)) stored.value : StoreResult α) with
      | error e =>
        simp only [hcurrent] at hclosing
        refine .refused _ hclosing ?_
        simp only [outcome, Entity.update, h, hfound, hcurrent, hmeanwhile]
      | ok current =>
        simp only [hcurrent] at hclosing
        refine .closed _ _ hclosing rfl ?_
        simp only [outcome, Entity.update, h, hfound, hcurrent, hmeanwhile]
        rfl

/-- A put goes as far as what it reads lets it. -/
theorem ends_put {a : α} {mask : FieldMap} {others : List Op}
    (h : Entity.validate mask a = .ok ()) (s : Store) : (put a mask others).Ends s := by
  have hmeanwhile : (put a mask others).meanwhile = others :=
    meanwhile_of_check_ok (q := put a mask others) h
  have hclosing := closing_of_check_ok (q := put a mask others) h s
  simp only [plan] at hclosing
  cases hfound : (s.get (Entity.storeKey (Entity.key a))).1 with
  | error e =>
    rw [hfound] at hclosing
    refine .refused _ hclosing ?_
    simp only [outcome, Entity.put, h, hfound, hmeanwhile]
  | ok found =>
    rw [hfound] at hclosing
    -- whatever was found, the others come before it is read
    have hstart : (put a mask others).outcome s =
        match Entity.start a found with
        | .error e => (.error e, Op.runAll others s)
        | .ok current => Entity.lift ((Op.runAll others s).put
            (Entity.storeKey (Entity.key a)) (Entity.encode (Entity.merge mask current a))) := by
      simp only [outcome, Entity.put, h, hfound]
      cases found <;> rfl
    cases hcurrent : Entity.start a found with
    | error e =>
      simp only [hcurrent] at hclosing hstart
      refine .refused _ hclosing ?_
      rw [hmeanwhile, hstart]
    | ok current =>
      simp only [hcurrent] at hclosing hstart
      refine .closed _ _ hclosing rfl ?_
      rw [hmeanwhile, hstart]
      rfl

/-- **How a request ends.** -/
theorem ends (q : Request α) (s : Store) : q.Ends s := by
  cases hcheck : q.check with
  | error e => exact ends_of_check_error hcheck s
  | ok u =>
    cases q with
    | create a => exact ends_of_write hcheck rfl rfl rfl (Entity.create_of_valid hcheck)
    | update a mask others => exact ends_update hcheck s
    | put a mask others => exact ends_put hcheck s
    | delete a => exact ends_of_write hcheck rfl rfl rfl (Entity.delete_of_valid hcheck)

/-! ## What it comes to -/

/-- A request that fails leaves the store to what others have done. -/
theorem outcome_of_error {e : StoreError} (h : (q.outcome s).1 = .error e) :
    (q.outcome s).2 = Op.runAll q.meanwhile s := by
  rcases q.ends s with ⟨e', -, houtcome⟩ | ⟨op, r, -, hreply, houtcome⟩
  · rw [houtcome]
  · rw [houtcome] at h ⊢
    cases r with
    | ok rev => cases h
    | error e' => exact Op.run_of_error hreply

/-- All that a request and others do meanwhile. -/
theorem outcome_eq_ops (q : Request α) (s : Store) :
    (q.outcome s).2 = Op.runAll (q.ops s) s := by
  unfold ops
  rcases q.ends s with ⟨e, hclosing, houtcome⟩ | ⟨op, r, hclosing, -, houtcome⟩
  · rw [houtcome, hclosing]
    exact congrArg (Op.runAll · s) (List.append_nil _).symm
  · rw [houtcome, hclosing]
    exact (Op.runAll_append q.meanwhile [op] s).symm

/-- What the operations are that requests end with, where a store holds what they have read. -/
inductive Plans (s : Store) : Request α → Op → Prop where
  | create (a : α) :
    Plans s (create a) (.create (Entity.storeKey (Entity.key a)) (Entity.encode a))
  | update {a current : α} {mask : FieldMap} {others : List Op} {stored : Stored}
    (found : s.contents[Entity.storeKey (Entity.key a)]? = some stored)
    (read : Entity.decode (Entity.storeKey (Entity.key a)) stored.value = .ok current) :
    Plans s (update a mask others) (.update (Entity.storeKey (Entity.key a))
      (Entity.encode (Entity.merge mask current a)) stored.modRevision)
  | put {a current : α} {mask : FieldMap} {others : List Op}
    (start : Entity.start a s.contents[Entity.storeKey (Entity.key a)]? = .ok current) :
    Plans s (put a mask others) (.put (Entity.storeKey (Entity.key a))
      (Entity.encode (Entity.merge mask current a)))
  | delete (a : α) : Plans s (delete a) (.delete (Entity.storeKey (Entity.key a)))

theorem check_of_closing (h : q.closing s = .ok op) : q.check = .ok () := by
  unfold closing at h
  split at h
  · cases h
  · assumption

theorem plans_of_closing (h : q.closing s = .ok op) : Plans s q op := by
  rw [closing_of_check_ok (check_of_closing h)] at h
  unfold plan at h
  cases q with
  | create a =>
    cases h
    exact .create a
  | delete a =>
    cases h
    exact .delete a
  | update a mask others =>
    simp only at h
    split at h
    · cases h
    · cases h
    · rename_i stored hfound
      split at h
      · cases h
      · rename_i current hread
        cases h
        exact .update (Store.contents_of_get hfound) hread
  | put a mask others =>
    simp only at h
    split at h
    · cases h
    · rename_i found hfound
      obtain rfl := Store.contents_of_get hfound
      split at h
      · cases h
      · rename_i current hstart
        cases h
        exact .put hstart

/-- The operation that a request ends with writes the record of its entity. -/
theorem closing_asks (h : q.closing s = .ok op) :
    op.isEdit = true ∧ op.subscriber? = none ∧
      op.targets = [Entity.storeKey (Entity.key q.subject)] := by
  cases plans_of_closing h <;> exact ⟨rfl, rfl, rfl⟩

/-- **A request that succeeds makes a commit** and is told its revision. -/
theorem outcome_of_ok {rev : Revision} (h : (q.outcome s).1 = .ok rev) :
    ∃ op, q.ops s = q.meanwhile ++ [op] ∧ op.targets = [Entity.storeKey (Entity.key q.subject)] ∧
      op.events (Op.runAll q.meanwhile s) ≠ [] ∧ rev = (Op.runAll q.meanwhile s).revision.next := by
  rcases q.ends s with ⟨e, -, houtcome⟩ | ⟨op, r, hclosing, hreply, houtcome⟩
  · rw [houtcome] at h
    cases h
  · rw [houtcome] at h
    cases r with
    | error e => cases h
    | ok rev' =>
      obtain rfl := Except.ok.inj h
      obtain ⟨hedit, -, htargets⟩ := closing_asks hclosing
      have hchange := Op.events_of_edit hedit hreply
      refine ⟨op, by unfold ops; rw [hclosing]; rfl, htargets, hchange, ?_⟩
      have hrev : Reply.revision rev' = .revision (Op.runAll q.meanwhile s).revision.next :=
        Except.ok.inj (hreply.symm.trans (Op.answer_of_events hchange))
      exact Reply.revision.inj hrev

end Request

end Inventory
