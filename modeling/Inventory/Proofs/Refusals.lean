import Inventory.Entity.Flavor
import Inventory.Proofs.Reading
import Inventory.Proofs.Update

/-!
# What fails leaves no trace

An operation, a typed request or a transaction that fails has done nothing. Others may have used
the store meanwhile, so what is left is what they have made of it.

* `Program.run_turns`: the body of a transaction does nothing to the store.
* `transactFrom_turns`: a transaction whose body does nothing to the store commits, or does nothing
  either.
* `failures_leave_no_trace`: **whatever fails leaves no trace.**
-/

namespace Inventory

/-! ## Transactions that fail -/

section Transactions

variable {σ : Type} {w w' : Shared} {r : Running}

/-- A commit that is refused does nothing to the store. -/
theorem Running.commit_turns (r : Running) :
    (∃ rev, r.commit.1 = .ok rev) ∨ ∃ ops, r.toShared.Turns ops r.commit.2 := by
  have hturn : r.toShared.Turns _ r.toShared.turn := (Shared.Turns.none r.toShared).turn
  cases h : r.commit.1 with
  | ok rev => exact .inl ⟨rev, rfl⟩
  | error e =>
    have hsame : ((Op.txn r.session.request).run r.toShared.turn.store).2 =
        r.toShared.turn.store := by
      refine Op.run_of_error (e := e) ?_
      exact congrArg (Except.map Reply.revision) h
    have hcommit : r.commit.2 = r.toShared.turn :=
      congrArg (fun store => (⟨store, r.toShared.turn.others⟩ : Shared)) hsame
    exact .inr ⟨_, hcommit ▸ hturn⟩

theorem Running.get_turns (r : Running) (key : String) :
    ∃ ops, r.toShared.Turns ops (r.get key).2.toShared := by
  cases hk : r.session.known? key with
  | some value => exact ⟨[], by rw [get_of_known hk]; exact .none _⟩
  | none =>
    have hturn : r.toShared.Turns _ r.toShared.turn := (Shared.Turns.none r.toShared).turn
    cases ho : r.toShared.turn.store.closed with
    | true => exact ⟨_, by rw [get_of_closed hk ho]; exact hturn⟩
    | false => exact ⟨_, by rw [get_of_unknown hk ho]; exact hturn⟩

/-- **The body of a transaction does nothing to the store.** -/
theorem Program.run_turns {α : Type} (p : Program α) (r : Running) :
    ∃ ops, r.toShared.Turns ops (p.run r).2.toShared := by
  induction p generalizing r with
  | pure a => exact ⟨[], .none _⟩
  | fail e => exact ⟨[], .none _⟩
  | revision key next ih => exact ih _ r
  | snapshot next ih => exact ih _ r
  | plan key value next ih => exact ih (r.plan key value)
  | get key next ih =>
    obtain ⟨ops, hread⟩ := r.get_turns key
    obtain ⟨ops', hrest⟩ := ih (r.get key).1 (r.get key).2
    exact ⟨ops ++ ops', hread.trans hrest⟩

/-- A body that does nothing to the store by itself. -/
def Body.Idle (body : Body σ) : Prop :=
  ∀ (n : Nat) (r : Running) (x : σ), ∃ ops, r.toShared.Turns ops (body n r x).2.1.toShared

theorem Program.body_idle (p : Program Unit) : Body.Idle p.body := fun _ r _ => p.run_turns r

/-- A try commits, or it does nothing to the store. -/
theorem tryOnce_turns {body : Body σ} (h : Body.Idle body) (n : Nat) (w : Shared) (x : σ) :
    (∃ rev, (tryOnce (body n) w x).1 = .committed rev) ∨
      ∃ ops, w.Turns ops (tryOnce (body n) w x).2.1 := by
  have hbegin : w.Turns _ w.turn := (Shared.Turns.none w).turn
  unfold tryOnce
  cases hb : Running.begin w with
  | mk result w₁ =>
    obtain rfl : w.turn = w₁ := congrArg Prod.snd hb
    cases result with
    | error e => exact .inr ⟨_, hbegin⟩
    | ok begun =>
      simp only
      have hbegun : begun.toShared = w.turn := by
        rw [Running.begin_ok (congrArg Prod.fst hb)]
      obtain ⟨during, hduring⟩ := h n begun x
      rw [hbegun] at hduring
      have hended := hbegin.trans hduring
      cases hr : body n begun x with
      | mk result rest =>
        rw [hr] at hended
        cases result with
        | error e => exact .inr ⟨_, hended⟩
        | ok u =>
          simp only
          rcases rest.1.commit_turns with ⟨rev, hrev⟩ | ⟨last, hlast⟩
          · exact .inl ⟨rev, by rw [hrev]; rfl⟩
          · exact .inr ⟨_, hended.trans hlast⟩

/-- **A transaction commits, or it does nothing to the store**, however often it is tried. -/
theorem transactFrom_turns {body : Body σ} (h : Body.Idle body) (attempts left : Nat)
    (last : String) (w : Shared) (x : σ) :
    (∃ rev, (transactFrom attempts body left last w x).1 = .ok rev) ∨
      ∃ ops, w.Turns ops (transactFrom attempts body left last w x).2.1 := by
  induction left generalizing last w x with
  | zero => exact .inr ⟨[], .none _⟩
  | succ left ih =>
    have htry := tryOnce_turns h (attempts - (left + 1)) w x
    unfold transactFrom
    cases ht : tryOnce (body (attempts - (left + 1))) w x with
    | mk result rest =>
      obtain ⟨w₁, x₁⟩ := rest
      rw [ht] at htry
      cases result with
      | committed rev => exact .inl ⟨rev, rfl⟩
      | failed e =>
        rcases htry with ⟨rev, hrev⟩ | hturns
        · cases hrev
        · exact .inr hturns
      | conflicted m =>
        rcases htry with ⟨rev, hrev⟩ | ⟨ops, hturns⟩
        · cases hrev
        -- a conflict has done nothing, and the next try begins where it ended
        · rcases ih m w₁ x₁ with hcommitted | ⟨ops', hrest⟩
          · exact .inl hcommitted
          · exact .inr ⟨ops ++ ops', hturns.trans hrest⟩

end Transactions

/-! ## Whatever fails -/

/-- What is promised of all that can fail on a store that holds entities of a type. A store is its
keys with all that is recorded of them, its revision and its subscriptions with the events that wait
in them; so a store that stays the same has told nobody anything. -/
structure FailuresLeaveNoTrace (α : Type) [Entity α] : Prop where
  operation : ∀ (op : Op) (s : Store) (e : KvError),
    (op.run s).1 = .error e → (op.run s).2 = s
  /-- What is left is what others have done between the read and the write of the request. -/
  request : ∀ (q : Request α) (s : Store) (e : StoreError),
    (q.outcome s).1 = .error e → (q.outcome s).2 = Op.runAll q.meanwhile s
  /-- Nobody is told a revision. -/
  unheard : ∀ (q : Request α) (s : Store) (e : StoreError), (q.outcome s).1 = .error e →
    ∀ (σ : Type) (hook : Option (Revision → σ → σ)) (x : σ),
      Entity.notify hook (q.outcome s).1 x = x
  /-- What is left is what others have done at their turns. -/
  transaction : ∀ (policy : RetryPolicy) (p : Program Unit) (w : Shared) (e : StoreError),
    (transact policy p w).1 = .error e → ∃ ops, w.Turns ops (transact policy p w).2

/-- **Whatever fails leaves no trace**, for whatever reason and in whatever state of the store. -/
theorem failures_leave_no_trace (α : Type) [Entity α] : FailuresLeaveNoTrace α where
  operation op s e h := Op.run_of_error h
  request q s e h := Request.outcome_of_error h
  unheard q s e h σ hook x := by
    rw [h]
    cases hook <;> rfl
  transaction policy p w e h := by
    have hturns := transactFrom_turns p.body_idle policy.attempts policy.attempts "" w ()
    rw [transact_eq] at h ⊢
    exact hturns.resolve_left fun ⟨rev, hok⟩ => nomatch h.symm.trans hok

namespace Crowded

/-- A flavor of a size. -/
def sized (ram : UInt64) : Flavor := ⟨[], ⟨"x"⟩, ram, 1, 0⟩

/-- The store key of the flavor. -/
def place : String := Entity.storeKey (Entity.key (sized 0))

/-- Stores the flavor. -/
def file (ram : UInt64) : Op := .put place (Entity.encode (sized ram))

/-- The flavor is stored, and another key beside it. -/
def start : Store := Op.runAll [file 1, .put "a" [1]] .empty

/-- A commit that would delete one key and put another, but has read one that has changed since. -/
def commit : Op := .txn ⟨[("a", 1)], none, [.delete place, .put "b" [2]]⟩

/-- An update over which another one comes first. -/
def update : Request Flavor := .update (sized 2) (Entity.fullMask Flavor) [file 3]

/-- Copies one key to another. -/
def copy : Program Unit := do
  match ← Program.read "a" with
  | some value => Program.write "b" value
  | none => return ()

/-- Somebody puts the key again whenever it has been read. -/
def rush : Shared := ⟨start, (List.replicate 3 [[], [], [.put "a" [2]]]).flatten⟩

/-- A transaction is tried three times. -/
def policy : RetryPolicy := ⟨3, 0, 0, .zero, false⟩

end Crowded

/-- A commit, an update and a transaction that come too late leave no trace. -/
theorem failures_leave_no_trace_in_a_crowd :
    (Crowded.commit.run Crowded.start).2 = Crowded.start ∧
      (Crowded.update.outcome Crowded.start).2 =
        Op.runAll Crowded.update.meanwhile Crowded.start ∧
      Entity.notify (some List.cons) (Crowded.update.outcome Crowded.start).1 [] = [] ∧
      ∃ ops, Crowded.rush.Turns ops (transact Crowded.policy Crowded.copy Crowded.rush).2 := by
  have hupdate : (Crowded.update.outcome Crowded.start).1 =
      .error (.conflict (Store.movedMessage Crowded.place 3 1)) := by decide +kernel
  have h := failures_leave_no_trace Flavor
  refine ⟨?commit, h.request _ _ _ hupdate, h.unheard _ _ _ hupdate _ _ _, ?transaction⟩
  case commit =>
    refine h.operation _ _ (.conflict "read key a moved from rev:1 to rev:2") ?_
    decide +kernel
  case transaction =>
    refine h.transaction _ _ _
      (.conflict "transaction failed after 3 attempts: read key a moved from rev:4 to rev:5") ?_
    decide +kernel

end Inventory
