import Inventory.Proofs.Clients
import Inventory.Proofs.Requests

/-!
# Typed requests among many clients

Beside transactions, clients make typed requests, any number of them at once. A request takes a step
to check its entity and read the record, and another to write; what others do in between is chosen
freely, and so is who takes the next step.

* `Crowd`: a store with the transactions and the typed requests of its clients.
* `Crowd.call_result`: a transaction ends as `transact` does when the others do meanwhile what they
  did.
* `Crowd.request_result`: **a request is told what it is told when the others do meanwhile what they
  did.**
-/

namespace Inventory

/-! ## Requests under way -/

/-- How far a typed request has come: it has yet to begin, it has read what it needs and is about to
do an operation, or it has ended. -/
inductive Stage where
  | begun
  | writing (op : Op)
  | ended (result : StoreResult Reply)

/-- A typed request of a client. What the others do meanwhile is not told by the request here. -/
structure Pending (α : Type) [Entity α] where
  request : Request α
  stage : Stage

namespace Pending

variable {α : Type} [Entity α] {p : Pending α} {s : Store}

/-- A request that is about to begin. -/
def fresh (q : Request α) : Pending α := ⟨q, .begun⟩

/-- The next step of a typed request, and the store after it. -/
def step (p : Pending α) (s : Store) : Stage × Store :=
  match p.stage with
  | .begun =>
    match p.request.closing s with
    | .ok op => (.writing op, s)
    | .error e => (.ended (.error e), s)
  | .writing op => (.ended (op.run s).1.lift, (op.run s).2)
  | .ended result => (.ended result, s)

/-- A step of a typed request is an operation on the store, or none. -/
theorem step_store (p : Pending α) (s : Store) :
    (p.step s).2 = s ∨ ∃ op : Op, (p.step s).2 = (op.run s).2 := by
  obtain ⟨q, stage⟩ := p
  cases stage with
  | begun => unfold step; simp only; split <;> exact .inl rfl
  | writing op => exact .inr ⟨op, rfl⟩
  | ended result => exact .inl rfl

end Pending

/-- What happens next: a client takes a step in a transaction or does something else to the store,
or one takes a step in a typed request. -/
inductive CrowdMove where
  | client (m : Move)
  | request (i : Nat)

/-- A store with the transactions and the typed requests of its clients. -/
structure Crowd (α : Type) [Entity α] extends Clients where
  requests : List (Pending α)

namespace Crowd

variable {α : Type} [Entity α] {st : Crowd α} {i : Nat} {p : Pending α}

/-- The next move. -/
def move (st : Crowd α) : CrowdMove → Crowd α
  | .client m => ⟨st.toClients.move m, st.requests⟩
  | .request i =>
    match st.requests[i]? with
    | none => st
    | some p =>
      ⟨⟨(p.step st.store).2, st.calls⟩, st.requests.set i { p with stage := (p.step st.store).1 }⟩

/-- Moves one after another. -/
def run (st : Crowd α) (moves : List CrowdMove) : Crowd α := moves.foldl move st

@[simp] theorem run_cons (st : Crowd α) (m : CrowdMove) (moves : List CrowdMove) :
    st.run (m :: moves) = (st.move m).run moves := rfl

theorem move_client (st : Crowd α) (m : Move) :
    st.move (.client m) = ⟨st.toClients.move m, st.requests⟩ := rfl

theorem move_request (h : st.requests[i]? = some p) :
    st.move (.request i) = ⟨⟨(p.step st.store).2, st.calls⟩,
      st.requests.set i { p with stage := (p.step st.store).1 }⟩ := by
  unfold move
  simp only [h]

theorem move_no_request (h : st.requests[i]? = none) : st.move (.request i) = st := by
  unfold move
  simp only [h]

/-! ## What a transaction comes to -/

/-- To the transactions, a step of a request is an operation from outside, or nothing. -/
theorem move_toClients (st : Crowd α) (m : CrowdMove) :
    ∃ ms, (st.move m).toClients = st.toClients.run ms := by
  cases m with
  | client m => exact ⟨[m], rfl⟩
  | request i =>
    cases hp : st.requests[i]? with
    | none => exact ⟨[], by rw [move_no_request hp]; rfl⟩
    | some p =>
      rw [move_request hp]
      rcases p.step_store st.store with hstore | ⟨op, hstore⟩
      · exact ⟨[], by rw [hstore]; rfl⟩
      · exact ⟨[.op op], by rw [hstore]; rfl⟩

theorem run_toClients (st : Crowd α) (moves : List CrowdMove) :
    ∃ ms, (st.run moves).toClients = st.toClients.run ms := by
  induction moves generalizing st with
  | nil => exact ⟨[], rfl⟩
  | cons m moves ih =>
    obtain ⟨first, hfirst⟩ := st.move_toClients m
    obtain ⟨rest, hrest⟩ := ih (st.move m)
    refine ⟨first ++ rest, ?_⟩
    rw [run_cons, hrest, hfirst]
    exact List.foldl_append.symm

/-- **A transaction ends as `transact` does** when the others do meanwhile what they did. -/
theorem call_result {moves : List CrowdMove} {c : Call} {result : StoreResult Revision}
    (hfresh : ∀ c ∈ st.calls, c = .fresh c.policy c.program) (hc : c ∈ (st.run moves).calls)
    (hended : c.phase = .ended result) :
    (∃ c₀ ∈ st.calls, c.program = c₀.program) ∧
      ∃ others, (transact c.policy c.program ⟨st.store, others⟩).1 = result := by
  obtain ⟨ms, hms⟩ := st.run_toClients moves
  obtain ⟨i, hi⟩ := List.mem_iff_getElem?.1 hc
  rw [hms] at hi
  exact Clients.call_result hfresh hi hended

end Crowd

/-! ## What a request comes to -/

namespace Request

variable {α : Type} [Entity α] {q : Request α} {s s₀ : Store} {op : Op}

/-- The request while others do something else. -/
def amid (others : List Op) : Request α → Request α
  | create a => create a
  | update a mask _ => update a mask others
  | put a mask _ => put a mask others
  | delete a => delete a

/-- What others do meanwhile comes after what is read. -/
theorem closing_amid (others : List Op) (q : Request α) (s : Store) :
    (q.amid others).closing s = q.closing s := by
  cases q <;> rfl

/-- What a request is told that begins and ends while others use a store, some before it reads and
some before it writes. -/
def Told (q : Request α) (s₀ : Store) (result : StoreResult Reply) : Prop :=
  ∃ before during : List Op,
    ((q.amid during).outcome (Op.runAll before s₀)).1.map Reply.revision = result

theorem outcome_of_refused {e : StoreError} (h : q.closing s = .error e) :
    (q.outcome s).1 = .error e := by
  rcases q.ends s with ⟨e', hclosing, houtcome⟩ | ⟨op, r, hclosing, -, -⟩ <;>
    rw [h] at hclosing <;> cases hclosing
  rw [houtcome]

theorem outcome_of_closing (h : q.closing s = .ok op) :
    (q.outcome s).1.map Reply.revision = (op.run (Op.runAll q.meanwhile s)).1.lift := by
  rcases q.ends s with ⟨e, hclosing, -⟩ | ⟨op', r, hclosing, hreply, houtcome⟩ <;>
    rw [h] at hclosing <;> cases hclosing
  rw [houtcome, hreply]
  cases r <;> rfl

theorem told_of_refused {e : StoreError} {before : List Op}
    (h : q.closing (Op.runAll before s₀) = .error e) : q.Told s₀ (.error e) := by
  refine ⟨before, [], ?_⟩
  rw [outcome_of_refused (by rw [closing_amid]; exact h)]
  rfl

/-- A request that has got as far as to write is told what that is answered. One with nothing to
read may as well begin when it writes. -/
theorem told_of_closing {before during : List Op}
    (h : q.closing (Op.runAll before s₀) = .ok op) :
    q.Told s₀ (op.run (Op.runAll (before ++ during) s₀)).1.lift := by
  have hlast (before during : List Op) (h : q.closing (Op.runAll before s₀) = .ok op) :
      ((q.amid during).outcome (Op.runAll before s₀)).1.map Reply.revision =
        (op.run (Op.runAll (q.amid during).others (Op.runAll before s₀))).1.lift := by
    rw [← closing_amid during] at h
    rw [outcome_of_closing h, meanwhile_of_check_ok (check_of_closing h)]
  cases q with
  | create a | delete a => exact ⟨before ++ during, [], hlast (before ++ during) [] h⟩
  | update a mask others | put a mask others =>
    refine ⟨before, during, (hlast before during h).trans ?_⟩
    rw [Op.runAll_append]
    rfl

end Request

/-- How a request has come as far as it has, among operations that lead from one store to
another. -/
inductive Stage.Reached {α : Type} [Entity α] (q : Request α) (s₀ s : Store) : Stage → Prop where
  | begun : Reached q s₀ s .begun
  | writing (op : Op) (before during : List Op) (closing : q.closing (Op.runAll before s₀) = .ok op)
      (store : s = Op.runAll (before ++ during) s₀) : Reached q s₀ s (.writing op)
  | ended (result : StoreResult Reply) (told : q.Told s₀ result) : Reached q s₀ s (.ended result)

section Reached

variable {α : Type} [Entity α] {q : Request α} {s₀ s : Store}

theorem Stage.Reached.op {stage : Stage} (h : stage.Reached q s₀ s) (op : Op) :
    stage.Reached q s₀ (op.run s).2 := by
  cases h with
  | begun => exact .begun
  | ended result told => exact .ended result told
  | writing closing before during hclosing hstore =>
    -- what comes between the read and the write grows
    refine .writing closing before (during ++ [op]) hclosing ?_
    rw [hstore, ← List.append_assoc]
    exact (Op.runAll_append (before ++ during) [op] s₀).symm

theorem Stage.Reached.store {stage : Stage} (h : stage.Reached q s₀ s) {s' : Store}
    (hs : s' = s ∨ ∃ op : Op, s' = (op.run s).2) : stage.Reached q s₀ s' := by
  rcases hs with rfl | ⟨op, rfl⟩
  · exact h
  · exact h.op op

/-- A step of a request takes it on from where it is. -/
theorem Pending.reached_step {p : Pending α} (h : p.stage.Reached p.request s₀ s)
    (hs : ∃ ops, s = Op.runAll ops s₀) :
    (p.step s).1.Reached p.request s₀ (p.step s).2 := by
  obtain ⟨q, stage⟩ := p
  cases h with
  | ended result told => exact .ended result told
  | writing op before during hclosing hstore =>
    refine .ended _ ?_
    rw [hstore]
    exact Request.told_of_closing hclosing
  | begun =>
    -- all that was done so far came before the read
    obtain ⟨ops, rfl⟩ := hs
    unfold step
    simp only
    split
    · rename_i op hclosing
      exact .writing op ops [] hclosing (by rw [List.append_nil])
    · rename_i e hclosing
      exact .ended _ (Request.told_of_refused hclosing)

end Reached

namespace Crowd

variable {α : Type} [Entity α] {st₀ st : Crowd α}

/-- The requests of a crowd have come where they are from what the crowd began with. -/
structure From (st₀ st : Crowd α) : Prop where
  store : ∃ ops, st.store = Op.runAll ops st₀.store
  requests : ∀ p ∈ st.requests, (∃ p₀ ∈ st₀.requests, p.request = p₀.request) ∧
    p.stage.Reached p.request st₀.store st.store

theorem From.start (h : ∀ p ∈ st.requests, p = .fresh p.request) : st.From st where
  store := ⟨[], rfl⟩
  requests p hp := by
    refine ⟨⟨p, hp, rfl⟩, ?_⟩
    rw [h p hp]
    exact .begun

theorem From.move (h : st₀.From st) (m : CrowdMove) : st₀.From (st.move m) := by
  obtain ⟨ops, hops⟩ := h.store
  -- wherever the store is after an operation, it has come there by operations
  have hlater : ∀ {s : Store}, (s = st.store ∨ ∃ op : Op, s = (op.run st.store).2) →
      ∃ ops, s = Op.runAll ops st₀.store := by
    rintro s (rfl | ⟨op, rfl⟩)
    · exact ⟨ops, hops⟩
    · exact ⟨ops ++ [op], by rw [hops]; exact (Op.runAll_append ops [op] st₀.store).symm⟩
  cases m with
  | client m =>
    have hstore := st.toClients.move_store m
    refine ⟨hlater hstore, fun p hp => ?_⟩
    exact ⟨(h.requests p hp).1, (h.requests p hp).2.store hstore⟩
  | request i =>
    cases hp : st.requests[i]? with
    | none =>
      rw [move_no_request hp]
      exact h
    | some p =>
      have hstore := p.step_store st.store
      obtain ⟨hknown, hreached⟩ := h.requests p (List.mem_of_getElem? hp)
      rw [move_request hp]
      refine ⟨hlater hstore, fun p' hp' => ?_⟩
      rcases List.mem_or_eq_of_mem_set hp' with hp' | rfl
      · exact ⟨(h.requests p' hp').1, (h.requests p' hp').2.store hstore⟩
      · exact ⟨hknown, Pending.reached_step hreached h.store⟩

theorem From.run (h : st₀.From st) (moves : List CrowdMove) : st₀.From (st.run moves) := by
  induction moves generalizing st with
  | nil => exact h
  | cons m moves ih => exact ih (h.move m)

/-- **A request is told what it is told when the others do meanwhile what they did.** -/
theorem request_result {moves : List CrowdMove} {p : Pending α} {result : StoreResult Reply}
    (hfresh : ∀ p ∈ st.requests, p = .fresh p.request) (hp : p ∈ (st.run moves).requests)
    (hended : p.stage = .ended result) :
    (∃ p₀ ∈ st.requests, p.request = p₀.request) ∧ p.request.Told st.store result := by
  obtain ⟨hknown, hreached⟩ := ((From.start hfresh).run moves).requests p hp
  rw [hended] at hreached
  cases hreached with
  | ended _ told => exact ⟨hknown, told⟩

end Crowd

end Inventory
