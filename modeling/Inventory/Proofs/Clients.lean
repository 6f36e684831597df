import Inventory.Proofs.Serial

/-!
# Many clients at once

Any number of clients run transactions on one store. A `Call` is a transaction of a client; with
each step it turns to the store once or goes on by itself, and what happens next is chosen freely
(`Move`), also anything else that may be done to the store.

* `Clients.call_result`: a call ends as `transact` does when the others do meanwhile what they did.
* `Clients.move_cases`: **what a move does to the store is what one transaction does that has it
  for itself**, or an operation from outside, or nothing.
-/

namespace Inventory

/-! ## Calls -/

/-- How far a transaction has come: it has yet to begin a try, it is in the body of one, or it has
ended. -/
inductive Phase where
  | waiting (left : Nat) (last : String)
  | body (left : Nat) (rest : Program Unit) (session : Session)
  | ended (result : StoreResult Revision)

/-- A transaction of a client. -/
structure Call where
  policy : RetryPolicy
  program : Program Unit
  phase : Phase

namespace Phase

/-- A body that is done with a read goes on with the answer. -/
def answer (left : Nat) (next : KvResult (Option Bytes) → Program Unit) (t : Session)
    (key : String) : KvResult (Option Stored) → Phase
  | .ok found => body left (next (.ok (found.map (·.value)))) (t.observe key found)
  | .error e => body left (next (.error e)) t

/-- What a commit makes of a transaction that has tries left. -/
def ofTry (left : Nat) : Try → Phase
  | .committed rev => ended (.ok rev)
  | .conflicted m => waiting left m
  | .failed e => ended (.error e)

/-- Whether a transaction has ended well. -/
def succeeded : Phase → Bool
  | ended (.ok _) => true
  | waiting _ _ | body _ _ _ | ended (.error _) => false

end Phase

namespace Call

/-- A transaction that is about to start. -/
def fresh (policy : RetryPolicy) (program : Program Unit) : Call :=
  ⟨policy, program, .waiting policy.attempts ""⟩

/-- The next step of a transaction, and the store after it. -/
def step (c : Call) (s : Store) : Phase × Store :=
  match c.phase with
  | .ended result => (.ended result, s)
  | .waiting 0 last =>
    (.ended (.error (.conflict
      ("transaction failed after " ++ c.policy.attempts.repr ++ " attempts: " ++ last))), s)
  | .waiting (left + 1) _ =>
    match s.currentRevision.1 with
    | .ok rev => (.body left c.program (.start rev), s)
    | .error e => (.ended (.error (.ofKv e)), s)
  | .body left (.pure ()) t =>
    (.ofTry left (.ofCommit (s.commitTxn t.request).1), (s.commitTxn t.request).2)
  | .body _ (.fail e) _ => (.ended (.error e), s)
  | .body left (.get key next) t =>
    match t.known? key with
    | some value => (.body left (next (.ok value)) t, s)
    | none => (.answer left next t key (s.get key).1, s)
  | .body left (.revision key next) t => (.body left (next (t.revision key)) t, s)
  | .body left (.snapshot next) t => (.body left (next t.snapshot) t, s)
  | .body left (.plan key value next) t => (.body left next (t.plan key value), s)

end Call

/-- What happens next: a transaction takes a step, or something else is done to the store. -/
inductive Move where
  | step (i : Nat)
  | op (op : Op)

/-- A store with the transactions of its clients. -/
structure Clients where
  store : Store
  calls : List Call

namespace Clients

/-- The next move. -/
def move (st : Clients) : Move → Clients
  | .step i =>
    match st.calls[i]? with
    | none => st
    | some c => ⟨(c.step st.store).2, st.calls.set i { c with phase := (c.step st.store).1 }⟩
  | .op op => { st with store := (op.run st.store).2 }

/-- Moves one after another. -/
def run (st : Clients) (moves : List Move) : Clients := moves.foldl move st

@[simp] theorem run_cons (st : Clients) (m : Move) (moves : List Move) :
    st.run (m :: moves) = (st.move m).run moves := rfl

end Clients

/-! ## What a call comes to -/

/-- Two clients find the same when they turn to the store next. -/
def Shared.Alike (w w' : Shared) : Prop := w.turn = w'.turn

namespace Program

variable {w w' : Shared}

/-- A body notices of the others only what it finds when it turns to the store. -/
theorem run_alike {α : Type} (p : Program α) (t : Session) (h : w.Alike w') :
    (p.run ⟨w, t⟩).1 = (p.run ⟨w', t⟩).1 ∧
      (p.run ⟨w, t⟩).2.session = (p.run ⟨w', t⟩).2.session ∧
      (p.run ⟨w, t⟩).2.toShared.Alike (p.run ⟨w', t⟩).2.toShared := by
  induction p generalizing t with
  | pure a => exact ⟨rfl, rfl, h⟩
  | fail e => exact ⟨rfl, rfl, h⟩
  | revision key next ih => exact ih _ t
  | snapshot next ih => exact ih _ t
  | plan key value next ih => exact ih (t.plan key value)
  | get key next ih =>
    cases hk : t.known? key with
    | some value =>
      have h1 := Running.get_of_known (r := ⟨w, t⟩) hk
      have h2 := Running.get_of_known (r := ⟨w', t⟩) hk
      simp only [run, h1, h2]
      exact ih _ t
    | none =>
      -- both turn to the store, and from then on it is the same
      have heq : Running.get ⟨w, t⟩ key = Running.get ⟨w', t⟩ key := by
        unfold Running.get
        simp only [hk]
        rw [show w.turn = w'.turn from h]
      simp only [run, heq]
      exact ⟨trivial, trivial, rfl⟩

end Program

theorem Running.commit_alike {r r' : Running} (hs : r.session = r'.session)
    (h : r.toShared.Alike r'.toShared) : r.commit = r'.commit := by
  unfold commit
  rw [show r.toShared.turn = r'.toShared.turn from h, hs]

namespace Call

variable {c : Call} {s : Store} {w w' : Shared}

/-- What a transaction comes to after a try. -/
def afterTry (attempts : Nat) (p : Program Unit) (left : Nat) (w : Shared) :
    Try → StoreResult Revision
  | .committed rev => .ok rev
  | .failed e => .error e
  | .conflicted m => (transactFrom attempts p.body left m w ()).1

/-- What a transaction comes to that is in the body of a try. -/
def afterBody (attempts : Nat) (p : Program Unit) (left : Nat) (rest : Program Unit)
    (r : Running) : StoreResult Revision :=
  match (rest.run r).1 with
  | .error e => .error e
  | .ok () => afterTry attempts p left (rest.run r).2.commit.2 (.ofCommit (rest.run r).2.commit.1)

/-- What a transaction comes to from here. -/
def outcome (c : Call) (w : Shared) : StoreResult Revision :=
  match c.phase with
  | .ended result => result
  | .waiting left last => (transactFrom c.policy.attempts c.program.body left last w ()).1
  | .body left rest t => afterBody c.policy.attempts c.program left rest ⟨w, t⟩

theorem outcome_fresh (policy : RetryPolicy) (p : Program Unit) (w : Shared) :
    (fresh policy p).outcome w = (transact policy p w).1 := rfl

/-- A try begins, and goes on with its body. -/
theorem transactFrom_succ (attempts : Nat) (p : Program Unit) (left : Nat) (last : String)
    (w : Shared) :
    (transactFrom attempts p.body (left + 1) last w ()).1 =
      match (Running.begin w).1 with
      | .error e => .error (.ofKv e)
      | .ok r => afterBody attempts p left p r := by
  unfold transactFrom tryOnce
  cases Running.begin w with
  | mk result w₁ =>
    cases result with
    | error e => rfl
    | ok r =>
      simp only [afterBody, Program.body]
      cases hr : p.run r with
      | mk result r' =>
        cases result with
        | error e => rfl
        | ok u =>
          simp only
          cases Try.ofCommit r'.commit.1 <;> rfl

theorem afterBody_alike {attempts : Nat} {p : Program Unit} {left : Nat} {rest : Program Unit}
    {t : Session} (h : w.Alike w') :
    afterBody attempts p left rest ⟨w, t⟩ = afterBody attempts p left rest ⟨w', t⟩ := by
  obtain ⟨h1, h2, h3⟩ := rest.run_alike t h
  unfold afterBody
  rw [h1, Running.commit_alike h2 h3]

/-- A transaction notices of the others only what it finds when it turns to the store. -/
theorem outcome_alike (c : Call) (h : w.Alike w') : c.outcome w = c.outcome w' := by
  unfold outcome
  cases c.phase with
  | ended result => rfl
  | body left rest t => exact afterBody_alike h
  | waiting left last =>
    cases left with
    | zero => rfl
    | succ left =>
      have hbegin : Running.begin w = Running.begin w' := by
        unfold Running.begin
        rw [show w.turn = w'.turn from h]
      simp only [transactFrom_succ, hbegin]

/-- A transaction that finds an operation done on the store may as well find it done by the
others. -/
theorem outcome_op (c : Call) (op : Op) (s : Store) (others : List (List Op)) :
    c.outcome ⟨(op.run s).2, others⟩ =
      c.outcome ⟨s, (op :: others.head?.getD []) :: others.tail⟩ :=
  c.outcome_alike rfl

/-- **A step of a transaction leaves it to come to the same.** The others do nothing before it. -/
theorem outcome_step (c : Call) (s : Store) (others : List (List Op)) :
    ∃ others', { c with phase := (c.step s).1 }.outcome ⟨(c.step s).2, others⟩ =
      c.outcome ⟨s, others'⟩ := by
  obtain ⟨policy, p, phase⟩ := c
  cases phase with
  | ended result => exact ⟨others, rfl⟩
  | waiting left last =>
    cases left with
    | zero => exact ⟨others, rfl⟩
    | succ left =>
      -- a try begins by turning to the store, here without anything done before
      refine ⟨[] :: others, ?_⟩
      have hturn : (⟨s, [] :: others⟩ : Shared).turn = ⟨s, others⟩ := rfl
      simp only [outcome, transactFrom_succ, step, Running.begin, hturn, Store.currentRevision]
      cases hs : s.closed with
      | false => simp only [Store.ifOpen_of_open hs, Except.map]
      | true => simp only [Store.ifOpen_of_closed hs, Except.map]
  | body left rest t =>
    cases rest with
    | pure u =>
      refine ⟨[] :: others, ?_⟩
      show outcome ⟨policy, p, .ofTry left (.ofCommit (s.commitTxn t.request).1)⟩
          ⟨(s.commitTxn t.request).2, others⟩ =
        afterTry policy.attempts p left ⟨(s.commitTxn t.request).2, others⟩
          (.ofCommit (s.commitTxn t.request).1)
      cases Try.ofCommit (s.commitTxn t.request).1 <;> rfl
    | fail e => exact ⟨others, rfl⟩
    | revision key next => exact ⟨others, rfl⟩
    | snapshot next => exact ⟨others, rfl⟩
    | plan key value next => exact ⟨others, rfl⟩
    | get key next =>
      cases hk : t.known? key with
      | some value =>
        refine ⟨others, ?_⟩
        have h := Running.get_of_known (r := ⟨⟨s, others⟩, t⟩) hk
        simp only [outcome, step, hk, afterBody, Program.run, h]
      | none =>
        refine ⟨[] :: others, ?_⟩
        cases hs : s.closed with
        | false =>
          have h := Running.get_of_unknown (r := ⟨⟨s, [] :: others⟩, t⟩) hk hs
          simp only [outcome, step, hk, Store.get, Store.ifOpen_of_open hs, Phase.answer, afterBody,
            Program.run, h]
          rfl
        | true =>
          have h := Running.get_of_closed (r := ⟨⟨s, [] :: others⟩, t⟩) hk hs
          simp only [outcome, step, hk, Store.get, Store.ifOpen_of_closed hs, Phase.answer,
            afterBody, Program.run, h]
          rfl

/-- A step of a transaction is an operation on the store, or none. -/
theorem step_store (c : Call) (s : Store) :
    (c.step s).2 = s ∨ ∃ op : Op, (c.step s).2 = (op.run s).2 := by
  obtain ⟨policy, p, phase⟩ := c
  cases phase with
  | ended result => exact .inl rfl
  | waiting left last =>
    cases left with
    | zero => exact .inl rfl
    | succ left => unfold step; simp only; split <;> exact .inl rfl
  | body left rest t =>
    cases rest with
    | pure u => exact .inr ⟨.txn t.request, rfl⟩
    | get key next => unfold step; simp only; split <;> exact .inl rfl
    | _ => exact .inl rfl

end Call

namespace Clients

variable {st : Clients} {i : Nat} {c c' : Call}

theorem move_other {j : Nat} (h : j ≠ i) (st : Clients) :
    (st.move (.step j)).calls[i]? = st.calls[i]? := by
  unfold move
  simp only
  split
  · rfl
  · exact List.getElem?_set_ne h

theorem move_step (h : st.calls[i]? = some c) :
    st.move (.step i) =
      ⟨(c.step st.store).2, st.calls.set i { c with phase := (c.step st.store).1 }⟩ := by
  unfold move; simp only [h]

theorem move_no_call (h : st.calls[i]? = none) : st.move (.step i) = st := by
  unfold move; simp only [h]

/-- A move does an operation on the store, or none. -/
theorem move_store (st : Clients) (m : Move) :
    (st.move m).store = st.store ∨ ∃ op : Op, (st.move m).store = (op.run st.store).2 := by
  cases m with
  | op op => exact .inr ⟨op, rfl⟩
  | step i =>
    unfold move
    simp only
    split
    · exact .inl rfl
    · exact Call.step_store _ _

/-- A transaction comes to the same after a move, whoever makes it. -/
theorem outcome_move (h : st.calls[i]? = some c) (m : Move) :
    ∃ c₁, (st.move m).calls[i]? = some c₁ ∧ c₁.policy = c.policy ∧ c₁.program = c.program ∧
      ∀ others, ∃ others', c₁.outcome ⟨(st.move m).store, others⟩ =
        c.outcome ⟨st.store, others'⟩ := by
  by_cases hm : m = .step i
  · -- its own step
    subst hm
    rw [move_step h]
    refine ⟨{ c with phase := (c.step st.store).1 }, ?_, rfl, rfl,
      fun others => c.outcome_step st.store others⟩
    exact List.getElem?_set_self (List.getElem?_eq_some_iff.1 h).1
  · -- what anybody else does it finds done
    have hsame : (st.move m).calls[i]? = st.calls[i]? := by
      cases m with
      | op op => rfl
      | step j => exact move_other (fun hj => hm (by rw [hj])) st
    refine ⟨c, hsame.trans h, rfl, rfl, fun others => ?_⟩
    rcases st.move_store m with hs | ⟨op, hs⟩
    · exact ⟨others, by rw [hs]⟩
    · exact ⟨_, by rw [hs]; exact c.outcome_op op st.store others⟩

theorem outcome_run (h : st.calls[i]? = some c) (moves : List Move) :
    ∃ c₁, (st.run moves).calls[i]? = some c₁ ∧ c₁.policy = c.policy ∧ c₁.program = c.program ∧
      ∀ others, ∃ others', c₁.outcome ⟨(st.run moves).store, others⟩ =
        c.outcome ⟨st.store, others'⟩ := by
  induction moves generalizing st c with
  | nil => exact ⟨c, h, rfl, rfl, fun others => ⟨others, rfl⟩⟩
  | cons m moves ih =>
    obtain ⟨c₁, h₁, hpol₁, hprog₁, hout₁⟩ := outcome_move h m
    obtain ⟨c₂, h₂, hpol₂, hprog₂, hout₂⟩ := ih h₁
    refine ⟨c₂, h₂, hpol₂.trans hpol₁, hprog₂.trans hprog₁, fun others => ?_⟩
    obtain ⟨others₁, heq₂⟩ := hout₂ others
    obtain ⟨others₀, heq₁⟩ := hout₁ others₁
    exact ⟨others₀, heq₂.trans heq₁⟩

theorem move_length (st : Clients) (m : Move) : (st.move m).calls.length = st.calls.length := by
  cases m with
  | op op => rfl
  | step i =>
    unfold move
    simp only
    split
    · rfl
    · exact List.length_set

theorem run_length (st : Clients) (moves : List Move) :
    (st.run moves).calls.length = st.calls.length := by
  induction moves generalizing st with
  | nil => rfl
  | cons m moves ih => rw [run_cons, ih, move_length]

/-- **A call ends as `transact` does** when the others do meanwhile what they did. -/
theorem call_result {moves : List Move} {result : StoreResult Revision}
    (hfresh : ∀ c ∈ st.calls, c = .fresh c.policy c.program)
    (hc : (st.run moves).calls[i]? = some c) (hended : c.phase = .ended result) :
    (∃ c₀ ∈ st.calls, c.program = c₀.program) ∧
      ∃ others, (transact c.policy c.program ⟨st.store, others⟩).1 = result := by
  obtain ⟨c₀, h₀⟩ : ∃ c₀, st.calls[i]? = some c₀ := by
    have hi := (List.getElem?_eq_some_iff.1 hc).1
    rw [run_length] at hi
    exact ⟨_, List.getElem?_eq_getElem hi⟩
  obtain ⟨c₁, h₁, hpolicy, hprogram, hout⟩ := outcome_run h₀ moves
  obtain rfl : c₁ = c := Option.some.inj (h₁.symm.trans hc)
  have hmem := List.mem_of_getElem? h₀
  refine ⟨⟨c₀, hmem, hprogram⟩, ?_⟩
  obtain ⟨others, heq⟩ := hout []
  refine ⟨others, ?_⟩
  rw [hfresh c₀ hmem, Call.outcome_fresh, ← hpolicy, ← hprogram] at heq
  rw [← heq]
  unfold Call.outcome
  rw [hended]

end Clients

/-! ## What a call knows -/

/-- A commit is refused, has nothing to write, or writes. -/
theorem Store.commitTxn_cases (s : Store) (t : Session) :
    ((∃ e, (s.commitTxn t.request).1 = .error e) ∧ (s.commitTxn t.request).2 = s) ∨
    (t.writes = ∅ ∧ (s.commitTxn t.request).2 = s) ∨
    (t.writes ≠ ∅ ∧ ∃ rev, (s.commitTxn t.request).1 = .ok rev) := by
  unfold commitTxn
  cases hs : s.closed with
  | true => rw [ifOpen_of_closed hs]; exact .inl ⟨⟨_, rfl⟩, rfl⟩
  | false =>
    rw [ifOpen_of_open hs]
    by_cases hw : t.writes = ∅
    · rw [if_pos (List.isEmpty_iff.2 (t.request_writes_nil_iff.2 hw))]
      exact .inr (.inl ⟨hw, rfl⟩)
    · rw [if_neg fun he => hw (t.request_writes_nil_iff.1 (List.isEmpty_iff.1 he))]
      cases obstacle? s.contents t.request with
      | some e => exact .inl ⟨⟨e, rfl⟩, rfl⟩
      | none => exact .inr (.inr ⟨hw, _, rfl⟩)

/-- A program that plans a write before it ends well, whatever it is told. -/
def Program.Plans {α : Type} : Program α → Prop
  | pure _ => False
  | fail _ => True
  | get _ next => ∀ v, (next v).Plans
  | revision _ next | snapshot next => ∀ v, (next v).Plans
  | plan _ _ _ => True

/-- What a transaction under way found was there, and its body is what is left of the program after
what it did: run again on a store that holds all that was found, the program gets here too. -/
structure Session.Sound (p rest : Program Unit) (s : Store) (t : Session) : Prop where
  seen : t.Seen s
  again : ∀ b : Store, s.closed = false → b.closed = false → t.Current b.contents →
    p.run (.alone b (.start t.snapshot)) = rest.run (.alone b t)
  plans : p.Plans → t.writes ≠ ∅ ∨ rest.Plans

/-- What is known of a transaction of a program. -/
def Phase.Sound (p : Program Unit) (s : Store) : Phase → Prop
  | waiting _ _ | ended _ => True
  | body _ rest t => t.Sound p rest s

namespace Phase

variable {p : Program Unit} {s s' : Store} {left : Nat} {t : Session} {phase : Phase}

theorem Sound.later (h : phase.Sound p s) (hs : s.Later s') : phase.Sound p s' := by
  cases phase with
  | waiting left last => trivial
  | ended result => trivial
  | body left rest t =>
    refine ⟨h.seen.later hs, fun b hs' => h.again b ?_, h.plans⟩
    cases ho : s.closed with
    | false => rfl
    | true => rw [hs.closed ho] at hs'; cases hs'

theorem Sound.ofTry (left : Nat) (r : Try) : (ofTry left r).Sound p s := by
  cases r <;> trivial

/-- A transaction that reads from the store knows more, and what it found is there. -/
theorem Sound.answer {key : String} {next : KvResult (Option Bytes) → Program Unit}
    (h : t.Sound p (.get key next) s) (hs : s.Stamped) (hk : t.known? key = none) :
    (answer left next t key (s.get key).1).Sound p s := by
  obtain ⟨hseen, hrun, hplans⟩ := h
  cases ho : s.closed with
  | true =>
    -- nothing is promised of a store that is closed
    unfold Store.get
    rw [Store.ifOpen_of_closed ho]
    exact ⟨hseen, fun b hs' => absurd hs' (by rw [ho]; exact Bool.noConfusion),
      fun hp => (hplans hp).imp_right fun h => h _⟩
  | false =>
    unfold Store.get
    rw [Store.ifOpen_of_open ho]
    refine ⟨hseen.observe hs key, fun b hs' hb hc => ?_,
      fun hp => (hplans hp).imp_right fun h => h _⟩
    obtain ⟨hcurrent, hfound⟩ := hc.of_observe hk
    have hget := Running.alone_get_of_unknown (s := b) hk hb
    rw [hfound] at hget
    have hthen := hrun b hs' hb hcurrent
    simp only [Program.run, hget] at hthen
    exact hthen

end Phase

namespace Call

variable {c : Call} {s : Store}

/-- A step keeps what is known of a transaction. -/
theorem sound_step (h : c.phase.Sound c.program s) (hs : s.Stamped) :
    (c.step s).1.Sound c.program (c.step s).2 := by
  obtain ⟨policy, p, phase⟩ := c
  cases phase with
  | ended result => trivial
  | waiting left last =>
    cases left with
    | zero => trivial
    | succ left =>
      unfold step
      simp only
      split
      · exact ⟨.start _ s, fun b _ _ _ => rfl, .inr⟩
      · trivial
  | body left rest t =>
    obtain ⟨hseen, hrun, hplans⟩ := h
    cases rest with
    | pure u => exact .ofTry left _
    | fail e => trivial
    | revision key next =>
      exact ⟨hseen, hrun, fun hp => (hplans hp).imp_right fun h => h _⟩
    | snapshot next => exact ⟨hseen, hrun, fun hp => (hplans hp).imp_right fun h => h _⟩
    | plan key value next =>
      -- now it has a write to commit
      refine ⟨hseen, hrun, fun _ => .inl fun he => ?_⟩
      exact Std.ExtTreeMap.insert_ne_empty he
    | get key next =>
      unfold step
      simp only
      split
      · rename_i value hk
        refine ⟨hseen, fun b hs' hb hc => ?_, fun hp => (hplans hp).imp_right fun h => h _⟩
        have hthen := hrun b hs' hb hc
        simp only [Program.run, Running.alone_get_of_known hk] at hthen
        exact hthen
      · rename_i hk
        exact Phase.Sound.answer ⟨hseen, hrun, hplans⟩ hs hk

/-- What a transaction that commits a write would have done at once, and what the commit did. -/
structure Commits (c : Call) (s : Store) (t : Session) (rev : Revision) (s' : Store) : Prop where
  opened : s.closed = false
  again : c.program.run (.alone s (.start t.snapshot)) = (.ok (), .alone s t)
  commits : t.Commits s rev s'

/-- **A step of a transaction does to the store what the transaction would do that has the store
for itself**, or nothing. -/
theorem step_cases (h : c.phase.Sound c.program s) :
    ((c.step s).2 = s ∧ ((c.step s).1.succeeded = c.phase.succeeded ∨ ¬ c.program.Plans)) ∨
    ∃ t rev, c.phase.succeeded = false ∧ (c.step s).1.succeeded = true ∧
      c.Commits s t rev (c.step s).2 := by
  obtain ⟨policy, p, phase⟩ := c
  cases phase with
  | ended result => exact .inl ⟨rfl, .inl rfl⟩
  | waiting left last =>
    cases left with
    | zero => exact .inl ⟨rfl, .inl rfl⟩
    | succ left => unfold step; simp only; split <;> exact .inl ⟨rfl, .inl rfl⟩
  | body left rest t =>
    cases rest with
    | fail e => exact .inl ⟨rfl, .inl rfl⟩
    | revision key next => exact .inl ⟨rfl, .inl rfl⟩
    | snapshot next => exact .inl ⟨rfl, .inl rfl⟩
    | plan key value next => exact .inl ⟨rfl, .inl rfl⟩
    | get key next =>
      unfold step
      simp only
      split
      · exact .inl ⟨rfl, .inl rfl⟩
      · refine .inl ⟨rfl, .inl ?_⟩
        cases (s.get key).1 <;> rfl
    | pure u =>
      obtain ⟨hseen, hrun, hplans⟩ := h
      rcases s.commitTxn_cases t with ⟨⟨e, he⟩, hsame⟩ | ⟨hw, hsame⟩ | ⟨hw, rev, hr⟩
      · -- the commit is refused
        refine .inl ⟨hsame, .inl ?_⟩
        show (Phase.ofTry left (.ofCommit (s.commitTxn t.request).1)).succeeded = false
        rw [he]
        cases e <;> rfl
      · exact .inl ⟨hsame, .inr fun hp => (hplans hp).elim (fun h => h hw) id⟩
      · -- nothing stood in the way, so all that was found is still there
        refine .inr ⟨t, rev, rfl, ?_, ?_⟩
        · show (Phase.ofTry left (.ofCommit (s.commitTxn t.request).1)).succeeded = true
          rw [hr]
          rfl
        · have hok : s.commitTxn t.request = (.ok rev, (s.commitTxn t.request).2) :=
            Prod.ext hr rfl
          obtain ⟨hopen, hobs, hcommits⟩ := Store.commitTxn_ok hw hok
          refine ⟨hopen, hrun s hopen hopen ?_, hcommits⟩
          exact hseen.current fun _ _ => Session.revisions_of_no_obstacle hobs

end Call

/-! ## What clients do together -/

namespace Clients

variable {st : Clients}

/-- What is known of a store and of the transactions of its clients. -/
structure Sound (st : Clients) : Prop where
  stamped : st.store.Stamped
  calls : ∀ c ∈ st.calls, c.phase.Sound c.program st.store

/-- How many transactions have ended well. -/
def successes (st : Clients) : Nat := st.calls.countP (·.phase.succeeded)

/-- Transactions that are about to start. -/
theorem Sound.fresh {s : Store} {calls : List Call} (hs : s.Stamped)
    (h : ∀ c ∈ calls, c = .fresh c.policy c.program) : Sound ⟨s, calls⟩ := by
  refine ⟨hs, fun c hc => ?_⟩
  rw [h c hc]
  trivial

theorem move_later (st : Clients) (m : Move) : st.store.Later (st.move m).store := by
  rcases st.move_store m with hs | ⟨op, hs⟩
  · rw [hs]; exact .refl _
  · rw [hs]; exact Store.later_run op _

/-- The transactions of the clients stay what they are. -/
theorem program_of_move {m : Move} {c' : Call} (h : c' ∈ (st.move m).calls) :
    ∃ c ∈ st.calls, c'.program = c.program := by
  cases m with
  | op op => exact ⟨c', h, rfl⟩
  | step i =>
    cases hc : st.calls[i]? with
    | none => unfold Clients.move at h; simp only [hc] at h; exact ⟨c', h, rfl⟩
    | some c =>
      rw [move_step hc] at h
      rcases List.mem_or_eq_of_mem_set h with h | rfl
      · exact ⟨c', h, rfl⟩
      · exact ⟨c, List.mem_of_getElem? hc, rfl⟩

theorem Sound.move (h : st.Sound) (m : Move) : (st.move m).Sound := by
  have hlater := st.move_later m
  refine ⟨?_, fun c' hc' => ?_⟩
  · rcases st.move_store m with hs | ⟨op, hs⟩
    · rw [hs]; exact h.stamped
    · rw [hs]; exact h.stamped.run op
  · cases m with
    | op op => exact (h.calls c' hc').later hlater
    | step i =>
      cases hc : st.calls[i]? with
      | none =>
        unfold Clients.move at hc' ⊢
        simp only [hc] at hc' ⊢
        exact h.calls c' hc'
      | some c =>
        rw [move_step hc] at hc' hlater ⊢
        rcases List.mem_or_eq_of_mem_set hc' with hc' | rfl
        · exact (h.calls c' hc').later hlater
        · exact Call.sound_step (h.calls c (List.mem_of_getElem? hc)) h.stamped

theorem successes_step {i : Nat} {c : Call} (hc : st.calls[i]? = some c) :
    (st.move (.step i)).successes + (if c.phase.succeeded then 1 else 0) =
      st.successes + if (c.step st.store).1.succeeded then 1 else 0 := by
  obtain ⟨hi, hget⟩ := List.getElem?_eq_some_iff.1 hc
  rw [move_step hc]
  unfold successes
  simp only [List.countP_set hi, hget]
  have hpos : c.phase.succeeded = true → 0 < st.calls.countP (·.phase.succeeded) := fun h =>
    List.countP_pos_iff.2 ⟨c, List.mem_of_getElem? hc, h⟩
  cases hs : c.phase.succeeded with
  | false => simp only [Bool.false_eq_true, if_false]; omega
  | true => have := hpos hs; simp only [if_true]; omega

/-- **What a move does to the store is what one transaction does that has the store for itself**,
or an operation from outside, or nothing. -/
theorem move_cases (h : st.Sound) (m : Move) :
    (∃ op, m = .op op ∧ (st.move m).store = (op.run st.store).2 ∧
      (st.move m).successes = st.successes) ∨
    ((st.move m).store = st.store ∧ ((st.move m).successes = st.successes ∨
      ∃ c ∈ st.calls, ¬ c.program.Plans)) ∨
    ∃ c ∈ st.calls, ∃ t rev, c.Commits st.store t rev (st.move m).store ∧
      (st.move m).successes = st.successes + 1 := by
  cases m with
  | op op => exact .inl ⟨op, rfl, rfl, rfl⟩
  | step i =>
    cases hc : st.calls[i]? with
    | none =>
      have heq : st.move (.step i) = st := by unfold Clients.move; simp only [hc]
      rw [heq]
      exact .inr (.inl ⟨rfl, .inl rfl⟩)
    | some c =>
      have hmem := List.mem_of_getElem? hc
      have hcount := successes_step hc
      have hstore : (st.move (.step i)).store = (c.step st.store).2 := by rw [move_step hc]
      rcases Call.step_cases (h.calls c hmem) with
        ⟨hsame, hcases⟩ | ⟨t, rev, hbefore, hafter, hcommits⟩
      · refine .inr (.inl ⟨hstore.trans hsame, ?_⟩)
        rcases hcases with heq | hplans
        · rw [heq] at hcount
          exact .inl (Nat.add_right_cancel hcount)
        · exact .inr ⟨c, hmem, hplans⟩
      · rw [hbefore, hafter] at hcount
        exact .inr (.inr ⟨c, hmem, t, rev, hstore ▸ hcommits, hcount⟩)

end Clients

end Inventory
