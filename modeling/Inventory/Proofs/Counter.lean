import Inventory.Proofs.Cbor.Head
import Inventory.Proofs.Clients

/-!
# Counters

A counter is a key whose value stands for a number. Clients raise it by one with transactions that
read it and write the next number.

* `Clients.count_run`: no increment is lost, and none counts twice.
* `transactions_serializable`: **transactions are serializable**, and so as many increments as end
  well raise a counter.
-/

namespace Inventory

/-- A way of keeping a number under a key. There may be numbers after which none can be written. -/
structure Counter where
  count : Option Bytes → Nat
  next : Option Bytes → StoreResult Bytes
  count_next : ∀ {old : Option Bytes} {new : Bytes}, next old = .ok new →
    count (some new) = count old + 1

namespace Counter

/-- The number of eight bytes, the most significant first; whatever else is there counts as
zero. -/
def countWord : Option Bytes → Nat
  | some bs => if bs.length = 8 then Cbor.ofBigEndian 0 bs else 0
  | none => 0

theorem countWord_bigEndian {n : Nat} (h : n < 2 ^ 64) :
    countWord (some (Cbor.bigEndian 8 n)) = n := by
  unfold countWord
  simp only [if_pos (Cbor.bigEndian_length 8 n)]
  exact Cbor.ofBigEndian_bigEndian h

/-- A number of eight bytes. -/
def word : Counter where
  count := countWord
  next old :=
    if countWord old + 1 < 2 ^ 64 then .ok (Cbor.bigEndian 8 (countWord old + 1))
    else .error (.invalid "counter overflow")
  count_next := by
    intro old new h
    split at h
    · rename_i hlt
      obtain rfl := Except.ok.inj h
      exact countWord_bigEndian hlt
    · cases h

variable (C : Counter) (key : String)

/-- The transaction that raises a counter by one. -/
def increment : Program Unit := do
  let new ← .ofExcept (C.next (← .read key))
  .write key new

/-- The number that a counter stands at. -/
def standing (s : Store) : Nat := C.count (s.contents[key]?.map (·.value))

theorem increment_plans : (C.increment key).Plans := by
  intro v
  show ((Program.ofExcept v.lift).bind fun old =>
    (Program.ofExcept (C.next old)).bind fun new => .write key new).Plans
  cases v with
  | error e => trivial
  | ok old =>
    show ((Program.ofExcept (C.next old)).bind fun new => .write key new).Plans
    cases C.next old <;> trivial

/-- An increment that has the store for itself plans the next number. -/
theorem increment_alone {s : Store} (hs : s.closed = false) {rev : Revision} {t : Session}
    (h : (C.increment key).run (.alone s (.start rev)) = (.ok (), .alone s t)) :
    ∃ new, C.next (s.contents[key]?.map (·.value)) = .ok new ∧
      t.writes[key]? = some (some new) := by
  unfold increment at h
  rw [Program.run_bind, Program.run_read rfl hs] at h
  simp only at h
  rw [Program.run_bind, Program.run_ofExcept] at h
  cases hn : C.next (s.contents[key]?.map (·.value)) with
  | error e => rw [hn] at h; cases h
  | ok new =>
    rw [hn] at h
    refine ⟨new, rfl, ?_⟩
    -- the session at the end is the one that planned the write
    obtain ⟨-, h⟩ := Prod.mk.inj h
    have ht := congrArg Running.session h
    rw [← show _ = t from ht]
    show (Std.ExtTreeMap.insert (∅ : Std.ExtTreeMap String (Option Bytes)) key (some new))[key]? = _
    rw [Contents.getElem?_insert, if_pos rfl]

end Counter

/-! ## Increments of many clients -/

namespace Clients

variable {C : Counter} {key : String} {st : Clients}

/-- A move raises the counter by one if it ends an increment, and otherwise leaves it. -/
theorem count_move (h : st.Sound) (hcalls : ∀ c ∈ st.calls, c.program = C.increment key)
    {m : Move} (hm : ∀ op, m = .op op → key ∉ op.targets) :
    C.standing key (st.move m).store + st.successes =
      C.standing key st.store + (st.move m).successes := by
  unfold Counter.standing
  rcases move_cases h m with ⟨op, hop, hs, hn⟩ | ⟨hs, hn⟩ | ⟨c, hc, t, rev, hcommits, hn⟩
  · rw [hs, hn, Op.run_getElem?_of_not_target (hm op hop)]
  · rcases hn with hn | ⟨c, hc, hplans⟩
    · rw [hs, hn]
    · -- an increment does not end well without a write
      rw [hcalls c hc] at hplans
      exact absurd (C.increment_plans key) hplans
  · -- with the store for itself it would write the next number
    obtain ⟨hopen, hagain, hwrites⟩ := hcommits
    rw [hcalls c hc] at hagain
    obtain ⟨new, hnext, hplanned⟩ := C.increment_alone key hopen hagain
    have hleft := hwrites.contents key
    unfold Session.leaves at hleft
    rw [hplanned] at hleft
    rw [hleft, hn]
    simp only [Option.map_some, Stored.rewritten_value, C.count_next hnext]
    omega

/-- **No increment is lost**, and none counts twice. -/
theorem count_run (h : st.Sound) (hcalls : ∀ c ∈ st.calls, c.program = C.increment key)
    {moves : List Move} (hm : ∀ op, Move.op op ∈ moves → key ∉ op.targets) :
    C.standing key (st.run moves).store + st.successes =
      C.standing key st.store + (st.run moves).successes := by
  induction moves generalizing st with
  | nil => rfl
  | cons m moves ih =>
    have hfirst := count_move h hcalls (m := m) fun op ho => hm op (ho ▸ List.mem_cons_self)
    have hrest := ih (h.move m)
      (fun c' hc' => by
        obtain ⟨c, hc, heq⟩ := program_of_move hc'
        rw [heq, hcalls c hc])
      fun op ho => hm op (List.mem_cons_of_mem m ho)
    rw [run_cons]
    omega

end Clients

/-- **Transactions are serializable.** A transaction that succeeds ends with one try that commits,
after tries that met with conflicts. If that try wrote anything, then the program, run with the
store as it was just before the commit for itself, is told the same and plans the same writes, and
the commit leaves exactly these. So if nobody else writes a counter, as many increments as end well
raise it, in whatever order the steps of all clients come. -/
theorem transactions_serializable :
    (∀ (policy : RetryPolicy) (p : Program Unit) (w w' : Shared) (rev : Revision),
      p.Timeless → w.store.Reachable → transact policy p w = (.ok rev, w') →
        ∃ n w₁ begun ended, n < policy.attempts ∧ Conflicts p n w w₁ ∧ Tried p w₁ begun ended ∧
          ended.commit = (.ok rev, w') ∧
          (ended.session.writes ≠ ∅ → Serial p begun ended rev w'.store)) ∧
    ∀ (C : Counter) (key : String) (s : Store) (calls : List Call) (moves : List Move),
      s.Reachable → (∀ c ∈ calls, ∃ policy, c = .fresh policy (C.increment key)) →
      (∀ op, Move.op op ∈ moves → key ∉ op.targets) →
        C.standing key ((Clients.mk s calls).run moves).store =
          C.standing key s + ((Clients.mk s calls).run moves).successes ∧
        ∀ (i : Nat) (c : Call) (result : StoreResult Revision),
          ((Clients.mk s calls).run moves).calls[i]? = some c → c.phase = .ended result →
            ∃ others, (transact c.policy (C.increment key) ⟨s, others⟩).1 = result := by
  refine ⟨fun policy p w w' rev hp hs h => transact_serial hp hs h, ?_⟩
  intro C key s calls moves hs hcalls hmoves
  have hprogram : ∀ c ∈ calls, c.program = C.increment key := fun c hc => by
    obtain ⟨policy, rfl⟩ := hcalls c hc
    rfl
  have hfresh : ∀ c ∈ (Clients.mk s calls).calls, c = .fresh c.policy c.program := fun c hc => by
    obtain ⟨policy, rfl⟩ := hcalls c hc
    rfl
  constructor
  · have hzero : Clients.successes ⟨s, calls⟩ = 0 :=
      List.countP_eq_zero.2 fun c hc => by
        rw [hfresh c hc]
        exact Bool.false_ne_true
    have hcount := Clients.count_run (.fresh hs.stamped hfresh) hprogram hmoves
    rw [hzero] at hcount
    exact hcount
  · intro i c result hc hended
    obtain ⟨⟨c₀, hc₀, heq⟩, others, hresult⟩ := Clients.call_result hfresh hc hended
    rw [heq, hprogram c₀ hc₀] at hresult
    exact ⟨others, hresult⟩

namespace Race

/-- Reads two keys, writes one and deletes the other. -/
def program : Program Unit := do
  let a ← .read "a"
  let b ← .read "b"
  .write "b" (a.getD [] ++ b.getD [0])
  .erase "a"

/-- Others change what the first try has read; in the second try a key comes and goes. -/
def world : Shared :=
  ⟨.empty, [[.put "a" [1]], [], [.put "a" [2]], [], [], [.put "b" [7], .delete "b"]]⟩

/-- Two increments. -/
def clients : Clients :=
  ⟨.empty, List.replicate 2 (.fresh (.new 3) (Counter.word.increment "n"))⟩

/-- Both read before either of them commits, so the second has to be tried again. -/
def moves : List Move :=
  [.step 0, .step 0, .step 1, .step 1, .op (.put "m" []), .step 0, .step 0] ++
    List.replicate 7 (.step 1)

end Race

/-- A transaction that meets with a conflict and then with a key that comes and goes, and two
increments of which one has to be tried again. -/
theorem transactions_serializable_in_a_race :
    Race.program.Timeless ∧ Race.world.store.Reachable ∧
    (∃ w', transact (.new 3) Race.program Race.world = (.ok 5, w') ∧
      ∃ n w₁ begun ended, n < 3 ∧ Conflicts Race.program n Race.world w₁ ∧
        Tried Race.program w₁ begun ended ∧ ended.commit = (.ok 5, w') ∧
        (ended.session.writes ≠ ∅ → Serial Race.program begun ended 5 w'.store)) ∧
    (∀ op, Move.op op ∈ Race.moves → "n" ∉ op.targets) ∧
    (Race.clients.run Race.moves).successes = 2 ∧
    Counter.word.standing "n" (Race.clients.run Race.moves).store = 2 := by
  have hp : Race.program.Timeless := by
    intro a
    cases a with
    | error e => trivial
    | ok a =>
      intro b
      cases b <;> trivial
  have hrun : (transact (.new 3) Race.program Race.world).1 = .ok 5 := by decide
  have hmoves : ∀ op, Move.op op ∈ Race.moves → "n" ∉ op.targets := by
    intro op hop
    obtain rfl : op = .put "m" [] := by simpa [Race.moves] using hop
    decide
  have hsuccesses : (Race.clients.run Race.moves).successes = 2 := by decide
  have hcount := (transactions_serializable.2 .word "n" .empty Race.clients.calls Race.moves
    ⟨[], rfl⟩ (fun c hc => ⟨_, List.eq_of_mem_replicate hc⟩) hmoves).1
  refine ⟨hp, ⟨[], rfl⟩, ⟨_, Prod.ext hrun rfl, ?_⟩, hmoves, hsuccesses, hcount.trans ?_⟩
  · exact transactions_serializable.1 _ _ _ _ _ hp ⟨[], rfl⟩ (Prod.ext hrun rfl)
  · show _ + (Race.clients.run Race.moves).successes = 2
    rw [hsuccesses]
    rfl

end Inventory
