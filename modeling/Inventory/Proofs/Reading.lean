import Inventory.Proofs.Serial

/-!
# What a transaction has read

A transaction reads one key at a time, and the others go on between its reads. A commit compares
what was read with what is there, but not if there is nothing to write.

* `Shared.Moment`: the states that the store goes through between two turns of a client.
* `Program.run_met`: **each value that a transaction reads was there at some moment** since the
  transaction began.
* `Tried.commit_reading`: a transaction that only reads commits whatever has become of what it
  read, and changes nothing.
* `reading_transactions`: so it succeeds with the first try, and **it has seen a state of the store
  if nothing that it read has moved**; otherwise it may have seen a mixture of states.
-/

namespace Inventory

/-! ## Moments -/

namespace Shared

variable {w w' : Shared} {s : Store} {ops : List Op}

/-- What the others do at the next turn. -/
def next (w : Shared) : List Op := w.others.head?.getD []

/-- The others take some turns, in which they do operations, and nobody else uses the store. -/
inductive Turns : Shared → List Op → Shared → Prop where
  | none (w : Shared) : Turns w [] w
  | more {w w' : Shared} {ops : List Op} (rest : Turns w.turn ops w') : Turns w (w.next ++ ops) w'

/-- The store is in a state between two turns. -/
def Moment (w w' : Shared) (s : Store) : Prop :=
  ∃ early late, w.Turns (early ++ late) w' ∧ s = Op.runAll early w.store

theorem Turns.turn (h : w.Turns ops w') : w.Turns (ops ++ w'.next) w'.turn := by
  induction h with
  | none w =>
    have h := Turns.more (.none w.turn)
    rw [List.append_nil] at h
    exact h
  | more rest ih => rw [List.append_assoc]; exact .more ih

theorem Turns.trans {w'' : Shared} {ops' : List Op} (h : w.Turns ops w')
    (h' : w'.Turns ops' w'') : w.Turns (ops ++ ops') w'' := by
  induction h with
  | none w => exact h'
  | more rest ih =>
    rw [List.append_assoc]
    exact .more (ih h')

theorem Turns.store (h : w.Turns ops w') : w'.store = Op.runAll ops w.store := by
  induction h with
  | none w => rfl
  | more rest ih => rw [ih, Op.runAll_append]; rfl

/-- What the others have done they do no longer. -/
theorem Turns.others (h : w.Turns ops w') : ops ++ w'.others.flatten = w.others.flatten := by
  induction h with
  | none w => rfl
  | @more w w' ops rest ih =>
    rw [List.append_assoc, ih]
    show w.others.head?.getD [] ++ w.others.tail.flatten = _
    cases w.others <;> rfl

/-- A moment before a turn is one before the turn after it. -/
theorem Moment.turn (h : w.Moment w' s) : w.Moment w'.turn s := by
  obtain ⟨early, late, hturns, hs⟩ := h
  have hturns := hturns.turn
  rw [List.append_assoc] at hturns
  exact ⟨early, _, hturns, hs⟩

theorem Turns.moment (h : w.Turns ops w') : w.Moment w' w'.store :=
  ⟨ops, [], by rw [List.append_nil]; exact h, h.store⟩

end Shared

/-! ## What was there when it was read -/

/-- A transaction that began with `b` has found under each key what was there at some moment
since. -/
structure Running.Met (b : Shared) (r : Running) : Prop where
  turns : ∃ ops, b.Turns ops r.toShared
  met : ∀ (key : String) (found : Option Stored), r.session.reads[key]? = some found →
    ∃ s, b.Moment r.toShared s ∧ s.contents[key]? = found

namespace Running

variable {b : Shared} {r : Running}

theorem Met.begin (w : Shared) (rev : Revision) : Met w ⟨w, .start rev⟩ where
  turns := ⟨[], .none w⟩
  met key found h := by
    have h : (∅ : Std.ExtTreeMap String (Option Stored))[key]? = some found := h
    rw [Std.ExtTreeMap.getElem?_empty] at h
    cases h

/-- A read of a transaction under way. -/
theorem Met.get (h : Met b r) (key : String) : Met b (r.get key).2 := by
  obtain ⟨ops, hturns⟩ := h.turns
  cases hk : r.session.known? key with
  | some value => rw [get_of_known hk]; exact h
  | none =>
    have hearlier (k : String) (found : Option Stored) (hf : r.session.reads[k]? = some found) :
        ∃ s, b.Moment r.toShared.turn s ∧ s.contents[k]? = found := by
      obtain ⟨s, hs, hfound⟩ := h.met k found hf
      exact ⟨s, hs.turn, hfound⟩
    cases ho : r.toShared.turn.store.closed with
    | true => rw [get_of_closed hk ho]; exact ⟨⟨_, hturns.turn⟩, hearlier⟩
    | false =>
      rw [get_of_unknown hk ho]
      refine ⟨⟨_, hturns.turn⟩, fun k found hf => ?_⟩
      rw [Session.getElem?_observe] at hf
      split at hf
      · -- what is found now is there at this moment
        rename_i hkey
        obtain rfl := Option.some.inj hf
        exact ⟨_, hturns.turn.moment, by rw [hkey]⟩
      · exact hearlier k found hf

/-- A read plans nothing. -/
theorem get_writes (r : Running) (key : String) :
    (r.get key).2.session.writes = r.session.writes := by
  cases hk : r.session.known? key with
  | some value => rw [get_of_known hk]
  | none =>
    cases ho : r.toShared.turn.store.closed with
    | true => rw [get_of_closed hk ho]
    | false => rw [get_of_unknown hk ho]; rfl

/-- Without planned writes, what a read tells is what the transaction remembers. -/
theorem found_of_get {key : String} {value : Option Bytes} (hw : r.session.writes = ∅)
    (h : (r.get key).1 = .ok value) :
    ∃ found, (r.get key).2.session.reads[key]? = some found ∧ found.map (·.value) = value := by
  cases hk : r.session.known? key with
  | some known =>
    rw [get_of_known hk] at h ⊢
    obtain rfl := Except.ok.inj h
    unfold Session.known? at hk
    rw [hw, Std.ExtTreeMap.getElem?_empty] at hk
    exact Option.map_eq_some_iff.1 hk
  | none =>
    cases ho : r.toShared.turn.store.closed with
    | true => rw [get_of_closed hk ho] at h; cases h
    | false =>
      rw [get_of_unknown hk ho] at h ⊢
      refine ⟨_, ?_, Except.ok.inj h⟩
      show (r.session.observe key _).reads[key]? = _
      rw [Session.getElem?_observe, if_pos rfl]

end Running

namespace Program

variable {α : Type} {r : Running}

/-- **Each value that a transaction reads was there at some moment** since it began. -/
theorem run_met {b : Shared} (p : Program α) (h : r.Met b) : (p.run r).2.Met b := by
  induction p generalizing r with
  | pure a => exact h
  | fail e => exact h
  | get key next ih => exact ih _ (h.get key)
  | revision key next ih => exact ih _ h
  | snapshot next ih => exact ih _ h
  | plan key value next ih => exact ih (r := r.plan key value) ⟨h.turns, h.met⟩

/-- A program that plans no write. -/
def ReadsOnly : Program α → Prop
  | pure _ | fail _ => True
  | get _ next => ∀ v, (next v).ReadsOnly
  | revision _ next => ∀ v, (next v).ReadsOnly
  | snapshot next => ∀ v, (next v).ReadsOnly
  | plan _ _ _ => False

theorem run_writes (p : Program α) (hp : p.ReadsOnly) (r : Running) :
    (p.run r).2.session.writes = r.session.writes := by
  induction p generalizing r with
  | pure a => rfl
  | fail e => rfl
  | get key next ih => exact (ih _ (hp _) _).trans (Running.get_writes r key)
  | revision key next ih => exact ih _ (hp _) r
  | snapshot next ih => exact ih _ (hp _) r
  | plan key value next ih => exact absurd hp id

/-- A program that only reads sees what the transaction remembers to the end. -/
theorem found_of_transcript (p : Program α) (hp : p.ReadsOnly) {r : Running}
    (hw : r.session.writes = ∅) {key : String} {value : Option Bytes}
    (h : Entry.get key (.ok value) ∈ p.transcript r) :
    ∃ found, (p.run r).2.session.reads[key]? = some found ∧ found.map (·.value) = value := by
  induction p generalizing r with
  | pure a => cases h
  | fail e => cases h
  | get k next ih =>
    rcases List.mem_cons.1 h with h | h
    · -- this is the read; later reads change nothing that is known
      obtain ⟨rfl, hanswer⟩ := Entry.get.inj h
      obtain ⟨found, hfound, hvalue⟩ := Running.found_of_get hw hanswer.symm
      exact ⟨found, run_keeps_reads (next _) hfound, hvalue⟩
    · exact ih _ (hp _) ((Running.get_writes r k).trans hw) h
  | revision k next ih =>
    rcases List.mem_cons.1 h with h | h
    · cases h
    · exact ih _ (hp _) hw h
  | snapshot next ih =>
    rcases List.mem_cons.1 h with h | h
    · cases h
    · exact ih _ (hp _) hw h
  | plan k value next ih => exact absurd hp id

end Program

/-! ## Answers to commits -/

/-- A commit is refused and changes nothing, or it is answered with the revision that the store has
then. -/
theorem Store.commitTxn_answer (s : Store) (txn : TxnRequest) :
    (∃ e, s.commitTxn txn = (.error e, s)) ∨ ∃ s', s.commitTxn txn = (.ok s'.revision, s') := by
  unfold commitTxn
  cases hs : s.closed with
  | true =>
    rw [ifOpen_of_closed hs]
    exact .inl ⟨_, rfl⟩
  | false =>
    rw [ifOpen_of_open hs]
    by_cases hw : txn.writes.isEmpty
    · rw [if_pos hw]
      exact .inr ⟨s, rfl⟩
    · rw [if_neg hw]
      cases obstacle? s.contents txn with
      | some e => exact .inl ⟨e, rfl⟩
      | none =>
        refine .inr ⟨(s.commit txn.writes).2, ?_⟩
        show (Except.ok (s.commit txn.writes).1, (s.commit txn.writes).2) = _
        rw [commit_eq]

/-- A commit that is refused changes nothing. -/
theorem Running.commit_error {r : Running} {e : KvError} {w : Shared}
    (h : r.commit = (.error e, w)) : w = r.toShared.turn := by
  have hresult : (r.toShared.turn.store.commitTxn r.session.request).1 = .error e :=
    congrArg Prod.fst h
  have hafter : w = ⟨(r.toShared.turn.store.commitTxn r.session.request).2,
      r.toShared.turn.others⟩ := (congrArg Prod.snd h).symm
  rcases r.toShared.turn.store.commitTxn_answer r.session.request with ⟨e', herror⟩ | ⟨after, hok⟩
  · rw [hafter, herror]
  · rw [hok] at hresult
    cases hresult

/-! ## Commits of transactions that only read -/

/-- Without writes a conditional commit asks nothing and changes nothing. -/
theorem Store.commitTxn_nil {s : Store} {txn : TxnRequest} (h : txn.writes = []) :
    s.commitTxn txn =
      (if s.closed then .error (.unavailable "store is closed") else .ok s.revision, s) := by
  unfold commitTxn
  rw [if_pos (List.isEmpty_iff.2 h)]
  cases hs : s.closed with
  | true => exact ifOpen_of_closed hs
  | false => exact ifOpen_of_open hs

namespace Tried

variable {p : Program Unit} {w : Shared} {begun ended : Running}

theorem no_writes (h : Tried p w begun ended) (hp : p.ReadsOnly) : ended.session.writes = ∅ := by
  have hwrites := p.run_writes hp begun
  rw [h.runs, Running.begin_ok h.begins] at hwrites
  exact hwrites

/-- **A transaction that only reads commits**, if the store is open, whatever has become of what
it read, and changes nothing. -/
theorem commit_reading (h : Tried p w begun ended) (hp : p.ReadsOnly) :
    ended.commit =
      (if ended.toShared.turn.store.closed then .error (.unavailable "store is closed")
        else .ok ended.toShared.turn.store.revision, ended.toShared.turn) := by
  have hnil := ended.session.request_writes_nil_iff.2 (h.no_writes hp)
  show ((ended.toShared.turn.store.commitTxn ended.session.request).1,
    { ended.toShared.turn with
      store := (ended.toShared.turn.store.commitTxn ended.session.request).2 }) = _
  rw [Store.commitTxn_nil hnil]

theorem committed_reading {rev : Revision} {w' : Shared} (h : Tried p w begun ended)
    (hp : p.ReadsOnly) (hc : ended.commit = (.ok rev, w')) :
    rev = ended.toShared.turn.store.revision ∧ w' = ended.toShared.turn := by
  obtain ⟨hrev, hafter⟩ := Prod.mk.inj (hc.symm.trans (h.commit_reading hp))
  split at hrev
  · cases hrev
  · exact ⟨Except.ok.inj hrev, hafter⟩

/-- There is never a reason to try again. -/
theorem first (h : Tried p w begun ended) (hp : p.ReadsOnly) (message : String) :
    ended.commit.1 ≠ .error (.conflict message) := by
  rw [h.commit_reading hp]
  simp only
  split <;> exact fun h => nomatch h

/-- What a transaction that only reads has seen was there at some moment. -/
theorem met_of_transcript (h : Tried p w begun ended) (hp : p.ReadsOnly) {key : String}
    {value : Option Bytes} (hsaw : .get key (.ok value) ∈ p.transcript begun) :
    ∃ found, ended.session.reads[key]? = some found ∧ found.map (·.value) = value ∧
      ∃ s, begun.toShared.Moment ended.toShared.turn s ∧ s.contents[key]? = found := by
  have hbegun : begun.session.writes = ∅ := by rw [Running.begin_ok h.begins]; rfl
  have hmet : begun.Met begun.toShared := by
    rw [Running.begin_ok h.begins]; exact .begin _ _
  obtain ⟨found, hfound, hvalue⟩ := p.found_of_transcript hp hbegun hsaw
  have hend := p.run_met hmet
  rw [h.runs] at hfound hend
  obtain ⟨s, hs, hheld⟩ := hend.met key found hfound
  exact ⟨found, hfound, hvalue, s, hs.turn, hheld⟩

end Tried

/-- A transaction that only reads is tried once. -/
theorem Conflicts.none_of_reading {p : Program Unit} (hp : p.ReadsOnly) {n : Nat} {w w' : Shared}
    (h : Conflicts p n w w') : n = 0 ∧ w' = w := by
  cases h with
  | none => exact ⟨rfl, rfl⟩
  | more tried conflict rest => exact absurd (congrArg Prod.fst conflict) (tried.first hp _)

/-- **A transaction that only reads succeeds with its first try, and nothing that it read is
looked at again.** Each value that it saw was there at some moment between its begin and its commit.
If every key is still at the revision that was read, which is what a commit of writes would ask for,
all that it saw is there at the moment of the commit. -/
theorem reading_transactions {p : Program Unit} (hp : p.ReadsOnly) {policy : RetryPolicy}
    {w w' : Shared} {rev : Revision} (hs : w.store.Reachable)
    (h : transact policy p w = (.ok rev, w')) :
    ∃ begun ended, Tried p w begun ended ∧ ended.commit = (.ok rev, w') ∧
      w' = ended.toShared.turn ∧ rev = w'.store.revision ∧
      (∀ (key : String) (value : Option Bytes), .get key (.ok value) ∈ p.transcript begun →
        ∃ s, begun.toShared.Moment w' s ∧ s.contents[key]?.map (·.value) = value) ∧
      (Store.obstacle? w'.store.contents ended.session.request = none →
        begun.toShared.Moment w' w'.store ∧
        ∀ (key : String) (value : Option Bytes), .get key (.ok value) ∈ p.transcript begun →
          w'.store.contents[key]?.map (·.value) = value) := by
  rw [transact_eq] at h
  obtain ⟨h1, h2⟩ := Prod.mk.inj h
  obtain ⟨n, w₁, begun, ended, -, hconf, htried, hcommit⟩ :=
    transactFrom_committed (Prod.ext h1 (Prod.ext h2 rfl))
  obtain ⟨rfl, rfl⟩ := hconf.none_of_reading hp
  obtain ⟨hrev, rfl⟩ := htried.committed_reading hp hcommit
  refine ⟨begun, ended, htried, hcommit, rfl, hrev, fun key value hsaw => ?_, fun hunmoved => ?_⟩
  · obtain ⟨found, -, hvalue, s, hs, hheld⟩ := htried.met_of_transcript hp hsaw
    exact ⟨s, hs, by rw [hheld]; exact hvalue⟩
  · have hbegun : begun.Met begun.toShared := by
      rw [Running.begin_ok htried.begins]; exact .begin _ _
    have hend := p.run_met hbegun
    rw [htried.runs] at hend
    obtain ⟨ops, hturns⟩ := hend.turns
    have hcurrent : ended.session.Current ended.toShared.turn.store.contents :=
      ((htried.sound hs.stamped).seen.later (Running.turn_later _)).current
        fun _ _ => Session.revisions_of_no_obstacle hunmoved
    refine ⟨hturns.turn.moment, fun key value hsaw => ?_⟩
    obtain ⟨found, hfound, hvalue, -⟩ := htried.met_of_transcript hp hsaw
    rw [hcurrent key found hfound]
    exact hvalue

namespace Mixture

/-- Reads two keys. -/
def program : Program Unit := do
  let _ ← .read "x"
  let _ ← .read "y"

/-- Two keys that others change together, between the two reads. -/
def world : Shared :=
  ⟨Op.runAll [.txn ⟨[], none, [.put "x" [1], .put "y" [1]]⟩] .empty,
    [[], [], [.txn ⟨[], none, [.put "x" [2], .put "y" [2]]⟩], []]⟩

theorem reads : program.ReadsOnly := by
  intro x
  cases x with
  | error e => trivial
  | ok x => intro y; cases y <;> trivial

theorem succeeds : (transact .standard program world).1 = .ok 2 := by decide +kernel

/-- No state of the store shows what the program sees. -/
theorem mixed {begun ended : Running} (h : Tried program world begun ended) :
    .get "x" (.ok (some [1])) ∈ program.transcript begun ∧
      .get "y" (.ok (some [2])) ∈ program.transcript begun ∧
      ∀ s, begun.toShared.Moment ended.toShared.turn s →
        s.contents["x"]?.map (·.value) = s.contents["y"]?.map (·.value) := by
  have hended : (program.run begun).2 = ended := congrArg Prod.snd h.runs
  subst hended
  rw [Running.begin_ok h.begins]
  refine ⟨.head _, .tail _ (.head _), ?_⟩
  rintro s ⟨early, late, hturns, rfl⟩
  -- the others do one thing, and it changes both keys
  have hothers := hturns.others
  rw [List.append_assoc] at hothers
  rcases List.append_eq_singleton_iff.1 hothers with ⟨rfl, -⟩ | ⟨rfl, -⟩
  · decide +kernel
  · decide +kernel

end Mixture

/-- A transaction that sees one key before and one after others have changed both. -/
theorem reading_transactions_of_a_mixture :
    Mixture.program.ReadsOnly ∧ Mixture.world.store.Reachable ∧
    ∃ w', transact .standard Mixture.program Mixture.world = (.ok 2, w') ∧
      ∃ begun ended, Tried Mixture.program Mixture.world begun ended ∧
        ended.commit = (.ok 2, w') ∧ w' = ended.toShared.turn ∧ 2 = w'.store.revision ∧
        (∀ (key : String) (value : Option Bytes),
          .get key (.ok value) ∈ Mixture.program.transcript begun →
            ∃ s, begun.toShared.Moment w' s ∧ s.contents[key]?.map (·.value) = value) ∧
        (Store.obstacle? w'.store.contents ended.session.request = none →
          begun.toShared.Moment w' w'.store ∧
          ∀ (key : String) (value : Option Bytes),
            .get key (.ok value) ∈ Mixture.program.transcript begun →
              w'.store.contents[key]?.map (·.value) = value) :=
  have hrun := Prod.ext Mixture.succeeds rfl
  ⟨Mixture.reads, ⟨_, rfl⟩, _, hrun, reading_transactions Mixture.reads ⟨_, rfl⟩ hrun⟩

/-- A transaction that only reads can succeed without having seen a state of the store. -/
theorem reading_transactions_mix_states :
    ¬ ∀ (policy : RetryPolicy) (p : Program Unit) (w w' : Shared) (rev : Revision),
      p.ReadsOnly → w.store.Reachable → transact policy p w = (.ok rev, w') →
        ∃ n w₁ begun ended, Conflicts p n w w₁ ∧ Tried p w₁ begun ended ∧
          ended.commit = (.ok rev, w') ∧
          ∃ s, begun.toShared.Moment w' s ∧
            ∀ (key : String) (value : Option Bytes),
              .get key (.ok value) ∈ p.transcript begun →
                s.contents[key]?.map (·.value) = value := by
  intro h
  obtain ⟨n, w₁, begun, ended, hconf, htried, hcommit, s, hs, hall⟩ :=
    h .standard Mixture.program Mixture.world _ 2 Mixture.reads ⟨_, rfl⟩
      (Prod.ext Mixture.succeeds rfl)
  obtain ⟨rfl, rfl⟩ := hconf.none_of_reading Mixture.reads
  obtain ⟨-, hafter⟩ := htried.committed_reading Mixture.reads hcommit
  obtain ⟨hx, hy, hboth⟩ := Mixture.mixed htried
  rw [hafter] at hs
  have hsame := hboth s hs
  rw [hall "x" _ hx, hall "y" _ hy] at hsame
  cases hsame

end Inventory
