import Inventory.Proofs.CommitLog
import Inventory.Proofs.Reading

/-!
# Conflicts come from others

A transaction that meets with a conflict is tried again. The reason is never its own: some other
client has changed the store between the begin of the try and its commit.

* `Shared.done`: what the others have done between two moments.
* `Program.run_blameless`: a body without failures of its own fails only on a closed store.
* `Session.no_obstacle`: **nothing stands in the way of a commit if the store has stood still**
  since the transaction began, whatever it has read and planned in which order.
* `Goes`: how the tries of a transaction can go, one constructor for each outcome of a try.
* `Goes.ends`: each try that met with a conflict takes a change of the others of its own.
* `conflicts_are_justified`: **a transaction gives up only after as many changes of others as it has
  tries**, whatever its body does.
-/

namespace Inventory

/-! ## What the others have done -/

namespace Shared

variable {w w' : Shared} {ops : List Op}

/-- What the others have done at their turns between two moments. -/
def done (w w' : Shared) : List Op :=
  (w.others.take (w.others.length - w'.others.length)).flatten

theorem done_of_append {w w' : Shared} {passed : List (List Op)}
    (h : w.others = passed ++ w'.others) : w.done w' = passed.flatten := by
  unfold done
  have hlength : w.others.length - w'.others.length = passed.length := by
    rw [h, List.length_append]
    omega
  rw [hlength, h, List.take_left]

/-- The turns between two moments are those that are no longer to come. -/
theorem Turns.passed (h : w.Turns ops w') :
    ∃ passed, w.others = passed ++ w'.others ∧ passed.flatten = ops := by
  induction h with
  | none w => exact ⟨[], rfl, rfl⟩
  | @more w w' ops rest ih =>
    obtain ⟨passed, hothers, hflat⟩ := ih
    cases ho : w.others with
    | nil =>
      -- without others nothing happens at a turn
      have hrest : w.turn.others = [] := by
        show w.others.tail = []
        rw [ho]
        rfl
      have hnext : w.next = [] := by
        show w.others.head?.getD [] = []
        rw [ho]
        rfl
      rw [hrest] at hothers
      refine ⟨passed, hothers, ?_⟩
      rw [hnext, hflat]
      rfl
    | cons now later =>
      have hrest : w.turn.others = later := by
        show w.others.tail = later
        rw [ho]
        rfl
      have hnext : w.next = now := by
        show w.others.head?.getD [] = now
        rw [ho]
        rfl
      rw [hrest] at hothers
      refine ⟨now :: passed, ?_, ?_⟩
      · rw [hothers]
        rfl
      · rw [List.flatten_cons, hnext, hflat]

theorem Turns.done_eq (h : w.Turns ops w') : w.done w' = ops := by
  obtain ⟨passed, hothers, hflat⟩ := h.passed
  rw [done_of_append hothers, hflat]

theorem Turns.done (h : w.Turns ops w') : w.Turns (w.done w') w' := by
  rw [h.done_eq]
  exact h

/-- The changes of the others between two moments are counted by the revision. -/
theorem Turns.commits_length (h : w.Turns ops w') :
    w'.store.revision = w.store.revision + (Op.commits (w.done w') w.store).length := by
  rw [h.done_eq, h.store]
  exact (Op.commits_revision ops w.store).1

end Shared

/-! ## Bodies without failures of their own -/

/-- A program fails with nothing but what the store has told it; `told` are the errors so far. -/
def Program.Blameless {α : Type} : Program α → List KvError → Prop
  | pure _, _ => True
  | fail e, told => ∃ k ∈ told, e = .ofKv k
  | get _ next, told =>
    (∀ v, (next (.ok v)).Blameless told) ∧ ∀ k, (next (.error k)).Blameless (k :: told)
  | revision _ next, told => ∀ v, (next v).Blameless told
  | snapshot next, told => ∀ v, (next v).Blameless told
  | plan _ _ next, told => next.Blameless told

namespace Program

variable {α : Type} {r r' : Running}

/-- A transaction is told of a closed store and of nothing else. -/
theorem get_error {key : String} {k : KvError} (h : (r.get key).1 = .error k) :
    k = .unavailable "store is closed" ∧ (r.get key).2.store.closed = true := by
  cases hk : r.session.known? key with
  | some value =>
    rw [Running.get_of_known hk] at h
    cases h
  | none =>
    cases ho : r.toShared.turn.store.closed with
    | false =>
      rw [Running.get_of_unknown hk ho] at h
      cases h
    | true =>
      rw [Running.get_of_closed hk ho] at h ⊢
      exact ⟨(Except.error.inj h).symm, ho⟩

/-- **A body without failures of its own fails only on a closed store.** -/
theorem run_blameless {p : Program α} {told : List KvError} {e : StoreError}
    (hp : p.Blameless told)
    (htold : ∀ k ∈ told, k = .unavailable "store is closed" ∧ r.store.closed = true)
    (hrun : p.run r = (.error e, r')) :
    e = .unavailable "store is closed" ∧ r'.store.closed = true := by
  induction p generalizing told r with
  | pure a => cases hrun
  | fail e' =>
    obtain ⟨k, hk, rfl⟩ := hp
    obtain ⟨rfl, hclosed⟩ := htold k hk
    cases hrun
    exact ⟨rfl, hclosed⟩
  | revision key next ih => exact ih _ (hp _) htold hrun
  | snapshot next ih => exact ih _ (hp _) htold hrun
  | plan key value next ih => exact ih (r := r.plan key value) hp htold hrun
  | get key next ih =>
    have hrun : (next (r.get key).1).run (r.get key).2 = (.error e, r') := hrun
    -- a store that was closed stays closed
    have hstays : ∀ k ∈ told,
        k = .unavailable "store is closed" ∧ (r.get key).2.store.closed = true := by
      intro k hk
      exact ⟨(htold k hk).1, (Running.get_later r key).closed (htold k hk).2⟩
    cases hget : (r.get key).1 with
    | ok v =>
      rw [hget] at hrun
      exact ih _ (hp.1 v) hstays hrun
    | error k =>
      rw [hget] at hrun
      refine ih _ (hp.2 k) (fun k' hk' => ?_) hrun
      rcases List.mem_cons.1 hk' with rfl | hk'
      · exact get_error hget
      · exact hstays k' hk'

theorem get_snapshot (r : Running) (key : String) :
    (r.get key).2.session.snapshot = r.session.snapshot := by
  cases hk : r.session.known? key with
  | some value => rw [Running.get_of_known hk]
  | none =>
    cases ho : r.toShared.turn.store.closed with
    | false =>
      rw [Running.get_of_unknown hk ho]
      rfl
    | true => rw [Running.get_of_closed hk ho]

/-- A transaction does not forget when it began. -/
theorem run_snapshot (p : Program α) (r : Running) :
    (p.run r).2.session.snapshot = r.session.snapshot := by
  induction p generalizing r with
  | pure a => rfl
  | fail e => rfl
  | get key next ih => exact (ih _ _).trans (get_snapshot r key)
  | revision key next ih => exact ih _ r
  | snapshot next ih => exact ih _ r
  | plan key value next ih => exact ih (r.plan key value)

end Program

/-! ## A try on a store that stands still -/

section Try

variable {α : Type} {p : Program α} {w : Shared} {begun ended : Running} {result : StoreResult α}
  {m : String}

/-- From the begin of a try to its commit the store is in the hands of the others. -/
theorem Running.begin_turns (hbegin : (Running.begin w).1 = .ok begun)
    (hrun : p.run begun = (result, ended)) :
    w.Turns w.next begun.toShared ∧ begun.session = .start begun.store.revision ∧
      ended.Met begun.toShared := by
  have hmet : begun.Met begun.toShared := by
    rw [Running.begin_ok hbegin]
    exact .begin _ _
  have hend := p.run_met hmet
  rw [hrun] at hend
  refine ⟨?_, ?_, hend⟩
  · rw [Running.begin_ok hbegin]
    have hone := Shared.Turns.more (.none w.turn)
    rw [List.append_nil] at hone
    exact hone
  · rw [Running.begin_ok hbegin]

/-- **Nothing stands in the way of a commit if the store has stood still** since the transaction
began: what was read is still there, and nothing has a revision beyond the begin. -/
theorem Session.no_obstacle (hs : begun.store.Stamped)
    (hbegun : begun.session = .start begun.store.revision)
    (hrun : p.run begun = (result, ended)) (hmet : ended.Met begun.toShared)
    (hstill : ended.toShared.turn.store.revision = begun.store.revision) :
    Store.obstacle? ended.toShared.turn.store.contents ended.session.request = none := by
  obtain ⟨ops, hturns⟩ := hmet.turns
  have hend : ended.toShared.turn.store = Op.runAll (ops ++ ended.toShared.next) begun.store :=
    hturns.turn.store
  have hlater : begun.store.Later ended.toShared.turn.store := by
    rw [hend]
    exact Store.later_runAll _ _
  have hsame := hlater.same hstill
  refine Store.obstacle?_eq_none_iff.2 ⟨fun r hr => ?_, fun snapshot hsnapshot w hw _ => ?_⟩
  · -- a read found what the store held at some moment, and every moment is alike
    obtain ⟨⟨key, found⟩, hmem, rfl⟩ := List.mem_map.1 hr
    obtain ⟨s, hmoment, hfound⟩ :=
      hmet.met key found (Std.ExtTreeMap.mem_toList_iff_getElem?_eq_some.1 hmem)
    obtain ⟨early, late, hboth, rfl⟩ := hmoment.turn
    have hfirst := Store.later_runAll early begun.store
    have hlast : (Op.runAll early begun.store).Later ended.toShared.turn.store := by
      rw [hboth.store, Op.runAll_append]
      exact Store.later_runAll _ _
    have hrevision : (Op.runAll early begun.store).revision = begun.store.revision := by
      have hle := hlast.revision_le
      rw [hstill] at hle
      exact Nat.le_antisymm hle hfirst.revision_le
    rw [hfirst.same hrevision] at hfound
    show ended.toShared.turn.store.contents.modRevision key = Session.foundRevision found
    rw [hsame, ← hfound, Session.foundRevision_eq]
  · -- a write finds nothing that is newer than the begin
    have hbegan : begun.store.revision = snapshot := by
      have hkept := p.run_snapshot begun
      rw [hrun, hbegun] at hkept
      have hasked : ended.session.snapshot = snapshot := Option.some.inj hsnapshot
      rw [← hasked, hkept]
      rfl
    have hend := hs.runAll (ops ++ ended.toShared.next)
    rw [← hturns.turn.store] at hend
    have hle := hend.modRevision_le w.key
    rw [← hbegan, ← hstill]
    exact hle

/-- Whatever stands in the way of a commit is a conflict. -/
theorem Store.obstacle_is_conflict {c : Contents} {txn : TxnRequest} {e : KvError}
    (h : Store.obstacle? c txn = some e) : ∃ m, e = .conflict m := by
  unfold obstacle? at h
  cases hr : movedRead? c txn.reads with
  | some e' =>
    rw [hr] at h
    obtain ⟨r, -, hconflict⟩ := Option.map_eq_some_iff.1 hr
    exact ⟨_, (Option.some.inj h).symm.trans hconflict.symm⟩
  | none =>
    rw [hr] at h
    obtain ⟨snapshot, -, hmoved⟩ := Option.bind_eq_some_iff.1 h
    obtain ⟨w, -, hconflict⟩ := Option.map_eq_some_iff.1 hmoved
    exact ⟨_, hconflict.symm⟩

/-- A commit that meets with a conflict finds something in its way. -/
theorem Running.obstacle_of_conflict {r : Running} (h : r.commit.1 = .error (.conflict m)) :
    Store.obstacle? r.toShared.turn.store.contents r.session.request ≠ none := by
  intro hnone
  have h : (r.toShared.turn.store.commitTxn r.session.request).1 = .error (.conflict m) := h
  cases hs : r.toShared.turn.store.closed with
  | true =>
    unfold Store.commitTxn at h
    rw [Store.ifOpen_of_closed hs] at h
    cases h
  | false =>
    obtain ⟨rev, hok⟩ := (Store.commitTxn_ok_iff _ _).2 ⟨hs, .inr hnone⟩
    rw [hok] at h
    cases h

/-- **A conflict has its reason**: others have changed the store since the try began. -/
theorem Running.conflict_revision (hs : w.store.Stamped)
    (hbegin : (Running.begin w).1 = .ok begun) (hrun : p.run begun = (result, ended))
    (h : ended.commit.1 = .error (.conflict m)) :
    begun.store.revision < ended.toShared.turn.store.revision := by
  obtain ⟨hfirst, hbegun, hmet⟩ := Running.begin_turns hbegin hrun
  have hstamped : begun.store.Stamped := by
    rw [hfirst.store]
    exact hs.runAll _
  obtain ⟨ops, hturns⟩ := hmet.turns
  have hle : begun.store.revision ≤ ended.toShared.turn.store.revision := by
    rw [hturns.turn.store]
    exact (Store.later_runAll _ _).revision_le
  have hne : ended.toShared.turn.store.revision ≠ begun.store.revision := fun hstill =>
    Running.obstacle_of_conflict h (Session.no_obstacle hstamped hbegun hrun hmet hstill)
  exact Nat.lt_of_le_of_ne hle (Ne.symm hne)

end Try

/-! ## All tries of a transaction -/

/-- A program that is given a value and leaves one for the next try, as the body of a
transaction. -/
def Program.closure {σ : Type} (f : σ → Program σ) : Body σ := fun _ r s =>
  match (f s).run r with
  | (.ok s', ended) => (.ok (), ended, s')
  | (.error e, ended) => (.error e, ended, s)

/-- What a body has done in one try. -/
structure Round where
  begun : Running
  ended : Running
  result : StoreResult Unit

namespace Round

/-- The try met with a conflict: the body was done, and the commit was refused. -/
def Conflicted (r : Round) : Prop :=
  r.result = .ok () ∧ ∃ m, r.ended.commit.1 = .error (.conflict m)

/-- The changes of the others from the begin of a try to its commit. -/
def foreign (r : Round) : List (List WatchEvent) :=
  Op.commits (r.begun.toShared.done r.ended.toShared.turn) r.begun.store

end Round

/-- A body that keeps a record of what it does. -/
def recorded {σ : Type} (body : Body σ) : Body (σ × List Round) := fun n r x =>
  let (result, ended, s) := body n r x.1
  (result, ended, s, x.2 ++ [⟨r, ended, result⟩])

/-- Keeping a record makes no difference. -/
theorem transactFrom_recorded {σ : Type} (attempts left : Nat) (body : Body σ) (last : String)
    (w : Shared) (s : σ) (rounds : List Round) :
    transactFrom attempts body left last w s =
      ((transactFrom attempts (recorded body) left last w (s, rounds)).1,
        (transactFrom attempts (recorded body) left last w (s, rounds)).2.1,
        (transactFrom attempts (recorded body) left last w (s, rounds)).2.2.1) := by
  induction left generalizing last w s rounds with
  | zero => rfl
  | succ left ih =>
    unfold transactFrom tryOnce recorded
    cases Running.begin w with
    | mk begins w₁ =>
      cases begins with
      | error e => rfl
      | ok begun =>
        simp only
        cases body (attempts - (left + 1)) begun s with
        | mk result rest =>
          obtain ⟨ended, s'⟩ := rest
          cases result with
          | error e => rfl
          | ok u =>
            simp only
            cases Try.ofCommit ended.commit.1 with
            | committed rev => rfl
            | failed e => rfl
            | conflicted m => exact ih m _ s' _

/-- How a transaction with some tries left can go on. -/
inductive Goes {σ : Type} (f : σ → Program σ) :
    Nat → Shared → σ → List Round → StoreResult Revision → Shared → Prop where
  | exhausted (m : String) (w : Shared) (s : σ) : Goes f 0 w s [] (.error (.conflict m)) w
  | unbegun {n : Nat} {w : Shared} {s : σ} {e : KvError}
      (begins : (Running.begin w).1 = .error e) : Goes f (n + 1) w s [] (.error (.ofKv e)) w.turn
  | stopped {n : Nat} {w : Shared} {s : σ} {begun ended : Running} {e : StoreError}
      (begins : (Running.begin w).1 = .ok begun) (runs : (f s).run begun = (.error e, ended)) :
      Goes f (n + 1) w s [⟨begun, ended, .error e⟩] (.error e) ended.toShared
  | committed {n : Nat} {w w' : Shared} {s s' : σ} {begun ended : Running} {rev : Revision}
      (begins : (Running.begin w).1 = .ok begun) (runs : (f s).run begun = (.ok s', ended))
      (commits : ended.commit = (.ok rev, w')) :
      Goes f (n + 1) w s [⟨begun, ended, .ok ()⟩] (.ok rev) w'
  | refused {n : Nat} {w w' : Shared} {s s' : σ} {begun ended : Running} {e : KvError}
      (begins : (Running.begin w).1 = .ok begun) (runs : (f s).run begun = (.ok s', ended))
      (commits : ended.commit = (.error e, w')) (final : ∀ m, e ≠ .conflict m) :
      Goes f (n + 1) w s [⟨begun, ended, .ok ()⟩] (.error (.ofKv e)) w'
  | again {n : Nat} {w w₁ w' : Shared} {s s' : σ} {begun ended : Running} {m : String}
      {rounds : List Round} {result : StoreResult Revision}
      (begins : (Running.begin w).1 = .ok begun) (runs : (f s).run begun = (.ok s', ended))
      (commits : ended.commit = (.error (.conflict m), w₁))
      (rest : Goes f n w₁ s' rounds result w') :
      Goes f (n + 1) w s (⟨begun, ended, .ok ()⟩ :: rounds) result w'

theorem Running.begin_error {w : Shared} {e : KvError} (h : (Running.begin w).1 = .error e) :
    e = .unavailable "store is closed" ∧ w.turn.store.closed = true := by
  cases hs : w.turn.store.closed with
  | true =>
    simp only [begin, Store.currentRevision, Store.ifOpen_of_closed hs] at h
    exact ⟨(Except.error.inj h).symm, rfl⟩
  | false =>
    simp only [begin, Store.currentRevision, Store.ifOpen_of_open hs] at h
    cases h

/-- **A transaction goes in one of these ways**, and the record has its tries. -/
theorem transactFrom_goes {σ : Type} (f : σ → Program σ) (attempts left : Nat) (last : String)
    (w : Shared) (s : σ) (before : List Round) :
    ∃ rounds, Goes f left w s rounds
        (transactFrom attempts (recorded (Program.closure f)) left last w (s, before)).1
        (transactFrom attempts (recorded (Program.closure f)) left last w (s, before)).2.1 ∧
      (transactFrom attempts (recorded (Program.closure f)) left last w (s, before)).2.2.2 =
        before ++ rounds := by
  induction left generalizing last w s before with
  | zero => exact ⟨[], .exhausted _ w s, (List.append_nil before).symm⟩
  | succ left ih =>
    unfold transactFrom tryOnce
    cases hb : Running.begin w with
    | mk begins w₁ =>
      cases begins with
      | error e =>
        have hw : w₁ = w.turn := (congrArg Prod.snd hb).symm
        rw [hw]
        exact ⟨[], .unbegun (congrArg Prod.fst hb), (List.append_nil before).symm⟩
      | ok begun =>
        have hbegins := congrArg Prod.fst hb
        cases hr : (f s).run begun with
        | mk result ended =>
          cases result with
          | error e =>
            simp only [recorded, Program.closure, hr]
            exact ⟨_, .stopped hbegins hr, rfl⟩
          | ok s' =>
            simp only [recorded, Program.closure, hr]
            cases hc : ended.commit with
            | mk answer w₂ =>
              cases answer with
              | ok rev => exact ⟨_, .committed hbegins hr hc, rfl⟩
              | error e =>
                cases e with
                | conflict m =>
                  obtain ⟨rounds, hgoes, hrecord⟩ := ih m w₂ s' (before ++ [⟨begun, ended, .ok ()⟩])
                  refine ⟨_, .again hbegins hr hc hgoes, hrecord.trans ?_⟩
                  rw [List.append_assoc]
                  rfl
                | _ => exact ⟨_, .refused hbegins hr hc (fun m h => nomatch h), rfl⟩

/-! ## What each try and all of them come to -/

section Rounds

variable {α : Type} {p : Program α} {w : Shared} {begun ended : Running} {result : StoreResult α}

/-- The try that began and ended so: the store has gone on in the hands of the others. -/
theorem Running.try_turns (hbegin : (Running.begin w).1 = .ok begun)
    (hrun : p.run begun = (result, ended)) :
    begun.toShared.Turns (begun.toShared.done ended.toShared.turn) ended.toShared.turn ∧
      ∃ ops, w.Turns ops ended.toShared.turn := by
  obtain ⟨hfirst, -, hmet⟩ := Running.begin_turns hbegin hrun
  obtain ⟨ops, hturns⟩ := hmet.turns
  exact ⟨hturns.turn.done, _, hfirst.trans hturns.turn⟩

/-- **A try meets with a conflict only if others have changed the store** between its begin and its
commit. -/
theorem Round.foreign_of_conflicted (hs : w.store.Stamped)
    (hbegin : (Running.begin w).1 = .ok begun) (hrun : p.run begun = (result, ended))
    {told : StoreResult Unit} (h : Round.Conflicted ⟨begun, ended, told⟩) :
    Round.foreign ⟨begun, ended, told⟩ ≠ [] := by
  obtain ⟨-, m, hconflict⟩ := h
  intro hnone
  have hlt := Running.conflict_revision hs hbegin hrun hconflict
  have hcount := (Running.try_turns hbegin hrun).1.commits_length
  have hzero : (Op.commits (begun.toShared.done ended.toShared.turn) begun.store).length = 0 :=
    List.length_eq_zero_iff.2 hnone
  rw [hcount, hzero] at hlt
  exact absurd hlt (Nat.lt_irrefl _)

/-- A commit that is refused for another reason than a conflict finds the store closed. -/
theorem Running.commit_refused {r : Running} {e : KvError} {w' : Shared}
    (h : r.commit = (.error e, w')) (final : ∀ m, e ≠ .conflict m) :
    e = .unavailable "store is closed" ∧ w'.store.closed = true := by
  have hafter := Running.commit_error h
  have hanswer : (r.toShared.turn.store.commitTxn r.session.request).1 = .error e :=
    congrArg Prod.fst h
  rw [hafter]
  unfold Store.commitTxn at hanswer
  cases hs : r.toShared.turn.store.closed with
  | true =>
    rw [Store.ifOpen_of_closed hs] at hanswer
    exact ⟨(Except.error.inj hanswer).symm, rfl⟩
  | false =>
    rw [Store.ifOpen_of_open hs] at hanswer
    split at hanswer
    · cases hanswer
    · cases ho : Store.obstacle? r.toShared.turn.store.contents r.session.request with
      | none =>
        rw [ho] at hanswer
        cases hanswer
      | some e' =>
        -- whatever stands in the way is a conflict
        rw [ho] at hanswer
        obtain ⟨m, hm⟩ := Store.obstacle_is_conflict ho
        exact absurd ((Except.error.inj hanswer).symm.trans hm) (final m)

end Rounds

namespace Goes

variable {σ : Type} {f : σ → Program σ} {n : Nat} {w w' : Shared} {s : σ} {rounds : List Round}
  {result : StoreResult Revision}

theorem length_le (h : Goes f n w s rounds result w') : rounds.length ≤ n := by
  induction h with
  | exhausted m w s => exact Nat.le_refl 0
  | unbegun begins => exact Nat.zero_le _
  | again begins runs commits rest ih => exact Nat.succ_le_succ ih
  | _ => exact Nat.succ_le_succ (Nat.zero_le _)

/-- There is another try only after a conflict. -/
theorem retried (h : Goes f n w s rounds result w') : ∀ r ∈ rounds.dropLast, r.Conflicted := by
  induction h with
  | again begins runs commits rest ih =>
    rename_i rounds _
    intro r hr
    cases rounds with
    | nil => cases hr
    | cons next later =>
      rcases List.mem_cons.1 hr with rfl | hr
      · exact ⟨rfl, _, congrArg Prod.fst commits⟩
      · exact ih r hr
  | _ => intro r hr; cases hr

/-- After a conflict the store is as the others have left it. -/
theorem stamped_again {begun ended : Running} {s' : σ} {w₁ : Shared} {e : KvError}
    (hs : w.store.Stamped) (begins : (Running.begin w).1 = .ok begun)
    (runs : (f s).run begun = (.ok s', ended)) (commits : ended.commit = (.error e, w₁)) :
    (∃ ops, w.Turns ops w₁) ∧ w₁.store.Stamped := by
  obtain ⟨-, ops, hturns⟩ := Running.try_turns begins runs
  rw [← Running.commit_error commits] at hturns
  refine ⟨⟨ops, hturns⟩, ?_⟩
  rw [hturns.store]
  exact hs.runAll ops

/-- Each try that meets with a conflict has a reason of its own. -/
theorem foreign (h : Goes f n w s rounds result w') (hs : w.store.Stamped) :
    ∀ r ∈ rounds, r.Conflicted → r.foreign ≠ [] := by
  induction h with
  | exhausted m w s => intro r hr; cases hr
  | unbegun begins => intro r hr; cases hr
  | stopped begins runs | committed begins runs commits | refused begins runs commits final =>
    intro r hr
    rw [List.mem_singleton.1 hr]
    exact Round.foreign_of_conflicted hs begins runs
  | again begins runs commits rest ih =>
    intro r hr
    rcases List.mem_cons.1 hr with rfl | hr
    · exact Round.foreign_of_conflicted hs begins runs
    · exact ih (stamped_again hs begins runs commits).2 r hr

/-- What a transaction comes to whose body does not fail: it commits, or the store is closed, or
each try meets with a conflict. Then the others have changed the store once in each of them. -/
theorem ends (h : Goes f n w s rounds result w') (hf : ∀ s, (f s).Blameless [])
    (hs : w.store.Stamped) :
    (∃ rev, result = .ok rev) ∨
    (result = .error (.unavailable "store is closed") ∧ w'.store.closed = true) ∨
    (∃ m, result = .error (.conflict m)) ∧ rounds.length = n ∧ (∀ r ∈ rounds, r.Conflicted) ∧
      (∃ ops, w.Turns ops w') ∧ w.store.revision + n ≤ w'.store.revision := by
  induction h with
  | exhausted m w s =>
    refine .inr (.inr ⟨⟨m, rfl⟩, rfl, fun r hr => ?_, ⟨[], .none w⟩, Nat.le_refl _⟩)
    cases hr
  | unbegun begins =>
    obtain ⟨rfl, hclosed⟩ := Running.begin_error begins
    exact .inr (.inl ⟨rfl, hclosed⟩)
  | stopped begins runs =>
    obtain ⟨rfl, hclosed⟩ := Program.run_blameless (hf _) (fun k hk => nomatch hk) runs
    exact .inr (.inl ⟨rfl, hclosed⟩)
  | committed begins runs commits => exact .inl ⟨_, rfl⟩
  | refused begins runs commits final =>
    obtain ⟨rfl, hclosed⟩ := Running.commit_refused commits final
    exact .inr (.inl ⟨rfl, hclosed⟩)
  | again begins runs commits rest ih =>
    obtain ⟨⟨ops, hturns⟩, hstamped⟩ := stamped_again hs begins runs commits
    rcases ih hstamped with hok | hclosed | ⟨hconflict, hlength, hall, ⟨ops', hrest⟩, hle⟩
    · exact .inl hok
    · exact .inr (.inl hclosed)
    · have hlt := Running.conflict_revision hs begins runs (congrArg Prod.fst commits)
      have hafter := Running.commit_error commits
      have hfirst := (Running.begin_turns begins runs).1.commits_length
      refine .inr (.inr ⟨hconflict, congrArg (· + 1) hlength, fun r hr => ?_,
        ⟨_, hturns.trans hrest⟩, ?_⟩)
      · rcases List.mem_cons.1 hr with rfl | hr
        · exact ⟨rfl, _, congrArg Prod.fst commits⟩
        · exact hall r hr
      · -- the change before this commit, and those before the later ones
        rw [hafter] at hle
        refine Nat.le_trans ?_ hle
        rw [Nat.add_comm _ 1, ← Nat.add_assoc]
        refine Nat.add_le_add_right (Nat.le_trans (Nat.succ_le_succ ?_) hlt) _
        rw [hfirst]
        exact Nat.le_add_right _ _

end Goes

/-! ## Transactions -/

/-- What the body of a transaction does, try after try. -/
def Program.rounds {σ : Type} (f : σ → Program σ) (policy : RetryPolicy) (w : Shared) (s : σ) :
    List Round :=
  (transactWith policy (recorded (Program.closure f)) w (s, [])).2.2.2

/-- The conflicts of a transaction are justified: it has some tries and no more, each conflict has a
reason, and it gives up only if each try met with a conflict; so it succeeds if the others change
the store less often than that. -/
structure Justified (policy : RetryPolicy) (w : Shared) (rounds : List Round)
    (result : StoreResult Revision) (w' : Shared) : Prop where
  bounded : rounds.length ≤ max policy.maxAttempts 3
  foreign : ∀ r ∈ rounds, r.Conflicted → r.foreign ≠ []
  retried : ∀ r ∈ rounds.dropLast, r.Conflicted
  gaveUp : ∀ m, result = .error (.conflict m) →
    rounds.length = max policy.maxAttempts 3 ∧ ∀ r ∈ rounds, r.Conflicted
  succeeds : w'.store.closed = false →
    (Op.commits (w.done w') w.store).length < max policy.maxAttempts 3 → ∃ rev, result = .ok rev

/-- **Conflicts come from others.** The body of a transaction may read and plan what it likes, and
may remember what it likes from try to try, but it has no failures of its own. Then a try meets with
a conflict only if others have changed the store between its begin and its commit. The body is done
at most as often as the policy says; a transaction gives up after just so many tries, all of which
met with conflicts; and if the others change the store less often while it goes on, and do not close
it, it succeeds. Keeping a record of the tries makes no difference. -/
theorem conflicts_are_justified {σ : Type} {f : σ → Program σ} (hf : ∀ s, (f s).Blameless [])
    (policy : RetryPolicy) {w : Shared} (hs : w.store.Reachable) (s : σ) :
    transactWith policy (Program.closure f) w s =
      ((transactWith policy (recorded (Program.closure f)) w (s, [])).1,
        (transactWith policy (recorded (Program.closure f)) w (s, [])).2.1,
        (transactWith policy (recorded (Program.closure f)) w (s, [])).2.2.1) ∧
    Justified policy w (Program.rounds f policy w s)
      (transactWith policy (Program.closure f) w s).1
      (transactWith policy (Program.closure f) w s).2.1 := by
  have hsame := transactFrom_recorded policy.attempts policy.attempts (Program.closure f) "" w s []
  obtain ⟨rounds, hgoes, hrecord⟩ :=
    transactFrom_goes f policy.attempts policy.attempts "" w s []
  have hrounds : Program.rounds f policy w s = rounds := hrecord
  have hattempts : policy.attempts = max policy.maxAttempts 3 := rfl
  have hends := hgoes.ends hf hs.stamped
  refine ⟨hsame, ?_⟩
  unfold transactWith
  rw [hsame, hrounds]
  refine ⟨hattempts ▸ hgoes.length_le, hgoes.foreign hs.stamped, hgoes.retried, fun m hm => ?_,
    fun hopen hfew => ?_⟩
  · rcases hends with ⟨rev, hok⟩ | ⟨hclosed, -⟩ | ⟨-, hlength, hall, -⟩
    · rw [hok] at hm
      cases hm
    · rw [hclosed] at hm
      cases hm
    · exact ⟨hattempts ▸ hlength, hall⟩
  · rcases hends with hok | ⟨-, hclosed⟩ | ⟨-, -, -, ⟨ops, hturns⟩, hle⟩
    · exact hok
    · rw [hclosed] at hopen
      cases hopen
    · -- so many conflicts take as many changes
      have hcount := hturns.commits_length
      rw [hcount] at hle
      exact absurd hfew (Nat.not_lt.2 (Nat.le_of_add_le_add_left hle))

namespace Rivals

/-- Puts the number of the try under a key after looking at it. -/
def program (tries : Nat) : Program Nat := do
  let _ ← .read "x"
  .write "x" [.ofNat tries]
  return tries + 1

/-- Somebody else puts a value under the key just before the first commit. -/
def world : Shared := ⟨Op.runAll [.put "x" [0]] .empty, [[], [], [.put "x" [9]]]⟩

end Rivals

/-- The first try meets with a conflict, the second one commits. -/
theorem conflicts_are_justified_among_rivals :
    (∀ tries, (Rivals.program tries).Blameless []) ∧ Rivals.world.store.Reachable ∧
    (transactWith (.new 3) (Program.closure Rivals.program) Rivals.world 0).1 = .ok 3 ∧
    (Program.rounds Rivals.program (.new 3) Rivals.world 0).length = 2 ∧
    Justified (.new 3) Rivals.world (Program.rounds Rivals.program (.new 3) Rivals.world 0)
      (transactWith (.new 3) (Program.closure Rivals.program) Rivals.world 0).1
      (transactWith (.new 3) (Program.closure Rivals.program) Rivals.world 0).2.1 := by
  have hblameless : ∀ tries, (Rivals.program tries).Blameless [] := by
    intro tries
    exact ⟨fun v => trivial, fun k => ⟨k, .head _, rfl⟩⟩
  have hreachable : Rivals.world.store.Reachable := ⟨_, rfl⟩
  exact ⟨hblameless, hreachable, by decide +kernel, by decide +kernel,
    (conflicts_are_justified hblameless (.new 3) hreachable 0).2⟩

end Inventory
