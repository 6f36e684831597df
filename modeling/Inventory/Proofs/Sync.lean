import Inventory.Proofs.Watch
import Inventory.Sync.Basic

/-!
# What a sync delivers

* `Sync.deliver_of_watching`: **a sync hands over all that waits**, one commit after another, as
  long as its receiver does not want it to end.
* `Sync.deliver_frame`: what a sync does to the store is nobody else's concern.
* `Sync.Abreast`: a sync has handed over the commits of the first operations of a history, and
  those of the others wait for it. `Abreast.op`, `Abreast.other` and `Abreast.deliver` keep this
  through whatever happens next.
-/

namespace Inventory

/-- Nothing is committed to a closed store. -/
theorem Op.commitsUnder_of_closed {s : Store} (h : s.closed = true) (scope : String)
    (ops : List Op) : commitsUnder scope ops s = [] := by
  induction ops generalizing s with
  | nil => rfl
  | cons op ops ih =>
    have hnone : op.events s = [] := by
      unfold events writes
      rw [if_pos h]
      rfl
    rw [commitsUnder_cons_of_nil (by rw [hnone]; rfl), ih (run_closed_of_closed h)]

/-- A subscriber takes all that waits, and learns whether the store has been closed. -/
theorem Store.Watching.taken {s : Store} {who : Subscriber} {scope : String}
    {backlog : List WatchEvent} (h : s.Watching who scope backlog) :
    (s.poll who).1 = some (backlog, if !s.closed then none else some Store.streamClosed) := by
  show (s.subscription? who).map _ = _
  rw [h]
  rfl

namespace Sync

/-- A sync that starts on a closed store fails. -/
theorem start_of_closed {s : Store} (h : s.closed = true) (who : Subscriber) (scope : String) :
    start who scope s =
      (⟨who, .failed, some (.error (.ofKv (.unavailable "store is closed")))⟩, [], s) := by
  unfold start Store.watch
  rw [Store.ifOpen_of_closed h]

/-- A sync that starts on an open store gives its list. -/
theorem start_of_open {s : Store} (h : s.closed = false) (who : Subscriber) (scope : String) :
    start who scope s = (⟨who, .streaming, none⟩,
      Delivery.listing (s.contents.scan scope) s.revision, (s.watch who scope).2) := by
  have hwatch : s.watch who scope = (.ok (s.contents.scan scope, s.revision),
      (s.watch who scope).2) := Prod.ext (Store.watch_watching h who scope).1 rfl
  unfold start
  rw [hwatch]

/-- A receiver that never wants to stop gets all commits. -/
theorem handOver_all {σ : Type} {stop : σ → Bool} {receive : List WatchEvent → σ → σ}
    {gs : List (List WatchEvent)} {x : σ}
    (h : ∀ gs : List (List WatchEvent), stop (gs.foldl (fun x g => receive g x) x) = false) :
    handOver stop receive gs x = (false, gs.foldl (fun x g => receive g x) x) := by
  induction gs generalizing x with
  | nil => exact Prod.ext (h []) rfl
  | cons g gs ih =>
    have hgoes : stop x = false := h []
    unfold handOver
    rw [if_neg (Bool.eq_false_iff.1 hgoes), ih fun gs => h (g :: gs)]
    rfl

/-- A receiver that wants to stop gets none. -/
theorem handOver_of_stopped {σ : Type} {stop : σ → Bool} (receive : List WatchEvent → σ → σ)
    (gs : List (List WatchEvent)) {x : σ} (hstop : stop x = true) :
    handOver stop receive gs x = (true, x) := by
  cases gs with
  | nil => exact Prod.ext hstop rfl
  | cons g gs => exact if_pos hstop

/-- What every commit keeps, handing over keeps. -/
theorem handOver_keeps {σ : Type} {P : σ → Prop} {receive : List WatchEvent → σ → σ}
    (hP : ∀ g x, P x → P (receive g x)) (stop : σ → Bool) (gs : List (List WatchEvent)) {x : σ}
    (hx : P x) : P (handOver stop receive gs x).2 := by
  induction gs generalizing x with
  | nil => exact hx
  | cons g gs ih =>
    unfold handOver
    split
    · exact hx
    · exact ih (hP g x hx)

/-- A sync that has ended delivers nothing. -/
theorem deliver_of_ended {σ : Type} {sync : Sync} (h : sync.outcome ≠ none) (stop : σ → Bool)
    (receive : List WatchEvent → σ → σ) (s : Store) (x : σ) :
    sync.deliver stop receive s x = (sync, s, x) := by
  obtain ⟨outcome, ho⟩ := Option.ne_none_iff_exists'.1 h
  unfold deliver
  rw [ho]

/-- A sync that is to stop hands nothing over. -/
theorem deliver_of_stopped {σ : Type} {stop : σ → Bool} (receive : List WatchEvent → σ → σ)
    (sync : Sync) (s : Store) {x : σ} (hstop : stop x = true) :
    (sync.deliver stop receive s x).2.2 = x := by
  have hpolled : s.poll sync.subscriber =
      ((s.poll sync.subscriber).1, (s.poll sync.subscriber).2) := rfl
  unfold deliver
  cases sync.outcome with
  | some outcome => rfl
  | none =>
    rw [hpolled]
    cases (s.poll sync.subscriber).1 with
    | none => rfl
    | some taken =>
      obtain ⟨events, ended⟩ := taken
      simp only [handOver_of_stopped _ _ hstop]

/-- It ends as soon as it looks at what waits. -/
theorem outcome_of_stopped {σ : Type} {stop : σ → Bool} (receive : List WatchEvent → σ → σ)
    {sync : Sync} {s : Store} {scope : String} {backlog : List WatchEvent} {x : σ}
    (hstop : stop x = true) (h : sync.outcome = none → s.Watching sync.subscriber scope backlog) :
    (sync.deliver stop receive s x).1.outcome ≠ none := by
  by_cases hnone : sync.outcome = none
  · have hpolled : s.poll sync.subscriber = ((s.poll sync.subscriber).1, _) := rfl
    unfold deliver
    rw [hnone, hpolled, (h hnone).taken]
    simp only [handOver_of_stopped _ _ hstop]
    exact Option.some_ne_none _
  · rw [deliver_of_ended hnone]
    exact hnone

/-- What every commit keeps, a delivery keeps. -/
theorem deliver_keeps {σ : Type} {P : σ → Prop} {receive : List WatchEvent → σ → σ}
    (hP : ∀ g x, P x → P (receive g x)) (stop : σ → Bool) (sync : Sync) (s : Store) {x : σ}
    (hx : P x) : P (sync.deliver stop receive s x).2.2 := by
  unfold deliver
  split
  · exact hx
  split
  · exact hx
  rename_i events ended s' _
  have hhanded := handOver_keeps hP stop (commitsOf events) hx
  revert hhanded
  obtain ⟨stopped, y⟩ := handOver stop receive (commitsOf events) x
  intro hhanded
  cases stopped with
  | true => exact hhanded
  | false =>
    cases ended with
    | none => exact hhanded
    | some e => exact hhanded

/-- **A sync that goes on delivers all that waits.** If the store is closed it ends, and otherwise
nothing waits any longer. -/
theorem deliver_of_watching {sync : Sync} {s : Store} {scope : String}
    {backlog : List WatchEvent} (hnone : sync.outcome = none)
    (h : s.Watching sync.subscriber scope backlog) :
    ∃ sync' s', (∀ (σ : Type) (stop : σ → Bool) (receive : List WatchEvent → σ → σ) (x : σ),
        (∀ gs : List (List WatchEvent), stop (gs.foldl (fun x g => receive g x) x) = false) →
        sync.deliver stop receive s x =
          (sync', s', (commitsOf backlog).foldl (fun x g => receive g x) x)) ∧
      s'.SameKeys s ∧ sync'.subscriber = sync.subscriber ∧
      (sync'.outcome = none → s'.Watching sync.subscriber scope []) := by
  have hpoll := h.poll sync.subscriber
  rw [if_pos rfl] at hpoll
  have htaken : s.poll sync.subscriber =
      (some (backlog, if !s.closed then none else some Store.streamClosed),
        (s.poll sync.subscriber).2) := Prod.ext h.taken rfl
  cases hs : s.closed with
  | false =>
    refine ⟨sync, (s.poll sync.subscriber).2, fun σ stop receive x hgoes => ?_, ⟨rfl, rfl, rfl⟩,
      rfl, fun _ => hpoll⟩
    unfold deliver
    rw [hnone, htaken, hs]
    simp only [handOver_all hgoes]
    rfl
  | true =>
    refine ⟨(sync.finish .failed (.error (.ofKv Store.streamClosed)) (s.poll sync.subscriber).2).1,
      (s.poll sync.subscriber).2.unwatch sync.subscriber, fun σ stop receive x hgoes => ?_,
      ⟨rfl, rfl, rfl⟩, rfl, fun hgoes => (nomatch hgoes)⟩
    unfold deliver
    rw [hnone, htaken, hs]
    simp only [handOver_all hgoes]
    rfl

/-- A sync that goes on ends with the store. -/
theorem outcome_of_watching {σ : Type} {sync : Sync} {s : Store} {scope : String}
    {backlog : List WatchEvent} (hnone : sync.outcome = none)
    (h : s.Watching sync.subscriber scope backlog) (stop : σ → Bool)
    (receive : List WatchEvent → σ → σ) (x : σ)
    (hgoes : ∀ gs : List (List WatchEvent), stop (gs.foldl (fun x g => receive g x) x) = false) :
    (sync.deliver stop receive s x).1.outcome = none ↔ s.closed = false := by
  have hpolled : s.poll sync.subscriber = ((s.poll sync.subscriber).1, _) := rfl
  unfold deliver
  rw [hnone, hpolled, h.taken]
  simp only [handOver_all hgoes]
  cases hs : s.closed with
  | false => exact ⟨fun _ => rfl, fun _ => hnone⟩
  | true => exact ⟨fun h => (nomatch h), fun h => (nomatch h)⟩

/-- What a sync does to the store is nobody else's concern. -/
theorem deliver_frame {σ : Type} (stop : σ → Bool) (receive : List WatchEvent → σ → σ)
    (sync : Sync) (s : Store) (x : σ) :
    (sync.deliver stop receive s x).2.1.SameKeys s ∧
      ∀ (who : Subscriber) (scope : String) (backlog : List WatchEvent),
        who ≠ sync.subscriber → s.Watching who scope backlog →
          (sync.deliver stop receive s x).2.1.Watching who scope backlog := by
  have hpoll {who : Subscriber} {scope : String} {backlog : List WatchEvent}
      (hne : who ≠ sync.subscriber) (h : s.Watching who scope backlog) :
      (s.poll sync.subscriber).2.Watching who scope backlog := by
    have hkept := h.poll sync.subscriber
    rw [if_neg hne.symm] at hkept
    exact hkept
  -- it takes what waits, and lets go of its subscription if it ends
  have hcases : (sync.deliver stop receive s x).2.1 = s ∨
      (sync.deliver stop receive s x).2.1 = (s.poll sync.subscriber).2 ∨
      (sync.deliver stop receive s x).2.1 =
        (s.poll sync.subscriber).2.unwatch sync.subscriber := by
    have hpolled : s.poll sync.subscriber =
        ((s.poll sync.subscriber).1, (s.poll sync.subscriber).2) := rfl
    unfold deliver
    cases sync.outcome with
    | some o => exact .inl rfl
    | none =>
      rw [hpolled]
      cases (s.poll sync.subscriber).1 with
      | none => exact .inr (.inl rfl)
      | some taken =>
        obtain ⟨events, ended⟩ := taken
        simp only
        obtain ⟨stopped, y⟩ := handOver stop receive (commitsOf events) x
        cases stopped with
        | true => exact .inr (.inr rfl)
        | false =>
          cases ended with
          | none => exact .inr (.inl rfl)
          | some e => exact .inr (.inr rfl)
  rcases hcases with h | h | h
  · rw [h]
    exact ⟨⟨rfl, rfl, rfl⟩, fun _ _ _ _ hw => hw⟩
  · rw [h]
    exact ⟨⟨rfl, rfl, rfl⟩, fun _ _ _ hne hw => hpoll hne hw⟩
  · rw [h]
    exact ⟨⟨rfl, rfl, rfl⟩, fun _ _ _ hne hw => (hpoll hne hw).unwatch_other hne.symm⟩

/-! ## A sync and a history -/

/-- A sync has come so far in the history of a store: the commits of the operations `done` were
handed over, and those of `late` wait. It goes on unless the store was closed by `done`. -/
structure Abreast (sync : Sync) (who : Subscriber) (scope : String) (s₀ : Store)
    (done late : List Op) (s : Store) : Prop where
  name : sync.subscriber = who
  store : s.SameKeys (Op.runAll (done ++ late) s₀)
  waiting : sync.outcome = none → s.Watching who scope
    ((Op.log late (Op.runAll done s₀)).flatMap fun events => markMore (eventsUnder scope events))
  going : sync.outcome = none ↔ (Op.runAll done s₀).closed = false

variable {sync : Sync} {who : Subscriber} {scope : String} {s₀ s s' : Store}
  {done late : List Op}

theorem Abreast.ended (h : sync.Abreast who scope s₀ done late s) (hsome : sync.outcome ≠ none) :
    (Op.runAll done s₀).closed = true := by
  rw [Ne, h.going, Bool.not_eq_false] at hsome
  exact hsome

/-- A sync that starts gives the list of the store, unless this is closed. -/
theorem start_abreast (who : Subscriber) (scope : String) (s : Store) :
    (start who scope s).1.Abreast who scope s [] [] (start who scope s).2.2 ∧
      (start who scope s).2.1 = (if s.closed = true then []
        else Delivery.listing (s.contents.scan scope) s.revision) ∧
      ∀ (other : Subscriber) (p : String) (backlog : List WatchEvent), who ≠ other →
        s.Watching other p backlog → (start who scope s).2.2.Watching other p backlog := by
  cases hs : s.closed with
  | true =>
    rw [start_of_closed hs]
    refine ⟨⟨rfl, ⟨rfl, rfl, rfl⟩, fun h => (nomatch h), fun h => (nomatch h), fun h => ?_⟩, rfl,
      fun _ _ _ _ hw => hw⟩
    exact absurd (hs.symm.trans h) (Bool.noConfusion)
  | false =>
    have hwatching := (Store.watch_watching hs who scope).2
    rw [start_of_open hs]
    exact ⟨⟨rfl, Op.sameKeys_watch s who scope, fun _ => hwatching, fun _ => hs, fun _ => rfl⟩,
      rfl, fun _ _ _ hne hw => hw.watch_other hne scope⟩

/-- Others use the store. -/
theorem Abreast.op (h : sync.Abreast who scope s₀ done late s) {op : Op}
    (hop : op.subscriber? ≠ some who) :
    sync.Abreast who scope s₀ done (late ++ [op]) (op.run s).2 where
  name := h.name
  store := by
    rw [← List.append_assoc, Op.runAll_append]
    exact op.run_sameKeys h.store
  waiting hnone := by
    obtain ⟨backlog, hw, hbacklog⟩ := (h.waiting hnone).run fun heq => absurd heq hop
    have hnothing : op.receivedBy who s = [] :=
      if_neg fun heq => hop (by rw [heq]; rfl)
    have hevents : op.events s = op.events (Op.runAll late (Op.runAll done s₀)) := by
      rw [← Op.runAll_append]
      exact op.events_congr h.store
    rw [hnothing, List.nil_append, hevents] at hbacklog
    have hone : (Op.log [op] (Op.runAll late (Op.runAll done s₀))).flatMap
        (fun events => markMore (eventsUnder scope events)) =
          markMore (eventsUnder scope (op.events (Op.runAll late (Op.runAll done s₀)))) :=
      List.append_nil _
    rw [Op.log_append, List.flatMap_append, hone, ← hbacklog]
    exact hw
  going := h.going

/-- The store changes in nothing that is the sync's concern. -/
theorem Abreast.other (h : sync.Abreast who scope s₀ done late s) (hs : s'.SameKeys s)
    (hw : ∀ backlog, s.Watching who scope backlog → s'.Watching who scope backlog) :
    sync.Abreast who scope s₀ done late s' :=
  ⟨h.name, hs.trans h.store, fun hnone => hw _ (h.waiting hnone), h.going⟩

/-- **A sync hands over the commits that wait for it**, whoever receives them. -/
theorem Abreast.deliver (h : sync.Abreast who scope s₀ done late s) :
    ∃ sync' s', (∀ (σ : Type) (stop : σ → Bool) (receive : List WatchEvent → σ → σ) (x : σ),
        (∀ gs : List (List WatchEvent), stop (gs.foldl (fun x g => receive g x) x) = false) →
        sync.deliver stop receive s x =
          (sync', s', ((Op.commitsUnder scope late (Op.runAll done s₀)).map markMore).foldl
            (fun x g => receive g x) x)) ∧
      sync'.Abreast who scope s₀ (done ++ late) [] s' := by
  have hended := h.ended
  obtain ⟨rfl, hstore, hwaiting, hgoing⟩ := h
  have hlast := hstore.closed
  rw [← List.append_nil (done ++ late)] at hstore
  by_cases hnone : sync.outcome = none
  · have hw := hwaiting hnone
    obtain ⟨sync', s', hdeliver, hsame, hname, hwatch⟩ := deliver_of_watching hnone hw
    rw [Op.commitsOf_log] at hdeliver
    have hdeliver' := hdeliver Unit (fun _ => false) (fun _ x => x) () fun _ => rfl
    have houtcome := outcome_of_watching hnone hw (fun _ => false) (fun _ x => x) ()
      fun _ => rfl
    rw [hdeliver', hlast] at houtcome
    exact ⟨sync', s', hdeliver, hname, hsame.trans hstore, hwatch, houtcome⟩
  · have hclosed := hended hnone
    have hstays : (Op.runAll (done ++ late) s₀).closed = true := by
      rw [Op.runAll_append]
      exact (Store.later_runAll late _).closed hclosed
    refine ⟨sync, s, fun σ stop receive x _ => ?_, rfl, hstore, fun h => absurd h hnone,
      fun h => absurd h hnone, fun h => ?_⟩
    · rw [deliver_of_ended hnone, Op.commitsUnder_of_closed hclosed]
      rfl
    · rw [hstays] at h
      cases h

end Sync

end Inventory
