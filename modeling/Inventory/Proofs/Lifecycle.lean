import Inventory.Proofs.Ahead

/-!
# Starting and ending a hub

A hub can be started, told to end, and started again. A sync looks whether its hub was told to end
before it takes the first commit, and a hub never forgets that it was; so a sync that is started
afterwards gives its list and stops, although the start is answered as one that went well.

* `HubRun.tells_run`: the state that a hub tells is that of its sync, and active as long as this
  goes on.
* `HubRun.live_run`: **a hub that goes on goes on until it is told to end**, and misses nothing.
* `HubRun.over_run`, `HubRun.stale_run`: **a hub that was told to end is over**; by a start it gets
  a list, and nothing later.
* `hubs_run_once`: **a first start on an open store makes a hub run until it is told to end**; any
  other start is refused until then, and one that comes later is answered like the first but leaves
  the hub idle.
-/

namespace Inventory

/-! ## The state of a sync -/

namespace Sync

variable {sync : Sync}

/-- A sync is in an active state as long as it goes on. -/
def Tells (sync : Sync) : Prop := sync.outcome = none ↔ sync.state.isActive = true

theorem tells_ended {state : SyncState} (h : state.isActive = false) (who : Subscriber)
    (outcome : StoreResult Unit) : Tells ⟨who, state, some outcome⟩ :=
  iff_of_false (Option.some_ne_none _) (Bool.eq_false_iff.1 h)

theorem tells_start (who : Subscriber) (scope : String) (s : Store) :
    (start who scope s).1.Tells := by
  unfold start
  split
  · exact tells_ended rfl ..
  · exact iff_of_true rfl rfl

theorem Tells.deliver {σ : Type} (h : sync.Tells) (stop : σ → Bool)
    (receive : List WatchEvent → σ → σ) (s : Store) (x : σ) :
    (sync.deliver stop receive s x).1.Tells := by
  unfold Sync.deliver
  split
  · exact h
  split
  · exact h
  -- it ends on request or with the store
  split
  · exact tells_ended rfl ..
  · exact tells_ended rfl ..
  · exact h

end Sync

namespace Hub

variable {h : Hub} {sync : Sync} {who : Subscriber} {s : Store}

/-! ## What a start is answered with -/

theorem keep_listed (h : Hub) (sync : Sync) : (h.keep sync).listReceived = h.listReceived := by
  unfold keep
  simp only
  split <;> rfl

/-- A hub that has received a list does not forget it. -/
theorem runSteps_listed (ss : List HubStep) (hl : h.listReceived = true) :
    (runSteps ss h).1.listReceived = true := by
  induction ss generalizing h with
  | nil => exact hl
  | cons step ss ih =>
    refine ih ?_
    cases step with
    | feed k d => exact (h.step_feed_level k d).2.trans hl
    | publish rev endOfList => exact Bool.or_eq_true_iff.2 (.inl hl)

theorem deliver_listed (hl : h.listReceived = true) (s : Store) :
    (h.deliver s).1.listReceived = true := by
  unfold deliver
  split
  · exact hl
  split
  · exact hl
  rename_i sync _ _
  refine (keep_listed ..).trans ?_
  refine Sync.deliver_keeps (P := fun x : Hub × Announcements => x.1.listReceived = true)
    (fun events x hx => ?_) (fun x => x.1.cancelled) sync s hl
  exact runSteps_listed _ hx

/-- **A start on an open store is answered as one that went well**, also by a hub that was told to
end. -/
theorem start_of_open (hidle : h.sync = none) (who : Subscriber) (hopen : s.closed = false) :
    (h.start who s).1 = .ok () := by
  obtain ⟨-, hlist, -⟩ := Sync.start_abreast who "" s
  rw [hopen, if_neg Bool.false_ne_true] at hlist
  have hreceived : (receiveAll (Sync.start who "" s).2.1 h).1.listReceived = true := by
    rw [hlist]
    exact (receiveAll_listing_level _ _ h).2
  -- the list has come in before the sync looks whether it is to stop
  have hlisted := deliver_listed ((keep_listed _ (Sync.start who "" s).1).trans hreceived)
    (Sync.start who "" s).2.2
  unfold start
  rw [hidle]
  exact if_pos hlisted

/-- A first start on a closed store fails. -/
theorem start_of_closed (hidle : h.sync = none) (hnew : h.listReceived = false)
    (who : Subscriber) (hclosed : s.closed = true) :
    (h.start who s).1 = .error (.unavailable "sync hub stopped") := by
  unfold start
  rw [hidle, Sync.start_of_closed hclosed]
  unfold waitFor
  exact (if_neg (Bool.eq_false_iff.1 hnew)).trans rfl

/-! ## The state of a hub -/

/-- The state that a hub tells is that of its sync. -/
def Tells (h : Hub) : Prop := ∀ sync, h.sync = some sync → h.state = sync.state ∧ sync.Tells

theorem tells_of_idle (hidle : h.sync = none) : h.Tells := by
  intro sync hsync
  rw [hidle] at hsync
  cases hsync

theorem keep_tells (h : Hub) (hs : sync.Tells) : (h.keep sync).Tells := by
  intro kept hkept
  rw [(h.keep_frame sync).2] at hkept
  cases hkept
  refine ⟨?_, hs⟩
  unfold keep
  simp only
  split <;> rfl

theorem Tells.deliver (ht : h.Tells) (s : Store) : (h.deliver s).1.Tells := by
  unfold Hub.deliver
  cases hsync : h.sync with
  | none => exact tells_of_idle hsync
  | some sync =>
    simp only
    split
    · exact ht
    · exact keep_tells _ ((ht sync hsync).2.deliver ..)

theorem Tells.start (ht : h.Tells) (who : Subscriber) (s : Store) : (h.start who s).2.1.Tells := by
  cases hsync : h.sync with
  | some sync =>
    rw [start_of_started hsync]
    exact ht
  | none =>
    rw [start_parts hsync]
    exact (keep_tells _ (Sync.tells_start who "" s)).deliver _

theorem deliver_of_idle (hidle : h.sync = none) (s : Store) : h.deliver s = (h, [], s) := by
  unfold deliver
  rw [hidle]

/-- A hub that has a sync keeps it until it is told to end. -/
theorem deliver_sync_isSome (h : Hub) (s : Store) :
    (h.deliver s).1.sync.isSome = h.sync.isSome := by
  unfold deliver
  cases hsync : h.sync with
  | none => exact congrArg _ hsync
  | some sync =>
    simp only
    split
    · exact congrArg _ hsync
    · rw [(keep_frame ..).2]
      rfl

theorem start_sync_isSome (h : Hub) (who : Subscriber) (s : Store) :
    (h.start who s).2.1.sync.isSome = true := by
  cases hsync : h.sync with
  | some sync =>
    rw [start_of_started hsync]
    exact congrArg _ hsync
  | none =>
    rw [start_parts hsync, deliver_sync_isSome, (keep_frame ..).2]
    rfl

/-! ## Hubs that were told to end -/

/-- A hub that was told to end: it has no sync that goes on. -/
structure Over (h : Hub) : Prop where
  cancelled : h.cancelled = true
  ended : ∀ sync, h.sync = some sync → sync.outcome ≠ none

theorem done_over (h : Hub) (s : Store) : (h.done s).2.1.Over := by
  obtain ⟨hcancelled, hidle⟩ := h.done_frame s
  refine ⟨hcancelled, fun sync hsync => ?_⟩
  rw [hidle] at hsync
  cases hsync

theorem Over.deliver_eq (ho : h.Over) (s : Store) : h.deliver s = (h, [], s) :=
  (deliver_of_ended ho.ended s).1

theorem Over.done_state (ho : h.Over) (s : Store) : (h.done s).2.1.state = h.state := by
  obtain ⟨caches, revision, listReceived, stopped, cancelled, state, sync⟩ := h
  cases sync with
  | none => rfl
  | some sync =>
    have hended : sync.outcome.isSome = true := Option.isSome_iff_ne_none.2 (ho.ended sync rfl)
    unfold Hub.done
    simp only [hended, if_true]

/-- A sync of a hub that was told to end stops as soon as it looks at what waits. -/
theorem deliver_over (hcancelled : h.cancelled = true) (hsync : h.sync = some sync)
    (hw : sync.outcome = none → ∃ backlog, s.Watching sync.subscriber "" backlog) :
    (h.deliver s).1.Over := by
  refine ⟨(deliver_of_cancelled hcancelled s).2.1, fun kept hkept => ?_⟩
  by_cases hnone : sync.outcome = none
  · -- it takes what waits, but hands nothing over
    obtain ⟨backlog, hwatching⟩ := hw hnone
    unfold Hub.deliver at hkept
    rw [hsync] at hkept
    simp only [hnone, Option.isSome_none, Bool.false_eq_true, if_false] at hkept
    rw [(keep_frame ..).2] at hkept
    cases hkept
    exact Sync.outcome_of_stopped _ hcancelled fun _ => hwatching
  · rw [(deliver_of_ended (h := h) (fun x hx => by
      rw [hsync] at hx; cases hx; exact hnone) s).1, hsync] at hkept
    cases hkept
    exact hnone

/-- **A hub that was told to end gets no more than a list**, however often it is started. -/
theorem Over.start (ho : h.Over) (who : Subscriber) (s : Store) : (h.start who s).2.1.Over := by
  cases hsync : h.sync with
  | some sync =>
    rw [start_of_started hsync]
    exact ho
  | none =>
    obtain ⟨habreast, -, -⟩ := Sync.start_abreast who "" s
    set started := Sync.start who "" s with hstarted
    obtain ⟨hframe, hkept⟩ := (receiveAll started.2.1 h).1.keep_frame started.1
    rw [start_parts hsync]
    refine deliver_over (hframe.trans ((receiveAll_frame _ h).1.trans ho.cancelled)) hkept
      fun hnone => ?_
    have hw := habreast.waiting hnone
    rw [← habreast.name] at hw
    exact ⟨_, hw⟩

/-- It is not active, if it has been started. -/
theorem Over.inactive (ho : h.Over) (ht : h.Tells) (hsome : h.sync.isSome = true) :
    h.state.isActive = false := by
  obtain ⟨sync, hsync⟩ := Option.isSome_iff_exists.1 hsome
  obtain ⟨hstate, htells⟩ := ht sync hsync
  rw [hstate, Bool.eq_false_iff]
  exact fun hactive => ho.ended sync hsync (htells.2 hactive)

end Hub

namespace HubRun

variable {st : HubRun} {who : Subscriber} {caches : CacheSet} {s : Store}
  {early mid late : List Op} {acts : List HubAct}

theorem run_append (who : Subscriber) (st : HubRun) (early late : List HubAct) :
    st.run who (early ++ late) = (st.run who early).run who late := List.foldl_append

/-- What readers, deliveries, starts and ends keep of a hub, it keeps whatever happens. Starts and
ends matter only if there are any. -/
theorem run_keeps {P : Hub → Prop}
    (readers : ∀ h k (f : Cache k.Obj → Cache k.Obj), (∀ c, (f c).entries = c.entries) → P h →
      P (h.onCache k f))
    (deliver : ∀ h now, P h → P (h.deliver now).1)
    (start : .start ∈ acts → ∀ h now, P h → P (h.start who now).2.1)
    (done : .done ∈ acts → ∀ h now, P h → P (h.done now).2.1) (h : P st.hub) :
    P (st.run who acts).hub := by
  refine List.foldlRecOn (motive := fun st => P st.hub) acts (step who) h fun st hst act hact => ?_
  cases act with
  | op o => exact hst
  | start => exact start hact st.hub st.store hst
  | deliver => exact deliver st.hub st.store hst
  | done => exact done hact st.hub st.store hst
  | watch k key name => exact readers st.hub k _ (fun _ => rfl) hst
  | unwatch k key id => exact readers st.hub k _ (fun _ => rfl) hst

/-- **The state that a hub tells is that of its sync**, and active as long as this goes on. -/
theorem tells_run (ht : st.hub.Tells) (who : Subscriber) (acts : List HubAct) :
    (st.run who acts).hub.Tells := by
  refine run_keeps (P := Hub.Tells) ?readers ?deliver ?start ?done ht
  case readers =>
    intro h k f _ ht
    exact ht
  case deliver =>
    intro h now ht
    exact ht.deliver now
  case start =>
    intro _ h now ht
    exact ht.start who now
  case done =>
    intro _ h now _
    exact Hub.tells_of_idle (h.done_frame now).2

/-! ## Once a hub has been told to end -/

/-- **A hub that was told to end is over**, whatever happens. -/
theorem over_run (ho : st.hub.Over) (who : Subscriber) (acts : List HubAct) :
    (st.run who acts).hub.Over := by
  refine run_keeps (P := Hub.Over) ?readers ?deliver ?start ?done ho
  case readers =>
    intro h k f _ ho
    exact ⟨ho.cancelled, ho.ended⟩
  case deliver =>
    intro h now ho
    rw [ho.deliver_eq]
    exact ho
  case start =>
    intro _ h now ho
    exact ho.start who now
  case done =>
    intro _ h now _
    exact h.done_over now

theorem over_of_done (hdone : .done ∈ acts) (st : HubRun) (who : Subscriber) :
    (st.run who acts).hub.Over := by
  obtain ⟨early, late, rfl⟩ := List.append_of_mem hdone
  rw [run_append]
  exact over_run ((st.run who early).hub.done_over _) who late

/-- A hub that is over and inactive stays so, however often it is started and told to end. -/
theorem inactive_run (ho : st.hub.Over) (hi : st.hub.state.isActive = false) (who : Subscriber)
    (acts : List HubAct) : (st.run who acts).hub.state.isActive = false := by
  refine (run_keeps (P := fun h => h.Over ∧ h.state.isActive = false)
    ?readers ?deliver ?start ?done ⟨ho, hi⟩).2
  case readers =>
    intro h k f _ ⟨ho, hi⟩
    exact ⟨⟨ho.cancelled, ho.ended⟩, hi⟩
  case deliver =>
    intro h now ⟨ho, hi⟩
    rw [ho.deliver_eq]
    exact ⟨ho, hi⟩
  case start =>
    intro _ h now ⟨ho, hi⟩
    refine ⟨ho.start who now, ?_⟩
    cases hsync : h.sync with
    | some sync =>
      rw [Hub.start_of_started hsync]
      exact hi
    | none =>
      have ht := (Hub.tells_of_idle hsync).start who now
      exact (ho.start who now).inactive ht (h.start_sync_isSome who now)
  case done =>
    intro _ h now ⟨ho, hi⟩
    refine ⟨h.done_over now, ?_⟩
    rw [ho.done_state]
    exact hi

/-- A hub that is over shows what its last start has left, until it is started again. -/
theorem stale_run (ho : st.hub.Over) (hstarted : st.hub.sync.isSome = true) (who : Subscriber)
    (hacts : .done ∉ acts) : (st.run who acts).hub.SameShown st.hub := by
  refine (run_keeps (P := fun h => (h.Over ∧ h.sync.isSome = true) ∧ h.SameShown st.hub)
    ?readers ?deliver ?start ?done ⟨⟨ho, hstarted⟩, .refl st.hub⟩).2
  case readers =>
    intro h k f hf ⟨⟨ho, hstarted⟩, hsame⟩
    exact ⟨⟨⟨ho.cancelled, ho.ended⟩, hstarted⟩, (Hub.SameShown.onCache h k hf).trans hsame⟩
  case deliver =>
    intro h now ⟨⟨ho, hstarted⟩, hsame⟩
    rw [ho.deliver_eq]
    exact ⟨⟨ho, hstarted⟩, hsame⟩
  case start =>
    -- a sync that has ended still counts as started
    intro _ h now ⟨⟨ho, hstarted⟩, hsame⟩
    obtain ⟨sync, hsync⟩ := Option.isSome_iff_exists.1 hstarted
    rw [Hub.start_of_started hsync]
    exact ⟨⟨ho, hstarted⟩, hsame⟩
  case done =>
    intro hact
    exact absurd hact hacts

/-- By a start on an open store it gets the list. -/
theorem settled_of_over (ho : st.hub.Over) (hidle : st.hub.sync = none)
    (hs : st.Sound who caches s) (hopen : st.store.closed = false) :
    (st.step who .start).hub.Settled caches s st.past [] := by
  obtain ⟨hsettles, -⟩ := hs.standing.started hs.store hopen who
  set started := Sync.start who "" st.store with hstarted
  set listed := (Hub.receiveAll started.2.1 st.hub).1 with hlisted
  have hcancelled : (listed.keep started.1).cancelled = true :=
    (listed.keep_frame started.1).1.trans ((Hub.receiveAll_frame _ _).1.trans ho.cancelled)
  have hunmoved := (Hub.deliver_of_cancelled hcancelled started.2.2).1
  show (st.hub.start who st.store).2.1.Settled caches s st.past []
  rw [Hub.start_parts hidle]
  exact hsettles.settled.congr (hunmoved.trans (.keep listed started.1))

/-! ## Until a hub is told to end -/

/-- Without a start a hub has no sync. -/
theorem idle_run (hidle : st.hub.sync = none) (who : Subscriber) (hacts : .start ∉ acts) :
    (st.run who acts).hub.sync = none := by
  refine run_keeps (P := fun h => h.sync = none) ?readers ?deliver ?start ?done hidle
  case readers =>
    intro h k f _ hidle
    exact hidle
  case deliver =>
    intro h now hidle
    rw [Hub.deliver_of_idle hidle]
    exact hidle
  case start =>
    intro hact
    exact absurd hact hacts
  case done =>
    intro _ h now _
    exact (h.done_frame now).2

theorem idle_of_done (early : List HubAct) {late : List HubAct} (hlate : .start ∉ late)
    (st : HubRun) (who : Subscriber) : (st.run who (early ++ .done :: late)).hub.sync = none := by
  have hnext : ((st.run who early).step who .done).hub.sync = none :=
    ((st.run who early).hub.done_frame _).2
  rw [run_append]
  exact idle_run hnext who hlate

/-- A hub that has been started keeps its sync until it is told to end. -/
theorem started_run (hstarted : st.hub.sync.isSome = true) (who : Subscriber)
    (hacts : .done ∉ acts) : (st.run who acts).hub.sync.isSome = true := by
  refine run_keeps (P := fun h => h.sync.isSome = true) ?readers ?deliver ?start ?done hstarted
  case readers =>
    intro h k f _ hsome
    exact hsome
  case deliver =>
    intro h now hsome
    exact (h.deliver_sync_isSome now).trans hsome
  case start =>
    intro _ h now _
    exact h.start_sync_isSome who now
  case done =>
    intro hact
    exact absurd hact hacts

theorem started_of_start (hstart : .start ∈ acts) (hdone : .done ∉ acts) (st : HubRun)
    (who : Subscriber) : (st.run who acts).hub.sync.isSome = true := by
  obtain ⟨early, late, rfl⟩ := List.append_of_mem hstart
  have hlate : .done ∉ late := fun h =>
    hdone (List.mem_append_right _ (List.mem_cons_of_mem _ h))
  have hnext : ((st.run who early).step who .start).hub.sync.isSome = true :=
    (st.run who early).hub.start_sync_isSome who _
  rw [run_append]
  exact started_run hnext who hlate

/-- A hub that has never been started and never been told to end. -/
structure Fresh (h : Hub) : Prop where
  idle : h.sync = none
  going : h.cancelled = false
  unlisted : h.listReceived = false

theorem fresh_run (hf : Fresh st.hub) (who : Subscriber) (hstart : .start ∉ acts)
    (hdone : .done ∉ acts) : Fresh (st.run who acts).hub := by
  refine run_keeps (P := Fresh) ?readers ?deliver ?start ?done hf
  case readers =>
    intro h k f _ hf
    exact ⟨hf.idle, hf.going, hf.unlisted⟩
  case deliver =>
    intro h now hf
    rw [Hub.deliver_of_idle hf.idle]
    exact hf
  case start =>
    intro hact
    exact absurd hact hstart
  case done =>
    intro hact
    exact absurd hact hdone

/-- A first start on an open store gives a hub that goes on. -/
theorem live_of_fresh (hf : Fresh st.hub) (hs : st.Sound who caches s)
    (hopen : st.store.closed = false) :
    (st.step who .start).hub.Live who caches s st.past [] [] (st.step who .start).store := by
  obtain ⟨-, hlive⟩ := hs.standing.started hs.store hopen who
  show (st.hub.start who st.store).2.1.Live who caches s st.past [] [] _
  unfold step become
  simp only
  rw [Hub.start_parts hf.idle]
  exact (hlive hf.going).deliver.2

/-- A reader of a cache is nobody else's concern. -/
theorem live_onCache (hl : st.hub.Live who caches s early mid late st.store) (k : Kind)
    {f : Cache k.Obj → Cache k.Obj} (hf : ∀ c, (f c).entries = c.entries) :
    (st.hub.onCache k f).Live who caches s early mid late st.store :=
  ⟨hl.kept, hl.going, hl.settled.congr (.onCache st.hub k hf), hl.revision⟩

/-- Each act but the end keeps a hub going on. A delivery brings what waits to what the caches have
got, an operation is added to what waits. -/
theorem live_step (hl : st.hub.Live who caches s early mid late st.store) {act : HubAct}
    (hgoes : act ≠ .done) (hother : ∀ op, act = .op op → op.subscriber? ≠ some who) :
    ∃ mid' late', mid' ++ late' = mid ++ late ++ HubAct.ops [act] ∧
      (st.step who act).hub.Live who caches s early mid' late' (st.step who act).store := by
  have hnil : mid ++ late = mid ++ late ++ [] := (List.append_nil _).symm
  cases act with
  | op o =>
    obtain ⟨sync, kept, abreast⟩ := hl.kept
    exact ⟨mid, late ++ [o], (List.append_assoc ..).symm,
      ⟨sync, kept, abreast.op (hother o rfl)⟩, hl.going, hl.settled, hl.revision⟩
  | start =>
    obtain ⟨sync, kept, -⟩ := hl.kept
    refine ⟨mid, late, hnil, ?_⟩
    show (st.hub.start who st.store).2.1.Live who caches s early mid late _
    unfold step become
    simp only
    rw [Hub.start_of_started kept]
    exact hl
  | deliver => exact ⟨mid ++ late, [], rfl, hl.deliver.2⟩
  | done => exact absurd rfl hgoes
  | watch k key name => exact ⟨mid, late, hnil, live_onCache hl k fun _ => rfl⟩
  | unwatch k key id => exact ⟨mid, late, hnil, live_onCache hl k fun _ => rfl⟩

/-- **A hub that goes on goes on until it is told to end**, and misses nothing. -/
theorem live_run (hl : st.hub.Live who caches s early mid late st.store) (hdone : .done ∉ acts)
    (hothers : ∀ op, .op op ∈ acts → op.subscriber? ≠ some who) :
    ∃ mid' late', mid' ++ late' = mid ++ late ++ HubAct.ops acts ∧
      (st.run who acts).hub.Live who caches s early mid' late' (st.run who acts).store := by
  induction acts generalizing st mid late with
  | nil => exact ⟨mid, late, (List.append_nil _).symm, hl⟩
  | cons act acts ih =>
    obtain ⟨hact, hrest⟩ := not_or.1 fun h => hdone (List.mem_cons.2 h)
    obtain ⟨mid₁, late₁, hfirst, hlive⟩ := live_step hl (fun h => hact h.symm) fun op hop =>
      hothers op (hop ▸ List.mem_cons_self)
    obtain ⟨mid₂, late₂, hall, hlast⟩ := ih hlive hrest fun op hop =>
      hothers op (List.mem_cons_of_mem act hop)
    refine ⟨mid₂, late₂, ?_, hlast⟩
    have hops : HubAct.ops (act :: acts) = HubAct.ops [act] ++ HubAct.ops acts :=
      List.filterMap_append (l := [act])
    rw [hall, hfirst, hops, List.append_assoc]

/-! ## What a start is worth -/

/-- What a start of the hub is answered with. -/
def startAnswer (st : HubRun) (who : Subscriber) : StoreResult Unit :=
  (st.hub.start who st.store).1

/-- A hub runs: its sync is active, and once all has been delivered the hub has the revision of the
store, and its caches have got the list of the store after the operations `early` and all changes
that `late` made. -/
structure Runs (st : HubRun) (who : Subscriber) (caches : CacheSet) (s : Store)
    (early late : List Op) : Prop where
  active : st.hub.state.isActive = true
  revision : (st.step who .deliver).hub.revision = (st.step who .deliver).store.revision
  settled : (st.step who .deliver).hub.Settled caches s early late

/-- A hub idles: its sync is not active, and it delivers nothing. -/
structure Idles (st : HubRun) (who : Subscriber) : Prop where
  inactive : st.hub.state.isActive = false
  deaf : (st.step who .deliver).hub = st.hub

/-- A hub that goes on runs, as long as the store is open. -/
theorem runs_of_live (hl : st.hub.Live who caches s early mid late st.store) (ht : st.hub.Tells)
    (hopen : st.store.closed = false) : st.Runs who caches s early (mid ++ late) := by
  obtain ⟨hto, ⟨sync', -, hlevel⟩, -, -, hrevision⟩ := hl.deliver
  obtain ⟨sync, kept, abreast⟩ := hl.kept
  obtain ⟨hstate, htells⟩ := ht sync kept
  -- a store that is open now was open when the sync last looked
  have hgoing : (Op.runAll mid (Op.runAll early s)).closed = false := by
    have hnow := abreast.store.closed
    rw [hopen, Op.runAll_append] at hnow
    cases hclosed : (Op.runAll mid (Op.runAll early s)).closed with
    | false => rfl
    | true =>
      rw [(Store.later_runAll late _).closed hclosed] at hnow
      cases hnow
  constructor
  case active =>
    rw [hstate]
    exact htells.1 (abreast.going.2 hgoing)
  case revision =>
    have hstore := hlevel.store.revision
    rw [List.append_nil, ← Op.runAll_append] at hstore
    exact hrevision.trans hstore.symm
  case settled => exact hto.settled

/-- A hub that is started for the first time, on an open store, runs until it is told to end or the
store is closed. -/
theorem runs_of_fresh (hf : Fresh st.hub) (hs : st.Sound who caches s)
    (hopen : st.store.closed = false) (hgoes : .done ∉ acts)
    (hothers : ∀ op, .op op ∈ acts → op.subscriber? ≠ some who)
    (hstays : (st.run who (.start :: acts)).store.closed = false) :
    (st.run who (.start :: acts)).Runs who caches s st.past (HubAct.ops acts) := by
  have ht : (st.run who (.start :: acts)).hub.Tells := tells_run (Hub.tells_of_idle hf.idle) who _
  obtain ⟨mid, late, hall, hlast⟩ := live_run (live_of_fresh hf hs hopen) hgoes hothers
  have hruns := runs_of_live hlast ht hstays
  rw [hall] at hruns
  exact hruns

/-- A hub that was told to end idles, whatever happens once it is started again. -/
theorem idles_of_over (ho : st.hub.Over) (ht : st.hub.Tells) (who : Subscriber)
    (acts : List HubAct) : (st.run who (.start :: acts)).Idles who := by
  have hfirst : (st.step who .start).hub.Over := over_run ho who [.start]
  have htells : (st.step who .start).hub.Tells := tells_run ht who [.start]
  have hinactive := hfirst.inactive htells (st.hub.start_sync_isSome who _)
  have hlast : (st.run who (.start :: acts)).hub.Over := over_run ho who _
  exact ⟨inactive_run hfirst hinactive who acts, congrArg (·.1) (hlast.deliver_eq _)⟩

/-- What a start comes to after some acts, `before`, and what has become of the hub after some more,
`after`. -/
structure Starting (st : HubRun) (who : Subscriber) (caches : CacheSet) (s : Store)
    (before after : List HubAct) : Prop where
  /-- A hub that was never told to end starts once, and on an open store. -/
  first : .done ∉ before → .start ∉ before → st.store.closed = false →
    st.startAnswer who = .ok ()
  closed : .done ∉ before → .start ∉ before → st.store.closed = true →
    st.startAnswer who = .error (.unavailable "sync hub stopped")
  twice : .done ∉ before → .start ∈ before →
    st.startAnswer who = .error (.invalid "sync hub already started")
  /-- Then it runs, until it is told to end or the store is closed. -/
  runs : .done ∉ before → st.startAnswer who = .ok () → .done ∉ after →
    (st.run who (.start :: after)).store.closed = false →
      (st.run who (.start :: after)).Runs who caches s (HubAct.ops before) (HubAct.ops after)
  /-- A hub that was told to end is started again, on an open store, as if all were well: it gets
  the list. -/
  again : ∀ early late, before = early ++ .done :: late → .start ∉ late →
    st.store.closed = false → st.startAnswer who = .ok () ∧
      (st.step who .start).hub.Settled caches s (HubAct.ops before) []
  /-- Yet it idles for good, and what it shows is what the start has left. -/
  idles : .done ∈ before → (st.run who (.start :: after)).Idles who
  stale : .done ∈ before → .done ∉ after →
    (st.run who (.start :: after)).hub.SameShown (st.step who .start).hub

end HubRun

open HubRun in
/-- **A hub runs once.** As long as it has not been told to end, a start is answered as one that
went well exactly if it is the first one and the store is open. Then the sync of the hub is active,
and once all has been delivered the hub has the revision of the store and its caches have got all
changes, until it is told to end or the store is closed. Once it has been told to end, a start on an
open store is still answered as one that went well, and the hub gets the list; but its sync is not
active, and nothing that is committed later reaches the caches. -/
theorem hubs_run_once (caches : CacheSet) (who : Subscriber) (s : Store)
    (before after : List HubAct)
    (hothers : ∀ op, HubAct.op op ∈ before ++ after → op.subscriber? ≠ some who) :
    ((HubRun.start caches s).run who before).Starting who caches s before after := by
  have hbefore : ∀ op, HubAct.op op ∈ before → op.subscriber? ≠ some who := fun op hop =>
    hothers op (List.mem_append_left _ hop)
  have hafter : ∀ op, HubAct.op op ∈ after → op.subscriber? ≠ some who := fun op hop =>
    hothers op (List.mem_append_right _ hop)
  have hsound := (Sound.start caches who s).run hbefore
  have hpast : ((HubRun.start caches s).run who before).past = HubAct.ops before :=
    run_past who (HubRun.start caches s) before
  have htells : ((HubRun.start caches s).run who before).hub.Tells :=
    tells_run (Hub.tells_of_idle rfl) who before
  have hfresh (hdone : .done ∉ before) (hstart : .start ∉ before) :
      Fresh ((HubRun.start caches s).run who before).hub :=
    fresh_run ⟨rfl, rfl, rfl⟩ who hstart hdone
  have htwice (hdone : .done ∉ before) (hstart : .start ∈ before) :
      ((HubRun.start caches s).run who before).startAnswer who =
        .error (.invalid "sync hub already started") := by
    have hstarted := started_of_start hstart hdone (HubRun.start caches s) who
    obtain ⟨sync, hsync⟩ := Option.isSome_iff_exists.1 hstarted
    exact congrArg (·.1) (Hub.start_of_started hsync who _)
  have hover (hdone : .done ∈ before) : ((HubRun.start caches s).run who before).hub.Over :=
    over_of_done hdone _ who
  constructor
  case first =>
    intro hdone hstart hopen
    exact Hub.start_of_open (hfresh hdone hstart).idle who hopen
  case closed =>
    intro hdone hstart hclosed
    have hf := hfresh hdone hstart
    exact Hub.start_of_closed hf.idle hf.unlisted who hclosed
  case twice => exact htwice
  case runs =>
    -- the answer tells that it was the first start, and that the store was open
    intro hdone hanswer hgoes hstays
    have hstart : .start ∉ before := by
      intro hstart
      rw [htwice hdone hstart] at hanswer
      cases hanswer
    have hf := hfresh hdone hstart
    have hopen : ((HubRun.start caches s).run who before).store.closed = false := by
      by_contra hclosed
      rw [Bool.not_eq_false] at hclosed
      unfold startAnswer at hanswer
      rw [Hub.start_of_closed hf.idle hf.unlisted who hclosed] at hanswer
      cases hanswer
    rw [← hpast]
    exact runs_of_fresh hf hsound hopen hgoes hafter hstays
  case again =>
    intro early late hsplit hlate hopen
    have hdone : .done ∈ before := by simp [hsplit]
    have hidle : ((HubRun.start caches s).run who before).hub.sync = none := by
      rw [hsplit]
      exact idle_of_done early hlate _ who
    have hlisted := settled_of_over (hover hdone) hidle hsound hopen
    rw [hpast] at hlisted
    exact ⟨Hub.start_of_open hidle who hopen, hlisted⟩
  case idles =>
    intro hdone
    exact idles_of_over (hover hdone) htells who after
  case stale =>
    intro hdone hgoes
    exact stale_run (over_run (hover hdone) who [.start]) (Hub.start_sync_isSome ..) who hgoes

namespace Relaunch

open Together

/-- The hub is told to end before it is started once more. -/
def before : List HubAct := [.start, .done]

/-- Then a flavor is put. -/
def after : List HubAct :=
  [.op (.put (@Entity.storeKey Flavor _ flavor.key) (Entity.encode flavor))]

theorem others (op : Op) (h : HubAct.op op ∈ before ++ after) : op.subscriber? ≠ some who := by
  simp only [before, after, List.cons_append, List.nil_append, List.mem_cons, HubAct.op.injEq,
    reduceCtorEq, List.not_mem_nil, or_false, false_or] at h
  subst h
  exact (Option.some_ne_none who).symm

/-- What the hub has become by then. -/
def last : HubRun :=
  ((HubRun.start caches .empty).run who before).run who (.start :: after)

end Relaunch

open Relaunch in
/-- A hub that runs, and one that was told to end and idles. -/
theorem hubs_run_once_on_a_relaunch :
    (∀ op, HubAct.op op ∈ [] ++ after → op.subscriber? ≠ some Together.who) ∧
    (∀ op, HubAct.op op ∈ before ++ after → op.subscriber? ≠ some Together.who) ∧
    ((HubRun.start Together.caches .empty).run Together.who (.start :: after)).Runs Together.who
      Together.caches .empty [] (HubAct.ops after) ∧
    ((HubRun.start Together.caches .empty).run Together.who before).startAnswer Together.who =
      .ok () ∧
    last.Idles Together.who := by
  have hothers : ∀ op, HubAct.op op ∈ [] ++ after → op.subscriber? ≠ some Together.who :=
    fun op hop => others op (List.mem_append_right _ hop)
  have hruns := (hubs_run_once Together.caches Together.who .empty [] after hothers).runs
    (by simp) (by decide +kernel) (by simp [after]) (by decide +kernel)
  have hagain := hubs_run_once Together.caches Together.who .empty before after others
  exact ⟨hothers, others, hruns, (hagain.again [.start] [] rfl (by simp) (by decide +kernel)).1,
    hagain.idles (by simp [before])⟩

open Relaunch in
/-- Although its second start went well the hub is not active, and it misses the flavor. -/
theorem started_again_in_vain :
    ((HubRun.start Together.caches .empty).run Together.who before).startAnswer Together.who =
      .ok () ∧
    .done ∉ after ∧ last.store.closed = false ∧
    last.hub.state = .cancelled ∧
    (last.step Together.who .deliver).hub.revision = 0 ∧
    (last.step Together.who .deliver).store.revision = 1 ∧
    ((last.step Together.who .deliver).hub.caches.get .flavor).map (·.entries.size) = some 0 ∧
    ¬ last.Runs Together.who Together.caches .empty (HubAct.ops before) (HubAct.ops after) := by
  have hcancelled : last.hub.state = .cancelled := by decide +kernel
  refine ⟨by decide +kernel, by simp [after], by decide +kernel, hcancelled, by decide +kernel,
    by decide +kernel, by decide +kernel, fun hruns => ?_⟩
  have hactive := hruns.active
  rw [hcancelled] at hactive
  cases hactive

end Inventory
