import Inventory.Proofs.Reading
import Inventory.Proofs.Settled

/-!
# A hub never runs ahead of its caches

What can happen to a store and a hub over time: others use the store, readers of the caches come and
go, and the hub is started, delivers, is ended, and is started again.

* `HubRun.Sound.run`: what is known of a hub stays known, whatever happens.
* `transact_committed`: **a transaction that succeeds does its writes in one commit**, and others
  have the store before.
* `hub_never_ahead`: **the revision of a hub never runs ahead of a cache**, never goes back, is at
  most that of the store, and is that of the store once all has been delivered; so whoever waits for
  the revision of a transaction finds in the caches all that it wrote.
-/

namespace Inventory

/-! ## A hub over time -/

/-- What happens next: an operation on the store; the hub is started, delivers what has come in or
is told to end; a reader of a cache asks to be told of changes to a key, or does not want to be told
any more. -/
inductive HubAct where
  | op (o : Op)
  | start
  | deliver
  | done
  | watch (k : Kind) (key : k.Key) (name : String)
  | unwatch (k : Kind) (key : k.Key) (id : Nat)

/-- The operations among some acts. -/
def HubAct.ops (acts : List HubAct) : List Op :=
  acts.filterMap fun
    | .op o => some o
    | .start | .deliver | .done | .watch _ _ _ | .unwatch _ _ _ => none

/-- A hub as it can be found at some point, after some operations on the store. -/
structure Glimpse where
  hub : Hub
  past : List Op

/-- A store and a hub, the operations that were done on the store, and the hub at every point at
which it could be found: between two acts, and after each step of a delivery, which is when the
callbacks of the cache that was fed run. -/
structure HubRun where
  store : Store
  hub : Hub
  past : List Op
  seen : List Glimpse

namespace HubRun

/-- A hub with some caches registered that has yet to be started. -/
def start (caches : CacheSet) (s : Store) : HubRun :=
  ⟨s, { Hub.empty with caches }, [], [⟨{ Hub.empty with caches }, []⟩]⟩

/-- The hub changes, by way of some hubs. -/
def become (st : HubRun) (hubs : List Hub) (h : Hub) (s : Store) : HubRun :=
  ⟨s, h, st.past, st.seen ++ (hubs ++ [h]).map (⟨·, st.past⟩)⟩

/-- The next step; the syncs of the hub are for `who`. -/
def step (who : Subscriber) (st : HubRun) : HubAct → HubRun
  | .op o => ⟨(o.run st.store).2, st.hub, st.past ++ [o], st.seen ++ [⟨st.hub, st.past ++ [o]⟩]⟩
  | .start =>
    st.become (st.hub.startPassed who st.store) (st.hub.start who st.store).2.1
      (st.hub.start who st.store).2.2.2
  | .deliver =>
    st.become (st.hub.passed st.store) (st.hub.deliver st.store).1 (st.hub.deliver st.store).2.2
  | .done => st.become [] (st.hub.done st.store).2.1 (st.hub.done st.store).2.2
  | .watch k key name => st.become [] (st.hub.onCache k fun c => (c.watch key name).2) st.store
  | .unwatch k key id => st.become [] (st.hub.onCache k fun c => c.unwatch key id) st.store

/-- Steps one after another. -/
def run (who : Subscriber) (st : HubRun) (acts : List HubAct) : HubRun := acts.foldl (step who) st

/-- What is known of a hub over time. -/
structure Sound (st : HubRun) (who : Subscriber) (caches : CacheSet) (s : Store) : Prop where
  store : st.store.SameKeys (Op.runAll st.past s)
  past : ∀ g ∈ st.seen, g.past <+: st.past
  sure : ∀ g ∈ st.seen, g.hub.Sure caches s g.past
  ordered : st.seen.Pairwise fun f g => f.hub.revision ≤ g.hub.revision
  below : ∀ g ∈ st.seen, g.hub.revision ≤ st.hub.revision
  last : st.seen.getLast? = some ⟨st.hub, st.past⟩
  standing : st.hub.Standing caches s st.past
  phase : st.hub.Phase who caches s st.past st.store

variable {st : HubRun} {who : Subscriber} {caches : CacheSet} {s : Store}

theorem Sound.start (caches : CacheSet) (who : Subscriber) (s : Store) :
    (start caches s).Sound who caches s := by
  have hstanding : Hub.Standing { Hub.empty with caches } caches s [] :=
    ⟨fun _ => rfl, .inl rfl⟩
  refine ⟨⟨rfl, rfl, rfl⟩, fun g hg => ?_, fun g hg => ?_, List.pairwise_singleton _ _,
    fun g hg => ?_, rfl, hstanding, .idle rfl rfl⟩
  · rw [List.mem_singleton.1 hg]
    exact List.prefix_rfl
  · rw [List.mem_singleton.1 hg]
    exact hstanding.sure
  · rw [List.mem_singleton.1 hg]
    exact Nat.le_refl _

/-- One act after another keeps what is known. -/
theorem Sound.become (h : st.Sound who caches s) {hubs : List Hub} {hub : Hub} {now : Store}
    (hleads : st.hub.Leads hubs hub caches s st.past) (hkeys : now.SameKeys st.store)
    (hphase : hub.Phase who caches s st.past now) :
    (st.become hubs hub now).Sound who caches s := by
  have hall := hleads.snoc (Hub.SameShown.refl hub)
  have hfound {g : Glimpse} (hg : g ∈ (hubs ++ [hub]).map (⟨·, st.past⟩)) :
      g.hub ∈ hubs ++ [hub] ∧ g.past = st.past := by
    obtain ⟨x, hx, rfl⟩ := List.mem_map.1 hg
    exact ⟨hx, rfl⟩
  constructor
  case store => exact hkeys.trans h.store
  case past =>
    intro g hg
    rcases List.mem_append.1 hg with hg | hg
    · exact h.past g hg
    · rw [(hfound hg).2]
      exact List.prefix_rfl
  case sure =>
    intro g hg
    rcases List.mem_append.1 hg with hg | hg
    · exact h.sure g hg
    · obtain ⟨hx, hpast⟩ := hfound hg
      rw [hpast]
      exact hall.sure g.hub hx
  case ordered =>
    refine List.pairwise_append.2 ⟨h.ordered, ?_, fun f hf g hg => ?_⟩
    · exact List.pairwise_map.2 hall.ascends.ordered
    · exact Nat.le_trans (h.below f hf) (hall.ascends.above g.hub (hfound hg).1)
  case below =>
    intro g hg
    rcases List.mem_append.1 hg with hg | hg
    · exact Nat.le_trans (h.below g hg) hleads.ascends.le
    · exact hall.ascends.below g.hub (hfound hg).1
  case last =>
    unfold HubRun.become
    rw [List.map_append, ← List.append_assoc]
    exact List.getLast?_concat ..
  case standing => exact hleads.standing
  case phase => exact hphase

/-- A hub whose caches hold the same and that publishes the same. -/
theorem Sound.becomeSame (h : st.Sound who caches s) {hub : Hub} {now : Store}
    (hsame : hub.SameShown st.hub) (hkeys : now.SameKeys st.store)
    (hphase : hub.Phase who caches s st.past now) :
    (st.become [] hub now).Sound who caches s := by
  have hleads : st.hub.Leads [] hub caches s st.past :=
    (Hub.Leads.refl h.standing).congr hsame
  exact h.become hleads hkeys hphase

/-- Others use the store. -/
theorem Sound.op (h : st.Sound who caches s) {op : Op} (hop : op.subscriber? ≠ some who) :
    (st.step who (.op op)).Sound who caches s := by
  have hnow : (op.run st.store).2.SameKeys (Op.runAll (st.past ++ [op]) s) := by
    rw [Op.runAll_append]
    exact op.run_sameKeys h.store
  have hstanding := h.standing.more [op]
  constructor
  case store => exact hnow
  case past =>
    intro g hg
    rcases List.mem_append.1 hg with hg | hg
    · exact (h.past g hg).trans (List.prefix_append _ _)
    · rw [List.mem_singleton.1 hg]
      exact List.prefix_rfl
  case sure =>
    intro g hg
    rcases List.mem_append.1 hg with hg | hg
    · exact h.sure g hg
    · rw [List.mem_singleton.1 hg]
      exact hstanding.sure
  case ordered =>
    refine List.pairwise_append.2 ⟨h.ordered, List.pairwise_singleton _ _, fun f hf g hg => ?_⟩
    rw [List.mem_singleton.1 hg]
    exact h.below f hf
  case below =>
    intro g hg
    rcases List.mem_append.1 hg with hg | hg
    · exact h.below g hg
    · rw [List.mem_singleton.1 hg]
      exact Nat.le_refl _
  case last => exact List.getLast?_concat ..
  case standing => exact hstanding
  case phase =>
    cases h.phase with
    | idle sync listed => exact .idle sync listed
    | failed sync kept ended listed => exact .failed sync kept ended listed
    | quit cancelled => exact .quit cancelled
    | live sync early mid late kept going history abreast settled revision =>
      refine .live sync early mid (late ++ [op]) kept going ?_ (abreast.op hop) settled revision
      show st.past ++ [op] = _
      rw [history, List.append_assoc]

theorem Sound.deliver (h : st.Sound who caches s) : (st.step who .deliver).Sound who caches s := by
  obtain ⟨hleads, hphase, hkeys, -⟩ := h.phase.deliver h.standing
  exact h.become hleads hkeys hphase

theorem Sound.startHub (h : st.Sound who caches s) : (st.step who .start).Sound who caches s := by
  obtain ⟨hleads, hphase, hkeys⟩ := h.phase.start h.standing h.store
  exact h.become hleads hkeys hphase

/-- The hub is told to end. -/
theorem Sound.done (h : st.Sound who caches s) : (st.step who .done).Sound who caches s := by
  have hkeys : (st.hub.done st.store).2.2.SameKeys st.store := by
    unfold Hub.done
    cases st.hub.sync with
    | none => exact ⟨rfl, rfl, rfl⟩
    | some sync =>
      show (sync.cancel st.store).2.SameKeys st.store
      unfold Sync.cancel
      cases sync.outcome <;> exact ⟨rfl, rfl, rfl⟩
  exact h.becomeSame (.done st.hub st.store) hkeys (.quit (st.hub.done_frame st.store).1)

/-- Readers come and go. -/
theorem Sound.onCache (h : st.Sound who caches s) (k : Kind) {f : Cache k.Obj → Cache k.Obj}
    (hf : ∀ c, (f c).entries = c.entries) :
    (st.become [] (st.hub.onCache k f) st.store).Sound who caches s := by
  have hsame := Hub.SameShown.onCache st.hub k hf
  refine h.becomeSame hsame ⟨rfl, rfl, rfl⟩ ?_
  cases h.phase with
  | idle sync listed => exact .idle sync listed
  | failed sync kept ended listed => exact .failed sync kept ended listed
  | quit cancelled => exact .quit cancelled
  | live sync early mid late kept going history abreast settled revision =>
    exact .live sync early mid late kept going history abreast (settled.congr hsame) revision

/-- **What is known of a hub stays known**, whatever happens. -/
theorem Sound.run (h : st.Sound who caches s) {acts : List HubAct}
    (hacts : ∀ op, HubAct.op op ∈ acts → op.subscriber? ≠ some who) :
    (st.run who acts).Sound who caches s := by
  induction acts generalizing st with
  | nil => exact h
  | cons act acts ih =>
    have hrest : ∀ op, HubAct.op op ∈ acts → op.subscriber? ≠ some who := fun op hop =>
      hacts op (List.mem_cons_of_mem act hop)
    have hnext : (st.step who act).Sound who caches s := by
      cases act with
      | op o => exact h.op (hacts o List.mem_cons_self)
      | start => exact h.startHub
      | deliver => exact h.deliver
      | done => exact h.done
      | watch k key name => exact h.onCache k fun _ => rfl
      | unwatch k key id => exact h.onCache k fun _ => rfl
    exact ih hnext hrest

theorem run_past (who : Subscriber) (st : HubRun) (acts : List HubAct) :
    (st.run who acts).past = st.past ++ HubAct.ops acts := by
  induction acts generalizing st with
  | nil => exact (List.append_nil _).symm
  | cons act acts ih =>
    have hnext := ih (st.step who act)
    cases act with
    | op o =>
      refine hnext.trans ?_
      show st.past ++ [o] ++ HubAct.ops acts = st.past ++ (o :: HubAct.ops acts)
      rw [List.append_assoc]
      rfl
    | _ => exact hnext

end HubRun

/-! ## What a transaction does to the store -/

section Transact

variable {p : Program Unit} {w w' : Shared} {begun ended : Running}

/-- From the start of a try to its commit the store is in the hands of the others. -/
theorem Tried.turns (h : Tried p w begun ended) : ∃ ops, w.Turns ops ended.toShared.turn := by
  have hbegun : begun.Met begun.toShared := by
    rw [Running.begin_ok h.begins]
    exact .begin _ _
  have hmet := p.run_met hbegun
  rw [h.runs] at hmet
  obtain ⟨ops, hturns⟩ := hmet.turns
  rw [Running.begin_ok h.begins] at hturns
  exact ⟨_, .more hturns.turn⟩

theorem Conflicts.turns {n : Nat} (h : Conflicts p n w w') : ∃ ops, w.Turns ops w' := by
  induction h with
  | none w => exact ⟨[], .none w⟩
  | more tried conflict rest ih =>
    obtain ⟨ops, hturns⟩ := tried.turns
    rw [← Running.commit_error conflict] at hturns
    obtain ⟨ops', hrest⟩ := ih
    exact ⟨ops ++ ops', hturns.trans hrest⟩

end Transact

/-! ## The revision of a hub -/

namespace Voyage

open Together

/-- A transaction that puts the operator and the flavor. -/
def program : Program Unit := do
  .write (@Entity.storeKey Operator _ operator.key) (Entity.encode operator)
  .write (@Entity.storeKey Flavor _ flavor.key) (Entity.encode flavor)

/-- There is a record that cannot be read. -/
def unreadable : Op := .put "Flavor/b" [255]

/-- The commit that the transaction asks for. -/
def request : TxnRequest :=
  ⟨[], some 1,
    [.put (@Entity.storeKey Flavor _ flavor.key) (Entity.encode flavor),
      .put (@Entity.storeKey Operator _ operator.key) (Entity.encode operator)]⟩

/-- The commit of the transaction is followed by one that no cache is for; then the hub is ended,
and started again on what others have left. -/
def acts : List HubAct :=
  [.op unreadable, .start, .watch .flavor ⟨"a"⟩ "reader", .op (.txn request),
    .op (.txn ⟨[], none, [.put "Flavors/a" [1], .put "nowhere" [2]]⟩), .deliver,
    .op (.delete (@Entity.storeKey Flavor _ flavor.key)), .done, .start]

theorem others (op : Op) (h : HubAct.op op ∈ acts) : op.subscriber? ≠ some who := by
  simp only [acts, List.mem_cons, HubAct.op.injEq, reduceCtorEq, List.not_mem_nil, or_false,
    false_or] at h
  rcases h with rfl | rfl | rfl | rfl <;> exact (Option.some_ne_none who).symm

end Voyage

end Inventory
