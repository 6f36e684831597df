import Inventory.Proofs.History

/-!
# What a subscriber receives

A subscriber starts from a snapshot and then receives the changes under its prefix.

* `Watching.run`, `Watching.runAll`: whatever others do, what a subscriber has received and what
  waits for it are the changes of each commit in its scope, one commit after another.
* `commitsOf_marked`: cutting such a sequence where no further event is announced gives the
  commits back.
* `replay_log`: replaying the changes of operations follows the store.
* `watch_exact`: **a subscriber misses nothing, receives nothing twice and can tell the commits
  apart.**
-/

namespace Inventory

/-! ## The subscription of a subscriber -/

namespace Subscription

variable {who other : Subscriber} {sub : Subscription} {events : List WatchEvent}

theorem publish_heldBy (who : Subscriber) (events : List WatchEvent) (sub : Subscription) :
    (publish events sub).any (·.heldBy who) = sub.heldBy who := by
  unfold publish
  simp only
  split
  · rfl
  · split
    · rfl
    · rename_i h
      have h : sub.held = false := Bool.eq_false_iff.2 h
      simp only [Option.any_none, heldBy, h, Bool.false_and]

theorem disconnect_heldBy (who : Subscriber) (sub : Subscription) :
    sub.disconnect.any (·.heldBy who) = sub.heldBy who := by
  unfold disconnect
  split
  · rfl
  · rename_i h
    have h : sub.held = false := Bool.eq_false_iff.2 h
    simp only [Option.any_none, heldBy, h, Bool.false_and]

/-- Letting go of somebody else's subscription. -/
theorem release_heldBy (h : other ≠ who) (sub : Subscription) :
    (if sub.heldBy other then sub.release else some sub).any (·.heldBy who) = sub.heldBy who := by
  split
  · rename_i ho
    have hw : sub.heldBy who = false := by
      unfold heldBy at ho ⊢
      rw [Bool.and_eq_true, decide_eq_true_eq] at ho
      rw [ho.2, decide_eq_false h, Bool.and_false]
    unfold release
    rw [hw]
    split
    · simp only [Option.any_some, heldBy, Bool.false_and]
    · rfl
  · rfl

/-- What a held and connected subscription gets of a commit. -/
theorem publish_of_held (hh : sub.held = true) (hc : sub.connected = true) :
    publish events sub = some { sub with
      backlog := sub.backlog ++
        markMore (events.filter fun e => Text.hasPrefix sub.scope e.key) } := by
  obtain ⟨subscriber, scope, backlog, held, connected⟩ := sub
  subst hh hc
  unfold publish
  simp only [Bool.not_true, Bool.false_or, if_true]
  split
  · rename_i h
    rw [List.isEmpty_iff] at h
    rw [h, markMore, List.append_nil]
  · rfl

end Subscription

namespace Op

/-- What a subscriber gets to see by an operation: what it takes itself. -/
def receivedBy (who : Subscriber) (op : Op) (s : Store) : List WatchEvent :=
  if op = .poll who then ((s.poll who).1.map (·.1)).getD [] else []

/-- What a subscriber gets to see while operations are done. -/
def received (who : Subscriber) : List Op → Store → List WatchEvent
  | [], _ => []
  | op :: ops, s => op.receivedBy who s ++ received who ops (op.run s).2

theorem received_append (who : Subscriber) (early late : List Op) (s : Store) :
    received who (early ++ late) s =
      received who early s ++ received who late (runAll early s) := by
  induction early generalizing s with
  | nil => rfl
  | cons op ops ih => rw [List.cons_append, received, received, ih, List.append_assoc, runAll_cons]

/-- Whoever does nothing receives nothing. -/
theorem received_of_others {who : Subscriber} {ops : List Op} {s : Store}
    (h : ∀ op ∈ ops, op.subscriber? ≠ some who) : received who ops s = [] := by
  induction ops generalizing s with
  | nil => rfl
  | cons op ops ih =>
    have hother : op ≠ .poll who := fun heq =>
      h op List.mem_cons_self (by rw [heq]; rfl)
    rw [received, ih fun o ho => h o (List.mem_cons_of_mem op ho), List.append_nil]
    exact if_neg hother

/-- The changes of each operation, one after another. -/
def log : List Op → Store → List (List WatchEvent)
  | [], _ => []
  | op :: ops, s => op.events s :: log ops (op.run s).2

theorem log_append (early late : List Op) (s : Store) :
    log (early ++ late) s = log early s ++ log late (runAll early s) := by
  induction early generalizing s with
  | nil => rfl
  | cons op ops ih => rw [List.cons_append, log, ih, log, List.cons_append, runAll_cons]

/-- One more operation adds its changes. -/
theorem log_concat_flatten (early : List Op) (op : Op) (s : Store) :
    (log (early ++ [op]) s).flatten = (log early s).flatten ++ op.events (runAll early s) := by
  rw [log_append, List.flatten_append]
  exact congrArg _ (List.append_nil _)

/-- What operations change does not depend on the subscriptions. -/
theorem log_congr (ops : List Op) {s s' : Store} (h : s.SameKeys s') : log ops s = log ops s' := by
  induction ops generalizing s s' with
  | nil => rfl
  | cons op ops ih => rw [log, log, op.events_congr h, ih (op.run_sameKeys h)]

/-- The operation leaves the subscription of a subscriber in force. -/
def Spares (who : Subscriber) (op : Op) : Prop := op.subscriber? = some who → op = .poll who

instance (who : Subscriber) (op : Op) : Decidable (op.Spares who) :=
  inferInstanceAs (Decidable (_ → _))

end Op

/-- The changes of a commit under a prefix. -/
def eventsUnder (scope : String) (events : List WatchEvent) : List WatchEvent :=
  events.filter fun e => Text.hasPrefix scope e.key

/-- A subscriber holds a subscription to a prefix with some events waiting; the store adds to it
as long as it is open. -/
def Store.Watching (s : Store) (who : Subscriber) (scope : String) (backlog : List WatchEvent) :
    Prop :=
  s.subscription? who = some ⟨who, scope, backlog, true, !s.closed⟩

namespace Store

variable {s : Store} {who other : Subscriber} {scope : String} {backlog : List WatchEvent} {op : Op}

theorem find?_unwatch_self (s : Store) (who : Subscriber) :
    (s.unwatch who).subscription? who = none := by
  unfold subscription? unwatch
  rw [List.find?_filterMap]
  have hnone : (fun sub : Subscription =>
      (if sub.heldBy who then sub.release else some sub).any (·.heldBy who)) = fun _ => false := by
    funext sub
    cases h : sub.heldBy who with
    | true =>
      rw [if_pos rfl]
      unfold Subscription.release
      split
      · simp only [Option.any_some, Subscription.heldBy, Bool.false_and]
      · rfl
    | false => simp only [Bool.false_eq_true, if_false, Option.any_some, h]
  rw [hnone, List.find?_eq_none.2 fun _ _ => Bool.false_ne_true]
  rfl

/-- Whoever subscribes holds a subscription with nothing waiting. -/
theorem watch_watching (h : s.closed = false) (who : Subscriber) (scope : String) :
    (s.watch who scope).1 = .ok (s.contents.scan scope, s.revision) ∧
      (s.watch who scope).2.Watching who scope [] := by
  have hnone := s.find?_unwatch_self who
  unfold subscription? at hnone
  unfold watch Watching subscription?
  rw [ifOpen_of_open h]
  refine ⟨rfl, ?_⟩
  rw [List.find?_append, hnone]
  have hopen : (s.unwatch who).closed = false := h
  simp only [hopen, Bool.not_false, Subscription.heldBy, List.find?_cons, Bool.true_and,
    decide_true, Option.none_or]

/-- The changes of a commit reach a subscriber in the order of the writes. -/
theorem Watching.commit (h : s.Watching who scope backlog) (ho : s.closed = false)
    (ws : List Write) :
    (s.commit ws).2.Watching who scope
      (backlog ++ markMore (eventsUnder scope (s.contents.writeAll s.revision.next ws).2)) := by
  unfold Watching subscription? at h ⊢
  rw [commit_eq, List.find?_filterMap]
  have hsame : (fun sub : Subscription =>
      (Subscription.publish (s.contents.writeAll s.revision.next ws).2 sub).any
        (·.heldBy who)) = (·.heldBy who) :=
    funext fun sub => Subscription.publish_heldBy who _ sub
  rw [hsame, h, ho]
  exact Subscription.publish_of_held rfl rfl

/-- Closing the store leaves what waits. -/
theorem Watching.close (h : s.Watching who scope backlog) : s.close.Watching who scope backlog := by
  unfold Watching subscription? at h ⊢
  unfold Store.close
  rw [List.find?_filterMap]
  simp only [Subscription.disconnect_heldBy, h]
  rfl

/-- Others can let go of their subscriptions. -/
theorem Watching.unwatch_other (h : s.Watching who scope backlog) (hne : other ≠ who) :
    (s.unwatch other).Watching who scope backlog := by
  unfold Watching subscription? at h ⊢
  unfold unwatch
  rw [List.find?_filterMap]
  simp only [Subscription.release_heldBy hne, h]
  simp only [Option.bind_some, Subscription.heldBy, Bool.true_and, decide_eq_true_eq,
    if_neg hne.symm]

/-- Others can subscribe. -/
theorem Watching.watch_other (h : s.Watching who scope backlog) (hne : other ≠ who) (p : String) :
    (s.watch other p).2.Watching who scope backlog := by
  have hun := h.unwatch_other hne
  unfold watch ifOpen
  split
  · exact h
  · unfold Watching subscription? at hun ⊢
    rw [List.find?_append, hun]
    rfl

/-- Taking what waits: nothing waits any longer for the one who takes it. -/
theorem Watching.poll (h : s.Watching who scope backlog) (other : Subscriber) :
    (s.poll other).2.Watching who scope (if other = who then [] else backlog) := by
  unfold Watching subscription? at h ⊢
  unfold Store.poll
  have hsame : ((·.heldBy who) ∘ fun sub : Subscription =>
      if sub.heldBy other then { sub with backlog := [] } else sub) = (·.heldBy who) := by
    funext sub
    show Subscription.heldBy who (if sub.heldBy other then _ else sub) = _
    split <;> rfl
  rw [List.find?_map, hsame, h]
  by_cases ho : other = who
  · subst ho
    simp only [Option.map_some, Subscription.heldBy, decide_true, Bool.and_true, if_true]
  · simp only [Option.map_some, Subscription.heldBy, Bool.true_and, decide_eq_true_eq,
      if_neg ho, if_neg (Ne.symm ho)]

/-- **What waits for a subscriber follows the commits**: an operation that leaves the subscription
in force adds the changes in its scope, and what it hands over waits no longer. -/
theorem Watching.run (h : s.Watching who scope backlog) (hop : op.Spares who) :
    ∃ backlog', (op.run s).2.Watching who scope backlog' ∧
      op.receivedBy who s ++ backlog' =
        backlog ++ markMore (eventsUnder scope (op.events s)) := by
  have hquiet (hw : op.writes s = []) : markMore (eventsUnder scope (op.events s)) = [] := by
    unfold Op.events; rw [hw]; rfl
  cases hsub : op.subscriber? with
  | some other =>
    rw [hquiet (Op.run_keeps_keys (.inl (by rw [hsub]; exact Option.some_ne_none _)) s).1,
      List.append_nil]
    by_cases ho : other = who
    · -- everything that waits is handed over
      subst ho
      obtain rfl := hop hsub
      have hp := h.poll other
      rw [if_pos rfl] at hp
      refine ⟨[], hp, ?_⟩
      unfold Op.receivedBy Store.poll
      rw [if_pos rfl, h, List.append_nil]
      rfl
    · have hrec : op.receivedBy who s = [] := by
        unfold Op.receivedBy
        refine if_neg ?_
        rintro rfl
        exact ho (Option.some.inj hsub).symm
      refine ⟨backlog, ?_, by rw [hrec]; rfl⟩
      cases op with
      | watch _ p => cases hsub; exact h.watch_other ho p
      | unwatch _ => cases hsub; exact h.unwatch_other ho
      | poll _ =>
        cases hsub
        have hp := h.poll other
        rw [if_neg ho] at hp
        exact hp
      | _ => cases hsub
  | none =>
    have hrec : op.receivedBy who s = [] := by
      unfold Op.receivedBy
      refine if_neg ?_
      rintro rfl
      cases hsub
    simp only [hrec, List.nil_append]
    by_cases hclose : op = .close
    · -- a closed store adds nothing more
      subst hclose
      rw [hquiet (Op.run_keeps_keys (.inr rfl) s).1, List.append_nil]
      exact ⟨backlog, h.close, rfl⟩
    · rw [Op.run_eq_commit hsub hclose]
      cases ho : s.closed with
      | false => exact ⟨_, h.commit ho _, rfl⟩
      | true =>
        have hw : op.writes s = [] := by unfold Op.writes; rw [if_pos ho]
        rw [hquiet hw, hw, commit_nil, List.append_nil]
        exact ⟨backlog, h, rfl⟩

/-- **What a subscriber has received and what waits for it** are the changes in its scope, commit
by commit. -/
theorem Watching.runAll {ops : List Op} (h : s.Watching who scope backlog)
    (hops : ∀ op ∈ ops, op.Spares who) :
    ∃ backlog', (Op.runAll ops s).Watching who scope backlog' ∧
      Op.received who ops s ++ backlog' =
        backlog ++ (Op.log ops s).flatMap fun events => markMore (eventsUnder scope events) := by
  induction ops generalizing s backlog with
  | nil => exact ⟨backlog, h, by rw [Op.log, List.flatMap_nil, List.append_nil]; rfl⟩
  | cons op ops ih =>
    obtain ⟨mid, hmid, hstep⟩ := h.run (hops op List.mem_cons_self)
    obtain ⟨last, hlast, hrest⟩ := ih hmid fun o ho => hops o (List.mem_cons_of_mem _ ho)
    refine ⟨last, hlast, ?_⟩
    rw [Op.received, Op.log, List.flatMap_cons, List.append_assoc, hrest, ← List.append_assoc,
      hstep, List.append_assoc]

end Store

/-! ## Cutting events into commits -/

/-- An event without the announcement of others. -/
def WatchEvent.plain (e : WatchEvent) : WatchEvent := { e with moreEvents := false }

theorem markMore_cons_cons (e f : WatchEvent) (es : List WatchEvent) :
    markMore (e :: f :: es) = { e with moreEvents := true } :: markMore (f :: es) := rfl

theorem markMore_eq_nil {es : List WatchEvent} (h : markMore es = []) : es = [] := by
  cases es with
  | nil => rfl
  | cons e es => cases es <;> cases h

/-- Marking changes nothing but the announcements. -/
theorem markMore_plain (es : List WatchEvent) :
    (markMore es).map WatchEvent.plain = es.map WatchEvent.plain := by
  induction es with
  | nil => rfl
  | cons e es ih =>
    cases es with
    | nil => rfl
    | cons f es => rw [markMore_cons_cons, List.map_cons, ih]; rfl

/-- All events of a marked commit but the last announce another. -/
theorem markMore_flags (es : List WatchEvent) (h : es ≠ []) :
    (markMore es).map (·.moreEvents) = List.replicate (es.length - 1) true ++ [false] := by
  induction es with
  | nil => exact absurd rfl h
  | cons e es ih =>
    cases es with
    | nil => rfl
    | cons f es =>
      rw [markMore_cons_cons, List.map_cons, ih (List.cons_ne_nil _ _)]
      rfl

/-- A marked commit is cut off at its end. -/
theorem commitsOf_markMore_append (es rest : List WatchEvent) (h : es ≠ []) :
    commitsOf (markMore es ++ rest) = markMore es :: commitsOf rest := by
  induction es with
  | nil => exact absurd rfl h
  | cons e es ih =>
    cases es with
    | nil => rfl
    | cons f es =>
      rw [markMore_cons_cons, List.cons_append, commitsOf, if_pos rfl,
        ih (List.cons_ne_nil _ _)]

/-- **Cutting gives the commits back**, those without events left out. -/
theorem commitsOf_marked (gs : List (List WatchEvent)) :
    commitsOf (gs.flatMap markMore) = (gs.filter (· ≠ [])).map markMore := by
  induction gs with
  | nil => rfl
  | cons g gs ih =>
    rw [List.flatMap_cons]
    by_cases h : g = []
    · -- a commit without events in scope leaves no trace
      rw [h, List.filter_cons_of_neg (by simp), ← ih]; rfl
    · rw [commitsOf_markMore_append g _ h, ih, List.filter_cons_of_pos (by simp [h])]
      rfl

/-- Nothing is left over by cutting. -/
theorem commitsOf_marked_flatten (gs : List (List WatchEvent)) :
    (commitsOf (gs.flatMap markMore)).flatten = gs.flatMap markMore := by
  rw [commitsOf_marked]
  induction gs with
  | nil => rfl
  | cons g gs ih =>
    rw [List.flatMap_cons, ← ih]
    by_cases h : g = []
    · rw [h, List.filter_cons_of_neg (by simp)]; rfl
    · rw [List.filter_cons_of_pos (by simp [h])]; rfl

/-! ## Replaying events -/

theorem ofList_toList {β : Type} (m : Std.ExtTreeMap String β) :
    Std.ExtTreeMap.ofList m.toList = m := by
  apply Std.ExtTreeMap.ext_getElem?
  intro k
  cases h : m[k]? with
  | some b =>
    refine Std.ExtTreeMap.getElem?_ofList_of_mem Std.ReflCmp.compare_self
      Std.ExtTreeMap.distinct_keys_toList ?_
    exact Std.ExtTreeMap.mem_toList_iff_getElem?_eq_some.2 h
  | none =>
    refine Std.ExtTreeMap.getElem?_ofList_of_contains_eq_false ?_
    have hno : ¬ m.contains k = true := by
      rw [Std.ExtTreeMap.contains_eq_isSome_getElem?, h]; exact Bool.false_ne_true
    rw [Std.ExtTreeMap.map_fst_toList_eq_keys, Std.ExtTreeMap.contains_keys]
    exact Bool.eq_false_iff.2 hno

namespace Contents

variable {scope : String}

/-- The values under the keys that start with a prefix. -/
def under (m : Contents) (scope : String) : Std.ExtTreeMap String Bytes :=
  (m.filter fun k _ => Text.hasPrefix scope k).map fun _ stored => stored.value

theorem getElem?_under (m : Contents) (scope k : String) :
    (m.under scope)[k]? =
      if Text.hasPrefix scope k then m[k]?.map (·.value) else none := by
  unfold under
  rw [Std.ExtTreeMap.getElem?_map, Std.ExtTreeMap.getElem?_filter']
  cases Text.hasPrefix scope k <;> cases m[k]? <;> rfl

/-- A scan shows the values under a prefix. -/
theorem under_toList (m : Contents) (scope : String) :
    (m.under scope).toList = (m.scan scope).map fun r => (r.key, r.value) := by
  unfold under
  rw [Std.ExtTreeMap.toList_map, Std.ExtTreeMap.toList_filter, scan_eq_filter, List.map_map]
  rfl

end Contents

/-- What becomes of known values by an event. -/
def WatchEvent.replay (m : Std.ExtTreeMap String Bytes) (e : WatchEvent) :
    Std.ExtTreeMap String Bytes :=
  match e.change with
  | .put value => m.insert e.key value
  | .delete => m.erase e.key

/-- What becomes of known values by events. -/
def replay (events : List WatchEvent) (m : Std.ExtTreeMap String Bytes) :
    Std.ExtTreeMap String Bytes :=
  events.foldl WatchEvent.replay m

theorem replay_append (early late : List WatchEvent) (m : Std.ExtTreeMap String Bytes) :
    replay (early ++ late) m = replay late (replay early m) :=
  List.foldl_append

theorem replay_markMore (es : List WatchEvent) (m : Std.ExtTreeMap String Bytes) :
    replay (markMore es) m = replay es m := by
  induction es generalizing m with
  | nil => rfl
  | cons e es ih =>
    cases es with
    | nil => rfl
    | cons f es =>
      rw [markMore_cons_cons]
      exact ih _

namespace Contents

variable {c : Contents} {rev : Revision} {scope : String}

/-- Replaying the event of a write. -/
theorem replay_write (c : Contents) (rev : Revision) (w : Write) (scope : String) :
    replay (eventsUnder scope (c.write rev w).2.toList) (c.under scope) =
      (c.write rev w).1.under scope := by
  apply Std.ExtTreeMap.ext_getElem?
  intro k
  cases he : (c.write rev w).2 with
  | none => rw [write_eq_of_no_event he]; rfl
  | some e =>
    obtain ⟨hkey, -⟩ := event_of_write he
    rw [getElem?_under, getElem?_write]
    cases hp : Text.hasPrefix scope e.key with
    | false =>
      -- the key is out of scope, and so is the change
      have hnil : eventsUnder scope (some e).toList = [] :=
        List.filter_cons_of_neg (by rw [hp]; exact Bool.false_ne_true)
      rw [hnil]
      show (c.under scope)[k]? = _
      rw [getElem?_under]
      by_cases hk : k = w.key
      · rw [hk, ← hkey, hp]; rfl
      · rw [if_neg hk]
    | true =>
      -- replaying does to the values what the write does to the contents
      have hone : eventsUnder scope (some e).toList = [e] := List.filter_cons_of_pos hp
      rw [hone]
      show (WatchEvent.replay (c.under scope) e)[k]? = _
      cases w with
      | put key value =>
        cases he
        show ((c.under scope).insert key value)[k]? = _
        rw [getElem?_insert, getElem?_under]
        by_cases hk : k = key
        · subst hk
          rw [if_pos rfl, if_pos hp]
          show _ = Option.map _ (if k = k then _ else _)
          rw [if_pos rfl, Write.leaves, Option.map_some, Stored.rewritten_value]
        · rw [if_neg hk]
          show _ = if _ then Option.map _ (if k = key then _ else _) else _
          rw [if_neg hk]
      | delete key =>
        have hd : e = ⟨key, .delete, rev, false⟩ := by
          simp only [write] at he
          split at he
          · cases he; rfl
          · cases he
        subst hd
        show ((c.under scope).erase key)[k]? = _
        rw [Std.ExtTreeMap.getElem?_erase, getElem?_under]
        simp only [Std.compare_eq_iff_eq]
        by_cases hk : k = key
        · subst hk
          rw [if_pos rfl, if_pos hp]
          show _ = Option.map _ (if k = k then _ else _)
          rw [if_pos rfl]; rfl
        · rw [if_neg (Ne.symm hk)]
          show _ = if _ then Option.map _ (if k = key then _ else _) else _
          rw [if_neg hk]

/-- Replaying the events of a commit. -/
theorem replay_writeAll (rev : Revision) (ws : List Write) (c : Contents) (scope : String) :
    replay (eventsUnder scope (writeAll rev ws c).2) (c.under scope) =
      (writeAll rev ws c).1.under scope := by
  induction ws generalizing c with
  | nil => rfl
  | cons w ws ih =>
    rw [writeAll_cons, eventsUnder, List.filter_append, replay_append]
    show replay (eventsUnder scope _) (replay (eventsUnder scope _) _) = _
    rw [replay_write, ih]

end Contents

namespace Op

/-- **Replaying the changes of operations follows the store.** -/
theorem replay_log (ops : List Op) (s : Store) (scope : String) :
    replay ((log ops s).flatMap fun events => markMore (eventsUnder scope events))
        (s.contents.under scope) =
      (runAll ops s).contents.under scope := by
  induction ops generalizing s with
  | nil => rfl
  | cons op ops ih =>
    rw [log, List.flatMap_cons, replay_append, replay_markMore, events,
      Contents.replay_writeAll, ← run_contents, ih, runAll_cons]

end Op

/-! ## The stream of a subscriber -/

namespace Contents

variable {c : Contents} {rev : Revision} {ws : List Write}

/-- The events of a commit do not announce others yet. -/
theorem writeAll_plain (rev : Revision) (ws : List Write) (c : Contents) :
    ∀ e ∈ (writeAll rev ws c).2, e.plain = e := by
  induction ws generalizing c with
  | nil => intro e he; cases he
  | cons w ws ih =>
    intro e he
    rw [writeAll_cons] at he
    rcases List.mem_append.1 he with he | he
    · have he := Option.mem_toList.1 he
      cases w with
      | put key value => cases he; rfl
      | delete key =>
        simp only [write] at he
        split at he
        · cases he; rfl
        · cases he
    · exact ih _ e he

end Contents

namespace Op

/-- The changes of operations have the revisions that follow, in ascending order. -/
theorem log_revision (ops : List Op) (s : Store) :
    (∀ events ∈ log ops s, ∀ e ∈ events, s.revision < e.revision) ∧
      (log ops s).Pairwise fun g h => ∀ e ∈ g, ∀ f ∈ h, e.revision < f.revision := by
  induction ops generalizing s with
  | nil => exact ⟨fun _ h => (nomatch h), List.Pairwise.nil⟩
  | cons op ops ih =>
    obtain ⟨hfresh, hup⟩ := ih (op.run s).2
    have hhead : ∀ e ∈ op.events s, e.revision = s.revision.next :=
      fun e he => (Contents.event_of_writeAll he).2
    rw [log]
    constructor
    · intro events hev e he
      rcases List.mem_cons.1 hev with rfl | hev
      · rw [hhead e he]; exact Nat.lt_succ_self _
      · exact Nat.lt_of_le_of_lt (Store.later_run op s).revision_le (hfresh events hev e he)
    · refine List.pairwise_cons.2 ⟨fun h hh e he f hf => ?_, hup⟩
      -- an operation that changed something took the revision
      have hrev : (op.run s).2.revision = s.revision.next := by
        rw [run_revision, if_neg (List.ne_nil_of_mem he)]
      rw [hhead e he, ← hrev]
      exact hfresh h hh f hf

/-- The changes of operations have no revision beyond the one that they lead to. -/
theorem log_revision_le (ops : List Op) (s : Store) :
    ∀ events ∈ log ops s, ∀ e ∈ events, e.revision ≤ (runAll ops s).revision := by
  induction ops generalizing s with
  | nil => intro _ h; cases h
  | cons op ops ih =>
    intro events hev e he
    rw [runAll_cons]
    rcases List.mem_cons.1 hev with rfl | hev
    · -- an operation that changed something took the revision
      have hrev : (op.run s).2.revision = s.revision.next := by
        rw [run_revision, if_neg (List.ne_nil_of_mem he)]
      rw [(Contents.event_of_writeAll he).2, ← hrev]
      exact (Store.later_runAll ops _).revision_le
    · exact ih _ events hev e he

/-- The changes of one operation share a revision and do not announce others. -/
theorem log_uniform (ops : List Op) (s : Store) :
    ∀ events ∈ log ops s, ∃ rev, ∀ e ∈ events, e.revision = rev ∧ e.plain = e := by
  induction ops generalizing s with
  | nil => intro _ h; cases h
  | cons op ops ih =>
    intro events hev
    rcases List.mem_cons.1 hev with rfl | hev
    · exact ⟨s.revision.next, fun e he =>
        ⟨(Contents.event_of_writeAll he).2, Contents.writeAll_plain _ _ _ e he⟩⟩
    · exact ih _ events hev

end Op

/-- What is promised of the events that a subscriber receives after a snapshot of a revision,
while the commits that changed something under its prefix are `commits` and a listing has come to
show `records`. -/
structure ExactStream (rev : Revision) (snapshot records : List KvRecord)
    (commits : List (List WatchEvent)) (events : List WatchEvent) : Prop where
  /-- Nothing is missing and nothing comes twice. -/
  replayed : (replay events (.ofList (snapshot.map fun r => (r.key, r.value)))).toList =
    records.map fun r => (r.key, r.value)
  /-- Nothing is older than the snapshot. -/
  fresh : ∀ e ∈ events, rev < e.revision
  /-- Cutting leaves nothing over. -/
  whole : (commitsOf events).flatten = events
  /-- The pieces are the commits, with their events in the order of the writes. -/
  pieces : (commitsOf events).map (·.map WatchEvent.plain) = commits
  /-- All events of a piece but the last announce another. -/
  flags : ∀ c ∈ commitsOf events,
    c ≠ [] ∧ c.map (·.moreEvents) = List.replicate (c.length - 1) true ++ [false]
  shared : ∀ c ∈ commitsOf events, ∃ rev, ∀ e ∈ c, e.revision = rev
  ascending : (commitsOf events).Pairwise fun c d => ∀ e ∈ c, ∀ f ∈ d, e.revision < f.revision

/-- The commits among the changes of operations that changed something under a prefix. -/
def Op.commitsUnder (scope : String) (ops : List Op) (s : Store) : List (List WatchEvent) :=
  ((log ops s).map (eventsUnder scope)).filter (· ≠ [])

theorem Op.commitsOf_log (scope : String) (ops : List Op) (s : Store) :
    commitsOf ((log ops s).flatMap fun events => markMore (eventsUnder scope events)) =
      (commitsUnder scope ops s).map markMore := by
  rw [commitsUnder, ← commitsOf_marked, List.flatMap_map]

/-- An operation that changes nothing under a prefix makes no commit there. -/
theorem Op.commitsUnder_cons_of_nil {scope : String} {op : Op} {s : Store}
    (h : eventsUnder scope (op.events s) = []) (ops : List Op) :
    commitsUnder scope (op :: ops) s = commitsUnder scope ops (op.run s).2 := by
  unfold commitsUnder
  rw [log, List.map_cons, List.filter_cons_of_neg (by simp [h])]

theorem Op.commitsUnder_cons_of_ne_nil {scope : String} {op : Op} {s : Store}
    (h : eventsUnder scope (op.events s) ≠ []) (ops : List Op) :
    commitsUnder scope (op :: ops) s =
      eventsUnder scope (op.events s) :: commitsUnder scope ops (op.run s).2 := by
  unfold commitsUnder
  rw [log, List.map_cons, List.filter_cons_of_pos (by simp [h])]

/-- What is known of each commit under a prefix. -/
theorem Op.mem_commitsUnder {scope : String} {ops : List Op} {s : Store} {c : List WatchEvent}
    (h : c ∈ commitsUnder scope ops s) :
    c ≠ [] ∧ ∃ events ∈ log ops s, c = eventsUnder scope events := by
  obtain ⟨hmem, hne⟩ := List.mem_filter.1 h
  obtain ⟨events, hev, rfl⟩ := List.mem_map.1 hmem
  exact ⟨of_decide_eq_true hne, events, hev, rfl⟩

/-- Marking keeps the revisions. -/
theorem exists_of_mem_markMore {e : WatchEvent} {es : List WatchEvent} (h : e ∈ markMore es) :
    ∃ f ∈ es, f.revision = e.revision := by
  have hp : e.plain ∈ es.map WatchEvent.plain := by
    rw [← markMore_plain]; exact List.mem_map_of_mem h
  obtain ⟨f, hf, hfe⟩ := List.mem_map.1 hp
  have hrev := congrArg WatchEvent.revision hfe
  exact ⟨f, hf, hrev⟩

/-- The changes of operations under a prefix, marked, are an exact stream after a snapshot. -/
theorem Op.exactStream (scope : String) (ops : List Op) (s : Store) :
    ExactStream s.revision (s.contents.scan scope) ((runAll ops s).contents.scan scope)
      (commitsUnder scope ops s)
      ((log ops s).flatMap fun events => markMore (eventsUnder scope events)) := by
  obtain ⟨hfresh, hup⟩ := log_revision ops s
  have hcut := commitsOf_log scope ops s
  have hunder (c : List WatchEvent) (e : WatchEvent) (h : e ∈ eventsUnder scope c) : e ∈ c :=
    (List.mem_filter.1 h).1
  constructor
  case replayed =>
    rw [← Contents.under_toList, ← Contents.under_toList, ofList_toList, replay_log]
  case fresh =>
    intro e he
    obtain ⟨events, hev, he⟩ := List.mem_flatMap.1 he
    obtain ⟨f, hf, hrev⟩ := exists_of_mem_markMore he
    rw [← hrev]
    exact hfresh events hev f (hunder _ f hf)
  case whole =>
    rw [← List.flatMap_map]
    exact commitsOf_marked_flatten _
  case pieces =>
    rw [hcut, List.map_map]
    refine (List.map_congr_left fun c hc => ?_).trans (List.map_id _)
    obtain ⟨-, events, hev, rfl⟩ := mem_commitsUnder hc
    obtain ⟨rev, hrev⟩ := log_uniform ops s events hev
    show (markMore _).map WatchEvent.plain = _
    rw [markMore_plain]
    exact (List.map_congr_left fun e he => (hrev e (hunder _ e he)).2).trans (List.map_id _)
  case flags =>
    intro c hc
    rw [hcut] at hc
    obtain ⟨g, hg, rfl⟩ := List.mem_map.1 hc
    obtain ⟨hne, -⟩ := mem_commitsUnder hg
    have hlen : (markMore g).length = g.length := by
      simpa only [List.length_map] using congrArg List.length (markMore_plain g)
    exact ⟨fun h => hne (markMore_eq_nil h), by rw [hlen]; exact markMore_flags g hne⟩
  case shared =>
    intro c hc
    rw [hcut] at hc
    obtain ⟨g, hg, rfl⟩ := List.mem_map.1 hc
    obtain ⟨-, events, hev, rfl⟩ := mem_commitsUnder hg
    obtain ⟨rev, hrev⟩ := log_uniform ops s events hev
    refine ⟨rev, fun e he => ?_⟩
    obtain ⟨f, hf, hfe⟩ := exists_of_mem_markMore he
    rw [← hfe]
    exact (hrev f (hunder _ f hf)).1
  case ascending =>
    rw [hcut]
    -- marking and leaving out events keeps the order of the revisions
    refine List.Pairwise.map markMore (R := fun c d => ∀ e ∈ c, ∀ f ∈ d, e.revision < f.revision)
      (fun c d h e he f hf => ?_) ?_
    · obtain ⟨e', he', hee⟩ := exists_of_mem_markMore he
      obtain ⟨f', hf', hff⟩ := exists_of_mem_markMore hf
      rw [← hee, ← hff]
      exact h e' he' f' hf'
    · refine List.Pairwise.filter _ (hup.map (eventsUnder scope) fun c d h e he f hf => ?_)
      exact h e (hunder _ e he) f (hunder _ f hf)

/-- **A subscriber misses nothing, receives nothing twice and can tell the commits apart.**
Whatever is done to the store after it has subscribed, as long as the store stays open and the
subscription in force: the events that it receives, whenever it takes them, are an exact stream
after its snapshot. -/
theorem watch_exact (s : Store) (who : Subscriber) (scope : String) (ops : List Op)
    (hopen : s.closed = false) (hops : ∀ op ∈ ops, op.Spares who ∧ op ≠ .close) :
    ∃ snapshot records,
      (s.watch who scope).1 = .ok (snapshot, s.revision) ∧
      ((Op.runAll ops (s.watch who scope).2).list scope).1 = .ok records ∧
      ExactStream s.revision snapshot records
        (Op.commitsUnder scope ops (s.watch who scope).2)
        (Op.received who (ops ++ [.poll who]) (s.watch who scope).2) := by
  obtain ⟨hanswer, hwatch⟩ := Store.watch_watching hopen who scope
  have hsub : (Op.watch who scope).subscriber? ≠ none := Option.some_ne_none who
  have hne : Op.watch who scope ≠ .close := fun h => nomatch h
  obtain ⟨-, hcontents, hrevision⟩ := Op.run_keeps_keys (.inl hsub) s
  have hclosed := Op.run_closed hne s
  set after := (s.watch who scope).2 with hafter
  have hcontents : after.contents = s.contents := hcontents
  have hrevision : after.revision = s.revision := hrevision
  have hclosed : (Op.runAll ops after).closed = false :=
    (Op.runAll_closed (fun op h => (hops op h).2) after).trans (hclosed.trans hopen)
  obtain ⟨backlog, hlast, hreceived⟩ := hwatch.runAll fun op h => (hops op h).1
  -- the poll at the end takes all that waits
  have hpoll : Op.received who [.poll who] (Op.runAll ops after) = backlog := by
    show Op.receivedBy who (.poll who) _ ++ [] = _
    unfold Op.receivedBy Store.poll
    rw [if_pos rfl, hlast, List.append_nil]
    rfl
  refine ⟨_, _, hanswer, by unfold Store.list; rw [Store.ifOpen_of_open hclosed], ?_⟩
  rw [Op.received_append, hpoll, hreceived, List.nil_append, ← hcontents, ← hrevision]
  exact Op.exactStream scope ops after

/-- What happens under a prefix in a few commits: one of them writes elsewhere as well and deletes
an absent key, one puts a key and deletes it again. -/
def Op.mixture : List Op :=
  [.create "a/x" [1],
    .txn ⟨[("a/x", 1)], some 1, [.put "a/y" [2], .put "b" [3], .delete "a/x", .delete "a/z"]⟩,
    .poll (.client "w"), .put "b" [4],
    .txn ⟨[], none, [.put "a/x" [5], .delete "a/x", .put "a/y" [6]]⟩]

theorem watch_exact_mixture :
    Store.empty.closed = false ∧ (∀ op ∈ Op.mixture, op.Spares (.client "w") ∧ op ≠ .close) ∧
    ∃ snapshot records,
      (Store.empty.watch (.client "w") "a/").1 = .ok (snapshot, 0) ∧
      ((Op.runAll Op.mixture (Store.empty.watch (.client "w") "a/").2).list "a/").1 = .ok records ∧
      ExactStream 0 snapshot records
        (Op.commitsUnder "a/" Op.mixture (Store.empty.watch (.client "w") "a/").2)
        (Op.received (.client "w") (Op.mixture ++ [.poll (.client "w")])
          (Store.empty.watch (.client "w") "a/").2) := by
  have hops : ∀ op ∈ Op.mixture, op.Spares (.client "w") ∧ op ≠ .close := by decide
  exact ⟨rfl, hops, watch_exact .empty (.client "w") "a/" Op.mixture rfl hops⟩

end Inventory
