import Mathlib.Data.List.DropRight
import Inventory.Proofs.Watch

/-!
# A store is the fold of its commits

The changes that operations make are the log of a store. Everything that the store holds can be
read off it.

* `Op.getElem?_runAll`: what is under a key is what the changes of the key leave there, one after
  another.
* `Recalled.of_puts`: what changes leave of nothing, in terms of the puts after the last delete.
* `Op.commits_revision`: commits are numbered without holes.
* `Op.answered_revision`, `Op.answer_of_events`: whoever is told a revision is told the one that the
  store has then, and whoever changes something is told the next one.
* `store_folds_commits`: **all of it for every history**, however often a commit writes, deletes
  and creates a key.
-/

namespace Inventory

/-! ## What changes leave under a key -/

namespace WatchEvent

/-- Whether a value is there after a change. -/
def isPut (e : WatchEvent) : Bool :=
  match e.change with
  | .put _ => true
  | .delete => false

/-- What a change leaves under its key. -/
def leaves (e : WatchEvent) (old : Option Stored) : Option Stored :=
  match e.change with
  | .put value => some (.rewritten old value e.revision)
  | .delete => none

end WatchEvent

/-- What changes of one key leave there, one after another. -/
def foundAfter (old : Option Stored) (events : List WatchEvent) : Option Stored :=
  events.foldl (fun old e => e.leaves old) old

/-- The changes of a key. -/
def eventsOn (key : String) (events : List WatchEvent) : List WatchEvent :=
  events.filter fun e => e.key = key

theorem foundAfter_append (old : Option Stored) (early late : List WatchEvent) :
    foundAfter old (early ++ late) = foundAfter (foundAfter old early) late :=
  List.foldl_append

theorem eventsOn_append (key : String) (early late : List WatchEvent) :
    eventsOn key (early ++ late) = eventsOn key early ++ eventsOn key late :=
  List.filter_append ..

namespace Contents

variable {m : Contents} {rev : Revision} {w : Write}

/-- The change of a write is what it leaves under its key. -/
theorem leaves_event {e : WatchEvent} (h : (m.write rev w).2 = some e) (old : Option Stored) :
    e.leaves old = w.leaves old rev := by
  cases w with
  | put key value => cases h; rfl
  | delete key =>
    simp only [write] at h
    split at h
    · cases h; rfl
    · cases h

theorem getElem?_write_foundAfter (m : Contents) (rev : Revision) (w : Write) (k : String) :
    (m.write rev w).1[k]? = foundAfter m[k]? (eventsOn k (m.write rev w).2.toList) := by
  cases he : (m.write rev w).2 with
  | none =>
    rw [write_eq_of_no_event he]
    rfl
  | some e =>
    obtain ⟨hkey, -⟩ := event_of_write he
    rw [getElem?_write]
    by_cases hk : k = w.key
    · subst hk
      have hon : eventsOn w.key (some e).toList = [e] :=
        List.filter_cons_of_pos (decide_eq_true hkey)
      rw [if_pos rfl, hon, ← leaves_event he]
      rfl
    · have hoff : eventsOn k (some e).toList = [] :=
        List.filter_cons_of_neg (by rw [hkey]; simpa using Ne.symm hk)
      rw [if_neg hk, hoff]
      rfl

theorem getElem?_writeAll_foundAfter (m : Contents) (rev : Revision) (ws : List Write)
    (k : String) :
    (m.writeAll rev ws).1[k]? = foundAfter m[k]? (eventsOn k (m.writeAll rev ws).2) := by
  induction ws generalizing m with
  | nil => rfl
  | cons w ws ih =>
    rw [writeAll_cons, eventsOn_append, foundAfter_append, ← getElem?_write_foundAfter, ih]

end Contents

namespace Op

/-- **What is under a key is what its changes leave there**, one after another. -/
theorem getElem?_runAll (ops : List Op) (s : Store) (k : String) :
    (runAll ops s).contents[k]? = foundAfter s.contents[k]? (eventsOn k (log ops s).flatten) := by
  induction ops generalizing s with
  | nil => rfl
  | cons op ops ih =>
    rw [runAll_cons, ih, log, List.flatten_cons, eventsOn_append, foundAfter_append, run_contents,
      Contents.getElem?_writeAll_foundAfter]
    rfl

end Op

/-! ## Values since the last delete -/

/-- The puts after the last delete. -/
def putsSinceDelete (events : List WatchEvent) : List WatchEvent :=
  events.rtakeWhile WatchEvent.isPut

/-- What is under a key, in terms of the changes of the key: something is there if the last change
is a put, namely the value and the revision of that put, the revision of the first put after the
last delete, and the number of these puts. -/
structure Recalled (events : List WatchEvent) (found : Option Stored) : Prop where
  present : found.isSome = true ↔ ∃ e ∈ events.getLast?, e.isPut = true
  last : ∀ stored ∈ found, ∃ e ∈ events.getLast?,
    e.change = .put stored.value ∧ e.revision = stored.modRevision
  first : ∀ stored ∈ found, ∃ e ∈ (putsSinceDelete events).head?,
    e.revision = stored.createRevision
  count : ∀ stored ∈ found, stored.version = (putsSinceDelete events).length

namespace Recalled

variable {events : List WatchEvent} {found : Option Stored} {e : WatchEvent} {value : Bytes}

theorem isPut_of_put (he : e.change = .put value) : e.isPut = true := by
  unfold WatchEvent.isPut
  rw [he]

/-- After a delete nothing is there. -/
theorem delete (he : e.change = .delete) : Recalled (events ++ [e]) none := by
  refine ⟨?_, fun _ h => (nomatch h), fun _ h => (nomatch h), fun _ h => (nomatch h)⟩
  rw [List.getLast?_concat]
  constructor
  · intro h
    cases h
  · rintro ⟨f, hf, hput⟩
    obtain rfl := Option.some.inj hf
    unfold WatchEvent.isPut at hput
    rw [he] at hput
    cases hput

/-- Where nothing is there, no put came after the last delete. -/
theorem puts_of_none (h : Recalled events none) : putsSinceDelete events = [] := by
  refine List.rtakeWhile_eq_nil_iff.2 fun hne hput => ?_
  have hsome := h.present.2 ⟨_, List.getLast?_eq_some_getLast hne, hput⟩
  cases hsome

/-- A put counts one more if something was there, and begins to count otherwise. -/
theorem put (h : Recalled events found) (he : e.change = .put value) :
    Recalled (events ++ [e]) (some (.rewritten found value e.revision)) := by
  have hput := isPut_of_put he
  have hlast : e ∈ (events ++ [e]).getLast? := List.getLast?_concat
  have hsince : putsSinceDelete (events ++ [e]) = putsSinceDelete events ++ [e] :=
    List.rtakeWhile_concat_pos _ _ _ hput
  refine ⟨⟨fun _ => ⟨e, hlast, hput⟩, fun _ => rfl⟩, ?last, ?first, ?count⟩
  case last =>
    rintro _ ⟨⟩
    rw [Stored.rewritten_value, Stored.rewritten_modRevision]
    exact ⟨e, hlast, he, rfl⟩
  case first =>
    rintro _ ⟨⟩
    rw [hsince]
    cases found with
    | some old =>
      obtain ⟨f, hf, hrev⟩ := h.first old rfl
      refine ⟨f, ?_, hrev⟩
      rw [List.head?_append, Option.mem_def.1 hf]
      rfl
    | none =>
      rw [h.puts_of_none]
      exact ⟨e, rfl, rfl⟩
  case count =>
    rintro _ ⟨⟩
    rw [hsince, List.length_append]
    cases found with
    | some old =>
      rw [← h.count old rfl]
      rfl
    | none =>
      rw [h.puts_of_none]
      rfl

/-- **What changes leave of nothing.** -/
theorem of_puts (events : List WatchEvent) : Recalled events (foundAfter none events) := by
  induction events using List.reverseRecOn with
  | nil =>
    refine ⟨?_, fun _ h => (nomatch h), fun _ h => (nomatch h), fun _ h => (nomatch h)⟩
    exact ⟨fun h => (nomatch h), fun ⟨_, he, _⟩ => (nomatch he)⟩
  | append_singleton events e ih =>
    rw [foundAfter_append]
    show Recalled _ (e.leaves (foundAfter none events))
    cases he : e.change with
    | put value =>
      unfold WatchEvent.leaves
      rw [he]
      exact ih.put he
    | delete =>
      unfold WatchEvent.leaves
      rw [he]
      exact delete he

/-- What is there was created by one of the changes. -/
theorem created (h : Recalled events found) :
    ∀ stored ∈ found, ∃ e ∈ events, e.revision = stored.createRevision := by
  intro stored hstored
  obtain ⟨first, hfirst, hcreate⟩ := h.first stored hstored
  refine ⟨first, ?_, hcreate⟩
  exact (List.rtakeWhile_suffix _ _).subset (List.mem_of_mem_head? hfirst)

/-- What is there was not created after the last change. -/
theorem createRevision_le (h : Recalled events found)
    (hup : events.Pairwise fun e f => e.revision ≤ f.revision) :
    ∀ stored ∈ found, stored.createRevision ≤ stored.modRevision := by
  intro stored hstored
  obtain ⟨last, hlast, -, hmod⟩ := h.last stored hstored
  obtain ⟨first, hfirst, hcreate⟩ := h.created stored hstored
  rw [← hmod, ← hcreate]
  -- whatever stands before the last change is not later
  obtain ⟨early, rfl⟩ := List.getLast?_eq_some_iff.1 hlast
  rcases List.mem_append.1 hfirst with hfirst | hfirst
  · exact (List.pairwise_append.1 hup).2.2 first hfirst last List.mem_cons_self
  · rw [List.mem_singleton.1 hfirst]

theorem version_pos (h : Recalled events found) : ∀ stored ∈ found, 1 ≤ stored.version := by
  intro stored hstored
  obtain ⟨first, hfirst, -⟩ := h.first stored hstored
  rw [h.count stored hstored]
  exact List.length_pos_of_mem (List.mem_of_mem_head? hfirst)

end Recalled

/-! ## Commits and their revisions -/

namespace Op

variable {op : Op} {s : Store}

/-- The commits that changed something, each with its changes. -/
def commits (ops : List Op) (s : Store) : List (List WatchEvent) :=
  (log ops s).filter (· ≠ [])

theorem commits_cons_of_nil (h : op.events s = []) (ops : List Op) :
    commits (op :: ops) s = commits ops (op.run s).2 :=
  List.filter_cons_of_neg (by simp [h])

theorem commits_cons_of_ne_nil (h : op.events s ≠ []) (ops : List Op) :
    commits (op :: ops) s = op.events s :: commits ops (op.run s).2 :=
  List.filter_cons_of_pos (by simp [h])

/-- **Commits are numbered without holes.** -/
theorem commits_revision (ops : List Op) (s : Store) :
    (runAll ops s).revision = s.revision + (commits ops s).length ∧
      ∀ n c, (commits ops s)[n]? = some c → ∀ e ∈ c, e.revision = s.revision + n + 1 := by
  induction ops generalizing s with
  | nil => exact ⟨rfl, fun _ _ h => (nomatch h)⟩
  | cons op ops ih =>
    obtain ⟨hlast, hnumber⟩ := ih (op.run s).2
    have hnext := op.run_revision s
    rw [runAll_cons]
    by_cases he : op.events s = []
    · rw [if_pos he] at hnext
      rw [hnext] at hlast hnumber
      rw [commits_cons_of_nil he]
      exact ⟨hlast, hnumber⟩
    · rw [if_neg he] at hnext
      rw [hnext] at hlast hnumber
      rw [commits_cons_of_ne_nil he]
      refine ⟨hlast.trans (Nat.succ_add _ _), ?_⟩
      intro n c hc e hec
      cases n with
      | zero =>
        obtain rfl := Option.some.inj hc
        exact (Contents.event_of_writeAll hec).2
      | succ n =>
        exact (hnumber n c hc e hec).trans (congrArg (· + 1) (Nat.succ_add _ _))

/-- The changes of operations come in the order of their revisions. -/
theorem log_flatten_sorted (ops : List Op) (s : Store) :
    (log ops s).flatten.Pairwise fun e f => e.revision ≤ f.revision := by
  refine List.pairwise_flatten.2 ⟨fun events hev => ?_, ?_⟩
  · -- the changes of one operation share their revision
    obtain ⟨rev, hrev⟩ := log_uniform ops s events hev
    refine List.pairwise_of_forall_mem_list fun e he f hf => ?_
    rw [(hrev e he).1, (hrev f hf).1]
  · exact (log_revision ops s).2.imp fun h e he f hf => Nat.le_of_lt (h e he f hf)

end Op

/-! ## Revisions that are answered -/

/-- The revision that a reply tells. -/
def Reply.revision? : Reply → Option Revision
  | revision rev | watching _ rev => some rev
  | done | entry _ | records _ | size _ _ | events _ => none

/-- An operation on a store is refused and leaves the store alone, or it has a reply; a revision
that the reply tells is the one that the store has then. -/
def Store.Orderly (s : Store) (r : KvResult Reply × Store) : Prop :=
  (∃ e, r = (.error e, s)) ∨ ∃ reply, r.1 = .ok reply ∧ ∀ rev ∈ reply.revision?, rev = r.2.revision

namespace Store.Orderly

variable {β : Type} {f : β → Reply} {s s' : Store}

theorem refused (f : β → Reply) (e : KvError) (s : Store) :
    s.Orderly (Op.answer f (.error e, s)) :=
  .inl ⟨e, rfl⟩

theorem silent {reply : Reply} (h : reply.revision? = none) : s.Orderly (.ok reply, s') :=
  .inr ⟨reply, rfl, fun _ hrev => (nomatch h.symm.trans hrev)⟩

theorem current : s.Orderly (Op.answer .revision (.ok s'.revision, s')) :=
  .inr ⟨_, rfl, fun _ hrev => (Option.some.inj hrev).symm⟩

theorem commitOk (ws : List Write) : s.Orderly (Op.answer .revision (s.commitOk ws)) := by
  have h : s.commitOk ws = (.ok (s.commit ws).2.revision, (s.commit ws).2) := by
    unfold Store.commitOk
    rw [commit_eq]
  rw [h]
  exact current

theorem ifOpen {action : KvResult β × Store} (h : s.Orderly (Op.answer f action)) :
    s.Orderly (Op.answer f (s.ifOpen action)) := by
  unfold Store.ifOpen
  split
  · exact refused f _ s
  · exact h

end Store.Orderly

namespace Op

variable {op : Op} {s : Store} {reply : Reply} {rev : Revision}

/-- **Every operation is orderly.** -/
theorem run_orderly (op : Op) (s : Store) : s.Orderly (op.run s) := by
  cases op with
  | get key => exact .ifOpen (.silent rfl)
  | create key value =>
    refine .ifOpen ?_
    split
    · exact .refused _ _ s
    · exact .commitOk _
  | update key value expected =>
    refine .ifOpen ?_
    cases s.contents[key]? with
    | none => exact .refused _ _ s
    | some stored =>
      simp only
      split
      · exact .refused _ _ s
      · exact .commitOk _
  | put key value => exact .ifOpen (.commitOk _)
  | delete key =>
    refine .ifOpen ?_
    split
    · exact .commitOk _
    · exact .refused _ _ s
  | list scope => exact .ifOpen (.silent rfl)
  | revision => exact .ifOpen .current
  | size => exact .silent rfl
  | close => exact .silent rfl
  | txn request =>
    refine .ifOpen ?_
    split
    · exact .current
    · cases Store.obstacle? s.contents request with
      | some e => exact .refused _ e s
      | none => exact .commitOk _
  | watch who scope =>
    exact .ifOpen (.inr ⟨_, rfl, fun _ hrev => (Option.some.inj hrev).symm⟩)
  | poll who => exact .silent rfl
  | unwatch who => exact .silent rfl

/-- An operation that is refused leaves the store alone. -/
theorem run_of_error {e : KvError} (h : (op.run s).1 = .error e) : (op.run s).2 = s := by
  rcases op.run_orderly s with ⟨e', herror⟩ | ⟨reply, hok, -⟩
  · rw [herror]
  · rw [hok] at h
    cases h

/-- Whoever is told a revision is told the one that the store has then. -/
theorem answered_revision (hok : (op.run s).1 = .ok reply) (hrev : rev ∈ reply.revision?) :
    rev = (op.run s).2.revision := by
  rcases op.run_orderly s with ⟨e, h⟩ | ⟨reply', h, hcurrent⟩
  · rw [h] at hok
    cases hok
  · obtain rfl := Except.ok.inj (h.symm.trans hok)
    exact hcurrent rev hrev

theorem answer_ok {β : Type} {f : β → Reply} {r : KvResult β × Store}
    (h : (answer f r).1 = .ok reply) : ∃ b, r.1 = .ok b ∧ f b = reply := by
  obtain ⟨result, after⟩ := r
  cases result with
  | error e => cases h
  | ok b => exact ⟨b, rfl, Except.ok.inj h⟩

/-- Whoever writes is told a revision. -/
theorem reply_of_asks (h : op.asks ≠ []) (hok : (op.run s).1 = .ok reply) :
    ∃ rev, reply = .revision rev := by
  have hanswer {r : KvResult Revision × Store} (h : (answer .revision r).1 = .ok reply) :
      ∃ rev, reply = .revision rev := by
    obtain ⟨rev, -, hreply⟩ := answer_ok h
    exact ⟨rev, hreply.symm⟩
  cases op with
  | create _ _ | update _ _ _ | put _ _ | delete _ | txn _ => exact hanswer hok
  | _ => exact absurd rfl h

/-- What an operation changes it asked for. -/
theorem asks_of_events (h : op.events s ≠ []) : op.asks ≠ [] := by
  intro hasks
  have hwrites : op.writes s = [] :=
    List.eq_nil_iff_forall_not_mem.2 fun w hw => by
      have hmem := asks_of_writes hw
      rw [hasks] at hmem
      cases hmem
  apply h
  unfold events
  rw [hwrites]
  rfl

/-- **Whoever changes something is told the next revision.** -/
theorem answer_of_events (h : op.events s ≠ []) :
    (op.run s).1 = .ok (.revision s.revision.next) := by
  have hnext := op.run_revision s
  rw [if_neg h] at hnext
  rcases op.run_orderly s with ⟨e, herror⟩ | ⟨reply, hok, hcurrent⟩
  · -- a store that is left alone keeps its revision
    rw [herror] at hnext
    exact absurd hnext.symm (Nat.succ_ne_self _)
  · obtain ⟨rev, rfl⟩ := reply_of_asks (asks_of_events h) hok
    rw [hok, hcurrent rev rfl, hnext]

/-- Whether an operation writes one key on its own. -/
def isEdit : Op → Bool
  | create _ _ | update _ _ _ | put _ _ | delete _ => true
  | get _ | list _ | revision | size | close | txn _ | watch _ _ | poll _ | unwatch _ => false

/-- An edit that succeeds changes its key. -/
theorem events_of_edit (hedit : op.isEdit = true) (hok : (op.run s).1 = .ok reply) :
    op.events s ≠ [] := by
  have hopen : s.closed = false := by
    cases hs : s.closed with
    | false => rfl
    | true =>
      cases op with
      | create _ _ | update _ _ _ | put _ _ | delete _ =>
        simp only [run, answer, Store.create, Store.update, Store.put, Store.delete,
          Store.ifOpen_of_closed hs] at hok
        cases hok
      | _ => cases hedit
  have hput (key : String) (value : Bytes) :
      (s.contents.writeAll s.revision.next [.put key value]).2 ≠ [] := List.cons_ne_nil _ _
  unfold events writes
  rw [if_neg (by rw [hopen]; exact Bool.false_ne_true)]
  cases op with
  | put key value => exact hput key value
  | create key value =>
    simp only [run, answer, Store.create, Store.ifOpen_of_open hopen] at hok ⊢
    split at hok
    · cases hok
    · rename_i habsent
      rw [if_neg habsent]
      exact hput key value
  | update key value expected =>
    simp only [run, answer, Store.update, Store.ifOpen_of_open hopen] at hok ⊢
    cases hfound : s.contents[key]? with
    | none =>
      rw [hfound] at hok
      cases hok
    | some stored =>
      simp only [hfound] at hok ⊢
      split at hok
      · cases hok
      · rename_i hcurrent
        rw [if_neg hcurrent]
        exact hput key value
  | delete key =>
    simp only [run, answer, Store.delete, Store.ifOpen_of_open hopen] at hok ⊢
    split at hok
    · rename_i hpresent
      rw [if_pos hpresent, Contents.writeAll_cons, Contents.write, if_pos hpresent]
      exact List.cons_ne_nil _ _
    · cases hok
  | _ => cases hedit

/-- The revision that an operation is told, if it is told one. -/
def toldBy (op : Op) (s : Store) : List Revision :=
  match (op.run s).1 with
  | .ok reply => reply.revision?.toList
  | .error _ => []

/-- The revisions that operations are told. -/
def told : List Op → Store → List Revision
  | [], _ => []
  | op :: ops, s => op.toldBy s ++ told ops (op.run s).2

/-- No revision is told before the store has it. -/
theorem told_le (ops : List Op) (s : Store) :
    ∀ rev ∈ told ops s, rev ≤ (runAll ops s).revision := by
  induction ops generalizing s with
  | nil => exact fun _ h => (nomatch h)
  | cons op ops ih =>
    intro rev hrev
    rw [runAll_cons]
    rcases List.mem_append.1 hrev with hrev | hrev
    · unfold toldBy at hrev
      split at hrev
      · rename_i reply hok
        rw [answered_revision hok (Option.mem_toList.1 hrev)]
        exact (Store.later_runAll ops _).revision_le
      · cases hrev
    · exact ih _ rev hrev

end Op

/-! ## The store and its log -/

/-- A store after operations on an empty one, as it is read off its log. -/
structure FoldsCommits (ops : List Op) : Prop where
  /-- Each commit that changed something has its number as its revision. -/
  numbered : ∀ n c, (Op.commits ops .empty)[n]? = some c →
    c ≠ [] ∧ ∀ e ∈ c, e.revision = n + 1
  revision : (Op.runAll ops .empty).revision = (Op.commits ops .empty).length
  /-- As long as the store is open, a key is answered with what its changes make of it. -/
  get : ∀ key, ((Op.runAll ops .empty).get key).1 =
    if (Op.runAll ops .empty).closed then .error (.unavailable "store is closed")
    else .ok (Op.runAll ops .empty).contents[key]?
  recalled : ∀ key, Recalled (eventsOn key (Op.log ops .empty).flatten)
    (Op.runAll ops .empty).contents[key]?
  bounds : ∀ (key : String) (stored : Stored), (Op.runAll ops .empty).contents[key]? = some stored →
    1 ≤ stored.createRevision ∧ stored.createRevision ≤ stored.modRevision ∧
      stored.modRevision ≤ (Op.runAll ops .empty).revision ∧ 1 ≤ stored.version
  /-- Whoever changes something is told a revision that nobody was told before. -/
  fresh : ∀ early op late, ops = early ++ op :: late →
    op.events (Op.runAll early .empty) ≠ [] →
    ∃ rev, (op.run (Op.runAll early .empty)).1 = .ok (.revision rev) ∧
      ∀ earlier ∈ Op.told early .empty, earlier < rev
  /-- An edit that succeeds has changed something. -/
  changes : ∀ early op late, ops = early ++ op :: late → op.isEdit = true →
    (∃ reply, (op.run (Op.runAll early .empty)).1 = .ok reply) →
    op.events (Op.runAll early .empty) ≠ []

/-- **The state of a store is the fold of its commits**, for every history: commits are numbered
without holes, what is under a key is determined by the changes of the key, and whoever changes
something is told a new revision. -/
theorem store_folds_commits (ops : List Op) : FoldsCommits ops := by
  obtain ⟨hlast, hnumber⟩ := Op.commits_revision ops .empty
  have hrecall (key : String) : Recalled (eventsOn key (Op.log ops .empty).flatten)
      (Op.runAll ops .empty).contents[key]? := by
    have hnone : Store.empty.contents[key]? = none := Std.ExtTreeMap.getElem?_empty
    rw [Op.getElem?_runAll, hnone]
    exact .of_puts _
  refine ⟨?numbered, ?revision, ?get, hrecall, ?bounds, ?fresh, ?changes⟩
  case numbered =>
    intro n c hc
    have hmem := List.mem_filter.1 (List.mem_of_getElem? hc)
    refine ⟨of_decide_eq_true hmem.2, fun e he => ?_⟩
    exact (hnumber n c hc e he).trans (congrArg (· + 1) (Nat.zero_add n))
  case revision => exact hlast.trans (Nat.zero_add _)
  case get =>
    intro key
    unfold Store.get Store.ifOpen
    split <;> rfl
  case bounds =>
    intro key stored hs
    have hsorted : (eventsOn key (Op.log ops .empty).flatten).Pairwise
        fun e f => e.revision ≤ f.revision := (Op.log_flatten_sorted ops .empty).filter _
    obtain ⟨e, he, hcreate⟩ := (hrecall key).created stored hs
    obtain ⟨events, hev, hin⟩ := List.mem_flatten.1 (List.mem_filter.1 he).1
    refine ⟨?_, (hrecall key).createRevision_le hsorted stored hs,
      ((Store.Stamped.empty.runAll ops) key stored hs).2, (hrecall key).version_pos stored hs⟩
    -- every commit is later than the empty store
    rw [← hcreate]
    exact (Op.log_revision ops .empty).1 events hev e hin
  case fresh =>
    intro early op late _ hchange
    refine ⟨_, Op.answer_of_events hchange, fun earlier hearlier => ?_⟩
    exact Nat.lt_succ_of_le (Op.told_le early .empty earlier hearlier)
  case changes =>
    intro early op late _ hedit ⟨reply, hok⟩
    exact Op.events_of_edit hedit hok

/-- A commit that puts, deletes and puts a key again begins to count anew. -/
example : ((Op.runAll [.put "a" [1], .put "a" [2],
    .txn ⟨[], none, [.put "a" [3], .delete "a", .delete "b", .put "a" [4], .put "a" [5]]⟩]
      .empty).get "a").1 = .ok (some ⟨[5], 3, 3, 2⟩) := by
  decide +kernel

end Inventory
