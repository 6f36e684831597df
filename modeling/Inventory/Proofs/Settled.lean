import Inventory.Proofs.Passes

/-!
# What the caches of a hub have got

A hub publishes a revision, and whoever waits for it takes it that the caches hold what was
committed up to it. The hub can be looked at whenever it has done a step, also from the callbacks of
a cache; and it can be ended and started again, which gives its caches another list.

* `Hub.CurrentUpTo`: a cache of a hub has got a list of the store and all later changes up to a
  revision.
* `Hub.Settled.commit`, `Hub.Settled.through`: **the caches of a hub stay ahead of its revision
  through a commit**, and through any number of them.
* `Hub.Standing.listing`: so they do through a list.
* `Hub.Standing.started`, `Hub.Live.deliver`: a hub that is started on an open store gets its list,
  and then whatever has been done whenever it delivers.
* `Hub.Phase.deliver`, `Hub.Phase.start`: so they do whenever the hub delivers, and when it is
  started, whatever has become of it before.
-/

namespace Inventory

/-! ## What a cache of a hub has got -/

namespace Op

variable {s : Store} {mid : List Op} {rev : Revision}

/-- What operations change has revisions up to the one that they lead to. -/
theorem changesUpTo_all (h : (runAll mid s).revision ≤ rev) :
    changesUpTo rev mid s = (log mid s).flatten := by
  refine List.filter_eq_self.2 fun e he => decide_eq_true ?_
  obtain ⟨events, hev, he⟩ := List.mem_flatten.1 he
  exact Nat.le_trans (log_revision_le mid s events hev e he) h

/-- What comes later changes nothing up to a revision that has been reached. -/
theorem changesUpTo_append (late : List Op) (h : rev ≤ (runAll mid s).revision) :
    changesUpTo rev (mid ++ late) s = changesUpTo rev mid s := by
  have hlate : ∀ e ∈ (log late (runAll mid s)).flatten, ¬ e.revision ≤ rev := by
    intro e he
    obtain ⟨events, hev, he⟩ := List.mem_flatten.1 he
    exact Nat.not_le.2 (Nat.lt_of_le_of_lt h ((log_revision late _).1 events hev e he))
  have hnone : (log late (runAll mid s)).flatten.filter (fun e => decide (e.revision ≤ rev)) = [] :=
    List.filter_eq_nil_iff.2 fun e he => by simpa using hlate e he
  unfold changesUpTo
  rw [log_append, List.flatten_append, List.filter_append, hnone, List.append_nil]

/-- The changes of some operations are those up to the revision they lead to, whatever follows. -/
theorem changesUpTo_now (mid late : List Op) (s : Store) :
    changesUpTo (runAll mid s).revision (mid ++ late) s = (log mid s).flatten :=
  (changesUpTo_append late (Nat.le_refl _)).trans (changesUpTo_all (Nat.le_refl _))

end Op

/-- The list of a type after some operations. -/
def Op.listingOf (k : Kind) (ops : List Op) (s : Store) : List Delivery :=
  Delivery.listing ((runAll ops s).contents.scan (Entity.typePrefix k.Obj))
    (runAll ops s).revision

namespace Hub

/-- What a cache of a hub has got of a history: when it held `first` it got the list of the store
after the operations `early`, and then all changes that `rest` made up to a revision, which led to
`now`. Since then it has got at most a first part of a later list. -/
structure Got (h : Hub) (k : Kind) (s : Store) (early rest : List Op) (reached : Revision)
    (first now : Option (Cache k.Obj)) (part : List Delivery) : Prop where
  listed : (Op.runAll early s).revision ≤ reached
  changed : now.map (·.entries) = first.map fun c =>
    (c.afterDeliveries (Op.listingOf k early s)).changedBy
      (Op.changesUpTo reached rest (Op.runAll early s))
  later : ∃ since more, rest = since ++ more ∧ part <+: Op.listingOf k (early ++ since) s
  shown : (h.caches.get k).map (·.entries) = now.map fun c => (c.afterDeliveries part).entries

/-- A cache of a hub, registered if it is one of `caches`, has got all changes of a history up to a
revision, those before a list by this list. -/
def CurrentUpTo (h : Hub) (k : Kind) (caches : CacheSet) (s : Store) (past : List Op)
    (rev : Revision) : Prop :=
  ∃ early rest reached first now part, past = early ++ rest ∧ rev ≤ reached ∧
    first.isSome = (caches.get k).isSome ∧ h.Got k s early rest reached first now part

/-- The caches of a hub have got the list of the store after the operations `early`, and all changes
that `mid` made. -/
def Settled (h : Hub) (caches : CacheSet) (s : Store) (early mid : List Op) : Prop :=
  ∃ before : CacheSet, (∀ k, (before.get k).isSome = (caches.get k).isSome) ∧
    h.Shows (Serving.listed before (Op.runAll early s)) (Op.log mid (Op.runAll early s)).flatten

/-- Hubs that publish the same revision, and whose caches hold the same. -/
structure SameShown (h h' : Hub) : Prop where
  revision : h.revision = h'.revision
  entries : ∀ k, (h.caches.get k).map (·.entries) = (h'.caches.get k).map (·.entries)

variable {h h' : Hub} {k : Kind} {caches : CacheSet} {s : Store} {early mid late past : List Op}
  {rev rev' : Revision}

theorem get_listed (before : CacheSet) (s : Store) (k : Kind) :
    (Serving.listed before s).get k = (before.get k).map (Cache.afterDeliveries
      (Delivery.listing (s.contents.scan (Entity.typePrefix k.Obj)) s.revision)) :=
  PerKind.get_ofFn _ _

theorem CurrentUpTo.mono (hc : h.CurrentUpTo k caches s past rev) (hle : rev' ≤ rev) :
    h.CurrentUpTo k caches s past rev' := by
  obtain ⟨early, rest, reached, first, now, part, hpast, hreached, hfirst, hgot⟩ := hc
  exact ⟨early, rest, reached, first, now, part, hpast, Nat.le_trans hle hreached, hfirst, hgot⟩

/-- It stays current up to a revision that has been reached, whatever others do. -/
theorem CurrentUpTo.more (hc : h.CurrentUpTo k caches s past rev) (late : List Op)
    (hrev : rev ≤ (Op.runAll past s).revision) : h.CurrentUpTo k caches s (past ++ late) rev := by
  obtain ⟨early, rest, reached, first, now, part, rfl, hreached, hfirst, hgot⟩ := hc
  obtain ⟨since, more, hrest, hpart⟩ := hgot.later
  have hnow : Op.runAll rest (Op.runAll early s) = Op.runAll (early ++ rest) s :=
    (Op.runAll_append early rest s).symm
  -- the changes that the cache has got end where the history does
  obtain ⟨upTo, hle, hlisted, hchanges⟩ : ∃ upTo, rev ≤ upTo ∧
      (Op.runAll early s).revision ≤ upTo ∧
      Op.changesUpTo upTo (rest ++ late) (Op.runAll early s) =
        Op.changesUpTo reached rest (Op.runAll early s) := by
    rcases Nat.le_total reached (Op.runAll (early ++ rest) s).revision with hr | hr
    · rw [← hnow] at hr
      exact ⟨reached, hreached, hgot.listed, Op.changesUpTo_append late hr⟩
    · rw [← hnow] at hr hrev
      exact ⟨_, hrev, (Store.later_runAll rest _).revision_le,
        (Op.changesUpTo_now rest late _).trans (Op.changesUpTo_all hr).symm⟩
  refine ⟨early, rest ++ late, upTo, first, now, part, List.append_assoc .., hle, hfirst, hlisted,
    ?_, ⟨since, more ++ late, ?_, hpart⟩, hgot.shown⟩
  · rw [hchanges]
    exact hgot.changed
  · rw [hrest, List.append_assoc]

/-- It is the cache that counts, not the hub. -/
theorem CurrentUpTo.congr (hc : h.CurrentUpTo k caches s past rev)
    (hsame : h'.caches.get k = h.caches.get k) : h'.CurrentUpTo k caches s past rev := by
  obtain ⟨early, rest, reached, first, now, part, hpast, hreached, hfirst, hgot⟩ := hc
  refine ⟨early, rest, reached, first, now, part, hpast, hreached, hfirst, hgot.listed,
    hgot.changed, hgot.later, ?_⟩
  rw [hsame]
  exact hgot.shown

theorem Settled.registered (hs : h.Settled caches s early mid) (k : Kind) :
    (h.caches.get k).isSome = (caches.get k).isSome := by
  obtain ⟨before, hbefore, hshows⟩ := hs
  have hk := congrArg Option.isSome (hshows k)
  rw [get_listed, Option.isSome_map, Option.isSome_map, Option.isSome_map] at hk
  exact hk.trans (hbefore k)

theorem Settled.congr (hs : h.Settled caches s early mid) (hsame : h'.SameShown h) :
    h'.Settled caches s early mid := by
  obtain ⟨before, hbefore, hshows⟩ := hs
  exact ⟨before, hbefore, fun k => (hsame.entries k).trans (hshows k)⟩

/-- Caches that are settled may get a first part of the list of the store. -/
theorem Settled.got (hs : h.Settled caches s early mid) (late : List Op) {part : List Delivery}
    (hpart : part <+: Op.listingOf k (early ++ mid ++ late) s)
    (hshown : h'.caches.get k = (h.caches.get k).map (Cache.afterDeliveries part)) :
    h'.CurrentUpTo k caches s (early ++ mid ++ late) (Op.runAll (early ++ mid) s).revision := by
  obtain ⟨before, hbefore, hshows⟩ := hs
  refine ⟨early, mid ++ late, (Op.runAll (early ++ mid) s).revision, before.get k,
    h.caches.get k, part, List.append_assoc .., Nat.le_refl _, hbefore k, ?_⟩
  have hreached : (Op.runAll (early ++ mid) s).revision =
      (Op.runAll mid (Op.runAll early s)).revision := by rw [Op.runAll_append]
  constructor
  case listed =>
    rw [hreached]
    exact (Store.later_runAll mid _).revision_le
  case changed =>
    rw [hreached, Op.changesUpTo_now, hshows k, get_listed, Option.map_map]
    rfl
  case later =>
    refine ⟨mid ++ late, [], (List.append_nil _).symm, ?_⟩
    rw [← List.append_assoc]
    exact hpart
  case shown =>
    rw [hshown, Option.map_map]
    rfl

theorem Settled.current (hs : h.Settled caches s early mid) (late : List Op) (k : Kind) :
    h.CurrentUpTo k caches s (early ++ mid ++ late) (Op.runAll (early ++ mid) s).revision := by
  have hsame : h.caches.get k = (h.caches.get k).map (Cache.afterDeliveries []) :=
    (map_afterDeliveries_nil _).symm
  exact hs.got late List.nil_prefix hsame

namespace SameShown

theorem refl (h : Hub) : h.SameShown h := ⟨rfl, fun _ => rfl⟩

theorem trans {h'' : Hub} (hfirst : h.SameShown h') (hsecond : h'.SameShown h'') :
    h.SameShown h'' :=
  ⟨hfirst.revision.trans hsecond.revision, fun k => (hfirst.entries k).trans (hsecond.entries k)⟩

theorem keep (h : Hub) (sync : Sync) : (h.keep sync).SameShown h := by
  constructor
  case revision =>
    unfold Hub.keep
    simp only
    split <;> rfl
  case entries =>
    intro k
    rw [keep_caches, Option.map_map]
    refine Option.map_congr fun c _ => ?_
    show (sync.leave c).entries = c.entries
    unfold Sync.leave
    split <;> rfl

theorem onCache (h : Hub) (k : Kind) {f : Cache k.Obj → Cache k.Obj}
    (hf : ∀ c, (f c).entries = c.entries) : (h.onCache k f).SameShown h := by
  refine ⟨rfl, fun j => ?_⟩
  by_cases hj : j = k
  · subst hj
    show Option.map _ ((h.caches.set j _).get j) = _
    rw [PerKind.get_set_self, Option.map_map]
    exact Option.map_congr fun c _ => hf c
  · exact congrArg _ (PerKind.get_set_of_ne _ _ hj)

theorem done (h : Hub) (s : Store) : (h.done s).2.1.SameShown h := by
  unfold Hub.done
  cases hsync : h.sync with
  | none => exact ⟨rfl, fun _ => rfl⟩
  | some sync =>
    simp only
    split
    · exact ⟨rfl, fun _ => rfl⟩
    · obtain ⟨hrevision, hentries⟩ := keep { h with cancelled := true } (sync.cancel s).1
      exact ⟨hrevision, hentries⟩

end SameShown

/-- A hub that is told to end lets go of its sync. -/
theorem done_frame (h : Hub) (s : Store) :
    (h.done s).2.1.cancelled = true ∧ (h.done s).2.1.sync = none := by
  obtain ⟨caches, revision, listReceived, stopped, cancelled, state, sync⟩ := h
  cases sync with
  | none => exact ⟨rfl, rfl⟩
  | some sync =>
    refine ⟨?_, rfl⟩
    unfold Hub.done
    simp only
    split
    · rfl
    · exact (keep_frame ..).1

/-! ## Through commits and lists -/

/-- A hub is as it should be at some time: it publishes no revision that the store has not reached,
and each registered cache has got all changes up to the revision that it publishes. A hub that has
published nothing has revision zero, which no commit has. -/
structure Sure (h : Hub) (caches : CacheSet) (s : Store) (past : List Op) : Prop where
  bounded : h.revision ≤ (Op.runAll past s).revision
  registered : ∀ k, (h.caches.get k).isSome = (caches.get k).isSome
  current : ∀ k, h.revision = 0 ∨ h.CurrentUpTo k caches s past h.revision

/-- Whatever others do to the store meanwhile. -/
theorem Sure.more (hs : h.Sure caches s past) (late : List Op) :
    h.Sure caches s (past ++ late) where
  bounded := by
    rw [Op.runAll_append]
    exact Nat.le_trans hs.bounded (Store.later_runAll late _).revision_le
  registered := hs.registered
  current k := (hs.current k).imp_right fun hc => hc.more late hs.bounded

/-- A hub between two deliveries. -/
structure Standing (h : Hub) (caches : CacheSet) (s : Store) (past : List Op) : Prop where
  registered : ∀ k, (h.caches.get k).isSome = (caches.get k).isSome
  settled : h.revision = 0 ∨ ∃ early mid late, past = early ++ mid ++ late ∧
    h.Settled caches s early mid ∧ h.revision ≤ (Op.runAll (early ++ mid) s).revision

theorem Standing.bounded (hs : h.Standing caches s past) :
    h.revision ≤ (Op.runAll past s).revision := by
  rcases hs.settled with hzero | ⟨early, mid, late, rfl, -, hle⟩
  · rw [hzero]
    exact Nat.zero_le _
  · refine Nat.le_trans hle ?_
    rw [Op.runAll_append _ late]
    exact (Store.later_runAll late _).revision_le

theorem Standing.sure (hs : h.Standing caches s past) : h.Sure caches s past where
  bounded := hs.bounded
  registered := hs.registered
  current k := by
    rcases hs.settled with hzero | ⟨early, mid, late, rfl, hsettled, hle⟩
    · exact .inl hzero
    · exact .inr ((hsettled.current late k).mono hle)

theorem Standing.congr (hs : h.Standing caches s past) (hsame : h'.SameShown h) :
    h'.Standing caches s past where
  registered k := by
    have hk := congrArg Option.isSome (hsame.entries k)
    rw [Option.isSome_map, Option.isSome_map] at hk
    exact hk.trans (hs.registered k)
  settled := by
    rw [hsame.revision]
    rcases hs.settled with hzero | ⟨early, mid, late, hpast, hsettled, hle⟩
    · exact .inl hzero
    · exact .inr ⟨early, mid, late, hpast, hsettled.congr hsame, hle⟩

/-- Others use the store. -/
theorem Standing.more (hs : h.Standing caches s past) (ops : List Op) :
    h.Standing caches s (past ++ ops) where
  registered := hs.registered
  settled := by
    rcases hs.settled with hzero | ⟨early, mid, late, rfl, hsettled, hle⟩
    · exact .inl hzero
    · exact .inr ⟨early, mid, late ++ ops, (List.append_assoc ..), hsettled, hle⟩

theorem Settled.standing (hs : h.Settled caches s early mid)
    (hrev : h.revision = (Op.runAll (early ++ mid) s).revision) (late : List Op) :
    h.Standing caches s (early ++ mid ++ late) where
  registered := hs.registered
  settled := .inr ⟨early, mid, late, rfl, hs, Nat.le_of_eq hrev⟩

/-- Between the steps of a delivery a hub is as it should be, if it is before and after. -/
theorem Between.sure {between : Hub} (hb : Between h between h') (hfirst : h.Sure caches s past)
    (hlast : h'.Sure caches s past) (hle : h.revision ≤ h'.revision) :
    between.Sure caches s past := by
  rcases hb.revision with hrevision | rfl
  · refine ⟨by rw [hrevision]; exact hfirst.bounded, fun k => ?_, fun k => ?_⟩
    · rcases hb.caches k with hk | hk
      · rw [hk]
        exact hfirst.registered k
      · rw [hk]
        exact hlast.registered k
    · rw [hrevision]
      rcases hb.caches k with hk | hk
      · exact (hfirst.current k).imp_right fun hc => hc.congr hk
      · rcases hlast.current k with hzero | hc
        · rw [hzero] at hle
          exact .inl (Nat.le_zero.1 hle)
        · exact .inr ((hc.mono hle).congr hk)
  · exact hlast

/-- A hub comes to another one by way of some hubs, each of which is as it should be. -/
structure Leads (h : Hub) (hubs : List Hub) (h' : Hub) (caches : CacheSet) (s : Store)
    (past : List Op) : Prop where
  ascends : Ascends hubs h h'
  sure : ∀ x ∈ hubs, x.Sure caches s past
  standing : h'.Standing caches s past

section Leads

variable {hubs hubs' : List Hub} {between : Hub}

theorem Leads.refl (hs : h.Standing caches s past) : h.Leads [] h caches s past :=
  ⟨.nil (Nat.le_refl _), fun _ hx => (nomatch hx), hs⟩

theorem Leads.congr (hl : h.Leads hubs between caches s past) (hsame : h'.SameShown between) :
    h.Leads hubs h' caches s past := by
  refine ⟨⟨?_, hl.ascends.above, ?_, hl.ascends.ordered⟩, hl.sure, hl.standing.congr hsame⟩
  · rw [hsame.revision]
    exact hl.ascends.le
  · rw [hsame.revision]
    exact hl.ascends.below

theorem Leads.snoc (hl : h.Leads hubs between caches s past) (hsame : h'.SameShown between) :
    h.Leads (hubs ++ [h']) h' caches s past where
  ascends := hl.ascends.snoc (Nat.le_of_eq hsame.revision.symm)
  sure x hx := by
    rcases List.mem_append.1 hx with hx | hx
    · exact hl.sure x hx
    · rw [List.mem_singleton.1 hx]
      exact (hl.standing.congr hsame).sure
  standing := hl.standing.congr hsame

theorem Leads.append (ha : h.Leads hubs between caches s past)
    (hb : between.Leads hubs' h' caches s past) : h.Leads (hubs ++ hubs') h' caches s past where
  ascends := ha.ascends.append hb.ascends
  sure x hx := by
    rcases List.mem_append.1 hx with hx | hx
    · exact ha.sure x hx
    · exact hb.sure x hx
  standing := hb.standing

/-- A hub comes to another one whose caches have got the list of the store after the operations
`early` and all changes that `mid` made, and which has the revision that these lead to. By then
`late` have been done too. -/
structure Settles (h : Hub) (hubs : List Hub) (h' : Hub) (caches : CacheSet) (s : Store)
    (early mid late : List Op) : Prop where
  leads : h.Leads hubs h' caches s (early ++ mid ++ late)
  settled : h'.Settled caches s early mid
  revision : h'.revision = (Op.runAll (early ++ mid) s).revision

theorem Settles.refl (hs : h.Settled caches s early mid)
    (hrev : h.revision = (Op.runAll (early ++ mid) s).revision) (late : List Op) :
    h.Settles [] h caches s early mid late :=
  ⟨.refl (hs.standing hrev late), hs, hrev⟩

theorem Settles.congr (hl : h.Settles hubs between caches s early mid late)
    (hsame : h'.SameShown between) : h.Settles hubs h' caches s early mid late :=
  ⟨hl.leads.congr hsame, hl.settled.congr hsame, hsame.revision.trans hl.revision⟩

/-- First to some of the operations that have been done, then to all. -/
theorem Settles.append (ha : h.Settles hubs between caches s early mid late)
    (hb : between.Settles hubs' h' caches s early (mid ++ late) []) :
    h.Settles (hubs ++ hubs') h' caches s early (mid ++ late) [] := by
  have hpast : early ++ (mid ++ late) ++ [] = early ++ mid ++ late := by simp
  refine ⟨?_, hb.settled, hb.revision⟩
  have hrest := hb.leads
  rw [hpast] at hrest ⊢
  exact ha.leads.append hrest

end Leads

/-- The list of the store settles the caches. -/
theorem shows_list (h : Hub) (s : Store) :
    (receiveAll (Delivery.listing (s.contents.scan "") s.revision) h).1.Shows
      (Serving.listed h.caches s) [] := by
  intro k
  rw [get_listed, receiveAll_caches, Delivery.shareOf_listing, Option.map_map, Option.map_map]
  rfl

/-- **While a hub receives the list of the store its caches stay ahead of its revision**; in the end
they are settled. -/
theorem Standing.listing (hs : h.Standing caches s past) :
    h.Settles
      (passesThrough (Delivery.listing ((Op.runAll past s).contents.scan "")
        (Op.runAll past s).revision) h)
      (receiveAll (Delivery.listing ((Op.runAll past s).contents.scan "")
        (Op.runAll past s).revision) h).1 caches s past [] [] := by
  set ds := Delivery.listing ((Op.runAll past s).contents.scan "") (Op.runAll past s).revision
    with hds
  have hnil : past ++ [] = past := List.append_nil past
  have hascends := passesThrough_ascends ds h
  have hsettled : (receiveAll ds h).1.Settled caches s past [] :=
    ⟨h.caches, hs.registered, h.shows_list (Op.runAll past s)⟩
  have hrevision : (receiveAll ds h).1.revision = (Op.runAll (past ++ []) s).revision := by
    rw [hnil, hds, (receiveAll_listing_level _ _ h).1]
    exact Nat.max_eq_right hs.bounded
  have hstanding := hsettled.standing hrevision []
  refine ⟨⟨hascends, fun x hx => ?_, hstanding⟩, hsettled, hrevision⟩
  rw [hnil, hnil] at hstanding ⊢
  rw [hnil] at hrevision
  obtain ⟨hcaches, hlevel⟩ := mem_passesThrough_listing hx
  have hbounded : x.revision ≤ (Op.runAll past s).revision := by
    rw [← hrevision]
    exact hascends.below x hx
  have hregistered (k : Kind) : (x.caches.get k).isSome = (caches.get k).isSome := by
    obtain ⟨part, -, hk⟩ := hcaches k
    rw [hk, Option.isSome_map]
    exact hs.registered k
  refine ⟨hbounded, hregistered, fun k => ?_⟩
  rcases hlevel with hold | hlast
  · -- the revision is the old one, and the cache has got a first part of the list at most
    rcases hs.settled with hzero | ⟨early, mid, late, hpast, hbefore, hle⟩
    · exact .inl (hold.trans hzero)
    · obtain ⟨part, hpart, hk⟩ := hcaches k
      have hlisting : part <+: Op.listingOf k (early ++ mid ++ late) s := by
        rw [← hpast]
        rw [Delivery.shareOf_listing] at hpart
        exact hpart
      have hcurrent := (hbefore.got late hlisting hk).mono hle
      rw [← hpast, ← hold] at hcurrent
      exact .inr hcurrent
  · rw [hlast]
    exact hstanding.sure.current k

/-- **The caches of a hub stay ahead of its revision through a commit.** -/
theorem Settled.commit (hs : h.Settled caches s early mid)
    (hrev : h.revision = (Op.runAll (early ++ mid) s).revision) {op : Op}
    (hchanges : op.events (Op.runAll (early ++ mid) s) ≠ []) (late : List Op) :
    h.Settles (passes (h.steps (.commit (markMore (op.events (Op.runAll (early ++ mid) s))))) h)
      (h.receive (.commit (markMore (op.events (Op.runAll (early ++ mid) s))))).1 caches s early
      (mid ++ [op]) late := by
  set es := op.events (Op.runAll (early ++ mid) s) with hes
  -- the events of the commit have the next revision
  have hmarked : ∀ e ∈ markMore es,
      e.revision = (Op.runAll (early ++ mid) s).revision.next := by
    intro e he
    obtain ⟨f, hf, hsame⟩ := exists_of_mem_markMore he
    rw [← hsame, (Contents.event_of_writeAll hf).2]
  have hmarkedNe : markMore es ≠ [] := fun hnil => hchanges (markMore_eq_nil hnil)
  have hnext : (Op.runAll (early ++ (mid ++ [op])) s).revision =
      (Op.runAll (early ++ mid) s).revision.next := by
    rw [← List.append_assoc, Op.runAll_append _ [op]]
    exact (op.run_revision _).trans (if_neg hchanges)
  have hsettled : (h.receive (.commit (markMore es))).1.Settled caches s early (mid ++ [op]) := by
    obtain ⟨before, hbefore, hshows⟩ := hs
    refine ⟨before, hbefore, ?_⟩
    rw [Op.log_concat_flatten, ← Op.runAll_append early mid]
    exact hshows.receive_marked es
  have hlevel : (h.receive (.commit (markMore es))).1.revision =
      (Op.runAll (early ++ (mid ++ [op])) s).revision := by
    rw [(receive_commit_level hmarkedNe hmarked h).1, hrev, hnext]
    exact Nat.max_eq_right (Nat.le_succ _)
  have hle : h.revision ≤ (h.receive (.commit (markMore es))).1.revision := by
    rw [hlevel, hnext, hrev]
    exact Nat.le_succ _
  have hpast : early ++ mid ++ op :: late = early ++ (mid ++ [op]) ++ late := by simp
  have hfirst := hs.standing hrev (op :: late)
  have hlast := hsettled.standing hlevel late
  rw [hpast] at hfirst
  refine ⟨⟨passes_ascends _ h, fun x hx => ?_, hlast⟩, hsettled, hlevel⟩
  exact (mem_passes hx).sure hfirst.sure hlast.sure hle

/-- **So they do through any number of commits**, and in the end the hub has the revision that these
lead to. -/
theorem Settled.through (hs : h.Settled caches s early mid)
    (hrev : h.revision = (Op.runAll (early ++ mid) s).revision) (late : List Op) :
    h.Settles
      (passesThrough (((Op.commitsUnder "" late (Op.runAll (early ++ mid) s)).map markMore).map
        .commit) h)
      (receiveAll (((Op.commitsUnder "" late (Op.runAll (early ++ mid) s)).map markMore).map
        .commit) h).1 caches s early (mid ++ late) [] := by
  induction late generalizing mid h with
  | nil =>
    rw [List.append_nil]
    exact .refl hs hrev []
  | cons op late ih =>
    have hall : eventsUnder "" (op.events (Op.runAll (early ++ mid) s)) =
        op.events (Op.runAll (early ++ mid) s) := List.filter_eq_self.2 fun _ _ => rfl
    have hnext : (op.run (Op.runAll (early ++ mid) s)).2 =
        Op.runAll (early ++ (mid ++ [op])) s := by
      rw [← List.append_assoc, Op.runAll_append _ [op]]
      rfl
    have hmid : mid ++ op :: late = (mid ++ [op]) ++ late := by simp
    by_cases hnone : op.events (Op.runAll (early ++ mid) s) = []
    · -- nothing changed, so nothing is delivered
      have hsame : h.Settled caches s early (mid ++ [op]) := by
        obtain ⟨before, hbefore, hshows⟩ := hs
        refine ⟨before, hbefore, ?_⟩
        rw [Op.log_concat_flatten, ← Op.runAll_append early mid, hnone, List.append_nil]
        exact hshows
      have hstays : h.revision = (Op.runAll (early ++ (mid ++ [op])) s).revision := by
        rw [← hnext, Op.run_revision, if_pos hnone]
        exact hrev
      rw [Op.commitsUnder_cons_of_nil (hall.trans hnone), hnext, hmid]
      exact ih hsame hstays
    · have hfirst := hs.commit hrev hnone late
      have hrest := ih hfirst.settled hfirst.revision
      rw [Op.commitsUnder_cons_of_ne_nil (hall.trans_ne hnone), hall, hnext, hmid]
      exact hfirst.append hrest

/-! ## Deliveries -/

theorem foldl_passes (gs : List (List WatchEvent)) (h : Hub) (l : List Hub) :
    gs.foldl (fun x g => ((x.1.receive (.commit g)).1,
        x.2 ++ passes (x.1.steps (.commit g)) x.1)) (h, l) =
      ((receiveAll (gs.map .commit) h).1, l ++ passesThrough (gs.map .commit) h) := by
  induction gs generalizing h l with
  | nil =>
    rw [List.map_nil, passesThrough, List.append_nil]
    rfl
  | cons g gs ih =>
    rw [List.foldl_cons, ih, List.map_cons, passesThrough, List.append_assoc]
    rfl

/-- How far a hub has come with its sync: it has not been started, it has got the list and some of
the commits that followed, it was started on a closed store, or it was told to end. -/
inductive Phase (h : Hub) (who : Subscriber) (caches : CacheSet) (s : Store) (past : List Op)
    (now : Store) : Prop where
  | idle (sync : h.sync = none) (listed : h.listReceived = false)
  | live (sync : Sync) (early mid late : List Op) (kept : h.sync = some sync)
      (going : h.cancelled = false) (history : past = early ++ mid ++ late)
      (abreast : sync.Abreast who "" (Op.runAll early s) mid late now)
      (settled : h.Settled caches s early mid)
      (revision : h.revision = (Op.runAll (early ++ mid) s).revision)
  | failed (sync : Sync) (kept : h.sync = some sync) (ended : sync.outcome ≠ none)
      (listed : h.listReceived = false)
  | quit (cancelled : h.cancelled = true)

variable {who : Subscriber} {now : Store} {sync : Sync}

/-- A hub whose sync has ended, or that has none, delivers nothing. -/
theorem deliver_of_ended (hended : ∀ sync, h.sync = some sync → sync.outcome ≠ none)
    (now : Store) : h.deliver now = (h, [], now) ∧ h.passed now = [] := by
  unfold deliver passed
  cases hsync : h.sync with
  | none => exact ⟨rfl, rfl⟩
  | some sync =>
    have hsome := hended sync hsync
    simp only [Option.isSome_iff_ne_none.2 hsome, if_true, sync.deliver_of_ended hsome, and_self]

/-- A hub that was told to end delivers nothing any more. -/
theorem deliver_of_cancelled (hcancelled : h.cancelled = true) (now : Store) :
    (h.deliver now).1.SameShown h ∧ (h.deliver now).1.cancelled = true ∧ h.passed now = [] ∧
      (h.deliver now).2.2.SameKeys now := by
  by_cases hended : ∀ sync, h.sync = some sync → sync.outcome ≠ none
  · obtain ⟨hdeliver, hpassed⟩ := deliver_of_ended hended now
    rw [hdeliver, hpassed]
    exact ⟨.refl h, hcancelled, rfl, ⟨rfl, rfl, rfl⟩⟩
  · simp only [not_forall, not_not] at hended
    obtain ⟨sync, hsync, hnone⟩ := hended
    obtain ⟨hkeys, -⟩ := deliver_frame hsync now
    have hunmoved {σ : Type} (receive : List WatchEvent → Hub × σ → Hub × σ) (x : σ) :
        (sync.deliver (fun x => x.1.cancelled) receive now (h, x)).2.2 = (h, x) :=
      sync.deliver_of_stopped receive now hcancelled
    have hpassed : h.passed now = [] := by
      unfold passed
      rw [hsync]
      simp only
      rw [hunmoved]
    obtain ⟨sync', hhub⟩ : ∃ sync', (h.deliver now).1 = h.keep sync' := by
      refine ⟨(sync.deliver (fun x => x.1.cancelled) (fun events (x : Hub × Announcements) =>
        ((x.1.receive (.commit events)).1, x.2 ++ (x.1.receive (.commit events)).2)) now
          (h, [])).1, ?_⟩
      unfold deliver
      rw [hsync]
      simp only [hnone, Option.isSome_none, Bool.false_eq_true, if_false]
      exact congrArg (fun x : Hub × Announcements => x.1.keep _) (hunmoved _ _)
    rw [hhub]
    exact ⟨.keep h sync', (h.keep_frame sync').1.trans hcancelled, hpassed, hkeys⟩

/-- The hub after each step of the commits that wait. -/
theorem passed_abreast {s₀ : Store} {done late : List Op} (hsync : h.sync = some sync)
    (hgoes : h.cancelled = false) (ha : sync.Abreast who "" s₀ done late now) :
    h.passed now = passesThrough (((Op.commitsUnder "" late (Op.runAll done s₀)).map
      markMore).map .commit) h := by
  obtain ⟨_, _, hdeliver, -⟩ := ha.deliver
  have hgoesOn : ∀ gs : List (List WatchEvent), (gs.foldl (fun (x : Hub × List Hub) g =>
      ((x.1.receive (.commit g)).1, x.2 ++ passes (x.1.steps (.commit g)) x.1))
        (h, [])).1.cancelled = false := by
    intro gs
    rw [foldl_passes]
    exact (receiveAll_frame _ h).1.trans hgoes
  unfold passed
  rw [hsync]
  simp only
  rw [hdeliver _ _ _ _ hgoesOn, foldl_passes, List.nil_append]

/-- What a hub shows that has received the commits that waited. -/
theorem deliver_shown {s₀ : Store} {done late : List Op} (hsync : h.sync = some sync)
    (hgoes : h.cancelled = false) (ha : sync.Abreast who "" s₀ done late now) :
    ∃ sync', sync'.Abreast who "" s₀ (done ++ late) [] (h.deliver now).2.2 ∧
      (h.deliver now).1.sync = some sync' ∧ (h.deliver now).1.cancelled = false ∧
      (h.deliver now).1.SameShown (receiveAll (((Op.commitsUnder "" late
        (Op.runAll done s₀)).map markMore).map .commit) h).1 := by
  obtain ⟨sync', habreast, -, -, hlive, hended⟩ := deliver_abreast hsync hgoes ha
  refine ⟨sync', habreast, ?_⟩
  set ds := ((Op.commitsUnder "" late (Op.runAll done s₀)).map markMore).map Delivery.commit
    with hds
  by_cases hnone : sync.outcome = none
  · rw [hlive hnone]
    obtain ⟨hgoing, hkept⟩ := (receiveAll ds h).1.keep_frame sync'
    exact ⟨hkept, hgoing.trans ((receiveAll_frame ds h).1.trans hgoes), .keep _ sync'⟩
  · -- a sync that has ended has had nothing to deliver
    obtain ⟨rfl, hunmoved⟩ := hended hnone
    have hnothing : ds = [] := by
      rw [hds, Op.commitsUnder_of_closed (ha.ended hnone)]
      rfl
    rw [hunmoved, hnothing]
    exact ⟨hsync, hgoes, .refl h⟩

/-! ## Hubs that go on -/

/-- A hub that goes on: its sync was started on an open store after the operations `early`, its
caches have got the list and all changes that `mid` made, and those of `late` wait. -/
structure Live (h : Hub) (who : Subscriber) (caches : CacheSet) (s : Store)
    (early mid late : List Op) (now : Store) : Prop where
  kept : ∃ sync, h.sync = some sync ∧ sync.Abreast who "" (Op.runAll early s) mid late now
  going : h.cancelled = false
  settled : h.Settled caches s early mid
  revision : h.revision = (Op.runAll (early ++ mid) s).revision

/-- **A hub that goes on and delivers has got all that has been done.** -/
theorem Live.deliver (hl : h.Live who caches s early mid late now) :
    h.Settles (h.passed now) (h.deliver now).1 caches s early (mid ++ late) [] ∧
      (h.deliver now).1.Live who caches s early (mid ++ late) [] (h.deliver now).2.2 := by
  obtain ⟨⟨sync, kept, abreast⟩, going, settled, revision⟩ := hl
  obtain ⟨sync', habreast, hkept, hgoing, hshown⟩ := deliver_shown kept going abreast
  have hthrough := settled.through revision late
  rw [Op.runAll_append early mid] at hthrough
  rw [passed_abreast kept going abreast]
  have hto := hthrough.congr hshown
  exact ⟨hto, ⟨sync', hkept, habreast⟩, hgoing, hto.settled, hto.revision⟩

/-- **A hub that is started on an open store gets the list, and goes on** unless it was told to
end. -/
theorem Standing.started (hs : h.Standing caches s past) (hnow : now.SameKeys (Op.runAll past s))
    (hopen : now.closed = false) (who : Subscriber) :
    h.Settles (passesThrough (Sync.start who "" now).2.1 h)
        (receiveAll (Sync.start who "" now).2.1 h).1 caches s past [] [] ∧
      (h.cancelled = false →
        ((receiveAll (Sync.start who "" now).2.1 h).1.keep (Sync.start who "" now).1).Live who
          caches s past [] [] (Sync.start who "" now).2.2) := by
  obtain ⟨habreast, hlist, -⟩ := Sync.start_abreast who "" now
  set started := Sync.start who "" now with hstarted
  set listed := (receiveAll started.2.1 h).1 with hlisted
  rw [hopen, if_neg Bool.false_ne_true, hnow.contents, hnow.revision] at hlist
  have hsettles := hs.listing
  rw [← hlist] at hsettles
  refine ⟨hsettles, fun hgoes => ?_⟩
  obtain ⟨hgoing, hkeeps⟩ := listed.keep_frame started.1
  have hkept := hsettles.congr (.keep listed started.1)
  have hnowAbreast : started.1.Abreast who "" (Op.runAll past s) [] [] started.2.2 :=
    ⟨habreast.name, habreast.store.trans hnow, habreast.waiting, by
      rw [habreast.going]
      exact iff_of_eq (congrArg (· = false) hnow.closed)⟩
  exact ⟨⟨started.1, hkeeps, hnowAbreast⟩, hgoing.trans ((receiveAll_frame _ h).1.trans hgoes),
    hkept.settled, hkept.revision⟩

/-! ## Whatever has become of a hub -/

/-- **A hub delivers what has come in, and its caches stay ahead of its revision.** If it goes on,
it comes to the revision of the store. -/
theorem Phase.deliver (hp : h.Phase who caches s past now) (hs : h.Standing caches s past) :
    h.Leads (h.passed now) (h.deliver now).1 caches s past ∧
      (h.deliver now).1.Phase who caches s past (h.deliver now).2.2 ∧
      (h.deliver now).2.2.SameKeys now ∧
      (h.listReceived = true → h.cancelled = false →
        (h.deliver now).1.revision = (Op.runAll past s).revision) := by
  have hsame : now.SameKeys now := ⟨rfl, rfl, rfl⟩
  cases hp with
  | idle sync listed =>
    obtain ⟨hdeliver, hpassed⟩ := deliver_of_ended (h := h)
      (fun x hx => by rw [sync] at hx; cases hx) now
    rw [hdeliver, hpassed]
    exact ⟨.refl hs, .idle sync listed, hsame, fun h => by rw [listed] at h; cases h⟩
  | failed sync kept ended listed =>
    obtain ⟨hdeliver, hpassed⟩ := deliver_of_ended (h := h)
      (fun x hx => by rw [kept] at hx; rw [← Option.some.inj hx]; exact ended) now
    rw [hdeliver, hpassed]
    exact ⟨.refl hs, .failed sync kept ended listed, hsame, fun h => by rw [listed] at h; cases h⟩
  | quit cancelled =>
    obtain ⟨hshown, hquit, hpassed, hkeys⟩ := deliver_of_cancelled cancelled now
    rw [hpassed]
    refine ⟨(Leads.refl hs).congr hshown, .quit hquit, hkeys, fun _ h => ?_⟩
    rw [cancelled] at h
    cases h
  | live sync early mid late kept going history abreast settled revision =>
    have hlive : h.Live who caches s early mid late now :=
      ⟨⟨sync, kept, abreast⟩, going, settled, revision⟩
    obtain ⟨hto, ⟨sync', hkept, habreast⟩, hgoing, -, -⟩ := hlive.deliver
    obtain ⟨hkeys, -⟩ := deliver_frame kept now
    have hpast : past = early ++ (mid ++ late) ++ [] := by rw [history]; simp
    have hleads := hto.leads
    rw [← hpast] at hleads
    refine ⟨hleads, ?_, hkeys, fun _ _ => ?_⟩
    · exact .live sync' early (mid ++ late) [] hkept hgoing hpast habreast hto.settled hto.revision
    · rw [hpast, List.append_nil]
      exact hto.revision

/-- A hub that is started has got the list, if there is one. -/
theorem Phase.list (hp : h.Phase who caches s past now) (hs : h.Standing caches s past)
    (hnow : now.SameKeys (Op.runAll past s)) (hsync : h.sync = none) :
    h.Leads (passesThrough (Sync.start who "" now).2.1 h)
        (receiveAll (Sync.start who "" now).2.1 h).1 caches s past ∧
      ((receiveAll (Sync.start who "" now).2.1 h).1.keep (Sync.start who "" now).1).Phase who caches
        s past (Sync.start who "" now).2.2 := by
  obtain ⟨habreast, hlist, -⟩ := Sync.start_abreast who "" now
  set started := Sync.start who "" now with hstarted
  set listed := (receiveAll started.2.1 h).1 with hlisted
  obtain ⟨hgoing, hkeeps⟩ := listed.keep_frame started.1
  have hframe : listed.cancelled = h.cancelled := (receiveAll_frame _ h).1
  cases hclosed : now.closed with
  | true =>
    rw [hclosed, if_pos rfl] at hlist
    have hunmoved : listed = h := by
      rw [hlisted, hlist]
      rfl
    have hended : started.1.outcome ≠ none := by
      rw [Ne, habreast.going]
      show ¬ now.closed = false
      rw [hclosed]
      exact Bool.noConfusion
    rw [hunmoved, hlist]
    refine ⟨.refl hs, ?_⟩
    rw [hunmoved] at hgoing hkeeps
    cases hp with
    | idle sync unlisted =>
      refine .failed started.1 hkeeps hended ?_
      unfold Hub.keep
      simp only
      split <;> exact unlisted
    | live sync early mid late kept => rw [hsync] at kept; cases kept
    | failed sync kept => rw [hsync] at kept; cases kept
    | quit cancelled => exact .quit (hgoing.trans cancelled)
  | false =>
    obtain ⟨hsettles, hlive⟩ := hs.started hnow hclosed who
    have hleads := hsettles.leads
    have hpast : past ++ [] ++ [] = past := by rw [List.append_nil, List.append_nil]
    rw [hpast] at hleads
    refine ⟨hleads, ?_⟩
    cases hc : h.cancelled with
    | true => exact .quit (hgoing.trans (hframe.trans hc))
    | false =>
      obtain ⟨⟨sync, hkept, hnowAbreast⟩, hgoes, hsettled, hrevision⟩ := hlive hc
      exact .live sync past [] [] hkept hgoes hpast.symm hnowAbreast hsettled hrevision

/-- A hub that has been started already is not started again. -/
theorem start_of_started (hsync : h.sync = some sync) (who : Subscriber) (now : Store) :
    h.start who now = (.error (.invalid "sync hub already started"), h, [], now) := by
  unfold Hub.start
  rw [hsync]

/-- **A hub that is started gives its caches the list, and they stay ahead of its revision.** -/
theorem Phase.start (hp : h.Phase who caches s past now) (hs : h.Standing caches s past)
    (hnow : now.SameKeys (Op.runAll past s)) :
    h.Leads (h.startPassed who now) (h.start who now).2.1 caches s past ∧
      (h.start who now).2.1.Phase who caches s past (h.start who now).2.2.2 ∧
      (h.start who now).2.2.2.SameKeys now := by
  cases hsync : h.sync with
  | some sync =>
    have hpassed : h.startPassed who now = [] := by
      unfold startPassed
      rw [hsync]
    rw [start_of_started hsync, hpassed]
    exact ⟨.refl hs, hp, ⟨rfl, rfl, rfl⟩⟩
  | none =>
    obtain ⟨hleads, hphase⟩ := hp.list hs hnow hsync
    obtain ⟨habreast, -, -⟩ := Sync.start_abreast who "" now
    set started := Sync.start who "" now with hstarted
    set listed := (receiveAll started.2.1 h).1 with hlisted
    set kept := listed.keep started.1 with hkept
    have hstart : (h.start who now).2.1 = (kept.deliver started.2.2).1 ∧
        (h.start who now).2.2.2 = (kept.deliver started.2.2).2.2 := by
      rw [start_parts hsync who now]
      exact ⟨rfl, rfl⟩
    have hpassed : h.startPassed who now =
        passesThrough started.2.1 h ++ [kept] ++ kept.passed started.2.2 := by
      unfold startPassed
      rw [hsync, List.append_assoc]
      rfl
    have hkeptLeads := hleads.snoc (SameShown.keep listed started.1)
    obtain ⟨hmore, hlast, hkeys, -⟩ := hphase.deliver hkeptLeads.standing
    rw [hstart.1, hstart.2, hpassed]
    exact ⟨hkeptLeads.append hmore, hlast, hkeys.trans habreast.store⟩

end Hub

end Inventory
