import Inventory.Proofs.Alongside

/-!
# What a hub passes through

A hub does what a delivery makes it do step by step: it feeds one cache after another, and then, if
it does at all, it publishes a revision. Whoever looks at it, from a callback of a cache or from
elsewhere, finds it after one of its steps.

* `Hub.passes`, `Hub.passesThrough`: the hub after each step of a delivery, and of several.
* `Hub.mem_passes`: **between the steps of a delivery a cache has got its share or has not**, and
  the revision of the hub is the old one unless the delivery is complete.
* `Hub.passesThrough_ascends`: the revision never goes back.
* `Hub.mem_passesThrough_listing`: between the steps of a list a cache has got a first part of it.
-/

namespace Inventory

namespace Hub

variable {h h' : Hub}

/-- The hub after each of some steps. -/
def passes : List HubStep → Hub → List Hub
  | [], _ => []
  | s :: ss, h => (h.step s).1 :: passes ss (h.step s).1

/-- The hub after each step of some deliveries. -/
def passesThrough : List Delivery → Hub → List Hub
  | [], _ => []
  | d :: ds, h => passes (h.steps d) h ++ passesThrough ds (h.receive d).1

/-- The hub after each step of the commits that have come in. -/
def passed (h : Hub) (s : Store) : List Hub :=
  match h.sync with
  | none => []
  | some sync =>
    (sync.deliver (fun x => x.1.cancelled)
      (fun events (x : Hub × List Hub) =>
        ((x.1.receive (.commit events)).1, x.2 ++ passes (x.1.steps (.commit events)) x.1))
      s (h, [])).2.2.2

/-- The hub after each step of a start: those of the list, when it keeps the sync, and those of what
has come in. -/
def startPassed (h : Hub) (who : Subscriber) (s : Store) : List Hub :=
  match h.sync with
  | some _ => []
  | none =>
    let started := Sync.start who "" s
    let kept := (receiveAll started.2.1 h).1.keep started.1
    passesThrough started.2.1 h ++ kept :: kept.passed started.2.2

/-! ## The revision -/

theorem step_feed_level (h : Hub) (k : Kind) (d : Delivery) :
    (h.step (.feed k d)).1.revision = h.revision ∧
      (h.step (.feed k d)).1.listReceived = h.listReceived := by
  unfold step
  cases hk : h.caches.get k with
  | none => simp only [hk, and_self]
  | some c => simp only [hk, and_self]

theorem step_revision_le (h : Hub) (s : HubStep) : h.revision ≤ (h.step s).1.revision := by
  cases s with
  | feed k d => exact Nat.le_of_eq (h.step_feed_level k d).1.symm
  | publish rev endOfList => exact Nat.le_max_left h.revision rev

/-- Some hubs come one after another, from a hub to another one, and the revision never goes
back. -/
structure Ascends (hubs : List Hub) (first last : Hub) : Prop where
  le : first.revision ≤ last.revision
  above : ∀ h ∈ hubs, first.revision ≤ h.revision
  below : ∀ h ∈ hubs, h.revision ≤ last.revision
  ordered : hubs.Pairwise fun a b => a.revision ≤ b.revision

theorem Ascends.nil (hle : h.revision ≤ h'.revision) : Ascends [] h h' :=
  ⟨hle, fun _ hx => (nomatch hx), fun _ hx => (nomatch hx), .nil⟩

theorem Ascends.append {mid : Hub} {hubs hubs' : List Hub} (ha : Ascends hubs h mid)
    (hb : Ascends hubs' mid h') : Ascends (hubs ++ hubs') h h' where
  le := Nat.le_trans ha.le hb.le
  above x hx := by
    rcases List.mem_append.1 hx with hx | hx
    · exact ha.above x hx
    · exact Nat.le_trans ha.le (hb.above x hx)
  below x hx := by
    rcases List.mem_append.1 hx with hx | hx
    · exact Nat.le_trans (ha.below x hx) hb.le
    · exact hb.below x hx
  ordered := by
    rw [List.pairwise_append]
    refine ⟨ha.ordered, hb.ordered, fun a hx b hy => ?_⟩
    exact Nat.le_trans (ha.below a hx) (hb.above b hy)

/-- One more hub, which is the last. -/
theorem Ascends.snoc {mid : Hub} {hubs : List Hub} (ha : Ascends hubs h mid)
    (hle : mid.revision ≤ h'.revision) : Ascends (hubs ++ [h']) h h' := by
  refine ha.append ⟨hle, fun x hx => ?_, fun x hx => ?_, List.pairwise_singleton _ _⟩
  · rw [List.mem_singleton.1 hx]
    exact hle
  · rw [List.mem_singleton.1 hx]

theorem passes_ascends (ss : List HubStep) (h : Hub) :
    Ascends (passes ss h) h (runSteps ss h).1 := by
  induction ss generalizing h with
  | nil => exact .nil (Nat.le_refl _)
  | cons s ss ih =>
    have hfirst : Ascends [(h.step s).1] h (h.step s).1 :=
      (Ascends.nil (Nat.le_refl _)).snoc (h.step_revision_le s)
    exact hfirst.append (ih (h.step s).1)

/-- **The revision of a hub never goes back**, from one step of its deliveries to another. -/
theorem passesThrough_ascends (ds : List Delivery) (h : Hub) :
    Ascends (passesThrough ds h) h (receiveAll ds h).1 := by
  induction ds generalizing h with
  | nil => exact .nil (Nat.le_refl _)
  | cons d ds ih => exact (passes_ascends (h.steps d) h).append (ih (h.receive d).1)

/-! ## Between two steps -/

/-- What the end of the steps of a delivery may be: the hub publishes a revision, or nothing. -/
def Publishes (rest : List HubStep) : Prop :=
  rest = [] ∨ ∃ rev endOfList, rest = [.publish rev endOfList]

theorem Publishes.no_feed {rest : List HubStep} (h : Publishes rest) (k : Kind) (d : Delivery) :
    HubStep.feed k d ∉ rest := by
  rcases h with rfl | ⟨rev, endOfList, rfl⟩
  · exact List.not_mem_nil
  · simp

/-- Whatever a hub receives, it feeds some caches, and then it may publish a revision. -/
theorem steps_shape (h : Hub) (d : Delivery) :
    ∃ (ks : List Kind) (share : Kind → Delivery) (rest : List HubStep), ks.Nodup ∧
      Publishes rest ∧ h.steps d = ks.map (fun k => .feed k (share k)) ++ rest := by
  cases d with
  | listStart =>
    exact ⟨h.kinds, fun _ => .listStart, [], h.kinds_nodup, .inl rfl, (List.append_nil _).symm⟩
  | record r rev =>
    refine ⟨(h.kindOf? r.key).toList, fun _ => .record r rev, [], ?_, .inl rfl,
      (List.append_nil _).symm⟩
    cases h.kindOf? r.key <;> simp
  | listEnd rev =>
    exact ⟨h.kinds, fun _ => .listEnd rev, [.publish rev true], h.kinds_nodup,
      .inr ⟨rev, true, rfl⟩, rfl⟩
  | commit es =>
    cases hlast : es.getLast? with
    | none =>
      refine ⟨[], fun _ => .commit es, [], List.nodup_nil, .inl rfl, ?_⟩
      simp only [steps, hlast, List.map_nil, List.append_nil]
    | some last =>
      refine ⟨h.kindsSeen es, fun k => .commit (h.eventsOf k es), [.publish last.revision false],
        h.kindsSeen_nodup es, .inr ⟨last.revision, false, rfl⟩, ?_⟩
      simp only [steps, hlast]

/-- A hub between two others: a cache is as in the one or as in the other, and the revision is as in
the first unless the last has been reached. -/
structure Between (first between last : Hub) : Prop where
  caches : ∀ j, between.caches.get j = first.caches.get j ∨
    between.caches.get j = last.caches.get j
  revision : between.revision = first.revision ∨ between = last

theorem mem_passes_shape {ks : List Kind} (hnodup : ks.Nodup) (share : Kind → Delivery)
    {rest : List HubStep} (hrest : Publishes rest)
    (hmem : h' ∈ passes (ks.map (fun k => .feed k (share k)) ++ rest) h) :
    Between h h' (runSteps (ks.map (fun k => .feed k (share k)) ++ rest) h).1 := by
  induction ks generalizing h with
  | nil =>
    rcases hrest with rfl | ⟨rev, endOfList, rfl⟩
    · cases hmem
    · -- what is published is published in the end
      have hlast : h' = (runSteps [.publish rev endOfList] h).1 := List.mem_singleton.1 hmem
      exact ⟨fun j => .inr (congrArg (·.caches.get j) hlast), .inr hlast⟩
  | cons k ks ih =>
    obtain ⟨hk, hks⟩ := List.nodup_cons.1 hnodup
    have hfinal (j : Kind) := runSteps_caches hnodup share hrest.no_feed h j
    have hlevel := (h.step_feed_level k (share k)).1
    -- the first cache has been fed, and all the others are as they were
    have hfirst (j : Kind) : (h.step (.feed k (share k))).1.caches.get j = h.caches.get j ∨
        (h.step (.feed k (share k))).1.caches.get j =
          (runSteps ((k :: ks).map (fun k => .feed k (share k)) ++ rest) h).1.caches.get j := by
      rw [hfinal, step_feed_caches]
      by_cases hj : j = k
      · subst hj
        rw [if_pos rfl, if_pos List.mem_cons_self]
        exact .inr rfl
      · rw [if_neg hj]
        exact .inl rfl
    rcases List.mem_cons.1 hmem with rfl | hmem
    · exact ⟨hfirst, .inl hlevel⟩
    · obtain ⟨hcaches, hrevision⟩ := ih hks hmem
      refine ⟨fun j => ?_, ?_⟩
      · rcases hcaches j with hj | hj
        · rw [hj]
          exact hfirst j
        · exact .inr hj
      · rcases hrevision with hsame | hlast
        · exact .inl (hsame.trans hlevel)
        · exact .inr hlast

/-- **Between the steps of a delivery a cache has got its share or has not**, and the revision of
the hub is the old one unless the delivery is complete. -/
theorem mem_passes {d : Delivery} (hmem : h' ∈ passes (h.steps d) h) :
    Between h h' (h.receive d).1 := by
  obtain ⟨ks, share, rest, hnodup, hrest, hsteps⟩ := h.steps_shape d
  unfold receive
  rw [hsteps] at hmem ⊢
  exact mem_passes_shape hnodup share hrest hmem

theorem mem_passesThrough {ds : List Delivery} (hmem : h' ∈ passesThrough ds h) :
    ∃ done d rest, ds = done ++ d :: rest ∧
      Between (receiveAll done h).1 h' (receiveAll (done ++ [d]) h).1 := by
  induction ds generalizing h with
  | nil => cases hmem
  | cons d ds ih =>
    rcases List.mem_append.1 hmem with hmem | hmem
    · exact ⟨[], d, ds, rfl, mem_passes hmem⟩
    · obtain ⟨done, d', rest, rfl, hbetween⟩ := ih hmem
      exact ⟨d :: done, d', rest, rfl, hbetween⟩

/-! ## Lists and commits -/

theorem runSteps_level (ks : List Kind) (share : Kind → Delivery) (rest : List HubStep) (h : Hub) :
    ∃ h₁, h₁.revision = h.revision ∧ h₁.listReceived = h.listReceived ∧
      (runSteps (ks.map (fun k => .feed k (share k)) ++ rest) h).1 = (runSteps rest h₁).1 := by
  induction ks generalizing h with
  | nil => exact ⟨h, rfl, rfl, rfl⟩
  | cons k ks ih =>
    obtain ⟨h₁, hrevision, hlisted, heq⟩ := ih (h.step (.feed k (share k))).1
    obtain ⟨hrevision', hlisted'⟩ := h.step_feed_level k (share k)
    exact ⟨h₁, hrevision.trans hrevision', hlisted.trans hlisted', heq⟩

/-- The start of a list and its records leave the revision of a hub as it is. -/
theorem receive_opening_level {d : Delivery} (hd : d = .listStart ∨ ∃ r rev, d = .record r rev)
    (h : Hub) :
    (h.receive d).1.revision = h.revision ∧ (h.receive d).1.listReceived = h.listReceived := by
  have hfeeds (ks : List Kind) : (runSteps (ks.map (.feed · d)) h).1.revision = h.revision ∧
      (runSteps (ks.map (.feed · d)) h).1.listReceived = h.listReceived := by
    obtain ⟨h₁, hrevision, hlisted, heq⟩ := runSteps_level ks (fun _ => d) [] h
    rw [List.append_nil] at heq
    rw [heq]
    exact ⟨hrevision, hlisted⟩
  rcases hd with rfl | ⟨r, rev, rfl⟩
  · exact hfeeds h.kinds
  · exact hfeeds (h.kindOf? r.key).toList

/-- The end of a list gives its revision. -/
theorem receive_listEnd_level (h : Hub) (rev : Revision) :
    (h.receive (.listEnd rev)).1.revision = max h.revision rev ∧
      (h.receive (.listEnd rev)).1.listReceived = true := by
  obtain ⟨h₁, hrevision, -, heq⟩ :=
    runSteps_level h.kinds (fun _ => .listEnd rev) [.publish rev true] h
  have hreceive : (h.receive (.listEnd rev)).1 = (runSteps [.publish rev true] h₁).1 := heq
  rw [hreceive, ← hrevision]
  exact ⟨rfl, Bool.or_true _⟩

/-- A commit gives its revision. -/
theorem receive_commit_level {es : List WatchEvent} {rev : Revision} (hne : es ≠ [])
    (hrev : ∀ e ∈ es, e.revision = rev) (h : Hub) :
    (h.receive (.commit es)).1.revision = max h.revision rev ∧
      (h.receive (.commit es)).1.listReceived = h.listReceived := by
  obtain ⟨last, hlast⟩ : ∃ last, es.getLast? = some last :=
    ⟨_, List.getLast?_eq_some_getLast hne⟩
  have hlastRev : last.revision = rev := hrev last (List.mem_of_getLast? hlast)
  obtain ⟨h₁, hrevision, hlisted, heq⟩ := runSteps_level (h.kindsSeen es)
    (fun k => .commit (h.eventsOf k es)) [.publish last.revision false] h
  have hreceive : (h.receive (.commit es)).1 =
      (runSteps [.publish last.revision false] h₁).1 := by
    rw [← heq]
    unfold receive
    simp only [steps, hlast]
  rw [hreceive, ← hrevision, ← hlisted, ← hlastRev]
  exact ⟨rfl, Bool.or_false _⟩

/-- Until its end a list leaves the revision of a hub as it is. -/
theorem receiveAll_opening_level {ds : List Delivery}
    (hds : ∀ d ∈ ds, d = .listStart ∨ ∃ r rev, d = .record r rev) (h : Hub) :
    (receiveAll ds h).1.revision = h.revision ∧
      (receiveAll ds h).1.listReceived = h.listReceived := by
  induction ds generalizing h with
  | nil => exact ⟨rfl, rfl⟩
  | cons d ds ih =>
    have hrest : ∀ x ∈ ds, x = .listStart ∨ ∃ r rev, x = .record r rev := fun x hx =>
      hds x (List.mem_cons_of_mem d hx)
    obtain ⟨hrevision, hlisted⟩ := ih hrest (h.receive d).1
    obtain ⟨hrevision', hlisted'⟩ := receive_opening_level (hds d List.mem_cons_self) h
    exact ⟨hrevision.trans hrevision', hlisted.trans hlisted'⟩

theorem receiveAll_append (ds es : List Delivery) (h : Hub) :
    (receiveAll (ds ++ es) h).1 = (receiveAll es (receiveAll ds h).1).1 := by
  induction ds generalizing h with
  | nil => rfl
  | cons d ds ih => exact ih (h.receive d).1

theorem passesThrough_append (ds es : List Delivery) (h : Hub) :
    passesThrough (ds ++ es) h = passesThrough ds h ++ passesThrough es (receiveAll ds h).1 := by
  induction ds generalizing h with
  | nil => rfl
  | cons d ds ih =>
    rw [List.cons_append, passesThrough, ih, passesThrough, List.append_assoc]
    rfl

variable {rs : List KvRecord} {rev : Revision}

theorem mem_opening {d : Delivery} (hd : d ∈ Delivery.listStart :: rs.map (.record · rev)) :
    d = .listStart ∨ ∃ r rev, d = .record r rev := by
  rcases List.mem_cons.1 hd with rfl | hd
  · exact .inl rfl
  · obtain ⟨r, -, rfl⟩ := List.mem_map.1 hd
    exact .inr ⟨r, rev, rfl⟩

theorem receiveAll_listing_level (rs : List KvRecord) (rev : Revision) (h : Hub) :
    (receiveAll (Delivery.listing rs rev) h).1.revision = max h.revision rev ∧
      (receiveAll (Delivery.listing rs rev) h).1.listReceived = true := by
  have hrecords : ∀ d ∈ Delivery.listStart :: rs.map (.record · rev),
      d = .listStart ∨ ∃ r rev, d = .record r rev := fun d hd => mem_opening hd
  have hopening := receiveAll_opening_level hrecords h
  unfold Delivery.listing
  rw [receiveAll_append, ← hopening.1]
  exact receive_listEnd_level _ rev

/-- **Between the steps of a list a cache has got a first part of it**, and the revision of the hub
is the old one unless the list is complete. -/
theorem mem_passesThrough_listing (hmem : h' ∈ passesThrough (Delivery.listing rs rev) h) :
    (∀ j, ∃ part, part <+: (Delivery.listing rs rev).flatMap (·.shareOf j) ∧
      h'.caches.get j = (h.caches.get j).map (Cache.afterDeliveries part)) ∧
    (h'.revision = h.revision ∨ h' = (receiveAll (Delivery.listing rs rev) h).1) := by
  constructor
  · obtain ⟨done, d, rest, hsplit, hcaches, -⟩ := mem_passesThrough hmem
    intro j
    have hprefix (early late : List Delivery) (hds : Delivery.listing rs rev = early ++ late) :
        early.flatMap (·.shareOf j) <+: (Delivery.listing rs rev).flatMap (·.shareOf j) := by
      rw [hds, List.flatMap_append]
      exact List.prefix_append _ _
    rcases hcaches j with hj | hj
    · exact ⟨done.flatMap (·.shareOf j), hprefix done _ hsplit, by rw [hj, receiveAll_caches]⟩
    · refine ⟨(done ++ [d]).flatMap (·.shareOf j), hprefix (done ++ [d]) rest ?_,
        by rw [hj, receiveAll_caches]⟩
      rw [hsplit, List.append_assoc]
      rfl
  · set opening := Delivery.listStart :: rs.map (.record · rev) with hopening
    have hlevel : (receiveAll opening h).1.revision = h.revision :=
      (receiveAll_opening_level (fun d hd => mem_opening hd) h).1
    have hsplit : Delivery.listing rs rev = opening ++ [.listEnd rev] := rfl
    rw [hsplit, passesThrough_append] at hmem
    rw [hsplit, receiveAll_append]
    rcases List.mem_append.1 hmem with hmem | hmem
    · -- the revision is the same before and after
      obtain ⟨-, habove, hbelow, -⟩ := passesThrough_ascends opening h
      have hle := hbelow h' hmem
      rw [hlevel] at hle
      exact .inl (Nat.le_antisymm hle (habove h' hmem))
    · have hend : h' ∈ passes ((receiveAll opening h).1.steps (.listEnd rev))
          (receiveAll opening h).1 := by
        rcases List.mem_append.1 hmem with hmem | hmem
        · exact hmem
        · cases hmem
      rcases (mem_passes hend).revision with hsame | hlast
      · exact .inl (hsame.trans hlevel)
      · exact .inr hlast

end Hub

end Inventory
