import Inventory.Proofs.Currency
import Inventory.Proofs.Mirror
import Mathlib.Data.List.Chain

/-!
# What a cache hears of a history

Of each commit a cache is told what changes under the prefix of its type, if anything does.

* `Cache.hear`, `Cache.heard`: what a cache shows of a commit, and after each of some commits.
* `Cache.momentsOf_shares`: the moments of a cache with a sync of its own are those at which it has
  heard something.
* `Feed.start_parts`, `Feed.deliver_abreast`: **a feed starts its cache with the list and then tells
  it of the commits**, each once.
-/

namespace Inventory

/-! ## Announcements of deliveries -/

namespace Cache

variable {α : Type} [Entity α]

/-- What a cache announces of some deliveries. -/
def announcedBy : List Delivery → Cache α → List (Announcement α)
  | [], _ => []
  | d :: ds, c => announce (c.receiveDelivery d) ++ announcedBy ds (c.receiveDelivery d).1

theorem announcedBy_append (ds es : List Delivery) (c : Cache α) :
    announcedBy (ds ++ es) c = announcedBy ds c ++ announcedBy es (c.afterDeliveries ds) := by
  induction ds generalizing c with
  | nil => rfl
  | cons d ds ih =>
    rw [List.cons_append, announcedBy, announcedBy, ih, List.append_assoc]
    rfl

/-- A feed that starts receives the list. -/
theorem foldl_received (ds : List Delivery) (c : Cache α) (l : List (Announcement α)) :
    ds.foldl (fun x d => Feed.receive d x) (c, l) =
      (c.afterDeliveries ds, l ++ announcedBy ds c) := by
  induction ds generalizing c l with
  | nil => rw [announcedBy, List.append_nil]; rfl
  | cons d ds ih =>
    rw [List.foldl_cons, announcedBy, ← List.append_assoc]
    exact ih _ _

end Cache

/-! ## Shares of commits -/

/-- What the commits are under a prefix, those that change nothing there left out. -/
def sharesUnder (scope : String) (cs : List (List WatchEvent)) : List (List WatchEvent) :=
  (cs.map (eventsUnder scope)).filter (· ≠ [])

section Shares

variable {scope : String} {es : List WatchEvent}

theorem sharesUnder_cons_of_nil (h : eventsUnder scope es = []) (cs : List (List WatchEvent)) :
    sharesUnder scope (es :: cs) = sharesUnder scope cs := by
  unfold sharesUnder
  rw [List.map_cons, List.filter_cons_of_neg (by simp [h])]

theorem sharesUnder_cons_of_ne_nil (h : eventsUnder scope es ≠ [])
    (cs : List (List WatchEvent)) :
    sharesUnder scope (es :: cs) = eventsUnder scope es :: sharesUnder scope cs := by
  unfold sharesUnder
  rw [List.map_cons, List.filter_cons_of_pos (by simp [h])]

theorem sharesUnder_append (cs ds : List (List WatchEvent)) :
    sharesUnder scope (cs ++ ds) = sharesUnder scope cs ++ sharesUnder scope ds := by
  unfold sharesUnder
  rw [List.map_append, List.filter_append]

/-- A commit that changes nothing changes nothing under a prefix. -/
theorem sharesUnder_all (scope : String) (cs : List (List WatchEvent)) :
    sharesUnder scope (sharesUnder "" cs) = sharesUnder scope cs := by
  induction cs with
  | nil => rfl
  | cons es cs ih =>
    have hall : eventsUnder "" es = es := List.filter_eq_self.2 fun _ _ => rfl
    by_cases hnone : es = []
    · rw [sharesUnder_cons_of_nil (hall.trans hnone), ih,
        sharesUnder_cons_of_nil (by rw [hnone]; rfl)]
    · rw [sharesUnder_cons_of_ne_nil (hall.trans_ne hnone), hall]
      by_cases hshare : eventsUnder scope es = []
      · rw [sharesUnder_cons_of_nil hshare, sharesUnder_cons_of_nil hshare, ih]
      · rw [sharesUnder_cons_of_ne_nil hshare, sharesUnder_cons_of_ne_nil hshare, ih]

end Shares

namespace Cache

variable {α : Type} [Entity α]

/-- A cache is told of the changes of a commit under its prefix, if there are any. -/
def hear (c : Cache α) (es : List WatchEvent) : Moment α :=
  if eventsUnder (Entity.typePrefix α) es = [] then ⟨c, []⟩
  else
    let changed := c.receiveDelivery (.commit (markMore (eventsUnder (Entity.typePrefix α) es)))
    ⟨changed.1, announce changed⟩

/-- What a cache shows after each of some commits. -/
def heard : List (List WatchEvent) → Cache α → List (List WatchEvent × Moment α)
  | [], _ => []
  | es :: cs, c => (markMore es, c.hear es) :: heard cs (c.hear es).cache

/-- A cache after the shares of some commits. -/
def afterShares (c : Cache α) (cs : List (List WatchEvent)) : Cache α :=
  c.afterDeliveries (((sharesUnder (Entity.typePrefix α) cs).map markMore).map .commit)

variable {c : Cache α} {es : List WatchEvent}

theorem hear_of_nil (h : eventsUnder (Entity.typePrefix α) es = []) (c : Cache α) :
    c.hear es = ⟨c, []⟩ := if_pos h

theorem afterShares_cons (es : List WatchEvent) (cs : List (List WatchEvent)) (c : Cache α) :
    c.afterShares (es :: cs) = (c.hear es).cache.afterShares cs := by
  unfold afterShares hear
  by_cases hshare : eventsUnder (Entity.typePrefix α) es = []
  · rw [if_pos hshare, sharesUnder_cons_of_nil hshare]
  · rw [if_neg hshare, sharesUnder_cons_of_ne_nil hshare]
    rfl

theorem afterShares_append (cs ds : List (List WatchEvent)) (c : Cache α) :
    c.afterShares (cs ++ ds) = (c.afterShares cs).afterShares ds := by
  unfold afterShares afterDeliveries
  rw [sharesUnder_append, List.map_append, List.map_append, List.foldl_append]

theorem afterShares_all (cs : List (List WatchEvent)) (c : Cache α) :
    c.afterShares (sharesUnder "" cs) = c.afterShares cs := by
  unfold afterShares
  rw [sharesUnder_all]

theorem heard_append (cs ds : List (List WatchEvent)) (c : Cache α) :
    heard (cs ++ ds) c = heard cs c ++ heard ds (c.afterShares cs) := by
  induction cs generalizing c with
  | nil => rfl
  | cons es cs ih =>
    rw [List.cons_append, heard, heard, ih, List.cons_append, afterShares_cons]

/-- Marking the events of a commit makes no difference to its share. -/
theorem eventsUnder_marked_eq_nil :
    eventsUnder (Entity.typePrefix α) (markMore es) = [] ↔
      eventsUnder (Entity.typePrefix α) es = [] := by
  have htold := told_marked (α := α) es
  unfold told at htold
  rw [← List.map_eq_nil_iff (f := WatchEvent.decode α), htold, List.map_eq_nil_iff]

theorem receiveDelivery_marked (c : Cache α) (es : List WatchEvent) :
    c.receiveDelivery (.commit (eventsUnder (Entity.typePrefix α) (markMore es))) =
      c.receiveDelivery (.commit (markMore (eventsUnder (Entity.typePrefix α) es))) := by
  have hsame : (eventsUnder (Entity.typePrefix α) (markMore es)).map (WatchEvent.decode α) =
      (markMore (eventsUnder (Entity.typePrefix α) es)).map (WatchEvent.decode α) :=
    (told_marked es).trans (told_markMore es).symm
  exact congrArg c.applyCommit hsame

theorem momentsOf_append (gs hs : List (List WatchEvent)) (c : Cache α) :
    momentsOf (gs ++ hs) c =
      momentsOf gs c ++ momentsOf hs (c.afterDeliveries (gs.map .commit)) := by
  induction gs generalizing c with
  | nil => rfl
  | cons g gs ih =>
    rw [List.cons_append, momentsOf, momentsOf, ih]
    rfl

/-- The moments of a sync of its own are those at which a cache has heard something. -/
theorem momentsOf_shares (cs : List (List WatchEvent)) (c : Cache α) :
    momentsOf ((sharesUnder (Entity.typePrefix α) cs).map markMore) c =
      ((heard cs c).filter fun x => eventsUnder (Entity.typePrefix α) x.1 ≠ []).map (·.2) := by
  induction cs generalizing c with
  | nil => rfl
  | cons es cs ih =>
    rw [heard]
    by_cases hshare : eventsUnder (Entity.typePrefix α) es = []
    · rw [sharesUnder_cons_of_nil hshare, List.filter_cons_of_neg (by
        simp [eventsUnder_marked_eq_nil, hshare]), hear_of_nil hshare, ih]
    · rw [sharesUnder_cons_of_ne_nil hshare, List.filter_cons_of_pos (by
        simp [eventsUnder_marked_eq_nil, hshare]), List.map_cons, List.map_cons, momentsOf, ih]
      unfold hear
      rw [if_neg hshare]

/-- Where a cache hears nothing it shows what it has shown before. -/
theorem heard_isChain (es : List WatchEvent) (c : Cache α) (l : List (Announcement α))
    (cs : List (List WatchEvent)) :
    ((es, (⟨c, l⟩ : Moment α)) :: heard cs c).IsChain fun x y =>
      eventsUnder (Entity.typePrefix α) y.1 = [] → y.2 = ⟨x.2.cache, []⟩ := by
  induction cs generalizing es c l with
  | nil => exact .singleton _
  | cons fs cs ih =>
    rw [heard]
    refine .cons_cons (fun hnone => ?_) (ih (markMore fs) (c.hear fs).cache (c.hear fs).announced)
    exact hear_of_nil (eventsUnder_marked_eq_nil.1 hnone) c

end Cache

/-! ## Feeds -/

/-- Tells a cache if the sync that feeds it has ended. -/
def Sync.leave {α : Type} [Entity α] (sync : Sync) (c : Cache α) : Cache α :=
  if sync.outcome.isSome then c.markStopped else c

namespace Feed

variable {α : Type} [Entity α] {f : Feed α} {who : Subscriber} {s₀ s : Store}
  {done late : List Op} {c : Cache α}

/-- What a feed does to the store is nobody else's concern. -/
theorem deliver_frame (f : Feed α) (s : Store) :
    (f.deliver s).2.2.SameKeys s ∧
      ∀ (who : Subscriber) (scope : String) (backlog : List WatchEvent),
        who ≠ f.sync.subscriber → s.Watching who scope backlog →
          (f.deliver s).2.2.Watching who scope backlog := by
  unfold deliver
  split
  · exact ⟨⟨rfl, rfl, rfl⟩, fun _ _ _ _ hw => hw⟩
  · exact Sync.deliver_frame _ _ f.sync s _

/-- A feed delivers what waits for it. -/
theorem deliver_abreast (ha : f.sync.Abreast who (Entity.typePrefix α) s₀ done late s)
    (hc : f.cache = f.sync.leave c) :
    (f.deliver s).1.sync.Abreast who (Entity.typePrefix α) s₀ (done ++ late) []
        (f.deliver s).2.2 ∧
      (f.deliver s).1.cache =
        (f.deliver s).1.sync.leave (c.afterShares (Op.log late (Op.runAll done s₀))) ∧
      f.moments s = Cache.momentsOf ((Op.commitsUnder (Entity.typePrefix α) late
        (Op.runAll done s₀)).map markMore) c ∧
      (f.deliver s).2.1 = (f.moments s).flatMap (·.announced) := by
  obtain ⟨sync', s', hdeliver, ha'⟩ := ha.deliver
  have hmoments : f.moments s = Cache.momentsOf ((Op.commitsUnder (Entity.typePrefix α) late
      (Op.runAll done s₀)).map markMore) f.cache := by
    unfold moments
    rw [hdeliver _ _ _ _ fun _ => rfl, Cache.foldl_moments, List.nil_append]
  by_cases hnone : f.sync.outcome = none
  · have hlive : f.cache = c := by
      rw [hc]
      unfold Sync.leave
      rw [hnone]
      rfl
    have hdelivered : (f.deliver s).1 = settled ⟨sync', c.afterShares
        (Op.log late (Op.runAll done s₀))⟩ ∧ (f.deliver s).2.2 = s' ∧
        (f.deliver s).2.1 = (f.moments s).flatMap (·.announced) := by
      rw [hmoments]
      unfold deliver
      rw [hnone, hdeliver _ _ _ _ fun _ => rfl, Cache.foldl_receive, hlive]
      exact ⟨rfl, rfl, rfl⟩
    have hsettled : (f.deliver s).1.sync = sync' ∧ (f.deliver s).1.cache =
        sync'.leave (c.afterShares (Op.log late (Op.runAll done s₀))) := by
      rw [hdelivered.1]
      unfold settled Sync.leave
      simp only
      split <;> exact ⟨rfl, rfl⟩
    rw [hsettled.1, hdelivered.2.1, hdelivered.2.2, hmoments, hlive]
    exact ⟨ha', hsettled.2, rfl, rfl⟩
  · have hclosed := ha.ended hnone
    have hnothing := Op.commitsUnder_of_closed hclosed (Entity.typePrefix α) late
    have hkept : f.deliver s = (f, [], s) := if_pos (Option.isSome_iff_ne_none.2 hnone)
    have hsame := hdeliver Unit (fun _ => false) (fun _ x => x) () fun _ => rfl
    rw [Sync.deliver_of_ended hnone] at hsame
    obtain ⟨rfl, hrest⟩ := Prod.ext_iff.1 hsame
    obtain ⟨rfl, -⟩ := Prod.ext_iff.1 hrest
    rw [hkept, hmoments, hnothing]
    refine ⟨ha', ?_, rfl, rfl⟩
    have hlast : c.afterShares (Op.log late (Op.runAll done s₀)) = c := by
      show c.afterDeliveries (((Op.commitsUnder _ late _).map markMore).map .commit) = c
      rw [hnothing]
      rfl
    rw [hlast]
    exact hc

/-- A feed starts with the list. -/
theorem start_parts (c : Cache α) (who : Subscriber) (s : Store) :
    (start c who s).1.sync = (Sync.start who (Entity.typePrefix α) s).1 ∧
      (start c who s).1.cache = (Sync.start who (Entity.typePrefix α) s).1.leave
        (c.afterDeliveries (Sync.start who (Entity.typePrefix α) s).2.1) ∧
      (start c who s).2.1 = c.announcedBy (Sync.start who (Entity.typePrefix α) s).2.1 ∧
      (start c who s).2.2 = (Sync.start who (Entity.typePrefix α) s).2.2 := by
  set listed := Sync.start who (Entity.typePrefix α) s with hlisted
  have hfed := Cache.foldl_received listed.2.1 c []
  rw [List.nil_append] at hfed
  have hstart : start c who s = (settled ⟨listed.1, c.afterDeliveries listed.2.1⟩,
      c.announcedBy listed.2.1, listed.2.2) := by
    unfold start
    rw [← hlisted]
    simp only
    rw [hfed]
  have hsettled : (settled ⟨listed.1, c.afterDeliveries listed.2.1⟩).sync = listed.1 ∧
      (settled ⟨listed.1, c.afterDeliveries listed.2.1⟩).cache =
        listed.1.leave (c.afterDeliveries listed.2.1) := by
    unfold settled Sync.leave
    split <;> exact ⟨rfl, rfl⟩
  rw [hstart]
  exact ⟨hsettled.1, hsettled.2, rfl, rfl⟩

end Feed

end Inventory
