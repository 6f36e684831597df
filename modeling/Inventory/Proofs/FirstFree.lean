import Inventory.Proofs.Alone
import Inventory.Proofs.Label
import Inventory.Proofs.Reading
import Mathlib.Data.List.Infix

/-!
# The first free candidate

A transaction that looks for a free label or id asks for one candidate after another. What it sees
under the key of a reservation is what it has planned, else what it found before, else what the
store holds then, and others may use the store between its questions.

* `Running.Looked`: a transaction that has done nothing but look. What it knew it still knows, and
  **what it has learned was there at some moment since**.
* `Label.run_firstFree`: the search comes to the first candidate that is free, where a candidate
  that was found taken stays so.
* `Generator.GivesFirst`: what it means that a call gives the first free candidate.
* `first_free_candidate_is_given`: **the calls that give out labels and ids do so**, a label has 1
  to 63 bytes, and no id is given twice in a transaction.
-/

namespace Inventory

/-! ## Looking -/

namespace Shared

variable {w w' w'' : Shared} {s : Store} {ops : List Op}

theorem Moment.later (h : w.Moment w' s) (h' : w'.Turns ops w'') : w.Moment w'' s := by
  obtain ⟨early, late, hturns, hs⟩ := h
  have hall := hturns.trans h'
  rw [List.append_assoc] at hall
  exact ⟨early, late ++ ops, hall, hs⟩

theorem Moment.earlier (h : w.Turns ops w') (h' : w'.Moment w'' s) : w.Moment w'' s := by
  obtain ⟨early, late, hturns, hs⟩ := h'
  have hall := h.trans hturns
  rw [← List.append_assoc] at hall
  refine ⟨ops ++ early, late, hall, ?_⟩
  rw [hs, h.store, Op.runAll_append]

/-- If there are no others, nothing happens between two turns. -/
theorem Turns.alone (h : w.Turns ops w') (hw : w.others = []) : ops = [] ∧ w' = w := by
  induction h with
  | none w => exact ⟨rfl, rfl⟩
  | @more w w' ops rest ih =>
    have hnext : w.next = [] := by
      unfold next
      rw [hw]
      rfl
    have hturn : w.turn = w := by
      obtain ⟨store, others⟩ := w
      obtain rfl : others = [] := hw
      rfl
    rw [hturn] at ih
    obtain ⟨hops, hsame⟩ := ih hw
    rw [hnext, hops]
    exact ⟨rfl, hsame⟩

theorem Moment.alone (h : w.Moment w' s) (hw : w.others = []) : s = w.store := by
  obtain ⟨early, late, hturns, hs⟩ := h
  obtain ⟨hops, -⟩ := hturns.alone hw
  rw [(List.append_eq_nil_iff.1 hops).1] at hs
  exact hs

end Shared

theorem Session.known?_observe {t : Session} {key : String} (h : t.known? key = none)
    (found : Option Stored) (k : String) :
    (t.observe key found).known? k =
      if k = key then some (found.map (·.value)) else t.known? k := by
  unfold known?
  rw [getElem?_observe]
  by_cases hk : k = key
  · rw [if_pos hk, if_pos hk, hk]
    have hunplanned : t.writes[key]? = none := not_planned_of_unknown h
    have hwrites : (t.observe key found).writes[key]? = none := hunplanned
    rw [hwrites]
    rfl
  · rw [if_neg hk, if_neg hk]
    rfl

namespace Running

/-- What a transaction sees under a key: what it has planned, else what it found before, else what
the store holds. -/
def view (r : Running) (key : String) : Option Bytes :=
  (r.session.known? key).getD (r.store.contents[key]?.map (·.value))

/-- The store is open, and stays so whatever turns the others take. -/
def StaysOpen (r : Running) : Prop :=
  ∀ (ops : List Op) (w : Shared), r.toShared.Turns ops w → w.store.closed = false

/-- A transaction has done nothing but look. -/
structure Looked (r r' : Running) : Prop where
  /-- The others may have taken some turns. -/
  turns : ∃ ops, r.toShared.Turns ops r'.toShared
  /-- It plans what it planned before. -/
  writes : r'.session.writes = r.session.writes
  /-- It knows what it knew before. -/
  kept : ∀ (key : String) (value : Option Bytes), r.session.known? key = some value →
    r'.session.known? key = some value
  /-- What else it sees was in the store at some moment since. -/
  seen : ∀ key, ∃ s, r.toShared.Moment r'.toShared s ∧
    r'.view key = (r.session.known? key).getD (s.contents[key]?.map (·.value))

variable {r r' r'' : Running} {key : String}

theorem view_of_known {value : Option Bytes} (h : r.session.known? key = some value) :
    r.view key = value := by
  unfold view
  rw [h]
  rfl

theorem Looked.refl (r : Running) : r.Looked r where
  turns := ⟨[], .none _⟩
  writes := rfl
  kept _ _ h := h
  seen _ := ⟨r.store, ⟨[], [], .none _, rfl⟩, rfl⟩

theorem Looked.trans (h : r.Looked r') (h' : r'.Looked r'') : r.Looked r'' := by
  obtain ⟨early, hearly⟩ := h.turns
  obtain ⟨late, hlate⟩ := h'.turns
  refine ⟨⟨early ++ late, hearly.trans hlate⟩, h'.writes.trans h.writes,
    fun key value hk => h'.kept key value (h.kept key value hk), fun key => ?_⟩
  cases hk : r'.session.known? key with
  | some value =>
    -- what the first look told stays
    obtain ⟨s, hs, hview⟩ := h.seen key
    refine ⟨s, hs.later hlate, ?_⟩
    rw [← hview, view_of_known hk, view_of_known (h'.kept key value hk)]
  | none =>
    have hunknown : r.session.known? key = none := by
      cases hfirst : r.session.known? key with
      | none => rfl
      | some value => rw [h.kept key value hfirst] at hk; cases hk
    obtain ⟨s, hs, hview⟩ := h'.seen key
    refine ⟨s, hs.earlier hearly, ?_⟩
    rw [hview, hk, hunknown]

theorem Looked.view_of_known {value : Option Bytes} (h : r.Looked r')
    (hk : r.session.known? key = some value) : r'.view key = value :=
  Running.view_of_known (h.kept key value hk)

theorem StaysOpen.looked (h : r.StaysOpen) (hr' : r.Looked r') : r'.StaysOpen := by
  obtain ⟨ops, hturns⟩ := hr'.turns
  exact fun more w hw => h (ops ++ more) w (hturns.trans hw)

theorem StaysOpen.plan (h : r.StaysOpen) (key : String) (value : Option Bytes) :
    (r.plan key value).StaysOpen := h

/-- The store stays open if it is open whatever first part of their operations the others have
done. -/
theorem StaysOpen.of_others
    (h : ∀ ops, ops <+: r.others.flatten → (Op.runAll ops r.store).closed = false) :
    r.StaysOpen := by
  intro ops w hturns
  rw [hturns.store]
  exact h ops ⟨w.others.flatten, hturns.others⟩

/-- Without others the store is as it was, and so is all that the transaction sees. -/
theorem Looked.alone (h : r.Looked r') (hr : r.others = []) :
    r'.toShared = r.toShared ∧ ∀ key, r'.view key = r.view key := by
  obtain ⟨ops, hturns⟩ := h.turns
  refine ⟨(hturns.alone hr).2, fun key => ?_⟩
  obtain ⟨s, hs, hview⟩ := h.seen key
  rw [hview, hs.alone hr]
  rfl

/-- A transaction that has asked the store for a key. -/
def asked (r : Running) (key : String) : Running :=
  ⟨r.toShared.turn, r.session.observe key r.toShared.turn.store.contents[key]?⟩

theorem known?_asked (h : r.session.known? key = none) (k : String) :
    (r.asked key).session.known? k =
      if k = key then some (r.toShared.turn.store.contents[key]?.map (·.value))
      else r.session.known? k :=
  Session.known?_observe h _ k

theorem view_asked (h : r.session.known? key = none) (k : String) :
    (r.asked key).view k =
      (r.session.known? k).getD (r.toShared.turn.store.contents[k]?.map (·.value)) := by
  unfold view
  rw [known?_asked h]
  by_cases hk : k = key
  · rw [if_pos hk, hk, h]
    rfl
  · rw [if_neg hk]
    rfl

theorem Looked.asked (h : r.session.known? key = none) : r.Looked (r.asked key) := by
  have hturn := (Shared.Turns.none r.toShared).turn
  refine ⟨⟨_, hturn⟩, rfl, fun k value hv => ?_, fun k => ?_⟩
  · have hne : k ≠ key := by
      rintro rfl
      rw [h] at hv
      cases hv
    rw [known?_asked h, if_neg hne]
    exact hv
  · exact ⟨r.toShared.turn.store, hturn.moment, view_asked h k⟩

/-- **A read looks**, and from then on the transaction knows what it saw. -/
theorem StaysOpen.get (hr : r.StaysOpen) (key : String) :
    (r.get key).1 = .ok ((r.get key).2.view key) ∧ r.Looked (r.get key).2 ∧
      (r.get key).2.session.known? key = some ((r.get key).2.view key) := by
  cases hk : r.session.known? key with
  | some value =>
    rw [get_of_known hk, view_of_known hk]
    exact ⟨rfl, .refl r, hk⟩
  | none =>
    have hopen : r.toShared.turn.store.closed = false := hr _ _ (Shared.Turns.none _).turn
    have hget : r.get key =
        (.ok (r.toShared.turn.store.contents[key]?.map (·.value)), r.asked key) :=
      get_of_unknown hk hopen
    have hview : (r.asked key).view key =
        r.toShared.turn.store.contents[key]?.map (·.value) := by
      rw [view_asked hk, hk]
      rfl
    rw [hget, hview]
    refine ⟨rfl, .asked hk, ?_⟩
    rw [known?_asked hk, if_pos rfl]

end Running

/-! ## Asking for candidates -/

open Running

theorem Reservation.run_isMade {r : Running} (hr : r.StaysOpen) (x : Reservation) :
    x.isMade.run r = (.ok ((r.get x.storeKey).2.view x.storeKey).isSome, (r.get x.storeKey).2) := by
  obtain ⟨hanswer, -, -⟩ := hr.get x.storeKey
  have hread : (Program.read x.storeKey).run r =
      (.ok ((r.get x.storeKey).2.view x.storeKey), (r.get x.storeKey).2) := by
    show (Program.ofExcept (r.get x.storeKey).1.lift).run (r.get x.storeKey).2 = _
    rw [Program.run_ofExcept, hanswer]
    rfl
  unfold isMade
  rw [Program.run_bind, hread]
  rfl

namespace Label

/-- A test of candidates looks whether they are free, and tells if they are not. From then on the
transaction knows. -/
def Tests (taken : String → Program Bool) (isFree : Running → String → Bool) : Prop :=
  ∀ (r : Running) (name : String), r.StaysOpen → ∃ r', r.Looked r' ∧
    (taken name).run r = (.ok !isFree r' name, r') ∧
    ∀ later, r'.Looked later → isFree later name = isFree r' name

/-- A reservation is not made, as the transaction sees it. -/
def isUnmade (reservation : String → Reservation) (r : Running) (name : String) : Bool :=
  (r.view (reservation name).storeKey).isNone

/-- A label is neither the load balancer's nor reserved, as the transaction sees it. -/
def isAvailable (reservation : String → Reservation) (r : Running) (name : String) : Bool :=
  name != sharedHost && isUnmade reservation r name

theorem tests_isUnmade (reservation : String → Reservation) :
    Tests (fun name => (reservation name).isMade) (isUnmade reservation) := by
  intro r name hr
  obtain ⟨-, hlooked, hknown⟩ := hr.get (reservation name).storeKey
  refine ⟨(r.get (reservation name).storeKey).2, hlooked, ?_, fun later hlater => ?_⟩
  · rw [Reservation.run_isMade hr, isUnmade, Option.not_isNone]
  · unfold isUnmade
    rw [hlater.view_of_known hknown]

theorem tests_isAvailable (reservation : String → Reservation) :
    Tests (fun name => if name == sharedHost then pure true else (reservation name).isMade)
      (isAvailable reservation) := by
  intro r name hr
  by_cases hshared : name = sharedHost
  · -- nothing is asked
    subst hshared
    exact ⟨r, .refl r, rfl, fun _ _ => rfl⟩
  · obtain ⟨r', hlooked, hrun, hstays⟩ := tests_isUnmade reservation r name hr
    have hfree (r : Running) : isAvailable reservation r name = isUnmade reservation r name := by
      unfold isAvailable
      rw [bne_iff_ne.2 hshared, Bool.true_and]
    refine ⟨r', hlooked, ?_, fun later hlater => ?_⟩
    · rw [hfree, ← hrun]
      show (if name == sharedHost then pure true else (reservation name).isMade :
        Program Bool).run r = _
      rw [if_neg (beq_iff_eq.not.2 hshared)]
    · rw [hfree, hfree, hstays later hlater]

/-- **The search comes to the first candidate that is free.** A candidate before it was found taken,
and is still known to be. -/
theorem run_firstFree {taken : String → Program Bool} {isFree : Running → String → Bool}
    (htaken : Tests taken isFree) (cs : List (List Char)) {r : Running} (hr : r.StaysOpen) :
    ∃ looked, r.Looked looked ∧ (firstFree taken cs).run r =
      (.ok ((cs.map String.ofList).find? (isFree looked)), looked) := by
  induction cs generalizing r with
  | nil => exact ⟨r, .refl r, rfl⟩
  | cons cand cs ih =>
    obtain ⟨r', hlooked, hrun, hstays⟩ := htaken r (String.ofList cand) hr
    rw [List.map_cons]
    unfold firstFree
    cases hfree : isFree r' (String.ofList cand) with
    | true =>
      -- the search ends here
      refine ⟨r', hlooked, ?_⟩
      rw [List.find?_cons_of_pos hfree, Program.run_bind, hrun, hfree]
      rfl
    | false =>
      obtain ⟨looked, hlate, hrest⟩ := ih (hr.looked hlooked)
      -- what was found taken is known to the end of the search
      have htakenStill : ¬ isFree looked (String.ofList cand) = true := by
        rw [hstays looked hlate, hfree]
        exact Bool.false_ne_true
      refine ⟨looked, hlooked.trans hlate, ?_⟩
      rw [List.find?_cons_of_neg htakenStill, Program.run_bind, hrun, hfree]
      exact hrest

end Label

/-! ## Calls that give something out -/

/-- A call that gives a label or an id to an object of a type. -/
structure Generator (α : Type) where
  call : Program (StoreResult Unit × α)
  /-- The object with a value for the label or id. -/
  set : String → α
  candidates : List String
  isFree : Running → String → Bool
  /-- What becomes of the transaction if a candidate is given. -/
  take : String → Running → Running

/-- Giving a cloudlet a label. -/
def Cloudlet.labelGenerator (c : Cloudlet) : Generator Cloudlet where
  call := c.assignLabel
  set label := { c with dnsLabel := label }
  candidates := (Label.candidates c.key.labelBase).map String.ofList
  isFree := Label.isAvailable .cloudletLabel
  take _ r := r

/-- Giving an instance a label. -/
def AppInst.labelGenerator (i : AppInst) : Generator AppInst where
  call := i.assignLabel
  set label := { i with dnsLabel := label }
  candidates := (Label.candidates i.key.labelBase).map String.ofList
  isFree := Label.isAvailable (.instanceLabel i.key.cloudletKey)
  take _ r := r

/-- Giving an instance an id, which is planned to be reserved. -/
def AppInst.idGenerator (i : AppInst) : Generator AppInst where
  call := i.assignId
  set id := { i with uniqueId := id }
  candidates := i.key.idCandidates.map String.ofList
  isFree := Label.isUnmade .instanceId
  take id r := r.plan (Reservation.instanceId id).storeKey (some (Text.utf8 id))

namespace Generator

variable {α : Type} {g : Generator α} {r seer : Running}

/-- What a call comes to: the object with the candidate that was found, or a refusal and the object
with none. -/
def outcome (g : Generator α) (message : String) (r : Running) :
    Option String → StoreResult (StoreResult Unit × α) × Running
  | some name => (.ok (.ok (), g.set name), g.take name r)
  | none => (.ok (.error (.invalid message), g.set ""), r)

/-- A call gives the first of its candidates that is free, as the transaction sees it when it has
looked. -/
structure GivesFirst (g : Generator α) (r seer : Running) : Prop where
  /-- There are ten candidates. -/
  ten : g.candidates.length = 10
  looked : r.Looked seer
  /-- If nobody else uses the store, it sees what it saw before the call. -/
  alone : r.others = [] → seer.toShared = r.toShared ∧ ∀ key, seer.view key = r.view key
  /-- The call succeeds if one of the candidates is free. -/
  succeeds : (∃ a, (g.call.run r).1 = .ok (.ok (), a)) ↔
    ∃ name ∈ g.candidates, g.isFree seer name = true
  /-- Then it gives the first one that is free. -/
  first : ∃ message,
    g.call.run r = g.outcome message seer (g.candidates.find? (g.isFree seer))

/-- A call that searches through its candidates and then finishes. -/
theorem givesFirst {taken : String → Program Bool} {cs : List (List Char)} {message : String}
    {finish : Option String → Program String} (htaken : Label.Tests taken g.isFree)
    (hcs : g.candidates = cs.map String.ofList) (hten : cs.length = 10)
    (hcall : g.call = Label.setTo g.set (Label.firstFree taken cs >>= finish))
    (hnone : ∀ r, (finish none).run r = (.error (.invalid message), r))
    (hsome : ∀ name r, (finish (some name)).run r = (.ok name, g.take name r))
    (hr : r.StaysOpen) : ∃ seer, g.GivesFirst r seer := by
  obtain ⟨seer, hlooked, hsearch⟩ := Label.run_firstFree htaken cs hr
  rw [← hcs] at hsearch
  have hrun : g.call.run r = g.outcome message seer (g.candidates.find? (g.isFree seer)) := by
    rw [hcall, Label.run_setTo, Program.run_bind, hsearch]
    cases g.candidates.find? (g.isFree seer) with
    | none => simp only [hnone, outcome]
    | some name => simp only [hsome, outcome]
  refine ⟨seer, ?_, hlooked, hlooked.alone, ?_, message, hrun⟩
  · rw [hcs, List.length_map, hten]
  · rw [← List.find?_isSome, hrun]
    cases g.candidates.find? (g.isFree seer) with
    | some name => exact ⟨fun _ => rfl, fun _ => ⟨g.set name, rfl⟩⟩
    | none =>
      constructor
      · rintro ⟨a, ha⟩
        cases ha
      · intro hfound
        cases hfound

/-- What is given was free. -/
theorem GivesFirst.of_ok (h : g.GivesFirst r seer) {a : α}
    (hrun : (g.call.run r).1 = .ok (.ok (), a)) :
    ∃ name, g.isFree seer name = true ∧ a = g.set name ∧
      (g.call.run r).2 = g.take name seer := by
  obtain ⟨message, hfirst⟩ := h.first
  rw [hfirst] at hrun ⊢
  cases hfind : g.candidates.find? (g.isFree seer) with
  | none =>
    rw [hfind] at hrun
    cases hrun
  | some name =>
    rw [hfind] at hrun
    cases hrun
    exact ⟨name, List.find?_some hfind, rfl, rfl⟩

end Generator

theorem Cloudlet.gives_first_label (c : Cloudlet) {r : Running} (hr : r.StaysOpen) :
    ∃ seer, c.labelGenerator.GivesFirst r seer :=
  Generator.givesFirst (Label.tests_isAvailable .cloudletLabel) rfl
    (Label.length_candidates c.key.labelBase) rfl (fun _ => rfl) (fun _ _ => rfl) hr

theorem AppInst.gives_first_label (i : AppInst) {r : Running} (hr : r.StaysOpen) :
    ∃ seer, i.labelGenerator.GivesFirst r seer :=
  Generator.givesFirst (Label.tests_isAvailable (.instanceLabel i.key.cloudletKey)) rfl
    (Label.length_candidates i.key.labelBase) rfl (fun _ => rfl) (fun _ _ => rfl) hr

theorem AppInst.gives_first_id (i : AppInst) {r : Running} (hr : r.StaysOpen) :
    ∃ seer, i.idGenerator.GivesFirst r seer :=
  Generator.givesFirst (Label.tests_isUnmade .instanceId) rfl
    ((List.length_map _).trans List.length_range) rfl (fun _ => rfl) (fun _ _ => rfl) hr

/-- A label has 1 to 63 bytes. -/
def Label.Sized (label : String) : Prop :=
  1 ≤ (Text.utf8 label).length ∧ (Text.utf8 label).length ≤ 63

theorem Label.sized_candidate {base : List Char} (hbase : base ≠ []) :
    ∀ label ∈ (candidates base).map String.ofList, Sized label := by
  intro label hlabel
  obtain ⟨cand, hcand, rfl⟩ := List.mem_map.1 hlabel
  unfold Sized
  rw [Text.length_utf8_ofList]
  exact ⟨byteLength_candidate_pos hbase hcand, byteLength_candidate hcand⟩

/-- A reservation that is planned is not free. -/
theorem Label.isUnmade_of_planned (reservation : String → Reservation) {r seer : Running}
    {name : String} {value : Bytes} (hlooked : r.Looked seer)
    (h : r.session.writes[(reservation name).storeKey]? = some (some value)) :
    isUnmade reservation seer name = false := by
  have hknown : r.session.known? (reservation name).storeKey = some (some value) := by
    unfold Session.known?
    rw [h]
  unfold isUnmade
  rw [hlooked.view_of_known hknown]
  rfl

/-- **The first free candidate is given.** A transaction has planned and read whatever it may, the
store is open and holds anything, and others use it meanwhile. Then a call that gives out a label or
an id succeeds exactly if one of its ten candidates is free in the eyes of the transaction: nothing
is reserved under it, and it is not the label of the load balancer. The call gives the first one
that is free, and changes nothing else of the object; otherwise it is refused, and the object has no
label or id. A label has 1 to 63 bytes, and to give it plans no write. An id is planned to be
reserved; as long as that is planned, no instance is given it. -/
theorem first_free_candidate_is_given (r : Running) (hr : r.StaysOpen) :
    (∀ c : Cloudlet, (∃ seer, c.labelGenerator.GivesFirst r seer) ∧
      ∀ label ∈ c.labelGenerator.candidates, Label.Sized label) ∧
    (∀ i : AppInst, (∃ seer, i.labelGenerator.GivesFirst r seer) ∧
      ∀ label ∈ i.labelGenerator.candidates, Label.Sized label) ∧
    (∀ i : AppInst, (∃ seer, i.idGenerator.GivesFirst r seer) ∧
      ∀ i' : AppInst, (i.assignId.run r).1 = .ok (.ok (), i') →
        (i.assignId.run r).2.StaysOpen ∧
        ∀ later : Running, later.StaysOpen →
          later.session.writes[(Reservation.instanceId i'.uniqueId).storeKey]? =
            (i.assignId.run r).2.session.writes[(Reservation.instanceId i'.uniqueId).storeKey]? →
          ∀ j j' : AppInst, (j.assignId.run later).1 = .ok (.ok (), j') →
            j'.uniqueId ≠ i'.uniqueId) := by
  refine ⟨fun c => ⟨c.gives_first_label hr, Label.sized_candidate c.key.labelBase_ne_nil⟩,
    fun i => ⟨i.gives_first_label hr, Label.sized_candidate i.key.labelBase_ne_nil⟩,
    fun i => ⟨i.gives_first_id hr, fun i' hi => ?_⟩⟩
  obtain ⟨seer, hgives⟩ := i.gives_first_id hr
  obtain ⟨id, -, rfl, hafter⟩ := hgives.of_ok hi
  have hafter : (i.assignId.run r).2 =
      seer.plan (Reservation.instanceId id).storeKey (some (Text.utf8 id)) := hafter
  rw [hafter]
  refine ⟨(hr.looked hgives.looked).plan _ _, fun later hlater hkept j j' hj hsame => ?_⟩
  -- the second search sees the reservation that is planned
  obtain ⟨seer', hgives'⟩ := j.gives_first_id hlater
  obtain ⟨id', hfree, rfl, -⟩ := hgives'.of_ok hj
  have hplanned : later.session.writes[(Reservation.instanceId id).storeKey]? =
      some (some (Text.utf8 id)) := hkept.trans Std.ExtTreeMap.getElem?_insert_self
  have hid : id' = id := hsame
  have htaken := Label.isUnmade_of_planned .instanceId hgives'.looked hplanned
  rw [← hid] at htaken
  exact Bool.false_ne_true (htaken.symm.trans hfree)

namespace Quay

/-- A cloudlet whose label is to be replaced. -/
def cloudlet : Cloudlet := ⟨[], ⟨⟨"o"⟩, "c"⟩, "", ⟨.zero, .zero, .zero⟩, "old"⟩

/-- An instance on it. -/
def crane : AppInst :=
  ⟨[], ⟨⟨⟨"d"⟩, "a", ""⟩, cloudlet.key⟩, cloudlet.location, "", ⟨""⟩, "", "", .dynamic⟩

/-- The key of the reservation of a label. -/
def keyOf (label : String) : String := (Reservation.cloudletLabel label).storeKey

/-- A transaction that plans to reserve one label and to give up another. Somebody else is going to
reserve a third. -/
def busy : Running where
  store := (Op.run (.put (keyOf "c-o2") []) .empty).2
  others := [[.put (keyOf "c-o1") []]]
  session := ((Session.start 1).plan (keyOf "c-o") (some [])).plan (keyOf "c-o2") none

theorem staysOpen : busy.StaysOpen := by
  refine .of_others fun ops hops => ?_
  have hall : ∀ ops ∈ busy.others.flatten.inits, (Op.runAll ops busy.store).closed = false := by
    decide +kernel
  exact hall ops ((List.mem_inits _ _).2 hops)

end Quay

/-- The cloudlet gets the label that is given up, and two instances with one key get different
ids. -/
theorem first_free_candidate_is_given_on_a_quay :
    Quay.busy.StaysOpen ∧
    (∃ seer, Quay.cloudlet.labelGenerator.GivesFirst Quay.busy seer) ∧
    (Quay.cloudlet.assignLabel.run Quay.busy).1 =
      .ok (.ok (), { Quay.cloudlet with dnsLabel := "c-o2" }) ∧
    (Quay.crane.assignId.run Quay.busy).1 =
      .ok (.ok (), { Quay.crane with uniqueId := "da-c-o" }) ∧
    ∀ other : AppInst,
      (Quay.crane.assignId.run (Quay.crane.assignId.run Quay.busy).2).1 = .ok (.ok (), other) →
        other.uniqueId ≠ "da-c-o" := by
  obtain ⟨hcloudlets, -, hids⟩ := first_free_candidate_is_given Quay.busy Quay.staysOpen
  have hfirst : (Quay.crane.assignId.run Quay.busy).1 =
      .ok (.ok (), { Quay.crane with uniqueId := "da-c-o" }) := rfl
  obtain ⟨hopen, hdifferent⟩ := (hids Quay.crane).2 _ hfirst
  exact ⟨Quay.staysOpen, (hcloudlets Quay.cloudlet).1, rfl, hfirst,
    hdifferent _ hopen rfl Quay.crane⟩

end Inventory
