import Inventory.Label.Assign
import Inventory.Proofs.Serial
import Inventory.Transaction.Objects

/-!
# Programs that have the store for themselves

What each step of a program does if it is not disturbed, and what the programs do that give out
labels and ids.

* `Running.Alone`: a transaction that has an open store for itself, and the writes it plans.
* `Program.run_bind_ok`: a program that ends well has parts that end well.
* `Alone.pick`, `Alone.pickId`: **a label or id that was given out is not reserved**, neither in the
  store nor by the transaction itself.
-/

namespace Inventory

/-- What a transaction plans to write under each key: a value, or a delete. -/
abbrev Planned := Std.ExtTreeMap String (Option Bytes)

namespace Planned

/-- What a transaction sees under a key that plans some writes and has a store for itself. -/
def sees (ws : Planned) (m : Contents) (key : String) : Option Bytes :=
  ws[key]?.getD (m[key]?.map (·.value))

theorem sees_insert (ws : Planned) (m : Contents) (key : String) (value : Option Bytes)
    (k : String) :
    sees (ws.insert key value) m k = if k = key then value else ws.sees m k := by
  unfold sees
  rw [Contents.getElem?_insert]
  split <;> rfl

theorem sees_empty (m : Contents) (key : String) :
    sees ∅ m key = m[key]?.map (·.value) := by
  unfold sees
  rw [Std.ExtTreeMap.getElem?_empty]
  rfl

end Planned

/-- A transaction under way that has an open store for itself, and what it plans. -/
structure Running.Alone (r : Running) (s : Store) (ws : Planned) : Prop where
  opened : s.closed = false
  shared : r.toShared = .quiet s
  current : r.session.Current s.contents
  planned : r.session.writes = ws

namespace Program

variable {α β : Type} {r r' : Running}

/-- A program that ends well has parts that end well. -/
theorem run_bind_ok {p : Program α} {f : α → Program β} {b : β}
    (h : (p >>= f).run r = (.ok b, r')) :
    ∃ a r₁, p.run r = (.ok a, r₁) ∧ (f a).run r₁ = (.ok b, r') := by
  rw [run_bind] at h
  cases hp : p.run r with
  | mk result r₁ =>
    rw [hp] at h
    cases result with
    | error e => cases h
    | ok a => exact ⟨a, r₁, rfl, h⟩

theorem run_pure_ok {a b : α} (h : (Pure.pure a : Program α).run r = (.ok b, r')) :
    b = a ∧ r' = r := by
  obtain ⟨h1, h2⟩ := Prod.mk.inj h
  exact ⟨(Except.ok.inj h1).symm, h2.symm⟩

theorem run_ofExcept_ok {x : StoreResult α} {a : α} (h : (ofExcept x).run r = (.ok a, r')) :
    x = .ok a ∧ r' = r := by
  rw [run_ofExcept] at h
  obtain ⟨h1, h2⟩ := Prod.mk.inj h
  exact ⟨h1, h2.symm⟩

/-- A program that gives its result instead of failing does the same steps. -/
theorem run_attempt (p : Program α) (r : Running) :
    p.attempt.run r = (.ok (p.run r).1, (p.run r).2) := by
  induction p generalizing r with
  | pure a => rfl
  | fail e => rfl
  | get key next ih => exact ih _ _
  | revision key next ih => exact ih _ r
  | snapshot next ih => exact ih _ r
  | plan key value next ih => exact ih (r.plan key value)

/-- An entity that was read was stored. -/
theorem entity?_some [Entity α] {key : String} {found : Option Stored} {a : α}
    (h : entity? α key (found.map (·.value)) = some a) :
    ∃ stored, found = some stored ∧ Entity.decode key stored.value = .ok a := by
  cases found with
  | none => cases h
  | some stored =>
    have h : (Entity.decode key stored.value : StoreResult α).toOption = some a := h
    refine ⟨stored, rfl, ?_⟩
    cases hd : (Entity.decode key stored.value : StoreResult α) with
    | error e => rw [hd] at h; cases h
    | ok b => rw [hd] at h; rw [Option.some.inj h]

end Program

/-- A field is set to what a program gives, or emptied; the program does the same steps. -/
theorem Label.run_setTo {α : Type} (set : String → α) (p : Program String) (r : Running) :
    (Label.setTo set p).run r =
      (match (p.run r).1 with
        | .ok name => .ok (.ok (), set name)
        | .error e => .ok (.error e, set ""), (p.run r).2) := by
  unfold Label.setTo
  rw [Program.run_bind, Program.run_attempt]
  cases (p.run r).1 <;> rfl

namespace Running.Alone

variable {r r' : Running} {s : Store} {ws : Planned} {key : String}

theorem start (hs : s.closed = false) (rev : Revision) :
    (Running.alone s (.start rev)).Alone s ∅ := by
  refine ⟨hs, rfl, fun key found h => ?_, rfl⟩
  have h : (∅ : Std.ExtTreeMap String (Option Stored))[key]? = some found := h
  rw [Std.ExtTreeMap.getElem?_empty] at h
  cases h

/-! ## Steps -/

/-- A read finds what was planned, and otherwise what the store holds. -/
theorem get (h : r.Alone s ws) (key : String) :
    (r.get key).1 = .ok (ws.sees s.contents key) ∧ (r.get key).2.Alone s ws := by
  obtain ⟨hs, hshared, hcurrent, rfl⟩ := h
  have hturn : r.toShared.turn = .quiet s := by rw [hshared]; rfl
  unfold Planned.sees
  cases hk : r.session.known? key with
  | some value =>
    -- what is known was planned, or found before and is still there
    rw [get_of_known hk]
    refine ⟨congrArg Except.ok ?_, hs, hshared, hcurrent, rfl⟩
    unfold Session.known? at hk
    cases hw : r.session.writes[key]? with
    | some planned =>
      rw [hw] at hk
      exact (Option.some.inj hk).symm
    | none =>
      rw [hw] at hk
      obtain ⟨found, hfound, rfl⟩ := Option.map_eq_some_iff.1 hk
      rw [hcurrent key found hfound]
      rfl
  | none =>
    -- the store is asked
    have hopen : r.toShared.turn.store.closed = false := by rw [hturn]; exact hs
    rw [get_of_unknown hk hopen, hturn, Session.not_planned_of_unknown hk]
    refine ⟨rfl, hs, rfl, fun k found hf => ?_, rfl⟩
    have hf : (r.session.observe key s.contents[key]?).reads[k]? = some found := hf
    rw [Session.getElem?_observe] at hf
    split at hf
    · rename_i hk
      rw [hk]
      exact Option.some.inj hf
    · exact hcurrent k found hf

theorem plan (h : r.Alone s ws) (key : String) (value : Option Bytes) :
    (r.plan key value).Alone s (ws.insert key value) := by
  obtain ⟨hs, hshared, hcurrent, rfl⟩ := h
  exact ⟨hs, hshared, hcurrent, rfl⟩

theorem read {found : Option Bytes} (h : r.Alone s ws)
    (hrun : (Program.read key).run r = (.ok found, r')) :
    found = ws.sees s.contents key ∧ r'.Alone s ws := by
  obtain ⟨hvalue, halone⟩ := h.get key
  have hrun : (Program.ofExcept (r.get key).1.lift).run (r.get key).2 = (.ok found, r') := hrun
  rw [hvalue] at hrun
  obtain ⟨h1, rfl⟩ := Program.run_ofExcept_ok hrun
  exact ⟨(Except.ok.inj h1).symm, halone⟩

theorem write {value : Bytes} (h : r.Alone s ws)
    (hrun : (Program.write key value).run r = (.ok (), r')) :
    r'.Alone s (ws.insert key (some value)) := by
  obtain ⟨-, rfl⟩ := Prod.mk.inj hrun
  exact h.plan key (some value)

theorem erase (h : r.Alone s ws) (hrun : (Program.erase key).run r = (.ok (), r')) :
    r'.Alone s (ws.insert key none) := by
  obtain ⟨-, rfl⟩ := Prod.mk.inj hrun
  exact h.plan key none

theorem readEntity {α : Type} [Entity α] {k : Entity.Key α} {found : Option α} (h : r.Alone s ws)
    (hrun : (Program.readEntity k).run r = (.ok found, r')) :
    found = Program.entity? α (Entity.storeKey k) (ws.sees s.contents (Entity.storeKey k)) ∧
      r'.Alone s ws := by
  obtain ⟨bytes, r₁, hread, hpure⟩ := Program.run_bind_ok hrun
  obtain ⟨rfl, halone⟩ := h.read hread
  obtain ⟨rfl, rfl⟩ := Program.run_pure_ok hpure
  exact ⟨rfl, halone⟩

/-! ## Labels and ids -/

theorem isMade {x : Reservation} {b : Bool} (h : r.Alone s ws)
    (hrun : x.isMade.run r = (.ok b, r')) :
    b = (ws.sees s.contents x.storeKey).isSome ∧ r'.Alone s ws := by
  obtain ⟨bytes, r₁, hread, hpure⟩ := Program.run_bind_ok hrun
  obtain ⟨rfl, halone⟩ := h.read hread
  obtain ⟨rfl, rfl⟩ := Program.run_pure_ok hpure
  exact ⟨rfl, halone⟩

/-- The first free candidate is one of the candidates, and it is free. -/
theorem firstFree {taken : String → Program Bool} (isTaken : String → Bool)
    (htaken : ∀ {r r' : Running} {name : String} {b : Bool}, r.Alone s ws →
      (taken name).run r = (.ok b, r') → b = isTaken name ∧ r'.Alone s ws)
    {cs : List (List Char)} {name : String} (h : r.Alone s ws)
    (hrun : (Label.firstFree taken cs).run r = (.ok (some name), r')) :
    (∃ cand ∈ cs, name = String.ofList cand) ∧ isTaken name = false ∧ r'.Alone s ws := by
  induction cs generalizing r with
  | nil =>
    obtain ⟨h1, -⟩ := Program.run_pure_ok hrun
    cases h1
  | cons cand cs ih =>
    obtain ⟨b, r₁, htake, hnext⟩ := Program.run_bind_ok hrun
    obtain ⟨rfl, halone⟩ := htaken h htake
    cases hb : isTaken (String.ofList cand) with
    | true =>
      -- the next candidate
      rw [hb] at hnext
      obtain ⟨⟨cand', hmem, heq⟩, hfree, hrest⟩ := ih halone hnext
      exact ⟨⟨cand', List.mem_cons_of_mem _ hmem, heq⟩, hfree, hrest⟩
    | false =>
      rw [hb] at hnext
      obtain ⟨h1, rfl⟩ := Program.run_pure_ok hnext
      obtain rfl := Option.some.inj h1
      exact ⟨⟨cand, List.mem_cons_self, rfl⟩, hb, halone⟩

theorem orRefuse_ok {found : Option String} {message name : String}
    (hrun : (Label.orRefuse found message).run r = (.ok name, r')) :
    found = some name ∧ r' = r := by
  obtain ⟨h, rfl⟩ := Program.run_ofExcept_ok hrun
  cases found with
  | none => cases h
  | some n =>
    obtain rfl := Except.ok.inj h
    exact ⟨rfl, rfl⟩

/-- **A label that was given out is not reserved.** -/
theorem pick {reservation : String → Reservation} {base : List Char} {name : String}
    (h : r.Alone s ws) (hrun : (Label.pick reservation base).run r = (.ok name, r')) :
    (∃ cand ∈ Label.candidates base, name = String.ofList cand) ∧ name ≠ Label.sharedHost ∧
      ws.sees s.contents (reservation name).storeKey = none ∧ r'.Alone s ws := by
  obtain ⟨found, r₁, hfree, hrefuse⟩ := Program.run_bind_ok hrun
  obtain ⟨rfl, rfl⟩ := orRefuse_ok hrefuse
  obtain ⟨hcand, hnot, halone⟩ := h.firstFree
    (fun name =>
      name == Label.sharedHost || (ws.sees s.contents (reservation name).storeKey).isSome)
    (fun {r r' name b} hr ht => by
      split at ht
      · rename_i hshared
        obtain ⟨rfl, rfl⟩ := Program.run_pure_ok ht
        rw [hshared]
        exact ⟨rfl, hr⟩
      · rename_i hshared
        obtain ⟨rfl, hr'⟩ := hr.isMade ht
        rw [Bool.eq_false_iff.2 hshared]
        exact ⟨rfl, hr'⟩)
    hfree
  obtain ⟨hshared, hnone⟩ := Bool.or_eq_false_iff.1 hnot
  exact ⟨hcand, beq_eq_false_iff_ne.1 hshared, Option.not_isSome_iff_eq_none.1
    (Bool.eq_false_iff.1 hnone), halone⟩

/-- **An id that was given out was not reserved**, and now it is. -/
theorem pickId {k : AppInstKey} {id : String} (h : r.Alone s ws)
    (hrun : (Label.pickId k).run r = (.ok id, r')) :
    (∃ cand ∈ k.idCandidates, id = String.ofList cand) ∧
      ws.sees s.contents (Reservation.instanceId id).storeKey = none ∧
      r'.Alone s (ws.insert (Reservation.instanceId id).storeKey (some (Text.utf8 id))) := by
  obtain ⟨found, r₁, hfree, hrest⟩ := Program.run_bind_ok hrun
  obtain ⟨name, r₂, hrefuse, hrest⟩ := Program.run_bind_ok hrest
  obtain ⟨u, r₃, hreserve, hpure⟩ := Program.run_bind_ok hrest
  obtain ⟨rfl, rfl⟩ := Program.run_pure_ok hpure
  obtain ⟨rfl, rfl⟩ := orRefuse_ok hrefuse
  obtain ⟨hcand, hnone, halone⟩ := h.firstFree
    (fun id => (ws.sees s.contents (Reservation.instanceId id).storeKey).isSome)
    (fun hr ht => hr.isMade ht) hfree
  exact ⟨hcand, Option.not_isSome_iff_eq_none.1 (Bool.eq_false_iff.1 hnone),
    halone.write hreserve⟩

/-- A field is set to what a program gives that ends well. -/
theorem setTo_ok {α : Type} {set : String → α} {p : Program String} {a : α} {u : Unit}
    (hrun : (Label.setTo set p).run r = (.ok (.ok u, a), r')) :
    ∃ name, p.run r = (.ok name, r') ∧ a = set name := by
  rw [Label.run_setTo] at hrun
  obtain ⟨hresult, rfl⟩ := Prod.mk.inj hrun
  cases hp : (p.run r).1 with
  | error e =>
    rw [hp] at hresult
    cases hresult
  | ok name =>
    rw [hp] at hresult
    cases hresult
    exact ⟨name, Prod.ext hp rfl, rfl⟩

/-- The same, whatever the transaction is afterwards. -/
theorem of_setTo {α : Type} {set : String → α} {p : Program String} {a : α} {u : Unit}
    (h : ((Label.setTo set p).run r).1 = .ok (.ok u, a)) :
    ∃ name r', p.run r = (.ok name, r') ∧ a = set name := by
  have hrun : (Label.setTo set p).run r = (.ok (.ok u, a), ((Label.setTo set p).run r).2) :=
    Prod.ext h rfl
  obtain ⟨name, hname, hset⟩ := setTo_ok hrun
  exact ⟨name, _, hname, hset⟩

end Running.Alone

end Inventory
