import Inventory.Proofs.Crowd
import Inventory.Proofs.Records

/-!
# Every record under its own key

Any number of clients create, change and delete the entities of a type. A typed request reads at one
moment and writes at another, a transaction takes as many steps as it needs, and which step of whom
comes next is chosen freely.

* `Program.OfEntities`: transactions that put and delete entities, and anything else elsewhere.
* `Pending.files_step`, `Call.files_step`: what a client is going to write is an entity under its
  own store key if all that was read was one.
* `Crowd.Sound.move`: **whatever comes next, every record is an entity under its own store key**,
  and so is all that anybody is going to write.
* `records_under_own_keys`: **a store that is only written this way holds every entity under its own
  key**, whatever the masks select.
-/

namespace Inventory

/-! ## Transactions with entities -/

/-- A transaction that puts and deletes entities of a type. It may read what it likes and write what
it likes elsewhere, and what it does next depends on what it has read. -/
inductive Program.OfEntities (α : Type) [Entity α] : Program Unit → Prop where
  | done : OfEntities α (.pure ())
  | refuse (e : StoreError) : OfEntities α (.fail e)
  | read (k : Entity.Key α) {next : Option α → Program Unit}
    (rest : ∀ found, (∀ a ∈ found, Entity.Fits a) → OfEntities α (next found)) :
    OfEntities α (readEntity k >>= next)
  | put (a : α) (fits : Entity.Fits a) {next : Program Unit} (rest : OfEntities α next) :
    OfEntities α (writeEntity a >>= fun _ => next)
  | delete (k : Entity.Key α) {next : Program Unit} (rest : OfEntities α next) :
    OfEntities α (eraseEntity k >>= fun _ => next)
  | get (key : String) {next : KvResult (Option Bytes) → Program Unit}
    (rest : ∀ v, OfEntities α (next v)) : OfEntities α (.get key next)
  | revision (key : String) {next : Revision → Program Unit}
    (rest : ∀ rev, OfEntities α (next rev)) : OfEntities α (.revision key next)
  | snapshot {next : Revision → Program Unit} (rest : ∀ rev, OfEntities α (next rev)) :
    OfEntities α (.snapshot next)
  | plan (key : String) (value : Option Bytes)
    (elsewhere : ¬ Text.hasPrefix (Entity.typePrefix α) key = true) {next : Program Unit}
    (rest : OfEntities α next) : OfEntities α (.plan key value next)

/-- **All that such a transaction plans files**, since what it reads was filed. -/
theorem Program.OfEntities.files {α : Type} [Entity α] [LawfulEntity α] {p : Program Unit}
    (h : p.OfEntities α) : p.Files α := by
  induction h with
  | done => trivial
  | refuse e => trivial
  | read k rest ih =>
    refine .readEntity (ih none fun a ha => (nomatch ha)) fun a hfits _ => ih (some a) ?_
    intro b hb
    rwa [← Option.some.inj hb]
  | put a fits rest ih => exact .bind (writeEntity_files fits) fun _ => ih
  | delete k rest ih => exact .bind (eraseEntity_files k) fun _ => ih
  | get key rest ih => exact fun v _ => ih v
  | revision key rest ih => exact ih
  | snapshot rest ih => exact ih
  | plan key value elsewhere rest ih =>
    refine ⟨Write.files_of_elsewhere ?_, ih⟩
    rwa [Session.toWrite_key]

/-! ## What everybody is going to write -/

section Files

variable (α : Type) [Entity α]

/-- A transaction under way files. -/
def Phase.Files : Phase → Prop
  | waiting _ _ | ended _ => True
  | body _ rest t => rest.Files α ∧ t.Files α

/-- A typed request under way files. -/
def Stage.Files : Stage → Prop
  | begun | ended _ => True
  | writing op => op.Files α

/-- An operation that writes no record of the type. -/
def Op.Elsewhere (op : Op) : Prop :=
  ∀ key ∈ op.targets, ¬ Text.hasPrefix (Entity.typePrefix α) key = true

end Files

section Steps

variable {α : Type} [Entity α] {s : Store} {c : Call} {p : Pending α}

theorem Op.Elsewhere.files {op : Op} (h : op.Elsewhere α) : op.Files α := fun w hw =>
  Write.files_of_elsewhere (h w.key (List.mem_map_of_mem hw))

theorem Contents.Recorded.run (h : s.contents.Recorded α) {op : Op} (hop : op.Files α) :
    (op.run s).2.contents.Recorded α := by
  have hall : ∀ o ∈ [op], o.Files α := List.forall_mem_singleton.2 hop
  exact h.runAll hall

theorem Phase.files_ofTry (left : Nat) (r : Try) : (Phase.ofTry left r).Files α := by
  cases r <;> trivial

/-- **A step of a transaction that files** keeps every record under its own key, and the transaction
files on. -/
theorem Call.files_step (hs : s.contents.Recorded α) (hprogram : c.program.Files α)
    (hphase : c.phase.Files α) :
    (c.step s).1.Files α ∧ (c.step s).2.contents.Recorded α := by
  obtain ⟨policy, program, phase⟩ := c
  cases phase with
  | ended result => exact ⟨trivial, hs⟩
  | waiting left last =>
    cases left with
    | zero => exact ⟨trivial, hs⟩
    | succ left =>
      unfold step
      simp only
      split
      · exact ⟨⟨hprogram, .start _⟩, hs⟩
      · exact ⟨trivial, hs⟩
  | body left rest t =>
    obtain ⟨hrest, hsession⟩ := hphase
    cases rest with
    | pure u =>
      -- the only step that writes, and all that was planned files
      have hcommit : (Op.txn t.request).Files α := hsession.request
      exact ⟨Phase.files_ofTry left _, hs.run hcommit⟩
    | fail e => exact ⟨trivial, hs⟩
    | revision key next => exact ⟨⟨hrest _, hsession⟩, hs⟩
    | snapshot next => exact ⟨⟨hrest _, hsession⟩, hs⟩
    | plan key value next => exact ⟨⟨hrest.2, hsession.plan hrest.1⟩, hs⟩
    | get key next =>
      unfold step
      simp only
      cases hk : t.known? key with
      | some value => exact ⟨⟨hrest _ (hsession.known hk), hsession⟩, hs⟩
      | none =>
        refine ⟨?_, hs⟩
        -- what is read was filed
        cases hfound : (s.get key).1 with
        | error e => exact ⟨hrest _ fun value heq => (nomatch heq), hsession⟩
        | ok found =>
          obtain rfl := Store.contents_of_get hfound
          refine ⟨hrest _ fun value heq => ?_, hsession.observe hs⟩
          obtain ⟨stored, hstored, rfl⟩ := Option.map_eq_some_iff.1 (Except.ok.inj heq)
          exact hs key stored hstored

variable [LawfulEntity α]

/-- **A step of a typed request** keeps every record under its own key, and what it is going to
write is an entity under its own key. -/
theorem Pending.files_step (hs : s.contents.Recorded α) (hrequest : p.request.Fits)
    (hstage : p.stage.Files α) :
    (p.step s).1.Files α ∧ (p.step s).2.contents.Recorded α := by
  obtain ⟨q, stage⟩ := p
  cases stage with
  | ended result => exact ⟨trivial, hs⟩
  | writing op => exact ⟨trivial, hs.run hstage⟩
  | begun =>
    unfold step
    simp only
    cases hclosing : q.closing s with
    | error e => exact ⟨trivial, hs⟩
    | ok op => exact ⟨Request.closing_files hs hrequest hclosing, hs⟩

end Steps

/-! ## A store in the hands of a crowd -/

namespace Crowd

variable {α : Type} [Entity α] {st : Crowd α}

/-- A store without records of a type, on which nothing has begun yet. Its clients are going to make
requests for entities of the type and transactions that put and delete some. -/
structure Fresh (st : Crowd α) : Prop where
  empty : ∀ (key : String) (stored : Stored), st.store.contents[key]? = some stored →
    ¬ Text.hasPrefix (Entity.typePrefix α) key = true
  calls : ∀ c ∈ st.calls, c = .fresh c.policy c.program ∧ c.program.OfEntities α
  requests : ∀ p ∈ st.requests, p = .fresh p.request ∧ p.request.Fits

/-- Every record is an entity under its own store key, and so is all that anybody is going to
write. -/
structure Sound (st : Crowd α) : Prop where
  recorded : st.store.contents.Recorded α
  calls : ∀ c ∈ st.calls, c.program.Files α ∧ c.phase.Files α
  requests : ∀ p ∈ st.requests, p.request.Fits ∧ p.stage.Files α

theorem Fresh.sound [LawfulEntity α] (h : st.Fresh) : st.Sound where
  recorded key stored hstored hunder := absurd hunder (h.empty key stored hstored)
  calls c hc := ⟨(h.calls c hc).2.files, by rw [(h.calls c hc).1]; trivial⟩
  requests p hp := ⟨(h.requests p hp).2, by rw [(h.requests p hp).1]; trivial⟩

/-- A client takes a step in a transaction, or does something elsewhere. -/
theorem Sound.client (h : st.Sound) {m : Move} (hm : ∀ op, m = .op op → op.Elsewhere α) :
    (st.move (.client m)).Sound := by
  rw [move_client]
  cases m with
  | op op => exact ⟨h.recorded.run (hm op rfl).files, h.calls, h.requests⟩
  | step i =>
    cases hc : st.calls[i]? with
    | none =>
      rw [Clients.move_no_call hc]
      exact h
    | some c =>
      obtain ⟨hprogram, hphase⟩ := h.calls c (List.mem_of_getElem? hc)
      obtain ⟨hfiles, hrecorded⟩ := Call.files_step h.recorded hprogram hphase
      rw [Clients.move_step hc]
      refine ⟨hrecorded, fun c' hc' => ?_, h.requests⟩
      rcases List.mem_or_eq_of_mem_set hc' with hc' | rfl
      · exact h.calls c' hc'
      · exact ⟨hprogram, hfiles⟩

variable [LawfulEntity α]

/-- A client takes a step in a typed request. -/
theorem Sound.request (h : st.Sound) (i : Nat) : (st.move (.request i)).Sound := by
  cases hp : st.requests[i]? with
  | none =>
    rw [move_no_request hp]
    exact h
  | some p =>
    obtain ⟨hfits, hstage⟩ := h.requests p (List.mem_of_getElem? hp)
    obtain ⟨hfiles, hrecorded⟩ := Pending.files_step h.recorded hfits hstage
    rw [move_request hp]
    refine ⟨hrecorded, h.calls, fun p' hp' => ?_⟩
    rcases List.mem_or_eq_of_mem_set hp' with hp' | rfl
    · exact h.requests p' hp'
    · exact ⟨hfits, hfiles⟩

/-- **Whatever comes next, every record is an entity under its own store key.** -/
theorem Sound.move (h : st.Sound) {m : CrowdMove}
    (hm : ∀ op, m = .client (.op op) → op.Elsewhere α) : (st.move m).Sound := by
  cases m with
  | client m => exact h.client fun op hop => hm op (by rw [hop])
  | request i => exact h.request i

theorem Sound.run (h : st.Sound) {moves : List CrowdMove}
    (hmoves : ∀ op, CrowdMove.client (.op op) ∈ moves → op.Elsewhere α) : (st.run moves).Sound := by
  induction moves generalizing st with
  | nil => exact h
  | cons m moves ih =>
    refine ih (h.move fun op hop => hmoves op (hop ▸ List.mem_cons_self)) fun op hop => ?_
    exact hmoves op (List.mem_cons_of_mem m hop)

end Crowd

/-! ## What is promised of the records -/

/-- What is promised of the records of a type in a store. -/
structure Store.UnderOwnKeys (α : Type) [Entity α] (s : Store) : Prop where
  /-- A record is under the store key of one key, and it is read as an entity with that key. -/
  filed : ∀ (key : String) (stored : Stored), s.contents[key]? = some stored →
    Text.hasPrefix (Entity.typePrefix α) key = true →
    ∃ (k : Entity.Key α) (a : α), (∀ k' : Entity.Key α, key = Entity.storeKey k' ↔ k' = k) ∧
      Entity.decode key stored.value = .ok a ∧ Entity.key a = k ∧ Entity.fields a = []
  /-- What is there under the store key of a key can be loaded, unless the store is closed. -/
  found : s.closed = false → ∀ (k : Entity.Key α) (stored : Stored),
    s.contents[Entity.storeKey k]? = some stored →
    ∃ a : α, Entity.load k s = .ok (a, stored.modRevision)
  loaded : ∀ (k : Entity.Key α) (a : α) (rev : Revision), Entity.load k s = .ok (a, rev) →
    Entity.key a = k ∧ Entity.fields a = []
  distinct : ∀ (key key' : String) (stored stored' : Stored) (a a' : α),
    s.contents[key]? = some stored → s.contents[key']? = some stored' →
    Text.hasPrefix (Entity.typePrefix α) key = true →
    Text.hasPrefix (Entity.typePrefix α) key' = true →
    Entity.decode key stored.value = .ok a → Entity.decode key' stored'.value = .ok a' →
    Entity.key a = Entity.key a' → key = key'

section Promised

variable {α : Type} [Entity α] [LawfulEntity α] {s : Store} {key : String} {stored : Stored}

/-- A record under the prefix of the type is read as an entity, and stands under its store key. -/
theorem Contents.Recorded.filed (h : s.contents.Recorded α)
    (hstored : s.contents[key]? = some stored)
    (hunder : Text.hasPrefix (Entity.typePrefix α) key = true) :
    ∃ a : α, Entity.decode key stored.value = .ok a ∧ key = Entity.storeKey (Entity.key a) ∧
      Entity.fields a = [] := by
  obtain ⟨a, hfits, hkey, hvalue⟩ := h key stored hstored hunder
  refine ⟨Entity.restored a, ?_, ?_, Entity.fields_make _ _⟩
  · rw [hvalue]
    exact Entity.decode_encode hfits key
  · rw [Entity.key_restored, hkey]

theorem Contents.Recorded.underOwnKeys (h : s.contents.Recorded α) : s.UnderOwnKeys α := by
  refine ⟨?filed, ?found, ?loaded, ?distinct⟩
  case filed =>
    intro key stored hstored hunder
    obtain ⟨a, hdecode, rfl, hfields⟩ := h.filed hstored hunder
    refine ⟨Entity.key a, a, fun k => ⟨fun heq => ?_, fun heq => ?_⟩, hdecode, rfl, hfields⟩
    · exact (Entity.storeKey_injective heq).symm
    · rw [heq]
  case found =>
    intro hopen k stored hstored
    obtain ⟨a, hdecode, -, -⟩ := h.filed hstored (Entity.hasPrefix_storeKey k)
    refine ⟨a, ?_⟩
    unfold Entity.load Store.get
    rw [Store.ifOpen_of_open hopen]
    simp only [hstored, hdecode]
    rfl
  case loaded =>
    intro k a rev hload
    unfold Entity.load at hload
    split at hload
    · cases hload
    · cases hload
    · rename_i stored hget
      obtain ⟨b, hdecode, hkey, hfields⟩ :=
        h.filed (Store.contents_of_get hget) (Entity.hasPrefix_storeKey k)
      rw [hdecode] at hload
      obtain ⟨rfl, -⟩ := Prod.mk.inj (Except.ok.inj hload)
      exact ⟨(Entity.storeKey_injective hkey).symm, hfields⟩
  case distinct =>
    intro key key' stored stored' a a' hstored hstored' hunder hunder' ha ha' hsame
    obtain ⟨b, hdecode, hkey, -⟩ := h.filed hstored hunder
    obtain ⟨b', hdecode', hkey', -⟩ := h.filed hstored' hunder'
    obtain rfl : a = b := Except.ok.inj (ha.symm.trans hdecode)
    obtain rfl : a' = b' := Except.ok.inj (ha'.symm.trans hdecode')
    rw [hkey, hkey', hsame]

end Promised

/-- What is promised of a store in the hands of a crowd, after any moves. -/
structure Crowd.KeepsOwnKeys {α : Type} [Entity α] (st : Crowd α) (moves : List CrowdMove) :
    Prop where
  records : (st.run moves).store.UnderOwnKeys α
  /-- A transaction that has ended is one of those that were begun, and ended as `transact` does. -/
  calls : ∀ c ∈ (st.run moves).calls, ∀ result, c.phase = .ended result →
    (∃ c₀ ∈ st.calls, c.program = c₀.program) ∧
      ∃ others, (transact c.policy c.program ⟨st.store, others⟩).1 = result
  /-- A typed request that has ended is one of those that were begun, and was told what it is told
  when the others do meanwhile what they did. -/
  requests : ∀ p ∈ (st.run moves).requests, ∀ result, p.stage = .ended result →
    (∃ p₀ ∈ st.requests, p.request = p₀.request) ∧ p.request.Told st.store result

/-- **A store that is only written through entities holds every entity under its own key**, in
whatever order the steps of the clients come. -/
theorem records_under_own_keys (k : Kind) (st : Crowd k.Obj) (moves : List CrowdMove)
    (hst : st.Fresh) (hmoves : ∀ op, CrowdMove.client (.op op) ∈ moves → op.Elsewhere k.Obj) :
    st.KeepsOwnKeys moves where
  records := (hst.sound.run hmoves).recorded.underOwnKeys
  calls _ hc _ hended := Crowd.call_result (fun c hc => (hst.calls c hc).1) hc hended
  requests _ hp _ hended := Crowd.request_result (fun p hp => (hst.requests p hp).1) hp hended

namespace Port

/-- A cloudlet of an operator. -/
def cloudlet (name uri : String) : Cloudlet :=
  ⟨[], ⟨⟨"o"⟩, name⟩, uri, ⟨.zero, .zero, .zero⟩, ""⟩

/-- Where a cloudlet is stored. -/
def place (name : String) : String := Entity.storeKey (Entity.key (cloudlet name ""))

/-- A mask that selects one part of the key. -/
def partly : FieldMap := .ofFields ["2.2", "4"]

/-- Puts a cloudlet with another name in the place of one. -/
def rename : Program Unit := do
  match ← Program.readEntity (Entity.key (cloudlet "x" "")) with
  | some _ =>
    Program.writeEntity (cloudlet "z" "")
    Program.eraseEntity (Entity.key (cloudlet "x" ""))
  | none => return ()

theorem rename_of_entities : rename.OfEntities Cloudlet := by
  refine .read _ fun found _ => ?_
  cases found with
  | none => exact .done
  | some c => exact .put _ (by decide) (.delete _ .done)

def start : Crowd Cloudlet where
  store := Op.runAll [.put "m" [1]] .empty
  calls := [.fresh ⟨3, 0, 0, .zero, false⟩ rename]
  requests :=
    [.fresh (.create (cloudlet "x" "")), .fresh (.put (cloudlet "y" "u") partly []),
      .fresh (.update (cloudlet "x" "u") partly []), .fresh (.delete (cloudlet "y" ""))]

/-- The transaction reads a cloudlet that is changed before it commits, and is tried again. -/
def moves : List CrowdMove :=
  [.request 0, .request 0, .request 1, .request 2, .client (.step 0), .client (.step 0),
    .client (.op (.put "m" [2])), .request 2, .request 1] ++
  List.replicate 8 (.client (.step 0)) ++ [.request 3, .request 3]

theorem start_fresh : start.Fresh := by
  refine ⟨?empty, ?calls, ?requests⟩
  case empty =>
    intro key stored hstored
    have hkeys : start.store.contents.keys = ["m"] := by decide +kernel
    have hkey : key ∈ start.store.contents.keys := by
      rw [Std.ExtTreeMap.mem_keys, Std.ExtTreeMap.mem_iff_isSome_getElem?, hstored]
      rfl
    rw [hkeys, List.mem_singleton] at hkey
    rw [hkey]
    decide
  case calls =>
    intro c hc
    rw [List.mem_singleton.1 hc]
    exact ⟨rfl, rename_of_entities⟩
  case requests =>
    intro p hp
    simp only [start, List.mem_cons, List.not_mem_nil, or_false] at hp
    rcases hp with rfl | rfl | rfl | rfl
    · exact ⟨rfl, show Entity.Fits (cloudlet "x" "") by decide⟩
    · exact ⟨rfl, show Entity.Fits (cloudlet "y" "u") by decide⟩
    · exact ⟨rfl, show Entity.Fits (cloudlet "x" "u") by decide⟩
    · exact ⟨rfl, trivial⟩

theorem moves_elsewhere (op : Op) (h : CrowdMove.client (.op op) ∈ moves) :
    op.Elsewhere Cloudlet := by
  obtain rfl : op = .put "m" [2] := by simpa [moves] using h
  intro key hkey
  rw [List.mem_singleton.1 hkey]
  decide

end Port

open Port in
/-- One cloudlet is left where four requests and a transaction got in the way of each other. -/
theorem records_under_own_keys_at_a_port :
    (start.run moves).store.contents.keys = [place "z", "m"] ∧ start.KeepsOwnKeys moves :=
  ⟨by decide +kernel, records_under_own_keys .cloudlet start moves start_fresh moves_elsewhere⟩

end Inventory
