import Inventory.Proofs.StoreKey

/-!
# The key space of the store

Every store key belongs to one area of the key space: there is an area for each kind of entities
and for each kind of reservations. The names of the areas have no slash, so the first slash of a
store key ends the name of its area, whatever the names, labels and ids behind it are.

* `Kind.keyString_noControl`: a key string has no control characters, as they are all escaped.
* `Holder.hasPrefix_scope_iff`: **a store key starts with the name of its own area and no other.**
* `Holder.storeKey_injective`: **whatever has a store key has one of its own.**
-/

namespace Inventory

/-! ## Characters of key strings -/

namespace Json

/-- A character that is not one of the control characters below the space. -/
def NoControl (c : Char) : Prop := 0x20 ≤ c.toNat

instance : DecidablePred NoControl := fun c => inferInstanceAs (Decidable (0x20 ≤ c.toNat))

theorem hexDigit_noControl {n : Nat} (h : n < 16) : NoControl (Nat.digitChar n) := by
  have hall : ∀ n < 16, NoControl (Nat.digitChar n) := by decide
  exact hall n h

/-- A fixed text is looked through. -/
theorem noControl_of_all {cs : List Char} (h : cs.all (0x20 ≤ ·.toNat) = true) :
    ∀ c ∈ cs, NoControl c := fun c hc => of_decide_eq_true (List.all_eq_true.1 h c hc)

/-- What is written for a character has no control characters: they are escaped. -/
theorem writeChar_noControl (c : Char) : ∀ d ∈ writeChar c, NoControl d := by
  unfold writeChar
  split
  case h_8 =>
    split
    · -- four fixed characters and the two digits that tell the control character
      rename_i hlow
      intro d hd
      rcases List.mem_append.1 (show d ∈ ['\\', 'u', '0', '0'] ++ [_, _] from hd) with hd | hd
      · exact noControl_of_all (by decide) d hd
      · rcases List.mem_cons.1 hd with rfl | hd
        · exact hexDigit_noControl (by omega)
        · rw [List.mem_singleton.1 hd]
          exact hexDigit_noControl (by omega)
    · rename_i hlow
      intro d hd
      rw [List.mem_singleton.1 hd]
      exact Nat.not_lt.1 hlow
  all_goals exact noControl_of_all (by decide)

theorem writeText_noControl (s : String) : ∀ c ∈ writeText s, NoControl c := by
  intro c hc
  unfold writeText at hc
  rw [List.mem_append, List.mem_cons, List.mem_singleton, List.mem_flatMap] at hc
  rcases hc with (rfl | ⟨d, -, hd⟩) | rfl
  · decide
  · exact writeChar_noControl d c hd
  · decide

end Json

open Json (NoControl)

mutual

/-- What is written for a value has no control characters. -/
theorem Shape.writeJson_noControl : (s : Shape) → (h : s.Textual) → (v : s.Val) →
    ∀ c ∈ s.writeJson h v, NoControl c
  | .leaf .text, _, v => Json.writeText_noControl v
  | .record fields, h, v => by
    intro c hc
    have hc : c ∈ '\x7b' :: fields.writeJson h true v ++ ['\x7d'] := hc
    rw [List.mem_append, List.mem_cons, List.mem_singleton] at hc
    rcases hc with (rfl | hc) | rfl
    · decide
    · exact fields.writeJson_noControl h true v c hc
    · decide
  | .leaf .texts, h, _ | .leaf .word32, h, _ | .leaf .word64, h, _ | .leaf .int64, h, _
  | .leaf .real, h, _ | .leaf (.choice _), h, _ => h.elim

/-- The members of an object have no control characters, nor is one written between them. -/
theorem Fields.writeJson_noControl : (fs : Fields) → (h : fs.Textual) → (first : Bool) →
    (v : fs.Val) → ∀ c ∈ fs.writeJson h first v, NoControl c
  | .nil, _, _, _ => fun _ hc => nomatch hc
  | .cons _ name shape rest, h, first, v => by
    intro c hc
    have hc : c ∈ (if first then [] else [',']) ++ Json.writeText name ++
        ':' :: shape.writeJson h.1 v.1 ++ rest.writeJson h.2 false v.2 := hc
    rw [List.mem_append, List.mem_append, List.mem_append, List.mem_cons] at hc
    rcases hc with ((hc | hc) | rfl | hc) | hc
    · -- a comma, but not before the first member
      cases first with
      | true =>
        rw [if_pos rfl] at hc
        cases hc
      | false =>
        rw [if_neg Bool.false_ne_true] at hc
        rw [List.mem_singleton.1 hc]
        decide
    · exact Json.writeText_noControl name c hc
    · decide
    · exact shape.writeJson_noControl h.1 v.1 c hc
    · exact rest.writeJson_noControl h.2 false v.2 c hc

end

theorem Record.keyString_noControl {κ : Type} [Record κ] (h : (shape κ).Textual) (k : κ) :
    ∀ c ∈ (keyString h k).toList, NoControl c := by
  intro c hc
  rw [keyString, String.toList_ofList] at hc
  exact (shape κ).writeJson_noControl h (toVal k) c hc

/-- **A key string has no control characters**, whatever is in the key. -/
theorem Kind.keyString_noControl (kind : Kind) (k : kind.Key) :
    ∀ c ∈ (ObjKey.keyString k).toList, NoControl c := by
  cases kind with
  | app => exact Record.keyString_noControl AppKey.textual k
  | appInst => exact Record.keyString_noControl AppInstKey.textual k
  | cloudlet => exact Record.keyString_noControl CloudletKey.textual k
  | controller => exact Record.keyString_noControl ControllerKey.textual k
  | flavor => exact Record.keyString_noControl FlavorKey.textual k
  | operator => exact Record.keyString_noControl OperatorKey.textual k
  | rateLimitSettings => exact Record.keyString_noControl RateLimitSettingsKey.textual k
  | settings =>
    have hword : ∀ c ∈ SettingsKey.word.toList, NoControl c := Json.noControl_of_all (by decide)
    exact hword

/-! ## Areas -/

/-- The areas of the key space. -/
inductive Area where
  | entities (kind : Kind)
  | instanceIds
  | cloudletLabels
  | instanceLabels
  deriving DecidableEq, Repr

namespace Area

/-- What the store keys of an area start with, up to the slash. -/
def name : Area → String
  | entities kind => kind.name
  | instanceIds => Reservation.instanceIdType
  | cloudletLabels => Reservation.cloudletLabelType
  | instanceLabels => Reservation.instanceLabelType

/-- What the store keys of an area start with. -/
def scope (a : Area) : String := a.name ++ "/"

theorem name_plain (a : Area) : '/' ∉ a.name.toList := by
  cases a with
  | entities kind => exact LawfulEntity.typeName_plain (α := kind.Obj)
  | instanceIds => decide
  | cloudletLabels => decide
  | instanceLabels => decide

/-- No kind of entities has the name of a kind of reservations. -/
theorem kind_name_ne (kind : Kind) : kind.name ≠ Reservation.instanceIdType ∧
    kind.name ≠ Reservation.cloudletLabelType ∧ kind.name ≠ Reservation.instanceLabelType := by
  cases kind <;> decide

theorem name_injective {a b : Area} (h : a.name = b.name) : a = b := by
  cases a with
  | entities kind =>
    obtain ⟨hid, hcloudlet, hinstance⟩ := kind_name_ne kind
    cases b with
    | entities kind' => rw [Kind.name_injective h]
    | instanceIds => exact absurd h hid
    | cloudletLabels => exact absurd h hcloudlet
    | instanceLabels => exact absurd h hinstance
  | instanceIds | cloudletLabels | instanceLabels =>
    cases b with
    | entities kind' =>
      obtain ⟨hid, hcloudlet, hinstance⟩ := kind_name_ne kind'
      first
        | exact absurd h.symm hid
        | exact absurd h.symm hcloudlet
        | exact absurd h.symm hinstance
    | _ => first | rfl | exact absurd h (by decide)

end Area

/-! ## What has a store key -/

/-- What has a store key: an entity, by its key, or a reservation. -/
inductive Holder where
  | entity (kind : Kind) (key : kind.Key)
  | reservation (r : Reservation)

/-- The area of a reservation. -/
def Reservation.area : Reservation → Area
  | instanceId _ => .instanceIds
  | cloudletLabel _ => .cloudletLabels
  | instanceLabel _ _ => .instanceLabels

theorem Reservation.area_name (r : Reservation) : r.area.name = r.typeName := by
  cases r <;> rfl

namespace Holder

/-- The area of a store key. -/
def area : Holder → Area
  | entity kind _ => .entities kind
  | reservation r => r.area

/-- The store key of whatever has one. -/
def storeKey : Holder → String
  | entity _ key => Entity.storeKey key
  | reservation r => r.storeKey

/-- What a store key has behind the first slash. -/
def detail : Holder → String
  | entity _ key => ObjKey.keyString key
  | reservation r => r.detail

/-- The first slash of a store key ends the name of its area. -/
theorem splitStoreKey_storeKey (h : Holder) :
    splitStoreKey h.storeKey = some (h.area.name, h.detail) := by
  cases h with
  | entity kind key => exact Entity.splitStoreKey_storeKey key
  | reservation r =>
    rw [area, Reservation.area_name]
    exact r.splitStoreKey_storeKey

/-- **A store key starts with the name of its own area** and with that of no other, although some
of the names are beginnings of others. -/
theorem hasPrefix_scope_iff (h : Holder) (a : Area) :
    Text.hasPrefix a.scope h.storeKey = true ↔ h.area = a := by
  have hsplit := h.splitStoreKey_storeKey
  constructor
  · intro hprefix
    obtain ⟨rest, hrest⟩ := splitStoreKey_of_scope a.name_plain hprefix
    rw [hsplit] at hrest
    obtain ⟨hname, -⟩ := Prod.mk.inj (Option.some.inj hrest)
    exact Area.name_injective hname
  · rintro rfl
    exact hasScope_of_splitStoreKey hsplit

/-- **Whatever has a store key has one of its own.** -/
theorem storeKey_injective {h h' : Holder} (heq : h.storeKey = h'.storeKey) : h = h' := by
  have harea : h.area = h'.area := by
    rw [← hasPrefix_scope_iff, heq, hasPrefix_scope_iff]
  cases h with
  | entity kind key =>
    cases h' with
    | entity kind' key' =>
      obtain rfl : kind = kind' := Area.entities.inj harea
      have hkey : Entity.storeKey key = Entity.storeKey key' := heq
      rw [Entity.storeKey_injective hkey]
    | reservation r => cases r <;> cases harea
  | reservation r =>
    cases h' with
    | entity kind' key' => cases r <;> cases harea
    | reservation r' => exact congrArg reservation (Reservation.storeKey_injective heq)

end Holder

/-- **Store keys tell what they were made of.** The store key of an entity stands for the key it was
made of, its key string has no control characters, and both parts of it come back at the first
slash. All store keys of entities and reservations are different, and each of them starts with the
name of its own area and of no other. -/
theorem store_keys_unambiguous :
    (∀ (kind : Kind) (k : kind.Key),
      Entity.keyOfStoreKey kind.Obj (Entity.storeKey k) = .ok k ∧
      (∀ c ∈ (ObjKey.keyString k).toList, 0x20 ≤ c.toNat) ∧
      splitStoreKey (Entity.storeKey k) = some (kind.name, ObjKey.keyString k)) ∧
    (∀ h h' : Holder, h.storeKey = h'.storeKey ↔ h = h') ∧
    ∀ (h : Holder) (a : Area), Text.hasPrefix a.scope h.storeKey = true ↔ h.area = a := by
  refine ⟨fun kind k => ?_, fun h h' => ?_, Holder.hasPrefix_scope_iff⟩
  · exact ⟨Entity.keyOfStoreKey_storeKey k, kind.keyString_noControl k,
      Entity.splitStoreKey_storeKey k⟩
  · constructor
    · exact Holder.storeKey_injective
    · exact congrArg Holder.storeKey

namespace Breaks

/-- A name with a line break and a slash. -/
def flavorKey : FlavorKey := ⟨"a\n/"⟩

/-- The label of an instance on a cloudlet, one of them with a slash. -/
def label (cloudlet name : String) : Holder :=
  .reservation (.instanceLabel ⟨⟨"o"⟩, cloudlet⟩ name)

end Breaks

/-- In the key string of a name with a line break stands a backslash. Labels with slashes are told
from each other behind the key strings of their cloudlets. -/
theorem store_keys_unambiguous_of_breaks :
    '\\' ∈ (ObjKey.keyString Breaks.flavorKey).toList ∧ 0x20 ≤ '\\'.toNat ∧
    Entity.keyOfStoreKey Flavor (@Entity.storeKey Flavor _ Breaks.flavorKey) =
      .ok Breaks.flavorKey ∧
    (Breaks.label "c/" "l").storeKey ≠ (Breaks.label "c" "/l").storeKey := by
  obtain ⟨hentities, hholders, -⟩ := store_keys_unambiguous
  obtain ⟨hkey, hcontrol, -⟩ := hentities .flavor Breaks.flavorKey
  have hbreak : '\\' ∈ (ObjKey.keyString Breaks.flavorKey).toList := by decide +kernel
  refine ⟨hbreak, hcontrol '\\' hbreak, hkey, fun heq => ?_⟩
  have hsame := (hholders _ _).1 heq
  simp only [Breaks.label, Holder.reservation.injEq, Reservation.instanceLabel.injEq] at hsame
  exact absurd hsame.2 (by decide)

end Inventory
