import Inventory.Entity.Kind
import Inventory.Entity.StoreKey
import Inventory.Label.Reservation
import Inventory.Proofs.Contents
import Inventory.Proofs.Copy
import Inventory.Proofs.KeyString

/-!
# Store keys and stored values

Every key has a store key of its own, and every entity comes back from its stored value with the
same key.

* `LawfulEntity`: what holds of every type of entities, whatever its fields are.
* `keyOfStoreKey_storeKey`: a store key stands for the key it was made of.
* `decode_encode`: **an entity is read as it was written.**
* `Reservation.storeKey_injective`, `Reservation.storeKey_ne`: reservations have store keys of their
  own, apart from those of entities.
-/

namespace Inventory

namespace Text

theorem splitFirst_append {sep : Char} {before : List Char} (h : sep ∉ before)
    (after : List Char) : splitFirst sep (before ++ sep :: after) = some (before, after) := by
  induction before with
  | nil => simp only [List.nil_append, splitFirst, if_true]
  | cons c before ih =>
    rw [List.mem_cons, not_or] at h
    simp only [List.cons_append, splitFirst, if_neg (Ne.symm h.1), ih h.2, Option.map_some]

theorem eq_of_splitFirst {sep : Char} {cs before after : List Char}
    (h : splitFirst sep cs = some (before, after)) : cs = before ++ sep :: after := by
  induction cs generalizing before with
  | nil => cases h
  | cons c cs ih =>
    simp only [splitFirst] at h
    split at h
    · rename_i hc
      cases h
      rw [hc]
      rfl
    · obtain ⟨⟨before', after'⟩, hrest, heq⟩ := Option.map_eq_some_iff.1 h
      cases heq
      rw [ih hrest]
      rfl

end Text

theorem splitStoreKey_append {name : String} (h : '/' ∉ name.toList) (rest : String) :
    splitStoreKey (name ++ "/" ++ rest) = some (name, rest) := by
  unfold splitStoreKey
  rw [String.toList_append, String.toList_append, List.append_assoc]
  rw [show "/".toList ++ rest.toList = '/' :: rest.toList from rfl, Text.splitFirst_append h]
  simp

/-- A store key that starts with a name and a slash has this name before its first slash. -/
theorem splitStoreKey_of_scope {name key : String} (hplain : '/' ∉ name.toList)
    (h : Text.hasPrefix (name ++ "/") key = true) :
    ∃ rest, splitStoreKey key = some (name, rest) := by
  obtain ⟨rest, hrest⟩ := Text.hasPrefix_iff.1 h
  have hkey : key = name ++ "/" ++ String.ofList rest := by
    rw [← String.toList_inj, String.toList_append, String.toList_ofList, ← hrest]
  rw [hkey]
  exact ⟨_, splitStoreKey_append hplain _⟩

/-- A store key starts with what stands before its first slash, and the slash. -/
theorem hasScope_of_splitStoreKey {name key rest : String}
    (h : splitStoreKey key = some (name, rest)) : Text.hasPrefix (name ++ "/") key = true := by
  obtain ⟨⟨before, after⟩, hsplit, heq⟩ := Option.map_eq_some_iff.1 h
  obtain ⟨hname, -⟩ := Prod.mk.inj heq
  rw [Text.hasPrefix_iff, Text.eq_of_splitFirst hsplit]
  refine ⟨after, ?_⟩
  rw [String.toList_append, ← hname, String.toList_ofList, List.append_assoc]
  rfl

/-- An entity whose texts and lists have lengths that stored values can tell. -/
def Entity.Fits {α : Type} [Entity α] (a : α) : Prop := (Shape.record (schema α)).Fits (body a)

instance {α : Type} [Entity α] : DecidablePred (Entity.Fits (α := α)) := fun a =>
  Shape.decidableFits (.record (Entity.schema α)) (Entity.body a)

/-- What holds of a type of entities whatever its fields are. -/
class LawfulEntity (α : Type) [Entity α] : Prop where
  /-- A slash ends the type name in a store key. -/
  typeName_plain : '/' ∉ (Entity.typeName α).toList
  /-- The stored fields can be told apart. -/
  readable : (Shape.record (Entity.schema α)).readable Cbor.maxNesting = true
  /-- A key string stands for its key. -/
  ofKeyString_keyString : ∀ k : Entity.Key α, ObjKey.ofKeyString (ObjKey.keyString k) = .ok k
  /-- The key does not depend on what a request wants to change. -/
  key_make : ∀ (fs : List String) (a : α),
    Entity.key (Entity.make fs (Entity.body a)) = Entity.key a
  /-- The key is stored as it is. -/
  key_canonical : ∀ a : α,
    Entity.key (Entity.make [] ((Entity.schema α).canonical (Entity.body a)) : α) = Entity.key a
  /-- Copying from an entity with the same key leaves the key. -/
  key_copyFrom : ∀ (mask : FieldMap) (path : FieldPath) {a b : α}, Entity.key a = Entity.key b →
    Entity.key (Entity.copyFrom mask path a b).1 = Entity.key a
  key_setKey : ∀ (k : Entity.Key α) (a : α), Entity.key (Entity.setKey k a) = k
  fits_setKey : ∀ {a b : α}, Entity.Fits a → Entity.Fits b →
    Entity.Fits (Entity.setKey (Entity.key a) b)

instance : LawfulEntity App where
  typeName_plain := by decide
  readable := by decide
  ofKeyString_keyString k :=
    Record.ofKeyString_keyString (by decide : (Record.shape AppKey).readable 4 = true) k
  key_make _ _ := rfl
  key_canonical _ := rfl
  key_copyFrom _ _ _ _ h := @Record.ofVal_copyFrom _ AppKey _ _ _ h _
  key_setKey _ _ := rfl
  fits_setKey ha hb := ⟨ha.1, hb.2⟩

instance : LawfulEntity AppInst where
  typeName_plain := by decide
  readable := by decide
  ofKeyString_keyString k :=
    Record.ofKeyString_keyString (by decide : (Record.shape AppInstKey).readable 4 = true) k
  key_make _ _ := rfl
  key_canonical _ := rfl
  key_copyFrom _ _ _ _ h := @Record.ofVal_copyFrom _ AppInstKey _ _ _ h _
  key_setKey _ _ := rfl
  fits_setKey ha hb := ⟨ha.1, hb.2⟩

instance : LawfulEntity Cloudlet where
  typeName_plain := by decide
  readable := by decide
  ofKeyString_keyString k :=
    Record.ofKeyString_keyString (by decide : (Record.shape CloudletKey).readable 4 = true) k
  key_make _ _ := rfl
  key_canonical _ := rfl
  key_copyFrom _ _ _ _ h := @Record.ofVal_copyFrom _ CloudletKey _ _ _ h _
  key_setKey _ _ := rfl
  fits_setKey ha hb := ⟨ha.1, hb.2⟩

instance : LawfulEntity Controller where
  typeName_plain := by decide
  readable := by decide
  ofKeyString_keyString k :=
    Record.ofKeyString_keyString (by decide : (Record.shape ControllerKey).readable 4 = true) k
  key_make _ _ := rfl
  key_canonical _ := rfl
  key_copyFrom _ _ _ _ h := @Record.ofVal_copyFrom _ ControllerKey _ _ _ h _
  key_setKey _ _ := rfl
  fits_setKey ha hb := ⟨ha.1, hb.2⟩

instance : LawfulEntity Flavor where
  typeName_plain := by decide
  readable := by decide
  ofKeyString_keyString k :=
    Record.ofKeyString_keyString (by decide : (Record.shape FlavorKey).readable 4 = true) k
  key_make _ _ := rfl
  key_canonical _ := rfl
  key_copyFrom _ _ _ _ h := @Record.ofVal_copyFrom _ FlavorKey _ _ _ h _
  key_setKey _ _ := rfl
  fits_setKey ha hb := ⟨ha.1, hb.2⟩

instance : LawfulEntity Operator where
  typeName_plain := by decide
  readable := by decide
  ofKeyString_keyString k :=
    Record.ofKeyString_keyString (by decide : (Record.shape OperatorKey).readable 4 = true) k
  key_make _ _ := rfl
  key_canonical _ := rfl
  key_copyFrom _ _ _ _ h := @Record.ofVal_copyFrom _ OperatorKey _ _ _ h _
  key_setKey _ _ := rfl
  fits_setKey ha hb := ⟨ha.1, hb.2⟩

instance : LawfulEntity RateLimitSettings where
  typeName_plain := by decide
  readable := by decide
  ofKeyString_keyString k :=
    Record.ofKeyString_keyString
      (by decide : (Record.shape RateLimitSettingsKey).readable 4 = true) k
  key_make _ _ := rfl
  key_canonical _ := rfl
  key_copyFrom _ _ _ _ h := @Record.ofVal_copyFrom _ RateLimitSettingsKey _ _ _ h _
  key_setKey _ _ := rfl
  fits_setKey ha hb := ⟨ha.1, hb.2⟩

instance : LawfulEntity Settings where
  typeName_plain := by decide
  readable := by decide
  ofKeyString_keyString _ := rfl
  key_make _ _ := rfl
  key_canonical _ := rfl
  key_copyFrom _ _ _ _ _ := rfl
  key_setKey _ _ := rfl
  fits_setKey _ hb := hb

instance : (k : Kind) → LawfulEntity k.Obj
  | .app => inferInstanceAs (LawfulEntity App)
  | .appInst => inferInstanceAs (LawfulEntity AppInst)
  | .cloudlet => inferInstanceAs (LawfulEntity Cloudlet)
  | .controller => inferInstanceAs (LawfulEntity Controller)
  | .flavor => inferInstanceAs (LawfulEntity Flavor)
  | .operator => inferInstanceAs (LawfulEntity Operator)
  | .rateLimitSettings => inferInstanceAs (LawfulEntity RateLimitSettings)
  | .settings => inferInstanceAs (LawfulEntity Settings)

theorem Kind.name_injective {j k : Kind} (h : j.name = k.name) : j = k := by
  cases j <;> cases k <;> first | rfl | exact absurd h (by decide)

namespace Entity

variable {α : Type} [Entity α] [LawfulEntity α]

/-! ## Store keys -/

/-- A store key stands for the key it was made of. -/
theorem keyOfStoreKey_storeKey (k : Key α) : keyOfStoreKey α (storeKey k) = .ok k := by
  unfold keyOfStoreKey storeKey typePrefix
  simp only [splitStoreKey_append LawfulEntity.typeName_plain, if_true,
    LawfulEntity.ofKeyString_keyString]

theorem storeKey_injective {k k' : Key α} (h : storeKey k = storeKey k') : k = k' := by
  have hkey := keyOfStoreKey_storeKey k
  rw [h, keyOfStoreKey_storeKey] at hkey
  exact (Except.ok.inj hkey).symm

theorem splitStoreKey_storeKey (k : Key α) :
    splitStoreKey (storeKey k) = some (typeName α, ObjKey.keyString k) :=
  splitStoreKey_append LawfulEntity.typeName_plain _

/-- What a store key starts with tells the type of its record. -/
theorem splitStoreKey_of_prefix {key : String} (h : Text.hasPrefix (typePrefix α) key = true) :
    ∃ rest, splitStoreKey key = some (typeName α, rest) :=
  splitStoreKey_of_scope LawfulEntity.typeName_plain h

omit [LawfulEntity α] in
/-- A store key with the name of a type is one of the type. -/
theorem hasPrefix_of_splitStoreKey {key rest : String}
    (h : splitStoreKey key = some (typeName α, rest)) :
    Text.hasPrefix (typePrefix α) key = true :=
  hasScope_of_splitStoreKey h

omit [LawfulEntity α] in
theorem hasPrefix_storeKey (k : Key α) : Text.hasPrefix (typePrefix α) (storeKey k) = true := by
  rw [Text.hasPrefix_iff]
  unfold storeKey
  rw [String.toList_append]
  exact List.prefix_append _ _

/-! ## Stored values -/

/-- An entity as it comes back from the store. -/
def restored (a : α) : α := make [] ((schema α).canonical (body a))

/-- **An entity is read as it was written**, without the addresses of what a request wants to
change, and with one value for all that stand for no number. -/
theorem decode_encode {a : α} (h : Fits a) (s : String) :
    decode s (encode a) = .ok (restored a) := by
  have hread := (Shape.record (schema α)).decode_write (body a) LawfulEntity.readable h []
  rw [List.append_nil] at hread
  unfold decode encode
  rw [hread]
  rfl

@[simp] theorem key_restored (a : α) : key (restored a) = key a := LawfulEntity.key_canonical a

end Entity

/-! ## Reservations -/

namespace Reservation

/-- What the store key of a reservation starts with, up to the slash. -/
def typeName : Reservation → String
  | instanceId _ => instanceIdType
  | cloudletLabel _ => cloudletLabelType
  | instanceLabel _ _ => instanceLabelType

/-- What the store key of a reservation has behind the slash. -/
def detail : Reservation → String
  | instanceId id => id
  | cloudletLabel label => label
  | instanceLabel cloudlet label => ObjKey.keyString cloudlet ++ "/" ++ label

theorem splitStoreKey_storeKey (r : Reservation) :
    splitStoreKey r.storeKey = some (r.typeName, r.detail) := by
  cases r with
  | instanceId id => exact splitStoreKey_append (by decide) id
  | cloudletLabel label => exact splitStoreKey_append (by decide) label
  | instanceLabel cloudlet label =>
    have heq : (instanceLabel cloudlet label).storeKey =
        instanceLabelType ++ "/" ++ (ObjKey.keyString cloudlet ++ "/" ++ label) := by
      show instanceLabelType ++ "/" ++ ObjKey.keyString cloudlet ++ "/" ++ label = _
      simp only [String.append_assoc]
    rw [heq]
    exact splitStoreKey_append (by decide) _

/-- **Reservations have store keys of their own.** -/
theorem storeKey_injective {r r' : Reservation} (h : r.storeKey = r'.storeKey) : r = r' := by
  have hsplit := splitStoreKey_storeKey r
  rw [h, splitStoreKey_storeKey] at hsplit
  obtain ⟨htype, hdetail⟩ := Prod.mk.inj (Option.some.inj hsplit)
  cases r <;> cases r'
  case instanceId.instanceId => exact congrArg instanceId hdetail.symm
  case cloudletLabel.cloudletLabel => exact congrArg cloudletLabel hdetail.symm
  case instanceLabel.instanceLabel cloudlet label cloudlet' label' =>
    -- the key string of the cloudlet ends by itself
    have hlist : (ObjKey.keyString cloudlet').toList ++ '/' :: label'.toList =
        (ObjKey.keyString cloudlet).toList ++ '/' :: label.toList := by
      have hlist := congrArg String.toList hdetail
      simp only [detail, String.toList_append, List.append_assoc] at hlist
      exact hlist
    obtain ⟨rfl, hrest⟩ :=
      Record.keyString_append_inj (by decide : (Record.shape CloudletKey).readable 4 = true) hlist
    rw [String.toList_inj.1 (List.cons.inj hrest).2]
  all_goals
    simp only [typeName] at htype
    exact absurd htype (by decide)

/-- No record of an entity stands where a reservation does. -/
theorem storeKey_ne {α : Type} [Entity α] [LawfulEntity α] {key : String}
    (hkey : Text.hasPrefix (Entity.typePrefix α) key = true) {r : Reservation}
    (h : Entity.typeName α ≠ r.typeName) : key ≠ r.storeKey := by
  rintro rfl
  obtain ⟨rest, hsplit⟩ := Entity.splitStoreKey_of_prefix hkey
  rw [splitStoreKey_storeKey] at hsplit
  exact h (Prod.mk.inj (Option.some.inj hsplit)).1.symm

end Reservation

end Inventory
