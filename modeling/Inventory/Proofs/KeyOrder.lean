import Inventory.Proofs.StoreKey

/-!
# The order of keys

Keys are ordered field by field, and their store keys as texts. Both orders look at the same texts,
those of the fields of a key, one after another; but store keys have these texts in their written
form, in quotes and with escapes.

* `compare_append_of_not_prefix`: two lists neither of which goes on the other decide before what
  follows them.
* `Shape.compare_writeJson`: **key strings are ordered as the written texts of their fields**.
* `TextKey`: keys are ordered as the texts of their fields, and their key strings as the written
  forms of these.
* `Json.compare_writeText`: texts all of whose characters come after the quote are ordered as they
  are written.
* `Entity.compare_storeKey_of_plain`: so keys of such texts are ordered as their store keys.
-/

namespace Inventory

/-! ## Comparing lists -/

section Lists

variable {β : Type} [Ord β] [Std.LawfulEqOrd β]

theorem compare_append_left (front a b : List β) :
    compare (front ++ a) (front ++ b) = compare a b := by
  induction front with
  | nil => rfl
  | cons x front ih =>
    rw [List.cons_append, List.cons_append, List.compare_cons_cons, Std.compare_self, ih]
    rfl

/-- Two lists neither of which is in front of the other **decide before what follows them**. -/
theorem compare_append_of_not_prefix {a b : List β} (hab : a <+: b → a = b) (hba : b <+: a → a = b)
    (r r' : List β) : compare (a ++ r) (b ++ r') = (compare a b).then (compare r r') := by
  induction a generalizing b with
  | nil =>
    obtain rfl := hab List.nil_prefix
    rfl
  | cons x a ih =>
    cases b with
    | nil => cases hba List.nil_prefix
    | cons y b =>
      rw [List.cons_append, List.cons_append, List.compare_cons_cons, List.compare_cons_cons]
      cases hxy : compare x y with
      | lt => rfl
      | gt => rfl
      | eq =>
        obtain rfl := Std.LawfulEqOrd.eq_of_compare hxy
        exact ih (fun h => (List.cons.inj (hab ((List.prefix_cons_inj x).2 h))).2)
          fun h => (List.cons.inj (hba ((List.prefix_cons_inj x).2 h))).2

theorem compare_append_of_length {a b : List β} (h : a.length = b.length) (r r' : List β) :
    compare (a ++ r) (b ++ r') = (compare a b).then (compare r r') :=
  compare_append_of_not_prefix (fun hp => hp.eq_of_length h)
    (fun hp => (hp.eq_of_length h.symm).symm) r r'

end Lists

namespace Text

theorem compare_chars_eq_lt {a b : List Char} : compare a b = .lt ↔ a < b := by
  induction a generalizing b with
  | nil =>
    cases b with
    | nil => exact ⟨fun h => (nomatch h), fun h => absurd h (List.lt_irrefl _)⟩
    | cons y b => exact ⟨fun _ => List.nil_lt_cons _ _, fun _ => rfl⟩
  | cons x a ih =>
    cases b with
    | nil => exact ⟨fun h => (nomatch h), fun h => absurd h (List.not_lt_nil _)⟩
    | cons y b =>
      have hfirst : compare x y = .lt ↔ x < y := compareOfLessAndEq_eq_lt
      rw [List.compare_cons_cons, Ordering.then_eq_lt, List.cons_lt_cons_iff, ih, hfirst,
        Std.compare_eq_iff_eq]

/-- Texts are ordered as the lists of their characters. -/
theorem compare_toList (s t : String) : compare s t = compare s.toList t.toList := by
  have hlt (s t : String) : compare s t = .lt ↔ compare s.toList t.toList = .lt :=
    compare_eq_lt.trans compare_chars_eq_lt.symm
  cases h : compare s.toList t.toList with
  | lt => exact (hlt s t).2 h
  | eq =>
    rw [Std.compare_eq_iff_eq, String.toList_inj] at h
    exact Std.compare_eq_iff_eq.2 h
  | gt => exact Std.OrientedCmp.gt_iff_lt.2 ((hlt t s).2 (Std.OrientedCmp.gt_iff_lt.1 h))

end Text

/-! ## Written texts -/

namespace Json

/-- A written text ends by itself. -/
theorem eq_of_writeText_prefix {s t : String} (h : writeText s <+: writeText t) : s = t := by
  obtain ⟨rest, hrest⟩ := h
  unfold writeText at hrest
  rw [List.append_assoc, List.cons_append, List.cons_append] at hrest
  have hread := readText_writeText s.toList rest
  have htail : s.toList.flatMap writeChar ++ '"' :: rest = t.toList.flatMap writeChar ++ ['"'] :=
    (List.cons.inj hrest).2
  rw [htail, readText_writeText] at hread
  exact String.toList_inj.1 (Prod.mk.inj (Option.some.inj hread)).1.symm

/-- Two written texts decide before what follows them. -/
theorem compare_writeText_append (s t : String) (r r' : List Char) :
    compare (writeText s ++ r) (writeText t ++ r') =
      (compare (writeText s) (writeText t)).then (compare r r') :=
  compare_append_of_not_prefix (fun h => eq_of_writeText_prefix h ▸ rfl)
    (fun h => eq_of_writeText_prefix h ▸ rfl) r r'

end Json

/-! ## Key strings -/

theorem Fields.Textual.first {tag : Nat} {name : String} {shape : Shape} {rest : Fields}
    (h : (Fields.cons tag name shape rest).Textual) : shape.Textual := h.1

theorem Fields.Textual.others {tag : Nat} {name : String} {shape : Shape} {rest : Fields}
    (h : (Fields.cons tag name shape rest).Textual) : rest.Textual := h.2

mutual

/-- The texts of a value. -/
def Shape.texts : (s : Shape) → s.Textual → s.Val → List String
  | .leaf .text, _, v => [v]
  | .leaf .texts, h, _ | .leaf .word32, h, _ | .leaf .word64, h, _ | .leaf .int64, h, _
  | .leaf .real, h, _ | .leaf (.choice _), h, _ => h.elim
  | .record fields, h, v => fields.texts h v

/-- The texts of the values of fields, one field after another. -/
def Fields.texts : (fs : Fields) → fs.Textual → fs.Val → List String
  | .nil, _, _ => []
  | .cons _ _ shape rest, h, v => shape.texts h.first v.1 ++ rest.texts h.others v.2

end

mutual

theorem Shape.length_texts : (s : Shape) → (h : s.Textual) → (v w : s.Val) →
    (s.texts h v).length = (s.texts h w).length
  | .leaf .text, _, _, _ => rfl
  | .leaf .texts, h, _, _ | .leaf .word32, h, _, _ | .leaf .word64, h, _, _
  | .leaf .int64, h, _, _ | .leaf .real, h, _, _ | .leaf (.choice _), h, _, _ => h.elim
  | .record fields, h, v, w => fields.length_texts h v w

theorem Fields.length_texts : (fs : Fields) → (h : fs.Textual) → (v w : fs.Val) →
    (fs.texts h v).length = (fs.texts h w).length
  | .nil, _, _, _ => rfl
  | .cons _ _ shape rest, h, v, w => by
    simp only [Fields.texts, List.length_append]
    rw [shape.length_texts h.first v.1 w.1, rest.length_texts h.others v.2 w.2]

end

mutual

/-- **Written values are ordered as the written texts in them**, and decide before what follows
them. -/
theorem Shape.compare_writeJson : (s : Shape) → (h : s.Textual) → (v w : s.Val) →
    (r r' : List Char) → compare (s.writeJson h v ++ r) (s.writeJson h w ++ r') =
      (compare ((s.texts h v).map Json.writeText) ((s.texts h w).map Json.writeText)).then
        (compare r r')
  | .leaf .text, _, v, w, r, r' => by
    refine (Json.compare_writeText_append v w r r').trans ?_
    show _ = (compare [Json.writeText v] [Json.writeText w]).then _
    rw [List.compare_cons_cons, List.compare_nil_nil, Ordering.then_eq]
  | .leaf .texts, h, _, _, _, _ | .leaf .word32, h, _, _, _, _ | .leaf .word64, h, _, _, _, _
  | .leaf .int64, h, _, _, _, _ | .leaf .real, h, _, _, _, _ | .leaf (.choice _), h, _, _, _, _ =>
    h.elim
  | .record fields, h, v, w, r, r' => by
    have hbraces (v : fields.Val) (r : List Char) : (Shape.record fields).writeJson h v ++ r =
        ['\x7b'] ++ (fields.writeJson h true v ++ (['\x7d'] ++ r)) := by
      simp only [Shape.writeJson, List.cons_append, List.append_assoc, List.nil_append]
    rw [hbraces, hbraces, compare_append_left]
    refine (fields.compare_writeJson h true v w _ _).trans ?_
    rw [compare_append_left]
    rfl

/-- Written fields, one after another; their names are alike. -/
theorem Fields.compare_writeJson : (fs : Fields) → (h : fs.Textual) → (first : Bool) →
    (v w : fs.Val) → (r r' : List Char) →
    compare (fs.writeJson h first v ++ r) (fs.writeJson h first w ++ r') =
      (compare ((fs.texts h v).map Json.writeText) ((fs.texts h w).map Json.writeText)).then
        (compare r r')
  | .nil, _, _, _, _, _, _ => rfl
  | .cons tag name shape rest, h, first, v, w, r, r' => by
    have hparts (v : (Fields.cons tag name shape rest).Val) (r : List Char) :
        (Fields.cons tag name shape rest).writeJson h first v ++ r =
          ((if first then [] else [',']) ++ Json.writeText name ++ [':']) ++
            (shape.writeJson h.1 v.1 ++ (rest.writeJson h.2 false v.2 ++ r)) := by
      simp only [Fields.writeJson, List.cons_append, List.append_assoc, List.nil_append]
    have htexts (v : (Fields.cons tag name shape rest).Val) :
        ((Fields.cons tag name shape rest).texts h v).map Json.writeText =
          (shape.texts h.1 v.1).map Json.writeText ++ (rest.texts h.2 v.2).map Json.writeText :=
      List.map_append
    have hlength : ((shape.texts h.1 v.1).map Json.writeText).length =
        ((shape.texts h.1 w.1).map Json.writeText).length := by
      rw [List.length_map, List.length_map, shape.length_texts h.1 v.1 w.1]
    rw [hparts, hparts, compare_append_left, shape.compare_writeJson, rest.compare_writeJson,
      htexts, htexts, compare_append_of_length hlength, Ordering.then_assoc]

end

/-! ## Keys -/

/-- A type of keys that are ordered as their texts, and whose key strings are ordered as the written
forms of these. -/
class TextKey (κ : Type) [ObjKey κ] where
  texts : κ → List String
  compare_eq : ∀ k k' : κ, compare k k' = compare (texts k) (texts k')
  compare_keyString : ∀ k k' : κ, compare (ObjKey.keyString k).toList (ObjKey.keyString k').toList =
    compare ((texts k).map Json.writeText) ((texts k').map Json.writeText)

namespace Record

variable {κ : Type} [Record κ] (h : (shape κ).Textual)

/-- The texts of a record, one field after another. -/
def texts (k : κ) : List String := (shape κ).texts h (toVal k)

theorem compare_keyString (k k' : κ) :
    compare (keyString h k).toList (keyString h k').toList =
      compare ((texts h k).map Json.writeText) ((texts h k').map Json.writeText) := by
  have hcompare := (shape κ).compare_writeJson h (toVal k) (toVal k') [] []
  rw [List.append_nil, List.append_nil, List.compare_nil_nil, Ordering.then_eq] at hcompare
  unfold keyString
  rw [String.toList_ofList, String.toList_ofList]
  exact hcompare

end Record

/-- A list of one is ordered as what it holds. -/
theorem compare_singleton {β : Type} [Ord β] (a b : β) : compare [a] [b] = compare a b := by
  rw [List.compare_cons_cons, List.compare_nil_nil, Ordering.then_eq]

instance : TextKey FlavorKey where
  texts := Record.texts FlavorKey.textual
  compare_eq _ _ := (compare_singleton _ _).symm
  compare_keyString := Record.compare_keyString FlavorKey.textual

instance : TextKey OperatorKey where
  texts := Record.texts OperatorKey.textual
  compare_eq _ _ := (compare_singleton _ _).symm
  compare_keyString := Record.compare_keyString OperatorKey.textual

instance : TextKey ControllerKey where
  texts := Record.texts ControllerKey.textual
  compare_eq _ _ := (compare_singleton _ _).symm
  compare_keyString := Record.compare_keyString ControllerKey.textual

instance : TextKey CloudletKey where
  texts := Record.texts CloudletKey.textual
  compare_eq k k' := by
    show (compare _ _).then (compare _ _) = compare [k.operatorKey.name, k.name] [_, _]
    rw [List.compare_cons_cons, compare_singleton]
    rfl
  compare_keyString := Record.compare_keyString CloudletKey.textual

instance : TextKey AppKey where
  texts := Record.texts AppKey.textual
  compare_eq k k' := by
    show (compare _ _).then ((compare _ _).then (compare _ _)) =
      compare [k.developerKey.name, k.name, k.version] [_, _, _]
    rw [List.compare_cons_cons, List.compare_cons_cons, compare_singleton]
    rfl
  compare_keyString := Record.compare_keyString AppKey.textual

instance : TextKey RateLimitSettingsKey where
  texts := Record.texts RateLimitSettingsKey.textual
  compare_eq k k' := by
    show (compare _ _).then ((compare _ _).then (compare _ _)) =
      compare [k.apiName, k.apiEndpointType, k.rateLimitTarget] [_, _, _]
    rw [List.compare_cons_cons, List.compare_cons_cons, compare_singleton]
    rfl
  compare_keyString := Record.compare_keyString RateLimitSettingsKey.textual

instance : TextKey AppInstKey where
  texts := Record.texts AppInstKey.textual
  compare_eq k k' := by
    show (compare k.appKey k'.appKey).then (compare k.cloudletKey k'.cloudletKey) =
      compare (TextKey.texts k.appKey ++ TextKey.texts k.cloudletKey)
        (TextKey.texts k'.appKey ++ TextKey.texts k'.cloudletKey)
    have hlength : (TextKey.texts k.appKey).length = (TextKey.texts k'.appKey).length := rfl
    rw [compare_append_of_length hlength, TextKey.compare_eq k.appKey,
      TextKey.compare_eq k.cloudletKey]
  compare_keyString := Record.compare_keyString AppInstKey.textual

/-- There is one key of settings. -/
instance : TextKey SettingsKey where
  texts _ := []
  compare_eq _ _ := rfl
  compare_keyString _ _ := Std.compare_self

instance : (k : Kind) → TextKey (Entity.Key k.Obj)
  | .app => inferInstanceAs (TextKey AppKey)
  | .appInst => inferInstanceAs (TextKey AppInstKey)
  | .cloudlet => inferInstanceAs (TextKey CloudletKey)
  | .controller => inferInstanceAs (TextKey ControllerKey)
  | .flavor => inferInstanceAs (TextKey FlavorKey)
  | .operator => inferInstanceAs (TextKey OperatorKey)
  | .rateLimitSettings => inferInstanceAs (TextKey RateLimitSettingsKey)
  | .settings => inferInstanceAs (TextKey SettingsKey)

/-- **Store keys are ordered as the written texts of their keys.** -/
theorem Entity.compare_storeKey {α : Type} [Entity α] [TextKey (Key α)] (k k' : Key α) :
    compare (storeKey k) (storeKey k') =
      compare ((TextKey.texts k).map Json.writeText) ((TextKey.texts k').map Json.writeText) := by
  rw [Text.compare_toList]
  unfold storeKey
  rw [String.toList_append, String.toList_append, compare_append_left, TextKey.compare_keyString]

/-! ## Texts that are ordered as they are written -/

/-- A text all of whose characters come after the quote that ends its written form. -/
def Text.Plain (s : String) : Prop := ∀ c ∈ s.toList, '"' < c

instance : DecidablePred Text.Plain := fun s =>
  inferInstanceAs (Decidable (∀ c ∈ s.toList, '"' < c))

namespace Json

/-- A character that comes after the quote is written with itself in front. -/
theorem writeChar_of_quote_lt {c : Char} (h : '"' < c) : ∃ more, writeChar c = c :: more := by
  have hlow : ∀ n < 0x23, ¬ '"' < Char.ofNat n := by decide
  unfold writeChar
  split
  case h_8 =>
    have hhigh : ¬ c.toNat < 0x20 := fun hc => by
      have := hlow c.toNat (by omega)
      rw [Char.ofNat_toNat] at this
      exact this h
    rw [if_neg hhigh]
    exact ⟨[], rfl⟩
  case h_2 => exact ⟨['\\'], rfl⟩
  all_goals exact absurd h (by decide)

/-- Written characters up to the quote that ends them. -/
theorem compare_writeChars {a b : List Char} (ha : ∀ c ∈ a, '"' < c) (hb : ∀ c ∈ b, '"' < c) :
    compare (a.flatMap writeChar ++ ['"']) (b.flatMap writeChar ++ ['"']) = compare a b := by
  have hquote {c : Char} (h : '"' < c) : compare '"' c = .lt := compareOfLessAndEq_eq_lt.2 h
  induction a generalizing b with
  | nil =>
    cases b with
    | nil => rfl
    | cons d b =>
      -- the text that ends has its quote there
      have hlt := hb d List.mem_cons_self
      obtain ⟨more, hd⟩ := writeChar_of_quote_lt hlt
      rw [List.flatMap_nil, List.nil_append, List.flatMap_cons, hd, List.cons_append,
        List.cons_append, List.compare_cons_cons, hquote hlt]
      rfl
  | cons c a ih =>
    rw [List.forall_mem_cons] at ha
    obtain ⟨more, hc⟩ := writeChar_of_quote_lt ha.1
    cases b with
    | nil =>
      rw [List.flatMap_nil, List.nil_append, List.flatMap_cons, hc, List.cons_append,
        List.cons_append, List.compare_cons_cons, Std.OrientedCmp.gt_iff_lt.2 (hquote ha.1)]
      rfl
    | cons d b =>
      rw [List.forall_mem_cons] at hb
      obtain ⟨more', hd⟩ := writeChar_of_quote_lt hb.1
      rw [List.compare_cons_cons, List.flatMap_cons, List.flatMap_cons]
      cases hcd : compare c d with
      | eq =>
        obtain rfl := Std.LawfulEqOrd.eq_of_compare hcd
        rw [List.append_assoc, List.append_assoc, compare_append_left, ih ha.2 hb.2]
        rfl
      | lt | gt =>
        rw [hc, hd, List.cons_append, List.cons_append, List.cons_append,
          List.cons_append, List.compare_cons_cons, hcd]
        rfl

/-- **Texts without spaces, exclamation marks, quotes and control characters are ordered as they are
written.** -/
theorem compare_writeText {s t : String} (hs : Text.Plain s) (ht : Text.Plain t) :
    compare (writeText s) (writeText t) = compare s t := by
  unfold writeText
  rw [Text.compare_toList, ← compare_writeChars hs ht]
  exact compare_append_left ['"'] _ _

theorem compare_writeTexts {ts us : List String} (ht : ∀ t ∈ ts, Text.Plain t)
    (hu : ∀ t ∈ us, Text.Plain t) :
    compare (ts.map writeText) (us.map writeText) = compare ts us := by
  induction ts generalizing us with
  | nil => cases us <;> rfl
  | cons t ts ih =>
    cases us with
    | nil => rfl
    | cons u us =>
      rw [List.forall_mem_cons] at ht hu
      rw [List.map_cons, List.map_cons, List.compare_cons_cons, List.compare_cons_cons,
        compare_writeText ht.1 hu.1, ih ht.2 hu.2]

end Json

namespace Entity

variable {α : Type} [Entity α] [TextKey (Key α)]

/-- **Keys of plain texts are ordered as their store keys.** -/
theorem compare_storeKey_of_plain {k k' : Key α} (h : ∀ t ∈ TextKey.texts k, Text.Plain t)
    (h' : ∀ t ∈ TextKey.texts k', Text.Plain t) :
    compare (storeKey k) (storeKey k') = compare k k' := by
  rw [compare_storeKey, TextKey.compare_eq, Json.compare_writeTexts h h']

end Entity

end Inventory
