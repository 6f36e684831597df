import Inventory.Proofs.CacheRuns
import Inventory.Proofs.Masks
import Inventory.Visit

/-!
# What a filter compares

The comparisons with a filter are written out type by type, and what there is to compare stands in
the schemas. A leaf of a filter is set if it is no list and is not zero; a zero with a sign is zero,
and what is no number is not.

* `Entity.passes_eq_agrees`: **the comparisons forget no leaf of a schema** except lists.
* `Fields.Place.eq_of_isAbove`: no leaf is above another one, so that each leaf can be named alone.
* `Entity.agrees_iff_copies_nothing`: an entity agrees with a filter exactly if a copy of the set
  leaves into it changes none.
* `Entity.filter_compares_set_leaves`: **what a cache shows for a filter is what agrees with it at
  each set leaf**, in the order of the keys.
-/

namespace Inventory

/-- Whether a leaf is a list. -/
def Leaf.isList : Leaf → Bool
  | .texts => true
  | .text | .word32 | .word64 | .int64 | .real | .choice _ => false

/-! ## Comparing leaf by leaf -/

mutual

/-- Whether a value agrees with a filter at each leaf that is no list. -/
def Shape.agrees : (s : Shape) → (v filter : s.Val) → Bool
  | .leaf kind, v, filter => kind.isList || kind.agrees v filter
  | .record fields, v, filter => fields.agrees v filter

/-- Whether the values of some fields agree with a filter at each leaf that is no list. -/
def Fields.agrees : (fs : Fields) → (v filter : fs.Val) → Bool
  | .nil, _, _ => true
  | .cons _ _ shape rest, v, filter => shape.agrees v.1 filter.1 && rest.agrees v.2 filter.2

end

/-- Whether a leaf of a filter is set: it is no list and not zero. -/
def Leaf.isSet (kind : Leaf) (filter : kind.Val) : Bool :=
  !kind.isList && !kind.same filter kind.zero

/-- Whether a leaf of the fields of a filter is set. -/
def Fields.Place.isSet {fs : Fields} (filter : fs.Val) (p : fs.Place) : Bool :=
  p.kind.isSet (p.leaf filter)

theorem Leaf.agrees_iff (kind : Leaf) (v filter : kind.Val) :
    (kind.isList || kind.agrees v filter) = true ↔
      (kind.isSet filter = true → kind.same v filter = true) := by
  unfold agrees isSet
  cases kind.isList <;> cases kind.same filter kind.zero <;> simp

mutual

theorem Shape.agrees_iff : (s : Shape) → (v filter : s.Val) →
    (s.agrees v filter = true ↔ ∀ p : s.Place, p.kind.isSet (p.leaf filter) = true →
      p.kind.same (p.leaf v) (p.leaf filter) = true)
  | .leaf kind, v, filter => by
    unfold Shape.agrees
    rw [kind.agrees_iff]
    exact ⟨fun h p => match p with | .here => h, fun h => h .here⟩
  | .record fields, v, filter => by
    unfold Shape.agrees
    rw [fields.agrees_iff]
    exact ⟨fun h p => match p with | .inside p => h p, fun h p => h (.inside p)⟩

/-- Values agree with a filter if they are the same at each leaf that is set. -/
theorem Fields.agrees_iff : (fs : Fields) → (v filter : fs.Val) →
    (fs.agrees v filter = true ↔ ∀ p : fs.Place, p.isSet filter = true →
      p.kind.same (p.leaf v) (p.leaf filter) = true)
  | .nil, _, _ => iff_of_true rfl fun p => nomatch p
  | .cons _ _ shape rest, v, filter => by
    unfold Fields.agrees
    rw [Bool.and_eq_true, shape.agrees_iff, rest.agrees_iff]
    constructor
    · rintro ⟨hshape, hrest⟩ p hp
      cases p with
      | first p => exact hshape p hp
      | later p => exact hrest p hp
    · intro h
      exact ⟨fun p => h (.first p), fun p => h (.later p)⟩

end

/-! ## Naming single leaves -/

mutual

/-- No leaf of a shape is above another one. -/
theorem Shape.Place.eq_of_isAbove : {s : Shape} → (p q : s.Place) → s.numbered = true →
    {path : FieldPath} → path.text ≠ "" → (p.path path).isAbove (q.path path).text = true → p = q
  | .leaf _, .here, .here, _, _, _, _ => rfl
  | .record _, .inside p, .inside q, hs, _, _, h =>
    congrArg Shape.Place.inside (p.eq_of_isAbove q hs h)

/-- **No leaf of a record is above another one**, where numbers tell fields apart. -/
theorem Fields.Place.eq_of_isAbove : {fs : Fields} → (p q : fs.Place) → fs.numbered = true →
    {path : FieldPath} → (p.path path).isAbove (q.path path).text = true → p = q
  | .cons tag _ _ _, .first p, .first q, hfs, path, h => by
    obtain ⟨-, hshape, -⟩ := Fields.numbered_cons.1 hfs
    exact congrArg Fields.Place.first (p.eq_of_isAbove q hshape (path.child_text_ne tag) h)
  | .cons tag _ _ _, .first p, .later q, hfs, path, h => by
    obtain ⟨hnew, -, -⟩ := Fields.numbered_cons.1 hfs
    have hown := FieldPath.isAbove_trans (p.isAbove_path (path.child_text_ne tag)) h
    exact absurd (q.isAbove_leaf path) (Fields.not_isAbove_of_new hnew hown)
  | .cons tag _ _ _, .later p, .first q, hfs, path, h => by
    obtain ⟨hnew, -, -⟩ := Fields.numbered_cons.1 hfs
    obtain ⟨tag', hmem, hleaf⟩ := p.isAbove_leaf path
    have hown := q.isAbove_path (path.child_text_ne tag)
    exact absurd ⟨tag', hmem, FieldPath.isAbove_trans hleaf h⟩
      (Fields.not_isAbove_of_new hnew hown)
  | .cons _ _ _ _, .later p, .later q, hfs, _, h => by
    obtain ⟨-, -, hrest⟩ := Fields.numbered_cons.1 hfs
    exact congrArg Fields.Place.later (p.eq_of_isAbove q hrest h)

end

namespace Entity

variable {α : Type} [Entity α]

/-- The addresses of the leaves that a filter sets. -/
def setFields (filter : α) : List String :=
  ((schema α).places.filter (·.isSet (body filter))).map fun p => (p.path .root).text

/-- A selection has exactly those leaves that a filter sets. -/
def Selects (mask : FieldMap) (filter : α) : Prop :=
  ∀ p : (schema α).Place, mask.hasPath (p.path .root) = p.isSet (body filter)

/-- An entity has the value of a filter at each leaf that the filter sets. -/
def Agrees (a filter : α) : Prop :=
  ∀ p : (schema α).Place, p.isSet (body filter) = true →
    p.kind.same (p.leaf (body a)) (p.leaf (body filter)) = true

/-- The addresses of the set leaves name no other leaf. -/
theorem selects_setFields (hschema : (schema α).numbered = true) (filter : α) :
    Selects (.ofFields (setFields filter)) filter := by
  intro p
  rw [FieldMap.hasPath_ofFields (p.path_text_ne .root), Bool.eq_iff_iff, FieldPath.isNamed_iff]
  unfold setFields
  constructor
  · rintro ⟨_, hname, habove⟩
    obtain ⟨q, hq, rfl⟩ := List.mem_map.1 hname
    obtain rfl := p.eq_of_isAbove q hschema habove
    exact (List.mem_filter.1 hq).2
  · intro hset
    exact ⟨_, List.mem_map_of_mem (List.mem_filter.2 ⟨Fields.mem_places p, hset⟩),
      FieldPath.isAbove_self _⟩

/-- **The comparison with a filter goes through all leaves of the schema**, lists apart. -/
theorem passes_eq_agrees (kind : Kind) (obj filter : kind.Obj) :
    passes obj filter = (schema kind.Obj).agrees (body obj) (body filter) := by
  -- the leaves stand in the same order, in other brackets
  cases kind <;>
    simp [passes, App.passes, AppInst.passes, Cloudlet.passes, Controller.passes, Flavor.passes,
      RateLimitSettings.passes, Settings.passes, AppKey.passes, AppInstKey.passes,
      CloudletKey.passes, ControllerKey.passes, FlavorKey.passes, OperatorKey.passes,
      RateLimitSettingsKey.passes, Loc.passes, FlowSettings.passes, MaxReqsSettings.passes,
      schema, body, Record.shape, Record.schema, Record.toVal, Fields.agrees, Shape.agrees,
      Leaf.isList, Bool.and_assoc]

theorem passes_iff_agrees (kind : Kind) (obj filter : kind.Obj) :
    passes obj filter = true ↔ Agrees obj filter := by
  rw [passes_eq_agrees]
  exact (schema kind.Obj).agrees_iff (body obj) (body filter)

/-- An entity agrees with a filter if a copy of the leaves that the filter sets changes nothing. -/
theorem agrees_iff_copies_nothing {names : List String} {obj filter : α}
    (hnames : Selects (.ofFields names) filter) :
    Agrees obj filter ↔ (copyFrom (.ofFields names) .root obj filter).2 = 0 := by
  obtain ⟨changed, -, hmem, hcount⟩ := count_copyFrom names obj filter
  rw [hcount, List.length_eq_zero_iff, List.eq_nil_iff_forall_not_mem]
  refine forall_congr' fun p => ?_
  have hset := hnames p
  rw [FieldMap.hasPath_ofFields (p.path_text_ne .root)] at hset
  rw [hmem, hset, not_and, Bool.not_eq_false]

/-- What somebody finds who looks for entities with a filter. -/
structure FindsAgreeing (filter : α) : Prop where
  /-- The leaves that the filter sets can be selected alone. -/
  selected : Selects (.ofFields (setFields filter)) filter
  /-- An entity agrees with the filter if a copy of these leaves changes nothing. -/
  copied : ∀ (obj : α) (names : List String), Selects (.ofFields names) filter →
    (passes obj filter = true ↔ (copyFrom (.ofFields names) .root obj filter).2 = 0)
  /-- Whatever has become of a cache, every visitor is shown the same entities, up to the first at
  which it fails: those that agree with the filter at the leaves that it sets, in the order of their
  keys, each once. -/
  shown : ∀ acts : List (CacheAct α), ∃ found : List α,
    ShowsEach (fun _ f x => (CacheAct.run acts (.empty α)).show filter f x) found ∧
    (∀ a, a ∈ found ↔
      (∃ k, (CacheAct.run acts (.empty α)).get? k = some a) ∧ Agrees a filter) ∧
    found.Pairwise fun a b => compare (key a) (key b) = .lt

/-- **A filter compares the leaves that it sets, and no others.** Whatever the filter and an entity
of its kind are, they agree exactly if a copy of the set leaves from the filter into the entity
changes none. What a cache shows for a filter are the entities in it that agree with each set leaf,
each once, in the order of their keys. -/
theorem filter_compares_set_leaves (kind : Kind) (filter : kind.Obj) : FindsAgreeing filter where
  selected := selects_setFields kind.numbered filter
  copied obj names hnames :=
    (passes_iff_agrees kind obj filter).trans (agrees_iff_copies_nothing hnames)
  shown acts := by
    have hkeyed := CacheAct.keyed_run (Cache.Keyed.empty kind.Obj) acts
    refine ⟨(CacheAct.run acts (.empty kind.Obj)).matching filter, ?_, fun a => ?_, ?_⟩
    · exact showsEach_visit _
    · unfold Cache.matching
      rw [List.mem_filter, Cache.mem_objects, passes_iff_agrees]
    · exact hkeyed.objects_sorted.filter _

/-- A cloudlet on the equator at a longitude that is no number. -/
def nowhere : Cloudlet := ⟨[], ⟨⟨"o"⟩, ""⟩, "", ⟨.ofMagnitude true 0, .nan, .zero⟩, ""⟩

/-- A zero with a sign sets nothing, and what is no number agrees with nothing. -/
example : setFields nowhere = ["2.1.1", "5.2"] ∧ passes nowhere nowhere = false := by
  decide +kernel

end Entity

end Inventory
