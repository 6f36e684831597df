import Inventory.Proofs.Cbor.Leaf

/-!
# Records that were written

What is read from a record that was written, whatever bytes follow it.

* `Shape.readable`: the names of a schema are short and tell its fields apart, and it nests no
  deeper than a reader goes.
* `Fields.read_write`: the entries of a map are read one after another, each into its own field.
* `Shape.read_write`: **a record is read as it was written**.
-/

namespace Inventory

/-! ## Schemas that can be read -/

/-- The names of some fields. -/
def Fields.names : Fields → List String
  | .nil => []
  | .cons _ name _ rest => name :: rest.names

mutual

/-- Whether a reader that goes so many levels deep tells the fields apart. -/
def Shape.readable : Shape → Nat → Bool
  | .leaf _, budget => budget != 0
  | .record _, 0 => false
  | .record fields, budget + 1 => decide (fields.count < 2 ^ 64) && fields.readable budget

/-- Whether a reader that goes so many levels deep into each field tells the fields apart. -/
def Fields.readable : Fields → Nat → Bool
  | .nil, _ => true
  | .cons _ name shape rest, budget =>
    decide ((Text.utf8 name).length ≤ Cbor.maxName) && !rest.names.contains name &&
      shape.readable budget && rest.readable budget

end

mutual

/-- A value whose lengths heads can hold. -/
def Shape.Fits : (s : Shape) → s.Val → Prop
  | .leaf kind, v => kind.Fits v
  | .record fields, v => fields.Fits v

/-- Values whose lengths heads can hold. -/
def Fields.Fits : (fs : Fields) → fs.Val → Prop
  | .nil, _ => True
  | .cons _ _ shape rest, v => shape.Fits v.1 ∧ rest.Fits v.2

end

mutual

instance Shape.decidableFits : (s : Shape) → (v : s.Val) → Decidable (s.Fits v)
  | .leaf kind, v => kind.decidableFits v
  | .record fields, v => fields.decidableFits v

instance Fields.decidableFits : (fs : Fields) → (v : fs.Val) → Decidable (fs.Fits v)
  | .nil, _ => isTrue trivial
  | .cons _ _ shape rest, v =>
    have := shape.decidableFits v.1
    have := rest.decidableFits v.2
    inferInstanceAs (Decidable (shape.Fits v.1 ∧ rest.Fits v.2))

end

mutual

/-- A value as it comes back. -/
def Shape.canonical : (s : Shape) → s.Val → s.Val
  | .leaf kind, v => kind.canonical v
  | .record fields, v => fields.canonical v

/-- Values as they come back. -/
def Fields.canonical : (fs : Fields) → fs.Val → fs.Val
  | .nil, _ => ()
  | .cons _ _ shape rest, v => (shape.canonical v.1, rest.canonical v.2)

end

/-- All values read. -/
def Fields.filled : (fs : Fields) → fs.Val → fs.Partial
  | .nil, _ => ()
  | .cons _ _ _ rest, v => (some v.1, rest.filled v.2)

@[simp] theorem Fields.complete_filled (fs : Fields) (v : fs.Val) :
    fs.complete (fs.filled v) = v := by
  match fs, v with
  | .nil, _ => rfl
  | .cons _ _ _ rest, (v, vs) => exact congrArg (v, ·) (rest.complete_filled vs)

/-! ## Reading -/

theorem Cbor.readEntry_writeText {σ : Type} {field : Bytes → σ → Bytes → Option (σ × Bytes)}
    {name : String} (h : (Text.utf8 name).length ≤ Cbor.maxName) (st : σ) (rest : Bytes) :
    Cbor.readEntry field st (Cbor.writeText name ++ rest) = field (Text.utf8 name) st rest := by
  unfold Cbor.readEntry
  rw [Cbor.readName_writeText h]

mutual

/-- **A record is read as it was written**, with one value for all that stand for no number. -/
theorem Shape.read_write : (s : Shape) → (v : s.Val) → {budget : Nat} →
    s.readable budget = true → s.Fits v → (rest : Bytes) →
    s.read budget (s.write v ++ rest) = some (s.canonical v, rest)
  | .leaf kind, v, budget, hread, hfits, rest => by
    have hbudget : budget ≠ 0 := by simpa [Shape.readable] using hread
    simp only [Shape.read, Shape.write, Shape.canonical]
    exact kind.read_write hfits hbudget rest
  | .record _, _, 0, hread, _, _ => by simp [Shape.readable] at hread
  | .record fields, v, budget + 1, hread, hfits, rest => by
    simp only [Shape.readable, Bool.and_eq_true, decide_eq_true_eq] at hread
    obtain ⟨hcount, hread⟩ := hread
    have hentries := fields.read_write v hread hfits (fields.readField budget) id
      (fun name _ p bs => (congrFun Option.map_id _).symm) rest
    simp only [Shape.read, Shape.write, Shape.canonical, List.append_assoc,
      Cbor.untagged_map hcount, Cbor.forEntries]
    rw [show fields.blank = id fields.blank from rfl, hentries]
    simp

/-- The entries of a map are read one after another. The map may have more fields than these:
`put` places these among them, and `step` reads an entry of the map. -/
theorem Fields.read_write : (fs : Fields) → (v : fs.Val) → {budget : Nat} →
    fs.readable budget = true → fs.Fits v → {σ : Type} →
    (step : Bytes → σ → Bytes → Option (σ × Bytes)) → (put : fs.Partial → σ) →
    (∀ name ∈ fs.names, ∀ (p : fs.Partial) (bs : Bytes), step (Text.utf8 name) (put p) bs =
      (fs.readField budget (Text.utf8 name) p bs).map fun r => (put r.1, r.2)) →
    (rest : Bytes) →
    Cbor.repeatStep (Cbor.readEntry step) fs.count (put fs.blank) (fs.write v ++ rest) =
      some (put (fs.filled (fs.canonical v)), rest)
  | .nil, _, _, _, _, _, step, put, _, rest => rfl
  | .cons tag name shape fs, v, budget, hread, hfits, σ, step, put, hstep, rest => by
    simp only [Fields.readable, Bool.and_eq_true, decide_eq_true_eq, Bool.not_eq_true',
      List.contains_eq_mem, decide_eq_false_iff_not] at hread
    obtain ⟨⟨⟨hname, hother⟩, hshape⟩, hrest⟩ := hread
    have hfirst := hstep name List.mem_cons_self (none, fs.blank)
      (shape.write v.1 ++ (fs.write v.2 ++ rest))
    simp only [Fields.readField, if_true, shape.read_write v.1 hshape hfits.1, Option.map_some]
      at hfirst
    -- the other fields have other names, so an entry of theirs leaves this one alone
    have hlater := fs.read_write v.2 hrest hfits.2 step
      (fun p => put (some (shape.canonical v.1), p))
      (fun later hl p bs => by
        have hne : Text.utf8 later ≠ Text.utf8 name := fun h => by
          rw [Text.utf8_injective h] at hl
          exact hother hl
        rw [hstep later (List.mem_cons_of_mem _ hl)]
        simp only [Fields.readField, if_neg hne, Option.map_map]
        rfl)
      rest
    simp only [Fields.write, Fields.count, Fields.blank, Fields.filled, Fields.canonical,
      List.append_assoc]
    unfold Cbor.repeatStep
    rw [Cbor.readEntry_writeText hname, hfirst]
    exact hlater

end

/-- **Decoding undoes encoding**, whatever follows. -/
theorem Shape.decode_write (s : Shape) (v : s.Val) (hread : s.readable Cbor.maxNesting = true)
    (hfits : s.Fits v) (rest : Bytes) : s.decode (s.write v ++ rest) = some (s.canonical v) := by
  unfold Shape.decode
  rw [s.read_write v hread hfits rest]
  rfl

end Inventory
