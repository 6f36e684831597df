import Inventory.Proofs.Cbor.Extent
import Inventory.Proofs.Cbor.Head

/-!
# Well-formed items

Where a reader comes upon an entry that it does not know, any well-formed item can stand. `Item` is
the type of these: numbers written with any argument that holds them, strings in one piece or in
many, arrays and maps that are counted or end with a stop, tags, simple values and floats.

* `Item.write`: the bytes of an item.
* `Item.nesting`: how many levels an item nests, as they are counted when it is passed over.
* `Item.familiar`: whether an item holds nothing but what can be passed over. No simple values but
  false, true, null and undefined can, no texts that are not made of characters, and no negative
  numbers given as a few bytes that are too low for sixteen bytes with a sign.
* `Item.skip_write`: **an item is passed over as a whole exactly if it is familiar and nests no
  deeper than allowed**.
-/

namespace Inventory.Cbor

/-! ## Lengths -/

/-- The head of a major type with a length, or with none before what ends with a stop. -/
def writeLength (major : Nat) : Option Numeral → Bytes
  | some n => n.write major
  | none => [UInt8.ofNat (major * 32 + 31)]

theorem read_writeLength (length : Option Numeral) {major : Nat} (hmajor : major < 8)
    {head : Option Nat → Head}
    (hhead : ∀ a : Argument, Head.ofArgument major a = some (head a.number?)) (rest : Bytes) :
    Head.read (writeLength major length ++ rest) =
      some (head (length.map Numeral.value), rest) := by
  cases length with
  | some n =>
    refine (n.read_write hmajor rest).trans ?_
    rw [hhead, Numeral.number?_argument]
    rfl
  | none =>
    refine (Head.read_cons hmajor (by omega) rfl).trans ?_
    rw [hhead]
    rfl

/-- A stop. -/
def stop : Bytes := [0xff]

theorem read_stop (rest : Bytes) : Head.read (stop ++ rest) = some (.stop, rest) := rfl

/-! ## Strings -/

/-- A byte string or text in one piece. -/
structure Piece where
  size : Numeral
  content : Bytes
  length_eq : content.length = size.value

/-- A byte string or text in one piece or in many. -/
inductive Str where
  | whole (p : Piece)
  | pieces (ps : List Piece)

/-- The bytes of a piece. -/
def Piece.write (major : Nat) (p : Piece) : Bytes := p.size.write major ++ p.content

namespace Str

/-- The length that is told before the content. -/
def length? : Str → Option Numeral
  | whole p => some p.size
  | pieces _ => none

/-- What stands behind the head. -/
def tail (major : Nat) : Str → Bytes
  | whole p => p.content
  | pieces ps => ps.flatMap (Piece.write major) ++ stop

/-- The bytes of a string. -/
def write (major : Nat) (s : Str) : Bytes := writeLength major s.length? ++ s.tail major

/-- The length as a number. -/
def length (s : Str) : Option Nat := s.length?.map Numeral.value

/-- The content, piece by piece. -/
def contents : Str → List Bytes
  | whole p => [p.content]
  | pieces ps => ps.map Piece.content

/-- Whether each piece is a text. -/
def isText (s : Str) : Bool := s.contents.all fun bs => (Text.ofUtf8? bs).isSome

end Str

/-- The strings that a major type is for. -/
structure PieceHead.Of (kind : PieceHead) (major : Nat) : Prop where
  major_lt : major < 8
  head (a : Argument) : ∃ head, Head.ofArgument major a = some head ∧ head ≠ .stop ∧
    kind head = some a.number?

theorem PieceHead.bytes_of : PieceHead.bytes.Of 2 :=
  ⟨by omega, fun a => ⟨.bytes a.number?, rfl, (nomatch ·), rfl⟩⟩

theorem PieceHead.text_of : PieceHead.text.Of 3 :=
  ⟨by omega, fun a => ⟨.text a.number?, rfl, (nomatch ·), rfl⟩⟩

/-- Pieces up to a stop are read one after another. -/
theorem readPieces_write {kind : PieceHead} {major : Nat} (hkind : kind.Of major) (ps : List Piece)
    (rest : Bytes) {fuel : Nat}
    (hfuel : (ps.flatMap (Piece.write major) ++ (stop ++ rest)).length ≤ fuel) :
    readPieces kind fuel 1 (ps.flatMap (Piece.write major) ++ (stop ++ rest)) =
      some (ps.map Piece.content, rest) := by
  induction ps generalizing fuel with
  | nil =>
    obtain ⟨fuel, rfl⟩ : ∃ n, fuel = n + 1 := ⟨fuel - 1, by simp [stop] at hfuel; omega⟩
    exact (readPieces_stop (read_stop rest)).trans (if_pos (by omega))
  | cons p ps ih =>
    have hpos := p.size.write_length_pos major
    obtain ⟨fuel, rfl⟩ : ∃ n, fuel = n + 1 := ⟨fuel - 1, by simp [Piece.write] at hfuel; omega⟩
    obtain ⟨head, hhead, hstop, hlength⟩ := hkind.head p.size.argument
    have hread := p.size.read_write hkind.major_lt
      (p.content ++ (ps.flatMap (Piece.write major) ++ (stop ++ rest)))
    rw [hhead, Option.map_some] at hread
    have hlater := @ih fuel (by simp [Piece.write] at hfuel ⊢; omega)
    rw [List.flatMap_cons, Piece.write, List.append_assoc, List.append_assoc,
      readPieces_head hread hstop, hlength]
    simp only [Numeral.number?_argument, Option.bind_some, takeExact_append p.length_eq, hlater,
      Option.map_some, List.map_cons]

/-- The content of a string is read piece by piece. -/
theorem readContent_write {kind : PieceHead} {major : Nat} (hkind : kind.Of major) (s : Str)
    (rest : Bytes) :
    readContent kind s.length (s.tail major ++ rest) = some (s.contents, rest) := by
  cases s with
  | whole p =>
    show (takeExact p.size.value (p.content ++ rest)).map _ = _
    rw [takeExact_append p.length_eq]
    rfl
  | pieces ps =>
    show readPieces kind _ 1 ((ps.flatMap (Piece.write major) ++ stop) ++ rest) = _
    rw [List.append_assoc]
    exact readPieces_write hkind ps rest (by rw [← List.append_assoc]; exact Nat.le_refl _)

theorem joinTexts_isSome (pieces : List Bytes) :
    (joinTexts pieces).isSome = pieces.all fun bs => (Text.ofUtf8? bs).isSome := by
  unfold joinTexts
  rw [Option.isSome_map]
  induction pieces with
  | nil => rfl
  | cons bs pieces ih =>
    rw [List.mapM_cons, List.all_cons, ← ih]
    cases Text.ofUtf8? bs with
    | none => rfl
    | some s => cases pieces.mapM Text.ofUtf8? <;> rfl

/-! ## Counted and uncounted entries -/

/-- How a number of entries is announced: it is told before them, or a stop follows them. -/
inductive Extent : Nat → Type where
  | counted (n : Numeral) : Extent n.value
  | stopped (count : Nat) : Extent count

namespace Extent

variable {count : Nat}

/-- The number that is told before the entries. -/
def length? : Extent count → Option Numeral
  | counted n => some n
  | stopped _ => none

/-- The number that is told before the entries. -/
def length (e : Extent count) : Option Nat := e.length?.map Numeral.value

/-- What stands behind the entries. -/
def close : Extent count → Bytes
  | counted _ => []
  | stopped _ => stop

end Extent

/-- Does a step for the entries that are left: until a stop comes, or a number of times. -/
def follow {σ : Type} {count : Nat} (e : Extent count) (step : σ → Bytes → Option (σ × Bytes))
    (left fuel : Nat) (st : σ) (bs : Bytes) : Option (σ × Bytes) :=
  match e with
  | .counted _ => repeatStep step left st bs
  | .stopped _ => repeatToStop step fuel st bs

section Follow

variable {σ : Type} {count left fuel : Nat} {step : σ → Bytes → Option (σ × Bytes)} {st : σ}
  {bs rest : Bytes}

theorem forEntries_eq_follow (e : Extent count) :
    forEntries step e.length st bs = follow e step count bs.length st bs := by
  cases e <;> rfl

/-- Behind the last entry nothing more is done. -/
theorem follow_close (e : Extent count) (hfuel : (e.close ++ rest).length ≤ fuel) :
    follow e step 0 fuel st (e.close ++ rest) = some (st, rest) := by
  cases e with
  | counted n => rfl
  | stopped =>
    obtain ⟨fuel, rfl⟩ : ∃ n, fuel = n + 1 :=
      ⟨fuel - 1, by simp [Extent.close, stop] at hfuel; omega⟩
    show repeatToStop step (fuel + 1) st (stop ++ rest) = _
    exact repeatToStop_stop (read_stop rest)

/-- Before that a step is done. -/
theorem follow_entry (e : Extent count) (h : ∀ rest, Head.read bs ≠ some (.stop, rest)) :
    follow e step (left + 1) (fuel + 1) st bs =
      (step st bs).bind fun r => follow e step left fuel r.1 r.2 := by
  cases e with
  | counted n =>
    show repeatStep step (left + 1) st bs = _
    rw [repeatStep]
    cases step st bs <;> rfl
  | stopped => exact repeatToStop_step h

/-- Where one reader goes on where another ended, both conditions have to hold. -/
theorem ite_bind_ite {α β : Type} {c d : Prop} [Decidable c] [Decidable d] {x : α} {y : β}
    {z : Bytes} {k : α → Bytes → Option β} (h : k x z = if d then some y else none) :
    ((if c then some (x, z) else none).bind fun r => k r.1 r.2) =
      if c ∧ d then some y else none := by
  by_cases hc : c
  · rw [if_pos hc, ite_and, if_pos hc]
    exact h
  · rw [if_neg hc, if_neg fun hcd => hc hcd.1]
    rfl

end Follow

/-! ## Items -/

/-- An array or a map. -/
inductive Collection where
  | array | map

namespace Collection

def major : Collection → Nat
  | array => 4
  | map => 5

/-- How many items belong to an entry, besides the first. -/
def more : Collection → Nat
  | array => 0
  | map => 1

def head : Collection → Option Nat → Head
  | array => .array
  | map => .map

end Collection

mutual

/-- A well-formed item. -/
inductive Item where
  | unsigned (n : Numeral)
  | negative (n : Numeral)
  | bytes (s : Str)
  | text (s : Str)
  | collection (kind : Collection) {count : Nat} (extent : Extent count)
      (entries : Entries kind.more count)
  | tag (n : Numeral) (item : Item)
  | simple (n : Fin 24)
  | simpleByte (n : UInt8) (h : 32 ≤ n)
  | half (bits : UInt16)
  | single (bits : UInt32)
  | double (bits : UInt64)

/-- Items one after another. -/
inductive Items : Nat → Type where
  | nil : Items 0
  | cons {size : Nat} (first : Item) (rest : Items size) : Items (size + 1)

/-- The entries of a collection, each an item and a number of items more. -/
inductive Entries : Nat → Nat → Type where
  | nil {more : Nat} : Entries more 0
  | cons {more count : Nat} (first : Items (more + 1)) (rest : Entries more count) :
      Entries more (count + 1)

end

mutual

/-- The bytes of an item. -/
def Item.write : Item → Bytes
  | .unsigned n => n.write 0
  | .negative n => n.write 1
  | .bytes s => s.write 2
  | .text s => s.write 3
  | .collection kind extent entries =>
    writeLength kind.major extent.length? ++ (entries.write ++ extent.close)
  | .tag n item => n.write 6 ++ item.write
  | .simple n => [UInt8.ofNat (7 * 32 + n)]
  | .simpleByte n _ => 0xf8 :: bigEndian 1 n.toNat
  | .half bits => 0xf9 :: bigEndian 2 bits.toNat
  | .single bits => 0xfa :: bigEndian 4 bits.toNat
  | .double bits => 0xfb :: bigEndian 8 bits.toNat

/-- The bytes of items. -/
def Items.write : {size : Nat} → Items size → Bytes
  | _, .nil => []
  | _, .cons first rest => first.write ++ rest.write

/-- The bytes of entries. -/
def Entries.write : {more count : Nat} → Entries more count → Bytes
  | _, _, .nil => []
  | _, _, .cons first rest => first.write ++ rest.write

end

/-- The digits of an item that makes a big number with a tag. -/
def Item.digits? (tag : Nat) : Item → Option Bytes
  | .bytes (.whole p) =>
    if (tag = 2 ∨ tag = 3) ∧ p.size.value ≤ maxDigits then some p.content else none
  | _ => none

mutual

/-- How many levels an item nests. -/
def Item.nesting : Item → Nat
  | .collection _ _ entries => entries.nesting + 1
  | .tag n item => if (item.digits? n.value).isSome then 0 else item.nesting + 1
  | .unsigned _ | .negative _ | .bytes _ | .text _ | .simple _ | .simpleByte _ _ | .half _
  | .single _ | .double _ => 0

/-- How many levels items nest. -/
def Items.nesting : {size : Nat} → Items size → Nat
  | _, .nil => 0
  | _, .cons first rest => max first.nesting rest.nesting

/-- How many levels entries nest. -/
def Entries.nesting : {more count : Nat} → Entries more count → Nat
  | _, _, .nil => 0
  | _, _, .cons first rest => max first.nesting rest.nesting

end

mutual

/-- Whether an item holds nothing but what can be passed over. -/
def Item.familiar : Item → Bool
  | .text s => s.isText
  | .collection _ _ entries => entries.familiar
  | .tag n item =>
    match item.digits? n.value with
    | some digits => !(decide (n.value = 3) && decide (twoPow 127 ≤ ofBigEndian 0 digits))
    | none => item.familiar
  | .simple n => decide (20 ≤ n.val)
  | .simpleByte _ _ => false
  | .unsigned _ | .negative _ | .bytes _ | .half _ | .single _ | .double _ => true

/-- Whether items hold nothing but what can be passed over. -/
def Items.familiar : {size : Nat} → Items size → Bool
  | _, .nil => true
  | _, .cons first rest => first.familiar && rest.familiar

/-- Whether entries hold nothing but what can be passed over. -/
def Entries.familiar : {more count : Nat} → Entries more count → Bool
  | _, _, .nil => true
  | _, _, .cons first rest => first.familiar && rest.familiar

end

namespace Item

/-- The head of an item. -/
def head : Item → Head
  | unsigned n => .unsigned n.value
  | negative n => .negative n.value
  | bytes s => .bytes s.length
  | text s => .text s.length
  | collection kind extent _ => kind.head extent.length
  | tag n _ => .tag n.value
  | simple n => .simple n
  | simpleByte n _ => .simple n.toNat
  | half bits => .half bits.toNat
  | single bits => .single bits.toNat
  | double bits => .double bits.toNat

/-- What stands behind the head. -/
def tail : Item → Bytes
  | bytes s => s.tail 2
  | text s => s.tail 3
  | collection _ extent entries => entries.write ++ extent.close
  | tag _ item => item.write
  | unsigned _ | negative _ | simple _ | simpleByte _ _ | half _ | single _ | double _ => []

/-- The head of an item is read, and nothing else. -/
theorem read_head (x : Item) (rest : Bytes) :
    Head.read (x.write ++ rest) = some (x.head, x.tail ++ rest) := by
  cases x with
  | unsigned n => exact n.read_number (by omega) (fun _ => rfl) rest
  | negative n => exact n.read_number (by omega) (fun _ => rfl) rest
  | bytes s =>
    show Head.read (writeLength 2 s.length? ++ s.tail 2 ++ rest) = _
    rw [List.append_assoc]
    exact read_writeLength s.length? (by omega) (fun _ => rfl) _
  | text s =>
    show Head.read (writeLength 3 s.length? ++ s.tail 3 ++ rest) = _
    rw [List.append_assoc]
    exact read_writeLength s.length? (by omega) (fun _ => rfl) _
  | collection kind extent entries =>
    show Head.read (writeLength kind.major extent.length? ++ _ ++ rest) = _
    rw [List.append_assoc]
    cases kind with
    | array => exact read_writeLength extent.length? (by decide) (fun _ => rfl) _
    | map => exact read_writeLength extent.length? (by decide) (fun _ => rfl) _
  | tag n item =>
    show Head.read (n.write 6 ++ item.write ++ rest) = _
    rw [List.append_assoc]
    exact n.read_number (by omega) (fun _ => rfl) _
  | simple n => exact (Numeral.short n).read_write (by omega : 7 < 8) rest
  | simpleByte n h =>
    exact (Numeral.long 0 ⟨n.toNat, n.toNat_lt⟩).read_write (by omega : 7 < 8) rest
  | half bits =>
    exact (Numeral.long 1 ⟨bits.toNat, bits.toNat_lt⟩).read_write (by omega : 7 < 8) rest
  | single bits =>
    exact (Numeral.long 2 ⟨bits.toNat, bits.toNat_lt⟩).read_write (by omega : 7 < 8) rest
  | double bits =>
    exact (Numeral.long 3 ⟨bits.toNat, bits.toNat_lt⟩).read_write (by omega : 7 < 8) rest

theorem head_ne_stop (x : Item) : x.head ≠ .stop := by
  cases x with
  | collection kind => cases kind <;> exact (nomatch ·)
  | _ => exact (nomatch ·)

theorem write_length_pos (x : Item) : 0 < x.write.length := by
  have hread := x.read_head []
  rw [List.append_nil] at hread
  obtain ⟨n, hn⟩ := length_of_read hread
  omega

/-- Whether an item makes a big number with a tag. -/
theorem bigNumber?_write (x : Item) (tag : Nat) (rest : Bytes) :
    bigNumber? tag (x.write ++ rest) =
      (x.digits? tag).map fun digits => (digits.length, digits ++ rest) := by
  unfold bigNumber?
  rw [x.read_head]
  cases x with
  | bytes s =>
    cases s with
    | whole p =>
      by_cases hbig : (tag = 2 ∨ tag = 3) ∧ p.size.value ≤ maxDigits
      · have hdigits : (bytes (.whole p)).digits? tag = some p.content := if_pos hbig
        rw [hdigits, Option.map_some, p.length_eq]
        exact if_pos hbig
      · have hdigits : (bytes (.whole p)).digits? tag = none := if_neg hbig
        rw [hdigits]
        exact if_neg hbig
    | pieces ps => rfl
  | collection kind => cases kind <;> rfl
  | _ => rfl

end Item

theorem Items.write_length_pos {size : Nat} (xs : Items (size + 1)) : 0 < xs.write.length := by
  cases xs with
  | cons first rest =>
    have hpos := first.write_length_pos
    simp only [Items.write, List.length_append]
    omega

/-- Where items stand, no stop does. -/
theorem Items.read_ne_stop {size : Nat} (xs : Items (size + 1)) (bs rest : Bytes) :
    Head.read (xs.write ++ bs) ≠ some (.stop, rest) := by
  cases xs with
  | cons first later =>
    rw [Items.write, List.append_assoc, first.read_head]
    intro h
    exact first.head_ne_stop (Prod.mk.inj (Option.some.inj h)).1

/-! ## Passing over -/

/-- How an item one level below is passed over. -/
def below : (budget : Nat) → Option (Bytes → Option Bytes)
  | 0 => none
  | budget + 1 => some (skip budget)

theorem skip_eq (budget : Nat) (bs : Bytes) : skip budget bs = skipWith (below budget) bs := by
  cases budget <;> rfl

theorem skip_text (budget : Nat) (s : Str) (rest : Bytes) :
    skip budget ((Item.text s).write ++ rest) = if s.isText = true then some rest else none := by
  have hall : (joinTexts s.contents).isSome = s.isText := joinTexts_isSome s.contents
  rw [skip_eq, skipWith, Item.read_head, ← hall]
  simp only [Item.head, Item.tail, readContent_write PieceHead.text_of]
  cases joinTexts s.contents <;> rfl

theorem skip_collection (budget : Nat) (kind : Collection) {count : Nat} (extent : Extent count)
    (entries : Entries kind.more count) (rest : Bytes) :
    skip budget ((Item.collection kind extent entries).write ++ rest) =
      (below budget).bind fun f => (forEntries (passTimes (kind.more + 1) f) extent.length ()
        (entries.write ++ (extent.close ++ rest))).map (·.2) := by
  rw [skip_eq, skipWith, Item.read_head, ← List.append_assoc]
  cases kind <;> rfl

theorem skip_tag (budget : Nat) (n : Numeral) (x : Item) (rest : Bytes) :
    skip budget ((Item.tag n x).write ++ rest) =
      match x.digits? n.value with
      | some digits =>
        if n.value = 3 ∧ twoPow 127 ≤ ofBigEndian 0 digits then none else some rest
      | none => (below budget).bind fun f => f (x.write ++ rest) := by
  rw [skip_eq, skipWith, Item.read_head]
  show skipTagged (below budget) n.value (x.write ++ rest) = _
  have hbig := x.bigNumber?_write n.value rest
  cases hdigits : x.digits? n.value with
  | some digits =>
    rw [hdigits] at hbig
    rw [skipTagged_of_digits hbig, takeExact_append rfl]
    rfl
  | none =>
    rw [hdigits] at hbig
    exact skipTagged_of_item hbig

mutual

/-- **An item is passed over as a whole exactly if it is familiar and nests no deeper than
allowed.** -/
theorem Item.skip_write : (x : Item) → (budget : Nat) → (rest : Bytes) →
    skip budget (x.write ++ rest) =
      if x.familiar = true ∧ x.nesting ≤ budget then some rest else none
  | .text s, budget, rest => by
    rw [skip_text]
    simp only [Item.familiar, Item.nesting, Nat.zero_le, and_true]
  | .collection kind extent entries, 0, rest => by
    -- no level is left for the entries, not even if there are none
    rw [skip_collection, if_neg]
    · rfl
    · simp only [Item.nesting]; omega
  | .collection kind extent entries, budget + 1, rest => by
    rw [skip_collection]
    simp only [below, Option.bind_some, forEntries_eq_follow,
      entries.skip_write extent budget _ rest (Nat.le_refl _), Item.familiar, Item.nesting,
      Nat.add_le_add_iff_right]
    split <;> rfl
  | .tag n x, budget, rest => by
    rw [skip_tag]
    cases hdigits : x.digits? n.value with
    | some digits =>
      simp only [Item.familiar, Item.nesting, hdigits, Option.isSome_some, if_true]
      by_cases hlow : n.value = 3 ∧ twoPow 127 ≤ ofBigEndian 0 digits
      · rw [if_pos hlow, if_neg]
        simp [hlow]
      · rw [if_neg hlow, if_pos]
        simpa [imp_iff_not_or] using hlow
    | none =>
      simp only [Item.familiar, Item.nesting, hdigits]
      cases budget with
      | zero => exact (if_neg (by simp)).symm
      | succ budget =>
        simp only [below, Option.bind_some, x.skip_write budget rest]
        simp
  | .simple n, budget, rest => by
    rw [skip_eq, skipWith, Item.read_head]
    -- the greater ones take another byte
    have hn : n.val ≤ 23 := by omega
    simp only [Item.head, Item.tail, Item.familiar, Item.nesting, hn, and_true, Nat.zero_le,
      decide_eq_true_eq, List.nil_append]
  | .simpleByte n h, budget, rest => by
    have hn : 32 ≤ n.toNat := UInt8.le_iff_toNat_le.1 h
    rw [skip_eq, skipWith, Item.read_head]
    simp only [Item.head, Item.familiar, Bool.false_eq_true, false_and, if_false]
    exact if_neg (by omega)
  | .bytes s, budget, rest => by
    rw [skip_eq, skipWith, Item.read_head]
    simp only [Item.head, Item.tail, readContent_write PieceHead.bytes_of]
    exact (if_pos ⟨rfl, Nat.zero_le _⟩).symm
  | .unsigned _, budget, rest | .negative _, budget, rest | .half _, budget, rest
  | .single _, budget, rest | .double _, budget, rest => by
    rw [skip_eq, skipWith, Item.read_head]
    exact (if_pos ⟨rfl, Nat.zero_le _⟩).symm

/-- Items are passed over one after another. -/
theorem Items.skip_write : {size : Nat} → (xs : Items size) → (budget : Nat) → (rest : Bytes) →
    passTimes size (skip budget) () (xs.write ++ rest) =
      if xs.familiar = true ∧ xs.nesting ≤ budget then some ((), rest) else none
  | _, .nil, budget, rest => (if_pos ⟨rfl, Nat.zero_le _⟩).symm
  | _, .cons first xs, budget, rest => by
    have hlater := xs.skip_write budget rest
    simp only [Items.write, Items.familiar, Items.nesting, Bool.and_eq_true, Nat.max_le]
    unfold passTimes at hlater ⊢
    rw [repeatStep, List.append_assoc, passing, first.skip_write budget]
    by_cases hfirst : first.familiar = true ∧ first.nesting ≤ budget
    · rw [if_pos hfirst]
      simp only [Option.map_some, hlater, hfirst, true_and]
    · rw [if_neg hfirst, if_neg fun h => hfirst ⟨h.1.1, h.2.1⟩]
      rfl

/-- Entries are passed over one after another. -/
theorem Entries.skip_write : {more left : Nat} → (xs : Entries more left) → {count : Nat} →
    (extent : Extent count) → (budget fuel : Nat) → (rest : Bytes) →
    (xs.write ++ (extent.close ++ rest)).length ≤ fuel →
    follow extent (passTimes (more + 1) (skip budget)) left fuel ()
        (xs.write ++ (extent.close ++ rest)) =
      if xs.familiar = true ∧ xs.nesting ≤ budget then some ((), rest) else none
  | _, _, .nil, _, extent, budget, fuel, rest, hfuel =>
    (follow_close extent hfuel).trans (if_pos ⟨rfl, Nat.zero_le _⟩).symm
  | _, _, .cons first xs, _, extent, budget, fuel, rest, hfuel => by
    have hpos := first.write_length_pos
    obtain ⟨fuel, rfl⟩ : ∃ n, fuel = n + 1 := ⟨fuel - 1, by simp [Entries.write] at hfuel; omega⟩
    have hlater := xs.skip_write extent budget fuel rest
      (by simp [Entries.write] at hfuel ⊢; omega)
    simp only [Entries.write, Entries.familiar, Entries.nesting, Bool.and_eq_true, Nat.max_le,
      List.append_assoc]
    rw [follow_entry extent (first.read_ne_stop _), first.skip_write budget]
    exact (ite_bind_ite hlater).trans (if_congr and_and_and_comm rfl rfl)

end

end Inventory.Cbor
