import Inventory.Cbor.Read
import Inventory.Cbor.Write
import Inventory.Proofs.Cbor.Head
import Inventory.Proofs.Double

/-!
# Leaves that were written

What is read from a leaf that was written, whatever bytes follow it.

* `Leaf.Fits`: texts and lists whose lengths a head can hold.
* `Leaf.canonical`: what stands for no number is written alike; every other value is itself.
* `Leaf.read_write`: **a leaf is read as it was written**.
-/

namespace Inventory

namespace Text

theorem ofUtf8?_utf8 (s : String) : ofUtf8? (utf8 s) = some s := by
  unfold ofUtf8? utf8 String.fromUTF8?
  rw [dif_pos s.isValidUTF8]
  rfl

theorem utf8_injective {s t : String} (h : utf8 s = utf8 t) : s = t := by
  have hopt := congrArg ofUtf8? h
  rw [ofUtf8?_utf8, ofUtf8?_utf8] at hopt
  exact Option.some.inj hopt

end Text

/-! ## What fits -/

/-- A text whose length a head can hold. -/
def Text.Fits (s : String) : Prop := (Text.utf8 s).length < 2 ^ 64

/-- A value whose lengths a head can hold. -/
def Leaf.Fits : (l : Leaf) → l.Val → Prop
  | text, v => Text.Fits v
  | texts, v => List.length (α := String) v < 2 ^ 64 ∧ ∀ s ∈ (show List String from v), Text.Fits s
  | word32, _ | word64, _ | int64, _ | real, _ | choice _, _ => True

instance : DecidablePred Text.Fits := fun s =>
  inferInstanceAs (Decidable ((Text.utf8 s).length < 2 ^ 64))

instance Leaf.decidableFits : (l : Leaf) → (v : l.Val) → Decidable (l.Fits v)
  | text, v => inferInstanceAs (Decidable (Text.Fits v))
  | texts, v => inferInstanceAs (Decidable
      (List.length (α := String) v < 2 ^ 64 ∧ ∀ s ∈ (show List String from v), Text.Fits s))
  | word32, _ | word64, _ | int64, _ | real, _ | choice _, _ => inferInstanceAs (Decidable True)

/-- The one among all that stand for no number that is written for them. -/
def Double.canonical (x : Double) : Double := if x.isNaN then nan else x

/-- A value as it comes back. -/
def Leaf.canonical : (l : Leaf) → l.Val → l.Val
  | real, v => Double.canonical v
  | text, v => v
  | texts, v => v
  | word32, v => v
  | word64, v => v
  | int64, v => v
  | choice _, v => v

namespace Cbor

/-! ## Heads of leaves -/

/-- A head that is no tag is found at once. -/
theorem untagged_of_read {bs rest : Bytes} {head : Head} (h : Head.read bs = some (head, rest))
    (htag : ∀ n, head ≠ .tag n) : untagged bs = some (head, rest) := by
  obtain ⟨fuel, hfuel⟩ := length_of_read h
  unfold untagged
  rw [hfuel, Head.readUntagged, h]
  cases head <;> first | rfl | exact absurd rfl (htag _)

/-- A head that was written with a number is read with it. -/
theorem read_number {major n : Nat} (hmajor : major < 8) (hn : n < 2 ^ 64) {head : Head}
    (hhead : ∀ a : Argument, a.number? = some n → Head.ofArgument major a = some head)
    (rest : Bytes) : Head.read (writeHead major n ++ rest) = some (head, rest) := by
  obtain ⟨m, rfl, hwrite⟩ := writeHead_eq_write hn
  rw [hwrite, m.read_write hmajor, hhead _ m.number?_argument]
  rfl

theorem read_unsigned {n : Nat} (hn : n < 2 ^ 64) (rest : Bytes) :
    Head.read (writeHead 0 n ++ rest) = some (.unsigned n, rest) :=
  read_number (by omega) hn (fun a ha => by simp only [Head.ofArgument, ha, Option.map_some]) rest

theorem read_negative {n : Nat} (hn : n < 2 ^ 64) (rest : Bytes) :
    Head.read (writeHead 1 n ++ rest) = some (.negative n, rest) :=
  read_number (by omega) hn (fun a ha => by simp only [Head.ofArgument, ha, Option.map_some]) rest

theorem untagged_text {n : Nat} (hn : n < 2 ^ 64) (rest : Bytes) :
    untagged (writeHead 3 n ++ rest) = some (.text (some n), rest) :=
  untagged_of_read
    (read_number (by omega) hn (fun a ha => by simp only [Head.ofArgument, ha]) rest)
    fun _ h => nomatch h

theorem untagged_array {n : Nat} (hn : n < 2 ^ 64) (rest : Bytes) :
    untagged (writeHead 4 n ++ rest) = some (.array (some n), rest) :=
  untagged_of_read
    (read_number (by omega) hn (fun a ha => by simp only [Head.ofArgument, ha]) rest)
    fun _ h => nomatch h

theorem untagged_map {n : Nat} (hn : n < 2 ^ 64) (rest : Bytes) :
    untagged (writeHead 5 n ++ rest) = some (.map (some n), rest) :=
  untagged_of_read
    (read_number (by omega) hn (fun a ha => by simp only [Head.ofArgument, ha]) rest)
    fun _ h => nomatch h

/-! ## Texts -/

theorem readText_writeText {s : String} (h : Text.Fits s) (rest : Bytes) :
    readText (writeText s ++ rest) = some (s, rest) := by
  unfold writeText
  rw [List.append_assoc]
  unfold readText
  rw [untagged_text h]
  simp only [readContent, takeExact_append rfl, Option.map_some, joinTexts]
  rw [show [Text.utf8 s].mapM Text.ofUtf8? = some [s] by
    simp only [List.mapM_cons, List.mapM_nil, Text.ofUtf8?_utf8]; rfl]
  simp [String.join]

theorem readName_writeText {s : String} (h : (Text.utf8 s).length ≤ maxName) (rest : Bytes) :
    readName (writeText s ++ rest) = some (Text.utf8 s, rest) := by
  have hfits : Text.Fits s := Nat.lt_of_le_of_lt h (by decide)
  unfold writeText
  rw [List.append_assoc]
  unfold readName
  rw [untagged_text hfits]
  simp only [takeName, if_pos h, takeExact_append rfl, Text.ofUtf8?_utf8, Option.map_some]

theorem writeText_untagged {s : String} (h : Text.Fits s) (rest : Bytes) :
    ∃ rest', untagged (writeText s ++ rest) = some (.text (some (Text.utf8 s).length), rest') := by
  unfold writeText
  rw [List.append_assoc]
  exact ⟨_, untagged_text h _⟩

/-- Texts one after another. -/
theorem repeatStep_texts {texts : List String} (h : ∀ s ∈ texts, Text.Fits s) (early : List String)
    (rest : Bytes) :
    repeatStep (fun (read : List String) bs => (readText bs).map fun (s, bs) => (read ++ [s], bs))
      texts.length early (texts.flatMap writeText ++ rest) = some (early ++ texts, rest) := by
  induction texts generalizing early with
  | nil => simp [repeatStep]
  | cons s texts ih =>
    rw [List.flatMap_cons, List.append_assoc, List.length_cons]
    unfold repeatStep
    rw [readText_writeText (h s List.mem_cons_self)]
    simp only [Option.map_some]
    rw [ih fun t ht => h t (List.mem_cons_of_mem _ ht), List.append_assoc, List.singleton_append]

theorem readTexts_write {texts : List String} (hlen : texts.length < 2 ^ 64)
    (h : ∀ s ∈ texts, Text.Fits s) {budget : Nat} (hbudget : budget ≠ 0) (rest : Bytes) :
    readTexts budget (writeHead 4 texts.length ++ texts.flatMap writeText ++ rest) =
      some (texts, rest) := by
  unfold readTexts
  rw [List.append_assoc, untagged_array hlen]
  simp only [if_neg hbudget, forEntries]
  exact repeatStep_texts h [] rest

/-! ## Integers -/

theorem readIntegerFrom_nat {n : Nat} (hn : n < 2 ^ 64) (rest : Bytes) :
    readIntegerFrom (writeNat n ++ rest).length (writeNat n ++ rest) = some ((n : Int), rest) := by
  have h : Head.read (writeNat n ++ rest) = some (.unsigned n, rest) := read_unsigned hn rest
  obtain ⟨fuel, hfuel⟩ := length_of_read h
  rw [hfuel, readIntegerFrom, h]

theorem readIntegerFrom_int {n : Int} (hlow : -2 ^ 64 ≤ n) (hhigh : n < 2 ^ 64) (rest : Bytes) :
    readIntegerFrom (writeInt n ++ rest).length (writeInt n ++ rest) = some (n, rest) := by
  unfold writeInt
  by_cases hneg : n < 0
  · -- the head of a negative number counts down from minus one
    rw [if_pos hneg]
    have h := read_negative (show (-1 - n).toNat < 2 ^ 64 by omega) rest
    have hn : -1 - ((-1 - n).toNat : Int) = n := by omega
    obtain ⟨fuel, hfuel⟩ := length_of_read h
    rw [hfuel, readIntegerFrom, h]
    simp only [hn]
  · rw [if_neg hneg]
    have h := readIntegerFrom_nat (show n.toNat < 2 ^ 64 by omega) rest
    rw [Int.toNat_of_nonneg (by omega)] at h
    exact h

theorem readInteger_writeNat {n : Nat} (hn : n < 2 ^ 64) {bits : Nat} (hbits : n < twoPow bits)
    (rest : Bytes) :
    readInteger 0 (twoPow bits - 1) (writeNat n ++ rest) = some ((n : Int), rest) := by
  unfold readInteger
  rw [readIntegerFrom_nat hn]
  exact if_pos ⟨by omega, by omega⟩

theorem readInteger_writeInt {n : Int} (hlow : -2 ^ 63 ≤ n) (hhigh : n < 2 ^ 63) (rest : Bytes) :
    readInteger (-twoPow 63) (twoPow 63 - 1) (writeInt n ++ rest) = some (n, rest) := by
  have htwo : (twoPow 63 : Int) = 2 ^ 63 := rfl
  unfold readInteger
  rw [readIntegerFrom_int (by omega) (by omega)]
  exact if_pos ⟨by omega, by omega⟩

/-! ## Doubles -/

/-- A head with the bits of a number. -/
theorem untagged_bits (bits : Numeral) {head : Head}
    (hhead : Head.ofArgument 7 bits.argument = some head) (htag : ∀ m, head ≠ .tag m)
    (rest : Bytes) : untagged (bits.write 7 ++ rest) = some (head, rest) := by
  refine untagged_of_read ?_ htag
  rw [bits.read_write (by omega), hhead]
  rfl

theorem signed_lt {x : Double} {bits m : Nat} (hm : m < twoPow bits) :
    signed x (bits + 1) m < twoPow (bits + 1) := by
  unfold signed
  rw [Nat.add_sub_cancel, twoPow_add, show twoPow 1 = 2 from rfl]
  split <;> omega

/-- The bits of a number are its sign and its magnitude. -/
theorem ofSigned_signed {f : Format} {x : Double} {bits m : Nat} (hm : m < twoPow bits) :
    ofSigned f (bits + 1) (signed x (bits + 1) m) = Double.ofFormat f x.isNegative m := by
  unfold ofSigned signed
  rw [Nat.add_sub_cancel]
  cases x.isNegative with
  | true =>
    rw [if_pos rfl, Nat.add_div_left _ (twoPow_pos bits), Nat.div_eq_of_lt hm, Nat.add_mod_left,
      Nat.mod_eq_of_lt hm]
    rfl
  | false =>
    rw [if_neg Bool.false_ne_true, Nat.zero_add, Nat.div_eq_of_lt hm, Nat.mod_eq_of_lt hm]
    rfl

theorem readDouble_writeDouble (x : Double) (rest : Bytes) :
    readDouble (writeDouble x ++ rest) = some (x.canonical, rest) := by
  unfold writeDouble Double.canonical
  by_cases hnan : x.isNaN = true
  · -- one value is written for all that stand for no number
    rw [if_pos hnan, if_pos hnan]
    have h : untagged (0xf9 :: bigEndian 2 0x7e00 ++ rest) = some (.half 0x7e00, rest) :=
      untagged_bits (.long 1 ⟨0x7e00, (by decide : 0x7e00 < 256 ^ 2 ^ 1)⟩) rfl
        (fun _ h => nomatch h) rest
    have hbytes : ([0xf9, 0x7e, 0x00] : Bytes) = 0xf9 :: bigEndian 2 0x7e00 := by decide
    unfold readDouble
    rw [hbytes, h]
    rfl
  rw [if_neg hnan, if_neg hnan]
  -- the shortest format that holds the number
  cases hhalf : x.toFormat? .half with
  | some m =>
    obtain ⟨hm, hx⟩ := Double.ofFormat_toFormat? (by decide) hhalf
    have hm : m < twoPow 15 := Nat.lt_of_le_of_lt hm (by decide)
    have h : untagged (0xf9 :: bigEndian 2 (signed x 16 m) ++ rest) =
        some (.half (signed x 16 m), rest) :=
      untagged_bits (.long 1 ⟨_, signed_lt hm⟩) rfl (fun _ h => nomatch h) rest
    unfold readDouble
    simp only [h, ofSigned_signed hm, hx]
  | none =>
    cases hsingle : x.toFormat? .single with
    | some m =>
      obtain ⟨hm, hx⟩ := Double.ofFormat_toFormat? (by decide) hsingle
      have hm : m < twoPow 31 := Nat.lt_of_le_of_lt hm (by decide)
      have h : untagged (0xfa :: bigEndian 4 (signed x 32 m) ++ rest) =
          some (.single (signed x 32 m), rest) :=
        untagged_bits (.long 2 ⟨_, signed_lt hm⟩) rfl (fun _ h => nomatch h) rest
      unfold readDouble
      simp only [h, ofSigned_signed hm, hx]
    | none =>
      have h : untagged (0xfb :: bigEndian 8 x.bits.toNat ++ rest) =
          some (.double x.bits.toNat, rest) :=
        untagged_bits (.long 3 ⟨_, x.bits.toNat_lt⟩) rfl (fun _ h => nomatch h) rest
      unfold readDouble
      simp only [h, UInt64.ofNat_toNat]

/-! ## Choices -/

end Cbor

theorem Choice.name_length (c : Choice) (v : c.Val) :
    (Text.utf8 (c.name v)).length ≤ Cbor.maxName := by
  cases c <;> cases v <;> decide

theorem Choice.ofName?_name (c : Choice) (v : c.Val) : c.ofName? (c.name v) = some v := by
  cases c <;> cases v <;> rfl

namespace Cbor

theorem readChoice_write (c : Choice) (v : c.Val) (rest : Bytes) :
    readChoice c (writeText (c.name v) ++ rest) = some (v, rest) := by
  have hlen := c.name_length v
  obtain ⟨rest', huntagged⟩ :=
    writeText_untagged (Nat.lt_of_le_of_lt hlen (by decide) : Text.Fits (c.name v)) rest
  unfold readChoice readChoiceName
  simp only [huntagged, readName_writeText hlen, Text.ofUtf8?_utf8, Option.bind_some,
    c.ofName?_name, Option.map_some]

end Cbor

/-- **A leaf is read as it was written**, with one value for all that stand for no number. -/
theorem Leaf.read_write (l : Leaf) {v : l.Val} (h : l.Fits v) {budget : Nat} (hbudget : budget ≠ 0)
    (rest : Bytes) : l.read budget (l.write v ++ rest) = some (l.canonical v, rest) := by
  cases l with
  | text => exact Cbor.readText_writeText h rest
  | texts => exact Cbor.readTexts_write h.1 h.2 hbudget rest
  | real => exact Cbor.readDouble_writeDouble v rest
  | choice c => exact Cbor.readChoice_write c v rest
  | word32 =>
    have hlt : UInt32.toNat v < twoPow 32 := UInt32.toNat_lt v
    have hread := Cbor.readInteger_writeNat (Nat.lt_of_lt_of_le hlt (by decide)) hlt rest
    show (Cbor.readInteger 0 (twoPow 32 - 1) (Cbor.writeNat (UInt32.toNat v) ++ rest)).map _ = _
    rw [hread]
    exact congrArg (fun w => some (w, rest)) UInt32.ofNat_toNat
  | word64 =>
    have hlt : UInt64.toNat v < twoPow 64 := UInt64.toNat_lt v
    have hread := Cbor.readInteger_writeNat hlt hlt rest
    show (Cbor.readInteger 0 (twoPow 64 - 1) (Cbor.writeNat (UInt64.toNat v) ++ rest)).map _ = _
    rw [hread]
    exact congrArg (fun w => some (w, rest)) UInt64.ofNat_toNat
  | int64 =>
    have hread := Cbor.readInteger_writeInt (Int64.le_toInt v) (Int64.toInt_lt v) rest
    show (Cbor.readInteger (-twoPow 63) (twoPow 63 - 1) (Cbor.writeInt (Int64.toInt v) ++ rest)).map
      _ = _
    rw [hread]
    exact congrArg (fun w => some (w, rest)) (Int64.ofInt_toInt v)

end Inventory
