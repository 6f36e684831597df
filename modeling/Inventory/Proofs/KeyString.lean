import Inventory.Entity.Basic
import Inventory.Proofs.Cbor.Record

/-!
# Key strings

What is read from a key string that was written, whatever characters follow it.

* `Json.readText_writeText`: a text is read up to its closing quote, with nothing left escaped.
* `Fields.readJson_writeJson`: the members of an object are read one after another, each into its
  own field.
* `Record.ofKeyString_keyString`: **a key string stands for the key it was made of**.
* `Record.keyString_append_inj`: a key string ends by itself, so what follows it can be told
  from it.
-/

namespace Inventory

namespace Json

/-! ## Texts -/

/-- The digits of a control character. -/
theorem codeUnit?_control {n : Nat} (h : n < 0x20) :
    codeUnit? '0' '0' (Nat.digitChar (n / 16)) (Nat.digitChar (n % 16)) = some n := by
  have hall : ∀ n < 0x20,
      codeUnit? '0' '0' (Nat.digitChar (n / 16)) (Nat.digitChar (n % 16)) = some n := by decide
  exact hall n h

theorem readText_quote (rest : List Char) : readText ('"' :: rest) = some ([], rest) := by
  rw [readText.eq_def]
  simp only [if_true]

theorem readText_plain {c : Char} (hquote : c ≠ '"') (hslash : c ≠ '\\') (hlow : ¬ c.toNat < 0x20)
    (rest : List Char) : readText (c :: rest) = (readText rest).map fun r => (c :: r.1, r.2) := by
  rw [readText.eq_def]
  simp only [if_neg hquote, if_neg hslash, if_neg hlow]

theorem readText_short {e c : Char} (h : shortEscape? e = some c) (hu : e ≠ 'u')
    (rest : List Char) :
    readText ('\\' :: e :: rest) = (readText rest).map fun r => (c :: r.1, r.2) := by
  rw [readText.eq_def]
  simp only [show ('\\' : Char) ≠ '"' by decide, if_false, if_true, if_neg hu, h]

theorem readText_unit {a b c d : Char} {unit : Nat} (h : codeUnit? a b c d = some unit)
    (hlow : isLowHalf unit = false) (hhigh : isHighHalf unit = false) (rest : List Char) :
    readText ('\\' :: 'u' :: a :: b :: c :: d :: rest) =
      (readText rest).map fun r => (Char.ofNat unit :: r.1, r.2) := by
  rw [readText.eq_def]
  simp only [show ('\\' : Char) ≠ '"' by decide, if_false, if_true, h, hlow, hhigh,
    Bool.false_eq_true]

/-- One character is read as it was written. -/
theorem readText_writeChar (c : Char) (rest : List Char) :
    readText (writeChar c ++ rest) = (readText rest).map fun r => (c :: r.1, r.2) := by
  unfold writeChar
  split
  case h_8 hquote hslash _ _ _ _ _ =>
    split
    · -- a control character is written with four digits, and it is no half of a pair
      rename_i hlow
      have hnot : isLowHalf c.toNat = false := by
        unfold isLowHalf
        rw [decide_eq_false (by omega), Bool.false_and]
      have hhigh : isHighHalf c.toNat = false := by
        unfold isHighHalf
        rw [decide_eq_false (by omega), Bool.false_and]
      have hread := readText_unit (codeUnit?_control hlow) hnot hhigh rest
      rw [Char.ofNat_toNat] at hread
      exact hread
    · rename_i hlow
      exact readText_plain (fun h => hquote h) (fun h => hslash h) hlow rest
  all_goals exact readText_short rfl (by decide) rest

/-- **A text is read up to its closing quote.** -/
theorem readText_writeText (cs rest : List Char) :
    readText (cs.flatMap writeChar ++ '"' :: rest) = some (cs, rest) := by
  induction cs with
  | nil => exact readText_quote rest
  | cons c cs ih =>
    rw [List.flatMap_cons, List.append_assoc, readText_writeChar, ih]
    rfl

/-! ## Members of objects -/

/-- Reads what follows a member of an object. -/
def afterMember {σ : Type} (member : List Char → σ → List Char → Option (σ × List Char))
    (fuel : Nat) (st : σ) (cs : List Char) : Option (σ × List Char) :=
  match skipGap cs with
  | ',' :: rest => readMembers member fuel st rest
  | '\x7d' :: rest => some (st, rest)
  | _ => none

theorem afterMember_comma {σ : Type}
    (member : List Char → σ → List Char → Option (σ × List Char)) (fuel : Nat) (st : σ)
    (cs : List Char) : afterMember member fuel st (',' :: cs) = readMembers member fuel st cs := rfl

/-- One member is read, and then what follows it. -/
theorem readMembers_writeText {σ : Type}
    (member : List Char → σ → List Char → Option (σ × List Char)) (fuel : Nat) (st : σ)
    (name : String) (cs : List Char) :
    readMembers member (fuel + 1) st (writeText name ++ ':' :: cs) =
      match member name.toList st cs with
      | none => none
      | some (st, rest) => afterMember member fuel st rest := by
  have hgap : skipGap (writeText name ++ ':' :: cs) =
      '"' :: (name.toList.flatMap writeChar ++ '"' :: ':' :: cs) := by
    unfold writeText
    rw [List.append_assoc]
    rfl
  rw [readMembers, hgap]
  simp only [readText_writeText]
  rfl

end Json

/-! ## Keys -/

theorem Fields.count_le_writeJson (fs : Fields) (h : fs.Textual) (first : Bool) (v : fs.Val) :
    fs.count ≤ (fs.writeJson h first v).length := by
  match fs, h, v with
  | .nil, _, _ => exact Nat.le_refl _
  | .cons _ name shape rest, h, v =>
    have hrest := rest.count_le_writeJson h.2 false v.2
    simp only [Fields.count, Fields.writeJson, List.length_append, List.length_cons]
    omega

mutual

/-- A value is read as it was written. -/
theorem Shape.readJson_writeJson : (s : Shape) → (h : s.Textual) → (v : s.Val) → {budget : Nat} →
    s.readable budget = true → (rest : List Char) →
    s.readJson h (s.writeJson h v ++ rest) = some (v, rest)
  | .leaf .text, _, v, _, _, rest => by
    have hgap : Json.skipGap (Json.writeText v ++ rest) =
        '"' :: ((String.toList v).flatMap Json.writeChar ++ '"' :: rest) := by
      unfold Json.writeText
      rw [List.append_assoc]
      rfl
    show (match Json.skipGap (Json.writeText v ++ rest) with
      | '"' :: rest => (Json.readText rest).map fun (text, rest) => (String.ofList text, rest)
      | _ => none) = some (v, rest)
    rw [hgap]
    simp only [Json.readText_writeText, Option.map_some, String.ofList_toList]
  | .record .nil, h, v, budget + 1, hread, rest => rfl
  | .record (.cons tag name shape fs), h, v, budget + 1, hread, rest => by
    simp only [Shape.readable, Bool.and_eq_true] at hread
    have hcount : (Fields.cons tag name shape fs).count ≤
        ((Fields.cons tag name shape fs).writeJson h true v ++ '\x7d' :: rest).length := by
      rw [List.length_append]
      exact Nat.le_trans (Fields.count_le_writeJson _ h true v) (Nat.le_add_right _ _)
    -- the members behind the opening brace are read as if a comma stood before them
    have hmembers := (Fields.cons tag name shape fs).readJson_writeJson h v hread.2
      ((Fields.cons tag name shape fs).readMember h) id
      (fun _ _ _ _ => (congrFun Option.map_id _).symm) hcount rest
    have hcomma : (Fields.cons tag name shape fs).writeJson h false v ++ '\x7d' :: rest =
        ',' :: ((Fields.cons tag name shape fs).writeJson h true v ++ '\x7d' :: rest) := rfl
    rw [hcomma, Json.afterMember_comma] at hmembers
    have hopen : (Shape.record (.cons tag name shape fs)).writeJson h v ++ rest =
        '\x7b' :: ((Fields.cons tag name shape fs).writeJson h true v ++ '\x7d' :: rest) := by
      simp only [Shape.writeJson, List.cons_append, List.append_assoc, List.nil_append]
    obtain ⟨tail, htail⟩ : ∃ tail,
        (Fields.cons tag name shape fs).writeJson h true v ++ '\x7d' :: rest = '"' :: tail :=
      ⟨_, rfl⟩
    rw [hopen]
    rw [htail] at hmembers ⊢
    show (Json.readMembers ((Fields.cons tag name shape fs).readMember h) _ _ _).map
      (fun r => ((Fields.cons tag name shape fs).complete r.1, r.2)) = _
    refine (congrArg (Option.map _) hmembers).trans ?_
    simp only [id, Option.map_some, Fields.complete_filled]
  | .record _, _, _, 0, hread, _ => by simp [Shape.readable] at hread
  | .leaf .texts, h, _, _, _, _ | .leaf .word32, h, _, _, _, _ | .leaf .word64, h, _, _, _, _
  | .leaf .int64, h, _, _, _, _ | .leaf .real, h, _, _, _, _ | .leaf (.choice _), h, _, _, _, _ =>
    h.elim

/-- The members of an object are read one after another. The object may have more fields than
these: `put` places these among them, and `member` reads a member of the object. -/
theorem Fields.readJson_writeJson : (fs : Fields) → (h : fs.Textual) → (v : fs.Val) →
    {budget : Nat} → fs.readable budget = true → {σ : Type} →
    (member : List Char → σ → List Char → Option (σ × List Char)) → (put : fs.Partial → σ) →
    (∀ name ∈ fs.names, ∀ (p : fs.Partial) (cs : List Char), member name.toList (put p) cs =
      (fs.readMember h name.toList p cs).map fun r => (put r.1, r.2)) →
    {fuel : Nat} → fs.count ≤ fuel → (rest : List Char) →
    Json.afterMember member fuel (put fs.blank) (fs.writeJson h false v ++ '\x7d' :: rest) =
      some (put (fs.filled v), rest)
  | .nil, _, _, _, _, _, _, _, _, _, _, _ => rfl
  | .cons tag name shape fs, h, v, budget, hread, σ, member, put, hmember, 0, hfuel, rest =>
    absurd hfuel (Nat.not_succ_le_zero _)
  | .cons tag name shape fs, h, v, budget, hread, σ, member, put, hmember, fuel + 1, hfuel, rest =>
    by
    simp only [Fields.readable, Bool.and_eq_true, decide_eq_true_eq, Bool.not_eq_true',
      List.contains_eq_mem, decide_eq_false_iff_not] at hread
    obtain ⟨⟨⟨-, hother⟩, hshape⟩, hrest⟩ := hread
    have hfirst := hmember name List.mem_cons_self (none, fs.blank)
      (shape.writeJson h.1 v.1 ++ (fs.writeJson h.2 false v.2 ++ '\x7d' :: rest))
    simp only [Fields.readMember, if_true, shape.readJson_writeJson h.1 v.1 hshape, Option.map_some]
      at hfirst
    -- the other fields have other names, so a member of theirs leaves this one alone
    have hlater := fs.readJson_writeJson h.2 v.2 hrest member (fun p => put (some v.1, p))
      (fun later hl p cs => by
        have hne : later.toList ≠ name.toList := fun he => by
          rw [String.toList_inj.1 he] at hl
          exact hother hl
        rw [hmember later (List.mem_cons_of_mem _ hl)]
        simp only [Fields.readMember, if_neg hne, Option.map_map]
        rfl)
      (Nat.le_of_succ_le_succ hfuel) rest
    have hcomma : (Fields.cons tag name shape fs).writeJson h false v ++ '\x7d' :: rest =
        ',' :: (Json.writeText name ++ ':' ::
          (shape.writeJson h.1 v.1 ++ (fs.writeJson h.2 false v.2 ++ '\x7d' :: rest))) := by
      simp only [Fields.writeJson, Bool.false_eq_true, if_false, List.append_assoc,
        List.cons_append, List.nil_append]
    rw [hcomma, Json.afterMember_comma, Json.readMembers_writeText]
    simp only [Fields.blank, hfirst]
    exact hlater

end

namespace Record

variable {κ : Type} [Record κ] {h : (shape κ).Textual} {k k' : κ} {budget : Nat}

/-- A key string ends by itself. -/
theorem readJson_keyString (hread : (shape κ).readable budget = true) (k : κ) (rest : List Char) :
    (shape κ).readJson h ((keyString h k).toList ++ rest) = some (toVal k, rest) := by
  unfold keyString
  rw [String.toList_ofList]
  exact (shape κ).readJson_writeJson h (toVal k) hread rest

/-- **A key string stands for the key it was made of.** -/
theorem ofKeyString_keyString (hread : (shape κ).readable budget = true) (k : κ) :
    ofKeyString h (keyString h k) = .ok k := by
  have hread := readJson_keyString (h := h) hread k []
  rw [List.append_nil] at hread
  unfold ofKeyString
  rw [hread]
  exact congrArg Except.ok (ofVal_toVal k)

/-- What follows a key string can be told from it. -/
theorem keyString_append_inj (hread : (shape κ).readable budget = true) {rest rest' : List Char}
    (heq : (keyString h k).toList ++ rest = (keyString h k').toList ++ rest') :
    k = k' ∧ rest = rest' := by
  have hleft := readJson_keyString (h := h) hread k rest
  rw [heq, readJson_keyString hread k' rest'] at hleft
  obtain ⟨hval, hrest⟩ := Prod.mk.inj (Option.some.inj hleft)
  have hkey := congrArg (ofVal (α := κ)) hval
  rw [ofVal_toVal, ofVal_toVal] at hkey
  exact ⟨hkey.symm, hrest.symm⟩

end Record

end Inventory
