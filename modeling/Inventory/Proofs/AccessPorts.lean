import Mathlib.Data.Nat.Digits.Lemmas
import Inventory.Proofs.Checks
import Inventory.Proofs.StoreKey

/-!
# Ports of applications

Which texts are lists of ports. The grammar is written down without the steps of the check: the
pieces between commas are trimmed, and each one that is not empty then is a protocol in any case, a
colon, and the digits of a number from 1 to 65535. Zeros may stand before the number, and before
them one sign, a plus.

* `Text.trims_iff`: what is left of a text without the blanks around it.
* `AccessPorts.number?_eq_some_iff`: the texts that spell a number.
* `AccessPorts.checkEntry_eq_ok_iff`: an entry passes if it is one of the grammar.
* `App.validate_iff_ports_in_grammar`: **an application passes** if its key does and, where they are
  selected, its ports are in the grammar.
* `App.ports_pass_with_a_plus`: the grammar without the sign is too small.
-/

namespace Inventory

namespace Text

/-! ## Pieces and blanks -/

theorem splitOn_eq (sep : Char) (cs : List Char) : splitOn sep cs = cs.splitOn sep := by
  induction cs with
  | nil => rfl
  | cons c cs ih =>
    have hcons : (c :: cs).splitOn sep =
        if (c == sep) = true then [] :: cs.splitOn sep
        else (cs.splitOn sep).modifyHead (List.cons c) := List.splitOnP_cons_eq_if_modifyHead ..
    rw [hcons, ← ih]
    simp only [splitOn, beq_iff_eq]
    cases hrest : splitOn sep cs with
    | nil => exact absurd (ih.symm.trans hrest) (List.splitOn_ne_nil _ _)
    | cons piece pieces => rfl

/-- What is left of a text without the blanks around it. -/
structure Trims (cs t : List Char) : Prop where
  around : ∃ front back, cs = front ++ t ++ back ∧
    (∀ c ∈ front, isBlank c = true) ∧ ∀ c ∈ back, isBlank c = true
  first : ∀ c ∈ t.head?, isBlank c = false
  last : ∀ c ∈ t.getLast?, isBlank c = false

theorem dropWhile_of_head {p : Char → Bool} {front rest : List Char}
    (hfront : ∀ c ∈ front, p c = true) (hrest : ∀ c ∈ rest.head?, p c = false) :
    (front ++ rest).dropWhile p = rest := by
  rw [List.dropWhile_append_of_pos hfront]
  cases rest with
  | nil => rfl
  | cons c rest => exact List.dropWhile_cons_of_neg (by simp [hrest c rfl])

theorem head_dropWhile (p : Char → Bool) (cs : List Char) :
    ∀ c ∈ (cs.dropWhile p).head?, p c = false := by
  intro c hc
  have := List.head?_dropWhile_not p cs
  rw [Option.mem_def.1 hc] at this
  exact this

theorem Trims.eq {cs t : List Char} (h : Trims cs t) : trimBlank cs = t := by
  obtain ⟨front, back, rfl, hfront, hback⟩ := h.around
  unfold trimBlank dropEndWhile
  cases t with
  | nil =>
    have hall : ∀ c ∈ front ++ [] ++ back, isBlank c = true := by
      intro c hc
      rw [List.append_nil, List.mem_append] at hc
      exact hc.elim (hfront c) (hback c)
    rw [List.dropWhile_eq_nil_iff.2 hall]
    rfl
  | cons c t =>
    have hfirst : ∀ d ∈ (c :: t ++ back).head?, isBlank d = false := h.first
    rw [List.append_assoc, dropWhile_of_head hfront hfirst, List.reverse_append,
      dropWhile_of_head, List.reverse_reverse]
    · exact fun d hd => hback d (List.mem_reverse.1 hd)
    · intro d hd
      rw [List.head?_reverse] at hd
      exact h.last d hd

theorem trims_trimBlank (cs : List Char) : Trims cs (trimBlank cs) := by
  set d := cs.dropWhile isBlank with hd
  have hparts : d = trimBlank cs ++ (d.reverse.takeWhile isBlank).reverse := by
    have hrev := List.takeWhile_append_dropWhile (p := isBlank) (l := d.reverse)
    have := congrArg List.reverse hrev
    rw [List.reverse_append, List.reverse_reverse] at this
    exact this.symm
  refine ⟨⟨cs.takeWhile isBlank, (d.reverse.takeWhile isBlank).reverse, ?_, ?_, ?_⟩, ?_, ?_⟩
  · rw [List.append_assoc, ← hparts, List.takeWhile_append_dropWhile]
  · exact fun c hc => List.mem_takeWhile_imp hc
  · exact fun c hc => List.mem_takeWhile_imp (List.mem_reverse.1 hc)
  · intro c hc
    apply head_dropWhile isBlank cs c
    rw [← hd, hparts, List.head?_append, Option.mem_def.1 hc]
    rfl
  · intro c hc
    unfold trimBlank dropEndWhile at hc
    rw [List.getLast?_reverse] at hc
    exact head_dropWhile isBlank _ c hc

/-- **What is left of a text without the blanks around it** is what is left after both sides have
been trimmed. -/
theorem trims_iff {cs t : List Char} : Trims cs t ↔ t = trimBlank cs :=
  ⟨fun h => h.eq.symm, fun h => h ▸ trims_trimBlank cs⟩

end Text

theorem FieldMap.check_eq_ok_iff {mask : FieldMap} {path : String} {r : StoreResult Unit} :
    mask.check path r = .ok () ↔ (mask.has path = true → r = .ok ()) := by
  unfold check
  cases mask.has path with
  | false => exact ⟨fun _ h => (nomatch h), fun _ => rfl⟩
  | true => exact ⟨fun h _ => h, fun h => h rfl⟩

namespace AccessPorts

/-! ## The grammar -/

/-- The number that digits spell, the first one counting most. -/
def value (digits : List Char) : Nat :=
  Nat.ofDigits 10 (digits.reverse.map fun c => c.toNat - '0'.toNat)

/-- Digits of a port. -/
structure IsPort (digits : List Char) : Prop where
  nonempty : digits ≠ []
  all : ∀ c ∈ digits, c.isDigit = true
  least : 1 ≤ value digits
  most : value digits ≤ 65535

/-- The name of a protocol, in any case. -/
def IsProtocol (cs : List Char) : Prop :=
  ∃ name ∈ ["tcp", "udp", "http"], cs.map Char.toLower = name.toList

/-- A protocol and a port, where one of some signs can stand before the digits. -/
def IsEntry (signs : List (List Char)) (cs : List Char) : Prop :=
  ∃ protocol, IsProtocol protocol ∧ ∃ sign ∈ signs, ∃ digits, IsPort digits ∧
    cs = protocol ++ ':' :: (sign ++ digits)

/-- Lists of entries: each piece between commas is one when it is trimmed, or nothing. -/
def IsList (signs : List (List Char)) (ports : String) : Prop :=
  ∀ piece ∈ ports.toList.splitOn ',', ∃ entry, Text.Trims piece entry ∧
    (entry = [] ∨ IsEntry signs entry)

theorem value_eq_foldl (digits : List Char) :
    value digits = digits.foldl (fun n c => n * 10 + (c.toNat - 0x30)) 0 := by
  induction digits using List.reverseRecOn with
  | nil => rfl
  | append_singleton digits c ih =>
    rw [List.foldl_append, ← ih]
    unfold value
    rw [List.reverse_append]
    show Nat.ofDigits 10 (_ :: _) = _
    rw [Nat.ofDigits_cons, Nat.mul_comm]
    exact Nat.add_comm _ _

/-! ## Entries -/

/-- **The texts that spell a number** are made of digits, behind a plus or not. -/
theorem number?_eq_some_iff {cs : List Char} {n : Nat} :
    number? cs = some n ↔ ∃ sign ∈ [[], ['+']], ∃ digits : List Char, cs = sign ++ digits ∧
      digits ≠ [] ∧ (∀ c ∈ digits, c.isDigit = true) ∧ value digits = n := by
  have hdigits (digits : List Char) :
      (if digits.isEmpty || !digits.all Json.isDigit then none
        else some (digits.foldl (fun n c => n * 10 + (c.toNat - 0x30)) 0)) = some n ↔
      digits ≠ [] ∧ (∀ c ∈ digits, c.isDigit = true) ∧ value digits = n := by
    have hall : digits.all Json.isDigit = true ↔ ∀ c ∈ digits, c.isDigit = true :=
      List.all_eq_true
    rw [← value_eq_foldl, ← hall]
    cases digits <;> simp
  by_cases hplus : ∃ rest, cs = '+' :: rest
  · obtain ⟨rest, rfl⟩ := hplus
    refine (hdigits rest).trans ⟨fun h => ⟨['+'], by simp, rest, rfl, h⟩, ?_⟩
    rintro ⟨sign, hsign, digits, heq, h⟩
    rcases List.mem_pair.1 hsign with rfl | rfl
    · -- a plus is no digit
      rw [List.nil_append] at heq
      exact absurd (h.2.1 '+' (heq ▸ List.mem_cons_self)) (by decide)
    · obtain rfl : rest = digits := (List.cons.inj heq).2
      exact h
  · have hbare : number? cs =
        if cs.isEmpty || !cs.all Json.isDigit then none
        else some (cs.foldl (fun n c => n * 10 + (c.toNat - 0x30)) 0) := by
      unfold number?
      split
      · exact absurd ⟨_, rfl⟩ hplus
      · rfl
    rw [hbare]
    refine (hdigits cs).trans ⟨fun h => ⟨[], by simp, cs, rfl, h⟩, ?_⟩
    rintro ⟨sign, hsign, digits, heq, h⟩
    rcases List.mem_pair.1 hsign with rfl | rfl
    · exact heq ▸ h
    · exact absurd ⟨_, heq⟩ hplus

theorem isProtocol_iff {cs : List Char} :
    protocols.contains (String.ofList (cs.map Char.toLower)) = true ↔ IsProtocol cs := by
  rw [List.contains_iff_mem]
  constructor
  · intro h
    exact ⟨_, h, String.toList_ofList.symm⟩
  · rintro ⟨name, hname, h⟩
    rw [h, String.ofList_toList]
    exact hname

/-- A protocol is made of the letters of the three names. -/
theorem IsProtocol.toLower_mem {cs : List Char} (h : IsProtocol cs) {c : Char} (hc : c ∈ cs) :
    c.toLower ∈ "tcpudh".toList := by
  obtain ⟨name, hname, heq⟩ := h
  have hletters : ∀ name ∈ ["tcp", "udp", "http"], ∀ d ∈ name.toList, d ∈ "tcpudh".toList := by
    simp
  exact hletters name hname _ (heq ▸ List.mem_map_of_mem hc)

theorem IsProtocol.plain {cs : List Char} (h : IsProtocol cs) : ':' ∉ cs := fun hcolon =>
  absurd (h.toLower_mem hcolon) (by decide)

/-- What it takes for an entry to pass, in the order in which it is looked at. -/
theorem checkEntry_cases {entry : List Char} :
    checkEntry entry = .ok () ↔ ∃ protocol port n,
      Text.splitFirst ':' entry = some (protocol, port) ∧ IsProtocol protocol ∧
        number? port = some n ∧ 0 < n ∧ n ≤ 65535 := by
  constructor
  · intro h
    unfold checkEntry at h
    split at h
    · cases h
    · rename_i protocol port hsplit
      split at h
      · cases h
      · rename_i hprotocol
        rw [Bool.not_eq_true', Bool.not_eq_false, isProtocol_iff] at hprotocol
        split at h
        · rename_i n hnumber
          split at h
          · rename_i hrange
            exact ⟨protocol, port, n, hsplit, hprotocol, hnumber, hrange⟩
          · cases h
        · cases h
  · rintro ⟨protocol, port, n, hsplit, hprotocol, hnumber, hrange⟩
    unfold checkEntry
    simp only [hsplit, isProtocol_iff.2 hprotocol, hnumber, if_pos hrange, Bool.not_true,
      Bool.false_eq_true, if_false]

theorem checkEntry_eq_ok_iff {entry : List Char} :
    checkEntry entry = .ok () ↔ IsEntry [[], ['+']] entry := by
  rw [checkEntry_cases]
  constructor
  · rintro ⟨protocol, port, n, hsplit, hprotocol, hnumber, hleast, hmost⟩
    obtain ⟨sign, hsign, digits, rfl, hne, hall, rfl⟩ := number?_eq_some_iff.1 hnumber
    exact ⟨protocol, hprotocol, sign, hsign, digits, ⟨hne, hall, hleast, hmost⟩,
      Text.eq_of_splitFirst hsplit⟩
  · rintro ⟨protocol, hprotocol, sign, hsign, digits, hport, rfl⟩
    exact ⟨protocol, sign ++ digits, value digits, Text.splitFirst_append hprotocol.plain _,
      hprotocol, number?_eq_some_iff.2 ⟨sign, hsign, digits, rfl, hport.nonempty, hport.all, rfl⟩,
      hport.least, hport.most⟩

/-- Where no sign is allowed, no entry has a plus. -/
theorem IsEntry.plus_notMem {entry : List Char} (h : IsEntry [[]] entry) : '+' ∉ entry := by
  obtain ⟨protocol, hprotocol, sign, hsign, digits, hport, rfl⟩ := h
  obtain rfl := List.mem_singleton.1 hsign
  rw [List.mem_append, List.mem_cons, List.nil_append]
  rintro (hplus | hplus | hplus)
  · exact absurd (hprotocol.toLower_mem hplus) (by decide)
  · exact absurd hplus (by decide)
  · exact absurd (hport.all _ hplus) (by decide)

/-! ## Lists -/

theorem forM_eq_ok_iff {α : Type} {check : α → StoreResult Unit} {xs : List α} :
    xs.forM check = .ok () ↔ ∀ x ∈ xs, check x = .ok () := by
  induction xs with
  | nil => exact ⟨fun _ _ h => (nomatch h), fun _ => rfl⟩
  | cons x xs ih =>
    rw [List.forall_mem_cons, ← ih]
    cases hx : check x with
    | error e =>
      have herror : (x :: xs).forM check = .error e := by
        show (check x >>= fun _ => xs.forM check) = _
        rw [hx]
        rfl
      rw [herror]
      exact ⟨fun h => (nomatch h), fun h => (nomatch h.1)⟩
    | ok u =>
      have hnext : (x :: xs).forM check = xs.forM check := by
        show (check x >>= fun _ => xs.forM check) = _
        rw [hx]
        rfl
      rw [hnext]
      exact ⟨fun h => ⟨rfl, h⟩, fun h => h.2⟩

/-- **A list of ports passes** exactly if it is one of the grammar. -/
theorem validate_iff {ports : String} :
    validate ports = .ok () ↔ IsList [[], ['+']] ports := by
  have hentry (piece : List Char) :
      (∃ entry, Text.Trims piece entry ∧ (entry = [] ∨ IsEntry [[], ['+']] entry)) ↔
        (Text.trimBlank piece ≠ [] → checkEntry (Text.trimBlank piece) = .ok ()) := by
    rw [checkEntry_eq_ok_iff, ← or_iff_not_imp_left]
    exact ⟨fun ⟨_, htrims, h⟩ => Text.trims_iff.1 htrims ▸ h, fun h => ⟨_, Text.trims_iff.2 rfl, h⟩⟩
  unfold validate IsList
  rw [forM_eq_ok_iff, ← Text.splitOn_eq]
  simp only [hentry, entries, List.mem_filter, List.mem_map, Bool.not_eq_true',
    List.isEmpty_eq_false_iff]
  constructor
  · exact fun h piece hpiece hne => h _ ⟨⟨piece, hpiece, rfl⟩, hne⟩
  · rintro h entry ⟨⟨piece, hpiece, rfl⟩, hne⟩
    exact h piece hpiece hne

example : ["tcp:80, UDP:0053 ,,\thttp:+65535", " , "].all (fun ports => (validate ports).isOk) &&
    ["tcp", "tcp:", "sctp:1", "tcp:0", "tcp:65536", "tcp: 80", "tcp:8:0", "tcp:-1"].all
      (fun ports => !(validate ports).isOk) := by decide

end AccessPorts

namespace App

/-- **Which applications pass**, for every selection: those whose key does and, where the ports are
selected, whose ports are in the grammar. -/
theorem validate_iff_ports_in_grammar (mask : FieldMap) (a : App) :
    a.validate mask = .ok () ↔ a.key.validate = .ok () ∧
      (mask.has "6" = true → AccessPorts.IsList [[], ['+']] a.accessPorts) := by
  have horder : a.validate mask =
      inOrder a.key.validate [mask.check "6" (AccessPorts.validate a.accessPorts)] := rfl
  rw [horder, inOrder_eq_ok_iff, List.forall_mem_singleton, FieldMap.check_eq_ok_iff,
    AccessPorts.validate_iff]

/-- An application whose port has a sign. -/
def signed : App :=
  { fields := [], key := ⟨⟨"acme"⟩, "chat", "1"⟩, imagePath := "", imageType := .unknown,
    accessPorts := "tcp:+80", defaultFlavor := ⟨""⟩, tags := [] }

/-- **Digits alone do not make all ports that pass**: a plus before them is read over. -/
theorem ports_pass_with_a_plus :
    ¬ ∀ (mask : FieldMap) (a : App), a.key.validate = .ok () → mask.has "6" = true →
      (a.validate mask = .ok () ↔ AccessPorts.IsList [[]] a.accessPorts) := by
  intro h
  have hpasses : signed.validate (.ofFields ["6"]) = .ok () := by decide
  have hlist := (h (.ofFields ["6"]) signed (by decide) (by decide)).1 hpasses
  obtain ⟨entry, htrims, hentry⟩ := hlist "tcp:+80".toList (by decide)
  have hplus : '+' ∈ entry := htrims.eq ▸ (by decide : '+' ∈ Text.trimBlank "tcp:+80".toList)
  rcases hentry with rfl | hentry
  · cases hplus
  · exact hentry.plus_notMem hplus

end App

end Inventory
