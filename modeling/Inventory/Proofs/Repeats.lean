import Inventory.Proofs.Dashes
import Inventory.Proofs.FirstFree
import Mathlib.Data.List.Dedup
import Mathlib.Data.List.Nodup

/-!
# Candidates that come twice

The first candidate for a label is the label itself in 63 bytes, and each later one is the label in
62 bytes with a digit at the end. So a label that has this very digit behind its first 62 bytes is
its own later candidate. The names of cloudlets are cut too short for that, those of instances are
not.

* `Text.takeBytes_succ_eq_iff`: what a cut of one more byte adds.
* `Label.numbered_eq_iff`: **which two candidates are the same.**
* `Label.nodup_candidates_iff`, `Label.length_dedup_candidates`: how many different ones there are.
* `CloudletKey.nodup_candidates`: no candidate of a cloudlet comes twice.
* `candidates_repeat_iff`: how many labels a call finds taken before it is refused.
* `candidates_can_repeat`: an instance can have nine candidates only.
-/

namespace Inventory

open Text (byteLength takeBytes)

namespace Text

theorem takeBytes_zero (cs : List Char) : takeBytes 0 cs = [] := by
  by_contra hne
  have hpos := byteLength_pos hne
  have hlen := byteLength_takeBytes_le 0 cs
  omega

/-- **What a cut of one more byte adds** is a character of one byte exactly if the shorter cut is
full and the character stands behind it. -/
theorem takeBytes_succ_eq_iff {max : Nat} {d : Char} (hd : d.utf8Size = 1) {cs : List Char} :
    takeBytes (max + 1) cs = takeBytes max cs ++ [d] ↔
      ∃ front rest, cs = front ++ d :: rest ∧ byteLength front = max := by
  constructor
  · intro h
    have hfront : takeBytes max cs ++ [d] <+: cs := h ▸ takeBytes_isPrefix (max + 1) cs
    obtain ⟨rest, hrest⟩ := hfront
    refine ⟨takeBytes max cs, rest, hrest.symm.trans (List.append_assoc _ _ _), ?_⟩
    have hle := byteLength_takeBytes_le max cs
    by_contra hne
    -- else the character fits into the shorter cut
    have hfits : takeBytes max cs ++ [d] <+: takeBytes max cs := by
      refine prefix_takeBytes_iff.2 ⟨⟨rest, hrest⟩, ?_⟩
      rw [byteLength_append, byteLength, byteLength, hd]
      omega
    have hlength := hfits.length_le
    rw [List.length_append, List.length_singleton] at hlength
    omega
  · rintro ⟨front, rest, rfl, rfl⟩
    rw [takeBytes_append (Nat.le_add_right _ 1), takeBytes_append le_rfl, Nat.sub_self,
      takeBytes_zero, Nat.add_sub_cancel_left, takeBytes, if_pos hd.le, hd, Nat.sub_self,
      takeBytes_zero, List.append_nil]

end Text

namespace Label

/-! ## Candidates of a label -/

/-- A label has the digit of a later candidate right behind its first 62 bytes. -/
def RepeatsAt (base : List Char) (counter : Nat) : Prop :=
  1 ≤ counter ∧ counter < maxCandidates ∧
    ∃ front rest, base = front ++ Nat.digitChar counter :: rest ∧ byteLength front = 62

theorem numbered_later {counter : Nat} (hpos : 1 ≤ counter) (h : counter < maxCandidates)
    (base : List Char) :
    numbered base maxBytes counter = takeBytes 62 base ++ [Nat.digitChar counter] := by
  have hall : ∀ n ∈ List.range maxCandidates, 1 ≤ n → suffix n = [Nat.digitChar n] ∧
      maxBytes - byteLength (suffix n) = 62 := by decide
  obtain ⟨hsuffix, hroom⟩ := hall counter (List.mem_range.2 h) hpos
  unfold numbered
  rw [hroom, hsuffix]

/-- **Two candidates are the same** exactly if one is the label itself, and it has the digit of the
other behind its first 62 bytes. -/
theorem numbered_eq_iff {base : List Char} {m n : Nat} (hmn : m < n) (hn : n < maxCandidates) :
    numbered base maxBytes m = numbered base maxBytes n ↔ m = 0 ∧ RepeatsAt base n := by
  have hdigits : ∀ j ∈ List.range maxCandidates, (Nat.digitChar j).utf8Size = 1 ∧
      ∀ i < j, Nat.digitChar i ≠ Nat.digitChar j := by decide
  obtain ⟨hsize, hdifferent⟩ := hdigits n (List.mem_range.2 hn)
  rw [numbered_later (by omega) hn]
  rcases Nat.eq_zero_or_pos m with rfl | hm
  · rw [numbered_zero, show maxBytes = 62 + 1 from rfl, Text.takeBytes_succ_eq_iff hsize]
    exact ⟨fun h => ⟨rfl, hmn, hn, h⟩, fun h => h.2.2.2⟩
  · rw [numbered_later hm (by omega), List.append_cancel_left_eq, List.singleton_inj]
    exact ⟨fun h => absurd h (hdifferent m hmn), fun h => absurd h.1 (by omega)⟩

theorem numbered_eq_cases {base : List Char} {m n : Nat} (hm : m < maxCandidates)
    (hn : n < maxCandidates) (h : numbered base maxBytes m = numbered base maxBytes n) :
    m = n ∨ m = 0 ∧ RepeatsAt base n ∨ n = 0 ∧ RepeatsAt base m := by
  rcases Nat.lt_trichotomy m n with hlt | heq | hlt
  · exact .inr (.inl ((numbered_eq_iff hlt hn).1 h))
  · exact .inl heq
  · exact .inr (.inr ((numbered_eq_iff hlt hm).1 h.symm))

theorem nodup_candidates_iff {base : List Char} :
    (candidates base).Nodup ↔ ∀ n, ¬ RepeatsAt base n := by
  unfold candidates
  rw [List.nodup_map_iff_inj_on List.nodup_range]
  constructor
  · intro h n hn
    have hsame := (numbered_eq_iff hn.1 hn.2.1).2 ⟨rfl, hn⟩
    have hzero := h 0 (List.mem_range.2 (by decide)) n (List.mem_range.2 hn.2.1) hsame
    exact absurd hn.1 (by omega)
  · intro h m hm n hn hsame
    rw [List.mem_range] at hm hn
    rcases numbered_eq_cases hm hn hsame with heq | ⟨-, hrepeats⟩ | ⟨-, hrepeats⟩
    · exact heq
    · exact absurd hrepeats (h n)
    · exact absurd hrepeats (h m)

/-- At most the first candidate comes again. -/
theorem nodup_later_candidates (base : List Char) : (candidates base).tail.Nodup := by
  have htail : (candidates base).tail = (List.range' 1 9).map (numbered base maxBytes) := rfl
  rw [htail, List.nodup_map_iff_inj_on List.nodup_range']
  intro m hm n hn hsame
  obtain ⟨hm, hm'⟩ := List.mem_range'_1.1 hm
  obtain ⟨hn, hn'⟩ := List.mem_range'_1.1 hn
  rcases numbered_eq_cases hm' hn' hsame with heq | ⟨hzero, -⟩ | ⟨hzero, -⟩
  · exact heq
  · exact absurd hzero (by omega)
  · exact absurd hzero (by omega)

/-- A label that repeats has nine different candidates. -/
theorem length_dedup_candidates {base : List Char} (h : ¬ (candidates base).Nodup) :
    (candidates base).dedup.length = 9 := by
  have hcons : candidates base = numbered base maxBytes 0 :: (candidates base).tail := rfl
  have hlater := nodup_later_candidates base
  rw [hcons, List.nodup_cons, not_and_or, not_not, or_iff_left (not_not_intro hlater)] at h
  rw [hcons, List.dedup_cons_of_mem h, hlater.dedup]
  rfl

theorem texts_of_nodup {base : List Char} (h : (candidates base).Nodup) :
    ((candidates base).map String.ofList).Nodup ∧
      ((candidates base).map String.ofList).dedup.length = 10 := by
  have hdifferent := (List.nodup_map_iff @String.ofList_injective).2 h
  rw [hdifferent.dedup, List.length_map, length_candidates]
  exact ⟨hdifferent, rfl⟩

theorem texts_of_repeatsAt {base : List Char} {n : Nat} (h : RepeatsAt base n) :
    ¬ ((candidates base).map String.ofList).Nodup ∧
      ((candidates base).map String.ofList).dedup.length = 9 := by
  have hsame : ¬ (candidates base).Nodup := fun hnodup => nodup_candidates_iff.1 hnodup n h
  rw [List.nodup_map_iff @String.ofList_injective,
    List.dedup_map_of_injective @String.ofList_injective, List.length_map,
    length_dedup_candidates hsame]
  exact ⟨hsame, rfl⟩

end Label

/-! ## Candidates of cloudlets -/

/-- **No candidate of a cloudlet comes twice**, since its label is not as long. -/
theorem CloudletKey.nodup_candidates (k : CloudletKey) : (Label.candidates k.labelBase).Nodup := by
  refine Label.nodup_candidates_iff.2 fun n hn => ?_
  obtain ⟨-, -, front, rest, hbase, hfront⟩ := hn
  have hshort := k.byteLength_labelBase_le
  have hdigit := (Nat.digitChar n).utf8Size_pos
  rw [hbase, Text.byteLength_append, byteLength] at hshort
  omega

/-! ## Calls that are refused -/

open Label (numbered maxBytes)

/-- A call tries so many different candidates, and is refused exactly if it has found all of them
taken. -/
structure Generator.Tries {α : Type} (g : Generator α) (r : Running) (count : Nat) : Prop where
  different : g.candidates.dedup.length = count
  refused : ∃ seer, r.Looked seer ∧ ((∀ a, (g.call.run r).1 ≠ .ok (.ok (), a)) ↔
    ∀ label ∈ g.candidates, g.isFree seer label = false)

theorem Generator.GivesFirst.tries {α : Type} {g : Generator α} {r seer : Running}
    (h : g.GivesFirst r seer) {count : Nat} (hcount : g.candidates.dedup.length = count) :
    g.Tries r count := by
  refine ⟨hcount, seer, h.looked, ?_⟩
  rw [← not_iff_not, not_forall]
  simp only [not_not, h.succeeds, not_forall, Bool.not_eq_false, exists_prop]

/-- **How many labels a call tries.** A transaction has planned and read whatever it may, the store
is open and holds anything, and others use it meanwhile. The ten candidates of a cloudlet are
different, whatever its key is, so it is refused a label only where all ten are taken. Those of an
instance are different unless its label has a digit from 1 to 9 behind its first 62 bytes: the
candidate with this digit is the label itself, no two others are the same, and the instance is
refused where nine labels are taken. -/
theorem candidates_repeat_iff (r : Running) (hr : r.StaysOpen) :
    (∀ c : Cloudlet, c.labelGenerator.candidates.Nodup ∧ c.labelGenerator.Tries r 10) ∧
    ∀ i : AppInst,
      (∀ m n, m < n → n < 10 →
        (numbered i.key.labelBase maxBytes m = numbered i.key.labelBase maxBytes n ↔
          m = 0 ∧ Label.RepeatsAt i.key.labelBase n)) ∧
      ((∀ n, ¬ Label.RepeatsAt i.key.labelBase n) →
        i.labelGenerator.candidates.Nodup ∧ i.labelGenerator.Tries r 10) ∧
      ((∃ n, Label.RepeatsAt i.key.labelBase n) →
        ¬ i.labelGenerator.candidates.Nodup ∧ i.labelGenerator.Tries r 9) := by
  refine ⟨fun c => ?_, fun i => ⟨fun m n => Label.numbered_eq_iff, fun hnone => ?_, ?_⟩⟩
  · obtain ⟨seer, hgives⟩ := c.gives_first_label hr
    obtain ⟨hdifferent, hten⟩ := Label.texts_of_nodup c.key.nodup_candidates
    exact ⟨hdifferent, hgives.tries hten⟩
  · obtain ⟨seer, hgives⟩ := i.gives_first_label hr
    obtain ⟨hdifferent, hten⟩ := Label.texts_of_nodup (Label.nodup_candidates_iff.2 hnone)
    exact ⟨hdifferent, hgives.tries hten⟩
  · rintro ⟨n, hn⟩
    obtain ⟨seer, hgives⟩ := i.gives_first_label hr
    obtain ⟨hsame, hnine⟩ := Label.texts_of_repeatsAt hn
    exact ⟨hsame, hgives.tries hnine⟩

namespace Atoll

/-- An instance whose label has 63 bytes, the last of which is a digit. -/
def palm : AppInst :=
  ⟨[], ⟨⟨⟨"ooooooooooooooooooooo1"⟩, "aaaaaaaaaaaaaaaaaaaaaaaaaaaaaaaaaaaaaaaa", ""⟩,
    ⟨⟨"o"⟩, "c"⟩⟩, ⟨.zero, .zero, .zero⟩, "", ⟨""⟩, "", "", .dynamic⟩

/-- The label without its last digit. -/
def front : String := "aaaaaaaaaaaaaaaaaaaaaaaaaaaaaaaaaaaaaaaa-ooooooooooooooooooooo"

theorem labelBase_palm : palm.key.labelBase = front.toList ++ ['1'] := by decide +kernel

theorem repeats : Label.RepeatsAt palm.key.labelBase 1 :=
  ⟨le_rfl, by decide, front.toList, [], labelBase_palm, by decide +kernel⟩

/-- A transaction that begins when this label is reserved on the cloudlet. -/
def taken : Running :=
  .alone (Op.run (.put (Reservation.instanceLabel palm.key.cloudletKey (front ++ "1")).storeKey [])
    .empty).2 (.start 1)

theorem staysOpen : taken.StaysOpen := by
  refine .of_others fun ops hops => ?_
  obtain rfl := List.prefix_nil.1 hops
  rfl

end Atoll

/-- An instance whose label is taken, and with it the candidate with a one at the end, so that eight
candidates are left to try. -/
theorem candidates_repeat_iff_on_an_atoll :
    Atoll.taken.StaysOpen ∧ Label.RepeatsAt Atoll.palm.key.labelBase 1 ∧
    ¬ Atoll.palm.labelGenerator.candidates.Nodup ∧
    Atoll.palm.labelGenerator.Tries Atoll.taken 9 ∧
    Label.isAvailable (.instanceLabel Atoll.palm.key.cloudletKey) Atoll.taken
      (Atoll.front ++ "1") = false := by
  obtain ⟨-, hinstances⟩ := candidates_repeat_iff Atoll.taken Atoll.staysOpen
  obtain ⟨hsame, hnine⟩ := (hinstances Atoll.palm).2.2 ⟨1, Atoll.repeats⟩
  exact ⟨Atoll.staysOpen, Atoll.repeats, hsame, hnine, by decide +kernel⟩

/-- The candidates of an instance need not be different, although its key is allowed. -/
theorem candidates_can_repeat :
    ¬ ∀ i : AppInst, i.key.validate = .ok () → i.labelGenerator.candidates.Nodup := by
  intro h
  have hallowed : Atoll.palm.key.validate = .ok () := by decide +kernel
  exact (Label.texts_of_repeatsAt Atoll.repeats).1 (h Atoll.palm hallowed)

end Inventory
