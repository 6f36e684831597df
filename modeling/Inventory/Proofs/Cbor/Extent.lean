import Inventory.Cbor.Read

/-!
# What readers take

A reader takes an item from the front of the bytes and gives back what is left over. It decides by
what it takes: nothing that follows the item makes a difference.

* `Local`: a reader that takes the same, whatever follows.
* `Headed`: a reader that takes nothing where there is no head.
* `untagged_local`, `forEntries_local`, `readContent_local`: the parts that readers are made of.
  Those that go on until something comes are given as much fuel as there are bytes, and more bytes
  only give them more.
* `skip_local`, `Leaf.read_local`: passing over items, and reading leaves.
* `Shape.read_local`: **reading a record is local**.
-/

namespace Inventory

namespace Cbor

/-- A reader that takes the same, whatever follows what it takes. -/
structure Local {α : Type} (f : Bytes → Option (α × Bytes)) : Prop where
  append {bs rest : Bytes} {v : α} (h : f bs = some (v, rest)) (more : Bytes) :
    f (bs ++ more) = some (v, rest ++ more)

/-- A reader that takes nothing where there is no head. -/
structure Headed {α : Type} (f : Bytes → Option α) : Prop where
  none_of_read {bs : Bytes} (h : Head.read bs = none) : f bs = none

variable {α β σ : Type}

theorem Local.map {f : Bytes → Option (α × Bytes)} (hf : Local f) (g : α → β) :
    Local fun bs => (f bs).map fun (v, rest) => (g v, rest) := by
  refine ⟨fun {bs rest w} h more => ?_⟩
  obtain ⟨⟨v, tail⟩, hread, hpair⟩ := Option.map_eq_some_iff.1 h
  cases hpair
  simp only [hf.append hread, Option.map_some]

theorem Headed.map {f : Bytes → Option α} (hf : Headed f) (g : α → β) :
    Headed fun bs => (f bs).map g :=
  ⟨fun h => by simp only [hf.none_of_read h, Option.map_none]⟩

/-! ## Heads -/

theorem takeExact_local (n : Nat) : Local (takeExact n) := by
  refine ⟨fun {bs rest taken} h more => ?_⟩
  unfold takeExact at h ⊢
  by_cases hn : n ≤ bs.length
  · rw [if_pos hn] at h
    cases h
    rw [if_pos (by rw [List.length_append]; omega), List.take_append_of_le_length hn,
      List.drop_append_of_le_length hn]
  · rw [if_neg hn] at h
    cases h

theorem Argument.read_local (minor : Nat) : Local (Argument.read minor) := by
  refine ⟨fun {bs rest a} h more => ?_⟩
  unfold Argument.read at h ⊢
  by_cases hshort : minor < 24
  · rw [if_pos hshort] at h ⊢
    cases h
    rfl
  rw [if_neg hshort] at h ⊢
  by_cases hlong : minor < 28
  · rw [if_pos hlong] at h ⊢
    exact ((takeExact_local (twoPow (minor - 24))).map fun taken =>
      long (twoPow (minor - 24)) (ofBigEndian 0 taken)).append h more
  rw [if_neg hlong] at h ⊢
  by_cases habsent : minor = 31
  · rw [if_pos habsent] at h ⊢
    cases h
    rfl
  · rw [if_neg habsent] at h
    cases h

theorem Head.read_local : Local Head.read := by
  refine ⟨fun {bs rest head} h more => ?_⟩
  cases bs with
  | nil => cases h
  | cons b bs =>
    simp only [Head.read, List.cons_append] at h ⊢
    split at h
    · cases h
    · rename_i a tail hread
      rw [(Argument.read_local _).append hread]
      obtain ⟨head', hhead, hpair⟩ := Option.map_eq_some_iff.1 h
      cases hpair
      simp only [hhead, Option.map_some]

/-- Tags are passed as before, with at least as much fuel. -/
theorem Head.readUntagged_append {fuel fuel' : Nat} {bs rest : Bytes} {head : Head}
    (h : readUntagged fuel bs = some (head, rest)) (hle : fuel ≤ fuel') (more : Bytes) :
    readUntagged fuel' (bs ++ more) = some (head, rest ++ more) := by
  induction fuel generalizing fuel' bs with
  | zero => cases h
  | succ fuel ih =>
    obtain ⟨fuel', rfl⟩ : ∃ n, fuel' = n + 1 := ⟨fuel' - 1, by omega⟩
    unfold readUntagged at h ⊢
    cases hread : Head.read bs with
    | none => rw [hread] at h; cases h
    | some r =>
      obtain ⟨first, tail⟩ := r
      rw [hread] at h
      rw [Head.read_local.append hread]
      cases first with
      | tag n => exact ih h (by omega)
      | _ => cases h; rfl

theorem untagged_local : Local untagged :=
  ⟨fun h more => Head.readUntagged_append h (by rw [List.length_append]; omega) more⟩

theorem untagged_headed : Headed untagged := by
  refine ⟨fun {bs} h => ?_⟩
  unfold untagged
  cases bs with
  | nil => rfl
  | cons b bs =>
    -- there is fuel for one head, and none is found
    rw [List.length_cons, Head.readUntagged, h]

/-! ## Repetition -/

theorem repeatStep_local {step : σ → Bytes → Option (σ × Bytes)} (hstep : ∀ st, Local (step st))
    (n : Nat) (st : σ) : Local (repeatStep step n st) := by
  refine ⟨fun {bs rest out} h more => ?_⟩
  induction n generalizing st bs with
  | zero => cases h; rfl
  | succ n ih =>
    unfold repeatStep at h ⊢
    cases hread : step st bs with
    | none => rw [hread] at h; cases h
    | some r =>
      rw [hread] at h
      rw [(hstep st).append hread]
      exact ih r.1 h

/-- A stop ends a repetition, before anything else is done. -/
theorem repeatToStop_stop {step : σ → Bytes → Option (σ × Bytes)} {fuel : Nat} {st : σ}
    {bs rest : Bytes} (h : Head.read bs = some (.stop, rest)) :
    repeatToStop step (fuel + 1) st bs = some (st, rest) := by
  unfold repeatToStop
  rw [h]

/-- Where no stop stands, a step is done. -/
theorem repeatToStop_step {step : σ → Bytes → Option (σ × Bytes)} {fuel : Nat} {st : σ}
    {bs : Bytes} (h : ∀ rest, Head.read bs ≠ some (.stop, rest)) :
    repeatToStop step (fuel + 1) st bs =
      (step st bs).bind fun r => repeatToStop step fuel r.1 r.2 := by
  rw [repeatToStop]
  split
  · rename_i heq
    exact absurd heq (h _)
  · cases step st bs <;> rfl

/-- The stop comes where it came, as no step is done where a head was cut. -/
theorem repeatToStop_append {step : σ → Bytes → Option (σ × Bytes)}
    (hstep : ∀ st, Local (step st)) (hhead : ∀ st, Headed (step st)) {fuel fuel' : Nat} {st out : σ}
    {bs rest : Bytes} (h : repeatToStop step fuel st bs = some (out, rest)) (hle : fuel ≤ fuel')
    (more : Bytes) : repeatToStop step fuel' st (bs ++ more) = some (out, rest ++ more) := by
  induction fuel generalizing fuel' st bs with
  | zero => cases h
  | succ fuel ih =>
    obtain ⟨fuel', rfl⟩ : ∃ n, fuel' = n + 1 := ⟨fuel' - 1, by omega⟩
    by_cases hstop : ∃ tail, Head.read bs = some (.stop, tail)
    · obtain ⟨tail, hstop⟩ := hstop
      rw [repeatToStop_stop hstop] at h
      cases h
      exact repeatToStop_stop (Head.read_local.append hstop more)
    rw [repeatToStop_step (not_exists.1 hstop)] at h
    obtain ⟨⟨st', tail⟩, hread, h⟩ := Option.bind_eq_some_iff.1 h
    -- the step read a head, which is no stop with more bytes either
    have hgo : ∀ tail, Head.read (bs ++ more) ≠ some (.stop, tail) := by
      intro after hafter
      cases hfirst : Head.read bs with
      | none => rw [(hhead st).none_of_read hfirst] at hread; cases hread
      | some r =>
        rw [Head.read_local.append hfirst] at hafter
        obtain ⟨first, tail⟩ := r
        cases hafter
        exact hstop ⟨_, hfirst⟩
    rw [repeatToStop_step hgo, (hstep st).append hread]
    exact ih h (by omega)

theorem forEntries_local {step : σ → Bytes → Option (σ × Bytes)} (hstep : ∀ st, Local (step st))
    (hhead : ∀ st, Headed (step st)) (length : Option Nat) (st : σ) :
    Local (forEntries step length st) := by
  refine ⟨fun {bs rest out} h more => ?_⟩
  cases length with
  | some n => exact (repeatStep_local hstep n st).append h more
  | none =>
    exact repeatToStop_append hstep hhead h (by rw [List.length_append]; omega) more

/-! ## Texts and byte strings -/

/-- What no stop announces: a sequence of pieces inside, or a piece. -/
theorem readPieces_head {kind : PieceHead} {fuel nested : Nat} {bs rest : Bytes} {head : Head}
    (h : Head.read bs = some (head, rest)) (hstop : head ≠ .stop) :
    readPieces kind (fuel + 1) nested bs = (kind head).bind fun
      | none => readPieces kind fuel (nested + 1) rest
      | some n => (takeExact n rest).bind fun (piece, rest) =>
        (readPieces kind fuel nested rest).map fun (pieces, rest) => (piece :: pieces, rest) := by
  rw [readPieces, h]
  cases head with
  | stop => exact absurd rfl hstop
  | _ =>
    simp only
    rcases kind _ with _ | _ | n
    · rfl
    · rfl
    · simp only [Option.bind_some]
      cases takeExact n rest <;> rfl

/-- What a stop ends: the outermost sequence, or one inside it. -/
theorem readPieces_stop {kind : PieceHead} {fuel nested : Nat} {bs rest : Bytes}
    (h : Head.read bs = some (.stop, rest)) :
    readPieces kind (fuel + 1) nested bs =
      if nested ≤ 1 then some ([], rest) else readPieces kind fuel (nested - 1) rest := by
  rw [readPieces, h]

/-- Pieces are read as before, with at least as much fuel. -/
theorem readPieces_append {kind : PieceHead} {fuel fuel' nested : Nat} {bs rest : Bytes}
    {pieces : List Bytes} (h : readPieces kind fuel nested bs = some (pieces, rest))
    (hle : fuel ≤ fuel') (more : Bytes) :
    readPieces kind fuel' nested (bs ++ more) = some (pieces, rest ++ more) := by
  induction fuel generalizing fuel' nested bs pieces with
  | zero => cases h
  | succ fuel ih =>
    obtain ⟨fuel', rfl⟩ : ∃ n, fuel' = n + 1 := ⟨fuel' - 1, by omega⟩
    have hle : fuel ≤ fuel' := by omega
    cases hread : Head.read bs with
    | none => rw [readPieces, hread] at h; cases h
    | some r =>
      obtain ⟨head, tail⟩ := r
      have hmore := Head.read_local.append hread more
      by_cases hstop : head = .stop
      · subst hstop
        rw [readPieces_stop hread] at h
        rw [readPieces_stop hmore]
        by_cases hlast : nested ≤ 1
        · rw [if_pos hlast] at h ⊢
          cases h
          rfl
        · rw [if_neg hlast] at h ⊢
          exact ih h hle
      rw [readPieces_head hread hstop] at h
      rw [readPieces_head hmore hstop]
      obtain ⟨length, hkind, h⟩ := Option.bind_eq_some_iff.1 h
      rw [hkind]
      cases length with
      | none => exact ih h hle
      | some n =>
        obtain ⟨⟨piece, after⟩, htake, h⟩ := Option.bind_eq_some_iff.1 h
        obtain ⟨⟨later, out⟩, hlater, hpair⟩ := Option.map_eq_some_iff.1 h
        cases hpair
        simp only [Option.bind_some, (takeExact_local n).append htake, ih hlater hle,
          Option.map_some]

theorem readContent_local (kind : PieceHead) (length : Option Nat) :
    Local (readContent kind length) := by
  refine ⟨fun {bs rest pieces} h more => ?_⟩
  cases length with
  | some n => exact ((takeExact_local n).map fun piece => [piece]).append h more
  | none => exact readPieces_append h (by rw [List.length_append]; omega) more

/-! ## Passing over -/

/-- Passing over an item is reading nothing from it. -/
def passing (f : Bytes → Option Bytes) (bs : Bytes) : Option (Unit × Bytes) :=
  (f bs).map fun rest => ((), rest)

/-- What is passed over is the same, whatever follows. -/
theorem passing_local {f : Bytes → Option Bytes} :
    Local (passing f) ↔
      ∀ {bs rest : Bytes}, f bs = some rest → ∀ more, f (bs ++ more) = some (rest ++ more) := by
  constructor
  · intro hf bs rest h more
    have hpass : passing f bs = some ((), rest) := by rw [passing, h]; rfl
    obtain ⟨after, hafter, hpair⟩ := Option.map_eq_some_iff.1 (hf.append hpass more)
    rw [hafter, (Prod.mk.inj hpair).2]
  · intro hf
    refine ⟨fun {bs rest u} h more => ?_⟩
    obtain ⟨after, hafter, hpair⟩ := Option.map_eq_some_iff.1 h
    cases hpair
    rw [passing, hf hafter more]
    rfl

/-- Reading and keeping nothing. -/
theorem Local.dropped {f : Bytes → Option (α × Bytes)} (hf : Local f) :
    Local (passing fun bs => (f bs).map (·.2)) := by
  rw [passing_local]
  intro bs rest h more
  obtain ⟨⟨v, tail⟩, hread, hrest⟩ := Option.map_eq_some_iff.1 h
  cases hrest
  simp only [hf.append hread, Option.map_some]

section Skipping

variable {inner : Option (Bytes → Option Bytes)}

/-- A tag and what stands behind it that make a big number: how many digits it has, and what they
begin. -/
def bigNumber? (tag : Nat) (bs : Bytes) : Option (Nat × Bytes) :=
  match Head.read bs with
  | some (.bytes (some n), rest) =>
    if (tag = 2 ∨ tag = 3) ∧ n ≤ maxDigits then some (n, rest) else none
  | _ => none

/-- A big number is passed over as a whole. -/
theorem skipTagged_of_digits {tag n : Nat} {bs rest : Bytes}
    (h : bigNumber? tag bs = some (n, rest)) :
    skipTagged inner tag bs = (takeExact n rest).bind fun (digits, rest) =>
      if tag = 3 ∧ twoPow 127 ≤ ofBigEndian 0 digits then none else some rest := by
  unfold bigNumber? at h
  unfold skipTagged
  cases hread : Head.read bs with
  | none => rw [hread] at h; cases h
  | some r =>
    obtain ⟨head, tail⟩ := r
    rw [hread] at h
    cases head with
    | bytes length =>
      cases length with
      | none => cases h
      | some m =>
        simp only at h ⊢
        by_cases hbig : (tag = 2 ∨ tag = 3) ∧ m ≤ maxDigits
        · rw [if_pos hbig] at h ⊢
          cases h
          cases takeExact n rest <;> rfl
        · rw [if_neg hbig] at h
          cases h
    | _ => cases h

/-- Anything else behind a tag is passed over as an item one level below. -/
theorem skipTagged_of_item {tag : Nat} {bs : Bytes} (h : bigNumber? tag bs = none) :
    skipTagged inner tag bs = inner.bind fun f => f bs := by
  unfold bigNumber? at h
  unfold skipTagged
  split
  · rename_i hread
    rw [hread] at h
    simp only at h
    rw [if_neg]
    intro hbig
    rw [if_pos hbig] at h
    cases h
  · rfl

/-- Whether a big number begins is told by the head. -/
theorem bigNumber?_append (tag : Nat) {bs : Bytes} (h : Head.read bs ≠ none) (more : Bytes) :
    bigNumber? tag (bs ++ more) =
      (bigNumber? tag bs).map fun (n, rest) => (n, rest ++ more) := by
  cases hread : Head.read bs with
  | none => exact absurd hread h
  | some r =>
    obtain ⟨head, tail⟩ := r
    unfold bigNumber?
    rw [hread, Head.read_local.append hread]
    cases head with
    | bytes length =>
      cases length with
      | none => rfl
      | some n =>
        simp only
        split <;> rfl
    | _ => rfl

theorem skipTagged_local (hinner : ∀ f, inner = some f → Local (passing f) ∧ Headed f) (tag : Nat) :
    Local (passing (skipTagged inner tag)) := by
  rw [passing_local]
  intro bs rest h more
  cases hbig : bigNumber? tag bs with
  | some r =>
    -- the head told how many digits follow, and they were there
    obtain ⟨n, tail⟩ := r
    have hread : Head.read bs ≠ none := by
      intro hnone
      rw [bigNumber?, hnone] at hbig
      cases hbig
    have hmore := bigNumber?_append tag hread more
    rw [hbig] at hmore
    rw [skipTagged_of_digits hbig] at h
    rw [skipTagged_of_digits hmore]
    obtain ⟨⟨digits, after⟩, htake, h⟩ := Option.bind_eq_some_iff.1 h
    rw [(takeExact_local n).append htake]
    simp only [Option.bind_some] at h ⊢
    by_cases hhigh : tag = 3 ∧ twoPow 127 ≤ ofBigEndian 0 digits
    · rw [if_pos hhigh] at h
      cases h
    · rw [if_neg hhigh] at h ⊢
      cases h
      rfl
  | none =>
    -- a big number does not begin where the head was cut, as nothing could be passed over there
    rw [skipTagged_of_item hbig] at h
    obtain ⟨f, hf, hrest⟩ := Option.bind_eq_some_iff.1 h
    obtain ⟨hlocal, hhead⟩ := hinner f hf
    have hread : Head.read bs ≠ none := by
      intro hnone
      rw [hhead.none_of_read hnone] at hrest
      cases hrest
    have hmore := bigNumber?_append tag hread more
    rw [hbig] at hmore
    rw [skipTagged_of_item hmore, hf]
    exact passing_local.1 hlocal hrest more

/-- Items one after another, each passed over by itself. -/
def passTimes (count : Nat) (f : Bytes → Option Bytes) (_ : Unit) (bs : Bytes) :
    Option (Unit × Bytes) :=
  repeatStep (fun _ bs => passing f bs) count () bs

theorem passTimes_headed {f : Bytes → Option Bytes} (hf : Headed f) (count : Nat) (u : Unit) :
    Headed (passTimes (count + 1) f u) := by
  refine ⟨fun {bs} h => ?_⟩
  unfold passTimes repeatStep passing
  rw [hf.none_of_read h]
  rfl

/-- The items of an array or a map are passed over one after another. -/
theorem passEntries_local (hinner : ∀ f, inner = some f → Local (passing f) ∧ Headed f)
    (count : Nat) (length : Option Nat) :
    Local (passing fun bs =>
      inner.bind fun f => (forEntries (passTimes (count + 1) f) length () bs).map (·.2)) := by
  cases inner with
  | none => exact ⟨fun h => nomatch h⟩
  | some f =>
    obtain ⟨hlocal, hhead⟩ := hinner f rfl
    exact (forEntries_local (fun u => repeatStep_local (fun _ => hlocal) (count + 1) u)
      (fun u => passTimes_headed hhead count u) length ()).dropped

theorem skipWith_headed : Headed (skipWith inner) := by
  refine ⟨fun {bs} h => ?_⟩
  unfold skipWith
  rw [h]

theorem skipWith_local (hinner : ∀ f, inner = some f → Local (passing f) ∧ Headed f) :
    Local (passing (skipWith inner)) := by
  rw [passing_local]
  intro bs rest h more
  cases hread : Head.read bs with
  | none =>
    rw [skipWith_headed.none_of_read hread] at h
    cases h
  | some r =>
    obtain ⟨head, tail⟩ := r
    unfold skipWith at h ⊢
    rw [hread] at h
    rw [Head.read_local.append hread]
    cases head with
    | unsigned n | negative n | half n | single n | double n => cases h; rfl
    | simple n =>
      simp only at h ⊢
      split at h
      · rename_i hknown
        cases h
        rw [if_pos hknown]
      · cases h
    | stop => cases h
    | bytes length => exact passing_local.1 (readContent_local .bytes length).dropped h more
    | text length =>
      simp only at h ⊢
      cases hpieces : readContent .text length tail with
      | none => rw [hpieces] at h; cases h
      | some r =>
        obtain ⟨pieces, after⟩ := r
        rw [hpieces] at h
        rw [(readContent_local .text length).append hpieces]
        obtain ⟨s, hjoin, hrest⟩ := Option.map_eq_some_iff.1 h
        cases hrest
        simp only [hjoin, Option.map_some]
    | array length => exact passing_local.1 (passEntries_local hinner 0 length) h more
    | map length => exact passing_local.1 (passEntries_local hinner 1 length) h more
    | tag n => exact passing_local.1 (skipTagged_local hinner n) h more

end Skipping

theorem skip_headed (budget : Nat) : Headed (skip budget) := by
  cases budget with
  | zero => exact ⟨skipWith_headed.none_of_read⟩
  | succ budget => exact ⟨skipWith_headed.none_of_read⟩

/-- **An item is passed over alike, whatever follows.** -/
theorem skip_local (budget : Nat) : Local (passing (skip budget)) := by
  induction budget with
  | zero => exact skipWith_local fun f h => nomatch h
  | succ budget ih =>
    refine skipWith_local fun f h => ?_
    cases h
    exact ⟨ih, skip_headed budget⟩

/-! ## Texts and names -/

theorem readText_local : Local readText := by
  refine ⟨fun {bs rest s} h more => ?_⟩
  unfold readText at h ⊢
  split at h
  · rename_i length tail hhead
    rw [untagged_local.append hhead]
    simp only at h ⊢
    split at h
    · cases h
    · rename_i pieces after hpieces
      rw [(readContent_local .text length).append hpieces]
      obtain ⟨t, hjoin, hpair⟩ := Option.map_eq_some_iff.1 h
      cases hpair
      simp only [hjoin, Option.map_some]
  · cases h

theorem readText_headed : Headed readText := by
  refine ⟨fun {bs} h => ?_⟩
  unfold readText
  rw [untagged_headed.none_of_read h]

theorem takeName_local (n : Nat) : Local (takeName n) := by
  refine ⟨fun {bs rest name} h more => ?_⟩
  unfold takeName at h ⊢
  split at h
  · rename_i hn
    rw [if_pos hn]
    exact (takeExact_local n).append h more
  · cases h

theorem readName_local : Local readName := by
  refine ⟨fun {bs rest name} h more => ?_⟩
  unfold readName at h ⊢
  split at h
  · rename_i n tail hhead
    rw [untagged_local.append hhead]
    simp only at h ⊢
    split at h
    · cases h
    · rename_i taken after htake
      rw [(takeName_local n).append htake]
      obtain ⟨t, htext, hpair⟩ := Option.map_eq_some_iff.1 h
      cases hpair
      simp only [htext, Option.map_some]
  · rename_i n tail hhead
    rw [untagged_local.append hhead]
    exact (takeName_local n).append h more
  · cases h

theorem readName_headed : Headed readName := by
  refine ⟨fun {bs} h => ?_⟩
  unfold readName
  rw [untagged_headed.none_of_read h]

/-! ## Numbers -/

theorem readBigNumber_local : Local readBigNumber := by
  refine ⟨fun {bs rest n} h more => ?_⟩
  unfold readBigNumber at h ⊢
  split at h
  · rename_i length tail hhead
    rw [Head.read_local.append hhead]
    simp only at h ⊢
    split at h
    · cases h
    · rename_i pieces after hpieces
      rw [(readContent_local .bytes length).append hpieces]
      simp only at h ⊢
      split at h
      · rename_i hdigits
        cases h
        rw [if_pos hdigits]
      · cases h
  · cases h

/-- An integer is read as before, with at least as much fuel. -/
theorem readIntegerFrom_append {fuel fuel' : Nat} {bs rest : Bytes} {n : Int}
    (h : readIntegerFrom fuel bs = some (n, rest)) (hle : fuel ≤ fuel') (more : Bytes) :
    readIntegerFrom fuel' (bs ++ more) = some (n, rest ++ more) := by
  induction fuel generalizing fuel' bs with
  | zero => cases h
  | succ fuel ih =>
    obtain ⟨fuel', rfl⟩ : ∃ n, fuel' = n + 1 := ⟨fuel' - 1, by omega⟩
    unfold readIntegerFrom at h ⊢
    split at h
    · rename_i hhead
      rw [Head.read_local.append hhead]
      cases h
      rfl
    · rename_i hhead
      rw [Head.read_local.append hhead]
      cases h
      rfl
    · rename_i hhead
      rw [Head.read_local.append hhead]
      exact (readBigNumber_local.map fun n => (n : Int)).append h more
    · rename_i hhead
      rw [Head.read_local.append hhead]
      exact (readBigNumber_local.map fun n => -1 - (n : Int)).append h more
    · rename_i tag tail htwo hthree hhead
      rw [Head.read_local.append hhead]
      simp only
      exact ih h (by omega)
    · cases h

theorem readInteger_local (low high : Int) : Local (readInteger low high) := by
  refine ⟨fun {bs rest n} h more => ?_⟩
  unfold readInteger at h ⊢
  split at h
  · rename_i m tail hread
    rw [readIntegerFrom_append hread (by rw [List.length_append]; omega)]
    simp only at h ⊢
    split at h
    · rename_i hin
      cases h
      rw [if_pos hin]
    · cases h
  · cases h

theorem readDouble_local : Local readDouble := by
  refine ⟨fun {bs rest x} h more => ?_⟩
  unfold readDouble at h ⊢
  split at h
  all_goals first
    | cases h; done
    | rename_i hhead
      rw [untagged_local.append hhead]
      cases h
      rfl

/-! ## Choices and lists -/

theorem readChoiceName_local : Local readChoiceName := by
  refine ⟨fun {bs rest name} h more => ?_⟩
  unfold readChoiceName at h ⊢
  split at h
  · rename_i hhead
    rw [untagged_local.append hhead]
    exact readName_local.append h more
  · rename_i hhead
    rw [untagged_local.append hhead]
    exact readName_local.append h more
  · cases h

theorem readChoice_local (c : Choice) : Local (readChoice c) := by
  refine ⟨fun {bs rest v} h more => ?_⟩
  unfold readChoice at h ⊢
  split at h
  · cases h
  · rename_i name tail hname
    rw [readChoiceName_local.append hname]
    obtain ⟨w, hchoice, hpair⟩ := Option.map_eq_some_iff.1 h
    cases hpair
    simp only [hchoice, Option.map_some]

theorem readTexts_local (budget : Nat) : Local (readTexts budget) := by
  refine ⟨fun {bs rest texts} h more => ?_⟩
  unfold readTexts at h ⊢
  split at h
  · rename_i length tail hhead
    rw [untagged_local.append hhead]
    simp only at h ⊢
    split at h
    · cases h
    · rename_i hbudget
      rw [if_neg hbudget]
      exact (forEntries_local (fun read => readText_local.map fun s => read ++ [s])
        (fun read => readText_headed.map _) length []).append h more
  · rename_i length tail hhead
    rw [untagged_local.append hhead]
    simp only at h ⊢
    split at h
    · cases h
    · rename_i pieces after hpieces
      rw [(readContent_local .bytes length).append hpieces]
      simp only at h ⊢
      split at h
      · rename_i hempty
        cases h
        rw [if_pos hempty]
      · cases h
  · cases h

theorem readEntry_local {field : Bytes → σ → Bytes → Option (σ × Bytes)}
    (hfield : ∀ name st, Local (field name st)) (st : σ) : Local (readEntry field st) := by
  refine ⟨fun {bs rest out} h more => ?_⟩
  unfold readEntry at h ⊢
  split at h
  · cases h
  · rename_i name tail hname
    rw [readName_local.append hname]
    exact (hfield name st).append h more

theorem readEntry_headed {field : Bytes → σ → Bytes → Option (σ × Bytes)} (st : σ) :
    Headed (readEntry field st) := by
  refine ⟨fun {bs} h => ?_⟩
  unfold readEntry
  rw [readName_headed.none_of_read h]

end Cbor

open Cbor

theorem Leaf.read_local (budget : Nat) (kind : Leaf) : Local (kind.read budget) := by
  cases kind with
  | text => exact readText_local
  | texts => exact readTexts_local budget
  | word32 => exact (readInteger_local _ _).map fun n => UInt32.ofNat n.toNat
  | word64 => exact (readInteger_local _ _).map fun n => UInt64.ofNat n.toNat
  | int64 => exact (readInteger_local _ _).map fun n => Int64.ofInt n
  | real => exact readDouble_local
  | choice c => exact readChoice_local c

mutual

/-- **Reading a record is local.** -/
theorem Shape.read_local : (s : Shape) → (budget : Nat) → Local (s.read budget)
  | .leaf kind, budget => kind.read_local budget
  | .record fields, 0 => ⟨fun h => by simp [Shape.read] at h⟩
  | .record fields, budget + 1 => by
    refine ⟨fun {bs rest v} h more => ?_⟩
    simp only [Shape.read] at h ⊢
    split at h
    · rename_i length tail hbudget hhead
      cases hbudget
      rw [untagged_local.append hhead]
      have hentries := forEntries_local
        (readEntry_local (fields.readField_local budget)) readEntry_headed length fields.blank
      exact (hentries.map fields.complete).append h more
    · cases h

/-- Reading the value of an entry is local. -/
theorem Fields.readField_local : (fs : Fields) → (budget : Nat) → (name : Bytes) →
    (p : fs.Partial) → Local (fs.readField budget name p)
  | .nil, budget, _, _ => skip_local budget
  | .cons _ known shape rest, budget, name, p => by
    refine ⟨fun {bs after q} h more => ?_⟩
    unfold Fields.readField at h ⊢
    split at h
    · rename_i hname
      rw [if_pos hname]
      split at h
      · cases h
      · rename_i hnone
        simp only
        exact ((shape.read_local budget).map fun v => (some v, p.2)).append h more
    · rename_i hname
      rw [if_neg hname]
      exact ((rest.readField_local budget name p.2).map fun q => (p.1, q)).append h more

end

end Inventory
