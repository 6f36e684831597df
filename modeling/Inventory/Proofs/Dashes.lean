import Inventory.Proofs.FullNames

/-!
# Dashes at the end of labels

The pieces of a label are sanitized before they are cut, and nothing is dropped afterwards. So a
label has a dash at its end where its last piece is cut behind one, or where nothing is left of that
piece and the dash that joins it comes last. A number at the end takes care of both.

* `Label.dashed_numbered_iff`: a candidate with a number ends in a digit.
* `CloudletKey.first_candidate`, `AppInstKey.first_candidate`: what the first candidate is made of.
* `Cloudlet.dashed_label_iff`, `AppInst.dashed_label_iff`, `labels_end_in_a_dash_iff`: **which labels
  that are given out end in a dash.**
* `labels_can_end_in_a_dash`: there are some, with keys that are allowed.
-/

namespace Inventory

open Text (byteLength takeBytes)

namespace Label

/-! ## The last piece of a label -/

/-- A character for which no character of a label stands, unless another one comes after it. -/
theorem sanitizeChar_dashes_iff {c : Char} :
    (∀ d ∈ sanitizeChar c, d = '-') ↔ c ∈ '-' :: forbidden := by
  constructor
  · intro h
    by_contra hc
    rw [List.mem_cons, not_or] at hc
    obtain ⟨hdash, hother⟩ := hc
    -- a character that is kept has a lowercase form, which is no dash
    have hkept : sanitizeChar c = Text.lowercase c := by
      have hunderscore : c ≠ '_' := by
        rintro rfl
        exact hother (by decide)
      have hdropped : ¬ isDropped c = true := fun hd =>
        hother (List.mem_cons_of_mem _ (List.contains_iff_mem.1 hd))
      unfold sanitizeChar
      rw [if_neg hunderscore, if_neg hdropped]
    obtain ⟨d, hd⟩ := List.exists_mem_of_ne_nil _ (Text.lowercase_ne_nil c)
    obtain rfl := h d (hkept ▸ hd)
    exact hdash (Text.eq_of_mem_lowercase hd (by decide) (by decide)).symm
  · intro hc
    simp only [forbidden, List.mem_cons, List.not_mem_nil, or_false] at hc
    have hdashes : sanitizeChar c = ['-'] ∨ sanitizeChar c = [] := by
      rcases hc with rfl | rfl | rfl | rfl | rfl | rfl | rfl <;> decide +kernel
    rcases hdashes with heq | heq <;> rw [heq] <;> simp

/-- **Nothing is left of a name** exactly if it is made of dashes and forbidden characters. -/
theorem sanitize_eq_nil_iff {name : List Char} :
    sanitize name = [] ↔ ∀ c ∈ name, c ∈ '-' :: forbidden := by
  have hnil : sanitize name = [] ↔ ∀ d ∈ name.flatMap sanitizeChar, (d == '-') = true :=
    List.rdropWhile_eq_nil_iff
  rw [hnil]
  constructor
  · intro h c hc
    exact sanitizeChar_dashes_iff.1 fun d hd =>
      beq_iff_eq.1 (h d (List.mem_flatMap.2 ⟨c, hc, hd⟩))
  · intro h d hd
    obtain ⟨c, hc, hdc⟩ := List.mem_flatMap.1 hd
    exact beq_iff_eq.2 (sanitizeChar_dashes_iff.2 (h c hc) d hdc)

theorem sanitizeTo_eq_nil_iff {max : Nat} (hmax : 4 ≤ max) {name : List Char} :
    sanitizeTo max name = [] ↔ sanitize name = [] := by
  constructor
  · intro h
    by_contra hne
    exact Text.takeBytes_ne_nil hne hmax h
  · intro h
    unfold sanitizeTo
    rw [h]
    rfl

/-- Something of a name is kept where four bytes are, unless nothing is left of it. -/
theorem Keeps.eq_nil_iff {least : Nat} {name piece : List Char} (h : Keeps least name piece)
    (hleast : 4 ≤ least) : piece = [] ↔ sanitize name = [] := by
  constructor
  · rintro rfl
    exact (sanitizeTo_eq_nil_iff hleast).1 (List.prefix_nil.1 h.least)
  · intro hnil
    have hfront := h.front
    rw [hnil] at hfront
    exact List.prefix_nil.1 hfront

/-- Only a name that does not fit is cut behind a dash. -/
theorem lt_of_dashed {room : Nat} {name : List Char} (h : Dashed (sanitizeTo room name)) :
    room < byteLength (sanitize name) := by
  by_contra hfits
  have hwhole : sanitizeTo room name = sanitize name := Text.takeBytes_eq_self_iff.2 (by omega)
  rw [hwhole] at h
  exact (sanitized_sanitize name).undashed h

/-- A name leaves a dash at the end of a label in which it comes last: nothing is left of it, so that
the dash before it comes last, or it does not fit and is cut behind a dash. -/
def LeavesDash (room : Nat) (name : List Char) : Prop :=
  (∀ c ∈ name, c ∈ '-' :: forbidden) ∨
    room < byteLength (sanitize name) ∧ Dashed (sanitizeTo room name)

theorem dashed_joined_iff {front name : List Char} {room : Nat}
    (hroom : sanitizeTo room name = [] ↔ sanitize name = []) :
    Dashed (front ++ '-' :: sanitizeTo room name) ↔ LeavesDash room name := by
  rw [dashed_append_cons, hroom, sanitize_eq_nil_iff, LeavesDash,
    and_iff_right_of_imp lt_of_dashed]

/-! ## Candidates -/

/-- The first candidate is the label itself, cut if need be. -/
theorem numbered_zero (base : List Char) (max : Nat) :
    numbered base max 0 = takeBytes max base := by
  show takeBytes (max - 0) base ++ [] = _
  rw [List.append_nil, Nat.sub_zero]

/-- **A candidate with a number ends in a digit.** -/
theorem dashed_numbered_iff {base : List Char} {max counter : Nat} (h : counter < maxCandidates) :
    Dashed (numbered base max counter) ↔ counter = 0 ∧ Dashed (takeBytes max base) := by
  have hdigits : ∀ n ∈ List.range maxCandidates, n ≠ 0 → suffix n ≠ [] ∧ ¬ Dashed (suffix n) := by
    decide
  by_cases hzero : counter = 0
  · subst hzero
    rw [numbered_zero]
    exact ⟨fun hdash => ⟨rfl, hdash⟩, And.right⟩
  · obtain ⟨hne, hdigit⟩ := hdigits counter (List.mem_range.2 h) hzero
    constructor
    · intro hdash
      unfold numbered Dashed at hdash
      rw [List.getLast?_append_of_ne_nil _ hne] at hdash
      exact absurd hdash hdigit
    · intro hfirst
      exact absurd hfirst.1 hzero

/-- A label that is given out ends in a dash exactly if it is the first candidate and that does. -/
theorem dashed_of_pick_iff {reservation : String → Reservation} {base : List Char} {name : String}
    {r r' : Running} (hrun : (pick reservation base).run r = (.ok name, r')) :
    Dashed name.toList ↔
      name = String.ofList (numbered base maxBytes 0) ∧ Dashed (numbered base maxBytes 0) := by
  obtain ⟨⟨cand, hcand, rfl⟩, -⟩ := of_pick hrun
  obtain ⟨counter, hcounter, rfl⟩ := List.mem_map.1 hcand
  rw [String.toList_ofList, String.ofList_inj]
  constructor
  · intro hdash
    obtain ⟨rfl, -⟩ := (dashed_numbered_iff (List.mem_range.1 hcounter)).1 hdash
    exact ⟨rfl, hdash⟩
  · rintro ⟨heq, hdash⟩
    rw [heq]
    exact hdash

end Label

open Label (sanitizeTo numbered maxBytes Keeps LeavesDash Dashed)

/-- A name and an operator that are cut leave room for a dash between them. -/
theorem CloudletKey.first_candidate (k : CloudletKey) :
    numbered k.labelBase maxBytes 0 =
      sanitizeTo 40 k.name.toList ++ '-' :: sanitizeTo 20 k.operatorKey.name.toList := by
  have hbase := k.byteLength_labelBase_le
  have hmax : maxBytes = 63 := rfl
  rw [Label.numbered_zero]
  apply Text.takeBytes_eq_self_iff.2
  omega

/-- What stands before the dash in the label of an instance: the name and the version of the
application, which are cut again if the label is too long. -/
def AppInstKey.labelFront (k : AppInstKey) : List Char :=
  let name := sanitizeTo 60 k.appKey.name.toList
  let version := sanitizeTo 60 k.appKey.version.toList
  let developer := sanitizeTo 60 k.appKey.developerKey.name.toList
  if byteLength (name ++ version ++ '-' :: developer) ≤ maxBytes then name ++ version
  else takeBytes 40 name ++ takeBytes 10 version

/-- The room for the developer in the label of an instance. -/
def AppInstKey.developerRoom (k : AppInstKey) : Nat :=
  min (maxBytes - (byteLength k.labelFront + 1)) 60

theorem AppInstKey.labelBase_eq (k : AppInstKey) :
    k.labelBase = k.labelFront ++ '-' :: sanitizeTo 60 k.appKey.developerKey.name.toList := by
  unfold labelBase labelFront
  dsimp only
  split <;> rfl

/-- The front leaves room for the whole developer, or for twelve bytes of it. -/
theorem AppInstKey.room_for_developer (k : AppInstKey) :
    byteLength k.labelFront + 1 +
        byteLength (sanitizeTo 60 k.appKey.developerKey.name.toList) ≤ maxBytes ∨
      byteLength k.labelFront ≤ 50 := by
  unfold labelFront
  dsimp only
  split
  · rename_i hfits
    rw [Text.byteLength_append, byteLength] at hfits
    have hdash : '-'.utf8Size = 1 := rfl
    exact .inl (by omega)
  · have hname := Text.byteLength_takeBytes_le 40 (sanitizeTo 60 k.appKey.name.toList)
    have hversion := Text.byteLength_takeBytes_le 10 (sanitizeTo 60 k.appKey.version.toList)
    rw [Text.byteLength_append]
    exact .inr (by omega)

theorem AppInstKey.first_candidate (k : AppInstKey) :
    numbered k.labelBase maxBytes 0 =
      k.labelFront ++ '-' :: sanitizeTo k.developerRoom k.appKey.developerKey.name.toList := by
  have hmax : maxBytes = 63 := rfl
  have hdash : '-'.utf8Size = 1 := rfl
  have hfront : byteLength (k.labelFront ++ ['-']) = byteLength k.labelFront + 1 := by
    rw [Text.byteLength_append]
    rfl
  have hfits : byteLength (k.labelFront ++ ['-']) ≤ maxBytes := by
    rw [hfront]
    rcases k.room_for_developer with hwhole | hshort <;> omega
  have hjoin (cs : List Char) : k.labelFront ++ '-' :: cs = (k.labelFront ++ ['-']) ++ cs := by
    rw [List.append_assoc]
    rfl
  rw [Label.numbered_zero, k.labelBase_eq, hjoin (sanitizeTo 60 _),
    hjoin (sanitizeTo k.developerRoom _), Text.takeBytes_append hfits, hfront]
  unfold sanitizeTo
  rw [Text.takeBytes_takeBytes]
  rfl

/-- Where there is room for the whole developer, it **is not cut again**. -/
theorem AppInstKey.developer_uncut {k : AppInstKey}
    (h : byteLength k.labelFront + 1 +
      byteLength (sanitizeTo 60 k.appKey.developerKey.name.toList) ≤ maxBytes) :
    sanitizeTo k.developerRoom k.appKey.developerKey.name.toList =
      sanitizeTo 60 k.appKey.developerKey.name.toList := by
  unfold developerRoom sanitizeTo
  rw [← Text.takeBytes_takeBytes]
  apply Text.takeBytes_eq_self_iff.2
  unfold sanitizeTo at h
  omega

/-- Whatever stands before the dash, **12 bytes of the developer stay**. -/
theorem AppInstKey.developer_keeps (k : AppInstKey) :
    Keeps 12 k.appKey.developerKey.name.toList
      (sanitizeTo k.developerRoom k.appKey.developerKey.name.toList) := by
  have hmax : maxBytes = 63 := rfl
  have hroom : k.developerRoom = min (maxBytes - (byteLength k.labelFront + 1)) 60 := rfl
  rcases k.room_for_developer with hwhole | hshort
  · rw [developer_uncut hwhole]
    exact Label.keeps_sanitizeTo (by decide) _
  · exact Label.keeps_sanitizeTo (by omega) _

/-- Something of the developer is kept unless nothing is left of it. -/
theorem AppInstKey.developer_kept (k : AppInstKey) :
    sanitizeTo k.developerRoom k.appKey.developerKey.name.toList = [] ↔
      Label.sanitize k.appKey.developerKey.name.toList = [] :=
  k.developer_keeps.eq_nil_iff (by decide)

/-! ## Labels that are given out -/

/-- The label of a cloudlet ends in a dash if it has no number and the operator leaves a dash. -/
theorem Cloudlet.dashed_label_iff {c c' : Cloudlet} {r : Running}
    (h : (c.assignLabel.run r).1 = .ok (.ok (), c')) :
    Dashed c'.dnsLabel.toList ↔
      c'.dnsLabel = String.ofList (numbered c.key.labelBase maxBytes 0) ∧
        LeavesDash 20 c.key.operatorKey.name.toList := by
  obtain ⟨name, r', hpick, rfl⟩ := Running.Alone.of_setTo h
  rw [Label.dashed_of_pick_iff hpick, c.key.first_candidate,
    Label.dashed_joined_iff (Label.sanitizeTo_eq_nil_iff (by decide))]

/-- The label of an instance ends in a dash if it has no number and the developer leaves a dash. -/
theorem AppInst.dashed_label_iff {i i' : AppInst} {r : Running}
    (h : (i.assignLabel.run r).1 = .ok (.ok (), i')) :
    Dashed i'.dnsLabel.toList ↔
      i'.dnsLabel = String.ofList (numbered i.key.labelBase maxBytes 0) ∧
        LeavesDash i.key.developerRoom i.key.appKey.developerKey.name.toList := by
  obtain ⟨name, r', hpick, rfl⟩ := Running.Alone.of_setTo h
  rw [Label.dashed_of_pick_iff hpick, i.key.first_candidate,
    Label.dashed_joined_iff i.key.developer_kept]

/-- **Which labels end in a dash.** Whatever a transaction has done before and others do meanwhile, a
label that a cloudlet or an instance is given ends in a dash exactly if it is the first candidate,
without a number, and the last name in it leaves a dash there: that of the operator, in 20 bytes, or
that of the developer, in what the name and the version of the application leave of 63 bytes. -/
theorem labels_end_in_a_dash_iff (r : Running) :
    (∀ c c' : Cloudlet, (c.assignLabel.run r).1 = .ok (.ok (), c') →
      (Dashed c'.dnsLabel.toList ↔
        c'.dnsLabel = String.ofList (numbered c.key.labelBase maxBytes 0) ∧
          LeavesDash 20 c.key.operatorKey.name.toList)) ∧
    ∀ i i' : AppInst, (i.assignLabel.run r).1 = .ok (.ok (), i') →
      (Dashed i'.dnsLabel.toList ↔
        i'.dnsLabel = String.ofList (numbered i.key.labelBase maxBytes 0) ∧
          LeavesDash i.key.developerRoom i.key.appKey.developerKey.name.toList) := by
  constructor
  · intro c c' hc
    exact Cloudlet.dashed_label_iff hc
  · intro i i' hi
    exact AppInst.dashed_label_iff hi

namespace Reef

/-- A cloudlet of an operator whose name has a dash as its twentieth byte. -/
def cloudlet : Cloudlet :=
  ⟨[], ⟨⟨"ooooooooooooooooooo_x"⟩, "c"⟩, "", ⟨.zero, .zero, .zero⟩, ""⟩

/-- The cloudlet with its label. -/
def labelled : Cloudlet := { cloudlet with dnsLabel := "c-ooooooooooooooooooo-" }

/-- An instance of a developer of whose name nothing is left. -/
def nameless : AppInst :=
  ⟨[], ⟨⟨⟨"_!"⟩, "App", "1.0"⟩, cloudlet.key⟩, cloudlet.location, "", ⟨""⟩, "", "", .dynamic⟩

/-- The instance with a label that has a number, because the first candidate is taken. -/
def counted : AppInst := { nameless with dnsLabel := "app10-1" }

/-- A transaction that begins when the first candidate for the label of the instance is taken. -/
def taken : Running :=
  .alone (Op.run (.put (Reservation.instanceLabel cloudlet.key "app10-").storeKey []) .empty).2
    (.start 1)

theorem cloudlet_labelled :
    (cloudlet.assignLabel.run (.alone .empty (.start 0))).1 = .ok (.ok (), labelled) := by
  decide +kernel

theorem nameless_counted : (nameless.assignLabel.run taken).1 = .ok (.ok (), counted) := by
  decide +kernel

end Reef

/-- An operator that is cut behind a dash, and a developer of whom nothing is left, where a number
comes last. -/
theorem labels_end_in_a_dash_iff_on_a_reef :
    (Reef.cloudlet.assignLabel.run (.alone .empty (.start 0))).1 = .ok (.ok (), Reef.labelled) ∧
    (Reef.nameless.assignLabel.run Reef.taken).1 = .ok (.ok (), Reef.counted) ∧
    Dashed Reef.labelled.dnsLabel.toList ∧ ¬ Dashed Reef.counted.dnsLabel.toList ∧
    LeavesDash Reef.nameless.key.developerRoom
      Reef.nameless.key.appKey.developerKey.name.toList := by
  have hcloudlet :=
    (labels_end_in_a_dash_iff (.alone .empty (.start 0))).1 _ _ Reef.cloudlet_labelled
  have hnameless := (labels_end_in_a_dash_iff Reef.taken).2 _ _ Reef.nameless_counted
  have hcut : LeavesDash 20 Reef.cloudlet.key.operatorKey.name.toList :=
    .inr ⟨by decide +kernel, by decide +kernel⟩
  refine ⟨Reef.cloudlet_labelled, Reef.nameless_counted, hcloudlet.2 ⟨by decide +kernel, hcut⟩,
    fun hdash => ?_, .inl (Label.sanitize_eq_nil_iff.1 (by decide +kernel))⟩
  exact absurd (hnameless.1 hdash).1 (by decide +kernel)

/-- A label can end in a dash although the key of the cloudlet is allowed. -/
theorem labels_can_end_in_a_dash :
    ¬ ∀ (c c' : Cloudlet) (r : Running), c.key.validate = .ok () →
      (c.assignLabel.run r).1 = .ok (.ok (), c') → ¬ Dashed c'.dnsLabel.toList := by
  intro h
  have hallowed : Reef.cloudlet.key.validate = .ok () := by decide +kernel
  exact h Reef.cloudlet Reef.labelled _ hallowed Reef.cloudlet_labelled (by decide)

end Inventory
