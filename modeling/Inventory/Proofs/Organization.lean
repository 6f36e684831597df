import Inventory.Proofs.Dashes
import Inventory.Proofs.FirstFree

/-!
# Organizations in labels

The label of a cloudlet ends with its operator and the label of an instance with the developer of
its application. What stands before is cut first, so that something of the organization stays.

* `CloudletKey.numbered_labelBase`: a number is added to the label of a cloudlet, nothing is cut for
  it.
* `AppInstKey.labelFront_keeps`, `AppInstKey.developer_keeps`: **an instance keeps 40 bytes of the
  application's name, 10 of its version and 12 of its developer**.
* `organization_survives_truncation`: the candidates for a label, piece by piece.
-/

namespace Inventory

open Text (byteLength takeBytes)
open Label (sanitize sanitizeTo numbered maxBytes)

namespace Label

/-! ## Pieces of a label -/

/-- A label of an organization: what is named, a dash and the organization. -/
def joined (front organization : List Char) : String := String.ofList (front ++ '-' :: organization)

/-- What a candidate has at its end, as a text. -/
theorem ofList_suffix (counter : Nat) :
    String.ofList (suffix counter) = if counter = 0 then "" else counter.repr := by
  unfold suffix
  split
  · rfl
  · exact String.ofList_toList

/-- What is cut twice keeps what the smaller cut leaves. -/
theorem keeps_takeBytes {least max : Nat} (h : least ≤ max) (name : List Char) :
    Keeps least name (takeBytes least (sanitizeTo max name)) := by
  have hcut : takeBytes least (sanitizeTo max name) = sanitizeTo least name := by
    unfold sanitizeTo
    rw [Text.takeBytes_takeBytes, Nat.min_eq_left h]
  rw [hcut]
  exact keeps_sanitizeTo le_rfl name

end Label

open Label (Keeps joined)

/-! ## Cloudlets -/

/-- **Nothing is cut from the label of a cloudlet** for the number of a candidate. -/
theorem CloudletKey.numbered_labelBase (k : CloudletKey) {counter : Nat}
    (h : counter < Label.maxCandidates) :
    numbered k.labelBase maxBytes counter = k.labelBase ++ Label.suffix counter := by
  have hbase := k.byteLength_labelBase_le
  have hsuffix := Label.byteLength_suffix_le h
  have hmax : maxBytes = 63 := rfl
  apply Label.numbered_of_fits
  omega

theorem Cloudlet.candidates_eq (c : Cloudlet) :
    c.labelGenerator.candidates = (List.range 10).map fun counter =>
      joined (sanitizeTo 40 c.key.name.toList) (sanitizeTo 20 c.key.operatorKey.name.toList) ++
        if counter = 0 then "" else counter.repr := by
  show (Label.candidates c.key.labelBase).map String.ofList = _
  unfold Label.candidates
  rw [List.map_map]
  apply List.map_congr_left
  intro counter hcounter
  show String.ofList (numbered c.key.labelBase maxBytes counter) = _
  rw [c.key.numbered_labelBase (List.mem_range.1 hcounter), String.ofList_append,
    Label.ofList_suffix]
  rfl

/-! ## Instances -/

/-- What stands before the dash keeps 40 bytes of the application's name and 10 of its version. -/
theorem AppInstKey.labelFront_keeps (k : AppInstKey) : ∃ name version,
    Keeps 40 k.appKey.name.toList name ∧ Keeps 10 k.appKey.version.toList version ∧
      k.labelFront = name ++ version := by
  unfold labelFront
  dsimp only
  split
  · exact ⟨_, _, Label.keeps_sanitizeTo (by decide) _, Label.keeps_sanitizeTo (by decide) _, rfl⟩
  · exact ⟨_, _, Label.keeps_takeBytes (by decide) _, Label.keeps_takeBytes (by decide) _, rfl⟩

theorem AppInst.first_candidate_eq (i : AppInst) :
    i.labelGenerator.candidates.head? = some (joined i.key.labelFront
      (sanitizeTo i.key.developerRoom i.key.appKey.developerKey.name.toList)) := by
  show some (String.ofList (numbered i.key.labelBase maxBytes 0)) = _
  rw [i.key.first_candidate]
  rfl

/-- No candidate for the label of an instance has more than 63 bytes. -/
theorem AppInst.length_candidate_le (i : AppInst) {label : String}
    (h : label ∈ i.labelGenerator.candidates) : (Text.utf8 label).length ≤ 63 :=
  (Label.sized_candidate i.key.labelBase_ne_nil label h).2

/-- **Cutting a label does not squeeze out the organization.** Each of the ten candidates for the
label of a cloudlet is its name in 40 bytes, a dash, its operator in 20 bytes and the number of the
candidate, none for the first one, and nothing of that is cut. The first candidate for the label of
an instance has at most 63 bytes. It is a front of the application's name and one of its version, a
dash and the developer, of which at least 12 bytes stay; so a developer of at most 12 bytes stays
whole. These are the candidates of which the calls that give out labels give the first free one. -/
theorem organization_survives_truncation :
    (∀ c : Cloudlet,
      c.labelGenerator.candidates = ((List.range 10).map fun counter =>
        joined (sanitizeTo 40 c.key.name.toList) (sanitizeTo 20 c.key.operatorKey.name.toList) ++
          if counter = 0 then "" else counter.repr) ∧
      ∀ r : Running, r.StaysOpen → ∃ seer, c.labelGenerator.GivesFirst r seer) ∧
    ∀ i : AppInst,
      (∃ name version developer,
        i.labelGenerator.candidates.head? = some (joined (name ++ version) developer) ∧
        (Text.utf8 (joined (name ++ version) developer)).length ≤ 63 ∧
        Keeps 40 i.key.appKey.name.toList name ∧ Keeps 10 i.key.appKey.version.toList version ∧
        Keeps 12 i.key.appKey.developerKey.name.toList developer ∧
        (byteLength (sanitize i.key.appKey.developerKey.name.toList) ≤ 12 →
          developer = sanitize i.key.appKey.developerKey.name.toList)) ∧
      ∀ r : Running, r.StaysOpen → ∃ seer, i.labelGenerator.GivesFirst r seer := by
  refine ⟨fun c => ⟨c.candidates_eq, fun r => c.gives_first_label⟩,
    fun i => ⟨?_, fun r => i.gives_first_label⟩⟩
  obtain ⟨name, version, hname, hversion, hfront⟩ := i.key.labelFront_keeps
  have hfirst := i.first_candidate_eq
  rw [hfront] at hfirst
  have hlength := i.length_candidate_le (List.mem_of_mem_head? hfirst)
  exact ⟨name, version, _, hfirst, hlength, hname, hversion, i.key.developer_keeps,
    i.key.developer_keeps.whole⟩

namespace Jetty

/-- An instance of an application with a long name and a long version, of some developer. -/
def instanceOf (developer : String) : AppInst :=
  ⟨[], ⟨⟨⟨developer⟩, String.ofList (.replicate 70 'A'), String.ofList (.replicate 30 '9')⟩,
    ⟨⟨"o"⟩, "c"⟩⟩, ⟨.zero, .zero, .zero⟩, "", ⟨""⟩, "", "", .dynamic⟩

/-- A developer of whose name twelve bytes are left. -/
def developer : String := "ACMÉ & Söhnes"

/-- The first candidate for the label of its instance. -/
def label : String := "aaaaaaaaaaaaaaaaaaaaaaaaaaaaaaaaaaaaaaaa9999999999-acmésöhnes"

theorem fits : byteLength (sanitize developer.toList) ≤ 12 := by decide +kernel

theorem first_candidate : (instanceOf developer).labelGenerator.candidates.head? = some label := by
  decide +kernel

end Jetty

/-- A developer that just fits behind the front of a long label, which has 63 bytes with it. -/
theorem organization_survives_truncation_on_a_jetty :
    byteLength (sanitize Jetty.developer.toList) ≤ 12 ∧
    (Jetty.instanceOf Jetty.developer).labelGenerator.candidates.head? = some Jetty.label ∧
    (Text.utf8 Jetty.label).length = 63 ∧
    (∃ front, Jetty.label = joined front (sanitize Jetty.developer.toList)) ∧
    ∃ seer, (Jetty.instanceOf Jetty.developer).labelGenerator.GivesFirst Quay.busy seer := by
  obtain ⟨-, hinstances⟩ := organization_survives_truncation
  obtain ⟨⟨name, version, developer, hfirst, -, -, -, -, hwhole⟩, hgives⟩ :=
    hinstances (Jetty.instanceOf Jetty.developer)
  have hdeveloper : developer = sanitize Jetty.developer.toList := hwhole Jetty.fits
  have hlabel : Jetty.label = joined (name ++ version) developer :=
    Option.some.inj (Jetty.first_candidate.symm.trans hfirst)
  rw [hdeveloper] at hlabel
  exact ⟨Jetty.fits, Jetty.first_candidate, by decide +kernel, ⟨_, hlabel⟩,
    hgives Quay.busy Quay.staysOpen⟩

end Inventory
