import Inventory.Proofs.Alone
import Inventory.Proofs.Sanitizing
import Inventory.Proofs.StoreKey

/-!
# Full names are unambiguous

A full name is read back at its dots, so none of its labels may have a dot.

* `Label.sanitize_dotless`: the normal form of a name has no dot.
* `Label.candidates_dotless`: a dot gets into no candidate, whatever is cut from a name and however
  the pieces are put together.
* `Label.of_pick`: **a label that is given out is a candidate, and not the load balancer's.**
* `Label.dotted_inj`: pieces without dots can be read back.
* `full_names_are_unambiguous`: **no two full names are the same by accident.**
-/

namespace Inventory

namespace Text

/-- Texts without a dot, which separates the labels of a full name. -/
def Dotless (cs : List Char) : Prop := '.' ∉ cs

instance (cs : List Char) : Decidable (Dotless cs) := inferInstanceAs (Decidable ('.' ∉ cs))

variable {cs ds : List Char}

theorem Dotless.of_subset (h : Dotless ds) (hsub : cs ⊆ ds) : Dotless cs :=
  fun hdot => h (hsub hdot)

theorem Dotless.append (hc : Dotless cs) (hd : Dotless ds) : Dotless (cs ++ ds) := by
  intro hdot
  rcases List.mem_append.1 hdot with hdot | hdot
  · exact hc hdot
  · exact hd hdot

theorem Dotless.cons {c : Char} (hc : c ≠ '.') (h : Dotless cs) : Dotless (c :: cs) := by
  intro hdot
  rcases List.mem_cons.1 hdot with hdot | hdot
  · exact hc hdot.symm
  · exact h hdot

end Text

open Text (Dotless)

/-! ## Labels have no dot -/

namespace Label

theorem sanitize_dotless (name : List Char) : Dotless (sanitize name) :=
  (sanitized_sanitize name).disjoint (by decide)

theorem sanitizeTo_dotless (max : Nat) (name : List Char) : Dotless (sanitizeTo max name) :=
  (sanitize_dotless name).of_subset (Text.takeBytes_isPrefix max _).subset

theorem hostname_dotless (name : List Char) : Dotless (hostname name) :=
  (sanitized_hostname name).disjoint (by decide)

theorem suffix_dotless {counter : Nat} (h : counter < maxCandidates) :
    Dotless (suffix counter) := by
  have hall : ∀ n ∈ List.range maxCandidates, Dotless (suffix n) := by decide
  exact hall counter (List.mem_range.2 h)

/-- Numbers at the end bring no dot into a label. -/
theorem candidates_dotless {base cand : List Char} (h : Dotless base)
    (hcand : cand ∈ candidates base) : Dotless cand := by
  obtain ⟨counter, hcounter, rfl⟩ := List.mem_map.1 hcand
  have hcut := h.of_subset
    (Text.takeBytes_isPrefix (maxBytes - Text.byteLength (suffix counter)) base).subset
  exact hcut.append (suffix_dotless (List.mem_range.1 hcounter))

end Label

theorem CloudletKey.labelBase_dotless (k : CloudletKey) : Dotless k.labelBase :=
  (Label.sanitizeTo_dotless _ _).append ((Label.sanitizeTo_dotless _ _).cons (by decide))

theorem AppInstKey.labelBase_dotless (k : AppInstKey) : Dotless k.labelBase := by
  have hname := Label.sanitizeTo_dotless 60 k.appKey.name.toList
  have hversion := Label.sanitizeTo_dotless 60 k.appKey.version.toList
  have hdeveloper := (Label.sanitizeTo_dotless 60 k.appKey.developerKey.name.toList).cons
    (c := '-') (by decide)
  unfold AppInstKey.labelBase
  dsimp only
  split
  · exact (hname.append hversion).append hdeveloper
  · -- a label that is too long is put together from shorter pieces
    have hname' := hname.of_subset (Text.takeBytes_isPrefix 40 _).subset
    have hversion' := hversion.of_subset (Text.takeBytes_isPrefix 10 _).subset
    exact (hname'.append hversion').append hdeveloper

/-! ## Labels that are given out -/

namespace Label

variable {r r' : Running} {name : String}

/-- What is found free is a candidate, and the test let it pass. -/
theorem of_firstFree {taken : String → Program Bool} {cs : List (List Char)}
    (hrun : (firstFree taken cs).run r = (.ok (some name), r')) :
    (∃ cand ∈ cs, name = String.ofList cand) ∧
      ∃ r₁ r₂ : Running, (taken name).run r₁ = (.ok false, r₂) := by
  induction cs generalizing r with
  | nil =>
    obtain ⟨hnone, -⟩ := Program.run_pure_ok hrun
    cases hnone
  | cons cand cs ih =>
    obtain ⟨b, r₁, htake, hnext⟩ := Program.run_bind_ok hrun
    cases b with
    | true =>
      obtain ⟨⟨cand', hmem, heq⟩, hfree⟩ := ih hnext
      exact ⟨⟨cand', List.mem_cons_of_mem _ hmem, heq⟩, hfree⟩
    | false =>
      obtain ⟨hname, -⟩ := Program.run_pure_ok hnext
      obtain rfl := Option.some.inj hname
      exact ⟨⟨cand, List.mem_cons_self, rfl⟩, _, _, htake⟩

/-- **A label that is given out is a candidate, and not the load balancer's**, whatever the
transaction has done before and whatever others do meanwhile. -/
theorem of_pick {reservation : String → Reservation} {base : List Char}
    (hrun : (pick reservation base).run r = (.ok name, r')) :
    (∃ cand ∈ candidates base, name = String.ofList cand) ∧ name ≠ sharedHost := by
  obtain ⟨found, r₁, hfound, hrefuse⟩ := Program.run_bind_ok hrun
  obtain ⟨rfl, -⟩ := Running.Alone.orRefuse_ok hrefuse
  obtain ⟨hcand, r₂, r₃, htaken⟩ := of_firstFree hfound
  refine ⟨hcand, fun hshared => ?_⟩
  have htaken : (Pure.pure true : Program Bool).run r₂ = (.ok false, r₃) := by
    rw [hshared] at htaken
    exact htaken
  obtain ⟨htrue, -⟩ := Program.run_pure_ok htaken
  cases htrue

/-- What makes a label fit for a full name: it can be told where it ends, and it is not the load
balancer's. -/
structure Proper (label : String) : Prop where
  dotless : Dotless label.toList
  unshared : label ≠ sharedHost

theorem Proper.of_pick {reservation : String → Reservation} {base : List Char}
    (hbase : Dotless base) (hrun : (pick reservation base).run r = (.ok name, r')) :
    Proper name := by
  obtain ⟨⟨cand, hcand, rfl⟩, hne⟩ := Label.of_pick hrun
  refine ⟨?_, hne⟩
  rw [String.toList_ofList]
  exact candidates_dotless hbase hcand

end Label

/-- Cloudlets whose label was given out in a transaction: one that may have done anything before,
on any store, with any other clients. -/
def Cloudlet.Labelled (c : Cloudlet) : Prop :=
  ∃ (before after : Cloudlet) (r : Running),
    (before.assignLabel.run r).1 = .ok (.ok (), after) ∧ c.dnsLabel = after.dnsLabel

/-- Instances whose label was given out in a transaction: one that may have done anything before,
on any store, with any other clients. -/
def AppInst.Labelled (i : AppInst) : Prop :=
  ∃ (before after : AppInst) (r : Running),
    (before.assignLabel.run r).1 = .ok (.ok (), after) ∧ i.dnsLabel = after.dnsLabel

theorem Cloudlet.Labelled.proper {c : Cloudlet} (h : c.Labelled) : Label.Proper c.dnsLabel := by
  obtain ⟨before, after, r, hrun, hlabel⟩ := h
  obtain ⟨name, r', hpick, rfl⟩ := Running.Alone.of_setTo hrun
  rw [hlabel]
  exact .of_pick before.key.labelBase_dotless hpick

theorem AppInst.Labelled.proper {i : AppInst} (h : i.Labelled) : Label.Proper i.dnsLabel := by
  obtain ⟨before, after, r, hrun, hlabel⟩ := h
  obtain ⟨name, r', hpick, rfl⟩ := Running.Alone.of_setTo hrun
  rw [hlabel]
  exact .of_pick before.key.labelBase_dotless hpick

/-! ## Full names -/

namespace Text

/-- A piece without dots is read back, and so is the rest. -/
theorem dot_inj {a b x y : String} (ha : Dotless a.toList) (hb : Dotless b.toList)
    (h : a ++ "." ++ x = b ++ "." ++ y) : a = b ∧ x = y := by
  have hlist : a.toList ++ '.' :: x.toList = b.toList ++ '.' :: y.toList := by
    have hlist := congrArg String.toList h
    simp only [String.toList_append, List.append_assoc] at hlist
    exact hlist
  have hsplit := splitFirst_append ha x.toList
  rw [hlist, splitFirst_append hb] at hsplit
  obtain ⟨hhead, htail⟩ := Prod.mk.inj (Option.some.inj hsplit)
  exact ⟨String.toList_inj.1 hhead.symm, String.toList_inj.1 htail.symm⟩

end Text

/-- **Pieces without dots can be read back** from a full name; so the rest is read back too, which
may have dots. -/
theorem Label.dotted_inj {host host' cloudlet cloudlet' region region' root root' : String}
    (hhost : Dotless host.toList) (hhost' : Dotless host'.toList)
    (hcloudlet : Dotless cloudlet.toList) (hcloudlet' : Dotless cloudlet'.toList)
    (hregion : Dotless region.toList) (hregion' : Dotless region'.toList)
    (h : dotted host cloudlet region root = dotted host' cloudlet' region' root') :
    host = host' ∧ cloudlet = cloudlet' ∧ region = region' ∧ root = root' := by
  have hassoc (a b c d : String) : dotted a b c d = a ++ "." ++ (b ++ "." ++ (c ++ "." ++ d)) := by
    unfold dotted
    simp only [String.append_assoc]
  rw [hassoc, hassoc] at h
  obtain ⟨h₁, hrest₁⟩ := Text.dot_inj hhost hhost' h
  obtain ⟨h₂, hrest₂⟩ := Text.dot_inj hcloudlet hcloudlet' hrest₁
  obtain ⟨h₃, h₄⟩ := Text.dot_inj hregion hregion' hrest₂
  exact ⟨h₁, h₂, h₃, h₄⟩

/-- The name of a region as it stands in a full name. -/
def Label.ofRegion (region : String) : String := String.ofList (hostname region.toList)

theorem Label.ofRegion_dotless (region : String) : Dotless (ofRegion region).toList := by
  unfold ofRegion
  rw [String.toList_ofList]
  exact hostname_dotless _

/-- **Full names are unambiguous.** Instances and cloudlets have names with any characters, and
labels that they were given in transactions of any kind. Then the full name of an instance tells its
label and that of its cloudlet, the name of a load balancer tells the label of the cloudlet, no
instance has the name of a load balancer, and each full name tells the region as it stands in it and
the domain. -/
theorem full_names_are_unambiguous {i i' : AppInst} {c c' : Cloudlet} (hi : i.Labelled)
    (hi' : i'.Labelled) (hc : c.Labelled) (hc' : c'.Labelled) (region region' root root' : String) :
    (i.fullName c region root = i'.fullName c' region' root' →
      i.dnsLabel = i'.dnsLabel ∧ c.dnsLabel = c'.dnsLabel ∧
        Label.ofRegion region = Label.ofRegion region' ∧ root = root') ∧
    (c.balancerName region root = c'.balancerName region' root' →
      c.dnsLabel = c'.dnsLabel ∧ Label.ofRegion region = Label.ofRegion region' ∧ root = root') ∧
    i.fullName c region root ≠ c'.balancerName region' root' := by
  have hshared : Dotless Label.sharedHost.toList := by decide
  have hregion := Label.ofRegion_dotless region
  have hregion' := Label.ofRegion_dotless region'
  refine ⟨fun heq => ?_, fun heq => ?_, fun heq => ?_⟩
  · exact Label.dotted_inj hi.proper.dotless hi'.proper.dotless hc.proper.dotless
      hc'.proper.dotless hregion hregion' heq
  · exact (Label.dotted_inj hshared hshared hc.proper.dotless hc'.proper.dotless hregion
      hregion' heq).2
  · have hhost := (Label.dotted_inj hi.proper.dotless hshared hc.proper.dotless
      hc'.proper.dotless hregion hregion' heq).1
    exact hi.proper.unshared hhost

namespace Fjord

/-- A cloudlet whose name has a dot in it. -/
def near : Cloudlet :=
  ⟨[], ⟨⟨"Telenor_AS."⟩, "Tromsø.1"⟩, "", ⟨.zero, .zero, .zero⟩, "tromsø1-telenor-as"⟩

/-- A cloudlet whose label has a number, because the label was taken. -/
def far : Cloudlet := { near with dnsLabel := "tromsø1-telenor-as1" }

/-- An instance whose name is the label of load balancers. -/
def shared : AppInst :=
  ⟨[], ⟨⟨⟨""⟩, "SHARED", ""⟩, near.key⟩, near.location, "", ⟨""⟩, "shared-", "", .dynamic⟩

/-- An instance with capital letters, one of which has a dot above it. -/
def capitals : AppInst :=
  { shared with
    key := ⟨⟨⟨"Åse & Co."⟩, "İstanbul", "v1.0"⟩, near.key⟩
    dnsLabel := "i̇stanbulv10-åseco" }

/-- A transaction that begins on an empty store. -/
def fresh : Running := .alone .empty (.start 0)

/-- A transaction that begins when the label of the near cloudlet is taken. -/
def taken : Running :=
  .alone (Op.run (.put (Reservation.cloudletLabel near.dnsLabel).storeKey []) .empty).2 (.start 1)

end Fjord

/-- Names with dots and capital letters, and a label that was taken. -/
theorem full_names_are_unambiguous_on_a_fjord :
    Fjord.shared.Labelled ∧ Fjord.capitals.Labelled ∧ Fjord.near.Labelled ∧ Fjord.far.Labelled ∧
    Fjord.shared.fullName Fjord.near "NO." "edge.net" ≠
      Fjord.shared.fullName Fjord.far "NO." "edge.net" ∧
    Fjord.shared.fullName Fjord.near "NO." "edge.net" ≠
      Fjord.capitals.fullName Fjord.near "NO." "edge.net" ∧
    Fjord.shared.fullName Fjord.near "NO." "edge.net" ≠
      Fjord.far.balancerName "NO." "edge.net" := by
  have hshared : Fjord.shared.Labelled := ⟨Fjord.shared, _, Fjord.fresh, rfl, rfl⟩
  have hcapitals : Fjord.capitals.Labelled :=
    ⟨Fjord.capitals, _, Fjord.fresh, rfl, by decide +kernel⟩
  have hnear : Fjord.near.Labelled := ⟨Fjord.near, _, Fjord.fresh, rfl, by decide +kernel⟩
  have hfar : Fjord.far.Labelled := ⟨Fjord.near, _, Fjord.taken, rfl, by decide +kernel⟩
  refine ⟨hshared, hcapitals, hnear, hfar, fun heq => ?_, fun heq => ?_, ?_⟩
  · have hlabels := ((full_names_are_unambiguous hshared hshared hnear hfar _ _ _ _).1 heq).2.1
    exact absurd hlabels (by decide)
  · have hlabels := ((full_names_are_unambiguous hshared hcapitals hnear hnear _ _ _ _).1 heq).1
    exact absurd hlabels (by decide)
  · exact (full_names_are_unambiguous hshared hshared hnear hfar _ _ _ _).2.2

end Inventory
