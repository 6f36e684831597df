import Inventory.Label.Sanitize
import Inventory.Proofs.Label
import Inventory.Proofs.Lowercase
import Mathlib.Data.List.DropRight

/-!
# Sanitized names

A name that has been sanitized is in a normal form: each of its characters stands for itself, and
there is no dash at its end.

* `Label.Dashed`: a dash at the end of a text.
* `Label.Sanitized`: the normal form. **A text is in it exactly if sanitizing leaves it**
  (`sanitize_eq_self_iff`).
* `Label.sanitizing_is_a_normal_form`: names, hostnames and names that are cut.
-/

namespace Inventory.Label

open Text (byteLength)

/-! ## Dashes at the end -/

/-- A text with a dash at its end. -/
def Dashed (cs : List Char) : Prop := cs.getLast? = some '-'

instance (cs : List Char) : Decidable (Dashed cs) := inferInstanceAs (Decidable (_ = _))

theorem not_dashed_nil : ¬ Dashed [] := nofun

theorem dashed_append_cons {front tail : List Char} :
    Dashed (front ++ '-' :: tail) ↔ tail = [] ∨ Dashed tail := by
  unfold Dashed
  cases tail with
  | nil => simp
  | cons c tail => simp

/-- The dashes at the end are dropped; what is left is a part at the front. -/
theorem dropDashes_isPrefix (cs : List Char) : dropDashes cs <+: cs :=
  List.rdropWhile_prefix (· == '-') cs

theorem not_dashed_dropDashes (cs : List Char) : ¬ Dashed (dropDashes cs) := by
  intro h
  have hne : dropDashes cs ≠ [] := by
    intro hnil
    rw [hnil] at h
    exact not_dashed_nil h
  have hlast : (dropDashes cs).getLast hne = '-' :=
    Option.some.inj ((List.getLast?_eq_some_getLast hne).symm.trans h)
  exact List.rdropWhile_last_not (· == '-') cs hne (beq_iff_eq.2 hlast)

theorem dropDashes_of_not_dashed {cs : List Char} (h : ¬ Dashed cs) : dropDashes cs = cs := by
  refine List.rdropWhile_eq_self_iff.2 fun hne hdash => h ?_
  exact (List.getLast?_eq_some_getLast hne).trans (congrArg some (beq_iff_eq.1 hdash))

/-! ## The normal form -/

/-- The characters that no label holds. -/
def forbidden : List Char := ['_', ' ', '&', ',', '.', '!']

/-- A text as sanitizing leaves it: each of its characters stands for itself, and there is no dash
at its end. -/
structure Sanitized (cs : List Char) : Prop where
  plain : ∀ c ∈ cs, sanitizeChar c = [c]
  undashed : ¬ Dashed cs

/-- What a character becomes stands for itself. -/
theorem sanitizeChar_of_mem {c d : Char} (h : d ∈ sanitizeChar c) : sanitizeChar d = [d] := by
  unfold sanitizeChar at h
  split at h
  · rw [List.mem_singleton.1 h]
    decide +kernel
  · rename_i hunderscore
    split at h
    · cases h
    · rename_i hkept
      -- the forbidden characters are marks, and no other character becomes one
      have hunderscore' : d ≠ '_' := by
        rintro rfl
        exact hunderscore (Text.eq_of_mem_lowercase h (by decide) (by decide)).symm
      have hkept' : ¬ isDropped d = true := by
        intro hdropped
        have hmarks : 0x20 ≤ d.toNat ∧ d.toNat ≤ 0x5f := by
          have hmem := List.contains_iff_mem.1 hdropped
          simp only [List.mem_cons, List.not_mem_nil, or_false] at hmem
          rcases hmem with rfl | rfl | rfl | rfl | rfl <;> decide
        obtain ⟨hlow, hhigh⟩ := hmarks
        rw [Text.eq_of_mem_lowercase h hlow hhigh] at hdropped
        exact hkept hdropped
      unfold sanitizeChar
      rw [if_neg hunderscore', if_neg hkept', Text.lowercase_of_mem h]

theorem not_mem_forbidden {c : Char} (h : sanitizeChar c = [c]) : c ∉ forbidden := by
  intro hc
  simp only [forbidden, List.mem_cons, List.not_mem_nil, or_false] at hc
  rcases hc with rfl | rfl | rfl | rfl | rfl | rfl <;> exact absurd h (by decide +kernel)

namespace Sanitized

variable {cs : List Char}

theorem disjoint (h : Sanitized cs) : forbidden.Disjoint cs :=
  fun c hforbidden hc => not_mem_forbidden (h.plain c hc) hforbidden

/-- A part at the front stays in the normal form if it has no dash at its end. -/
theorem of_isPrefix {front : List Char} (h : Sanitized cs) (hfront : front <+: cs)
    (hdash : ¬ Dashed front) : Sanitized front :=
  ⟨fun c hc => h.plain c (hfront.subset hc), hdash⟩

end Sanitized

theorem sanitize_isPrefix (name : List Char) : sanitize name <+: name.flatMap sanitizeChar :=
  dropDashes_isPrefix _

theorem sanitized_sanitize (name : List Char) : Sanitized (sanitize name) := by
  refine ⟨fun c hc => ?_, not_dashed_dropDashes _⟩
  obtain ⟨d, -, hd⟩ := List.mem_flatMap.1 ((sanitize_isPrefix name).subset hc)
  exact sanitizeChar_of_mem hd

/-- **A text is in the normal form exactly if sanitizing leaves it.** -/
theorem sanitize_eq_self_iff {cs : List Char} : sanitize cs = cs ↔ Sanitized cs := by
  constructor
  · intro h
    rw [← h]
    exact sanitized_sanitize cs
  · intro h
    have hplain : cs.flatMap sanitizeChar = cs := by
      rw [List.flatMap_congr h.plain, List.flatMap_singleton']
    unfold sanitize
    rw [hplain]
    exact dropDashes_of_not_dashed h.undashed

/-! ## Hostnames -/

/-- A hostname is at the front of the sanitized name, and fits. -/
theorem hostname_fits (name : List Char) :
    hostname name <+: sanitize name ∧ byteLength (hostname name) ≤ maxBytes :=
  Text.prefix_takeBytes_iff.1 (dropDashes_isPrefix _)

theorem sanitized_hostname (name : List Char) : Sanitized (hostname name) :=
  (sanitized_sanitize name).of_isPrefix (hostname_fits name).1 (not_dashed_dropDashes _)

/-- A name in the normal form that fits is a hostname as it is. -/
theorem hostname_of_sanitized {cs : List Char} (h : Sanitized cs)
    (hlen : byteLength cs ≤ maxBytes) :
    hostname cs = cs := by
  unfold hostname sanitizeTo
  rw [sanitize_eq_self_iff.2 h, Text.takeBytes_eq_self_iff.2 hlen,
    dropDashes_of_not_dashed h.undashed]

theorem hostname_sanitize (name : List Char) : hostname (sanitize name) = hostname name := by
  unfold hostname sanitizeTo
  rw [sanitize_eq_self_iff.2 (sanitized_sanitize name)]

/-- A hostname is the whole sanitized name exactly if that fits. -/
theorem hostname_eq_sanitize_iff {name : List Char} :
    hostname name = sanitize name ↔ byteLength (sanitize name) ≤ maxBytes := by
  constructor
  · intro h
    rw [← h]
    exact (hostname_fits name).2
  · intro h
    rw [← hostname_sanitize name]
    exact hostname_of_sanitized (sanitized_sanitize name) h

/-- **Sanitizing is a normal form.** For a name with any characters, the sanitized name holds none of
the forbidden characters, has no dash at its end and is left by sanitizing it again. The hostname is
at the front of it, has at most 63 bytes and the same form, is the whole of it exactly if that fits,
and is left when it is made again. A name that is cut is the longest run of whole characters at the
front of the sanitized name that fits, whatever the number of bytes. -/
theorem sanitizing_is_a_normal_form (name : List Char) :
    (forbidden.Disjoint (sanitize name) ∧ ¬ Dashed (sanitize name) ∧
      sanitize (sanitize name) = sanitize name) ∧
    (hostname name <+: sanitize name ∧ byteLength (hostname name) ≤ 63 ∧
      forbidden.Disjoint (hostname name) ∧ ¬ Dashed (hostname name) ∧
      (hostname name = sanitize name ↔ byteLength (sanitize name) ≤ 63) ∧
      hostname (hostname name) = hostname name) ∧
    ∀ (max : Nat) (front : List Char),
      front <+: sanitizeTo max name ↔ front <+: sanitize name ∧ byteLength front ≤ max := by
  have hname := sanitized_sanitize name
  have hhost := sanitized_hostname name
  obtain ⟨hfront, hlen⟩ := hostname_fits name
  exact ⟨⟨hname.disjoint, hname.undashed, sanitize_eq_self_iff.2 hname⟩,
    ⟨hfront, hlen, hhost.disjoint, hhost.undashed, hostname_eq_sanitize_iff,
      hostname_of_sanitized hhost hlen⟩,
    fun _ _ => Text.prefix_takeBytes_iff⟩

/-- A cut inside a run of dashes: the dashes behind it are dropped too. -/
example : hostname ("x_".toList ++ List.replicate 60 'a' ++ "__.".toList ++ "b".toList) =
    "x-".toList ++ List.replicate 60 'a' := by decide +kernel

end Inventory.Label
