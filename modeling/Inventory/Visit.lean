import Inventory.Cache.Basic
import Inventory.Entity.Operations

/-!
# Visiting entities

The entities of a type, stored or in a cache, are shown one after another to a visitor with a
state of its own, which can break off with a failure.

* `visit_eq_iff`: **a visitor is shown each value once, in order, up to the first at which it
  fails.**
* `visit_collect`: a visitor that notes what it is shown has noted everything.
* `ShowsEach`: all visitors are shown the same.
-/

namespace Inventory

/-- A visitor that is shown values of type `β`. -/
abbrev Visitor (β σ : Type) := β → σ → StoreResult Unit × σ

/-- Shows values one after another until the visitor fails. -/
def visit {β σ : Type} (f : Visitor β σ) : List β → σ → StoreResult Unit × σ
  | [], x => (.ok (), x)
  | b :: bs, x =>
    match f b x with
    | (.ok (), x) => visit f bs x
    | (.error e, x) => (.error e, x)

/-- Shows all stored entities of a type with the revisions that wrote them. -/
def Entity.visitStored {α σ : Type} [Entity α] (f : Visitor (α × Revision) σ) (s : Store) (x : σ) :
    StoreResult Unit × σ :=
  match Entity.loadAll α s with
  | .ok found => visit f found x
  | .error e => (.error e, x)

/-- Shows the entities of a cache that agree with a filter. -/
def Cache.show {α σ : Type} [Entity α] (c : Cache α) (filter : α) (f : Visitor α σ) (x : σ) :
    StoreResult Unit × σ :=
  visit f (c.matching filter) x

/-! ## What a visitor is shown -/

/-- The visitor that notes what it is shown. -/
def Visitor.collect {β : Type} : Visitor β (List β) := fun b seen => (.ok (), seen ++ [b])

/-- A visitor takes values one after another, and each of them without a failure. -/
inductive Visitor.Takes {β σ : Type} (f : Visitor β σ) : List β → σ → σ → Prop
  | none (x : σ) : f.Takes [] x x
  | next {b : β} {bs : List β} {x y z : σ} :
    f b x = (.ok (), y) → f.Takes bs y z → f.Takes (b :: bs) x z

/-- What a visitor makes of values that it is shown: it takes all of them, or those in front of one
at which it fails, and nothing of what follows counts. -/
inductive Visitor.Sees {β σ : Type} (f : Visitor β σ) (bs : List β) (x : σ) :
    StoreResult Unit × σ → Prop
  | all {z : σ} : f.Takes bs x z → f.Sees bs x (.ok (), z)
  | upTo {front back : List β} {b : β} {y z : σ} {e : StoreError} :
    bs = front ++ b :: back → f.Takes front x y → f b y = (.error e, z) →
      f.Sees bs x (.error e, z)

/-- Whoever looks is shown the same values. -/
structure ShowsEach {β : Type} (look : ∀ σ : Type, Visitor β σ → σ → StoreResult Unit × σ)
    (found : List β) : Prop where
  /-- All of them can be noted, each as often as it is there, in order. -/
  collected : look (List β) .collect [] = (.ok (), found)
  /-- A visitor sees them one after another, up to the first at which it fails. -/
  seen : ∀ {σ : Type} (f : Visitor β σ) (x : σ), f.Sees found x (look σ f x)

section

variable {β σ : Type} {f : Visitor β σ} {front bs : List β} {x y z : σ}

/-- What comes behind values that the visitor takes is shown to it as it is then. -/
theorem visit_append_of_takes (h : f.Takes front x y) (back : List β) :
    visit f (front ++ back) x = visit f back y := by
  induction h with
  | none x => rfl
  | next hfirst _ ih =>
    rw [List.cons_append, visit, hfirst]
    exact ih

theorem visit_of_takes (h : f.Takes bs x z) : visit f bs x = (.ok (), z) := by
  have hall := visit_append_of_takes h []
  rw [List.append_nil] at hall
  exact hall

theorem sees_visit (f : Visitor β σ) (bs : List β) (x : σ) : f.Sees bs x (visit f bs x) := by
  induction bs generalizing x with
  | nil => exact .all (.none x)
  | cons b bs ih =>
    rw [visit]
    split
    · rename_i y hfirst
      have hrest := ih y
      generalize visit f bs y = r at hrest ⊢
      cases hrest with
      | all htakes => exact .all (.next hfirst htakes)
      | upTo hbs htakes hfails => exact .upTo (congrArg (b :: ·) hbs) (.next hfirst htakes) hfails
    · rename_i e y hfirst
      exact .upTo rfl (.none x) hfirst

/-- **A visitor is shown each value once, in order, up to the first at which it fails.** -/
theorem visit_eq_iff {r : StoreResult Unit × σ} : visit f bs x = r ↔ f.Sees bs x r := by
  constructor
  · rintro rfl
    exact sees_visit f bs x
  · intro h
    cases h with
    | all htakes => exact visit_of_takes htakes
    | upTo hbs htakes hfails => rw [hbs, visit_append_of_takes htakes, visit, hfails]

theorem takes_collect (bs seen : List β) : Visitor.collect.Takes bs seen (seen ++ bs) := by
  induction bs generalizing seen with
  | nil =>
    rw [List.append_nil]
    exact .none seen
  | cons b bs ih =>
    have hrest := ih (seen ++ [b])
    rw [List.append_assoc] at hrest
    exact .next rfl hrest

/-- A visitor that notes what it is shown has noted **everything**, in order. -/
theorem visit_collect (bs : List β) : visit Visitor.collect bs [] = (.ok (), bs) :=
  visit_of_takes (takes_collect bs [])

theorem showsEach_visit (bs : List β) : ShowsEach (fun _ f x => visit f bs x) bs where
  collected := visit_collect bs
  seen _ _ := visit_eq_iff.1 rfl

end

end Inventory
