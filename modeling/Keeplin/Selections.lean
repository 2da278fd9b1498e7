/-
Selections of the first items of a kind, at most so many.  An item of the kind is left
out only when there are as many others that come no later.
-/
import Mathlib.Data.List.Nodup

namespace Selections

universe u v

variable {A : Type u} {B : Type v}

/-- These are items of the kind, each once, in the order and up to a limit, and none that is
left out comes before one of them. -/
structure FirstOf (kind : A → Prop) (before : A → A → Prop) (limit : Nat) (shown : List A) :
    Prop where
  nodup : shown.Nodup
  ofKind : ∀ item ∈ shown, kind item
  length_le : shown.length ≤ limit
  sorted : shown.Pairwise before
  leftOut : ∀ item, kind item → item ∉ shown →
    shown.length = limit ∧ ∀ other ∈ shown, before other item

variable {kind : A → Prop} {before : A → A → Prop} {limit : Nat} {shown : List A}

/-- The first rows of a sorted listing. -/
theorem FirstOf.take {rows sorted : List A} (hnodup : rows.Nodup) (hperm : sorted.Perm rows)
    (hsorted : sorted.Pairwise before) (hkind : ∀ item, kind item ↔ item ∈ rows) (limit : Nat) :
    FirstOf kind before limit (sorted.take limit) where
  nodup := (hperm.nodup_iff.mpr hnodup).sublist (List.take_sublist limit sorted)
  ofKind := fun item hitem =>
    (hkind item).mpr (hperm.mem_iff.mp (List.mem_of_mem_take hitem))
  length_le := List.length_take_le limit sorted
  sorted := hsorted.sublist (List.take_sublist limit sorted)
  leftOut := by
    intro item hitem hout
    have hmem : item ∈ sorted.take limit ++ sorted.drop limit := by
      rw [List.take_append_drop]
      exact hperm.mem_iff.mpr ((hkind item).mp hitem)
    have hdropped := (List.mem_append.mp hmem).resolve_left hout
    have hlong : limit < sorted.length := by
      by_contra hshort
      rw [List.drop_of_length_le (Nat.le_of_not_lt hshort)] at hdropped
      contradiction
    refine ⟨List.length_take_of_le (Nat.le_of_lt hlong), fun other hother => ?_⟩
    rw [← List.take_append_drop limit sorted] at hsorted
    exact (List.pairwise_append.mp hsorted).2.2 other hother item hdropped

/-- A selection is one of the images, where the items of the kind have one each and no two of
them the same. -/
theorem FirstOf.filterMap {image : A → Option B} {kind' : B → Prop} {before' : B → B → Prop}
    (hshown : FirstOf kind before limit shown)
    (hsome : ∀ item, kind item → ∃ found, image item = some found ∧ kind' found)
    (hone : ∀ item other found, kind item → kind other → image item = some found →
      image other = some found → item = other)
    (hall : ∀ found, kind' found → ∃ item, kind item ∧ image item = some found)
    (hbefore : ∀ item other first second, kind item → kind other → image item = some first →
      image other = some second → before item other → before' first second) :
    FirstOf kind' before' limit (shown.filterMap image) := by
  have hlength : (shown.filterMap image).length = shown.length := by
    rw [List.length_filterMap_eq_countP, List.countP_eq_length]
    intro item hitem
    obtain ⟨found, hfound, -⟩ := hsome item (hshown.ofKind item hitem)
    rw [hfound]
    rfl
  constructor
  · refine List.pairwise_filterMap.mpr (hshown.nodup.imp_of_mem ?_)
    intro item other hitem hother hne first hfirst second hsecond heq
    subst heq
    exact hne (hone item other first (hshown.ofKind item hitem) (hshown.ofKind other hother)
      hfirst hsecond)
  · intro found hfound
    obtain ⟨item, hitem, himage⟩ := List.mem_filterMap.mp hfound
    obtain ⟨same, hsame, hkind⟩ := hsome item (hshown.ofKind item hitem)
    rw [himage, Option.some.injEq] at hsame
    exact hsame ▸ hkind
  · rw [hlength]
    exact hshown.length_le
  · refine List.pairwise_filterMap.mpr (hshown.sorted.imp_of_mem ?_)
    intro item other hitem hother hbetween first hfirst second hsecond
    exact hbefore item other first second (hshown.ofKind item hitem)
      (hshown.ofKind other hother) hfirst hsecond hbetween
  · intro found hfound hout
    obtain ⟨item, hitem, himage⟩ := hall found hfound
    have hitemOut : item ∉ shown := fun hmem =>
      hout (List.mem_filterMap.mpr ⟨item, hmem, himage⟩)
    obtain ⟨hfull, hothers⟩ := hshown.leftOut item hitem hitemOut
    refine ⟨hlength.trans hfull, fun other hother => ?_⟩
    obtain ⟨source, hsource, hother⟩ := List.mem_filterMap.mp hother
    exact hbefore source item other found (hshown.ofKind source hsource) hitem hother himage
      (hothers source hsource)

end Selections
