/-
Owners and their items, deleted softly and together.  An item that is deleted
with its owner gets the owner's instant, and a restore brings back the items that
carry it.  As long as no other item comes to carry the instant, and the owner
keeps it until the restore, the items of a live owner are those that were made
for it and not removed themselves.
-/
import Mathlib.Logic.Function.Basic

namespace Keeplin

universe u v w

/-- Each owner and each item that exists, with the instant of its deletion. -/
@[ext] structure DeletionCascade (N : Type u) (I : Type v) (T : Type w) where
  owner : N → Option (Option T)
  item : N → I → Option (Option T)

namespace DeletionCascade

variable {N : Type u} {I : Type v} {T : Type w}

variable (state : DeletionCascade N I T)

/-- The instant goes to the owner and to its live items. -/
def delete [DecidableEq N] (owner : N) (instant : T) : DeletionCascade N I T where
  owner := Function.update state.owner owner (some (some instant))
  item := Function.update state.item owner fun item =>
    match state.item owner item with
    | some none => some (some instant)
    | other => other

/-- The items that carry the owner's instant come back with it. -/
def restore [DecidableEq N] [DecidableEq T] (owner : N) : DeletionCascade N I T where
  owner := Function.update state.owner owner (some none)
  item := Function.update state.item owner fun item =>
    match state.item owner item with
    | some (some instant) =>
        if state.owner owner = some (some instant) then some none else some (some instant)
    | other => other

def put [DecidableEq N] [DecidableEq I] (owner : N) (item : I) (deleted : Option T) :
    DeletionCascade N I T where
  owner := state.owner
  item := Function.update state.item owner
    (Function.update (state.item owner) item (some deleted))

/-- An item is kept if it is live, or deleted with its owner. -/
def Follows (kept : N → I → Prop) : Prop :=
  ∀ owner item, kept owner item ↔
    ∃ deleted, state.item owner item = some deleted ∧
      (deleted = none ∨ state.owner owner = some deleted)

variable {state} {kept : N → I → Prop} {owner : N} {item : I} {instant : T}

/-- A deletion brings no item back. -/
theorem item_of_delete_live [DecidableEq N] {other : N}
    (hlive : (state.delete owner instant).item other item = some none) :
    state.item other item = some none := by
  by_cases hother : other = owner
  · subst hother
    simp only [DeletionCascade.delete, Function.update_self] at hlive
    split at hlive
    · simp at hlive
    · exact hlive
  · simpa only [DeletionCascade.delete, Function.update_of_ne hother] using hlive

theorem item_of_delete [DecidableEq N] {other : N}
    (hitem : (state.delete owner instant).item other item ≠ none) :
    state.item other item ≠ none := by
  by_cases hother : other = owner
  · subst hother
    simp only [DeletionCascade.delete, Function.update_self] at hitem
    intro hnone
    rw [hnone] at hitem
    exact hitem rfl
  · simpa only [DeletionCascade.delete, Function.update_of_ne hother] using hitem

/-- A live item after a restore was live or carried its owner's instant. -/
theorem item_of_restore_live [DecidableEq N] [DecidableEq T] {other : N}
    (hlive : (state.restore owner).item other item = some none) :
    state.item other item = some none ∨
      other = owner ∧ ∃ instant, state.owner owner = some (some instant) ∧
        state.item owner item = some (some instant) := by
  by_cases hother : other = owner
  · subst hother
    simp only [DeletionCascade.restore, Function.update_self] at hlive
    split at hlive
    · next instant hitem =>
        split at hlive
        · next howner => exact Or.inr ⟨rfl, instant, howner, hitem⟩
        · simp at hlive
    · exact Or.inl hlive
  · simp only [DeletionCascade.restore, Function.update_of_ne hother] at hlive
    exact Or.inl hlive

theorem item_of_restore [DecidableEq N] [DecidableEq T] {other : N}
    (hitem : (state.restore owner).item other item ≠ none) :
    state.item other item ≠ none := by
  by_cases hother : other = owner
  · subst hother
    simp only [DeletionCascade.restore, Function.update_self] at hitem
    intro hnone
    rw [hnone] at hitem
    exact hitem rfl
  · simpa only [DeletionCascade.restore, Function.update_of_ne hother] using hitem

@[simp] theorem item_put_self [DecidableEq N] [DecidableEq I] (deleted : Option T) :
    (state.put owner item deleted).item owner item = some deleted := by
  simp [put]

theorem item_put_of_ne [DecidableEq N] [DecidableEq I] {deleted : Option T} {other : N}
    {found : I} (hne : ¬(other = owner ∧ found = item)) :
    (state.put owner item deleted).item other found = state.item other found := by
  by_cases hother : other = owner
  · subst hother
    have hfound : found ≠ item := fun heq => hne ⟨rfl, heq⟩
    simp only [put, Function.update_self, Function.update_of_ne hfound]
  · simp only [put, Function.update_of_ne hother]

/-- An owner that is not deleted has no item to restore. -/
theorem item_restore_of_not_deleted [DecidableEq N] [DecidableEq T]
    (howner : ∀ instant, state.owner owner ≠ some (some instant)) :
    (state.restore owner).item = state.item := by
  funext other item
  by_cases hother : other = owner
  · subst hother
    simp only [DeletionCascade.restore, Function.update_self]
    split
    · next instant hitem => rw [if_neg (howner instant), hitem]
    · rfl
  · simp only [DeletionCascade.restore, Function.update_of_ne hother]

/-- The live items of a live owner are the kept ones. -/
theorem Follows.live (hfollows : state.Follows kept) (howner : state.owner owner = some none) :
    state.item owner item = some none ↔ kept owner item := by
  rw [hfollows owner item]
  constructor
  · exact fun hitem => ⟨none, hitem, Or.inl rfl⟩
  · rintro ⟨deleted, hitem, rfl | hdeleted⟩
    · exact hitem
    · rw [howner, Option.some.injEq] at hdeleted
      exact hdeleted ▸ hitem

theorem Follows.congr {kept' : N → I → Prop} (hfollows : state.Follows kept)
    (hsame : ∀ owner item, kept' owner item ↔ kept owner item) : state.Follows kept' := by
  intro owner item
  rw [hsame, hfollows owner item]

/-- A deletion keeps what is kept if, of the owner's dead items, those that carry
the new instant are those that carry its present one. -/
theorem Follows.delete [DecidableEq N] (hfollows : state.Follows kept)
    (hclear : ∀ item deleted, state.item owner item = some (some deleted) →
      (deleted = instant ↔ state.owner owner = some (some deleted))) :
    (state.delete owner instant).Follows kept := by
  intro other item
  rw [hfollows other item]
  by_cases hother : other = owner
  · subst hother
    simp only [DeletionCascade.delete, Function.update_self]
    cases hitem : state.item other item with
    | none => simp
    | some deleted =>
        cases deleted with
        | none => simp
        | some deleted =>
            have hcarries := hclear item deleted hitem
            simp only [Option.some.injEq, exists_eq_left', reduceCtorEq, false_or]
            rw [← hcarries, eq_comm]
  · simp only [DeletionCascade.delete, Function.update_of_ne hother]

theorem Follows.restore [DecidableEq N] [DecidableEq T] (hfollows : state.Follows kept) :
    (state.restore owner).Follows kept := by
  intro other item
  rw [hfollows other item]
  by_cases hother : other = owner
  · subst hother
    simp only [DeletionCascade.restore, Function.update_self]
    cases hitem : state.item other item with
    | none => simp
    | some deleted =>
        cases deleted with
        | none => simp
        | some deleted =>
            by_cases hcarries : state.owner other = some (some deleted)
            · simp [hcarries]
            · simp [hcarries]
  · simp only [DeletionCascade.restore, Function.update_of_ne hother]

/-- A new item is kept, live or deleted at the owner's instant. -/
theorem Follows.create [DecidableEq N] [DecidableEq I] {deleted : Option T}
    (hfollows : state.Follows kept)
    (hclear : deleted = none ∨ state.owner owner = some deleted) :
    (state.put owner item deleted).Follows fun other found =>
      other = owner ∧ found = item ∨ kept other found := by
  intro other found
  by_cases hother : other = owner
  · subst hother
    by_cases hfound : found = item
    · subst hfound
      simp [put, hclear]
    · simp only [put, Function.update_self, Function.update_of_ne hfound, hfound, and_false,
        false_or]
      exact hfollows other found
  · simp only [put, Function.update_of_ne hother, hother, false_and, false_or]
    exact hfollows other found

/-- A removed item is not kept, unless it gets the owner's own instant. -/
theorem Follows.remove [DecidableEq N] [DecidableEq I] (hfollows : state.Follows kept)
    (hclear : state.owner owner ≠ some (some instant))
    (honly : ∀ other, state.item other item ≠ none → other = owner) :
    (state.put owner item (some instant)).Follows fun other found =>
      kept other found ∧ found ≠ item := by
  intro other found
  by_cases hother : other = owner
  · subst hother
    by_cases hfound : found = item
    · subst hfound
      simp [put, hclear]
    · simp only [put, Function.update_self, Function.update_of_ne hfound, ne_eq, hfound,
        not_false_eq_true, and_true]
      exact hfollows other found
  · simp only [put, Function.update_of_ne hother]
    rw [← hfollows other found]
    refine ⟨And.left, fun hkept => ⟨hkept, ?_⟩⟩
    rintro rfl
    obtain ⟨deleted, hitem, _⟩ := (hfollows other found).mp hkept
    exact hother (honly other (by simp [hitem]))

end DeletionCascade

end Keeplin
