/-
Cuts of a list at a separator: at the first one, at the last one, and behind a
given front.
-/
import Mathlib.Data.Bool.AllAny
import Mathlib.Data.List.Basic
import Mathlib.Data.List.Infix

namespace Keeplin

universe u

variable {A : Type u} [DecidableEq A]

/-- What comes before and after the first separator. -/
def splitFirst (separator : A) : List A → Option (List A × List A)
  | [] => none
  | item :: rest =>
      if item = separator then some ([], rest)
      else (splitFirst separator rest).map fun found => (item :: found.1, found.2)

/-- What comes before and after the last separator. -/
def splitLast (separator : A) : List A → Option (List A × List A)
  | [] => none
  | item :: rest =>
      match splitLast separator rest with
      | some found => some (item :: found.1, found.2)
      | none => if item = separator then some ([], rest) else none

def stripPrefix (front list : List A) : Option (List A) :=
  if front <+: list then some (list.drop front.length) else none

variable {separator : A} {front back list : List A}

@[simp] theorem splitFirst_nil (separator : A) : splitFirst separator [] = none := rfl

theorem splitFirst_cons (separator item : A) (rest : List A) :
    splitFirst separator (item :: rest) =
      if item = separator then some ([], rest)
      else (splitFirst separator rest).map fun found => (item :: found.1, found.2) := rfl

@[simp] theorem splitLast_nil (separator : A) : splitLast separator [] = none := rfl

theorem splitLast_cons (separator item : A) (rest : List A) :
    splitLast separator (item :: rest) =
      match splitLast separator rest with
      | some found => some (item :: found.1, found.2)
      | none => if item = separator then some ([], rest) else none := rfl

theorem splitFirst_append (hfront : separator ∉ front) (back : List A) :
    splitFirst separator (front ++ separator :: back) = some (front, back) := by
  induction front with
  | nil => exact if_pos rfl
  | cons item front ih =>
      obtain ⟨hitem, hfront⟩ := not_or.mp (List.mem_cons.not.mp hfront)
      rw [List.cons_append, splitFirst_cons, if_neg (Ne.symm hitem), ih hfront]
      rfl

theorem splitFirst_eq_none : splitFirst separator list = none ↔ separator ∉ list := by
  induction list with
  | nil => simp
  | cons item rest ih =>
      rw [splitFirst_cons, List.mem_cons, not_or]
      by_cases hitem : item = separator
      · simp [hitem]
      · rw [if_neg hitem, Option.map_eq_none_iff, ih]
        exact ⟨fun hrest => ⟨Ne.symm hitem, hrest⟩, And.right⟩

/-- The first separator has none before it. -/
theorem splitFirst_eq_some (hsplit : splitFirst separator list = some (front, back)) :
    list = front ++ separator :: back ∧ separator ∉ front := by
  induction list generalizing front with
  | nil => contradiction
  | cons item rest ih =>
      rw [splitFirst_cons] at hsplit
      split at hsplit
      · next hitem =>
          obtain ⟨rfl, rfl⟩ := Prod.mk.inj (Option.some.inj hsplit)
          exact ⟨by rw [hitem]; rfl, List.not_mem_nil⟩
      · next hitem =>
          obtain ⟨⟨start, after⟩, hrest, hfound⟩ := Option.map_eq_some_iff.mp hsplit
          obtain ⟨rfl, rfl⟩ := Prod.mk.inj hfound
          obtain ⟨hsame, hstart⟩ := ih hrest
          refine ⟨by rw [hsame]; rfl, ?_⟩
          rw [List.mem_cons, not_or]
          exact ⟨Ne.symm hitem, hstart⟩

theorem splitLast_eq_none : splitLast separator list = none ↔ separator ∉ list := by
  induction list with
  | nil => simp
  | cons item rest ih =>
      rw [splitLast_cons, List.mem_cons, not_or]
      cases hrest : splitLast separator rest with
      | some found =>
          have hmem : separator ∈ rest := by
            by_contra hnone
            rw [ih.mpr hnone] at hrest
            contradiction
          exact ⟨fun hsome => absurd hsome (by simp), fun hnone => absurd hmem hnone.2⟩
      | none =>
          rw [ite_eq_right_iff]
          constructor
          · exact fun hitem => ⟨fun heq => absurd (hitem heq.symm) (by simp), ih.mp hrest⟩
          · exact fun hnone heq => absurd heq.symm hnone.1

theorem splitLast_append (front : List A) (hback : separator ∉ back) :
    splitLast separator (front ++ separator :: back) = some (front, back) := by
  induction front with
  | nil => rw [List.nil_append, splitLast_cons, splitLast_eq_none.mpr hback, if_pos rfl]
  | cons item front ih => rw [List.cons_append, splitLast_cons, ih]

theorem splitLast_append_cons (hlast : separator ∈ list) (front : List A) :
    splitLast separator (front ++ list) =
      (splitLast separator list).map fun found => (front ++ found.1, found.2) := by
  induction front with
  | nil => simp
  | cons item front ih =>
      rw [List.cons_append, splitLast_cons, ih]
      cases hsplit : splitLast separator list with
      | none => exact absurd hlast (splitLast_eq_none.mp hsplit)
      | some found => rfl

theorem splitLast_eq_some (hsplit : splitLast separator list = some (front, back)) :
    list = front ++ separator :: back ∧ separator ∉ back := by
  induction list generalizing front with
  | nil => contradiction
  | cons item rest ih =>
      rw [splitLast_cons] at hsplit
      cases hrest : splitLast separator rest with
      | some found =>
          rw [hrest, Option.some.injEq, Prod.mk.injEq] at hsplit
          obtain ⟨rfl, rfl⟩ := hsplit
          obtain ⟨hlist, hnone⟩ := ih hrest
          exact ⟨congrArg (item :: ·) hlist, hnone⟩
      | none =>
          simp only [hrest] at hsplit
          split at hsplit
          · next hitem =>
              obtain ⟨rfl, rfl⟩ := Prod.mk.inj (Option.some.inj hsplit)
              exact ⟨by rw [hitem, List.nil_append], splitLast_eq_none.mp hrest⟩
          · contradiction

omit [DecidableEq A] in
/-- A front without the separator ends before it. -/
theorem prefix_append_cons_iff (hfront : separator ∉ front) :
    front <+: list ++ separator :: back ↔ front <+: list := by
  constructor
  · intro hprefix
    rcases List.prefix_or_prefix_of_prefix hprefix (List.prefix_append list _)
    with hin | ⟨more, rfl⟩
    · exact hin
    · cases more with
      | nil => simp
      | cons item more =>
          obtain ⟨rest, hrest⟩ := hprefix
          rw [List.append_assoc, List.append_cancel_left_eq, List.cons_append,
            List.cons.injEq] at hrest
          exact absurd (hrest.1 ▸ List.mem_append_right list List.mem_cons_self) hfront
  · exact fun hprefix => hprefix.trans (List.prefix_append list _)

@[simp] theorem stripPrefix_append (front back : List A) :
    stripPrefix front (front ++ back) = some back := by
  rw [stripPrefix, if_pos (List.prefix_append front back), List.drop_left]

theorem stripPrefix_eq_none (hfront : ¬ front <+: list) : stripPrefix front list = none :=
  if_neg hfront

end Keeplin
