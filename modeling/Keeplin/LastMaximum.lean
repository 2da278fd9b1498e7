/-
The maximum of a list under a comparison, the last one among equals.  Over a
transitive comparison it only depends on the maxima of the parts a list is put
together from.
-/
import Mathlib.Order.Basic
import Mathlib.Data.List.Induction

namespace Keeplin

universe u v

variable {A : Type u} {B : Type v}

/-- The running maximum: the next element replaces the best one unless it is
strictly smaller. -/
def later (cmp : A → A → Ordering) (best next : A) : A :=
  if cmp best next = .gt then best else next

def maxBy (cmp : A → A → Ordering) : List A → Option A
  | [] => none
  | head :: rest => some (rest.foldl (later cmp) head)

section Comparison

variable (cmp : A → A → Ordering)

theorem later_eq_or (best next : A) :
    later cmp best next = best ∨ later cmp best next = next := by
  unfold later
  split
  · exact Or.inl rfl
  · exact Or.inr rfl

@[simp] theorem maxBy_nil : maxBy cmp ([] : List A) = none := rfl

@[simp] theorem maxBy_singleton (head : A) : maxBy cmp [head] = some head := rfl

/-- The maximum of a list with one more element at its end. -/
theorem maxBy_concat (front : List A) (last : A) :
    maxBy cmp (front ++ [last]) =
      some (match maxBy cmp front with
        | none => last
        | some best => later cmp best last) := by
  cases front with
  | nil => rfl
  | cons head rest => simp [maxBy, List.foldl_append]

theorem maxBy_eq_none_iff {list : List A} : maxBy cmp list = none ↔ list = [] := by
  cases list with
  | nil => simp
  | cons head rest => simp [maxBy]

theorem maxBy_mem {list : List A} {best : A} (hbest : maxBy cmp list = some best) :
    best ∈ list := by
  induction list using List.reverseRecOn generalizing best with
  | nil => simp at hbest
  | append_singleton front last ih =>
      rw [maxBy_concat] at hbest
      cases hfront : maxBy cmp front with
      | none =>
          rw [hfront] at hbest
          simp only [Option.some.injEq] at hbest
          simp [hbest]
      | some first =>
          rw [hfront] at hbest
          simp only [Option.some.injEq] at hbest
          rcases later_eq_or cmp first last with hkept | hnew
          · rw [hkept] at hbest
            exact List.mem_append.mpr (Or.inl (hbest ▸ ih hfront))
          · rw [hnew] at hbest
            simp [hbest]

theorem later_self (item : A) : later cmp item item = item := by
  rcases later_eq_or cmp item item with hkept | hkept <;> exact hkept

/-- Taking the maximum after keeping and reading some of the elements, when
the two comparisons agree on what is kept. -/
theorem maxBy_filterMap (other : B → B → Ordering) (read : A → Option B)
    {list : List A}
    (hagree : ∀ first ∈ list, ∀ second ∈ list, ∀ left right,
      read first = some left → read second = some right →
        other left right = cmp first second) :
    maxBy other (list.filterMap read) =
      (maxBy cmp (list.filter fun item => (read item).isSome)).bind read := by
  induction list using List.reverseRecOn with
  | nil => rfl
  | append_singleton front last ih =>
      have hfront := ih fun first hfirst second hsecond =>
        hagree first (List.mem_append.mpr (Or.inl hfirst)) second
          (List.mem_append.mpr (Or.inl hsecond))
      cases hlast : read last with
      | none => simpa [hlast] using hfront
      | some right =>
          rw [List.filterMap_append, List.filter_append]
          simp only [List.filterMap_cons, hlast, List.filterMap_nil, List.filter_cons,
            Option.isSome_some, ↓reduceIte, List.filter_nil]
          rw [maxBy_concat, maxBy_concat, hfront, Option.bind_some]
          cases hbest : maxBy cmp (front.filter fun item => (read item).isSome) with
          | none => simp [hlast]
          | some best =>
              have hmem := List.mem_filter.mp (maxBy_mem cmp hbest)
              obtain ⟨left, hleft⟩ := Option.isSome_iff_exists.mp hmem.2
              have hcmp := hagree best (List.mem_append.mpr (Or.inl hmem.1)) last
                (by simp) left right hleft hlast
              simp only [Option.bind_some, hleft]
              unfold later
              rw [hcmp]
              split
              · exact hleft.symm
              · exact hlast.symm

end Comparison

section Transitive

variable (cmp : A → A → Ordering) [Std.TransCmp cmp]

theorem later_assoc (first second third : A) :
    later cmp (later cmp first second) third =
      later cmp first (later cmp second third) := by
  by_cases hfirst : cmp first second = .gt
  · by_cases hsecond : cmp second third = .gt
    · have hchain : cmp first third = .gt := Std.TransCmp.gt_trans hfirst hsecond
      simp [later, hfirst, hsecond, hchain]
    · simp [later, hfirst, hsecond]
  · by_cases hsecond : cmp second third = .gt
    · simp [later, hfirst, hsecond]
    · have hchain : cmp first third ≠ .gt := by
        rw [← Ordering.isLE_iff_ne_gt] at hfirst hsecond
        exact Ordering.isLE_iff_ne_gt.mp (Std.TransCmp.isLE_trans hfirst hsecond)
      simp [later, hfirst, hsecond, hchain]

/-- The maximum of two lists put together. -/
theorem maxBy_append (front back : List A) :
    maxBy cmp (front ++ back) =
      match maxBy cmp front, maxBy cmp back with
      | none, found => found
      | found, none => found
      | some best, some next => some (later cmp best next) := by
  induction back using List.reverseRecOn with
  | nil =>
      rw [List.append_nil, maxBy_nil]
      cases maxBy cmp front <;> rfl
  | append_singleton middle last ih =>
      rw [← List.append_assoc, maxBy_concat, maxBy_concat, ih]
      cases maxBy cmp front with
      | none => rfl
      | some best =>
          cases maxBy cmp middle with
          | none => rfl
          | some next => simp [later_assoc]

/-- Lists with one maximum can replace each other inside a longer list. -/
theorem maxBy_replace {middle other : List A} (hmax : maxBy cmp middle = maxBy cmp other)
    (front back : List A) :
    maxBy cmp (front ++ middle ++ back) = maxBy cmp (front ++ other ++ back) := by
  rw [maxBy_append, maxBy_append, maxBy_append cmp (front ++ other),
    maxBy_append cmp front other, hmax]

/-- The maximum already counts the last element. -/
theorem later_last_of_maxBy {front : List A} {last best : A}
    (hbest : maxBy cmp (front ++ [last]) = some best) : later cmp best last = best := by
  rw [maxBy_concat] at hbest
  simp only [Option.some.injEq] at hbest
  cases hfront : maxBy cmp front with
  | none =>
      rw [hfront] at hbest
      rw [← hbest]
      exact later_self cmp last
  | some first =>
      rw [hfront] at hbest
      rw [← hbest]
      simp only [later_assoc, later_self]

/-- Nothing in a list is above its maximum. -/
theorem isLE_maxBy {list : List A} {best : A} (hbest : maxBy cmp list = some best) :
    ∀ item ∈ list, (cmp item best).isLE = true := by
  induction list using List.reverseRecOn generalizing best with
  | nil => simp at hbest
  | append_singleton front last ih =>
      rw [maxBy_concat] at hbest
      simp only [Option.some.injEq] at hbest
      intro item hitem
      cases hfront : maxBy cmp front with
      | none =>
          rw [(maxBy_eq_none_iff cmp).mp hfront, List.nil_append, List.mem_singleton] at hitem
          rw [hfront] at hbest
          rw [hitem, ← hbest]
          exact Std.ReflCmp.isLE_rfl
      | some first =>
          rw [hfront] at hbest
          simp only [later] at hbest
          split at hbest
          · next hgt =>
              subst hbest
              rcases List.mem_append.mp hitem with hold | hnew
              · exact ih hfront item hold
              · rw [List.mem_singleton.mp hnew, Std.OrientedCmp.lt_of_gt hgt]
                rfl
          · next hle =>
              subst hbest
              rcases List.mem_append.mp hitem with hold | hnew
              · exact Std.TransCmp.isLE_trans (ih hfront item hold)
                  (Ordering.isLE_iff_ne_gt.mpr hle)
              · rw [List.mem_singleton.mp hnew]
                exact Std.ReflCmp.isLE_rfl

/-- Where no two elements compare equal, the order of the list does not
matter for its maximum. -/
theorem maxBy_perm {list other : List A} (hperm : list.Perm other)
    (hdistinct : ∀ first ∈ list, ∀ second ∈ list, cmp first second = .eq → first = second) :
    maxBy cmp list = maxBy cmp other := by
  cases hbest : maxBy cmp list with
  | none =>
      rw [(maxBy_eq_none_iff cmp).mp hbest] at hperm
      rw [hperm.symm.eq_nil]
      rfl
  | some best =>
      cases hnext : maxBy cmp other with
      | none =>
          rw [(maxBy_eq_none_iff cmp).mp hnext] at hperm
          rw [hperm.eq_nil] at hbest
          contradiction
      | some next =>
          have hmem := maxBy_mem cmp hbest
          have hnextMem := hperm.mem_iff.mpr (maxBy_mem cmp hnext)
          have hle := isLE_maxBy cmp hnext best (hperm.mem_iff.mp hmem)
          have hge := isLE_maxBy cmp hbest next hnextMem
          rw [hdistinct best hmem next hnextMem (Std.OrientedCmp.isLE_antisymm hle hge)]

end Transitive

end Keeplin
