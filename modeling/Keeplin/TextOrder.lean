/-
Texts in lexicographic order.  Numbers written with a fixed number of digits are
in the order of the numbers, and texts put together from parts of fixed length
are in the order of the first part in which they differ.
-/
import Mathlib.Algebra.GroupWithZero.Nat
import Mathlib.Data.List.Lex
import Mathlib.Data.Nat.Find
import Mathlib.Order.Lattice

namespace Keeplin

universe u

section Append

variable {A : Type u} [LinearOrder A]

theorem append_lt_append_left {front first second : List A} :
    front ++ first < front ++ second ↔ first < second := by
  induction front with
  | nil => exact Iff.rfl
  | cons head rest ih => simpa [List.cons_append, List.cons_lt_cons_iff] using ih

/-- Of fronts of the same length, different ones decide. -/
theorem append_lt_append_of_lt {front other : List A} (hlength : front.length = other.length)
    (hlt : front < other) (first second : List A) : front ++ first < other ++ second := by
  induction front generalizing other with
  | nil =>
      rw [List.length_nil, eq_comm, List.length_eq_zero_iff] at hlength
      exact absurd (hlength ▸ hlt) (lt_irrefl _)
  | cons head rest ih =>
      obtain ⟨head', rest', rfl⟩ := List.exists_cons_of_length_eq_add_one hlength.symm
      rw [List.cons_append, List.cons_append, List.cons_lt_cons_iff]
      rcases List.cons_lt_cons_iff.mp hlt with hhead | ⟨hhead, hrest⟩
      · exact Or.inl hhead
      · exact Or.inr ⟨hhead, ih (Nat.succ.inj hlength) hrest⟩

theorem append_lt_append_iff {front other first second : List A}
    (hlength : front.length = other.length) :
    front ++ first < other ++ second ↔ front < other ∨ front = other ∧ first < second := by
  constructor
  · intro hlt
    rcases lt_trichotomy front other with hfront | rfl | hother
    · exact Or.inl hfront
    · exact Or.inr ⟨rfl, append_lt_append_left.mp hlt⟩
    · exact absurd hlt (append_lt_append_of_lt hlength.symm hother second first).asymm
  · rintro (hfront | ⟨rfl, hback⟩)
    · exact append_lt_append_of_lt hlength hfront first second
    · exact append_lt_append_left.mpr hback

end Append

section Digits

variable {A : Type u} (digit : Nat → A) (base : Nat)

/-- The last `width` digits of a number, the first of them first. -/
def digits : Nat → Nat → List A
  | 0, _ => []
  | width + 1, number => digits width (number / base) ++ [digit (number % base)]

@[simp] theorem length_digits (width number : Nat) :
    (digits digit base width number).length = width := by
  induction width generalizing number with
  | zero => rfl
  | succ width ih => rw [digits, List.length_append, ih, List.length_singleton]

theorem digits_mem {width number : Nat} {c : A} (hbase : 0 < base)
    (hmem : c ∈ digits digit base width number) : ∃ value < base, c = digit value := by
  induction width generalizing number with
  | zero => exact absurd hmem List.not_mem_nil
  | succ width ih =>
      rcases List.mem_append.mp hmem with hfront | hlast
      · exact ih hfront
      · exact ⟨number % base, Nat.mod_lt _ hbase, List.mem_singleton.mp hlast⟩

/-- The digits in two parts. -/
theorem digits_add (width more number : Nat) :
    digits digit base (width + more) number =
      digits digit base width (number / base ^ more) ++ digits digit base more number := by
  induction more generalizing number with
  | zero => rw [Nat.add_zero, Nat.pow_zero, Nat.div_one, digits, List.append_nil]
  | succ more ih =>
      rw [← Nat.add_assoc, digits, ih, digits, List.append_assoc, Nat.div_div_eq_div_mul,
        ← Nat.pow_succ']

variable {digit base} [LinearOrder A]

theorem div_mod_lt_iff {first second : Nat} :
    first < second ↔ first / base < second / base ∨
      first / base = second / base ∧ first % base < second % base := by
  have hfirst := Nat.div_add_mod first base
  have hsecond := Nat.div_add_mod second base
  constructor
  · intro hlt
    rcases Nat.lt_or_eq_of_le (Nat.div_le_div_right (c := base) (Nat.le_of_lt hlt)) with
      hdiv | hdiv
    · exact Or.inl hdiv
    · refine Or.inr ⟨hdiv, ?_⟩
      rw [hdiv] at hfirst
      omega
  · rintro (hdiv | ⟨hdiv, hmod⟩)
    · exact Nat.lt_of_div_lt_div hdiv
    · rw [hdiv] at hfirst
      omega

theorem digits_lt_iff (hdigit : ∀ {a b}, a < base → b < base → (digit a < digit b ↔ a < b))
    (hbase : 0 < base) {width first second : Nat} (hfirst : first < base ^ width)
    (hsecond : second < base ^ width) :
    digits digit base width first < digits digit base width second ↔ first < second := by
  induction width generalizing first second with
  | zero =>
      rw [Nat.pow_zero, Nat.lt_one_iff] at hfirst hsecond
      subst hfirst hsecond
      exact iff_of_false (lt_irrefl _) (Nat.lt_irrefl 0)
  | succ width ih =>
      have hdiv : ∀ {number}, number < base ^ (width + 1) → number / base < base ^ width := by
        intro number hnumber
        rw [Nat.div_lt_iff_lt_mul hbase, ← Nat.pow_succ]
        exact hnumber
      have hlast : ∀ {a b}, a < base → b < base → ([digit a] < [digit b] ↔ a < b) := by
        intro a b ha hb
        rw [List.cons_lt_cons_iff, hdigit ha hb]
        simp
      have heq : digits digit base width (first / base) = digits digit base width (second / base) ↔
          first / base = second / base := by
        have hone := ih (hdiv hfirst) (hdiv hsecond)
        have htwo := ih (hdiv hsecond) (hdiv hfirst)
        constructor
        · intro hsame
          rw [hsame, iff_false_left (lt_irrefl _)] at hone
          rw [hsame, iff_false_left (lt_irrefl _)] at htwo
          omega
        · exact fun hsame => by rw [hsame]
      rw [digits, digits, append_lt_append_iff (by simp), ih (hdiv hfirst) (hdiv hsecond), heq,
        hlast (Nat.mod_lt _ hbase) (Nat.mod_lt _ hbase), ← div_mod_lt_iff]

theorem digits_inj (hdigit : ∀ {a b}, a < base → b < base → (digit a < digit b ↔ a < b))
    (hbase : 0 < base) {width first second : Nat} (hfirst : first < base ^ width)
    (hsecond : second < base ^ width)
    (hsame : digits digit base width first = digits digit base width second) :
    first = second := by
  have hone := digits_lt_iff hdigit hbase hfirst hsecond
  have htwo := digits_lt_iff hdigit hbase hsecond hfirst
  rw [hsame, iff_false_left (lt_irrefl _)] at hone
  rw [hsame, iff_false_left (lt_irrefl _)] at htwo
  omega

/-- Numbers one after another, each with its number of digits and what stands
after them. -/
def layOut (digit : Nat → A) (base : Nat) : List (Nat × List A) → List Nat → List A
  | (width, after) :: layout, number :: numbers =>
      digits digit base width number ++ (after ++ layOut digit base layout numbers)
  | _, _ => []

omit [LinearOrder A] in
/-- Each number has no more digits than the layout has for it. -/
abbrev Fits (base : Nat) (layout : List (Nat × List A)) (numbers : List Nat) : Prop :=
  List.Forall₂ (fun slot number => number < base ^ slot.1) layout numbers

theorem layOut_lt_iff (hdigit : ∀ {a b}, a < base → b < base → (digit a < digit b ↔ a < b))
    (hbase : 0 < base) {layout : List (Nat × List A)} {first second : List Nat}
    (hfirst : Fits base layout first) (hsecond : Fits base layout second) :
    layOut digit base layout first < layOut digit base layout second ↔ first < second := by
  induction layout generalizing first second with
  | nil =>
      cases hfirst
      cases hsecond
      exact iff_of_false (lt_irrefl _) (lt_irrefl _)
  | cons slot layout ih =>
      cases hfirst with
      | @cons _ number _ numbers hhead hrest =>
      cases hsecond with
      | @cons _ number' _ numbers' hhead' hrest' =>
      have hsame : digits digit base slot.1 number = digits digit base slot.1 number' ↔
          number = number' :=
        ⟨digits_inj hdigit hbase hhead hhead', fun heq => by rw [heq]⟩
      rw [layOut, layOut, append_lt_append_iff (by simp),
        digits_lt_iff hdigit hbase hhead hhead', append_lt_append_left, ih hrest hrest', hsame,
        List.cons_lt_cons_iff]

omit [LinearOrder A] in
theorem length_layOut (digit : Nat → A) {layout : List (Nat × List A)} {numbers : List Nat}
    (hfits : Fits base layout numbers) :
    (layOut digit base layout numbers).length =
      (layout.map fun slot => slot.1 + slot.2.length).sum := by
  induction hfits with
  | nil => rfl
  | cons hhead hrest ih =>
      rw [layOut, List.length_append, List.length_append, length_digits, ih, List.map_cons,
        List.sum_cons, Nat.add_assoc]

omit [LinearOrder A] in
/-- What holds of the digits and of what stands between them holds of all. -/
theorem layOut_forall (good : A → Prop) (hbase : 0 < base)
    (hdigits : ∀ value < base, good (digit value)) {layout : List (Nat × List A)}
    (hbetween : ∀ slot ∈ layout, ∀ c ∈ slot.2, good c) {numbers : List Nat} {c : A}
    (hmem : c ∈ layOut digit base layout numbers) : good c := by
  induction layout generalizing numbers with
  | nil => exact absurd hmem List.not_mem_nil
  | cons slot layout ih =>
      cases numbers with
      | nil => exact absurd hmem List.not_mem_nil
      | cons number numbers =>
          obtain ⟨hslot, hlayout⟩ := List.forall_mem_cons.mp hbetween
          rw [layOut] at hmem
          rcases List.mem_append.mp hmem with hnumber | hrest
          · obtain ⟨value, hvalue, rfl⟩ := digits_mem digit base hbase hnumber
            exact hdigits value hvalue
          · rcases List.mem_append.mp hrest with hafter | hlater
            · exact hslot c hafter
            · exact ih hlayout hlater

end Digits

section Parts

/-- A number taken apart by weights, and what is left of it. -/
def parts : List Nat → Nat → List Nat
  | [], number => [number]
  | weight :: weights, number => number / weight :: parts weights (number % weight)

theorem parts_lt_iff {weights : List Nat} {first second : Nat} :
    parts weights first < parts weights second ↔ first < second := by
  induction weights generalizing first second with
  | nil => simp [parts, List.cons_lt_cons_iff]
  | cons weight weights ih =>
      rw [parts, parts, List.cons_lt_cons_iff, ih, ← div_mod_lt_iff]

/-- The last of the periods up to `bound` that has begun at `moment`. -/
def lastStart (start : Nat → Nat) (bound moment : Nat) : Nat :=
  Nat.findGreatest (fun period => start period ≤ moment) bound

variable {start : Nat → Nat} {bound moment : Nat}

theorem lastStart_le : lastStart start bound moment ≤ bound := Nat.findGreatest_le bound

theorem start_lastStart_le (hzero : start 0 = 0) : start (lastStart start bound moment) ≤ moment :=
  Nat.findGreatest_spec (P := fun period => start period ≤ moment) (Nat.zero_le bound)
    (by rw [hzero]; exact Nat.zero_le moment)

theorem lt_start_succ_lastStart (hbound : moment < start (bound + 1)) :
    moment < start (lastStart start bound moment + 1) := by
  have hle : lastStart start bound moment ≤ bound := lastStart_le
  rcases Nat.lt_or_eq_of_le hle with hlt | heq
  · exact Nat.lt_of_not_le
      (Nat.findGreatest_is_greatest (P := fun period => start period ≤ moment)
        (Nat.lt_succ_self _) hlt)
  · rw [heq]
    exact hbound

/-- The later of two moments is in a later period, or later in the same. -/
theorem lastStart_lex (start : Nat → Nat) (hzero : start 0 = 0) {bound bound' moment later : Nat}
    (hbound : bound ≤ bound') (hlt : moment < later) :
    lastStart start bound moment < lastStart start bound' later ∨
      lastStart start bound moment = lastStart start bound' later ∧
        moment - start (lastStart start bound moment) <
          later - start (lastStart start bound' later) := by
  have hbegun : start (lastStart start bound moment) ≤ moment := start_lastStart_le hzero
  have hle : lastStart start bound moment ≤ lastStart start bound' later :=
    Nat.le_findGreatest (lastStart_le.trans hbound)
      (hbegun.trans (Nat.le_of_lt hlt))
  rcases Nat.lt_or_eq_of_le hle with hperiod | hperiod
  · exact Or.inl hperiod
  · refine Or.inr ⟨hperiod, ?_⟩
    rw [← hperiod]
    omega

end Parts

end Keeplin
