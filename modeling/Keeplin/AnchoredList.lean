/-
Lists that are changed next to one of their elements.  A list made by inserting
between the elements of a fixed base is the base with a gap at its head and
after each element; an insertion that is anchored at a base element, or in a
gap, changes one gap only.
-/
import Mathlib.Data.List.Nodup
import Mathlib.Data.List.Basic
import Mathlib.Logic.Function.Basic

namespace Keeplin

universe u v

variable {K : Type u} [DecidableEq K]

/-- The position right after the anchor: the head without one, the end when
the list does not have it. -/
def anchorPosition (anchor : Option K) (list : List K) : Nat :=
  match anchor with
  | none => 0
  | some item =>
      match list.findIdx? fun other => other = item with
      | some position => position + 1
      | none => list.length

def spliceAfter (anchor : Option K) (items list : List K) : List K :=
  list.take (anchorPosition anchor list) ++ items ++ list.drop (anchorPosition anchor list)

@[simp] theorem spliceAfter_none (items list : List K) :
    spliceAfter none items list = items ++ list := by
  simp [spliceAfter, anchorPosition]

theorem spliceAfter_some {anchor : K} {before : List K} (items after : List K)
    (hbefore : anchor ∉ before) :
    spliceAfter (some anchor) items (before ++ anchor :: after) =
      before ++ anchor :: (items ++ after) := by
  have hposition : (before ++ anchor :: after).findIdx? (fun other => other = anchor) =
      some before.length := by
    rw [List.findIdx?_append]
    have hnone : before.findIdx? (fun other => other = anchor) = none := by
      rw [List.findIdx?_eq_none_iff]
      intro other hother
      simpa using fun heq : other = anchor => hbefore (heq ▸ hother)
    simp [hnone, List.findIdx?_cons]
  simp only [spliceAfter, anchorPosition, hposition]
  have hsplit : before ++ anchor :: after = (before ++ [anchor]) ++ after := by simp
  have hlength : before.length + 1 = (before ++ [anchor]).length := by simp
  rw [hsplit, hlength, List.take_left, List.drop_left]
  simp

/-- Behind the last element of the front, which may be the head of the list. -/
theorem spliceAfter_getLast? {front back : List K} (items : List K)
    (hnodup : (front ++ back).Nodup) :
    spliceAfter front.getLast? items (front ++ back) = front ++ items ++ back := by
  cases hlast : front.getLast? with
  | none =>
      rw [List.getLast?_eq_none_iff.mp hlast]
      simp
  | some anchor =>
      obtain ⟨before, rfl⟩ := List.getLast?_eq_some_iff.mp hlast
      have hbefore : anchor ∉ before := fun hmem =>
        (List.nodup_append.mp (List.nodup_append.mp hnodup).1).2.2 anchor hmem anchor
          (by simp) rfl
      have hsplit : before ++ [anchor] ++ back = before ++ anchor :: back := by simp
      rw [hsplit, spliceAfter_some _ _ hbefore]
      simp

theorem spliceAfter_perm (anchor : Option K) (items list : List K) :
    (spliceAfter anchor items list).Perm (items ++ list) := by
  rw [spliceAfter]
  refine (List.perm_append_comm.append_right _).trans ?_
  rw [List.append_assoc, List.take_append_drop]

theorem mem_spliceAfter {anchor : Option K} {items list : List K} {item : K} :
    item ∈ spliceAfter anchor items list ↔ item ∈ items ∨ item ∈ list := by
  rw [(spliceAfter_perm anchor items list).mem_iff, List.mem_append]

theorem nodup_spliceAfter {anchor : Option K} {items list : List K} :
    (spliceAfter anchor items list).Nodup ↔ (items ++ list).Nodup :=
  (spliceAfter_perm anchor items list).nodup_iff

/-- The base with a gap at the head and one after each of its elements. -/
def weave (base : List K) (gaps : Option K → List K) : List K :=
  gaps none ++ base.flatMap fun item => item :: gaps (some item)

/-- The gaps of a base: at the head, or after one of its elements. -/
def IsSlot (base : List K) (slot : Option K) : Prop :=
  ∀ item ∈ slot, item ∈ base

omit [DecidableEq K] in
@[simp] theorem weave_empty (base : List K) : (weave base fun _ => []) = base := by
  simp [weave]

omit [DecidableEq K] in
theorem flatMap_congr_of_notMem (base : List K) {slot : Option K}
    {gaps others : Option K → List K} (hsame : ∀ other, other ≠ slot → others other = gaps other)
    (hslot : ∀ item ∈ slot, item ∉ base) :
    (base.flatMap fun item => item :: others (some item)) =
      base.flatMap fun item => item :: gaps (some item) := by
  apply List.flatMap_congr
  intro item hitem
  have hne : some item ≠ slot := fun heq => hslot item heq.symm hitem
  rw [hsame _ hne]

omit [DecidableEq K] in
/-- One gap in its place: what lies around it does not depend on it. -/
theorem weave_split {base : List K} (hbase : base.Nodup) {slot : Option K}
    (hslot : IsSlot base slot) (gaps : Option K → List K) :
    ∃ before after, ∀ others : Option K → List K,
      (∀ other, other ≠ slot → others other = gaps other) →
        weave base others = before ++ (slot.toList ++ others slot) ++ after := by
  cases slot with
  | none =>
      refine ⟨[], base.flatMap fun item => item :: gaps (some item), fun others hsame => ?_⟩
      rw [weave, flatMap_congr_of_notMem _ hsame (by simp)]
      simp
  | some item =>
      obtain ⟨front, back, rfl⟩ := List.append_of_mem (hslot item rfl)
      obtain ⟨hfront, hback, hdisjoint⟩ := List.nodup_append.mp hbase
      refine ⟨gaps none ++ front.flatMap fun item => item :: gaps (some item),
        back.flatMap fun item => item :: gaps (some item), fun others hsame => ?_⟩
      have hitemFront : item ∉ front := fun hmem =>
        hdisjoint item hmem item List.mem_cons_self rfl
      have hitemBack : item ∉ back := (List.nodup_cons.mp hback).1
      rw [weave, List.flatMap_append, List.flatMap_cons,
        flatMap_congr_of_notMem _ hsame (by simpa using hitemFront),
        flatMap_congr_of_notMem _ hsame (by simpa using hitemBack), hsame none (by simp)]
      simp

omit [DecidableEq K] in
theorem mem_weave {base : List K} {gaps : Option K → List K} {item : K} :
    item ∈ weave base gaps ↔
      item ∈ base ∨ ∃ slot, IsSlot base slot ∧ item ∈ gaps slot := by
  simp only [weave, List.mem_append, List.mem_flatMap, List.mem_cons]
  constructor
  · rintro (hhead | ⟨other, hother, rfl | hgap⟩)
    · exact Or.inr ⟨none, by simp [IsSlot], hhead⟩
    · exact Or.inl hother
    · exact Or.inr ⟨some other, by simpa [IsSlot] using hother, hgap⟩
  · rintro (hbase | ⟨slot, hslot, hgap⟩)
    · exact Or.inr ⟨item, hbase, Or.inl rfl⟩
    · cases slot with
      | none => exact Or.inl hgap
      | some other => exact Or.inr ⟨other, hslot other rfl, Or.inr hgap⟩

omit [DecidableEq K] in
/-- Two bases with gaps read the same if they do gap by gap. -/
theorem filterMap_weave_congr {V : Type v} {base : List K} {gaps others : Option K → List K}
    {read read' : K → Option V} (hbase : ∀ item ∈ base, read item = read' item)
    (hgaps : ∀ slot, IsSlot base slot →
      (gaps slot).filterMap read = (others slot).filterMap read') :
    (weave base gaps).filterMap read = (weave base others).filterMap read' := by
  have hitems : ∀ back : List K, (∀ item ∈ back, item ∈ base) →
      (back.flatMap fun item => item :: gaps (some item)).filterMap read =
        (back.flatMap fun item => item :: others (some item)).filterMap read' := by
    intro back hback
    induction back with
    | nil => rfl
    | cons item rest ih =>
        have hitem := hback item List.mem_cons_self
        rw [List.flatMap_cons, List.flatMap_cons, List.filterMap_append, List.filterMap_append,
          ih fun other hother => hback other (List.mem_cons_of_mem _ hother),
          List.filterMap_cons, List.filterMap_cons, hbase item hitem,
          hgaps (some item) (by simpa [IsSlot] using hitem)]
  rw [weave, weave, List.filterMap_append, List.filterMap_append,
    hgaps none (by simp [IsSlot]), hitems base fun _ hitem => hitem]

/-- An insertion next to a base element, or in one's own part of a gap, grows
that part of one gap, whatever the gaps hold behind it. -/
theorem spliceAfter_weave {base : List K} (hbase : base.Nodup) {anchor : Option K}
    {own : Option K → List K} (hanchor : ∀ found ∈ anchor, found ∈ weave base own) (item : K) :
    ∃ slot grown, IsSlot base slot ∧ grown.Perm (item :: own slot) ∧
      ∀ rest : Option K → List K, (weave base fun place => own place ++ rest place).Nodup →
        spliceAfter anchor [item] (weave base fun place => own place ++ rest place) =
          weave base fun place => Function.update own slot grown place ++ rest place := by
  cases anchor with
  | none =>
      refine ⟨none, item :: own none, by simp [IsSlot], .refl _, fun rest _ => ?_⟩
      have hothers : ∀ other, other ≠ none →
          Function.update own none (item :: own none) other ++ rest other =
            own other ++ rest other := fun other hother => by
        rw [Function.update_of_ne hother]
      have htail := flatMap_congr_of_notMem base hothers (by simp)
      rw [spliceAfter_none, weave, weave, htail, Function.update_self]
      rfl
  | some found =>
      have hsplice : ∀ slot front back grown, IsSlot base slot →
          (∀ rest : List K, slot.toList ++ (own slot ++ rest) = front ++ found :: (back ++ rest)) →
          (∀ rest : List K, slot.toList ++ (grown ++ rest) =
            front ++ found :: item :: (back ++ rest)) →
          ∀ rest : Option K → List K, (weave base fun place => own place ++ rest place).Nodup →
            spliceAfter (some found) [item] (weave base fun place => own place ++ rest place) =
              weave base fun place => Function.update own slot grown place ++ rest place := by
        intro slot front back grown hslot hbefore hafter rest hnodup
        obtain ⟨before, after, hweave⟩ :=
          weave_split hbase hslot fun place => own place ++ rest place
        have hown := hweave _ fun _ _ => rfl
        have hgrown := hweave (fun place => Function.update own slot grown place ++ rest place)
          fun other hother => by rw [Function.update_of_ne hother]
        rw [hbefore] at hown
        simp only [Function.update_self, hafter] at hgrown
        have hplace : weave base (fun place => own place ++ rest place) =
            (before ++ front) ++ found :: (back ++ rest slot ++ after) := by
          rw [hown]
          simp
        rw [hplace] at hnodup ⊢
        have hmissing : found ∉ before ++ front := fun hmem =>
          (List.nodup_append.mp hnodup).2.2 found hmem found List.mem_cons_self rfl
        rw [spliceAfter_some _ _ hmissing, hgrown]
        simp
      rcases mem_weave.mp (hanchor found rfl) with hfound | ⟨slot, hslot, hgap⟩
      · refine ⟨some found, item :: own (some found), by simpa [IsSlot] using hfound, .refl _, ?_⟩
        exact hsplice (some found) [] (own (some found)) _ (by simpa [IsSlot] using hfound)
          (fun _ => rfl) (fun _ => rfl)
      · obtain ⟨front, back, hsplit⟩ := List.append_of_mem hgap
        refine ⟨slot, front ++ found :: item :: back, hslot, ?_, ?_⟩
        · rw [hsplit]
          have hshift : (front ++ [found] ++ item :: back).Perm
              (item :: (front ++ [found] ++ back)) := List.perm_middle
          simpa using hshift
        · refine hsplice slot (slot.toList ++ front) back _ hslot ?_ ?_
          · intro rest
            rw [hsplit]
            simp
          · intro rest
            simp

/-- The elements right after the anchor that the base does not have. -/
def gapAfter (base list : List K) (slot : Option K) : List K :=
  (match slot with
    | none => list
    | some item => (list.dropWhile fun other => other ≠ item).drop 1).takeWhile
      fun other => other ∉ base

/-- The gaps can be read off the list. -/
theorem gapAfter_weave {base : List K} (hbase : base.Nodup) {gaps : Option K → List K}
    (hgaps : ∀ slot, ∀ item ∈ gaps slot, item ∉ base) {slot : Option K}
    (hslot : IsSlot base slot) : gapAfter base (weave base gaps) slot = gaps slot := by
  have htake : ∀ (place : Option K) (rest : List K), (∀ next ∈ rest.head?, next ∈ base) →
      (gaps place ++ rest).takeWhile (fun other => other ∉ base) = gaps place := by
    intro place rest hrest
    rw [List.takeWhile_append_of_pos fun item hitem => by simpa using hgaps place item hitem]
    cases rest with
    | nil => simp
    | cons next back =>
        have hnext : next ∈ base := hrest next rfl
        simp [hnext]
  have hhead : ∀ back : List K, (∀ item ∈ back, item ∈ base) →
      ∀ next ∈ (back.flatMap fun item => item :: gaps (some item)).head?, next ∈ base := by
    intro back hback next hnext
    cases back with
    | nil => simp at hnext
    | cons first rest =>
        simp only [List.flatMap_cons, List.cons_append, List.head?_cons, Option.mem_def,
          Option.some.injEq] at hnext
        exact hnext ▸ hback first List.mem_cons_self
  cases slot with
  | none => exact htake none _ (hhead base fun _ hitem => hitem)
  | some item =>
      obtain ⟨front, back, hsplit⟩ := List.append_of_mem (hslot item rfl)
      have hnodup := hsplit ▸ hbase
      have hfront : item ∉ front := fun hmem =>
        (List.nodup_append.mp hnodup).2.2 item hmem item List.mem_cons_self rfl
      have hbefore : ∀ other ∈ gaps none ++ front.flatMap fun item => item :: gaps (some item),
          other ≠ item := by
        intro other hother heq
        rw [heq] at hother
        rcases List.mem_append.mp hother with hgap | hrest
        · exact hgaps none item hgap (hslot item rfl)
        · obtain ⟨place, hplace, hmem⟩ := List.mem_flatMap.mp hrest
          rcases List.mem_cons.mp hmem with rfl | hgap
          · exact hfront hplace
          · exact hgaps _ item hgap (hslot item rfl)
      have hweave : weave base gaps =
          (gaps none ++ front.flatMap fun item => item :: gaps (some item)) ++
            item :: (gaps (some item) ++ back.flatMap fun item => item :: gaps (some item)) := by
        rw [weave, hsplit]
        simp
      simp only [gapAfter]
      rw [hweave, List.dropWhile_append_of_pos (by simpa using hbefore)]
      simp only [ne_eq, not_true_eq_false, decide_false, Bool.false_eq_true, not_false_eq_true,
        List.dropWhile_cons_of_neg, List.drop_succ_cons, List.drop_zero]
      exact htake (some item) _ (hhead back fun other hother => hsplit ▸ by simp [hother])

end Keeplin
