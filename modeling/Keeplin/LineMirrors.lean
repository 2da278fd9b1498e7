/-
A mirror of a note's lines under any operations, also repeated or malformed
ones.  An insertion does not look whether its line is there, so a repeated one
lists the line twice; no other operation notices that it is repeated, and a move
lists a line twice only if it names it twice.
-/
import Mathlib.Data.List.Infix
import Mathlib.Data.List.Induction
import Mathlib.Algebra.BigOperators.Group.List.Basic
import Mathlib.Algebra.GroupWithZero.Nat
import Keeplin.NoteLines

namespace Keeplin

namespace LineOp

/-- What an operation must meet for a mirror to list no line twice after it. -/
def KeepsDistinct (lines : NoteLines) : LineOp → Prop
  | .insert _ lineId _ _ _ _ => lineId ∉ lines.order
  | .move lineIds _ _ _ _ => lineIds.Nodup
  | _ => True

instance decidableKeepsDistinct (lines : NoteLines) :
    ∀ op : LineOp, Decidable (op.KeepsDistinct lines)
  | .insert _ lineId _ _ _ _ => inferInstanceAs (Decidable (lineId ∉ lines.order))
  | .move lineIds _ _ _ _ => inferInstanceAs (Decidable lineIds.Nodup)
  | .update _ _ _ _ _ => .isTrue trivial
  | .delete _ _ _ _ _ => .isTrue trivial

def isInsert : LineOp → Bool
  | .insert _ _ _ _ _ _ => true
  | _ => false

end LineOp

namespace NoteLines

variable {lines : NoteLines} {op : LineOp} {ops : List LineOp}

/-- The order lists no line twice, after any of the operations. -/
def StaysDistinct (lines : NoteLines) (ops : List LineOp) : Prop :=
  ∀ front op, front ++ [op] <+: ops → ((lines.applyAll front).apply op).order.Nodup

/-- An operation that comes a second time does not change the text. -/
def TextRepeatable (lines : NoteLines) (op : LineOp) : Prop :=
  ((lines.apply op).apply op).materialize = (lines.apply op).materialize

theorem nodup_apply_iff (hnodup : lines.order.Nodup) :
    (lines.apply op).order.Nodup ↔ op.KeepsDistinct lines := by
  cases op with
  | insert afterLineId lineId content vv lastWriter updatedAt =>
      rw [apply, nodup_spliceAfter, List.singleton_append, List.nodup_cons]
      exact and_iff_left hnodup
  | update lineId content vv lastWriter updatedAt =>
      rw [apply, order_modifyLine]
      exact iff_of_true hnodup trivial
  | delete lineId deletedAt vv lastWriter updatedAt =>
      rw [apply, order_modifyLine]
      exact iff_of_true hnodup trivial
  | move lineIds afterLineId vv lastWriter updatedAt =>
      rw [apply, nodup_spliceAfter, List.nodup_append]
      constructor
      · exact fun hparts => hparts.1
      · intro hids
        refine ⟨hids, hnodup.filter _, ?_⟩
        rintro id hid other hother rfl
        have hother := (List.mem_filter.mp hother).2
        simp [hid] at hother

theorem length_joinLines {contents : List String} (hnonempty : contents ≠ []) :
    (joinLines contents).length + 1 = (contents.map fun content => content.length + 1).sum := by
  rw [joinLines, String.length_ofList]
  induction contents with
  | nil => exact absurd rfl hnonempty
  | cons content rest ih =>
      cases rest with
      | nil => simp [List.intercalate, String.length_toList]
      | cons next rest =>
          have hrest := ih (List.cons_ne_nil next rest)
          simp only [List.map_cons, List.sum_cons, List.intercalate, List.intersperse_cons_cons,
            List.flatten_cons, List.length_append, String.length_toList,
            List.length_singleton] at hrest ⊢
          omega

theorem textRepeatable_modifyLine {lineId : Uuid} {change : LineSnapshot → LineSnapshot}
    (hcontent : ∀ line, (change (change line)).content = (change line).content)
    (hdeleted : ∀ line, (change (change line)).deletedAt = (change line).deletedAt) :
    ((lines.modifyLine lineId change).modifyLine lineId change).materialize =
      (lines.modifyLine lineId change).materialize := by
  rw [materialize_eq, materialize_eq, order_modifyLine]
  congr 1
  apply List.filterMap_congr
  intro id _
  rw [shown, shown, getElem?_modifyLine]
  split
  · next heq =>
      rw [getElem?_modifyLine, if_pos heq]
      cases lines.lines[id]? with
      | none => rfl
      | some line =>
          simp only [Option.map_some, Option.bind_some, hcontent, hdeleted]
  · rfl

theorem spliceAfter_filter_filter (anchor : Option Uuid) (items order : List Uuid) :
    spliceAfter anchor items
        ((spliceAfter anchor items (order.filter fun id => !items.contains id)).filter
          fun id => !items.contains id) =
      spliceAfter anchor items (order.filter fun id => !items.contains id) := by
  have hitems : items.filter (fun id => !items.contains id) = [] := by
    rw [List.filter_eq_nil_iff]
    intro id hid
    simp [hid]
  generalize hkept : order.filter (fun id => !items.contains id) = kept
  have hsame : kept.filter (fun id => !items.contains id) = kept := by
    rw [← hkept, List.filter_filter]
    simp only [Bool.and_self]
  congr 1
  -- The part before the anchor and the part after it stay whole.
  rw [spliceAfter, List.filter_append, List.filter_append, hitems, List.append_nil,
    ← List.filter_append, List.take_append_drop, hsame]

/-- The second insertion lists the line, and shows it, once more. -/
theorem not_textRepeatable_insert (afterLineId : Option Uuid) (lineId : Uuid) (content : String)
    (vv : VersionVector) (lastWriter : String) (updatedAt : DateTime) :
    ¬ lines.TextRepeatable (.insert afterLineId lineId content vv lastWriter updatedAt) := by
  generalize hop : LineOp.insert afterLineId lineId content vv lastWriter updatedAt = op
  generalize hfirst : lines.apply op = first
  have hshownFirst : first.shown lineId = some content := by
    rw [← hfirst, ← hop, shown_insert]
  have hshown : (first.apply op).shown = first.shown := by
    funext id
    by_cases hid : lineId = id
    · rw [← hid, hshownFirst, ← hop, shown_insert]
    · have hne : op.lineId ≠ some id := by
        rw [← hop]
        exact fun heq => hid (Option.some.inj heq)
      exact shown_apply_of_ne hne
  have horder : (first.apply op).order.Perm (lineId :: first.order) := by
    rw [← hop]
    exact spliceAfter_perm afterLineId [lineId] first.order
  have hcontents : ((first.apply op).order.filterMap (first.apply op).shown).Perm
      (content :: first.order.filterMap first.shown) := by
    rw [hshown]
    refine (horder.filterMap _).trans (List.Perm.of_eq ?_)
    rw [List.filterMap_cons_some hshownFirst]
  have hmem : content ∈ first.order.filterMap first.shown := by
    refine List.mem_filterMap.mpr ⟨lineId, ?_, hshownFirst⟩
    rw [← hfirst, ← hop]
    exact mem_spliceAfter.mpr (Or.inl (List.mem_singleton_self lineId))
  intro hsame
  rw [TextRepeatable, hfirst, materialize_eq, materialize_eq] at hsame
  have hlength : _ + 1 = _ + 1 := congrArg (fun text => text.length + 1) hsame
  rw [length_joinLines (List.ne_nil_of_mem hmem),
    length_joinLines (List.ne_nil_of_mem (hcontents.mem_iff.mpr List.mem_cons_self)),
    (hcontents.map _).sum_eq, List.map_cons, List.sum_cons] at hlength
  omega

theorem textRepeatable_iff : lines.TextRepeatable op ↔ op.isInsert = false := by
  cases op with
  | insert afterLineId lineId content vv lastWriter updatedAt =>
      refine iff_of_false ?_ Bool.noConfusion
      exact not_textRepeatable_insert afterLineId lineId content vv lastWriter updatedAt
  | update lineId content vv lastWriter updatedAt =>
      refine iff_of_true ?_ rfl
      exact textRepeatable_modifyLine (fun _ => rfl) fun _ => rfl
  | delete lineId deletedAt vv lastWriter updatedAt =>
      refine iff_of_true ?_ rfl
      exact textRepeatable_modifyLine (fun _ => rfl) fun _ => rfl
  | move lineIds afterLineId vv lastWriter updatedAt =>
      refine iff_of_true ?_ rfl
      have horder := spliceAfter_filter_filter afterLineId lineIds lines.order
      rw [TextRepeatable, materialize_eq, materialize_eq]
      simp only [apply]
      rw [horder]
      rfl

theorem staysDistinct_iff (hnodup : lines.order.Nodup) :
    lines.StaysDistinct ops ↔
      ∀ front op, front ++ [op] <+: ops → op.KeepsDistinct (lines.applyAll front) := by
  constructor
  · intro hstays front op hprefix
    refine (nodup_apply_iff ?_).mp (hstays front op hprefix)
    rcases List.eq_nil_or_concat front with rfl | ⟨earlier, last, rfl⟩
    · exact hnodup
    · rw [List.concat_eq_append] at hprefix ⊢
      rw [applyAll_append]
      exact hstays earlier last ((List.prefix_append _ _).trans hprefix)
  · intro hkeeps front op hprefix
    refine (nodup_apply_iff ?_).mpr (hkeeps front op hprefix)
    have hfront : front <+: ops := (List.prefix_append _ _).trans hprefix
    clear hprefix
    induction front using List.reverseRecOn with
    | nil => exact hnodup
    | append_singleton earlier last ih =>
        rw [applyAll_append]
        exact (nodup_apply_iff (ih ((List.prefix_append _ _).trans hfront))).mpr
          (hkeeps earlier last hfront)

/-- Exactly the insertions of listed lines and the moves that name a line twice
list a line twice, and exactly the insertions change the text when they are
repeated. -/
theorem fromSnapshot_wellFormed_iff (snapshot : NoteLinesSnapshot) (ops : List LineOp)
    (hnodup : snapshot.order.Nodup) :
    ((fromSnapshot snapshot).StaysDistinct ops ↔ ∀ front op, front ++ [op] <+: ops →
        op.KeepsDistinct ((fromSnapshot snapshot).applyAll front)) ∧
      ((∀ front op, front ++ [op] <+: ops →
          ((fromSnapshot snapshot).applyAll front).TextRepeatable op) ↔
        ∀ op ∈ ops, op.isInsert = false) := by
  refine ⟨staysDistinct_iff hnodup, ?_⟩
  constructor
  · intro hrepeatable op hop
    obtain ⟨front, back, rfl⟩ := List.append_of_mem hop
    exact textRepeatable_iff.mp (hrepeatable front op ⟨back, by simp⟩)
  · intro hinsert front op hfront
    exact textRepeatable_iff.mpr
      (hinsert op (hfront.subset (List.mem_append_right front (List.mem_singleton_self op))))

namespace EchoedInsert

def snapshot : NoteLinesSnapshot :=
  { noteId := 7, order := [], updatedAt := 1, vv := ∅, lastWriter := "A", lines := [] }

def insertion : LineOp := .insert none 1 "milk" (.ofList [("A", 1)]) "A" 2

def steps : List LineOp :=
  [insertion, .update 1 "bread" (.ofList [("A", 1)]) "A" 3, .move [1, 5] (some 5) ∅ "A" 4]

theorem fromSnapshot_wellFormed_iff_steps :
    (fromSnapshot snapshot).StaysDistinct steps ∧
      ¬ ∀ front op, front ++ [op] <+: steps →
        ((fromSnapshot snapshot).applyAll front).TextRepeatable op := by
  obtain ⟨hdistinct, hrepeatable⟩ := fromSnapshot_wellFormed_iff snapshot steps (by decide)
  constructor
  · refine hdistinct.mpr fun front op hprefix => ?_
    have hmem : front ++ [op] ∈ steps.inits := (List.mem_inits _ _).mpr hprefix
    have hkeeps : ∀ listed ∈ steps.inits, ∀ last ∈ listed.getLast?,
        last.KeepsDistinct ((fromSnapshot snapshot).applyAll listed.dropLast) := by decide
    have hop := hkeeps _ hmem op (by rw [List.getLast?_concat]; rfl)
    rwa [List.dropLast_concat] at hop
  · intro hall
    exact absurd (hrepeatable.mp hall insertion List.mem_cons_self) (by decide)

/-- The order lists the line twice, and the text shows it twice. -/
theorem insertion_listed_twice :
    ¬ ∀ (snapshot : NoteLinesSnapshot) (ops : List LineOp), snapshot.order.Nodup →
      (fromSnapshot snapshot).StaysDistinct ops ∧
        ∀ front op, front ++ [op] <+: ops →
          ((fromSnapshot snapshot).applyAll front).TextRepeatable op := by
  intro hclaim
  obtain ⟨hdistinct, _⟩ := hclaim snapshot [insertion, insertion] (by decide)
  exact absurd (hdistinct [insertion] insertion (List.prefix_refl _)) (by decide)

end EchoedInsert

end NoteLines

end Keeplin
