/-
A collaborative note as its lines: an order of line ids, tombstones included,
and a table of the lines themselves.  Operations change one line, or the order.
-/
import Keeplin.Models
import Keeplin.AnchoredList
import Keeplin.Format

namespace Keeplin

open VersionVector

structure LineSnapshot where
  id : Uuid
  content : String
  createdAt : DateTime
  updatedAt : DateTime
  deletedAt : Option DateTime
  vv : VersionVector
  lastWriter : String
deriving DecidableEq

/-- The full state of a note's lines, as a server sends it. -/
structure NoteLinesSnapshot where
  noteId : Uuid
  order : List Uuid
  updatedAt : DateTime
  vv : VersionVector
  lastWriter : String
  lines : List LineSnapshot
deriving DecidableEq

inductive LineOp where
  | insert (afterLineId : Option Uuid) (lineId : Uuid) (content : String)
      (vv : VersionVector) (lastWriter : String) (updatedAt : DateTime)
  | update (lineId : Uuid) (content : String) (vv : VersionVector) (lastWriter : String)
      (updatedAt : DateTime)
  | delete (lineId : Uuid) (deletedAt : DateTime) (vv : VersionVector)
      (lastWriter : String) (updatedAt : DateTime)
  | move (lineIds : List Uuid) (afterLineId : Option Uuid) (vv : VersionVector)
      (lastWriter : String) (updatedAt : DateTime)
deriving DecidableEq

abbrev LineTable := Std.ExtTreeMap Uuid LineSnapshot compare

structure NoteLines where
  order : List Uuid
  lines : LineTable
  vv : VersionVector
deriving DecidableEq

def mergeInto (target other : VersionVector) : VersionVector :=
  other.toList.foldl
    (fun target entry =>
      let current := target.getD entry.1 0
      target.insert entry.1 (if current < entry.2 then entry.2 else current)) target

def bump (vv : VersionVector) (device : String) : VersionVector :=
  vv.insert device (vv.getD device 0 + 1)

/-- The line an operation writes; a move writes none. -/
def LineOp.lineId : LineOp → Option Uuid
  | .insert _ lineId _ _ _ _ => some lineId
  | .update lineId _ _ _ _ => some lineId
  | .delete lineId _ _ _ _ => some lineId
  | .move _ _ _ _ _ => none

namespace NoteLines

/-- A note without lines. -/
def empty : NoteLines := ⟨[], ∅, ∅⟩

def fromSnapshot (snapshot : NoteLinesSnapshot) : NoteLines where
  order := snapshot.order
  lines := snapshot.lines.foldl (fun table line => table.insert line.id line) ∅
  vv := snapshot.vv

variable (lines : NoteLines)

def materialize : String :=
  joinLines (((lines.order.filterMap fun id => lines.lines[id]?).filter fun line =>
    line.deletedAt.isNone).map LineSnapshot.content)

def live : List Uuid :=
  lines.order.filter fun id => lines.lines[id]?.any fun line => line.deletedAt.isNone

/-- Change a line, if there is one. -/
def modifyLine (id : Uuid) (change : LineSnapshot → LineSnapshot) : NoteLines :=
  match lines.lines[id]? with
  | some line => { lines with lines := lines.lines.insert id (change line) }
  | none => lines

def apply : LineOp → NoteLines
  | .insert afterLineId lineId content vv lastWriter updatedAt =>
      { order := spliceAfter afterLineId [lineId] lines.order
        lines := lines.lines.insert lineId
          { id := lineId, content, createdAt := updatedAt, updatedAt, deletedAt := none, vv,
            lastWriter }
        vv := mergeInto lines.vv vv }
  | .update lineId content vv lastWriter updatedAt =>
      lines.modifyLine lineId fun line =>
        { line with
          content, updatedAt, deletedAt := none, vv := mergeInto line.vv vv, lastWriter }
  | .delete lineId deletedAt vv lastWriter updatedAt =>
      lines.modifyLine lineId fun line =>
        { line with
          deletedAt := some deletedAt, updatedAt, vv := mergeInto line.vv vv, lastWriter }
  | .move lineIds afterLineId vv _ _ =>
      { lines with
        order := spliceAfter afterLineId lineIds
          (lines.order.filter fun id => !lineIds.contains id)
        vv := mergeInto lines.vv vv }

def applyAll (ops : List LineOp) : NoteLines :=
  ops.foldl NoteLines.apply lines

/-- What a reader sees of a line: its content, unless it is missing or deleted. -/
def shown (id : Uuid) : Option String :=
  lines.lines[id]?.bind fun line => if line.deletedAt.isNone then some line.content else none

@[simp] theorem applyAll_nil : lines.applyAll [] = lines := rfl

@[simp] theorem applyAll_cons (op : LineOp) (ops : List LineOp) :
    lines.applyAll (op :: ops) = (lines.apply op).applyAll ops := rfl

theorem applyAll_append (first second : List LineOp) :
    lines.applyAll (first ++ second) = (lines.applyAll first).applyAll second :=
  List.foldl_append

theorem filter_isSome_shown (ids : List Uuid) :
    (ids.filter fun id => lines.lines[id]?.any fun line => line.deletedAt.isNone) =
      ids.filter fun id => (lines.shown id).isSome := by
  apply List.filter_congr
  intro id _
  simp only [shown]
  cases lines.lines[id]? with
  | none => rfl
  | some line => cases hdeleted : line.deletedAt <;> simp [hdeleted]

/-- A body is what its order shows. -/
theorem materialize_eq : lines.materialize = joinLines (lines.order.filterMap lines.shown) := by
  simp only [materialize]
  congr 1
  induction lines.order with
  | nil => rfl
  | cons id rest ih =>
      simp only [List.filterMap_cons, shown] at ih ⊢
      cases lines.lines[id]? with
      | none => simpa using ih
      | some line => cases hdeleted : line.deletedAt <;> simpa [hdeleted] using ih

theorem mem_live {id : Uuid} :
    id ∈ lines.live ↔ id ∈ lines.order ∧ (lines.shown id).isSome = true := by
  rw [live, filter_isSome_shown, List.mem_filter]

theorem live_sublist : lines.live.Sublist lines.order :=
  List.filter_sublist

/-- Only live lines show. -/
theorem filterMap_shown_live : lines.live.filterMap lines.shown =
    lines.order.filterMap lines.shown := by
  rw [live, filter_isSome_shown, List.filterMap_filter]
  apply List.filterMap_congr
  intro id _
  cases lines.shown id <;> rfl

section Apply

variable {lines} {op : LineOp} {id : Uuid}

theorem getElem?_modifyLine (lineId : Uuid) (change : LineSnapshot → LineSnapshot) (id : Uuid) :
    (lines.modifyLine lineId change).lines[id]? =
      if lineId = id then lines.lines[id]?.map change else lines.lines[id]? := by
  simp only [modifyLine]
  split
  · next line hline =>
      rw [Std.ExtTreeMap.getElem?_insert]
      simp only [Std.LawfulEqCmp.compare_eq_iff_eq]
      split
      · next heq => rw [← heq, hline, Option.map_some]
      · rfl
  · next hline =>
      split
      · next heq => rw [← heq, hline, Option.map_none]
      · rfl

@[simp] theorem order_modifyLine (lineId : Uuid) (change : LineSnapshot → LineSnapshot) :
    (lines.modifyLine lineId change).order = lines.order := by
  simp only [modifyLine]
  split <;> rfl

/-- An operation leaves the other lines alone. -/
theorem getElem?_apply_of_ne (hne : op.lineId ≠ some id) :
    (lines.apply op).lines[id]? = lines.lines[id]? := by
  cases op with
  | insert afterLineId lineId content vv lastWriter updatedAt =>
      have hid : lineId ≠ id := fun heq => hne (congrArg some heq)
      simp [apply, Std.ExtTreeMap.getElem?_insert, hid]
  | update lineId content vv lastWriter updatedAt =>
      have hid : lineId ≠ id := fun heq => hne (congrArg some heq)
      rw [apply, getElem?_modifyLine, if_neg hid]
  | delete lineId deletedAt vv lastWriter updatedAt =>
      have hid : lineId ≠ id := fun heq => hne (congrArg some heq)
      rw [apply, getElem?_modifyLine, if_neg hid]
  | move lineIds afterLineId vv lastWriter updatedAt => rfl

theorem shown_apply_of_ne (hne : op.lineId ≠ some id) :
    (lines.apply op).shown id = lines.shown id := by
  rw [shown, getElem?_apply_of_ne hne, shown]

theorem isSome_of_shown (hshown : (lines.shown id).isSome = true) :
    lines.lines[id]?.isSome = true := by
  cases hline : lines.lines[id]? with
  | none => simp [shown, hline] at hshown
  | some line => rfl

@[simp] theorem shown_insert (afterLineId : Option Uuid) (lineId : Uuid) (content : String)
    (vv : VersionVector) (lastWriter : String) (updatedAt : DateTime) :
    (lines.apply (.insert afterLineId lineId content vv lastWriter updatedAt)).shown lineId =
      some content := by
  simp [apply, shown]

theorem shown_update (content : String) (vv : VersionVector) (lastWriter : String)
    (updatedAt : DateTime) (hline : lines.lines[id]?.isSome = true) :
    (lines.apply (.update id content vv lastWriter updatedAt)).shown id = some content := by
  obtain ⟨line, hline⟩ := Option.isSome_iff_exists.mp hline
  rw [shown, apply, getElem?_modifyLine, if_pos rfl, hline]
  rfl

theorem shown_delete (deletedAt : DateTime) (vv : VersionVector) (lastWriter : String)
    (updatedAt : DateTime) :
    (lines.apply (.delete id deletedAt vv lastWriter updatedAt)).shown id = none := by
  rw [shown, apply, getElem?_modifyLine, if_pos rfl]
  cases lines.lines[id]? <;> rfl

end Apply

end NoteLines

end Keeplin
