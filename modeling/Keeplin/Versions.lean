/-
What conflict resolution sees of an entity: a version with its vector, instant,
writer and liveness, kept in a slot of a store.  A change replaces the slot
when its version wins, which makes a slot a register fed with changes.
-/
import Keeplin.NoteLog
import Keeplin.WinnerRegister

namespace Keeplin

open VersionVector

/-- The things a store keeps one version of. -/
inductive Entity where
  | note (id : Uuid)
  | notebook (id : Uuid)
  | tag (id : Uuid)
  | noteTag (noteId tagId : Uuid)
  | resource (id : Uuid)
deriving DecidableEq, Repr

structure Version where
  vv : VersionVector
  timestamp : DateTime
  writer : String
  live : Bool
deriving DecidableEq

/-- What a store has for an entity.  Only a sidecar file can be unreadable. -/
inductive Slot where
  | missing
  | unreadable
  | stored (version : Version)
deriving DecidableEq

/-- Does an incoming version replace what the slot has?  Nothing is replaced
where the stored version cannot be read: the call fails. -/
def Version.beats (incoming : Version) : Slot → Bool
  | .missing => true
  | .unreadable => false
  | .stored current =>
      resolve current.vv current.timestamp current.writer
        incoming.vv incoming.timestamp incoming.writer = .incoming

/-- The vector a local write starts from. -/
def Slot.vv : Slot → VersionVector
  | .missing => ∅
  | .unreadable => ∅
  | .stored version => version.vv

def Note.version (note : Note) : Version :=
  ⟨note.vv, note.updatedAt, note.lastWriter, note.deletedAt.isNone⟩

def Notebook.version (notebook : Notebook) : Version :=
  ⟨notebook.vv, notebook.updatedAt, notebook.lastWriter, notebook.deletedAt.isNone⟩

def Tag.version (tag : Tag) : Version :=
  ⟨tag.vv, tag.updatedAt, tag.lastWriter, tag.deletedAt.isNone⟩

/-- A resource has no update instant: it counts as written when it was deleted
or else created. -/
def Resource.version (resource : Resource) : Version :=
  ⟨resource.vv, resource.deletedAt.getD resource.createdAt, resource.lastWriter,
    resource.deletedAt.isNone⟩

namespace Change

def entity : Change → Entity
  | noteCreate note => .note note.id
  | noteUpdate note => .note note.id
  | noteDelete id _ _ _ => .note id
  | notebookCreate notebook => .notebook notebook.id
  | notebookUpdate notebook => .notebook notebook.id
  | notebookDelete id _ _ _ => .notebook id
  | tagCreate tag => .tag tag.id
  | tagUpdate tag => .tag tag.id
  | tagDelete id _ _ _ => .tag id
  | noteTagAdd noteId tagId _ _ _ => .noteTag noteId tagId
  | noteTagRemove noteId tagId _ _ _ => .noteTag noteId tagId
  | resourceCreate resource _ => .resource resource.id
  | resourceDelete id _ _ _ => .resource id

def version : Change → Version
  | noteCreate note => note.version
  | noteUpdate note => note.version
  | noteDelete _ deletedAt vv lastWriter => ⟨vv, deletedAt, lastWriter, false⟩
  | notebookCreate notebook => notebook.version
  | notebookUpdate notebook => notebook.version
  | notebookDelete _ deletedAt vv lastWriter => ⟨vv, deletedAt, lastWriter, false⟩
  | tagCreate tag => tag.version
  | tagUpdate tag => tag.version
  | tagDelete _ deletedAt vv lastWriter => ⟨vv, deletedAt, lastWriter, false⟩
  | noteTagAdd _ _ updatedAt vv lastWriter => ⟨vv, updatedAt, lastWriter, true⟩
  | noteTagRemove _ _ updatedAt vv lastWriter => ⟨vv, updatedAt, lastWriter, false⟩
  | resourceCreate resource _ => resource.version
  | resourceDelete _ deletedAt vv lastWriter => ⟨vv, deletedAt, lastWriter, false⟩

end Change

/-- A slot as a register of the changes delivered for its entity. -/
def slotRegister : WinnerRegister Change Slot where
  wins := fun change slot => change.version.beats slot
  put := fun change => .stored change.version

section Beats

@[simp] theorem Version.beats_missing (version : Version) :
    version.beats .missing = true := rfl

theorem Version.beats_stored_iff {incoming current : Version} :
    incoming.beats (.stored current) = true ↔
      resolve current.vv current.timestamp current.writer
        incoming.vv incoming.timestamp incoming.writer = .incoming := by
  simp [Version.beats]

/-- A version never replaces one whose vector dominates it. -/
theorem Version.not_beats_of_dominated {incoming current : Version}
    (hdom : dominates current.vv incoming.vv = true) :
    incoming.beats (.stored current) = false := by
  simp [Version.beats, resolve_of_dominated hdom]

theorem Version.not_beats_self (version : Version) :
    version.beats (.stored version) = false :=
  version.not_beats_of_dominated (dominates_refl version.vv)

theorem Version.not_dominates_of_beats {incoming current : Version}
    (hbeats : incoming.beats (.stored current) = true) :
    dominates current.vv incoming.vv = false :=
  not_dominates_of_resolve (Version.beats_stored_iff.mp hbeats)

/-- A later version replaces any whose vector does not dominate its own. -/
theorem Version.beats_of_later {incoming current : Version}
    (hnot : dominates current.vv incoming.vv = false)
    (hlater : current.timestamp < incoming.timestamp) :
    incoming.beats (.stored current) = true := by
  rw [Version.beats_stored_iff]
  by_cases hdom : dominates incoming.vv current.vv = true
  · exact resolve_of_dominates hdom hnot
  · exact (resolve_of_concurrent (by simpa using hdom) hnot).mpr (Or.inl hlater)

end Beats

theorem slotRegister_put_injective {first second : Change}
    (hput : slotRegister.put first = slotRegister.put second) :
    first.version = second.version :=
  Slot.stored.inj hput

theorem slotRegister_not_wins_self (change : Change) :
    slotRegister.wins change (slotRegister.put change) = false :=
  change.version.not_beats_self

/-- When distinct changes carry distinct vectors, the delivery order stops
mattering exactly where the slot settles. -/
theorem slotRegister_converges_iff {slot : Slot} {changes : List Change}
    (hdistinct : ∀ first ∈ changes, ∀ second ∈ changes,
      first.version.vv = second.version.vv → first = second) :
    slotRegister.Converges slot changes ↔ slotRegister.Settles slot changes := by
  apply slotRegister.converges_iff_settles
  · exact fun change _ => slotRegister_not_wins_self change
  · intro first hfirst second hsecond hput
    exact hdistinct first hfirst second hsecond
      (congrArg Version.vv (slotRegister_put_injective hput))

end Keeplin
