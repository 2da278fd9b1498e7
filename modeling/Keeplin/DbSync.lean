/-
Applying a peer's change to the database, reading the journal for the peers,
and what all of it does to the slots conflict resolution sees.
-/
import Keeplin.Db

namespace Keeplin

open VersionVector

namespace Db

variable (db : Db)

def applyNote (note : Note) : Db :=
  if db.incomingWins .notes note.id note.vv note.updatedAt note.lastWriter then
    let priorDeleted := db.notes[note.id]?.bind NoteRow.deletedAt
    let db := db.refreshNoteLinks note
    let db := { db with notes := db.notes.insert note.id (NoteRow.ofNote note) }
    db.restoreResources note priorDeleted
  else db

def applyNoteDelete (id : Uuid) (deletedAt : DateTime) (vv : VersionVector)
    (lastWriter : String) : Db :=
  if db.incomingWins .notes id vv deletedAt lastWriter then
    let row :=
      match db.notes[id]? with
      | some row => { row with
          deletedAt := some deletedAt, updatedAt := deletedAt, vv, lastWriter }
      | none => NoteRow.placeholder deletedAt vv lastWriter
    let db := { db with notes := db.notes.insert id row }
    db.cascadeStampResources id deletedAt
  else db

def applyNotebook (notebook : Notebook) : Db :=
  if db.incomingWins .notebooks notebook.id notebook.vv notebook.updatedAt
      notebook.lastWriter then
    { db with
      notebooks := db.notebooks.insert notebook.id (NotebookRow.ofNotebook notebook) }
  else db

def applyNotebookDelete (id : Uuid) (deletedAt : DateTime) (vv : VersionVector)
    (lastWriter : String) : Db :=
  if db.incomingWins .notebooks id vv deletedAt lastWriter then
    let row :=
      match db.notebooks[id]? with
      | some row => { row with
          deletedAt := some deletedAt, updatedAt := deletedAt, vv, lastWriter }
      | none => NotebookRow.placeholder deletedAt vv lastWriter
    { db with notebooks := db.notebooks.insert id row }
  else db

/-- An applied tag is inserted without its `system` column, which is false by
default. -/
def applyTag (tag : Tag) : Db :=
  if db.incomingWins .tags tag.id tag.vv tag.updatedAt tag.lastWriter then
    { db with
      tags := db.tags.insert tag.id { TagRow.ofTag tag with system := false } }
  else db

def applyTagDelete (id : Uuid) (deletedAt : DateTime) (vv : VersionVector)
    (lastWriter : String) : Db :=
  if db.incomingWins .tags id vv deletedAt lastWriter then
    let row :=
      match db.tags[id]? with
      | some row => { row with
          deletedAt := some deletedAt, updatedAt := deletedAt, vv, lastWriter }
      | none => TagRow.placeholder deletedAt vv lastWriter
    { db with tags := db.tags.insert id row }
  else db

def applyNoteTag (noteId tagId : Uuid) (updatedAt : DateTime)
    (deletedAt : Option DateTime) (vv : VersionVector) (lastWriter : String) : Db :=
  if db.assocIncomingWins noteId tagId vv updatedAt lastWriter then
    db.upsertAssoc noteId tagId updatedAt deletedAt vv lastWriter
  else db

def applyResource (resource : Resource) (data : Option (List UInt8)) : Db :=
  if db.resourceIncomingWins resource.id resource.vv
      (resource.deletedAt.getD resource.createdAt) resource.lastWriter then
    { db with
      resources := db.resources.insert resource.id
        (ResourceRow.ofResource resource (data.getD [])) }
  else db

def applyResourceDelete (id : Uuid) (deletedAt : DateTime) (vv : VersionVector)
    (lastWriter : String) : Db :=
  if db.resourceIncomingWins id vv deletedAt lastWriter then
    let row :=
      match db.resources[id]? with
      | some row => { row with deletedAt := some deletedAt, vv, lastWriter }
      | none => ResourceRow.placeholder deletedAt vv lastWriter
    { db with resources := db.resources.insert id row }
  else db

def applyChange : Change → Db
  | .noteCreate note => db.applyNote note
  | .noteUpdate note => db.applyNote note
  | .noteDelete id deletedAt vv lastWriter =>
      db.applyNoteDelete id deletedAt vv lastWriter
  | .notebookCreate notebook => db.applyNotebook notebook
  | .notebookUpdate notebook => db.applyNotebook notebook
  | .notebookDelete id deletedAt vv lastWriter =>
      db.applyNotebookDelete id deletedAt vv lastWriter
  | .tagCreate tag => db.applyTag tag
  | .tagUpdate tag => db.applyTag tag
  | .tagDelete id deletedAt vv lastWriter => db.applyTagDelete id deletedAt vv lastWriter
  | .noteTagAdd noteId tagId updatedAt vv lastWriter =>
      db.applyNoteTag noteId tagId updatedAt none vv lastWriter
  | .noteTagRemove noteId tagId updatedAt vv lastWriter =>
      db.applyNoteTag noteId tagId updatedAt (some updatedAt) vv lastWriter
  | .resourceCreate resource data => db.applyResource resource data
  | .resourceDelete id deletedAt vv lastWriter =>
      db.applyResourceDelete id deletedAt vv lastWriter

/-- The journaled changes recorded strictly after an instant, oldest first. -/
def getChangesSince (since : DateTime) : List Change :=
  (db.entityChanges.filter fun row => since < row.changedAt).map EntityChange.change

def getLastSyncTime : DateTime :=
  db.lastSync.getD epochStart

def updateSyncTime (ts : DateTime) : Db :=
  { db with lastSync := some ts }

def slot : Entity → Slot
  | .note id =>
      match db.notes[id]? with
      | some row => .stored ⟨row.vv, row.updatedAt, row.lastWriter, row.deletedAt.isNone⟩
      | none => .missing
  | .notebook id =>
      match db.notebooks[id]? with
      | some row => .stored ⟨row.vv, row.updatedAt, row.lastWriter, row.deletedAt.isNone⟩
      | none => .missing
  | .tag id =>
      match db.tags[id]? with
      | some row => .stored ⟨row.vv, row.updatedAt, row.lastWriter, row.deletedAt.isNone⟩
      | none => .missing
  | .noteTag noteId tagId =>
      match db.noteTags[(noteId, tagId)]? with
      | some row => .stored
          ⟨row.vv, row.updatedAt.getD epochStart, row.lastWriter, row.deletedAt.isNone⟩
      | none => .missing
  | .resource id =>
      match db.resources[id]? with
      | some row => .stored
          ⟨row.vv, row.deletedAt.getD row.createdAt, row.lastWriter, row.deletedAt.isNone⟩
      | none => .missing

/-- What is stored of a slot's version, in the columns `resolve` reads. -/
def slotMeta : Slot → Option RowMeta
  | .stored version => some (version.vv, version.timestamp, version.writer)
  | _ => none

theorem metaIncomingWins_slotMeta {slot : Slot} (hreadable : slot ≠ .unreadable)
    (incoming : Version) :
    metaIncomingWins (slotMeta slot) incoming.vv incoming.timestamp incoming.writer =
      incoming.beats slot := by
  cases slot with
  | missing => rfl
  | unreadable => contradiction
  | stored current => rfl

theorem slot_ne_unreadable (entity : Entity) : db.slot entity ≠ .unreadable := by
  cases entity <;> simp only [slot] <;> split <;> simp

theorem currentMeta_notes (id : Uuid) :
    db.currentMeta .notes id = slotMeta (db.slot (.note id)) := by
  simp only [currentMeta, slot]
  cases db.notes[id]? <;> rfl

theorem currentMeta_notebooks (id : Uuid) :
    db.currentMeta .notebooks id = slotMeta (db.slot (.notebook id)) := by
  simp only [currentMeta, slot]
  cases db.notebooks[id]? <;> rfl

theorem currentMeta_tags (id : Uuid) :
    db.currentMeta .tags id = slotMeta (db.slot (.tag id)) := by
  simp only [currentMeta, slot]
  cases db.tags[id]? <;> rfl

theorem assocMeta_slot (noteId tagId : Uuid) :
    db.assocMeta noteId tagId = slotMeta (db.slot (.noteTag noteId tagId)) := by
  simp only [assocMeta, slot]
  cases db.noteTags[(noteId, tagId)]? <;> rfl

theorem resourceMeta_slot (id : Uuid) :
    db.resourceMeta id = slotMeta (db.slot (.resource id)) := by
  simp only [resourceMeta, slot]
  cases db.resources[id]? <;> rfl

/-- The cascades of a note touch resources only. -/
@[simp] theorem notes_restoreResources (note : Note) (priorDeleted : Option DateTime) :
    (db.restoreResources note priorDeleted).notes = db.notes := by
  simp only [restoreResources]
  split <;> rfl

@[simp] theorem notes_cascadeStampResources (noteId : Uuid) (deletedAt : DateTime) :
    (db.cascadeStampResources noteId deletedAt).notes = db.notes := rfl

section Deliver

/-- A write guarded by the resolution of a change delivers it to the slot. -/
theorem slot_guarded (change : Change) {stored : Option RowMeta} {entity : Entity}
    {written : Db} (hstored : stored = slotMeta (db.slot entity))
    (hwritten : written.slot entity = .stored change.version) :
    (if metaIncomingWins stored change.version.vv change.version.timestamp
        change.version.writer then written else db).slot entity =
      slotRegister.deliver (db.slot entity) change := by
  rw [hstored, metaIncomingWins_slotMeta (db.slot_ne_unreadable entity)]
  by_cases hbeats : change.version.beats (db.slot entity) = true
  · rw [if_pos hbeats, slotRegister.deliver_of_wins hbeats, hwritten]
    rfl
  · have hloses : slotRegister.wins change (db.slot entity) = false :=
      Bool.eq_false_iff.mpr hbeats
    rw [if_neg hbeats, slotRegister.deliver_of_loses hloses]

/-- A guarded write that loses leaves every table alone. -/
theorem guarded_of_loses (change : Change) {stored : Option RowMeta} {entity : Entity}
    {written : Db} (hstored : stored = slotMeta (db.slot entity))
    (hloses : change.version.beats (db.slot entity) = false) :
    (if metaIncomingWins stored change.version.vv change.version.timestamp
        change.version.writer then written else db) = db := by
  rw [hstored, metaIncomingWins_slotMeta (db.slot_ne_unreadable entity), hloses]
  rfl

/-- Applying a change delivers it to the slot of its entity. -/
theorem slot_applyChange (change : Change) :
    (db.applyChange change).slot change.entity =
      slotRegister.deliver (db.slot change.entity) change := by
  cases change with
  | noteCreate note =>
      simp only [applyChange, applyNote, incomingWins, Change.entity]
      apply db.slot_guarded (.noteCreate note) (db.currentMeta_notes note.id)
      simp [slot, Change.version, Note.version, NoteRow.ofNote]
  | noteUpdate note =>
      simp only [applyChange, applyNote, incomingWins, Change.entity]
      apply db.slot_guarded (.noteUpdate note) (db.currentMeta_notes note.id)
      simp [slot, Change.version, Note.version, NoteRow.ofNote]
  | noteDelete id deletedAt vv lastWriter =>
      simp only [applyChange, applyNoteDelete, incomingWins, Change.entity]
      apply db.slot_guarded (.noteDelete id deletedAt vv lastWriter) (db.currentMeta_notes id)
      cases db.notes[id]? <;> simp [slot, Change.version, NoteRow.placeholder]
  | notebookCreate notebook =>
      simp only [applyChange, applyNotebook, incomingWins, Change.entity]
      apply db.slot_guarded (.notebookCreate notebook) (db.currentMeta_notebooks notebook.id)
      simp [slot, Change.version, Notebook.version, NotebookRow.ofNotebook]
  | notebookUpdate notebook =>
      simp only [applyChange, applyNotebook, incomingWins, Change.entity]
      apply db.slot_guarded (.notebookUpdate notebook) (db.currentMeta_notebooks notebook.id)
      simp [slot, Change.version, Notebook.version, NotebookRow.ofNotebook]
  | notebookDelete id deletedAt vv lastWriter =>
      simp only [applyChange, applyNotebookDelete, incomingWins, Change.entity]
      apply db.slot_guarded (.notebookDelete id deletedAt vv lastWriter)
        (db.currentMeta_notebooks id)
      cases db.notebooks[id]? <;> simp [slot, Change.version, NotebookRow.placeholder]
  | tagCreate tag =>
      simp only [applyChange, applyTag, incomingWins, Change.entity]
      apply db.slot_guarded (.tagCreate tag) (db.currentMeta_tags tag.id)
      simp [slot, Change.version, Tag.version, TagRow.ofTag]
  | tagUpdate tag =>
      simp only [applyChange, applyTag, incomingWins, Change.entity]
      apply db.slot_guarded (.tagUpdate tag) (db.currentMeta_tags tag.id)
      simp [slot, Change.version, Tag.version, TagRow.ofTag]
  | tagDelete id deletedAt vv lastWriter =>
      simp only [applyChange, applyTagDelete, incomingWins, Change.entity]
      apply db.slot_guarded (.tagDelete id deletedAt vv lastWriter) (db.currentMeta_tags id)
      cases db.tags[id]? <;> simp [slot, Change.version, TagRow.placeholder]
  | noteTagAdd noteId tagId updatedAt vv lastWriter =>
      simp only [applyChange, applyNoteTag, assocIncomingWins, Change.entity]
      apply db.slot_guarded (.noteTagAdd noteId tagId updatedAt vv lastWriter)
        (db.assocMeta_slot noteId tagId)
      simp [slot, Change.version, upsertAssoc]
  | noteTagRemove noteId tagId updatedAt vv lastWriter =>
      simp only [applyChange, applyNoteTag, assocIncomingWins, Change.entity]
      apply db.slot_guarded (.noteTagRemove noteId tagId updatedAt vv lastWriter)
        (db.assocMeta_slot noteId tagId)
      simp [slot, Change.version, upsertAssoc]
  | resourceCreate resource data =>
      simp only [applyChange, applyResource, resourceIncomingWins, Change.entity]
      apply db.slot_guarded (.resourceCreate resource data) (db.resourceMeta_slot resource.id)
      simp [slot, Change.version, Resource.version, ResourceRow.ofResource]
  | resourceDelete id deletedAt vv lastWriter =>
      simp only [applyChange, applyResourceDelete, resourceIncomingWins, Change.entity]
      apply db.slot_guarded (.resourceDelete id deletedAt vv lastWriter) (db.resourceMeta_slot id)
      cases db.resources[id]? <;> simp [slot, Change.version, ResourceRow.placeholder]

/-- A change that loses leaves every table alone. -/
theorem applyChange_of_loses {change : Change}
    (hloses : change.version.beats (db.slot change.entity) = false) :
    db.applyChange change = db := by
  cases change with
  | noteCreate note =>
      exact db.guarded_of_loses (.noteCreate note) (db.currentMeta_notes note.id) hloses
  | noteUpdate note =>
      exact db.guarded_of_loses (.noteUpdate note) (db.currentMeta_notes note.id) hloses
  | noteDelete id deletedAt vv lastWriter =>
      exact db.guarded_of_loses (.noteDelete id deletedAt vv lastWriter)
        (db.currentMeta_notes id) hloses
  | notebookCreate notebook =>
      exact db.guarded_of_loses (.notebookCreate notebook)
        (db.currentMeta_notebooks notebook.id) hloses
  | notebookUpdate notebook =>
      exact db.guarded_of_loses (.notebookUpdate notebook)
        (db.currentMeta_notebooks notebook.id) hloses
  | notebookDelete id deletedAt vv lastWriter =>
      exact db.guarded_of_loses (.notebookDelete id deletedAt vv lastWriter)
        (db.currentMeta_notebooks id) hloses
  | tagCreate tag =>
      exact db.guarded_of_loses (.tagCreate tag) (db.currentMeta_tags tag.id) hloses
  | tagUpdate tag =>
      exact db.guarded_of_loses (.tagUpdate tag) (db.currentMeta_tags tag.id) hloses
  | tagDelete id deletedAt vv lastWriter =>
      exact db.guarded_of_loses (.tagDelete id deletedAt vv lastWriter)
        (db.currentMeta_tags id) hloses
  | noteTagAdd noteId tagId updatedAt vv lastWriter =>
      exact db.guarded_of_loses (.noteTagAdd noteId tagId updatedAt vv lastWriter)
        (db.assocMeta_slot noteId tagId) hloses
  | noteTagRemove noteId tagId updatedAt vv lastWriter =>
      exact db.guarded_of_loses (.noteTagRemove noteId tagId updatedAt vv lastWriter)
        (db.assocMeta_slot noteId tagId) hloses
  | resourceCreate resource data =>
      exact db.guarded_of_loses (.resourceCreate resource data)
        (db.resourceMeta_slot resource.id) hloses
  | resourceDelete id deletedAt vv lastWriter =>
      exact db.guarded_of_loses (.resourceDelete id deletedAt vv lastWriter)
        (db.resourceMeta_slot id) hloses

/-- A change applied twice is applied once: its own version is not beaten. -/
theorem applyChange_twice (change : Change) :
    (db.applyChange change).applyChange change = db.applyChange change := by
  apply applyChange_of_loses
  rw [slot_applyChange]
  by_cases hbeats : change.version.beats (db.slot change.entity) = true
  · rw [slotRegister.deliver_of_wins hbeats]
    exact change.version.not_beats_self
  · have hloses : slotRegister.wins change (db.slot change.entity) = false :=
      Bool.eq_false_iff.mpr hbeats
    rw [slotRegister.deliver_of_loses hloses]
    exact Bool.eq_false_iff.mpr hbeats

end Deliver

end Db

end Keeplin
