/-
The SQLite store: its tables as typed rows, the version vectors of local
writes, and the mutators.  A mutator runs in one transaction, so one that fails
leaves no trace; one that succeeds records its change in the journal.
-/
import Keeplin.Versions
import Keeplin.Format

namespace Keeplin

open VersionVector

abbrev Table (R : Type) := Std.ExtTreeMap Uuid R compare

/-- The two columns of the association key, compared in order. -/
def compareAssoc : Uuid × Uuid → Uuid × Uuid → Ordering :=
  compareLex (compareOn Prod.fst) (compareOn Prod.snd)

instance : Std.TransCmp compareAssoc :=
  inferInstanceAs (Std.TransCmp (compareLex _ _))

instance : Std.LawfulEqCmp compareAssoc where
  eq_of_compare := by
    intro first second hcompare
    simp only [compareAssoc, compareLex_eq_eq, compareOn, Std.LawfulEqCmp.compare_eq_iff_eq]
      at hcompare
    exact Prod.ext hcompare.1 hcompare.2

abbrev AssocTable (R : Type) := Std.ExtTreeMap (Uuid × Uuid) R compareAssoc

/-- How a call fails.  `panic` is the failed `expect` of a merge. -/
inductive StorageError where
  | notFound (id : Uuid)
  | linkNotFound (index : Nat) (noteId : Uuid)
  | io
  | corruptedData
  | invalidState
  | invalidInput (message : String)
  | conflict (message : String)
  | tooLarge (violation : LimitViolation)
  | database
  | panic
deriving DecidableEq, Repr

theorem exists_of_map_ok {A B : Type} {result : Except StorageError A} {next : A → B}
    {value : B} (hmap : result.map next = .ok value) :
    ∃ found, result = .ok found ∧ next found = value := by
  cases result with
  | error failure => contradiction
  | ok found => exact ⟨found, rfl, Except.ok.inj hmap⟩

/-- A row of `notes`.  Only a placeholder has no notebook. -/
structure NoteRow where
  title : String
  body : String
  notebookId : Option Uuid
  isTodo : Bool
  todoDue : Option DateTime
  todoCompleted : Option DateTime
  createdAt : DateTime
  updatedAt : DateTime
  deletedAt : Option DateTime
  «alias» : Option String
  bookmarks : List Bookmark
  links : List NoteLink
  vv : VersionVector
  lastWriter : String
  isPinned : Bool
  isStarred : Bool
  sortKey : Nat
deriving DecidableEq

structure NotebookRow where
  title : String
  createdAt : DateTime
  updatedAt : DateTime
  deletedAt : Option DateTime
  «alias» : Option String
  vv : VersionVector
  lastWriter : String
deriving DecidableEq

structure TagRow where
  title : String
  createdAt : DateTime
  updatedAt : DateTime
  deletedAt : Option DateTime
  vv : VersionVector
  lastWriter : String
  system : Bool
deriving DecidableEq

/-- A row of `note_tags`.  Rows older than the versioning have no instant. -/
structure NoteTagRow where
  updatedAt : Option DateTime
  deletedAt : Option DateTime
  vv : VersionVector
  lastWriter : String
deriving DecidableEq

structure ResourceRow where
  noteId : Uuid
  title : String
  mimeType : String
  fileName : String
  size : Nat
  data : Option (List UInt8)
  durationMs : Option Nat
  width : Option Nat
  height : Option Nat
  createdAt : DateTime
  deletedAt : Option DateTime
  vv : VersionVector
  lastWriter : String
deriving DecidableEq

/-- A row of `entity_changes`, with the change its columns encode. -/
structure EntityChange where
  changedAt : DateTime
  change : Change
deriving DecidableEq

structure Db where
  deviceId : String
  notes : Table NoteRow
  notebooks : Table NotebookRow
  tags : Table TagRow
  noteTags : AssocTable NoteTagRow
  resources : Table ResourceRow
  noteLinks : List (Uuid × Uuid)
  entityChanges : List EntityChange
  lastSync : Option DateTime

def NoteRow.ofNote (note : Note) : NoteRow where
  title := note.title
  body := note.body
  notebookId := some note.notebookId
  isTodo := note.isTodo
  todoDue := note.todoDue
  todoCompleted := note.todoCompleted
  createdAt := note.createdAt
  updatedAt := note.updatedAt
  deletedAt := note.deletedAt
  «alias» := note.alias
  bookmarks := note.bookmarks
  links := note.links
  vv := note.vv
  lastWriter := note.lastWriter
  isPinned := note.isPinned
  isStarred := note.isStarred
  sortKey := note.sortKey

/-- The row a delete of an unknown note inserts, the other columns at their
defaults. -/
def NoteRow.placeholder (deletedAt : DateTime) (vv : VersionVector)
    (lastWriter : String) : NoteRow where
  title := ""
  body := ""
  notebookId := none
  isTodo := false
  todoDue := none
  todoCompleted := none
  createdAt := deletedAt
  updatedAt := deletedAt
  deletedAt := some deletedAt
  «alias» := none
  bookmarks := []
  links := []
  vv := vv
  lastWriter := lastWriter
  isPinned := false
  isStarred := false
  sortKey := 0

def NotebookRow.ofNotebook (notebook : Notebook) : NotebookRow where
  title := notebook.title
  createdAt := notebook.createdAt
  updatedAt := notebook.updatedAt
  deletedAt := notebook.deletedAt
  «alias» := notebook.alias
  vv := notebook.vv
  lastWriter := notebook.lastWriter

def NotebookRow.placeholder (deletedAt : DateTime) (vv : VersionVector)
    (lastWriter : String) : NotebookRow where
  title := ""
  createdAt := deletedAt
  updatedAt := deletedAt
  deletedAt := some deletedAt
  «alias» := none
  vv := vv
  lastWriter := lastWriter

def TagRow.ofTag (tag : Tag) : TagRow where
  title := tag.title
  createdAt := tag.createdAt
  updatedAt := tag.updatedAt
  deletedAt := tag.deletedAt
  vv := tag.vv
  lastWriter := tag.lastWriter
  system := tag.system

def TagRow.placeholder (deletedAt : DateTime) (vv : VersionVector)
    (lastWriter : String) : TagRow where
  title := ""
  createdAt := deletedAt
  updatedAt := deletedAt
  deletedAt := some deletedAt
  vv := vv
  lastWriter := lastWriter
  system := false

def ResourceRow.ofResource (resource : Resource) (data : List UInt8) : ResourceRow where
  noteId := resource.noteId
  title := resource.title
  mimeType := resource.mimeType
  fileName := resource.fileName
  size := resource.size
  data := some data
  durationMs := resource.durationMs
  width := resource.dimensions.map Prod.fst
  height := resource.dimensions.map Prod.snd
  createdAt := resource.createdAt
  deletedAt := resource.deletedAt
  vv := resource.vv
  lastWriter := resource.lastWriter

def ResourceRow.placeholder (deletedAt : DateTime) (vv : VersionVector)
    (lastWriter : String) : ResourceRow where
  noteId := SYSTEM_RESOURCE_NOTE_ID
  title := ""
  mimeType := ""
  fileName := ""
  size := 0
  data := none
  durationMs := none
  width := none
  height := none
  createdAt := deletedAt
  deletedAt := some deletedAt
  vv := vv
  lastWriter := lastWriter

/-- The tables whose rows all have `vv`, `updated_at` and `last_writer`. -/
inductive VersionedTable where
  | notes
  | notebooks
  | tags
deriving DecidableEq, Repr

abbrev RowMeta := VersionVector × DateTime × String

namespace Db

variable (db : Db)

def currentMeta (table : VersionedTable) (id : Uuid) : Option RowMeta :=
  match table with
  | .notes => db.notes[id]?.map fun row => (row.vv, row.updatedAt, row.lastWriter)
  | .notebooks =>
      db.notebooks[id]?.map fun row => (row.vv, row.updatedAt, row.lastWriter)
  | .tags => db.tags[id]?.map fun row => (row.vv, row.updatedAt, row.lastWriter)

def assocMeta (noteId tagId : Uuid) : Option RowMeta :=
  db.noteTags[(noteId, tagId)]?.map fun row =>
    (row.vv, row.updatedAt.getD epochStart, row.lastWriter)

def resourceMeta (id : Uuid) : Option RowMeta :=
  db.resources[id]?.map fun row =>
    (row.vv, row.deletedAt.getD row.createdAt, row.lastWriter)

/-- The check every applied change makes against the stored row. -/
def metaIncomingWins (stored : Option RowMeta) (incomingVv : VersionVector)
    (incomingTs : DateTime) (incomingWriter : String) : Bool :=
  match stored with
  | none => true
  | some (localVv, localTs, localWriter) =>
      resolve localVv localTs localWriter incomingVv incomingTs incomingWriter = .incoming

def incomingWins (table : VersionedTable) (id : Uuid) (incomingVv : VersionVector)
    (incomingUpdated : DateTime) (incomingWriter : String) : Bool :=
  metaIncomingWins (db.currentMeta table id) incomingVv incomingUpdated incomingWriter

def assocIncomingWins (noteId tagId : Uuid) (incomingVv : VersionVector)
    (incomingUpdated : DateTime) (incomingWriter : String) : Bool :=
  metaIncomingWins (db.assocMeta noteId tagId) incomingVv incomingUpdated incomingWriter

def resourceIncomingWins (id : Uuid) (incomingVv : VersionVector)
    (incomingTs : DateTime) (incomingWriter : String) : Bool :=
  metaIncomingWins (db.resourceMeta id) incomingVv incomingTs incomingWriter

def nextVv (stored : Option RowMeta) : VersionVector :=
  ((stored.map Prod.fst).getD ∅).increment db.deviceId

def nextLocalVv (table : VersionedTable) (id : Uuid) : VersionVector :=
  db.nextVv (db.currentMeta table id)

def nextAssocVv (noteId tagId : Uuid) : VersionVector :=
  db.nextVv (db.assocMeta noteId tagId)

def nextResourceVv (id : Uuid) : VersionVector :=
  db.nextVv (db.resourceMeta id)

def noteIsLive (id : Uuid) : Bool :=
  match db.notes[id]? with
  | some row => row.deletedAt.isNone
  | none => false

def tagIsLive (id : Uuid) : Bool :=
  match db.tags[id]? with
  | some row => row.deletedAt.isNone
  | none => false

def recordChange (changedAt : DateTime) (change : Change) : Db :=
  { db with entityChanges := db.entityChanges ++ [⟨changedAt, change⟩] }

/-- The resolved outgoing links of a note replace the recorded ones. -/
def refreshNoteLinks (note : Note) : Db :=
  { db with
    noteLinks := (db.noteLinks.filter fun link => link.1 ≠ note.id) ++
      ((note.links.filterMap NoteLink.targetNoteId).map fun target =>
        (note.id, target)).eraseDups }

/-- Deleting a note deletes its live resources with it. -/
def cascadeStampResources (noteId : Uuid) (deletedAt : DateTime) : Db :=
  { db with
    resources := db.resources.map fun _ row =>
      if row.noteId = noteId ∧ row.deletedAt = none then
        { row with deletedAt := some deletedAt }
      else row }

/-- Restoring a note restores the resources deleted at the instant it was. -/
def cascadeUnstampResources (noteId : Uuid) (deletedAt : DateTime) : Db :=
  { db with
    resources := db.resources.map fun _ row =>
      if row.noteId = noteId ∧ row.deletedAt = some deletedAt then
        { row with deletedAt := none }
      else row }

/-- The restore cascade of a live note over the deletion it had before. -/
def restoreResources (note : Note) (priorDeleted : Option DateTime) : Db :=
  match note.deletedAt, priorDeleted with
  | none, some oldTs => db.cascadeUnstampResources note.id oldTs
  | _, _ => db

def upsertAssoc (noteId tagId : Uuid) (updatedAt : DateTime)
    (deletedAt : Option DateTime) (vv : VersionVector) (lastWriter : String) : Db :=
  { db with
    noteTags := db.noteTags.insert (noteId, tagId)
      ⟨some updatedAt, deletedAt, vv, lastWriter⟩ }

def createNote (note : Note) (changedAt : DateTime) : Except StorageError (Db × Note) :=
  let note := { note with
    vv := db.nextLocalVv .notes note.id, lastWriter := db.deviceId }
  if db.notes.contains note.id then .error .database
  else
    let db := { db with notes := db.notes.insert note.id (NoteRow.ofNote note) }
    .ok ((db.refreshNoteLinks note).recordChange changedAt (.noteCreate note), note)

def updateNote (note : Note) (changedAt : DateTime) : Except StorageError (Db × Note) :=
  let note := { note with
    vv := db.nextLocalVv .notes note.id, lastWriter := db.deviceId }
  match db.notes[note.id]? with
  | none => .error (.notFound note.id)
  | some row =>
      let updated := { NoteRow.ofNote note with createdAt := row.createdAt }
      let db := { db with notes := db.notes.insert note.id updated }
      let db := db.restoreResources note row.deletedAt
      .ok ((db.refreshNoteLinks note).recordChange changedAt (.noteUpdate note), note)

def deleteNote (id : Uuid) (ts changedAt : DateTime) : Except StorageError Db :=
  let vv := db.nextLocalVv .notes id
  match db.notes[id]? with
  | none => .error (.notFound id)
  | some row =>
      let deleted := { row with
        deletedAt := some ts, updatedAt := ts, vv := vv, lastWriter := db.deviceId }
      let stamped := { db with notes := db.notes.insert id deleted }
      let stamped := stamped.cascadeStampResources id ts
      .ok (stamped.recordChange changedAt (.noteDelete id ts vv db.deviceId))

def createNotebook (notebook : Notebook) (changedAt : DateTime) :
    Except StorageError (Db × Notebook) :=
  let notebook := { notebook with
    vv := db.nextLocalVv .notebooks notebook.id, lastWriter := db.deviceId }
  if db.notebooks.contains notebook.id then .error .database
  else
    let db := { db with
      notebooks := db.notebooks.insert notebook.id (NotebookRow.ofNotebook notebook) }
    .ok (db.recordChange changedAt (.notebookCreate notebook), notebook)

def updateNotebook (notebook : Notebook) (changedAt : DateTime) :
    Except StorageError (Db × Notebook) :=
  let notebook := { notebook with
    vv := db.nextLocalVv .notebooks notebook.id, lastWriter := db.deviceId }
  match db.notebooks[notebook.id]? with
  | none => .error (.notFound notebook.id)
  | some row =>
      let updated := { NotebookRow.ofNotebook notebook with createdAt := row.createdAt }
      let db := { db with notebooks := db.notebooks.insert notebook.id updated }
      .ok (db.recordChange changedAt (.notebookUpdate notebook), notebook)

def deleteNotebook (id : Uuid) (ts changedAt : DateTime) : Except StorageError Db :=
  let vv := db.nextLocalVv .notebooks id
  match db.notebooks[id]? with
  | none => .error (.notFound id)
  | some row =>
      let deleted := { row with
        deletedAt := some ts, updatedAt := ts, vv := vv, lastWriter := db.deviceId }
      let stamped := { db with notebooks := db.notebooks.insert id deleted }
      .ok (stamped.recordChange changedAt (.notebookDelete id ts vv db.deviceId))

def createTag (tag : Tag) (changedAt : DateTime) : Except StorageError (Db × Tag) :=
  let tag := { tag with
    vv := db.nextLocalVv .tags tag.id, lastWriter := db.deviceId }
  if db.tags.contains tag.id then .error .database
  else
    let db := { db with tags := db.tags.insert tag.id (TagRow.ofTag tag) }
    .ok (db.recordChange changedAt (.tagCreate tag), tag)

def updateTag (tag : Tag) (changedAt : DateTime) : Except StorageError (Db × Tag) :=
  let tag := { tag with
    vv := db.nextLocalVv .tags tag.id, lastWriter := db.deviceId }
  match db.tags[tag.id]? with
  | none => .error (.notFound tag.id)
  | some row =>
      let updated := { TagRow.ofTag tag with createdAt := row.createdAt }
      let db := { db with tags := db.tags.insert tag.id updated }
      .ok (db.recordChange changedAt (.tagUpdate tag), tag)

def deleteTag (id : Uuid) (ts changedAt : DateTime) : Except StorageError Db :=
  let vv := db.nextLocalVv .tags id
  match db.tags[id]? with
  | none => .error (.notFound id)
  | some row =>
      let deleted := { row with
        deletedAt := some ts, updatedAt := ts, vv := vv, lastWriter := db.deviceId }
      let stamped := { db with tags := db.tags.insert id deleted }
      .ok (stamped.recordChange changedAt (.tagDelete id ts vv db.deviceId))

def addNoteTag (noteTag : NoteTag) (ts changedAt : DateTime) : Except StorageError Db :=
  let vv := db.nextAssocVv noteTag.noteId noteTag.tagId
  if !db.noteIsLive noteTag.noteId then .error (.notFound noteTag.noteId)
  else if !db.tagIsLive noteTag.tagId then .error (.notFound noteTag.tagId)
  else
    let upserted := db.upsertAssoc noteTag.noteId noteTag.tagId ts none vv db.deviceId
    .ok (upserted.recordChange changedAt
      (.noteTagAdd noteTag.noteId noteTag.tagId ts vv db.deviceId))

def removeNoteTag (noteId tagId : Uuid) (ts changedAt : DateTime) :
    Except StorageError Db :=
  let vv := db.nextAssocVv noteId tagId
  let upserted := db.upsertAssoc noteId tagId ts (some ts) vv db.deviceId
  .ok (upserted.recordChange changedAt (.noteTagRemove noteId tagId ts vv db.deviceId))

def createResource (resource : Resource) (data : List UInt8) (changedAt : DateTime) :
    Except StorageError (Db × Resource) :=
  let resource := { resource with
    vv := db.nextResourceVv resource.id, lastWriter := db.deviceId }
  if db.resources.contains resource.id then .error .database
  else
    let db := { db with
      resources := db.resources.insert resource.id (ResourceRow.ofResource resource data) }
    .ok (db.recordChange changedAt (.resourceCreate resource (some data)), resource)

def deleteResource (id : Uuid) (ts changedAt : DateTime) : Except StorageError Db :=
  let vv := db.nextResourceVv id
  match db.resources[id]? with
  | none => .error (.notFound id)
  | some row =>
      let deleted := { row with deletedAt := some ts, vv := vv, lastWriter := db.deviceId }
      let stamped := { db with resources := db.resources.insert id deleted }
      .ok (stamped.recordChange changedAt (.resourceDelete id ts vv db.deviceId))

end Db

end Keeplin
