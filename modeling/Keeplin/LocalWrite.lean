/-
The local writes of one versioned entity, in both stores.  Each starts from the
stored vector, counts one more operation of the device, stores the version and
records it for the peers.
-/
import Keeplin.Journal
import Keeplin.SlotStore

namespace Keeplin

open VersionVector

inductive LocalWrite where
  | createNote (note : Note)
  | updateNote (note : Note)
  | deleteNote (id : Uuid)
  | createNotebook (notebook : Notebook)
  | updateNotebook (notebook : Notebook)
  | deleteNotebook (id : Uuid)
  | createTag (tag : Tag)
  | updateTag (tag : Tag)
  | deleteTag (id : Uuid)
  | addNoteTag (noteTag : NoteTag)
  | removeNoteTag (noteId tagId : Uuid)
  | createResource (resource : Resource) (data : List UInt8)
  | deleteResource (id : Uuid)

def LocalWrite.entity : LocalWrite → Entity
  | createNote note => .note note.id
  | updateNote note => .note note.id
  | deleteNote id => .note id
  | createNotebook notebook => .notebook notebook.id
  | updateNotebook notebook => .notebook notebook.id
  | deleteNotebook id => .notebook id
  | createTag tag => .tag tag.id
  | updateTag tag => .tag tag.id
  | deleteTag id => .tag id
  | addNoteTag noteTag => .noteTag noteTag.noteId noteTag.tagId
  | removeNoteTag noteId tagId => .noteTag noteId tagId
  | createResource resource _ => .resource resource.id
  | deleteResource id => .resource id

/-- What a sidecar mutator does: its writes, then its journal record. -/
structure Mutation where
  writes : List TreeWrite
  record : LogRecord

/-- The mutators of the database.  `ts` is the clock where the mutator reads it
for the row and `changedAt` where the journal reads it. -/
def Db.localWrite (db : Db) (ts changedAt : DateTime) : LocalWrite → Except StorageError Db
  | .createNote note => (db.createNote note changedAt).map Prod.fst
  | .updateNote note => (db.updateNote note changedAt).map Prod.fst
  | .deleteNote id => db.deleteNote id ts changedAt
  | .createNotebook notebook => (db.createNotebook notebook changedAt).map Prod.fst
  | .updateNotebook notebook => (db.updateNotebook notebook changedAt).map Prod.fst
  | .deleteNotebook id => db.deleteNotebook id ts changedAt
  | .createTag tag => (db.createTag tag changedAt).map Prod.fst
  | .updateTag tag => (db.updateTag tag changedAt).map Prod.fst
  | .deleteTag id => db.deleteTag id ts changedAt
  | .addNoteTag noteTag => db.addNoteTag noteTag ts changedAt
  | .removeNoteTag noteId tagId => db.removeNoteTag noteId tagId ts changedAt
  | .createResource resource data => (db.createResource resource data changedAt).map Prod.fst
  | .deleteResource id => db.deleteResource id ts changedAt

namespace FsTree

variable (tree : FsTree)

def createNotebook (notebook : Notebook) : Except StorageError Mutation :=
  (tree.nextSidecarVv Notebook.vv (tree.notebooks.file? notebook.id)).map fun vv =>
    let notebook := { notebook with vv, lastWriter := tree.deviceId }
    ⟨[.notebook notebook.id notebook],
      ⟨.notebook, notebook.id, .create, .notebook notebook⟩⟩

def updateNotebook (notebook : Notebook) : Except StorageError Mutation :=
  if tree.notebooks.holds notebook.id then
    (tree.nextSidecarVv Notebook.vv (tree.notebooks.file? notebook.id)).map fun vv =>
      let notebook := { notebook with vv, lastWriter := tree.deviceId }
      ⟨[.notebook notebook.id notebook],
        ⟨.notebook, notebook.id, .update, .notebook notebook⟩⟩
  else .error (.notFound notebook.id)

def deleteNotebook (id : Uuid) (ts : DateTime) : Except StorageError Mutation :=
  match tree.notebooks.file? id with
  | none => .error (.notFound id)
  | some .unreadable => .error .corruptedData
  | some (.readable notebook) =>
      let vv := notebook.vv.increment tree.deviceId
      let notebook := { notebook with
        deletedAt := some ts, updatedAt := ts, vv, lastWriter := tree.deviceId }
      .ok ⟨[.notebook id notebook],
        ⟨.notebook, id, .delete, .tombstone ts vv tree.deviceId⟩⟩

def createTag (tag : Tag) : Except StorageError Mutation :=
  (tree.nextSidecarVv Tag.vv (tree.tags.file? tag.id)).map fun vv =>
    let tag := { tag with vv, lastWriter := tree.deviceId }
    ⟨[.tag tag.id tag], ⟨.tag, tag.id, .create, .tag tag⟩⟩

def updateTag (tag : Tag) : Except StorageError Mutation :=
  if tree.tags.holds tag.id then
    (tree.nextSidecarVv Tag.vv (tree.tags.file? tag.id)).map fun vv =>
      let tag := { tag with vv, lastWriter := tree.deviceId }
      ⟨[.tag tag.id tag], ⟨.tag, tag.id, .update, .tag tag⟩⟩
  else .error (.notFound tag.id)

def deleteTag (id : Uuid) (ts : DateTime) : Except StorageError Mutation :=
  match tree.tags.file? id with
  | none => .error (.notFound id)
  | some .unreadable => .error .corruptedData
  | some (.readable tag) =>
      let vv := tag.vv.increment tree.deviceId
      let tag := { tag with
        deletedAt := some ts, updatedAt := ts, vv, lastWriter := tree.deviceId }
      .ok ⟨[.tag id tag], ⟨.tag, id, .delete, .tombstone ts vv tree.deviceId⟩⟩

/-- Attach or detach a tag: the state and the record of either. -/
def assocMutation (noteId tagId : Uuid) (ts : DateTime) (deletedAt : Option DateTime)
    (operation : Operation) : Mutation :=
  let vv := tree.nextAssocVv noteId tagId
  ⟨[.noteTag noteId tagId ⟨ts, deletedAt, vv, tree.deviceId⟩],
    ⟨.noteTag, noteId, operation, .assoc tagId ts vv tree.deviceId⟩⟩

def addNoteTag (noteTag : NoteTag) (ts : DateTime) : Except StorageError Mutation :=
  match tree.mergeNote noteTag.noteId with
  | .error failure => .error failure
  | .ok none => .error (.notFound noteTag.noteId)
  | .ok (some note) =>
      if note.deletedAt ≠ none then .error (.notFound noteTag.noteId)
      else
        match tree.tags.file? noteTag.tagId with
        | none => .error (.notFound noteTag.tagId)
        | some .unreadable => .error .corruptedData
        | some (.readable tag) =>
            if tag.deletedAt ≠ none then .error (.notFound noteTag.tagId)
            else .ok (tree.assocMutation noteTag.noteId noteTag.tagId ts none .add)

def removeNoteTag (noteId tagId : Uuid) (ts : DateTime) : Except StorageError Mutation :=
  .ok (tree.assocMutation noteId tagId ts (some ts) .remove)

def createResource (contentHash : List UInt8 → String) (resource : Resource)
    (data : List UInt8) : Except StorageError Mutation :=
  (tree.nextResourceVv resource.id).map fun vv =>
    let resource := { resource with vv, lastWriter := tree.deviceId }
    ⟨[.blob resource.noteId (contentHash data) data,
        .resource resource.noteId resource.id ⟨resource, contentHash data⟩],
      ⟨.resource, resource.id, .create, .resource resource⟩⟩

def deleteResource (id : Uuid) (ts : DateTime) : Except StorageError Mutation :=
  match tree.readResourceSidecar id with
  | .error failure => .error failure
  | .ok none => .error (.notFound id)
  | .ok (some (noteId, stored)) =>
      let vv := stored.resource.vv.increment tree.deviceId
      .ok ⟨[.resource noteId id (tombstoned stored ts vv tree.deviceId)],
        ⟨.resource, id, .delete, .tombstone ts vv tree.deviceId⟩⟩

/-- The mutators of entities with a sidecar.  Notes are appended to logs. -/
def localWrite (contentHash : List UInt8 → String) (ts : DateTime) :
    LocalWrite → Option (Except StorageError Mutation)
  | .createNotebook notebook => some (tree.createNotebook notebook)
  | .updateNotebook notebook => some (tree.updateNotebook notebook)
  | .deleteNotebook id => some (tree.deleteNotebook id ts)
  | .createTag tag => some (tree.createTag tag)
  | .updateTag tag => some (tree.updateTag tag)
  | .deleteTag id => some (tree.deleteTag id ts)
  | .addNoteTag noteTag => some (tree.addNoteTag noteTag ts)
  | .removeNoteTag noteId tagId => some (tree.removeNoteTag noteId tagId ts)
  | .createResource resource data => some (tree.createResource contentHash resource data)
  | .deleteResource id => some (tree.deleteResource id ts)
  | _ => none

end FsTree

/-- What a local write of an entity stores in its slot and tells the peers: one
version, which counts one more operation of the device than the slot did. -/
structure LocalVersion (entity : Entity) (before after : Slot) (device : String)
    (change : Change) : Prop where
  entity : change.entity = entity
  vv : change.version.vv = before.vv.increment device
  writer : change.version.writer = device
  stored : after = .stored change.version

namespace Db

variable (db : Db)

theorem nextVv_slotMeta {slot : Slot} (hreadable : slot ≠ .unreadable) :
    db.nextVv (slotMeta slot) = slot.vv.increment db.deviceId := by
  cases slot with
  | missing => rfl
  | unreadable => contradiction
  | stored version => rfl

theorem nextLocalVv_notes (id : Uuid) :
    db.nextLocalVv .notes id = (db.slot (.note id)).vv.increment db.deviceId := by
  rw [nextLocalVv, currentMeta_notes, nextVv_slotMeta _ (db.slot_ne_unreadable _)]

theorem nextLocalVv_notebooks (id : Uuid) :
    db.nextLocalVv .notebooks id =
      (db.slot (.notebook id)).vv.increment db.deviceId := by
  rw [nextLocalVv, currentMeta_notebooks, nextVv_slotMeta _ (db.slot_ne_unreadable _)]

theorem nextLocalVv_tags (id : Uuid) :
    db.nextLocalVv .tags id = (db.slot (.tag id)).vv.increment db.deviceId := by
  rw [nextLocalVv, currentMeta_tags, nextVv_slotMeta _ (db.slot_ne_unreadable _)]

theorem nextAssocVv_slot (noteId tagId : Uuid) :
    db.nextAssocVv noteId tagId =
      (db.slot (.noteTag noteId tagId)).vv.increment db.deviceId := by
  rw [nextAssocVv, assocMeta_slot, nextVv_slotMeta _ (db.slot_ne_unreadable _)]

theorem nextResourceVv_slot (id : Uuid) :
    db.nextResourceVv id = (db.slot (.resource id)).vv.increment db.deviceId := by
  rw [nextResourceVv, resourceMeta_slot, nextVv_slotMeta _ (db.slot_ne_unreadable _)]

/-- A mutator that succeeds journals one change and stores its version. -/
structure Wrote (entity : Entity) (changedAt : DateTime) (after : Db) (change : Change) :
    Prop where
  journaled : after.entityChanges = db.entityChanges ++ [⟨changedAt, change⟩]
  deviceId : after.deviceId = db.deviceId
  lastSync : after.lastSync = db.lastSync
  version : LocalVersion entity (db.slot entity) (after.slot entity) db.deviceId change

variable {db} {ts changedAt : DateTime}

@[simp] theorem deviceId_restoreResources (note : Note) (priorDeleted : Option DateTime) :
    (db.restoreResources note priorDeleted).deviceId = db.deviceId := by
  simp only [restoreResources]
  split <;> rfl

@[simp] theorem entityChanges_restoreResources (note : Note)
    (priorDeleted : Option DateTime) :
    (db.restoreResources note priorDeleted).entityChanges = db.entityChanges := by
  simp only [restoreResources]
  split <;> rfl

@[simp] theorem lastSync_restoreResources (note : Note) (priorDeleted : Option DateTime) :
    (db.restoreResources note priorDeleted).lastSync = db.lastSync := by
  simp only [restoreResources]
  split <;> rfl

theorem createNote_wrote {note : Note} {after : Db × Note}
    (hwrite : db.createNote note changedAt = .ok after) :
    ∃ change, db.Wrote (.note note.id) changedAt after.1 change := by
  simp only [createNote] at hwrite
  split at hwrite
  · contradiction
  · cases hwrite
    refine ⟨_, rfl, rfl, rfl, rfl, db.nextLocalVv_notes note.id, rfl, ?_⟩
    simp [slot, recordChange, refreshNoteLinks, Change.version, Note.version, NoteRow.ofNote]

theorem updateNote_wrote {note : Note} {after : Db × Note}
    (hwrite : db.updateNote note changedAt = .ok after) :
    ∃ change, db.Wrote (.note note.id) changedAt after.1 change := by
  simp only [updateNote] at hwrite
  split at hwrite
  · contradiction
  · cases hwrite
    refine ⟨.noteUpdate { note with
        vv := db.nextLocalVv .notes note.id, lastWriter := db.deviceId },
      ?_, ?_, ?_, rfl, db.nextLocalVv_notes note.id, rfl, ?_⟩
    · simp [recordChange, refreshNoteLinks]
    · simp [recordChange, refreshNoteLinks]
    · simp [recordChange, refreshNoteLinks]
    · simp [slot, recordChange, refreshNoteLinks, Change.version, Note.version,
        NoteRow.ofNote]

theorem deleteNote_wrote {id : Uuid} {after : Db}
    (hwrite : db.deleteNote id ts changedAt = .ok after) :
    ∃ change, db.Wrote (.note id) changedAt after change := by
  simp only [deleteNote] at hwrite
  split at hwrite
  · contradiction
  · cases hwrite
    refine ⟨_, rfl, rfl, rfl, rfl, db.nextLocalVv_notes id, rfl, ?_⟩
    simp [slot, recordChange, Change.version]

theorem createNotebook_wrote {notebook : Notebook} {after : Db × Notebook}
    (hwrite : db.createNotebook notebook changedAt = .ok after) :
    ∃ change, db.Wrote (.notebook notebook.id) changedAt after.1 change := by
  simp only [createNotebook] at hwrite
  split at hwrite
  · contradiction
  · cases hwrite
    refine ⟨_, rfl, rfl, rfl, rfl, db.nextLocalVv_notebooks notebook.id, rfl, ?_⟩
    simp [slot, recordChange, Change.version, Notebook.version, NotebookRow.ofNotebook]

theorem updateNotebook_wrote {notebook : Notebook} {after : Db × Notebook}
    (hwrite : db.updateNotebook notebook changedAt = .ok after) :
    ∃ change, db.Wrote (.notebook notebook.id) changedAt after.1 change := by
  simp only [updateNotebook] at hwrite
  split at hwrite
  · contradiction
  · cases hwrite
    refine ⟨_, rfl, rfl, rfl, rfl, db.nextLocalVv_notebooks notebook.id, rfl, ?_⟩
    simp [slot, recordChange, Change.version, Notebook.version, NotebookRow.ofNotebook]

theorem deleteNotebook_wrote {id : Uuid} {after : Db}
    (hwrite : db.deleteNotebook id ts changedAt = .ok after) :
    ∃ change, db.Wrote (.notebook id) changedAt after change := by
  simp only [deleteNotebook] at hwrite
  split at hwrite
  · contradiction
  · cases hwrite
    refine ⟨_, rfl, rfl, rfl, rfl, db.nextLocalVv_notebooks id, rfl, ?_⟩
    simp [slot, recordChange, Change.version]

theorem createTag_wrote {tag : Tag} {after : Db × Tag}
    (hwrite : db.createTag tag changedAt = .ok after) :
    ∃ change, db.Wrote (.tag tag.id) changedAt after.1 change := by
  simp only [createTag] at hwrite
  split at hwrite
  · contradiction
  · cases hwrite
    refine ⟨_, rfl, rfl, rfl, rfl, db.nextLocalVv_tags tag.id, rfl, ?_⟩
    simp [slot, recordChange, Change.version, Tag.version, TagRow.ofTag]

theorem updateTag_wrote {tag : Tag} {after : Db × Tag}
    (hwrite : db.updateTag tag changedAt = .ok after) :
    ∃ change, db.Wrote (.tag tag.id) changedAt after.1 change := by
  simp only [updateTag] at hwrite
  split at hwrite
  · contradiction
  · cases hwrite
    refine ⟨_, rfl, rfl, rfl, rfl, db.nextLocalVv_tags tag.id, rfl, ?_⟩
    simp [slot, recordChange, Change.version, Tag.version, TagRow.ofTag]

theorem deleteTag_wrote {id : Uuid} {after : Db}
    (hwrite : db.deleteTag id ts changedAt = .ok after) :
    ∃ change, db.Wrote (.tag id) changedAt after change := by
  simp only [deleteTag] at hwrite
  split at hwrite
  · contradiction
  · cases hwrite
    refine ⟨_, rfl, rfl, rfl, rfl, db.nextLocalVv_tags id, rfl, ?_⟩
    simp [slot, recordChange, Change.version]

theorem addNoteTag_wrote {noteTag : NoteTag} {after : Db}
    (hwrite : db.addNoteTag noteTag ts changedAt = .ok after) :
    ∃ change, db.Wrote (.noteTag noteTag.noteId noteTag.tagId) changedAt after change := by
  simp only [addNoteTag] at hwrite
  split at hwrite
  · contradiction
  · split at hwrite
    · contradiction
    · cases hwrite
      refine ⟨_, rfl, rfl, rfl, rfl, db.nextAssocVv_slot noteTag.noteId noteTag.tagId, rfl, ?_⟩
      simp [slot, recordChange, upsertAssoc, Change.version]

theorem removeNoteTag_wrote {noteId tagId : Uuid} {after : Db}
    (hwrite : db.removeNoteTag noteId tagId ts changedAt = .ok after) :
    ∃ change, db.Wrote (.noteTag noteId tagId) changedAt after change := by
  cases hwrite
  refine ⟨_, rfl, rfl, rfl, rfl, db.nextAssocVv_slot noteId tagId, rfl, ?_⟩
  simp [slot, recordChange, upsertAssoc, Change.version]

theorem createResource_wrote {resource : Resource} {data : List UInt8}
    {after : Db × Resource}
    (hwrite : db.createResource resource data changedAt = .ok after) :
    ∃ change, db.Wrote (.resource resource.id) changedAt after.1 change := by
  simp only [createResource] at hwrite
  split at hwrite
  · contradiction
  · cases hwrite
    refine ⟨_, rfl, rfl, rfl, rfl, db.nextResourceVv_slot resource.id, rfl, ?_⟩
    simp [slot, recordChange, Change.version, Resource.version, ResourceRow.ofResource]

theorem deleteResource_wrote {id : Uuid} {after : Db}
    (hwrite : db.deleteResource id ts changedAt = .ok after) :
    ∃ change, db.Wrote (.resource id) changedAt after change := by
  simp only [deleteResource] at hwrite
  split at hwrite
  · contradiction
  · cases hwrite
    refine ⟨_, rfl, rfl, rfl, rfl, db.nextResourceVv_slot id, rfl, ?_⟩
    simp [slot, recordChange, Change.version]

/-- Every mutator that succeeds journals and stores one local version. -/
theorem localWrite_wrote {write : LocalWrite} {after : Db}
    (hwrite : db.localWrite ts changedAt write = .ok after) :
    ∃ change, db.Wrote write.entity changedAt after change := by
  cases write with
  | createNote note =>
      obtain ⟨pair, hpair, rfl⟩ := exists_of_map_ok hwrite
      exact createNote_wrote hpair
  | updateNote note =>
      obtain ⟨pair, hpair, rfl⟩ := exists_of_map_ok hwrite
      exact updateNote_wrote hpair
  | deleteNote id => exact deleteNote_wrote hwrite
  | createNotebook notebook =>
      obtain ⟨pair, hpair, rfl⟩ := exists_of_map_ok hwrite
      exact createNotebook_wrote hpair
  | updateNotebook notebook =>
      obtain ⟨pair, hpair, rfl⟩ := exists_of_map_ok hwrite
      exact updateNotebook_wrote hpair
  | deleteNotebook id => exact deleteNotebook_wrote hwrite
  | createTag tag =>
      obtain ⟨pair, hpair, rfl⟩ := exists_of_map_ok hwrite
      exact createTag_wrote hpair
  | updateTag tag =>
      obtain ⟨pair, hpair, rfl⟩ := exists_of_map_ok hwrite
      exact updateTag_wrote hpair
  | deleteTag id => exact deleteTag_wrote hwrite
  | addNoteTag noteTag => exact addNoteTag_wrote hwrite
  | removeNoteTag noteId tagId => exact removeNoteTag_wrote hwrite
  | createResource resource data =>
      obtain ⟨pair, hpair, rfl⟩ := exists_of_map_ok hwrite
      exact createResource_wrote hpair
  | deleteResource id => exact deleteResource_wrote hwrite

end Db

namespace FsTree

variable {tree : FsTree}

theorem nextSidecarVv_ok {A : Type} (version : A → Version) {file : Option (Sidecar A)}
    {vv : VersionVector}
    (hnext : tree.nextSidecarVv (fun value => (version value).vv) file = .ok vv) :
    vv = (sidecarSlot version file).vv.increment tree.deviceId := by
  cases file with
  | none => exact (Except.ok.inj hnext).symm
  | some value =>
      cases value with
      | unreadable => contradiction
      | readable value => exact (Except.ok.inj hnext).symm

theorem nextAssocVv_slot (noteId tagId : Uuid) :
    tree.nextAssocVv noteId tagId =
      (tree.slot (.noteTag noteId tagId)).vv.increment tree.deviceId := by
  simp only [nextAssocVv, slot, assocSlot]
  cases tree.readAssocState noteId tagId <;> rfl

/-- A sidecar mutator's writes store the version its journal record tells. -/
structure Wrote (tree : FsTree) (place : Uuid → Nat) (entity : Entity)
    (mutation : Mutation) (timestamp : DateTime) (change : Change) : Prop where
  told : logEntryToChange (mutation.record.at timestamp) = some change
  deviceId : (tree.performAll place mutation.writes).deviceId = tree.deviceId
  version : LocalVersion entity (tree.slot entity)
    ((tree.performAll place mutation.writes).slot entity) tree.deviceId change

variable (place : Uuid → Nat) (ts : DateTime) {mutation : Mutation}

theorem createNotebook_wrote {notebook : Notebook}
    (hwrite : tree.createNotebook notebook = .ok mutation) :
    ∃ change, tree.Wrote place (.notebook notebook.id) mutation ts change := by
  obtain ⟨vv, hnext, rfl⟩ := exists_of_map_ok hwrite
  refine ⟨_, rfl, rfl, rfl, nextSidecarVv_ok Notebook.version hnext, rfl, ?_⟩
  simp [performAll, perform, slot, sidecarSlot, Change.version, Notebook.version]

theorem updateNotebook_wrote {notebook : Notebook}
    (hwrite : tree.updateNotebook notebook = .ok mutation) :
    ∃ change, tree.Wrote place (.notebook notebook.id) mutation ts change := by
  simp only [updateNotebook] at hwrite
  split at hwrite
  · obtain ⟨vv, hnext, rfl⟩ := exists_of_map_ok hwrite
    refine ⟨_, rfl, rfl, rfl, nextSidecarVv_ok Notebook.version hnext, rfl, ?_⟩
    simp [performAll, perform, slot, sidecarSlot, Change.version, Notebook.version]
  · contradiction

theorem deleteNotebook_wrote {id : Uuid} {deletedAt : DateTime}
    (hwrite : tree.deleteNotebook id deletedAt = .ok mutation) :
    ∃ change, tree.Wrote place (.notebook id) mutation ts change := by
  simp only [deleteNotebook] at hwrite
  split at hwrite
  · contradiction
  · contradiction
  · next notebook hfile =>
      cases hwrite
      refine ⟨_, rfl, rfl, rfl, ?_, rfl, ?_⟩
      · simp [slot, hfile, sidecarSlot, Slot.vv, Change.version, Notebook.version,
          LogData.vv, LogRecord.at]
      · simp [performAll, perform, slot, sidecarSlot, Change.version, Notebook.version,
          LogData.deletedAt, LogData.vv, LogData.lastWriter, LogRecord.at]

theorem createTag_wrote {tag : Tag} (hwrite : tree.createTag tag = .ok mutation) :
    ∃ change, tree.Wrote place (.tag tag.id) mutation ts change := by
  obtain ⟨vv, hnext, rfl⟩ := exists_of_map_ok hwrite
  refine ⟨_, rfl, rfl, rfl, nextSidecarVv_ok Tag.version hnext, rfl, ?_⟩
  simp [performAll, perform, slot, sidecarSlot, Change.version, Tag.version]

theorem updateTag_wrote {tag : Tag} (hwrite : tree.updateTag tag = .ok mutation) :
    ∃ change, tree.Wrote place (.tag tag.id) mutation ts change := by
  simp only [updateTag] at hwrite
  split at hwrite
  · obtain ⟨vv, hnext, rfl⟩ := exists_of_map_ok hwrite
    refine ⟨_, rfl, rfl, rfl, nextSidecarVv_ok Tag.version hnext, rfl, ?_⟩
    simp [performAll, perform, slot, sidecarSlot, Change.version, Tag.version]
  · contradiction

theorem deleteTag_wrote {id : Uuid} {deletedAt : DateTime}
    (hwrite : tree.deleteTag id deletedAt = .ok mutation) :
    ∃ change, tree.Wrote place (.tag id) mutation ts change := by
  simp only [deleteTag] at hwrite
  split at hwrite
  · contradiction
  · contradiction
  · next tag hfile =>
      cases hwrite
      refine ⟨_, rfl, rfl, rfl, ?_, rfl, ?_⟩
      · simp [slot, hfile, sidecarSlot, Slot.vv, Change.version, Tag.version, LogData.vv,
          LogRecord.at]
      · simp [performAll, perform, slot, sidecarSlot, Change.version, Tag.version,
          LogData.deletedAt, LogData.vv, LogData.lastWriter, LogRecord.at]

theorem addNoteTag_wrote {noteTag : NoteTag} {updatedAt : DateTime}
    (hwrite : tree.addNoteTag noteTag updatedAt = .ok mutation) :
    ∃ change, tree.Wrote place (.noteTag noteTag.noteId noteTag.tagId) mutation ts change := by
  simp only [addNoteTag] at hwrite
  repeat' split at hwrite
  all_goals first | contradiction | skip
  cases hwrite
  refine ⟨_, rfl, rfl, rfl, tree.nextAssocVv_slot _ _, rfl, ?_⟩
  simp only [assocMutation, performAll, List.foldl_cons, List.foldl_nil, slot,
    readAssocState_perform_noteTag]
  rfl

theorem removeNoteTag_wrote {noteId tagId : Uuid} {updatedAt : DateTime}
    (hwrite : tree.removeNoteTag noteId tagId updatedAt = .ok mutation) :
    ∃ change, tree.Wrote place (.noteTag noteId tagId) mutation ts change := by
  cases hwrite
  refine ⟨_, rfl, rfl, rfl, tree.nextAssocVv_slot _ _, rfl, ?_⟩
  simp only [assocMutation, performAll, List.foldl_cons, List.foldl_nil, slot,
    readAssocState_perform_noteTag]
  rfl

/-- Every mutator of a sidecar with one place stores and tells one local
version. -/
theorem localWrite_wrote {contentHash : List UInt8 → String} {now : DateTime}
    {write : LocalWrite} (hsidecar : write.entity.hasSidecar = true)
    (hwrite : tree.localWrite contentHash now write = some (.ok mutation)) :
    ∃ change, tree.Wrote place write.entity mutation ts change := by
  cases write with
  | createNotebook notebook => exact createNotebook_wrote place ts (Option.some.inj hwrite)
  | updateNotebook notebook => exact updateNotebook_wrote place ts (Option.some.inj hwrite)
  | deleteNotebook id => exact deleteNotebook_wrote place ts (Option.some.inj hwrite)
  | createTag tag => exact createTag_wrote place ts (Option.some.inj hwrite)
  | updateTag tag => exact updateTag_wrote place ts (Option.some.inj hwrite)
  | deleteTag id => exact deleteTag_wrote place ts (Option.some.inj hwrite)
  | addNoteTag noteTag => exact addNoteTag_wrote place ts (Option.some.inj hwrite)
  | removeNoteTag noteId tagId => exact removeNoteTag_wrote place ts (Option.some.inj hwrite)
  | createNote note => contradiction
  | updateNote note => contradiction
  | deleteNote id => contradiction
  | createResource resource data => contradiction
  | deleteResource id => contradiction

end FsTree

end Keeplin
