/-
What the journals tell of the entities.  The line a mutator appends, the line a compaction
makes of a sidecar and the row of a database are all read as changes that carry what was
stored.
-/
import Keeplin.ChangeFrames
import Keeplin.DbSync
import Keeplin.JournalCodecs

namespace Keeplin

open Json

def EntityType.text : EntityType → String
  | .note => "note"
  | .notebook => "notebook"
  | .tag => "tag"
  | .noteTag => "note_tag"
  | .resource => "resource"
  | .unknown => "unknown"

def Operation.text : Operation → String
  | .create => "create"
  | .update => "update"
  | .delete => "delete"
  | .add => "add"
  | .remove => "remove"
  | .unknown => "unknown"

/-- The payloads that are written for a kind and an operation. -/
inductive Kinded : EntityType → Operation → LogData → Prop where
  | noteCreate (note : Note) : Kinded .note .create (.note note)
  | noteUpdate (note : Note) : Kinded .note .update (.note note)
  | noteDelete (deletedAt : DateTime) (vv : VersionVector) (lastWriter : String) :
      Kinded .note .delete (.tombstone deletedAt vv lastWriter)
  | notebookCreate (notebook : Notebook) : Kinded .notebook .create (.notebook notebook)
  | notebookUpdate (notebook : Notebook) : Kinded .notebook .update (.notebook notebook)
  | notebookDelete (deletedAt : DateTime) (vv : VersionVector) (lastWriter : String) :
      Kinded .notebook .delete (.tombstone deletedAt vv lastWriter)
  | tagCreate (tag : Tag) : Kinded .tag .create (.tag tag)
  | tagUpdate (tag : Tag) : Kinded .tag .update (.tag tag)
  | tagDelete (deletedAt : DateTime) (vv : VersionVector) (lastWriter : String) :
      Kinded .tag .delete (.tombstone deletedAt vv lastWriter)
  | noteTagAdd (tagId : Uuid) (updatedAt : DateTime) (vv : VersionVector)
      (lastWriter : String) : Kinded .noteTag .add (.assoc tagId updatedAt vv lastWriter)
  | noteTagRemove (tagId : Uuid) (updatedAt : DateTime) (vv : VersionVector)
      (lastWriter : String) : Kinded .noteTag .remove (.assoc tagId updatedAt vv lastWriter)
  | resourceCreate (resource : Resource) : Kinded .resource .create (.resource resource)
  | resourceDelete (deletedAt : DateTime) (vv : VersionVector) (lastWriter : String) :
      Kinded .resource .delete (.tombstone deletedAt vv lastWriter)

section Lines

variable (forms : TextForms)

def LogData.toValue : LogData → Value
  | .note value => forms.note.toValue value
  | .notebook value => forms.notebook.toValue value
  | .tag value => forms.tag.toValue value
  | .resource value => forms.resource.toValue value
  | .tombstone at_ vector writer => Wire.fsTombstoneValue forms at_ vector writer
  | .assoc attached at_ vector writer => Wire.fsAssocValue forms attached at_ vector writer

/-- An entry as `append_log` hands it to its line. -/
def LogEntry.wire (entry : LogEntry) : Wire.LogEntry where
  timestamp := entry.timestamp
  entityType := entry.entityType.text
  entityId := entry.entityId
  operation := entry.operation.text
  data := entry.data.toValue forms

def LogEntry.line (entry : LogEntry) : Value :=
  (Wire.LogEntry.codec forms).toValue (entry.wire forms)

/-- The entries are read from their lines as they are read as values. -/
theorem logEntryToChange_wire {entry : LogEntry}
    (hkinded : Kinded entry.entityType entry.operation entry.data) :
    Wire.logEntryToChange forms (entry.wire forms) = logEntryToChange entry := by
  obtain ⟨timestamp, entityType, entityId, operation, data⟩ := entry
  cases hkinded with
  | noteDelete | notebookDelete | tagDelete | resourceDelete =>
      simp [Wire.logEntryToChange, LogEntry.wire, EntityType.text, Operation.text,
        LogData.toValue, Wire.fsTombstoneFromData, Wire.fsTombstoneValue, logEntryToChange,
        LogData.deletedAt, LogData.vv, LogData.lastWriter]
  | noteTagAdd | noteTagRemove =>
      simp [Wire.logEntryToChange, LogEntry.wire, EntityType.text, Operation.text,
        LogData.toValue, Wire.fsAssocFromData, Wire.fsAssocValue, logEntryToChange,
        LogData.updatedAt, LogData.vv, LogData.lastWriter, LogData.tagId]
  | _ =>
      simp [Wire.logEntryToChange, LogEntry.wire, EntityType.text, Operation.text,
        LogData.toValue, logEntryToChange]

theorem lineToChange_line {entry : LogEntry}
    (hkinded : Kinded entry.entityType entry.operation entry.data) :
    Wire.lineToChange forms (entry.line forms) = logEntryToChange entry := by
  rw [LogEntry.line, Wire.lineToChange_toValue, logEntryToChange_wire forms hkinded]

end Lines

def Change.operation : Change → Operation
  | .noteCreate _ | .notebookCreate _ | .tagCreate _ | .resourceCreate _ _ => .create
  | .noteUpdate _ | .notebookUpdate _ | .tagUpdate _ => .update
  | .noteDelete _ _ _ _ | .notebookDelete _ _ _ _ | .tagDelete _ _ _ _
  | .resourceDelete _ _ _ _ => .delete
  | .noteTagAdd _ _ _ _ _ => .add
  | .noteTagRemove _ _ _ _ _ => .remove

def LocalWrite.operation : LocalWrite → Operation
  | .createNote _ | .createNotebook _ | .createTag _ | .createResource _ _ => .create
  | .updateNote _ | .updateNotebook _ | .updateTag _ => .update
  | .deleteNote _ | .deleteNotebook _ | .deleteTag _ | .deleteResource _ => .delete
  | .addNoteTag _ => .add
  | .removeNoteTag _ _ => .remove

namespace FsTree

/-- A change has all that the sidecar at a path holds.  One of a deletion has the identifier
the sidecar is filed under, with the instant, the vector and the writer. -/
inductive Carries (tree : FsTree) : SidecarPath → Change → Prop where
  | notebookCreate {id : Uuid} {value : Notebook}
      (hfile : tree.notebooks.file? id = some (.readable value)) :
      Carries tree (.notebook id) (.notebookCreate value)
  | notebookUpdate {id : Uuid} {value : Notebook}
      (hfile : tree.notebooks.file? id = some (.readable value)) :
      Carries tree (.notebook id) (.notebookUpdate value)
  | notebookDelete {id : Uuid} {value : Notebook} {deletedAt : DateTime}
      (hfile : tree.notebooks.file? id = some (.readable value))
      (hdeleted : value.deletedAt = some deletedAt) :
      Carries tree (.notebook id) (.notebookDelete id deletedAt value.vv value.lastWriter)
  | tagCreate {id : Uuid} {value : Tag}
      (hfile : tree.tags.file? id = some (.readable value)) :
      Carries tree (.tag id) (.tagCreate value)
  | tagUpdate {id : Uuid} {value : Tag}
      (hfile : tree.tags.file? id = some (.readable value)) :
      Carries tree (.tag id) (.tagUpdate value)
  | tagDelete {id : Uuid} {value : Tag} {deletedAt : DateTime}
      (hfile : tree.tags.file? id = some (.readable value))
      (hdeleted : value.deletedAt = some deletedAt) :
      Carries tree (.tag id) (.tagDelete id deletedAt value.vv value.lastWriter)
  | noteTagAdd {noteId tagId : Uuid} {state : NoteTagState}
      (hfile : tree.readAssocState noteId tagId = some state)
      (hattached : state.deletedAt = none) :
      Carries tree (.noteTag noteId tagId)
        (.noteTagAdd noteId tagId state.updatedAt state.vv state.lastWriter)
  | noteTagRemove {noteId tagId : Uuid} {state : NoteTagState}
      (hfile : tree.readAssocState noteId tagId = some state)
      (hdetached : state.deletedAt ≠ none) :
      Carries tree (.noteTag noteId tagId)
        (.noteTagRemove noteId tagId state.updatedAt state.vv state.lastWriter)
  | resourceCreate {noteId id : Uuid} {stored : StoredResource}
      (hfile : tree.resourceFile noteId id = some (.readable stored)) :
      Carries tree (.resource noteId id) (.resourceCreate stored.resource none)
  | resourceDelete {noteId id : Uuid} {stored : StoredResource} {deletedAt : DateTime}
      (hfile : tree.resourceFile noteId id = some (.readable stored))
      (hdeleted : stored.resource.deletedAt = some deletedAt) :
      Carries tree (.resource noteId id)
        (.resourceDelete id deletedAt stored.resource.vv stored.resource.lastWriter)

/-- What a snapshot tells of a sidecar is what the sidecar holds. -/
theorem carries_of_changeAt {tree : FsTree} {path : SidecarPath} {change : Change}
    (hchange : tree.changeAt path = some change) : tree.Carries path change := by
  cases path with
  | notebook id =>
      simp only [changeAt] at hchange
      split at hchange
      · next value hfile =>
          obtain rfl := Option.some.inj hchange
          cases hdeleted : value.deletedAt with
          | none => simpa only [Notebook.told, hdeleted] using Carries.notebookCreate hfile
          | some deletedAt =>
              simpa only [Notebook.told, hdeleted] using Carries.notebookDelete hfile hdeleted
      · contradiction
  | tag id =>
      simp only [changeAt] at hchange
      split at hchange
      · next value hfile =>
          obtain rfl := Option.some.inj hchange
          cases hdeleted : value.deletedAt with
          | none => simpa only [Tag.told, hdeleted] using Carries.tagCreate hfile
          | some deletedAt =>
              simpa only [Tag.told, hdeleted] using Carries.tagDelete hfile hdeleted
      · contradiction
  | noteTag noteId tagId =>
      obtain ⟨state, hfile, rfl⟩ := Option.map_eq_some_iff.mp hchange
      cases hdeleted : state.deletedAt with
      | none => simpa only [NoteTagState.told, hdeleted] using Carries.noteTagAdd hfile hdeleted
      | some deletedAt =>
          have hdetached : state.deletedAt ≠ none := by simp [hdeleted]
          simpa only [NoteTagState.told, hdeleted] using Carries.noteTagRemove hfile hdetached
  | resource noteId id =>
      simp only [changeAt] at hchange
      split at hchange
      · next stored hfile =>
          obtain rfl := Option.some.inj hchange
          cases hdeleted : stored.resource.deletedAt with
          | none => simpa only [Resource.told, hdeleted] using Carries.resourceCreate hfile
          | some deletedAt =>
              simpa only [Resource.told, hdeleted] using Carries.resourceDelete hfile hdeleted
      · contradiction

/-- The line of a mutation is read as a change of the mutator's kind, which carries the
sidecar the mutation has written. -/
structure Agrees (tree : FsTree) (forms : TextForms) (place : Uuid → Nat) (ts : DateTime)
    (write : LocalWrite) (mutation : Mutation) (path : SidecarPath) (change : Change) :
    Prop where
  filed : path.entity = write.entity
  operation : change.operation = write.operation
  told : Wire.lineToChange forms ((mutation.record.at ts).line forms) = some change
  carries : (tree.performAll place mutation.writes).Carries path change

section Agrees

variable {tree : FsTree} (forms : TextForms) (place : Uuid → Nat) (ts : DateTime)
  {mutation : Mutation}

theorem told_of_kinded {record : LogRecord} {change : Change}
    (hkinded : Kinded record.entityType record.operation record.data)
    (htold : logEntryToChange (record.at ts) = some change) :
    Wire.lineToChange forms ((record.at ts).line forms) = some change :=
  (lineToChange_line forms hkinded).trans htold

/-- A sidecar that is written is carried by what a snapshot tells of it. -/
theorem carries_of_writes {writes : List TreeWrite} {write : TreeWrite} {path : SidecarPath}
    {change : Change} (hwrites : writes = [write])
    (hwrite : write.sidecar? = some (path, change)) :
    (tree.performAll place writes).Carries path change := by
  subst hwrites
  exact carries_of_changeAt ((changeAt_perform tree place hwrite path).trans (if_pos rfl))

theorem createNotebook_agrees {notebook : Notebook}
    (hwrite : tree.createNotebook notebook = .ok mutation) :
    ∃ path change, tree.Agrees forms place ts (.createNotebook notebook) mutation path change := by
  obtain ⟨vv, _, rfl⟩ := exists_of_map_ok hwrite
  refine ⟨.notebook notebook.id, _, rfl, rfl,
    told_of_kinded forms ts (.notebookCreate _) rfl, .notebookCreate ?_⟩
  simp [performAll, perform]

theorem updateNotebook_agrees {notebook : Notebook}
    (hwrite : tree.updateNotebook notebook = .ok mutation) :
    ∃ path change, tree.Agrees forms place ts (.updateNotebook notebook) mutation path change := by
  simp only [updateNotebook] at hwrite
  split at hwrite
  · obtain ⟨vv, _, rfl⟩ := exists_of_map_ok hwrite
    refine ⟨.notebook notebook.id, _, rfl, rfl,
      told_of_kinded forms ts (.notebookUpdate _) rfl, .notebookUpdate ?_⟩
    simp [performAll, perform]
  · contradiction

theorem deleteNotebook_agrees {id : Uuid} {deletedAt : DateTime}
    (hwrite : tree.deleteNotebook id deletedAt = .ok mutation) :
    ∃ path change, tree.Agrees forms place ts (.deleteNotebook id) mutation path change := by
  simp only [deleteNotebook] at hwrite
  split at hwrite
  · contradiction
  · contradiction
  · cases hwrite
    exact ⟨.notebook id, _, rfl, rfl, told_of_kinded forms ts (.notebookDelete _ _ _) rfl,
      carries_of_writes place rfl rfl⟩

theorem createTag_agrees {tag : Tag} (hwrite : tree.createTag tag = .ok mutation) :
    ∃ path change, tree.Agrees forms place ts (.createTag tag) mutation path change := by
  obtain ⟨vv, _, rfl⟩ := exists_of_map_ok hwrite
  refine ⟨.tag tag.id, _, rfl, rfl, told_of_kinded forms ts (.tagCreate _) rfl, .tagCreate ?_⟩
  simp [performAll, perform]

theorem updateTag_agrees {tag : Tag} (hwrite : tree.updateTag tag = .ok mutation) :
    ∃ path change, tree.Agrees forms place ts (.updateTag tag) mutation path change := by
  simp only [updateTag] at hwrite
  split at hwrite
  · obtain ⟨vv, _, rfl⟩ := exists_of_map_ok hwrite
    refine ⟨.tag tag.id, _, rfl, rfl, told_of_kinded forms ts (.tagUpdate _) rfl, .tagUpdate ?_⟩
    simp [performAll, perform]
  · contradiction

theorem deleteTag_agrees {id : Uuid} {deletedAt : DateTime}
    (hwrite : tree.deleteTag id deletedAt = .ok mutation) :
    ∃ path change, tree.Agrees forms place ts (.deleteTag id) mutation path change := by
  simp only [deleteTag] at hwrite
  split at hwrite
  · contradiction
  · contradiction
  · cases hwrite
    exact ⟨.tag id, _, rfl, rfl, told_of_kinded forms ts (.tagDelete _ _ _) rfl,
      carries_of_writes place rfl rfl⟩

theorem addNoteTag_agrees {noteTag : NoteTag} {updatedAt : DateTime}
    (hwrite : tree.addNoteTag noteTag updatedAt = .ok mutation) :
    ∃ path change, tree.Agrees forms place ts (.addNoteTag noteTag) mutation path change := by
  simp only [addNoteTag] at hwrite
  repeat' split at hwrite
  all_goals first | contradiction | skip
  cases hwrite
  exact ⟨.noteTag noteTag.noteId noteTag.tagId, _, rfl, rfl,
    told_of_kinded forms ts (.noteTagAdd _ _ _ _) rfl, carries_of_writes place rfl rfl⟩

theorem removeNoteTag_agrees {noteId tagId : Uuid} {updatedAt : DateTime}
    (hwrite : tree.removeNoteTag noteId tagId updatedAt = .ok mutation) :
    ∃ path change, tree.Agrees forms place ts (.removeNoteTag noteId tagId) mutation path
      change := by
  cases hwrite
  exact ⟨.noteTag noteId tagId, _, rfl, rfl,
    told_of_kinded forms ts (.noteTagRemove _ _ _ _) rfl, carries_of_writes place rfl rfl⟩

theorem createResource_agrees {contentHash : List UInt8 → String} {resource : Resource}
    {data : List UInt8} (hwrite : tree.createResource contentHash resource data = .ok mutation) :
    ∃ path change, tree.Agrees forms place ts (.createResource resource data) mutation path
      change := by
  obtain ⟨vv, _, rfl⟩ := exists_of_map_ok hwrite
  have hfile := resourceFile_perform_resource
    (tree.perform place (.blob resource.noteId (contentHash data) data)) place resource.noteId
    resource.id ⟨{ resource with vv, lastWriter := tree.deviceId }, contentHash data⟩
    resource.noteId resource.id
  rw [if_pos ⟨rfl, rfl⟩] at hfile
  exact ⟨.resource resource.noteId resource.id, _, rfl, rfl,
    told_of_kinded forms ts (.resourceCreate _) rfl, .resourceCreate hfile⟩

theorem deleteResource_agrees {id : Uuid} {deletedAt : DateTime}
    (hwrite : tree.deleteResource id deletedAt = .ok mutation) :
    ∃ path change, tree.Agrees forms place ts (.deleteResource id) mutation path change := by
  simp only [deleteResource] at hwrite
  split at hwrite
  · contradiction
  · contradiction
  · next noteId stored _ =>
      cases hwrite
      exact ⟨.resource noteId id, _, rfl, rfl,
        told_of_kinded forms ts (.resourceDelete _ _ _) rfl, carries_of_writes place rfl rfl⟩

/-- Every mutation of a sidecar is told as it was stored. -/
theorem localWrite_agrees {contentHash : List UInt8 → String} {now : DateTime}
    {write : LocalWrite} (hwrite : tree.localWrite contentHash now write = some (.ok mutation)) :
    ∃ path change, tree.Agrees forms place ts write mutation path change := by
  cases write with
  | createNotebook notebook =>
      exact createNotebook_agrees forms place ts (Option.some.inj hwrite)
  | updateNotebook notebook =>
      exact updateNotebook_agrees forms place ts (Option.some.inj hwrite)
  | deleteNotebook id => exact deleteNotebook_agrees forms place ts (Option.some.inj hwrite)
  | createTag tag => exact createTag_agrees forms place ts (Option.some.inj hwrite)
  | updateTag tag => exact updateTag_agrees forms place ts (Option.some.inj hwrite)
  | deleteTag id => exact deleteTag_agrees forms place ts (Option.some.inj hwrite)
  | addNoteTag noteTag => exact addNoteTag_agrees forms place ts (Option.some.inj hwrite)
  | removeNoteTag noteId tagId =>
      exact removeNoteTag_agrees forms place ts (Option.some.inj hwrite)
  | createResource resource data =>
      exact createResource_agrees forms place ts (Option.some.inj hwrite)
  | deleteResource id => exact deleteResource_agrees forms place ts (Option.some.inj hwrite)
  | createNote note => contradiction
  | updateNote note => contradiction
  | deleteNote id => contradiction

end Agrees

/-- The text of the file at a path is one that reads as what the tree has there. -/
inductive HasText (tree : FsTree) (forms : TextForms) : SidecarPath → Option Value → Prop where
  | notebook {id : Uuid} {value : Notebook} {text : Value}
      (hfile : tree.notebooks.file? id = some (.readable value))
      (htext : forms.notebook.fromValue text = some value) :
      HasText tree forms (.notebook id) (some text)
  | tag {id : Uuid} {value : Tag} {text : Value}
      (hfile : tree.tags.file? id = some (.readable value))
      (htext : forms.tag.fromValue text = some value) :
      HasText tree forms (.tag id) (some text)
  | noteTag {noteId tagId : Uuid} {text : Option Value}
      (hfile : tree.readAssocState noteId tagId = some (forms.readAssocState text)) :
      HasText tree forms (.noteTag noteId tagId) text
  | resource {noteId id : Uuid} {stored : StoredResource} {text : Value}
      (hfile : tree.resourceFile noteId id = some (.readable stored))
      (htext : forms.storedResource.fromValue text = some stored) :
      HasText tree forms (.resource noteId id) (some text)

end FsTree

section Snapshots

variable (forms : TextForms)

/-- A payload has its deletion, its vector and its writer as the members a snapshot reads. -/
theorem LogData.get_toValue (data : LogData) :
    (((data.toValue forms).get "deleted_at").bind fun found =>
        found.asStr.bind forms.parseDateTime) = data.deletedAt ∧
      ((data.toValue forms).get "vv").bind vvCodec.fromValue = some data.vv ∧
      ((data.toValue forms).get "last_writer").bind Value.asStr = some data.lastWriter := by
  have hmember := forms.asStr_optional_instant
  have hvector : ∀ vector, vvCodec.fromValue ((vvCodec.orDefault ∅).write vector) = some vector :=
    vvCodec.roundTrip
  cases data with
  | note value => exact ⟨hmember value.deletedAt, hvector value.vv, rfl⟩
  | notebook value => exact ⟨hmember value.deletedAt, hvector value.vv, rfl⟩
  | tag value => exact ⟨hmember value.deletedAt, hvector value.vv, rfl⟩
  | resource value => exact ⟨hmember value.deletedAt, hvector value.vv, rfl⟩
  | tombstone at_ vector writer => exact ⟨hmember (some at_), hvector vector, rfl⟩
  | assoc attached at_ vector writer => exact ⟨rfl, hvector vector, rfl⟩

theorem snapshotEntryFromValue_wire (entityType : EntityType) (id : Uuid) (ts : DateTime)
    (data : LogData) :
    Wire.snapshotEntryFromValue forms entityType.text id ts (data.toValue forms) =
      (snapshotEntryFromValue entityType id ts data).wire forms := by
  obtain ⟨hdeleted, hvv, hwriter⟩ := data.get_toValue forms
  simp only [Wire.snapshotEntryFromValue, hdeleted, hvv, hwriter, snapshotEntryFromValue]
  cases data.deletedAt <;> rfl

/-- The entry made of a sidecar is read as what the sidecar is told as. -/
theorem snapshotEntry_told {A : Type} {codec : Codec A} {value : A} {text : Value}
    {entityType : EntityType} {data : LogData} {id : Uuid} {ts : DateTime} {change : Change}
    (htext : codec.fromValue text = some value)
    (hdata : codec.toValue value = data.toValue forms)
    (hcreate : Kinded entityType .create data)
    (hdelete : ∀ at_ vector writer,
      Kinded entityType .delete (.tombstone at_ vector writer))
    (htold : logEntryToChange (snapshotEntryFromValue entityType id ts data) = some change) :
    ∃ entry, Wire.snapshotEntryFromSidecar forms codec entityType.text id ts text = some entry ∧
      Wire.logEntryToChange forms entry = some change := by
  refine ⟨(snapshotEntryFromValue entityType id ts data).wire forms, ?_, ?_⟩
  · rw [Wire.snapshotEntryFromSidecar, htext, Option.map_some, hdata,
      snapshotEntryFromValue_wire]
  · rw [logEntryToChange_wire forms, htold]
    simp only [snapshotEntryFromValue]
    cases data.deletedAt with
    | none => exact hcreate
    | some at_ => exact hdelete at_ data.vv data.lastWriter

theorem assocEntry_wire (noteId tagId : Uuid) (ts : DateTime) (state : NoteTagState) :
    Wire.assocEntry forms noteId tagId ts state =
      (assocEntry noteId tagId ts state).wire forms := by
  simp only [Wire.assocEntry, assocEntry, LogEntry.wire]
  cases state.deletedAt <;> rfl

theorem kinded_assocEntry (noteId tagId : Uuid) (ts : DateTime) (state : NoteTagState) :
    Kinded (assocEntry noteId tagId ts state).entityType
      (assocEntry noteId tagId ts state).operation
      (assocEntry noteId tagId ts state).data := by
  simp only [assocEntry]
  cases state.deletedAt with
  | none => exact .noteTagAdd _ _ _ _
  | some deletedAt => exact .noteTagRemove _ _ _ _

/-- The entry a compaction makes of a file is read as what the file is told as. -/
theorem FsTree.HasText.told {tree : FsTree} {path : SidecarPath} {text : Option Value}
    (htext : tree.HasText forms path text) (ts : DateTime) :
    ∃ entry change, Wire.snapshotFile forms ts path text = some entry ∧
      Wire.logEntryToChange forms entry = some change ∧ tree.changeAt path = some change := by
  cases htext with
  | @notebook id value text hfile hread =>
      obtain ⟨entry, hentry, htold⟩ := snapshotEntry_told forms hread rfl (.notebookCreate value)
        .notebookDelete (logEntryToChange_notebook id ts value)
      exact ⟨entry, _, hentry, htold, by simp only [changeAt, hfile]⟩
  | @tag id value text hfile hread =>
      obtain ⟨entry, hentry, htold⟩ := snapshotEntry_told forms hread rfl (.tagCreate value)
        .tagDelete (logEntryToChange_tag id ts value)
      exact ⟨entry, _, hentry, htold, by simp only [changeAt, hfile]⟩
  | @noteTag noteId tagId text hfile =>
      refine ⟨_, (forms.readAssocState text).told noteId tagId, rfl, ?_, ?_⟩
      · rw [assocEntry_wire, logEntryToChange_wire forms (kinded_assocEntry _ _ _ _),
          logEntryToChange_assoc]
      · rw [changeAt, hfile, Option.map_some]
  | @resource noteId id stored text hfile hread =>
      obtain ⟨entry, hentry, htold⟩ := snapshotEntry_told forms
        (forms.readResource_of_stored hread) rfl (.resourceCreate stored.resource)
        .resourceDelete (logEntryToChange_resource id ts stored.resource)
      exact ⟨entry, _, hentry, htold, by simp only [changeAt, hfile]⟩

end Snapshots

/-- The rows of a database's journal. -/
def Db.changeRows (forms : TextForms) (db : Db) : List Wire.ChangeRow :=
  db.entityChanges.map fun row => Wire.changeRow forms row.changedAt row.change

/-- The rows are read as the changes that were recorded. -/
theorem Db.getChangesSince_changeRows (forms : TextForms) (db : Db) (since : DateTime) :
    Wire.getChangesSince forms (db.changeRows forms) since = db.getChangesSince since := by
  have hchangedAt : ∀ row : EntityChange,
      (Wire.changeRow forms row.changedAt row.change).changedAt = row.changedAt := by
    intro row
    cases row.change <;> rfl
  simp only [Wire.getChangesSince, Db.changeRows, Db.getChangesSince, List.filter_map,
    List.filterMap_map, Function.comp_def, hchangedAt, Wire.rowToChange_changeRow]
  exact congrFun List.filterMap_eq_map' _

/-- The journals agree with the entities.  The line of a sidecar mutation carries the sidecar
it has written; so does the line a compaction makes of a sidecar, whichever of the texts that
read as the sidecar its file has; and the row of every mutation of a database is read as the
change that it records. -/
theorem journals_agree (forms : TextForms) :
    (∀ (tree : FsTree) (contentHash : List UInt8 → String) (place : Uuid → Nat)
        (now ts : DateTime) (write : LocalWrite) (mutation : Mutation),
      tree.localWrite contentHash now write = some (.ok mutation) →
      ∃ path change, tree.Agrees forms place ts write mutation path change) ∧
    (∀ (tree : FsTree) (path : SidecarPath) (text : Option Value) (ts : DateTime),
      tree.HasText forms path text →
      ∃ entry change, Wire.snapshotFile forms ts path text = some entry ∧
        Wire.lineToChange forms ((Wire.LogEntry.codec forms).toValue entry) = some change ∧
        tree.changeAt path = some change ∧ tree.Carries path change) ∧
    (∀ (db after : Db) (ts changedAt : DateTime) (write : LocalWrite),
      db.localWrite ts changedAt write = .ok after →
      ∃ change row, db.Wrote write.entity changedAt after change ∧
        after.changeRows forms = db.changeRows forms ++ [row] ∧
        Wire.rowToChange forms row = some change) := by
  refine ⟨?_, ?_, ?_⟩
  · intro tree contentHash place now ts write mutation hwrite
    exact FsTree.localWrite_agrees forms place ts hwrite
  · intro tree path text ts htext
    obtain ⟨entry, change, hentry, htold, hchange⟩ := htext.told forms ts
    refine ⟨entry, change, hentry, ?_, hchange, FsTree.carries_of_changeAt hchange⟩
    rw [Wire.lineToChange_toValue, htold]
  · intro db after ts changedAt write hwrite
    obtain ⟨change, hwrote⟩ := Db.localWrite_wrote hwrite
    refine ⟨change, Wire.changeRow forms changedAt change, hwrote, ?_, ?_⟩
    · rw [Db.changeRows, hwrote.journaled, List.map_append]
      rfl
    · exact Wire.rowToChange_changeRow forms changedAt change

namespace AgreementWitness

def tree : FsTree := ⟨"A", [], [], [], [], []⟩

def place : Uuid → Nat := fun _ => 0

def db : Db := ⟨"A", ∅, ∅, ∅, ∅, ∅, [], [], none⟩

def written : VersionVector := (∅ : VersionVector).increment "A"

def notebook : Notebook := ⟨7, "work", 0, 0, none, none, written, "A"⟩

/-- The sidecar of a notebook that was deleted. -/
def deleted : FsTree := { tree with
  notebooks := [(7, .readable { notebook with deletedAt := some 0 })] }

/-- A notebook is created, the sidecar of its deletion is compacted, and a tag is detached in
a database. -/
theorem told_of_one :
    (∃ path change, tree.Agrees .sample place 0 (.createNotebook notebook)
      ⟨[.notebook 7 notebook], ⟨.notebook, 7, .create, .notebook notebook⟩⟩ path change) ∧
    (∃ entry change,
      Wire.snapshotFile .sample 0 (.notebook 7)
        (some (TextForms.sample.notebook.toValue { notebook with deletedAt := some 0 })) =
          some entry ∧
      Wire.lineToChange .sample ((Wire.LogEntry.codec .sample).toValue entry) = some change ∧
      deleted.changeAt (.notebook 7) = some change ∧ deleted.Carries (.notebook 7) change) ∧
    (∃ after, db.localWrite 0 0 (.removeNoteTag 7 7) = .ok after ∧
      ∃ change row, db.Wrote (.noteTag 7 7) 0 after change ∧
        after.changeRows .sample = db.changeRows .sample ++ [row] ∧
        Wire.rowToChange .sample row = some change) := by
  obtain ⟨hmutations, hsnapshots, hrows⟩ := journals_agree .sample
  refine ⟨?_, ?_, ?_⟩
  · exact hmutations tree (fun _ => "") place 0 0 (.createNotebook notebook) _ rfl
  · exact hsnapshots deleted (.notebook 7) _ 0
      (.notebook rfl (TextForms.sample.notebook.roundTrip _))
  · exact ⟨_, rfl, hrows db _ 0 0 (.removeNoteTag 7 7) rfl⟩

end AgreementWitness

end Keeplin
