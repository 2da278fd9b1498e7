/-
How changes are written to the journals and read again: the entries of a filesystem journal,
from a mutation or from a sidecar, and the rows of the journal of a database.
-/
import Keeplin.EntityJson
import Keeplin.Snapshot

namespace Keeplin

open Json

namespace Wire

/-- An entry as its line has it. -/
structure LogEntry where
  timestamp : DateTime
  entityType : String
  entityId : Uuid
  operation : String
  data : Value

/-- A row of the table `entity_changes`. -/
structure ChangeRow where
  entityType : String
  entityId : String
  operation : String
  changedAt : DateTime
  data : Value

variable (forms : TextForms)

/-- The identifier of an entry, which older entries have under another name. -/
def readEntityId (value : Value) : Option Uuid :=
  match value.get "entity_id", value.get "note_id" with
  | some id, none => forms.id.fromValue id
  | none, some id => forms.id.fromValue id
  | _, _ => none

/-- A line of the journal. -/
def LogEntry.codec : Codec LogEntry where
  toValue entry := .object [
    ("timestamp", forms.instant.required.write entry.timestamp),
    ("entity_type", (Codec.string.orDefault "note").write entry.entityType),
    ("entity_id", forms.id.toValue entry.entityId),
    ("operation", Codec.string.required.write entry.operation),
    ("data", entry.data)]
  fromValue value := do
    let timestamp ← forms.instant.required.read (value.get "timestamp")
    let entityType ← (Codec.string.orDefault "note").read (value.get "entity_type")
    let entityId ← readEntityId forms value
    let operation ← Codec.string.required.read (value.get "operation")
    let data ← value.get "data"
    return ⟨timestamp, entityType, entityId, operation, data⟩
  roundTrip entry := by simp [readEntityId]
  notNull _ := Value.noConfusion

def tombstoneValue (deletedAt : DateTime) (vv : VersionVector) (lastWriter : String) : Value :=
  .object [
    ("deleted_at", forms.instant.toValue deletedAt),
    ("vv", vvCodec.toValue vv),
    ("last_writer", .string lastWriter)]

def assocValue (tagId : Uuid) (updatedAt : DateTime) (vv : VersionVector) (lastWriter : String) :
    Value :=
  .object [
    ("tag_id", forms.id.toValue tagId),
    ("updated_at", forms.instant.toValue updatedAt),
    ("vv", vvCodec.toValue vv),
    ("last_writer", .string lastWriter)]

/-- An instant, a vector and a writer, each with a default. -/
def versionFromData (name : String) (data : Value) (fallbackTs : DateTime) :
    DateTime × VersionVector × String :=
  (((data.get name).bind fun found => found.asStr.bind forms.parseDateTime).getD fallbackTs,
    ((data.get "vv").bind vvCodec.fromValue).getD ∅,
    ((data.get "last_writer").bind Value.asStr).getD "")

def fsTombstoneValue := tombstoneValue forms

def fsAssocValue := assocValue forms

def fsTombstoneFromData := versionFromData forms "deleted_at"

def fsAssocFromData := versionFromData forms "updated_at"

def tombstoneData := tombstoneValue forms

def assocData := assocValue forms

def tombstoneFromData := versionFromData forms "deleted_at"

def assocFromData := versionFromData forms "updated_at"

def tagIdFromData (data : Value) : Option Uuid :=
  ((data.get "tag_id").bind Value.asStr).bind forms.parseUuid

@[simp] theorem versionFromData_tombstoneValue (deletedAt fallbackTs : DateTime)
    (vv : VersionVector) (lastWriter : String) :
    versionFromData forms "deleted_at" (tombstoneValue forms deletedAt vv lastWriter) fallbackTs =
      (deletedAt, vv, lastWriter) := by
  simp [versionFromData, tombstoneValue, TextForms.instant, Codec.ofText,
    forms.parseDateTime_dateTime]

@[simp] theorem versionFromData_assocValue (tagId : Uuid) (updatedAt fallbackTs : DateTime)
    (vv : VersionVector) (lastWriter : String) :
    versionFromData forms "updated_at" (assocValue forms tagId updatedAt vv lastWriter)
      fallbackTs = (updatedAt, vv, lastWriter) := by
  simp [versionFromData, assocValue, TextForms.instant, Codec.ofText,
    forms.parseDateTime_dateTime]

@[simp] theorem tagIdFromData_assocValue (tagId : Uuid) (updatedAt : DateTime)
    (vv : VersionVector) (lastWriter : String) :
    tagIdFromData forms (assocValue forms tagId updatedAt vv lastWriter) = some tagId := by
  simp [tagIdFromData, assocValue, TextForms.id, Codec.ofText, forms.parseUuid_uuid]

def snapshotEntryFromValue (kind : String) (id : Uuid) (ts : DateTime) (value : Value) :
    LogEntry :=
  match (value.get "deleted_at").bind fun found => found.asStr.bind forms.parseDateTime with
  | some deletedAt =>
      let vv := ((value.get "vv").bind vvCodec.fromValue).getD ∅
      let lastWriter := ((value.get "last_writer").bind Value.asStr).getD ""
      ⟨ts, kind, id, "delete", fsTombstoneValue forms deletedAt vv lastWriter⟩
  | none => ⟨ts, kind, id, "create", value⟩

/-- A sidecar is read as an entity, which is written anew. -/
def snapshotEntryFromSidecar {A : Type} (codec : Codec A) (kind : String) (id : Uuid)
    (ts : DateTime) (sidecar : Value) : Option LogEntry :=
  (codec.fromValue sidecar).map fun concrete =>
    snapshotEntryFromValue forms kind id ts (codec.toValue concrete)

/-- The entry of an association in a snapshot. -/
def assocEntry (noteId tagId : Uuid) (ts : DateTime) (state : NoteTagState) : LogEntry where
  timestamp := ts
  entityType := "note_tag"
  entityId := noteId
  operation := if state.deletedAt.isSome then "remove" else "add"
  data := fsAssocValue forms tagId state.updatedAt state.vv state.lastWriter

/-- What a compaction makes of the file of a sidecar.  A resource's is read as a resource,
and an association's as its state. -/
def snapshotFile (ts : DateTime) : SidecarPath → Option Value → Option LogEntry
  | .notebook id, file => file.bind (snapshotEntryFromSidecar forms forms.notebook "notebook" id ts)
  | .tag id, file => file.bind (snapshotEntryFromSidecar forms forms.tag "tag" id ts)
  | .resource _ id, file =>
      file.bind (snapshotEntryFromSidecar forms forms.resource "resource" id ts)
  | .noteTag noteId tagId, file =>
      some (assocEntry forms noteId tagId ts (forms.readAssocState file))

def logEntryToChange (entry : LogEntry) : Option Change :=
  let id := entry.entityId
  let ts := entry.timestamp
  match entry.entityType, entry.operation with
  | "note", "create" | "note", "note_create" =>
      (forms.note.fromValue entry.data).map .noteCreate
  | "note", "update" | "note", "note_update" =>
      (forms.note.fromValue entry.data).map .noteUpdate
  | "note", "delete" | "note", "note_delete" =>
      let (deletedAt, vv, lastWriter) := fsTombstoneFromData forms entry.data ts
      some (.noteDelete id deletedAt vv lastWriter)
  | "notebook", "create" => (forms.notebook.fromValue entry.data).map .notebookCreate
  | "notebook", "update" => (forms.notebook.fromValue entry.data).map .notebookUpdate
  | "notebook", "delete" =>
      let (deletedAt, vv, lastWriter) := fsTombstoneFromData forms entry.data ts
      some (.notebookDelete id deletedAt vv lastWriter)
  | "tag", "create" => (forms.tag.fromValue entry.data).map .tagCreate
  | "tag", "update" => (forms.tag.fromValue entry.data).map .tagUpdate
  | "tag", "delete" =>
      let (deletedAt, vv, lastWriter) := fsTombstoneFromData forms entry.data ts
      some (.tagDelete id deletedAt vv lastWriter)
  | "note_tag", "add" =>
      (tagIdFromData forms entry.data).map fun tagId =>
        let (updatedAt, vv, lastWriter) := fsAssocFromData forms entry.data ts
        .noteTagAdd id tagId updatedAt vv lastWriter
  | "note_tag", "remove" =>
      (tagIdFromData forms entry.data).map fun tagId =>
        let (updatedAt, vv, lastWriter) := fsAssocFromData forms entry.data ts
        .noteTagRemove id tagId updatedAt vv lastWriter
  | "resource", "create" =>
      (forms.resource.fromValue entry.data).map fun resource => .resourceCreate resource none
  | "resource", "delete" =>
      let (deletedAt, vv, lastWriter) := fsTombstoneFromData forms entry.data ts
      some (.resourceDelete id deletedAt vv lastWriter)
  | _, _ => none

/-- What a reader of a line takes from it. -/
def lineToChange (line : Value) : Option Change :=
  ((LogEntry.codec forms).fromValue line).bind (logEntryToChange forms)

@[simp] theorem lineToChange_toValue (entry : LogEntry) :
    lineToChange forms ((LogEntry.codec forms).toValue entry) = logEntryToChange forms entry := by
  rw [lineToChange, Codec.roundTrip, Option.bind_some]

/-- What `record_change` inserts. -/
def recordChange (changedAt : DateTime) (entityType : String) (entityId : Uuid)
    (operation : String) (data : Value) : ChangeRow :=
  ⟨entityType, forms.uuid entityId, operation, changedAt, data⟩

/-- A resource with its payload as one more member. -/
def resourceData (resource : Resource) : Option (List UInt8) → Value
  | some data =>
      (forms.resource.toValue resource).set "_data_b64" (.string (forms.base64 data))
  | none => forms.resource.toValue resource

/-- How the mutators record their changes. -/
def changeRow (changedAt : DateTime) : Change → ChangeRow
  | .noteCreate note =>
      recordChange forms changedAt "note" note.id "create" (forms.note.toValue note)
  | .noteUpdate note =>
      recordChange forms changedAt "note" note.id "update" (forms.note.toValue note)
  | .noteDelete id deletedAt vv lastWriter =>
      recordChange forms changedAt "note" id "delete"
        (tombstoneData forms deletedAt vv lastWriter)
  | .notebookCreate notebook =>
      recordChange forms changedAt "notebook" notebook.id "create"
        (forms.notebook.toValue notebook)
  | .notebookUpdate notebook =>
      recordChange forms changedAt "notebook" notebook.id "update"
        (forms.notebook.toValue notebook)
  | .notebookDelete id deletedAt vv lastWriter =>
      recordChange forms changedAt "notebook" id "delete"
        (tombstoneData forms deletedAt vv lastWriter)
  | .tagCreate tag => recordChange forms changedAt "tag" tag.id "create" (forms.tag.toValue tag)
  | .tagUpdate tag => recordChange forms changedAt "tag" tag.id "update" (forms.tag.toValue tag)
  | .tagDelete id deletedAt vv lastWriter =>
      recordChange forms changedAt "tag" id "delete"
        (tombstoneData forms deletedAt vv lastWriter)
  | .noteTagAdd noteId tagId updatedAt vv lastWriter =>
      recordChange forms changedAt "note_tag" noteId "add"
        (assocData forms tagId updatedAt vv lastWriter)
  | .noteTagRemove noteId tagId updatedAt vv lastWriter =>
      recordChange forms changedAt "note_tag" noteId "remove"
        (assocData forms tagId updatedAt vv lastWriter)
  | .resourceCreate resource data =>
      recordChange forms changedAt "resource" resource.id "create"
        (resourceData forms resource data)
  | .resourceDelete id deletedAt vv lastWriter =>
      recordChange forms changedAt "resource" id "delete"
        (tombstoneData forms deletedAt vv lastWriter)

/-- The change of a row, for each kind and operation. -/
def changeOf (entityType operation : String) (id : Uuid) (changedAt : DateTime)
    (data : Value) : Option Change :=
  match entityType, operation with
  | "note", "create" => (forms.note.fromValue data).map .noteCreate
  | "note", "update" => (forms.note.fromValue data).map .noteUpdate
  | "note", "delete" =>
      let (deletedAt, vv, lastWriter) := tombstoneFromData forms data changedAt
      some (.noteDelete id deletedAt vv lastWriter)
  | "notebook", "create" => (forms.notebook.fromValue data).map .notebookCreate
  | "notebook", "update" => (forms.notebook.fromValue data).map .notebookUpdate
  | "notebook", "delete" =>
      let (deletedAt, vv, lastWriter) := tombstoneFromData forms data changedAt
      some (.notebookDelete id deletedAt vv lastWriter)
  | "tag", "create" => (forms.tag.fromValue data).map .tagCreate
  | "tag", "update" => (forms.tag.fromValue data).map .tagUpdate
  | "tag", "delete" =>
      let (deletedAt, vv, lastWriter) := tombstoneFromData forms data changedAt
      some (.tagDelete id deletedAt vv lastWriter)
  | "note_tag", "add" =>
      (tagIdFromData forms data).map fun tagId =>
        let (updatedAt, vv, lastWriter) := assocFromData forms data changedAt
        .noteTagAdd id tagId updatedAt vv lastWriter
  | "note_tag", "remove" =>
      (tagIdFromData forms data).map fun tagId =>
        let (updatedAt, vv, lastWriter) := assocFromData forms data changedAt
        .noteTagRemove id tagId updatedAt vv lastWriter
  | "resource", "create" =>
      let binary := ((data.get "_data_b64").bind Value.asStr).bind forms.decodeBase64
      (forms.resource.fromValue data).map fun resource => .resourceCreate resource binary
  | "resource", "delete" =>
      let (deletedAt, vv, lastWriter) := tombstoneFromData forms data changedAt
      some (.resourceDelete id deletedAt vv lastWriter)
  | _, _ => none

def rowToChange (row : ChangeRow) : Option Change :=
  (forms.parseUuid row.entityId).bind fun id =>
    changeOf forms row.entityType row.operation id row.changedAt row.data

/-- The changes of the rows that were recorded after an instant. -/
def getChangesSince (rows : List ChangeRow) (since : DateTime) : List Change :=
  (rows.filter fun row => since < row.changedAt).filterMap (rowToChange forms)

/-- A resource is read past its payload, and the payload is read. -/
theorem resourceData_read (resource : Resource) (data : Option (List UInt8)) :
    forms.resource.fromValue (resourceData forms resource data) = some resource ∧
      (((resourceData forms resource data).get "_data_b64").bind Value.asStr).bind
        forms.decodeBase64 = data := by
  cases data with
  | none => exact ⟨forms.resource.roundTrip resource, by simp [resourceData, TextForms.resource,
      TextForms.resourceMembers]⟩
  | some data =>
      refine ⟨?_, ?_⟩
      · exact (forms.readResource_set _ _).trans (forms.resource.roundTrip resource)
      · simp [resourceData, TextForms.resource, Value.get_set_self, forms.decodeBase64_base64]

/-- A row is read as the change it was written for. -/
@[simp] theorem rowToChange_changeRow (changedAt : DateTime) (change : Change) :
    rowToChange forms (changeRow forms changedAt change) = some change := by
  cases change with
  | resourceCreate resource data =>
      obtain ⟨hresource, hdata⟩ := resourceData_read forms resource data
      simp [rowToChange, changeRow, recordChange, forms.parseUuid_uuid, changeOf, hresource,
        hdata]
  | noteDelete | notebookDelete | tagDelete | resourceDelete =>
      simp [rowToChange, changeRow, recordChange, forms.parseUuid_uuid, changeOf, tombstoneData,
        tombstoneFromData]
  | noteTagAdd | noteTagRemove =>
      simp [rowToChange, changeRow, recordChange, forms.parseUuid_uuid, changeOf, assocData,
        assocFromData]
  | _ => simp [rowToChange, changeRow, recordChange, forms.parseUuid_uuid, changeOf]

end Wire

end Keeplin
