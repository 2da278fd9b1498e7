/-
The entries of a device's change journal and their translation to and from the
entities.  An entry's payload is kept as the value it was written from; a field
read of the payload gives what the field of that value holds.
-/
import Keeplin.FsTree

namespace Keeplin

inductive EntityType where
  | note
  | notebook
  | tag
  | noteTag
  | resource
  | unknown
deriving DecidableEq, Repr

inductive Operation where
  | create
  | update
  | delete
  | add
  | remove
  | unknown
deriving DecidableEq, Repr

inductive LogData where
  | note (note : Note)
  | notebook (notebook : Notebook)
  | tag (tag : Tag)
  | resource (resource : Resource)
  | tombstone (deletedAt : DateTime) (vv : VersionVector) (lastWriter : String)
  | assoc (tagId : Uuid) (updatedAt : DateTime) (vv : VersionVector) (lastWriter : String)
deriving DecidableEq

namespace LogData

def deletedAt : LogData → Option DateTime
  | .note value => value.deletedAt
  | .notebook value => value.deletedAt
  | .tag value => value.deletedAt
  | .resource value => value.deletedAt
  | .tombstone at_ _ _ => some at_
  | .assoc _ _ _ _ => none

def updatedAt : LogData → Option DateTime
  | .note value => some value.updatedAt
  | .notebook value => some value.updatedAt
  | .tag value => some value.updatedAt
  | .resource _ => none
  | .tombstone _ _ _ => none
  | .assoc _ at_ _ _ => some at_

def vv : LogData → VersionVector
  | .note value => value.vv
  | .notebook value => value.vv
  | .tag value => value.vv
  | .resource value => value.vv
  | .tombstone _ vector _ => vector
  | .assoc _ _ vector _ => vector

def lastWriter : LogData → String
  | .note value => value.lastWriter
  | .notebook value => value.lastWriter
  | .tag value => value.lastWriter
  | .resource value => value.lastWriter
  | .tombstone _ _ writer => writer
  | .assoc _ _ _ writer => writer

def tagId : LogData → Option Uuid
  | .assoc id _ _ _ => some id
  | _ => none

end LogData

structure LogEntry where
  timestamp : DateTime
  entityType : EntityType
  entityId : Uuid
  operation : Operation
  data : LogData
deriving DecidableEq

/-- What a mutator hands to the journal, which stamps it when it is appended. -/
structure LogRecord where
  entityType : EntityType
  entityId : Uuid
  operation : Operation
  data : LogData
deriving DecidableEq

def LogRecord.at (record : LogRecord) (timestamp : DateTime) : LogEntry :=
  ⟨timestamp, record.entityType, record.entityId, record.operation, record.data⟩

/-- The change an entry tells a peer.  An entry of an unknown kind, or with a
payload of another kind, tells nothing. -/
def logEntryToChange (entry : LogEntry) : Option Change :=
  let id := entry.entityId
  let deletedAt := entry.data.deletedAt.getD entry.timestamp
  let updatedAt := entry.data.updatedAt.getD entry.timestamp
  let vv := entry.data.vv
  let lastWriter := entry.data.lastWriter
  match entry.entityType, entry.operation with
  | .note, .create =>
      match entry.data with
      | .note note => some (.noteCreate note)
      | _ => none
  | .note, .update =>
      match entry.data with
      | .note note => some (.noteUpdate note)
      | _ => none
  | .note, .delete => some (.noteDelete id deletedAt vv lastWriter)
  | .notebook, .create =>
      match entry.data with
      | .notebook notebook => some (.notebookCreate notebook)
      | _ => none
  | .notebook, .update =>
      match entry.data with
      | .notebook notebook => some (.notebookUpdate notebook)
      | _ => none
  | .notebook, .delete => some (.notebookDelete id deletedAt vv lastWriter)
  | .tag, .create =>
      match entry.data with
      | .tag tag => some (.tagCreate tag)
      | _ => none
  | .tag, .update =>
      match entry.data with
      | .tag tag => some (.tagUpdate tag)
      | _ => none
  | .tag, .delete => some (.tagDelete id deletedAt vv lastWriter)
  | .noteTag, .add =>
      entry.data.tagId.map fun tagId => .noteTagAdd id tagId updatedAt vv lastWriter
  | .noteTag, .remove =>
      entry.data.tagId.map fun tagId => .noteTagRemove id tagId updatedAt vv lastWriter
  | .resource, .create =>
      match entry.data with
      | .resource resource => some (.resourceCreate resource none)
      | _ => none
  | .resource, .delete => some (.resourceDelete id deletedAt vv lastWriter)
  | _, _ => none

/-- The snapshot of a sidecar: a delete of what is deleted, else a create. -/
def snapshotEntryFromValue (entityType : EntityType) (id : Uuid) (ts : DateTime)
    (value : LogData) : LogEntry :=
  match value.deletedAt with
  | some deletedAt =>
      ⟨ts, entityType, id, .delete, .tombstone deletedAt value.vv value.lastWriter⟩
  | none => ⟨ts, entityType, id, .create, value⟩

end Keeplin
