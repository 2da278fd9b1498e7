/-
The entities a store keeps and the changes devices exchange about them.
Identifiers are the 128-bit values as numbers and instants are nanoseconds
since the epoch.
-/
import Keeplin.VersionVector

namespace Keeplin

abbrev Uuid := Nat

abbrev DateTime := Int

def Uuid.nil : Uuid := 0

/-- The folder of resources that no note of this store owns. -/
def SYSTEM_RESOURCE_NOTE_ID : Uuid := 1

/-- The start of time, which stands in for an instant that was never stored. -/
def epochStart : DateTime := 0

inductive LinkSource where
  | content
  | manual
deriving DecidableEq, Repr

structure Bookmark where
  number : Nat
  text : String
  «alias» : String
deriving DecidableEq, Repr

structure NoteLink where
  source : LinkSource
  raw : String
  targetNoteId : Option Uuid
deriving DecidableEq, Repr

structure Note where
  id : Uuid
  title : String
  body : String
  notebookId : Uuid
  isTodo : Bool
  todoDue : Option DateTime
  todoCompleted : Option DateTime
  createdAt : DateTime
  updatedAt : DateTime
  deletedAt : Option DateTime
  «alias» : Option String
  bookmarks : List Bookmark
  links : List NoteLink
  vv : VersionVector
  lastWriter : String
  isPinned : Bool
  isStarred : Bool
  sortKey : Nat
deriving DecidableEq

structure Notebook where
  id : Uuid
  title : String
  createdAt : DateTime
  updatedAt : DateTime
  deletedAt : Option DateTime
  «alias» : Option String
  vv : VersionVector
  lastWriter : String
deriving DecidableEq

structure Tag where
  id : Uuid
  title : String
  createdAt : DateTime
  updatedAt : DateTime
  deletedAt : Option DateTime
  vv : VersionVector
  lastWriter : String
  system : Bool
deriving DecidableEq

structure NoteTag where
  noteId : Uuid
  tagId : Uuid
deriving DecidableEq, Repr

structure Resource where
  id : Uuid
  noteId : Uuid
  title : String
  mimeType : String
  fileName : String
  size : Nat
  durationMs : Option Nat
  dimensions : Option (Nat × Nat)
  createdAt : DateTime
  deletedAt : Option DateTime
  vv : VersionVector
  lastWriter : String
deriving DecidableEq

/-- One change of one entity, as devices send it to each other. -/
inductive Change where
  | noteCreate (note : Note)
  | noteUpdate (note : Note)
  | noteDelete (id : Uuid) (deletedAt : DateTime) (vv : VersionVector)
      (lastWriter : String)
  | notebookCreate (notebook : Notebook)
  | notebookUpdate (notebook : Notebook)
  | notebookDelete (id : Uuid) (deletedAt : DateTime) (vv : VersionVector)
      (lastWriter : String)
  | tagCreate (tag : Tag)
  | tagUpdate (tag : Tag)
  | tagDelete (id : Uuid) (deletedAt : DateTime) (vv : VersionVector)
      (lastWriter : String)
  | noteTagAdd (noteId tagId : Uuid) (updatedAt : DateTime) (vv : VersionVector)
      (lastWriter : String)
  | noteTagRemove (noteId tagId : Uuid) (updatedAt : DateTime) (vv : VersionVector)
      (lastWriter : String)
  | resourceCreate (resource : Resource) (data : Option (List UInt8))
  | resourceDelete (id : Uuid) (deletedAt : DateTime) (vv : VersionVector)
      (lastWriter : String)
deriving DecidableEq

end Keeplin
