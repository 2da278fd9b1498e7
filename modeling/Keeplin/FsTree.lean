/-
The files of the filesystem store.  A call of the store reads the tree and then
makes a list of writes, each of them one whole file; a call that fails part of
the way has made the first few of them.
-/
import Keeplin.Db
import Keeplin.NoteDir

namespace Keeplin

open VersionVector

/-- A file that should hold a value.  One that does not parse is unreadable. -/
inductive Sidecar (A : Type) where
  | unreadable
  | readable (value : A)
deriving DecidableEq

/-- The projection of a merged note: the note without its body, and the joined
vector of the logs it was merged from. -/
structure NoteMeta where
  note : Note
  vv : VersionVector
deriving DecidableEq

structure StoredResource where
  resource : Resource
  blobHash : String
deriving DecidableEq

structure NoteTagState where
  updatedAt : DateTime
  deletedAt : Option DateTime
  vv : VersionVector
  lastWriter : String
deriving DecidableEq

/-- The folder of one note. -/
structure NoteFolder where
  logs : NoteDir
  md : Option String
  «meta» : Option (Sidecar NoteMeta)
  resources : Directory Uuid (Sidecar StoredResource)
deriving DecidableEq

def NoteFolder.empty : NoteFolder := ⟨[], none, none, []⟩

/-- The store's files.  The payloads of resources, which lie in the note folders
too, are kept apart by note and content hash. -/
structure FsTree where
  deviceId : String
  notes : Directory Uuid NoteFolder
  notebooks : Directory Uuid (Sidecar Notebook)
  tags : Directory Uuid (Sidecar Tag)
  noteTags : Directory Uuid (Directory Uuid (Sidecar NoteTagState))
  blobs : Directory (Uuid × String) (List UInt8)

/-- One write of a whole file. -/
inductive TreeWrite where
  | noteLog (id : Uuid) (device : String) (log : NoteLog)
  | noteMd (id : Uuid) (body : String)
  | noteMeta (id : Uuid) (value : NoteMeta)
  | notebook (id : Uuid) (value : Notebook)
  | tag (id : Uuid) (value : Tag)
  | noteTag (noteId tagId : Uuid) (state : NoteTagState)
  | resource (noteId id : Uuid) (stored : StoredResource)
  | blob (noteId : Uuid) (hash : String) (data : List UInt8)
deriving DecidableEq

/-- What a call does: the writes it makes, in order, and what it returns. -/
structure Plan (A : Type) where
  writes : List TreeWrite
  result : Except StorageError A

namespace Plan

variable {A B : Type}

def fail (failure : StorageError) : Plan A := ⟨[], .error failure⟩

def done (value : A) : Plan A := ⟨[], .ok value⟩

def bind (plan : Plan A) (next : A → Plan B) : Plan B :=
  match plan.result with
  | .error failure => ⟨plan.writes, .error failure⟩
  | .ok value => ⟨plan.writes ++ (next value).writes, (next value).result⟩

/-- Start a call with a read that may fail. -/
def reading (read : Except StorageError A) (next : A → Plan B) : Plan B :=
  match read with
  | .error failure => fail failure
  | .ok value => next value

/-- Every write of the plan is one of these. -/
def Writes (plan : Plan A) (allowed : TreeWrite → Prop) : Prop :=
  ∀ write ∈ plan.writes, allowed write

variable {allowed : TreeWrite → Prop}

theorem writes_reading {read : Except StorageError A} {next : A → Plan B}
    (hnext : ∀ value, read = .ok value → (next value).Writes allowed) :
    (reading read next).Writes allowed := by
  cases read with
  | error failure => exact fun write hwrite => absurd hwrite List.not_mem_nil
  | ok value => exact hnext value rfl

theorem writes_bind {plan : Plan A} {next : A → Plan B} (hplan : plan.Writes allowed)
    (hnext : ∀ value, plan.result = .ok value → (next value).Writes allowed) :
    (plan.bind next).Writes allowed := by
  intro write hwrite
  simp only [Plan.bind] at hwrite
  split at hwrite
  · exact hplan write hwrite
  · next value hvalue =>
      rcases List.mem_append.mp hwrite with hfirst | hlater
      · exact hplan write hfirst
      · exact hnext value hvalue write hlater

theorem writes_done (value : A) : (done value).Writes allowed :=
  fun _ hwrite => absurd hwrite List.not_mem_nil

end Plan

namespace FsTree

variable (tree : FsTree)

def noteFolder (id : Uuid) : NoteFolder :=
  (tree.notes.file? id).getD .empty

def noteLogs (id : Uuid) : List NoteLog :=
  readNoteLogs (tree.noteFolder id).logs

def mergeLogs (id : Uuid) : Except StorageError Merged :=
  match merge (tree.noteLogs id) with
  | some merged => .ok merged
  | none => .error .panic

def mergeNote (id : Uuid) : Except StorageError (Option Note) :=
  (tree.mergeLogs id).map Merged.note

/-- The vector the projection of a note was made from. -/
def noteVv (id : Uuid) : Except StorageError VersionVector :=
  match (tree.noteFolder id).meta with
  | none => .ok ∅
  | some .unreadable => .error .corruptedData
  | some (.readable value) => .ok value.vv

def allNoteIds : List Uuid :=
  tree.notes.map Prod.fst

def noteResourceIds (noteId : Uuid) : List Uuid :=
  (tree.noteFolder noteId).resources.map Prod.fst

def resourceFile (noteId id : Uuid) : Option (Sidecar StoredResource) :=
  (tree.noteFolder noteId).resources.file? id

/-- The first note folder of the listing that has a file for the resource. -/
def locateResourceNote (id : Uuid) : Option Uuid :=
  tree.allNoteIds.find? fun noteId => (tree.resourceFile noteId id).isSome

def readResourceSidecar (id : Uuid) :
    Except StorageError (Option (Uuid × StoredResource)) :=
  match tree.locateResourceNote id with
  | none => .ok none
  | some noteId =>
      match tree.resourceFile noteId id with
      | none => .ok none
      | some .unreadable => .error .corruptedData
      | some (.readable stored) => .ok (some (noteId, stored))

/-- What stands in for an association whose file is empty or corrupt: attached,
older than any version. -/
def assocMarker : NoteTagState := ⟨epochStart, none, ∅, ""⟩

def readAssocState (noteId tagId : Uuid) : Option NoteTagState :=
  match (tree.noteTags.file? noteId).bind fun tags => tags.file? tagId with
  | none => none
  | some .unreadable => some assocMarker
  | some (.readable state) => some state

def sidecarVv {A : Type} (vv : A → VersionVector) :
    Option (Sidecar A) → Except StorageError VersionVector
  | none => .ok ∅
  | some .unreadable => .error .corruptedData
  | some (.readable value) => .ok (vv value)

def nextSidecarVv {A : Type} (vv : A → VersionVector) (file : Option (Sidecar A)) :
    Except StorageError VersionVector :=
  (sidecarVv vv file).map fun current => current.increment tree.deviceId

def nextAssocVv (noteId tagId : Uuid) : VersionVector :=
  (((tree.readAssocState noteId tagId).map NoteTagState.vv).getD ∅).increment tree.deviceId

def nextResourceVv (id : Uuid) : Except StorageError VersionVector :=
  (tree.readResourceSidecar id).map fun
    | none => (∅ : VersionVector).increment tree.deviceId
    | some (_, stored) => stored.resource.vv.increment tree.deviceId

/-- The resolution of an incoming version against a sidecar. -/
def sidecarIncomingWins {A : Type} (version : A → Version) (file : Option (Sidecar A))
    (incomingVv : VersionVector) (incomingUpdated : DateTime) (incomingWriter : String) :
    Except StorageError Bool :=
  match file with
  | none => .ok true
  | some .unreadable => .error .corruptedData
  | some (.readable value) =>
      .ok (resolve (version value).vv (version value).timestamp (version value).writer
        incomingVv incomingUpdated incomingWriter = .incoming)

def assocIncomingWins (noteId tagId : Uuid) (incomingVv : VersionVector)
    (incomingUpdated : DateTime) (incomingWriter : String) : Bool :=
  match tree.readAssocState noteId tagId with
  | none => true
  | some state =>
      resolve state.vv state.updatedAt state.lastWriter
        incomingVv incomingUpdated incomingWriter = .incoming

def resourceIncomingWins (id : Uuid) (incomingVv : VersionVector)
    (incomingTs : DateTime) (incomingWriter : String) : Except StorageError Bool :=
  (tree.readResourceSidecar id).map fun
    | none => true
    | some (_, stored) =>
        resolve stored.resource.vv
          (stored.resource.deletedAt.getD stored.resource.createdAt)
          stored.resource.lastWriter incomingVv incomingTs incomingWriter = .incoming

/-- Change the folder of a note, which is made when it does not exist.  `place`
says where in its directory a new name shows up. -/
def modifyNote (place : Uuid → Nat) (id : Uuid) (change : NoteFolder → NoteFolder) :
    FsTree :=
  { tree with notes := tree.notes.put (place id) id (change (tree.noteFolder id)) }

def perform (place : Uuid → Nat) : TreeWrite → FsTree
  | .noteLog id device log =>
      tree.modifyNote place id fun folder =>
        { folder with logs := writeNoteLog folder.logs device log }
  | .noteMd id body => tree.modifyNote place id fun folder => { folder with md := body }
  | .noteMeta id value =>
      tree.modifyNote place id fun folder =>
        { folder with «meta» := some (.readable value) }
  | .notebook id value =>
      { tree with notebooks := tree.notebooks.put (place id) id (.readable value) }
  | .tag id value =>
      { tree with tags := tree.tags.put (place id) id (.readable value) }
  | .noteTag noteId tagId state =>
      { tree with
        noteTags := tree.noteTags.put (place noteId) noteId
          (((tree.noteTags.file? noteId).getD []).put (place tagId) tagId
            (.readable state)) }
  | .resource noteId id stored =>
      tree.modifyNote place noteId fun folder =>
        { folder with
          resources := folder.resources.put (place id) id (.readable stored) }
  | .blob noteId hash data =>
      { tree with blobs := tree.blobs.put tree.blobs.length (noteId, hash) data }

def performAll (place : Uuid → Nat) (writes : List TreeWrite) : FsTree :=
  writes.foldl (fun tree write => tree.perform place write) tree

theorem deviceId_perform (place : Uuid → Nat) (write : TreeWrite) :
    (tree.perform place write).deviceId = tree.deviceId := by
  cases write <;> rfl

theorem deviceId_performAll (place : Uuid → Nat) (writes : List TreeWrite) :
    (tree.performAll place writes).deviceId = tree.deviceId := by
  induction writes generalizing tree with
  | nil => rfl
  | cons write rest ih =>
      exact (ih (tree.perform place write)).trans (tree.deviceId_perform place write)

/-- What every write keeps, a call keeps. -/
theorem performAll_keeps {good : FsTree → Prop} {place : Uuid → Nat}
    (hkeeps : ∀ tree write, good tree → good (FsTree.perform tree place write))
    {tree : FsTree} (hgood : good tree) (writes : List TreeWrite) :
    good (tree.performAll place writes) := by
  induction writes generalizing tree with
  | nil => exact hgood
  | cons write rest ih => exact ih (hkeeps tree write hgood)

theorem noteFolder_modifyNote (place : Uuid → Nat) (id other : Uuid)
    (change : NoteFolder → NoteFolder) :
    (tree.modifyNote place id change).noteFolder other =
      if id = other then change (tree.noteFolder id) else tree.noteFolder other := by
  simp only [noteFolder, modifyNote, Directory.file?_put]
  split <;> rfl

/-- A part of the folders that a write leaves in the folder it goes to. -/
theorem folder_modifyNote {B : Type} (part : NoteFolder → B) {place : Uuid → Nat} {id : Uuid}
    {change : NoteFolder → NoteFolder} (hkeep : ∀ folder, part (change folder) = part folder)
    (noteId : Uuid) :
    part ((tree.modifyNote place id change).noteFolder noteId) =
      part (tree.noteFolder noteId) := by
  rw [noteFolder_modifyNote]
  split
  · next heq => rw [hkeep, heq]
  · rfl

/-- A write that is not of a log keeps every log. -/
theorem logs_perform_other {place : Uuid → Nat} {write : TreeWrite}
    (hother : ∀ id device log, write ≠ .noteLog id device log) (noteId : Uuid) :
    ((tree.perform place write).noteFolder noteId).logs = (tree.noteFolder noteId).logs := by
  cases write with
  | noteLog id device log => exact absurd rfl (hother id device log)
  | noteMd id body => exact tree.folder_modifyNote NoteFolder.logs (by intro folder; rfl) noteId
  | noteMeta id value => exact tree.folder_modifyNote NoteFolder.logs (by intro folder; rfl) noteId
  | resource id resourceId stored =>
      exact tree.folder_modifyNote NoteFolder.logs (by intro folder; rfl) noteId
  | notebook id value => rfl
  | tag id value => rfl
  | noteTag id tagId state => rfl
  | blob id hash data => rfl

/-- A write that is not of a resource keeps every resource. -/
theorem resources_perform_other {place : Uuid → Nat} {write : TreeWrite}
    (hother : ∀ id resourceId stored, write ≠ .resource id resourceId stored)
    (noteId : Uuid) :
    ((tree.perform place write).noteFolder noteId).resources =
      (tree.noteFolder noteId).resources := by
  cases write with
  | noteLog id device log =>
      exact tree.folder_modifyNote NoteFolder.resources (by intro folder; rfl) noteId
  | noteMd id body =>
      exact tree.folder_modifyNote NoteFolder.resources (by intro folder; rfl) noteId
  | noteMeta id value =>
      exact tree.folder_modifyNote NoteFolder.resources (by intro folder; rfl) noteId
  | resource id resourceId stored => exact absurd rfl (hother id resourceId stored)
  | notebook id value => rfl
  | tag id value => rfl
  | noteTag id tagId state => rfl
  | blob id hash data => rfl

/-- The writes of a projection go to the folder of the note's own id. -/
def projectionWrites (note : Note) (vv : VersionVector) : List TreeWrite :=
  [.noteMd note.id note.body, .noteMeta note.id ⟨{ note with body := "" }, vv⟩]

/-- Merge the logs of a note and write the projection, if there is a note. -/
def materialize (id : Uuid) : Plan (Option Note) :=
  .reading (tree.mergeLogs id) fun merged =>
    match merged.note with
    | none => .done none
    | some note => ⟨projectionWrites note merged.vv, .ok (some note)⟩

/-- One pass over the resources of a note: each readable one may be rewritten,
and the first unreadable one fails the call after the writes before it. -/
def cascadeResources (noteId : Uuid) (change : StoredResource → Option StoredResource) :
    List (Uuid × Sidecar StoredResource) → Plan Unit
  | [] => ⟨[], .ok ()⟩
  | (_, .unreadable) :: _ => ⟨[], .error .corruptedData⟩
  | (id, .readable stored) :: rest =>
      let later := cascadeResources noteId change rest
      match change stored with
      | some rewritten => ⟨.resource noteId id rewritten :: later.writes, later.result⟩
      | none => later

def StoredResource.withDeletedAt (stored : StoredResource) (deletedAt : Option DateTime) :
    StoredResource :=
  { stored with resource := { stored.resource with deletedAt } }

def cascadeStampResources (noteId : Uuid) (deletedAt : DateTime) : Plan Unit :=
  cascadeResources noteId
    (fun stored =>
      if stored.resource.deletedAt = none then
        some (StoredResource.withDeletedAt stored (some deletedAt))
      else none)
    (tree.noteFolder noteId).resources

def cascadeUnstampResources (noteId : Uuid) (deletedAt : DateTime) : Plan Unit :=
  cascadeResources noteId
    (fun stored =>
      if stored.resource.deletedAt = some deletedAt then
        some (StoredResource.withDeletedAt stored none)
      else none)
    (tree.noteFolder noteId).resources

end FsTree

end Keeplin
