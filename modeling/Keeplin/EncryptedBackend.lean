/-
The database behind the encrypting decorator.  What a caller writes is sealed on
the way in and what it reads is opened on the way out; applied changes pass as
they come.
-/
import Keeplin.Attachments
import Keeplin.DbListings
import Keeplin.Encryption

namespace Keeplin

/-- What a write answers. -/
inductive Reply where
  | note (note : Note)
  | notebook (notebook : Notebook)
  | tag (tag : Tag)
  | resource (resource : Resource)
  | count (count : Nat)
  | done

/-- The calls of a backend that write, with the instants they read.  A change was
made by a device with nonces of its own. -/
inductive RepositoryCall where
  | createNote (note : Note) (changedAt : DateTime)
  | updateNote (note : Note) (changedAt : DateTime)
  | deleteNote (id : Uuid) (ts changedAt : DateTime)
  | createNotebook (notebook : Notebook) (changedAt : DateTime)
  | updateNotebook (notebook : Notebook) (changedAt : DateTime)
  | deleteNotebook (id : Uuid) (ts changedAt : DateTime)
  | createTag (tag : Tag) (changedAt : DateTime)
  | updateTag (tag : Tag) (changedAt : DateTime)
  | deleteTag (id : Uuid) (ts changedAt : DateTime)
  | addNoteTag (noteTag : NoteTag) (ts changedAt : DateTime)
  | removeNoteTag (noteId tagId : Uuid) (ts changedAt : DateTime)
  | createResource (resource : Resource) (data : List UInt8) (changedAt : DateTime)
  | deleteResource (id : Uuid) (ts changedAt : DateTime)
  | purgeDeletedResources (olderThan : DateTime)
  | applyChange (change : Change) (peer : Rng)
  | updateSyncTime (ts : DateTime)
  | pruneChangeJournal (olderThan : DateTime)

/-- The calls of a backend that read.  A server may answer for the history, with
what devices with nonces of their own have sent. -/
inductive RepositoryQuery where
  | readNote (id : Uuid)
  | listNotes (pageSize : Nat) (token : Option Text)
  | listNotesInNotebook (notebookId : Uuid) (pageSize : Nat) (token : Option Text)
  | listStarredNotes (pageSize : Nat) (token : Option Text)
  | noteBacklinks (target : Uuid) (pageSize : Nat) (token : Option Text)
  | notebookSortProfile (notebookId : Uuid)
  | readNotebook (id : Uuid)
  | listNotebooks (pageSize : Nat) (token : Option Text)
  | readTag (id : Uuid)
  | listTags (pageSize : Nat) (token : Option Text)
  | listNoteTags (noteId : Uuid) (pageSize : Nat) (token : Option Text)
  | readResource (id : Uuid)
  | listResources (pageSize : Nat) (token : Option Text)
  | listResourcesForNote (noteId : Uuid) (pageSize : Nat) (token : Option Text)
  | noteHistory (id : Uuid) (limit : Nat) (server : Option (List (EntityVersion Note)))
      (peer : Rng)
  | notebookHistory (id : Uuid) (limit : Nat) (server : Option (List (EntityVersion Notebook)))
      (peer : Rng)

/-- What a read answers. -/
inductive Answer where
  | note (note : Note)
  | notes (page : List Note × Option Text)
  | profile (profile : NotebookSortProfile)
  | notebook (notebook : Notebook)
  | notebooks (page : List Notebook × Option Text)
  | tag (tag : Tag)
  | tags (page : List Tag × Option Text)
  | resource (resource : Resource × List UInt8)
  | resources (page : List Resource × Option Text)
  | noteVersions (versions : List (EntityVersion Note))
  | notebookVersions (versions : List (EntityVersion Notebook))

namespace Db

variable (db : Db)

/-- The journal's rows from before the instant go. -/
def pruneChangeJournal (olderThan : DateTime) : Db × Nat :=
  let pruned (entry : EntityChange) : Bool :=
    toSortableRfc3339 entry.changedAt < toSortableRfc3339 olderThan
  ({ db with entityChanges := db.entityChanges.filter fun entry => !pruned entry },
    db.entityChanges.countP pruned)

def repositoryCall : RepositoryCall → Except StorageError (Db × Reply)
  | .createNote note changedAt => (db.createNote note changedAt).map (Prod.map id .note)
  | .updateNote note changedAt => (db.updateNote note changedAt).map (Prod.map id .note)
  | .deleteNote id ts changedAt => (db.deleteNote id ts changedAt).map (·, .done)
  | .createNotebook notebook changedAt =>
      (db.createNotebook notebook changedAt).map (Prod.map id .notebook)
  | .updateNotebook notebook changedAt =>
      (db.updateNotebook notebook changedAt).map (Prod.map id .notebook)
  | .deleteNotebook id ts changedAt => (db.deleteNotebook id ts changedAt).map (·, .done)
  | .createTag tag changedAt => (db.createTag tag changedAt).map (Prod.map id .tag)
  | .updateTag tag changedAt => (db.updateTag tag changedAt).map (Prod.map id .tag)
  | .deleteTag id ts changedAt => (db.deleteTag id ts changedAt).map (·, .done)
  | .addNoteTag noteTag ts changedAt => (db.addNoteTag noteTag ts changedAt).map (·, .done)
  | .removeNoteTag noteId tagId ts changedAt =>
      (db.removeNoteTag noteId tagId ts changedAt).map (·, .done)
  | .createResource resource data changedAt =>
      (db.createResource resource data changedAt).map (Prod.map id .resource)
  | .deleteResource id ts changedAt => (db.deleteResource id ts changedAt).map (·, .done)
  | .purgeDeletedResources olderThan =>
      .ok (Prod.map id .count (db.purgeDeletedResources olderThan))
  | .applyChange change _ => .ok (db.applyChange change, .done)
  | .updateSyncTime ts => .ok (db.updateSyncTime ts, .done)
  | .pruneChangeJournal olderThan => .ok (Prod.map id .count (db.pruneChangeJournal olderThan))

/-- A call that fails leaves the database as it is. -/
def serve (db : Db) (call : RepositoryCall) : Db × Except StorageError Reply :=
  match db.repositoryCall call with
  | .ok (after, reply) => (after, .ok reply)
  | .error failure => (db, .error failure)

def serveAll (db : Db) (calls : List RepositoryCall) : Db :=
  calls.foldl (fun db call => (db.serve call).1) db

def answer : RepositoryQuery → Except StorageError Answer
  | .readNote id => (db.readNote id).map .note
  | .listNotes pageSize token => .ok (.notes (db.listNotes pageSize token))
  | .listNotesInNotebook notebookId pageSize token =>
      .ok (.notes (db.listNotebookNotes notebookId pageSize token))
  | .listStarredNotes pageSize token => .ok (.notes (db.listStarredNotes pageSize token))
  | .noteBacklinks target pageSize token =>
      .ok (.notes (db.noteBacklinks target pageSize token))
  | .notebookSortProfile notebookId => (notebookSortProfile notebookId db).map .profile
  | .readNotebook id => (db.readNotebook id).map .notebook
  | .listNotebooks pageSize token => .ok (.notebooks (db.listNotebooks pageSize token))
  | .readTag id => (db.readTag id).map .tag
  | .listTags pageSize token => .ok (.tags (db.listTags pageSize token))
  | .listNoteTags noteId pageSize token => .ok (.tags (db.listNoteTags noteId pageSize token))
  | .readResource id => (db.readResource id).map .resource
  | .listResources pageSize token => .ok (.resources (db.listResources pageSize token))
  | .listResourcesForNote noteId pageSize token =>
      .ok (.resources (db.listResourcesForNote noteId pageSize token))
  | .noteHistory id limit server _ =>
      .ok (.noteVersions (entityHistory (Change.noteVersion? id) server limit db))
  | .notebookHistory id limit server _ =>
      .ok (.notebookVersions (entityHistory (Change.notebookVersion? id) server limit db))

end Db

def resourcesFrom (items : List Resource) (token : Option Text) : List Resource :=
  itemsFrom Resource.createdAt Resource.id items token

def paginateResources (items : List Resource) (pageSize : Nat) (token : Option Text) :
    List Resource × Option Text :=
  paginateItems Resource.createdAt Resource.id items pageSize token

/-- Follow the tokens of a listing that can fail. -/
def followPages {A : Type} (page : Option Text → Except StorageError (List A × Option Text)) :
    Nat → Option Text → Option (Except StorageError (List A))
  | 0, _ => none
  | fuel + 1, token =>
      match page token with
      | .error failure => some (.error failure)
      | .ok (items, none) => some (.ok items)
      | .ok (items, some next) =>
          (followPages page fuel (some next)).map fun rest => rest.map fun later => items ++ later

structure EncryptedBackend where
  inner : Db
  rng : Rng

namespace EncryptedBackend

/-- A call of the inner backend. -/
def settle (backend : EncryptedBackend) (result : Except StorageError (Db × Reply)) :
    EncryptedBackend × Except StorageError Reply :=
  match result with
  | .ok (inner, reply) => ({ backend with inner }, .ok reply)
  | .error failure => (backend, .error failure)

/-- A write of an entity that is sealed before and opened in the answer. -/
def write {A : Type} (seals : A → StateM Rng A) (opens : A → Except StorageError A)
    (reply : A → Reply) (call : Db → A → Except StorageError (Db × A))
    (backend : EncryptedBackend) (item : A) : EncryptedBackend × Except StorageError Reply :=
  let sealed := seals item backend.rng
  let backend := { backend with rng := sealed.2 }
  match call backend.inner sealed.1 with
  | .ok (inner, stored) => ({ backend with inner }, (opens stored).map reply)
  | .error failure => (backend, .error failure)

section Calls

variable (cipher : Cipher) (backend : EncryptedBackend)

def createNote (note : Note) (changedAt : DateTime) :=
  backend.write cipher.encNote cipher.decNote .note (fun db note => db.createNote note changedAt)
    note

def updateNote (note : Note) (changedAt : DateTime) :=
  backend.write cipher.encNote cipher.decNote .note (fun db note => db.updateNote note changedAt)
    note

def createNotebook (notebook : Notebook) (changedAt : DateTime) :=
  backend.write cipher.encNotebook cipher.decNotebook .notebook
    (fun db notebook => db.createNotebook notebook changedAt) notebook

def updateNotebook (notebook : Notebook) (changedAt : DateTime) :=
  backend.write cipher.encNotebook cipher.decNotebook .notebook
    (fun db notebook => db.updateNotebook notebook changedAt) notebook

def createTag (tag : Tag) (changedAt : DateTime) :=
  backend.write cipher.encTag cipher.decTag .tag (fun db tag => db.createTag tag changedAt) tag

def updateTag (tag : Tag) (changedAt : DateTime) :=
  backend.write cipher.encTag cipher.decTag .tag (fun db tag => db.updateTag tag changedAt) tag

def createResource (resource : Resource) (data : List UInt8) (changedAt : DateTime) :=
  let encData := cipher.encryptBytes data backend.rng
  write cipher.encResource cipher.decResource .resource
    (fun db resource => db.createResource resource encData.1 changedAt)
    { backend with rng := encData.2 } resource

/-- The change arrives as the peer has sealed it. -/
def serve : RepositoryCall → EncryptedBackend × Except StorageError Reply
  | .createNote note changedAt => createNote cipher backend note changedAt
  | .updateNote note changedAt => updateNote cipher backend note changedAt
  | .createNotebook notebook changedAt => createNotebook cipher backend notebook changedAt
  | .updateNotebook notebook changedAt => updateNotebook cipher backend notebook changedAt
  | .createTag tag changedAt => createTag cipher backend tag changedAt
  | .updateTag tag changedAt => updateTag cipher backend tag changedAt
  | .createResource resource data changedAt => createResource cipher backend resource data changedAt
  | .applyChange change peer =>
      backend.settle (backend.inner.repositoryCall
        (.applyChange (cipher.encChange change peer).1 peer))
  | call => backend.settle (backend.inner.repositoryCall call)

def serveAll (calls : List RepositoryCall) : EncryptedBackend :=
  calls.foldl (fun backend call => (serve cipher backend call).1) backend

end Calls

section Queries

/-- A page whose items are opened; the first that does not open fails it. -/
def openPage {A : Type} (opens : A → Except StorageError A) (page : List A × Option Text) :
    Except StorageError (List A × Option Text) :=
  (page.1.mapM opens).map fun items => (items, page.2)

def openVersions {A : Type} (opens : A → Except StorageError A)
    (versions : List (EntityVersion A)) : Except StorageError (List (EntityVersion A)) :=
  versions.mapM fun version =>
    (version.entity.mapM opens).map fun entity => { version with entity }

/-- The history that a server has of what devices have sealed. -/
def sealVersions {A : Type} (seals : A → StateM Rng A) (versions : List (EntityVersion A)) :
    StateM Rng (List (EntityVersion A)) :=
  versions.mapM fun version => do
    let entity ← version.entity.mapM seals
    return { version with entity }

variable (cipher : Cipher) (backend : EncryptedBackend)

def listResources (pageSize : Nat) (token : Option Text) :
    Except StorageError (List Resource × Option Text) :=
  openPage cipher.decResource (backend.inner.listResources pageSize token)

/-- The listing is the trait's default: it follows the pages of all resources, of
which `fuel` bounds the number. -/
def listResourcesForNote (fuel : Nat) (noteId : Uuid) (pageSize : Nat) (token : Option Text) :
    Option (Except StorageError (List Resource × Option Text)) :=
  (followPages (listResources cipher backend 0) fuel none).map fun found =>
    found.map fun resources =>
      paginateResources (resources.filter fun resource => resource.noteId = noteId) pageSize token

def readResource (id : Uuid) : Except StorageError (Resource × List UInt8) := do
  let (resource, encData) ← backend.inner.readResource id
  let data ← cipher.decryptBytes encData
  let resource ← cipher.decResource resource
  return (resource, data)

def answer (fuel : Nat) : RepositoryQuery → Option (Except StorageError Answer)
  | .readNote id => some (((backend.inner.readNote id).bind cipher.decNote).map .note)
  | .listNotes pageSize token =>
      some ((openPage cipher.decNote (backend.inner.listNotes pageSize token)).map .notes)
  | .listNotesInNotebook notebookId pageSize token =>
      some ((openPage cipher.decNote
        (backend.inner.listNotebookNotes notebookId pageSize token)).map .notes)
  | .listStarredNotes pageSize token =>
      some ((openPage cipher.decNote (backend.inner.listStarredNotes pageSize token)).map .notes)
  | .noteBacklinks target pageSize token =>
      some ((openPage cipher.decNote
        (backend.inner.noteBacklinks target pageSize token)).map .notes)
  | .notebookSortProfile notebookId =>
      some ((Db.notebookSortProfile notebookId backend.inner).map .profile)
  | .readNotebook id =>
      some (((backend.inner.readNotebook id).bind cipher.decNotebook).map .notebook)
  | .listNotebooks pageSize token =>
      some ((openPage cipher.decNotebook
        (backend.inner.listNotebooks pageSize token)).map .notebooks)
  | .readTag id => some (((backend.inner.readTag id).bind cipher.decTag).map .tag)
  | .listTags pageSize token =>
      some ((openPage cipher.decTag (backend.inner.listTags pageSize token)).map .tags)
  | .listNoteTags noteId pageSize token =>
      some ((openPage cipher.decTag (backend.inner.listNoteTags noteId pageSize token)).map .tags)
  | .readResource id => some ((readResource cipher backend id).map .resource)
  | .listResources pageSize token =>
      some ((listResources cipher backend pageSize token).map .resources)
  | .listResourcesForNote noteId pageSize token =>
      (listResourcesForNote cipher backend fuel noteId pageSize token).map
        fun found => found.map .resources
  | .noteHistory id limit server peer =>
      let sealed := (server.mapM (sealVersions cipher.encNote) peer).1
      some ((openVersions cipher.decNote
        (Db.entityHistory (Change.noteVersion? id) sealed limit backend.inner)).map .noteVersions)
  | .notebookHistory id limit server peer =>
      let sealed := (server.mapM (sealVersions cipher.encNotebook) peer).1
      some ((openVersions cipher.decNotebook
        (Db.entityHistory (Change.notebookVersion? id) sealed limit backend.inner)).map
          .notebookVersions)

end Queries

end EncryptedBackend

end Keeplin
