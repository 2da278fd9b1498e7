/-
The layer of the daemon that publishes each mutation to the change feed.  A
mutator hands its call to the backend below and, if that succeeds, sends the
change; what sync applies is handed on without a word.
-/
import Keeplin.Linking
import Keeplin.DbListings
import Keeplin.DbSync
import Keeplin.DbLaws

namespace Keeplin

/-- The repositories of a backend, as the layers above call them.  `Clock` are the
instants a call reads.  A call that fails may still have built an index. -/
structure Repositories (S Clock : Type) where
  readNote : Uuid → S → Except StorageError Note
  readNotebook : Uuid → S → Except StorageError Notebook
  listNotes : Nat → Option Text → S → Except StorageError (List Note × Option Text)
  listNoteTags : Uuid → Nat → Option Text → S → Except StorageError (List Tag × Option Text)
  createNote : Clock → Note → S → S × Except StorageError Note
  updateNote : Clock → Note → S → S × Except StorageError Note
  deleteNote : Clock → Uuid → S → S × Except StorageError Unit
  createNotebook : Clock → Notebook → S → S × Except StorageError Notebook
  updateNotebook : Clock → Notebook → S → S × Except StorageError Notebook
  deleteNotebook : Clock → Uuid → S → S × Except StorageError Unit
  createTag : Clock → Tag → S → S × Except StorageError Tag
  updateTag : Clock → Tag → S → S × Except StorageError Tag
  deleteTag : Clock → Uuid → S → S × Except StorageError Unit
  addNoteTag : Clock → NoteTag → S → S × Except StorageError Unit
  removeNoteTag : Clock → Uuid → Uuid → S → S × Except StorageError Unit
  createResource : Clock → Resource → List UInt8 → S → S × Except StorageError Resource
  deleteResource : Clock → Uuid → S → S × Except StorageError Unit
  applyChange : Clock → Change → S → S × Except StorageError Unit

/-- `tx` are the changes sent so far. -/
structure EventBackend (S : Type) where
  inner : S
  tx : List Change

namespace EventBackend

variable {S Clock R : Type} (store : Repositories S Clock)

def publish (change : Change) (backend : EventBackend S) : EventBackend S :=
  { backend with tx := backend.tx ++ [change] }

/-- Hand a call on and publish the change it made. -/
def publishing (call : S → S × Except StorageError R) (event : R → Change)
    (backend : EventBackend S) : EventBackend S × Except StorageError R :=
  match call backend.inner with
  | (inner, .error failure) => ({ backend with inner }, .error failure)
  | (inner, .ok stored) => (publish (event stored) { backend with inner }, .ok stored)

def createNote (clock : Clock) (note : Note) :
    EventBackend S → EventBackend S × Except StorageError Note :=
  publishing (store.createNote clock note) .noteCreate

def updateNote (clock : Clock) (note : Note) :
    EventBackend S → EventBackend S × Except StorageError Note :=
  publishing (store.updateNote clock note) .noteUpdate

/-- `now` is the instant after the delete. -/
def deleteNote (clock : Clock) (now : DateTime) (id : Uuid) :
    EventBackend S → EventBackend S × Except StorageError Unit :=
  publishing (store.deleteNote clock id) fun _ => .noteDelete id now ∅ ""

def createNotebook (clock : Clock) (notebook : Notebook) :
    EventBackend S → EventBackend S × Except StorageError Notebook :=
  publishing (store.createNotebook clock notebook) .notebookCreate

def updateNotebook (clock : Clock) (notebook : Notebook) :
    EventBackend S → EventBackend S × Except StorageError Notebook :=
  publishing (store.updateNotebook clock notebook) .notebookUpdate

def deleteNotebook (clock : Clock) (now : DateTime) (id : Uuid) :
    EventBackend S → EventBackend S × Except StorageError Unit :=
  publishing (store.deleteNotebook clock id) fun _ => .notebookDelete id now ∅ ""

def createTag (clock : Clock) (tag : Tag) :
    EventBackend S → EventBackend S × Except StorageError Tag :=
  publishing (store.createTag clock tag) .tagCreate

def updateTag (clock : Clock) (tag : Tag) :
    EventBackend S → EventBackend S × Except StorageError Tag :=
  publishing (store.updateTag clock tag) .tagUpdate

def deleteTag (clock : Clock) (now : DateTime) (id : Uuid) :
    EventBackend S → EventBackend S × Except StorageError Unit :=
  publishing (store.deleteTag clock id) fun _ => .tagDelete id now ∅ ""

def addNoteTag (clock : Clock) (now : DateTime) (noteTag : NoteTag) :
    EventBackend S → EventBackend S × Except StorageError Unit :=
  publishing (store.addNoteTag clock noteTag) fun _ =>
    .noteTagAdd noteTag.noteId noteTag.tagId now ∅ ""

def removeNoteTag (clock : Clock) (now : DateTime) (noteId tagId : Uuid) :
    EventBackend S → EventBackend S × Except StorageError Unit :=
  publishing (store.removeNoteTag clock noteId tagId) fun _ =>
    .noteTagRemove noteId tagId now ∅ ""

/-- The feed has no bytes of a resource. -/
def createResource (clock : Clock) (resource : Resource) (data : List UInt8) :
    EventBackend S → EventBackend S × Except StorageError Resource :=
  publishing (store.createResource clock resource data) fun stored => .resourceCreate stored none

def deleteResource (clock : Clock) (now : DateTime) (id : Uuid) :
    EventBackend S → EventBackend S × Except StorageError Unit :=
  publishing (store.deleteResource clock id) fun _ => .resourceDelete id now ∅ ""

def applyChange (clock : Clock) (change : Change) (backend : EventBackend S) :
    EventBackend S × Except StorageError Unit :=
  let (inner, result) := store.applyChange clock change backend.inner
  ({ backend with inner }, result)

end EventBackend

inductive Mutator where
  | createNote (note : Note)
  | updateNote (note : Note)
  | deleteNote (id : Uuid)
  | createNotebook (notebook : Notebook)
  | updateNotebook (notebook : Notebook)
  | deleteNotebook (id : Uuid)
  | createTag (tag : Tag)
  | updateTag (tag : Tag)
  | deleteTag (id : Uuid)
  | addNoteTag (noteTag : NoteTag)
  | removeNoteTag (noteId tagId : Uuid)
  | createResource (resource : Resource) (data : List UInt8)
  | deleteResource (id : Uuid)
  | applyChange (change : Change)

namespace Mutator

/-- The entity that a mutator writes. -/
def entity : Mutator → Entity
  | .createNote note | .updateNote note => .note note.id
  | .deleteNote id => .note id
  | .createNotebook notebook | .updateNotebook notebook => .notebook notebook.id
  | .deleteNotebook id => .notebook id
  | .createTag tag | .updateTag tag => .tag tag.id
  | .deleteTag id => .tag id
  | .addNoteTag noteTag => .noteTag noteTag.noteId noteTag.tagId
  | .removeNoteTag noteId tagId => .noteTag noteId tagId
  | .createResource resource _ => .resource resource.id
  | .deleteResource id => .resource id
  | .applyChange change => change.entity

variable {S Clock R : Type} (store : Repositories S Clock)

/-- The mutator of the event layer. -/
def perform (clock : Clock) (now : DateTime) (backend : EventBackend S) : Mutator → EventBackend S
  | .createNote note => (EventBackend.createNote store clock note backend).1
  | .updateNote note => (EventBackend.updateNote store clock note backend).1
  | .deleteNote id => (EventBackend.deleteNote store clock now id backend).1
  | .createNotebook notebook => (EventBackend.createNotebook store clock notebook backend).1
  | .updateNotebook notebook => (EventBackend.updateNotebook store clock notebook backend).1
  | .deleteNotebook id => (EventBackend.deleteNotebook store clock now id backend).1
  | .createTag tag => (EventBackend.createTag store clock tag backend).1
  | .updateTag tag => (EventBackend.updateTag store clock tag backend).1
  | .deleteTag id => (EventBackend.deleteTag store clock now id backend).1
  | .addNoteTag noteTag => (EventBackend.addNoteTag store clock now noteTag backend).1
  | .removeNoteTag noteId tagId =>
      (EventBackend.removeNoteTag store clock now noteId tagId backend).1
  | .createResource resource data =>
      (EventBackend.createResource store clock resource data backend).1
  | .deleteResource id => (EventBackend.deleteResource store clock now id backend).1
  | .applyChange change => (EventBackend.applyChange store clock change backend).1

def outcome (event : R → Option Change) (result : S × Except StorageError R) :
    S × Option Change :=
  (result.1, result.2.toOption.bind event)

/-- The call of the backend below, with the change that is to be published. -/
def commit (clock : Clock) (now : DateTime) (inner : S) : Mutator → S × Option Change
  | .createNote note => outcome (some ∘ .noteCreate) (store.createNote clock note inner)
  | .updateNote note => outcome (some ∘ .noteUpdate) (store.updateNote clock note inner)
  | .deleteNote id =>
      outcome (fun _ => some (.noteDelete id now ∅ "")) (store.deleteNote clock id inner)
  | .createNotebook notebook =>
      outcome (some ∘ .notebookCreate) (store.createNotebook clock notebook inner)
  | .updateNotebook notebook =>
      outcome (some ∘ .notebookUpdate) (store.updateNotebook clock notebook inner)
  | .deleteNotebook id =>
      outcome (fun _ => some (.notebookDelete id now ∅ "")) (store.deleteNotebook clock id inner)
  | .createTag tag => outcome (some ∘ .tagCreate) (store.createTag clock tag inner)
  | .updateTag tag => outcome (some ∘ .tagUpdate) (store.updateTag clock tag inner)
  | .deleteTag id =>
      outcome (fun _ => some (.tagDelete id now ∅ "")) (store.deleteTag clock id inner)
  | .addNoteTag noteTag =>
      outcome (fun _ => some (.noteTagAdd noteTag.noteId noteTag.tagId now ∅ ""))
        (store.addNoteTag clock noteTag inner)
  | .removeNoteTag noteId tagId =>
      outcome (fun _ => some (.noteTagRemove noteId tagId now ∅ ""))
        (store.removeNoteTag clock noteId tagId inner)
  | .createResource resource data =>
      outcome (fun stored => some (.resourceCreate stored none))
        (store.createResource clock resource data inner)
  | .deleteResource id =>
      outcome (fun _ => some (.resourceDelete id now ∅ "")) (store.deleteResource clock id inner)
  | .applyChange change => outcome (fun _ => none) (store.applyChange clock change inner)

theorem publishing_eq_outcome (call : S → S × Except StorageError R) (event : R → Change)
    (backend : EventBackend S) :
    (EventBackend.publishing call event backend).1 =
      ⟨(outcome (some ∘ event) (call backend.inner)).1,
        backend.tx ++ (outcome (some ∘ event) (call backend.inner)).2.toList⟩ := by
  cases hcall : call backend.inner with
  | mk inner result =>
      cases result with
      | error failure =>
          simp [EventBackend.publishing, outcome, hcall, Except.toOption]
      | ok stored =>
          simp [EventBackend.publishing, EventBackend.publish, outcome, hcall, Except.toOption]

/-- A mutator that runs alone commits and publishes in one go. -/
theorem perform_eq_commit (clock : Clock) (now : DateTime) (backend : EventBackend S)
    (mutator : Mutator) :
    mutator.perform store clock now backend =
      ⟨(mutator.commit store clock now backend.inner).1,
        backend.tx ++ (mutator.commit store clock now backend.inner).2.toList⟩ := by
  cases mutator with
  | applyChange change => simp [perform, commit, EventBackend.applyChange, outcome]
  | createNote note => exact publishing_eq_outcome _ _ backend
  | updateNote note => exact publishing_eq_outcome _ _ backend
  | deleteNote id => exact publishing_eq_outcome _ _ backend
  | createNotebook notebook => exact publishing_eq_outcome _ _ backend
  | updateNotebook notebook => exact publishing_eq_outcome _ _ backend
  | deleteNotebook id => exact publishing_eq_outcome _ _ backend
  | createTag tag => exact publishing_eq_outcome _ _ backend
  | updateTag tag => exact publishing_eq_outcome _ _ backend
  | deleteTag id => exact publishing_eq_outcome _ _ backend
  | addNoteTag noteTag => exact publishing_eq_outcome _ _ backend
  | removeNoteTag noteId tagId => exact publishing_eq_outcome _ _ backend
  | createResource resource data => exact publishing_eq_outcome _ _ backend
  | deleteResource id => exact publishing_eq_outcome _ _ backend

end Mutator

end Keeplin
