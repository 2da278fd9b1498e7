/-
The search index of the daemon and the task that maintains it.  The task starts
with a rebuild and then takes the changes of the feed in their order; it reads the
store while other calls write it, so each of its reads is a step of its own.
-/
import Keeplin.EventFeed
import Keeplin.Rfc3339

namespace Keeplin

open StorageBackend

/-- An instant in the index, in microseconds. -/
def rfc (instant : DateTime) : Text :=
  secondText (secondOf instant) ++ fractionText 6 (nanoOf instant) ++ ['Z']

/-- A row of `note_fts`. -/
structure Document where
  noteId : Uuid
  title : String
  body : String
  tags : String
  notebook : String
  notebookId : Uuid
  isTodo : Bool
  isCompleted : Bool
  todoDue : Text
  isStarred : Bool
  isPinned : Bool
  updatedAt : Text
deriving DecidableEq

def Document.of (note : Note) (tags notebook : String) : Document where
  noteId := note.id
  title := note.title
  body := note.body
  tags := tags
  notebook := notebook
  notebookId := note.notebookId
  isTodo := note.isTodo
  isCompleted := note.todoCompleted.isSome
  todoDue := (note.todoDue.map rfc).getD []
  isStarred := note.isStarred
  isPinned := note.isPinned
  updatedAt := rfc note.updatedAt

abbrev SearchIndex := List Document

namespace SearchIndex

def remove (noteId : Uuid) (index : SearchIndex) : SearchIndex :=
  index.filter fun document => document.noteId ≠ noteId

/-- The table has no update: the row goes and a new one comes. -/
def upsert (note : Note) (tags notebook : String) (index : SearchIndex) : SearchIndex :=
  remove note.id index ++ [Document.of note tags notebook]

/-- The rows of a note. -/
def rowsOf (noteId : Uuid) (index : SearchIndex) : List Document :=
  index.filter fun document => document.noteId = noteId

variable {index : SearchIndex} {noteId : Uuid}

theorem rowsOf_remove (removed : Uuid) :
    rowsOf noteId (remove removed index) = if removed = noteId then []
      else rowsOf noteId index := by
  simp only [rowsOf, remove, List.filter_filter]
  split
  · next heq =>
      subst heq
      rw [List.filter_eq_nil_iff]
      intro document _
      simp
  · next hne =>
      refine List.filter_congr fun document _ => ?_
      by_cases hsame : document.noteId = noteId
      · simp [hsame, Ne.symm hne]
      · simp [hsame]

theorem rowsOf_upsert (note : Note) (tags notebook : String) :
    rowsOf noteId (upsert note tags notebook index) =
      if note.id = noteId then [Document.of note tags notebook] else rowsOf noteId index := by
  have hof : (Document.of note tags notebook).noteId = note.id := rfl
  rw [upsert, rowsOf, List.filter_append, ← rowsOf, rowsOf_remove]
  split
  · next heq => simp [hof, heq]
  · next hne => simp [hof, hne]

end SearchIndex

/-- Titles with a space between them. -/
def joinTitles : List String → String
  | [] => ""
  | [title] => title
  | title :: rest => title ++ " " ++ joinTitles rest

variable {S Clock : Type}

namespace Repositories

variable (store : Repositories S Clock)

/-- The titles of the tags on the first page, which is the only one read. -/
def tagNames (noteId : Uuid) (inner : S) : String :=
  match store.listNoteTags noteId 0 none inner with
  | .ok (tags, _) => joinTitles (tags.map Tag.title)
  | .error _ => ""

def notebookName (id : Uuid) (inner : S) : String :=
  match store.readNotebook id inner with
  | .ok notebook => notebook.title
  | .error _ => ""

end Repositories

/-- What the task has to do.  `denormalize` and `nameNotebook` are the two reads
that an index of a note makes, and `scan` is a page of a rebuild. -/
inductive SearchTask where
  | applyChange (change : Change)
  | indexNote (note : Note)
  | reindexId (id : Uuid)
  | rebuild
  | scan (token : Option Text)
  | denormalize (note : Note)
  | nameNotebook (note : Note) (tags : String)
  | upsert (note : Note) (tags notebook : String)
  | remove (id : Uuid)

namespace SearchTask

variable (store : Repositories S Clock)

/-- What a change of the feed asks for. -/
def ofChange : Change → List SearchTask
  | .noteCreate note | .noteUpdate note => [.indexNote note]
  | .noteDelete id _ _ _ => [.remove id]
  | .noteTagAdd noteId _ _ _ _ | .noteTagRemove noteId _ _ _ _ => [.reindexId noteId]
  | .notebookUpdate _ | .notebookDelete _ _ _ _ | .tagUpdate _ | .tagDelete _ _ _ _ => [.rebuild]
  | _ => []

/-- Perform one read of the store or one write of the index; the tasks are what is
left to do of it. -/
def perform (inner : S) (index : SearchIndex) : SearchTask → List SearchTask × SearchIndex
  | .applyChange change => (ofChange change, index)
  | .indexNote note =>
      if note.deletedAt.isSome then ([.remove note.id], index) else ([.denormalize note], index)
  | .reindexId id =>
      match store.readNote id inner with
      | .ok note => ([.indexNote note], index)
      | .error _ => ([.remove id], index)
  | .rebuild => ([.scan none], [])
  | .scan token =>
      match store.listNotes 0 token inner with
      | .ok (notes, next) =>
          (notes.map .denormalize ++ (next.map fun token => .scan (some token)).toList, index)
      | .error _ => ([], index)
  | .denormalize note => ([.nameNotebook note (store.tagNames note.id inner)], index)
  | .nameNotebook note tags =>
      ([.upsert note tags (store.notebookName note.notebookId inner)], index)
  | .upsert note tags notebook => ([], index.upsert note tags notebook)
  | .remove id => ([], index.remove id)

end SearchTask

/-- `pending` is what the task has begun and the changes that it has not received,
in their order. -/
structure Searching (S : Type) where
  inner : S
  pending : List SearchTask
  index : SearchIndex

inductive SearchStep (Clock : Type) where
  | mutate (clock : Clock) (now : DateTime) (mutator : Mutator)
  | maintain

namespace Searching

variable (store : Repositories S Clock)

/-- The task subscribes and begins with a rebuild. -/
def start (inner : S) : Searching S := ⟨inner, [.rebuild], []⟩

def step (state : Searching S) : SearchStep Clock → Option (Searching S)
  | .mutate clock now mutator =>
      let done := mutator.commit store clock now state.inner
      some ⟨done.1, state.pending ++ (done.2.map SearchTask.applyChange).toList, state.index⟩
  | .maintain =>
      match state.pending with
      | [] => none
      | task :: rest =>
          let done := task.perform store state.inner state.index
          some ⟨state.inner, done.1 ++ rest, done.2⟩

end Searching

end Keeplin
