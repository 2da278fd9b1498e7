/-
Reading the entities back from their rows, and what an applied change leaves to
be read.  Every column list is written by hand, so a kind whose list misses a
field drops it.
-/
import Keeplin.DbSync

namespace Keeplin

open VersionVector

def rowToNote (id : Uuid) (row : NoteRow) : Note where
  id := id
  title := row.title
  body := row.body
  notebookId := row.notebookId.getD Uuid.nil
  isTodo := row.isTodo
  todoDue := row.todoDue
  todoCompleted := row.todoCompleted
  createdAt := row.createdAt
  updatedAt := row.updatedAt
  deletedAt := row.deletedAt
  «alias» := row.alias
  bookmarks := row.bookmarks
  links := row.links
  vv := row.vv
  lastWriter := row.lastWriter
  isPinned := row.isPinned
  isStarred := row.isStarred
  sortKey := row.sortKey

def rowToNotebook (id : Uuid) (row : NotebookRow) : Notebook where
  id := id
  title := row.title
  createdAt := row.createdAt
  updatedAt := row.updatedAt
  deletedAt := row.deletedAt
  «alias» := row.alias
  vv := row.vv
  lastWriter := row.lastWriter

def rowToTag (id : Uuid) (row : TagRow) : Tag where
  id := id
  title := row.title
  createdAt := row.createdAt
  updatedAt := row.updatedAt
  deletedAt := row.deletedAt
  vv := row.vv
  lastWriter := row.lastWriter
  system := row.system

/-- The dimensions are read when both columns have a value. -/
def rowToResource (id : Uuid) (row : ResourceRow) : Resource where
  id := id
  noteId := row.noteId
  title := row.title
  mimeType := row.mimeType
  fileName := row.fileName
  size := row.size
  durationMs := row.durationMs
  dimensions :=
    match row.width, row.height with
    | some width, some height => some (width, height)
    | _, _ => none
  createdAt := row.createdAt
  deletedAt := row.deletedAt
  vv := row.vv
  lastWriter := row.lastWriter

@[simp] theorem rowToNote_ofNote (note : Note) :
    rowToNote note.id (NoteRow.ofNote note) = note := rfl

@[simp] theorem rowToNotebook_ofNotebook (notebook : Notebook) :
    rowToNotebook notebook.id (NotebookRow.ofNotebook notebook) = notebook := rfl

@[simp] theorem rowToTag_ofTag (tag : Tag) : rowToTag tag.id (TagRow.ofTag tag) = tag := rfl

@[simp] theorem rowToResource_ofResource (resource : Resource) (data : List UInt8) :
    rowToResource resource.id (ResourceRow.ofResource resource data) = resource := by
  cases resource with
  | mk id noteId title mimeType fileName size durationMs dimensions =>
      cases dimensions <;> rfl

namespace Db

variable (db : Db)

def readNote (id : Uuid) : Except StorageError Note :=
  match db.notes[id]? with
  | some row => .ok (rowToNote id row)
  | none => .error (.notFound id)

def readNotebook (id : Uuid) : Except StorageError Notebook :=
  match db.notebooks[id]? with
  | some row => .ok (rowToNotebook id row)
  | none => .error (.notFound id)

def readTag (id : Uuid) : Except StorageError Tag :=
  match db.tags[id]? with
  | some row => .ok (rowToTag id row)
  | none => .error (.notFound id)

/-- A live resource with its bytes.  The column cannot be read as bytes when it
is null. -/
def readResource (id : Uuid) : Except StorageError (Resource × List UInt8) :=
  match db.resources[id]? with
  | none => .error (.notFound id)
  | some row =>
      if row.deletedAt ≠ none then .error (.notFound id)
      else
        match row.data with
        | some data => .ok (rowToResource id row, data)
        | none => .error .database

/-- The bytes stored for a resource, if there are any. -/
def storedBytes (id : Uuid) : List UInt8 :=
  (db.resources[id]?.bind ResourceRow.data).getD []

/-- Reading the entity of a change back from `after` yields what the change
carries, and of what it does not carry nothing that `db` had is gone. -/
def Stores (after : Db) : Change → Prop
  | .noteCreate note => after.readNote note.id = .ok note
  | .noteUpdate note => after.readNote note.id = .ok note
  | .notebookCreate notebook => after.readNotebook notebook.id = .ok notebook
  | .notebookUpdate notebook => after.readNotebook notebook.id = .ok notebook
  | .tagCreate tag => after.readTag tag.id = .ok tag
  | .tagUpdate tag => after.readTag tag.id = .ok tag
  | .noteTagAdd noteId tagId updatedAt vv lastWriter =>
      after.noteTags[(noteId, tagId)]? = some ⟨some updatedAt, none, vv, lastWriter⟩
  | .noteTagRemove noteId tagId updatedAt vv lastWriter =>
      after.noteTags[(noteId, tagId)]? =
        some ⟨some updatedAt, some updatedAt, vv, lastWriter⟩
  | .resourceCreate resource data =>
      after.resources[resource.id]?.map (rowToResource resource.id) = some resource ∧
        after.storedBytes resource.id = data.getD (db.storedBytes resource.id)
  | _ => True

/-- A tag's `system` column is not among those an applied change writes, and a
resource without data is written with none. -/
def Drops : Change → Bool
  | .tagCreate tag => tag.system
  | .tagUpdate tag => tag.system
  | .resourceCreate resource data => data.isNone && !(db.storedBytes resource.id).isEmpty
  | _ => false

section Winner

variable {db}

theorem applyNote_of_wins {note : Note}
    (hwins : db.incomingWins .notes note.id note.vv note.updatedAt note.lastWriter = true) :
    (db.applyNote note).readNote note.id = .ok note := by
  simp only [applyNote, hwins, ↓reduceIte, readNote, notes_restoreResources,
    Std.ExtTreeMap.getElem?_insert_self, rowToNote_ofNote]

theorem applyNotebook_of_wins {notebook : Notebook}
    (hwins : db.incomingWins .notebooks notebook.id notebook.vv notebook.updatedAt
      notebook.lastWriter = true) :
    (db.applyNotebook notebook).readNotebook notebook.id = .ok notebook := by
  simp only [applyNotebook, hwins, ↓reduceIte, readNotebook,
    Std.ExtTreeMap.getElem?_insert_self, rowToNotebook_ofNotebook]

theorem applyTag_of_wins {tag : Tag}
    (hwins : db.incomingWins .tags tag.id tag.vv tag.updatedAt tag.lastWriter = true) :
    (db.applyTag tag).readTag tag.id = .ok { tag with system := false } := by
  simp only [applyTag, hwins, ↓reduceIte, readTag, Std.ExtTreeMap.getElem?_insert_self]
  rfl

theorem applyNoteTag_of_wins {noteId tagId : Uuid} {updatedAt : DateTime}
    {deletedAt : Option DateTime} {vv : VersionVector} {lastWriter : String}
    (hwins : db.assocIncomingWins noteId tagId vv updatedAt lastWriter = true) :
    (db.applyNoteTag noteId tagId updatedAt deletedAt vv lastWriter).noteTags[(noteId, tagId)]? =
      some ⟨some updatedAt, deletedAt, vv, lastWriter⟩ := by
  simp only [applyNoteTag, hwins, ↓reduceIte, upsertAssoc,
    Std.ExtTreeMap.getElem?_insert_self]

theorem applyResource_of_wins {resource : Resource} {data : Option (List UInt8)}
    (hwins : db.resourceIncomingWins resource.id resource.vv
      (resource.deletedAt.getD resource.createdAt) resource.lastWriter = true) :
    (db.applyResource resource data).resources[resource.id]?.map
        (rowToResource resource.id) = some resource ∧
      (db.applyResource resource data).storedBytes resource.id = data.getD [] := by
  simp only [applyResource, hwins, ↓reduceIte, storedBytes,
    Std.ExtTreeMap.getElem?_insert_self, Option.map_some, rowToResource_ofResource]
  exact ⟨trivial, rfl⟩

/-- The column check of a change is the comparison of its version with the slot. -/
theorem wins_of_beats {change : Change} {stored : Option RowMeta}
    (hstored : stored = slotMeta (db.slot change.entity))
    (hbeats : change.version.beats (db.slot change.entity) = true) :
    metaIncomingWins stored change.version.vv change.version.timestamp change.version.writer =
      true := by
  rw [hstored, metaIncomingWins_slotMeta (db.slot_ne_unreadable change.entity)]
  exact hbeats

theorem storesTag_iff {tag : Tag} {after : Db}
    (hread : after.readTag tag.id = .ok { tag with system := false }) :
    after.readTag tag.id = .ok tag ↔ tag.system = false := by
  rw [hread, Except.ok.injEq]
  constructor
  · exact fun hsame => (congrArg Tag.system hsame).symm
  · intro hsystem
    rw [← hsystem]

/-- A change that wins is stored unless it is one of those that drop something. -/
theorem stores_iff {change : Change}
    (hbeats : change.version.beats (db.slot change.entity) = true) :
    db.Stores (db.applyChange change) change ↔ db.Drops change = false := by
  cases change with
  | noteCreate note =>
      exact iff_of_true (applyNote_of_wins (wins_of_beats (db.currentMeta_notes note.id) hbeats))
        rfl
  | noteUpdate note =>
      exact iff_of_true (applyNote_of_wins (wins_of_beats (db.currentMeta_notes note.id) hbeats))
        rfl
  | notebookCreate notebook =>
      exact iff_of_true
        (applyNotebook_of_wins (wins_of_beats (db.currentMeta_notebooks notebook.id) hbeats)) rfl
  | notebookUpdate notebook =>
      exact iff_of_true
        (applyNotebook_of_wins (wins_of_beats (db.currentMeta_notebooks notebook.id) hbeats)) rfl
  | tagCreate tag =>
      exact storesTag_iff (applyTag_of_wins (wins_of_beats (db.currentMeta_tags tag.id) hbeats))
  | tagUpdate tag =>
      exact storesTag_iff (applyTag_of_wins (wins_of_beats (db.currentMeta_tags tag.id) hbeats))
  | noteTagAdd noteId tagId updatedAt vv lastWriter =>
      exact iff_of_true
        (applyNoteTag_of_wins (wins_of_beats (db.assocMeta_slot noteId tagId) hbeats)) rfl
  | noteTagRemove noteId tagId updatedAt vv lastWriter =>
      exact iff_of_true
        (applyNoteTag_of_wins (wins_of_beats (db.assocMeta_slot noteId tagId) hbeats)) rfl
  | resourceCreate resource data =>
      obtain ⟨hresource, hbytes⟩ := applyResource_of_wins
        (wins_of_beats (db.resourceMeta_slot resource.id) hbeats)
      change _ ∧ (db.applyResource resource data).storedBytes resource.id = _ ↔ _
      rw [hbytes]
      simp only [Drops]
      cases data with
      | some bytes => exact ⟨fun _ => rfl, fun _ => ⟨hresource, rfl⟩⟩
      | none =>
          simp only [Option.getD_none, Option.isNone_none, Bool.true_and, Bool.not_eq_false',
            List.isEmpty_iff]
          exact ⟨fun hstores => hstores.2.symm, fun hempty => ⟨hresource, hempty.symm⟩⟩
  | noteDelete id deletedAt vv lastWriter => exact iff_of_true trivial rfl
  | notebookDelete id deletedAt vv lastWriter => exact iff_of_true trivial rfl
  | tagDelete id deletedAt vv lastWriter => exact iff_of_true trivial rfl
  | resourceDelete id deletedAt vv lastWriter => exact iff_of_true trivial rfl

end Winner

/-- A change is stored faithfully: all of it when it wins, none of it when it
loses, and once only. -/
structure StoresFaithfully (change : Change) : Prop where
  wins : change.version.beats (db.slot change.entity) = true →
    db.Stores (db.applyChange change) change
  loses : change.version.beats (db.slot change.entity) = false → db.applyChange change = db
  once : (db.applyChange change).applyChange change = db.applyChange change

/-- Every change but a winning one that drops something is stored faithfully. -/
theorem storesFaithfully_iff (change : Change) :
    db.StoresFaithfully change ↔
      (change.version.beats (db.slot change.entity) = true → db.Drops change = false) := by
  constructor
  · exact fun hstores hbeats => (stores_iff hbeats).mp (hstores.wins hbeats)
  · intro hkeeps
    exact ⟨fun hbeats => (stores_iff hbeats).mpr (hkeeps hbeats),
      db.applyChange_of_loses, db.applyChange_twice change⟩

end Db

namespace DbRowsWitness

def db : Db := ⟨"B", ∅, ∅, ∅, ∅, ∅, [], [], none⟩

def systemTag : Tag := ⟨7, "internal", 1, 1, none, (∅ : VersionVector).increment "A", "A", true⟩

/-- A system tag comes back from the table as an ordinary one. -/
theorem systemTag_dropped : ¬ db.StoresFaithfully (.tagCreate systemTag) := by
  intro hstores
  have hkeeps := (Db.stores_iff rfl).mp (hstores.wins rfl)
  exact absurd hkeeps (by decide)

end DbRowsWitness

end Keeplin
