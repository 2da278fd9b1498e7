/-
The SQLite store below the linking layer.  Its calls, its reads by id and its
listings of live rows keep the laws the layer relies on.
-/
import Keeplin.StoreLaws
import Mathlib.Data.List.Sort

namespace Keeplin

open StorageBackend

/-- The instants a call reads: its own and that of its journal entry. -/
structure DbClock where
  ts : DateTime
  changedAt : DateTime

/-- The pages of a listing of live rows, end to end. -/
def liveRows {R A : Type} (table : Table R) (ofRow : Uuid → R → A)
    (deletedAt : A → Option DateTime) (createdAt : A → DateTime) (id : A → Uuid) : List A :=
  ((table.toList.map fun entry => ofRow entry.1 entry.2).filter fun item =>
      deletedAt item = none).insertionSort fun first second =>
    createdAt first < createdAt second ∨
      (createdAt first = createdAt second ∧ id first ≤ id second)

theorem lists_liveRows {S R A : Type} {table : Table R} {ofRow : Uuid → R → A}
    {deletedAt : A → Option DateTime} {createdAt : A → DateTime} {id : A → Uuid} {inner : S}
    {read : Uuid → S → Except StorageError A} (hid : ∀ key row, id (ofRow key row) = key)
    (hread : ∀ key item, read key inner = .ok item ↔
      ∃ row, table[key]? = some row ∧ ofRow key row = item) :
    Lists read id deletedAt inner (liveRows table ofRow deletedAt createdAt id) := by
  constructor
  · have hkeys : (table.toList.map Prod.fst).Nodup := by
      rw [List.Nodup, List.pairwise_map]
      exact table.distinct_keys_toList.imp fun hne heq =>
        hne (Std.LawfulEqCmp.compare_eq_iff_eq.mpr heq)
    rw [liveRows, ((List.perm_insertionSort _ _).map id).nodup_iff]
    refine List.Nodup.sublist (List.filter_sublist.map id) ?_
    rw [List.map_map]
    have hfst : (id ∘ fun entry : Uuid × R => ofRow entry.1 entry.2) = Prod.fst :=
      funext fun entry => hid entry.1 entry.2
    rw [hfst]
    exact hkeys
  · intro item
    rw [liveRows, List.mem_insertionSort, List.mem_filter, List.mem_map, hread]
    simp only [Prod.exists, Std.ExtTreeMap.mem_toList_iff_getElem?_eq_some, decide_eq_true_eq]
    constructor
    · rintro ⟨⟨key, row, hrow, rfl⟩, hlive⟩
      rw [hid]
      exact ⟨⟨row, hrow, rfl⟩, hlive⟩
    · rintro ⟨⟨row, hrow, hitem⟩, hlive⟩
      exact ⟨⟨id item, row, hrow, hitem⟩, hlive⟩

namespace Db

variable (db : Db)

def collectNotes : List Note :=
  liveRows db.notes rowToNote Note.deletedAt Note.createdAt Note.id

def collectNotebooks : List Notebook :=
  liveRows db.notebooks rowToNotebook Notebook.deletedAt Notebook.createdAt Notebook.id

/-- The store as the layer above calls it. -/
def storage : StorageBackend Db DbClock where
  readNote id db := db.readNote id
  readNotebook id db := db.readNotebook id
  collectNotes db := .ok db.collectNotes
  collectNotebooks db := .ok db.collectNotebooks
  createNote clock note db := db.createNote note clock.changedAt
  updateNote clock note db := db.updateNote note clock.changedAt
  deleteNote clock id db := db.deleteNote id clock.ts clock.changedAt
  createNotebook clock notebook db := db.createNotebook notebook clock.changedAt
  updateNotebook clock notebook db := db.updateNotebook notebook clock.changedAt
  deleteNotebook clock id db := db.deleteNotebook id clock.ts clock.changedAt
  applyChange _ change db := .ok (db.applyChange change)

variable {db} {after : Db} {id : Uuid}

theorem readNote_ok_iff {note : Note} :
    db.readNote id = .ok note ↔ ∃ row, db.notes[id]? = some row ∧ rowToNote id row = note := by
  unfold readNote
  cases hrow : db.notes[id]? with
  | none => simp
  | some row => simp

theorem readNotebook_ok_iff {notebook : Notebook} :
    db.readNotebook id = .ok notebook ↔
      ∃ row, db.notebooks[id]? = some row ∧ rowToNotebook id row = notebook := by
  unfold readNotebook
  cases hrow : db.notebooks[id]? with
  | none => simp
  | some row => simp

theorem readNote_of_rows (hrow : after.notes[id]? = db.notes[id]?) :
    after.readNote id = db.readNote id := by
  rw [readNote, readNote, hrow]

theorem readNotebook_of_rows (hrow : after.notebooks[id]? = db.notebooks[id]?) :
    after.readNotebook id = db.readNotebook id := by
  rw [readNotebook, readNotebook, hrow]

/-- The rows of notes with one of them written. -/
structure PutsNote (db after : Db) (id : Uuid) (row : NoteRow) : Prop where
  notes : after.notes = db.notes.insert id row
  notebooks : after.notebooks = db.notebooks

structure PutsNotebook (db after : Db) (id : Uuid) (row : NotebookRow) : Prop where
  notebooks : after.notebooks = db.notebooks.insert id row
  notes : after.notes = db.notes

theorem PutsNote.read {row : NoteRow} (hputs : db.PutsNote after id row) :
    after.readNote id = .ok (rowToNote id row) := by
  rw [readNote, hputs.notes, Std.ExtTreeMap.getElem?_insert_self]

theorem PutsNote.others {row : NoteRow} (hputs : db.PutsNote after id row) :
    UnchangedBut storage.readNote id db after := by
  intro other hother
  refine readNote_of_rows ?_
  rw [hputs.notes, Std.ExtTreeMap.getElem?_insert]
  simp [Ne.symm hother]

theorem PutsNotebook.read {row : NotebookRow} (hputs : db.PutsNotebook after id row) :
    after.readNotebook id = .ok (rowToNotebook id row) := by
  rw [readNotebook, hputs.notebooks, Std.ExtTreeMap.getElem?_insert_self]

theorem PutsNotebook.others {row : NotebookRow} (hputs : db.PutsNotebook after id row) :
    UnchangedBut storage.readNotebook id db after := by
  intro other hother
  refine readNotebook_of_rows ?_
  rw [hputs.notebooks, Std.ExtTreeMap.getElem?_insert]
  simp [Ne.symm hother]

theorem PutsNote.wrote {row : NoteRow} {note stored : Note}
    (hputs : db.PutsNote after note.id row) (hstored : note.SameLinks stored)
    (hrow : note.SameLinks (rowToNote note.id row)) :
    storage.WroteNote note db after stored where
  stored := hstored
  read := ⟨_, hputs.read, hrow⟩
  notes := hputs.others
  notebooks := fun _ => readNotebook_of_rows (by rw [hputs.notebooks])

theorem PutsNotebook.wrote {row : NotebookRow} {notebook stored : Notebook}
    (hputs : db.PutsNotebook after notebook.id row) (hstored : notebook.SameAlias stored)
    (hrow : notebook.SameAlias (rowToNotebook notebook.id row)) :
    storage.WroteNotebook notebook db after stored where
  stored := hstored
  read := ⟨_, hputs.read, hrow⟩
  notebooks := hputs.others
  notes := fun _ => readNote_of_rows (by rw [hputs.notes])

theorem PutsNote.deleted {row : NoteRow} (hputs : db.PutsNote after id row)
    (hrow : row.deletedAt.isSome) : storage.DeletedNote id db after where
  read := fun found hfound => by
    obtain rfl := Except.ok.inj (hputs.read.symm.trans hfound)
    exact hrow
  notes := hputs.others
  notebooks := fun _ => readNotebook_of_rows (by rw [hputs.notebooks])

theorem PutsNotebook.deleted {row : NotebookRow} (hputs : db.PutsNotebook after id row)
    (hrow : row.deletedAt.isSome) : storage.DeletedNotebook id db after where
  read := fun found hfound => by
    obtain rfl := Except.ok.inj (hputs.read.symm.trans hfound)
    exact hrow
  notebooks := hputs.others
  notes := fun _ => readNote_of_rows (by rw [hputs.notes])

theorem notebooks_restoreResources (db : Db) (note : Note) (priorDeleted : Option DateTime) :
    (db.restoreResources note priorDeleted).notebooks = db.notebooks := by
  simp only [restoreResources]
  split <;> rfl

theorem createNote_reads {note stored : Note} {changedAt : DateTime}
    (hcreate : db.createNote note changedAt = .ok (after, stored)) :
    storage.WroteNote note db after stored := by
  simp only [createNote] at hcreate
  split at hcreate
  · contradiction
  · cases hcreate
    refine PutsNote.wrote ⟨rfl, rfl⟩ ⟨rfl, rfl, rfl, rfl, rfl⟩ ⟨rfl, rfl, rfl, rfl, rfl⟩

theorem updateNote_reads {note stored : Note} {changedAt : DateTime}
    (hupdate : db.updateNote note changedAt = .ok (after, stored)) :
    storage.WroteNote note db after stored := by
  simp only [updateNote] at hupdate
  split at hupdate
  · contradiction
  · cases hupdate
    exact PutsNote.wrote ⟨notes_restoreResources _ _ _, notebooks_restoreResources _ _ _⟩
      ⟨rfl, rfl, rfl, rfl, rfl⟩ ⟨rfl, rfl, rfl, rfl, rfl⟩

theorem deleteNote_reads {ts changedAt : DateTime}
    (hdelete : db.deleteNote id ts changedAt = .ok after) :
    storage.DeletedNote id db after := by
  simp only [deleteNote] at hdelete
  split at hdelete
  · contradiction
  · cases hdelete
    exact PutsNote.deleted ⟨rfl, rfl⟩ rfl

theorem createNotebook_reads {notebook stored : Notebook} {changedAt : DateTime}
    (hcreate : db.createNotebook notebook changedAt = .ok (after, stored)) :
    storage.WroteNotebook notebook db after stored := by
  simp only [createNotebook] at hcreate
  split at hcreate
  · contradiction
  · cases hcreate
    exact PutsNotebook.wrote ⟨rfl, rfl⟩ ⟨rfl, rfl, rfl⟩ ⟨rfl, rfl, rfl⟩

theorem updateNotebook_reads {notebook stored : Notebook} {changedAt : DateTime}
    (hupdate : db.updateNotebook notebook changedAt = .ok (after, stored)) :
    storage.WroteNotebook notebook db after stored := by
  simp only [updateNotebook] at hupdate
  split at hupdate
  · contradiction
  · cases hupdate
    exact PutsNotebook.wrote ⟨rfl, rfl⟩ ⟨rfl, rfl, rfl⟩ ⟨rfl, rfl, rfl⟩

theorem deleteNotebook_reads {ts changedAt : DateTime}
    (hdelete : db.deleteNotebook id ts changedAt = .ok after) :
    storage.DeletedNotebook id db after := by
  simp only [deleteNotebook] at hdelete
  split at hdelete
  · contradiction
  · cases hdelete
    exact PutsNotebook.deleted ⟨rfl, rfl⟩ rfl

/-- A change that is not of a note or a notebook leaves their rows. -/
theorem rows_applyChange {change : Change} (haffects : changeAffectsAliases change = false) :
    (db.applyChange change).notes = db.notes ∧
      (db.applyChange change).notebooks = db.notebooks := by
  cases change with
  | noteCreate note => cases haffects
  | noteUpdate note => cases haffects
  | noteDelete id deletedAt vv lastWriter => cases haffects
  | notebookCreate notebook => cases haffects
  | notebookUpdate notebook => cases haffects
  | notebookDelete id deletedAt vv lastWriter => cases haffects
  | tagCreate tag => simp only [applyChange, applyTag]; split <;> exact ⟨rfl, rfl⟩
  | tagUpdate tag => simp only [applyChange, applyTag]; split <;> exact ⟨rfl, rfl⟩
  | tagDelete id deletedAt vv lastWriter =>
      simp only [applyChange, applyTagDelete]
      split
      · split <;> exact ⟨rfl, rfl⟩
      · exact ⟨rfl, rfl⟩
  | noteTagAdd noteId tagId updatedAt vv lastWriter =>
      simp only [applyChange, applyNoteTag]
      split <;> exact ⟨rfl, rfl⟩
  | noteTagRemove noteId tagId updatedAt vv lastWriter =>
      simp only [applyChange, applyNoteTag]
      split <;> exact ⟨rfl, rfl⟩
  | resourceCreate resource data =>
      simp only [applyChange, applyResource]
      split <;> exact ⟨rfl, rfl⟩
  | resourceDelete id deletedAt vv lastWriter =>
      simp only [applyChange, applyResourceDelete]
      split
      · split <;> exact ⟨rfl, rfl⟩
      · exact ⟨rfl, rfl⟩

theorem lawful_storage : storage.Lawful fun _ : Db => True where
  note_id := fun _ hread => by
    obtain ⟨row, -, rfl⟩ := readNote_ok_iff.mp hread
    rfl
  notebook_id := fun _ hread => by
    obtain ⟨row, -, rfl⟩ := readNotebook_ok_iff.mp hread
    rfl
  collectNotes := fun _ hcollect => by
    cases hcollect
    exact lists_liveRows (fun _ _ => rfl) fun _ _ => readNote_ok_iff
  collectNotebooks := fun _ hcollect => by
    cases hcollect
    exact lists_liveRows (fun _ _ => rfl) fun _ _ => readNotebook_ok_iff
  createNote := fun _ hcreate => ⟨trivial, createNote_reads hcreate⟩
  updateNote := fun _ hupdate => ⟨trivial, updateNote_reads hupdate⟩
  deleteNote := fun _ hdelete => ⟨trivial, deleteNote_reads hdelete⟩
  createNotebook := fun _ hcreate => ⟨trivial, createNotebook_reads hcreate⟩
  updateNotebook := fun _ hupdate => ⟨trivial, updateNotebook_reads hupdate⟩
  deleteNotebook := fun _ hdelete => ⟨trivial, deleteNotebook_reads hdelete⟩
  applyChange := fun _ happly => by
    cases happly
    refine ⟨trivial, fun haffects => ?_⟩
    obtain ⟨hnotes, hnotebooks⟩ := rows_applyChange haffects
    exact ⟨fun _ => readNote_of_rows (by rw [hnotes]),
      fun _ => readNotebook_of_rows (by rw [hnotebooks])⟩

theorem deleteNote_keeps {ts changedAt : DateTime}
    (hdelete : db.deleteNote id ts changedAt = .ok after) {found : Note}
    (hfound : after.readNote id = .ok found) :
    ∃ before, db.readNote id = .ok before ∧ found.notebookId = before.notebookId ∧
      found.alias = before.alias ∧ found.links = before.links := by
  simp only [deleteNote] at hdelete
  split at hdelete
  · contradiction
  · next row hrow =>
      cases hdelete
      refine ⟨rowToNote id row, readNote_ok_iff.mpr ⟨row, hrow, rfl⟩, ?_⟩
      simp only [readNote, recordChange, cascadeStampResources,
        Std.ExtTreeMap.getElem?_insert_self, Except.ok.injEq] at hfound
      subst hfound
      exact ⟨rfl, rfl, rfl⟩

end Db

end Keeplin
