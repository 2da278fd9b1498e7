/-
What a write of one entity leaves in the tables: every row but that of the entity.
The mutators and the applied changes of the SQLite store keep to it.
-/
import Keeplin.DbLaws
import Keeplin.LocalWrite

namespace Keeplin

namespace Db

/-- The rows of all but the entity stay, those of resources aside. -/
structure Frame (entity : Entity) (db after : Db) : Prop where
  notes : ∀ id, entity ≠ .note id → after.notes[id]? = db.notes[id]?
  notebooks : ∀ id, entity ≠ .notebook id → after.notebooks[id]? = db.notebooks[id]?
  tags : ∀ id, entity ≠ .tag id → after.tags[id]? = db.tags[id]?
  noteTags : ∀ noteId tagId, entity ≠ .noteTag noteId tagId →
    after.noteTags[(noteId, tagId)]? = db.noteTags[(noteId, tagId)]?

variable {db after : Db} {id : Uuid}

theorem Frame.refl (entity : Entity) (db : Db) : Frame entity db db :=
  ⟨fun _ _ => rfl, fun _ _ => rfl, fun _ _ => rfl, fun _ _ _ => rfl⟩

theorem getElem?_insert_of_ne {R : Type} {table : Table R} {id other : Uuid} {row : R}
    (hne : id ≠ other) : (table.insert id row)[other]? = table[other]? := by
  rw [Std.ExtTreeMap.getElem?_insert]
  simp [hne]

theorem Frame.note {row : NoteRow} (hnotes : after.notes = db.notes.insert id row)
    (hnotebooks : after.notebooks = db.notebooks) (htags : after.tags = db.tags)
    (hnoteTags : after.noteTags = db.noteTags) : Frame (.note id) db after where
  notes := fun other hne => by
    rw [hnotes, getElem?_insert_of_ne fun heq => hne (by rw [heq])]
  notebooks := fun _ _ => by rw [hnotebooks]
  tags := fun _ _ => by rw [htags]
  noteTags := fun _ _ _ => by rw [hnoteTags]

theorem Frame.notebook {row : NotebookRow}
    (hnotebooks : after.notebooks = db.notebooks.insert id row)
    (hnotes : after.notes = db.notes) (htags : after.tags = db.tags)
    (hnoteTags : after.noteTags = db.noteTags) : Frame (.notebook id) db after where
  notes := fun _ _ => by rw [hnotes]
  notebooks := fun other hne => by
    rw [hnotebooks, getElem?_insert_of_ne fun heq => hne (by rw [heq])]
  tags := fun _ _ => by rw [htags]
  noteTags := fun _ _ _ => by rw [hnoteTags]

theorem Frame.tag {row : TagRow} (htags : after.tags = db.tags.insert id row)
    (hnotes : after.notes = db.notes) (hnotebooks : after.notebooks = db.notebooks)
    (hnoteTags : after.noteTags = db.noteTags) : Frame (.tag id) db after where
  notes := fun _ _ => by rw [hnotes]
  notebooks := fun _ _ => by rw [hnotebooks]
  tags := fun other hne => by
    rw [htags, getElem?_insert_of_ne fun heq => hne (by rw [heq])]
  noteTags := fun _ _ _ => by rw [hnoteTags]

theorem Frame.noteTag {noteId tagId : Uuid} {row : NoteTagRow}
    (hnoteTags : after.noteTags = db.noteTags.insert (noteId, tagId) row)
    (hnotes : after.notes = db.notes) (hnotebooks : after.notebooks = db.notebooks)
    (htags : after.tags = db.tags) : Frame (.noteTag noteId tagId) db after where
  notes := fun _ _ => by rw [hnotes]
  notebooks := fun _ _ => by rw [hnotebooks]
  tags := fun _ _ => by rw [htags]
  noteTags := fun otherNote otherTag hne => by
    have hkey : (noteId, tagId) ≠ (otherNote, otherTag) := fun heq => hne (by cases heq; rfl)
    rw [hnoteTags, Std.ExtTreeMap.getElem?_insert]
    simp [hkey]

theorem Frame.resource {id : Uuid} (hnotes : after.notes = db.notes)
    (hnotebooks : after.notebooks = db.notebooks) (htags : after.tags = db.tags)
    (hnoteTags : after.noteTags = db.noteTags) : Frame (.resource id) db after :=
  ⟨fun _ _ => by rw [hnotes], fun _ _ => by rw [hnotebooks], fun _ _ => by rw [htags],
    fun _ _ _ => by rw [hnoteTags]⟩

theorem tags_restoreResources (db : Db) (note : Note) (priorDeleted : Option DateTime) :
    (db.restoreResources note priorDeleted).tags = db.tags := by
  simp only [restoreResources]
  split <;> rfl

theorem noteTags_restoreResources (db : Db) (note : Note) (priorDeleted : Option DateTime) :
    (db.restoreResources note priorDeleted).noteTags = db.noteTags := by
  simp only [restoreResources]
  split <;> rfl

/-- A local write keeps the rows of the other entities. -/
theorem frame_localWrite {ts changedAt : DateTime} {write : LocalWrite}
    (hwrite : db.localWrite ts changedAt write = .ok after) : Frame write.entity db after := by
  cases write with
  | createNote note =>
      obtain ⟨pair, hcreate, rfl⟩ := exists_of_map_ok hwrite
      simp only [createNote] at hcreate
      split at hcreate
      · contradiction
      · cases hcreate
        exact .note rfl rfl rfl rfl
  | updateNote note =>
      obtain ⟨pair, hupdate, rfl⟩ := exists_of_map_ok hwrite
      simp only [updateNote] at hupdate
      split at hupdate
      · contradiction
      · cases hupdate
        exact .note (notes_restoreResources _ _ _) (notebooks_restoreResources _ _ _)
          (tags_restoreResources _ _ _) (noteTags_restoreResources _ _ _)
  | deleteNote id =>
      simp only [localWrite, deleteNote] at hwrite
      split at hwrite
      · contradiction
      · cases hwrite
        exact .note rfl rfl rfl rfl
  | createNotebook notebook =>
      obtain ⟨pair, hcreate, rfl⟩ := exists_of_map_ok hwrite
      simp only [createNotebook] at hcreate
      split at hcreate
      · contradiction
      · cases hcreate
        exact .notebook rfl rfl rfl rfl
  | updateNotebook notebook =>
      obtain ⟨pair, hupdate, rfl⟩ := exists_of_map_ok hwrite
      simp only [updateNotebook] at hupdate
      split at hupdate
      · contradiction
      · cases hupdate
        exact .notebook rfl rfl rfl rfl
  | deleteNotebook id =>
      simp only [localWrite, deleteNotebook] at hwrite
      split at hwrite
      · contradiction
      · cases hwrite
        exact .notebook rfl rfl rfl rfl
  | createTag tag =>
      obtain ⟨pair, hcreate, rfl⟩ := exists_of_map_ok hwrite
      simp only [createTag] at hcreate
      split at hcreate
      · contradiction
      · cases hcreate
        exact .tag rfl rfl rfl rfl
  | updateTag tag =>
      obtain ⟨pair, hupdate, rfl⟩ := exists_of_map_ok hwrite
      simp only [updateTag] at hupdate
      split at hupdate
      · contradiction
      · cases hupdate
        exact .tag rfl rfl rfl rfl
  | deleteTag id =>
      simp only [localWrite, deleteTag] at hwrite
      split at hwrite
      · contradiction
      · cases hwrite
        exact .tag rfl rfl rfl rfl
  | addNoteTag noteTag =>
      simp only [localWrite, addNoteTag] at hwrite
      split at hwrite
      · contradiction
      · split at hwrite
        · contradiction
        · cases hwrite
          exact .noteTag rfl rfl rfl rfl
  | removeNoteTag noteId tagId =>
      cases hwrite
      exact .noteTag rfl rfl rfl rfl
  | createResource resource data =>
      obtain ⟨pair, hcreate, rfl⟩ := exists_of_map_ok hwrite
      simp only [createResource] at hcreate
      split at hcreate
      · contradiction
      · cases hcreate
        exact .resource rfl rfl rfl rfl
  | deleteResource id =>
      simp only [localWrite, deleteResource] at hwrite
      split at hwrite
      · contradiction
      · cases hwrite
        exact .resource rfl rfl rfl rfl

theorem frame_applyChange (db : Db) (change : Change) :
    Frame change.entity db (db.applyChange change) := by
  cases change with
  | noteCreate note | noteUpdate note =>
      simp only [applyChange, applyNote]
      split
      · exact .note (notes_restoreResources _ _ _) (notebooks_restoreResources _ _ _)
          (tags_restoreResources _ _ _) (noteTags_restoreResources _ _ _)
      · exact .refl _ db
  | noteDelete id deletedAt vv lastWriter =>
      simp only [applyChange, applyNoteDelete]
      split
      · exact .note rfl rfl rfl rfl
      · exact .refl _ db
  | notebookCreate notebook | notebookUpdate notebook =>
      simp only [applyChange, applyNotebook]
      split
      · exact .notebook rfl rfl rfl rfl
      · exact .refl _ db
  | notebookDelete id deletedAt vv lastWriter =>
      simp only [applyChange, applyNotebookDelete]
      split
      · exact .notebook rfl rfl rfl rfl
      · exact .refl _ db
  | tagCreate tag | tagUpdate tag =>
      simp only [applyChange, applyTag]
      split
      · exact .tag rfl rfl rfl rfl
      · exact .refl _ db
  | tagDelete id deletedAt vv lastWriter =>
      simp only [applyChange, applyTagDelete]
      split
      · exact .tag rfl rfl rfl rfl
      · exact .refl _ db
  | noteTagAdd noteId tagId updatedAt vv lastWriter
  | noteTagRemove noteId tagId updatedAt vv lastWriter =>
      simp only [applyChange, applyNoteTag]
      split
      · exact .noteTag rfl rfl rfl rfl
      · exact .refl _ db
  | resourceCreate resource data =>
      simp only [applyChange, applyResource]
      split
      · exact .resource rfl rfl rfl rfl
      · exact .refl _ db
  | resourceDelete id deletedAt vv lastWriter =>
      simp only [applyChange, applyResourceDelete]
      split
      · exact .resource rfl rfl rfl rfl
      · exact .refl _ db

end Db

end Keeplin
