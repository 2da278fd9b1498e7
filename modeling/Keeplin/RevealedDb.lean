/-
The database as one who has the key sees it: every row and every journal entry
opened where it opens.  No call reads what entities say, so a call on sealed
entities does to the opened database what it does with the opened entities.
-/
import Keeplin.EncryptedBackend

namespace Keeplin

/-- What opens, and the thing itself where it does not. -/
def reveal {A : Type} (opens : A → Except StorageError A) (item : A) : A :=
  match opens item with
  | .ok plain => plain
  | .error _ => item

theorem reveal_of_ok {A : Type} {opens : A → Except StorageError A} {item plain : A}
    (hopens : opens item = .ok plain) : reveal opens item = plain := by
  rw [reveal, hopens]

structure NoteContent where
  title : String
  body : String
  «alias» : Option String
  bookmarks : List Bookmark
  links : List NoteLink

def Note.content (note : Note) : NoteContent :=
  ⟨note.title, note.body, note.alias, note.bookmarks, note.links⟩

def Note.withContent (note : Note) (content : NoteContent) : Note :=
  { note with
    title := content.title, body := content.body, «alias» := content.alias,
    bookmarks := content.bookmarks, links := content.links }

def NoteRow.content (row : NoteRow) : NoteContent :=
  ⟨row.title, row.body, row.alias, row.bookmarks, row.links⟩

def NoteRow.withContent (row : NoteRow) (content : NoteContent) : NoteRow :=
  { row with
    title := content.title, body := content.body, «alias» := content.alias,
    bookmarks := content.bookmarks, links := content.links }

structure NotebookContent where
  title : String
  «alias» : Option String

def Notebook.content (notebook : Notebook) : NotebookContent := ⟨notebook.title, notebook.alias⟩

def Notebook.withContent (notebook : Notebook) (content : NotebookContent) : Notebook :=
  { notebook with title := content.title, «alias» := content.alias }

def NotebookRow.content (row : NotebookRow) : NotebookContent := ⟨row.title, row.alias⟩

def NotebookRow.withContent (row : NotebookRow) (content : NotebookContent) : NotebookRow :=
  { row with title := content.title, «alias» := content.alias }

structure ResourceContent where
  title : String
  mimeType : String
  fileName : String

def Resource.content (resource : Resource) : ResourceContent :=
  ⟨resource.title, resource.mimeType, resource.fileName⟩

def Resource.withContent (resource : Resource) (content : ResourceContent) : Resource :=
  { resource with
    title := content.title, mimeType := content.mimeType, fileName := content.fileName }

def ResourceRow.content (row : ResourceRow) : ResourceContent :=
  ⟨row.title, row.mimeType, row.fileName⟩

def ResourceRow.withContent (row : ResourceRow) (content : ResourceContent) : ResourceRow :=
  { row with
    title := content.title, mimeType := content.mimeType, fileName := content.fileName }

namespace Cipher

variable (cipher : Cipher)

def openNote (content : NoteContent) : Except StorageError NoteContent := do
  let title ← cipher.decryptStr content.title
  let body ← cipher.decryptStr content.body
  let «alias» ← content.alias.mapM cipher.decryptStr
  let bookmarks ← content.bookmarks.mapM cipher.decBookmark
  let links ← content.links.mapM cipher.decLink
  return ⟨title, body, «alias», bookmarks, links⟩

def openNotebook (content : NotebookContent) : Except StorageError NotebookContent := do
  let title ← cipher.decryptStr content.title
  let «alias» ← content.alias.mapM cipher.decryptStr
  return ⟨title, «alias»⟩

def openResource (content : ResourceContent) : Except StorageError ResourceContent := do
  let title ← cipher.decryptStr content.title
  let mimeType ← cipher.decryptStr content.mimeType
  let fileName ← cipher.decryptStr content.fileName
  return ⟨title, mimeType, fileName⟩

/-- Opening an entity is opening what it says. -/
theorem decNote_eq (note : Note) :
    cipher.decNote note = (cipher.openNote note.content).map note.withContent := by
  simp only [decNote, openNote, Note.content]
  cases cipher.decryptStr note.title with
  | error failure => rfl
  | ok title =>
  cases cipher.decryptStr note.body with
  | error failure => rfl
  | ok body =>
  simp only [open_bind]
  cases note.alias.mapM cipher.decryptStr with
  | error failure => rfl
  | ok «alias» =>
  simp only [open_bind]
  cases note.bookmarks.mapM cipher.decBookmark with
  | error failure => rfl
  | ok bookmarks =>
  simp only [open_bind]
  cases note.links.mapM cipher.decLink with
  | error failure => rfl
  | ok links => rfl

theorem decNotebook_eq (notebook : Notebook) :
    cipher.decNotebook notebook =
      (cipher.openNotebook notebook.content).map notebook.withContent := by
  simp only [decNotebook, openNotebook, Notebook.content]
  cases cipher.decryptStr notebook.title with
  | error failure => rfl
  | ok title =>
  simp only [open_bind]
  cases notebook.alias.mapM cipher.decryptStr with
  | error failure => rfl
  | ok «alias» => rfl

theorem decTag_eq (tag : Tag) :
    cipher.decTag tag = (cipher.decryptStr tag.title).map fun title => { tag with title } := by
  rw [decTag]
  cases cipher.decryptStr tag.title <;> rfl

theorem decResource_eq (resource : Resource) :
    cipher.decResource resource =
      (cipher.openResource resource.content).map resource.withContent := by
  simp only [decResource, openResource, Resource.content]
  cases cipher.decryptStr resource.title with
  | error failure => rfl
  | ok title =>
  simp only [open_bind]
  cases cipher.decryptStr resource.mimeType with
  | error failure => rfl
  | ok mimeType =>
  simp only [open_bind]
  cases cipher.decryptStr resource.fileName with
  | error failure => rfl
  | ok fileName => rfl

def revealNote (note : Note) : Note := note.withContent (reveal cipher.openNote note.content)

def revealNoteRow (row : NoteRow) : NoteRow :=
  row.withContent (reveal cipher.openNote row.content)

def revealNotebook (notebook : Notebook) : Notebook :=
  notebook.withContent (reveal cipher.openNotebook notebook.content)

def revealNotebookRow (row : NotebookRow) : NotebookRow :=
  row.withContent (reveal cipher.openNotebook row.content)

def revealTag (tag : Tag) : Tag := { tag with title := reveal cipher.decryptStr tag.title }

def revealTagRow (row : TagRow) : TagRow := { row with title := reveal cipher.decryptStr row.title }

def revealResource (resource : Resource) : Resource :=
  resource.withContent (reveal cipher.openResource resource.content)

def revealResourceRow (row : ResourceRow) : ResourceRow :=
  { row.withContent (reveal cipher.openResource row.content) with
    data := row.data.map (reveal cipher.decryptBytes) }

def revealChange : Change → Change
  | .noteCreate note => .noteCreate (cipher.revealNote note)
  | .noteUpdate note => .noteUpdate (cipher.revealNote note)
  | .notebookCreate notebook => .notebookCreate (cipher.revealNotebook notebook)
  | .notebookUpdate notebook => .notebookUpdate (cipher.revealNotebook notebook)
  | .tagCreate tag => .tagCreate (cipher.revealTag tag)
  | .tagUpdate tag => .tagUpdate (cipher.revealTag tag)
  | .resourceCreate resource data =>
      .resourceCreate (cipher.revealResource resource) (data.map (reveal cipher.decryptBytes))
  | change => change

variable {cipher}

theorem revealNote_of_ok {sealed note : Note} (hopens : cipher.decNote sealed = .ok note) :
    cipher.revealNote sealed = note := by
  rw [decNote_eq] at hopens
  obtain ⟨content, hcontent, rfl⟩ := exists_of_map_ok hopens
  rw [revealNote, reveal_of_ok hcontent]

theorem revealNotebook_of_ok {sealed notebook : Notebook}
    (hopens : cipher.decNotebook sealed = .ok notebook) :
    cipher.revealNotebook sealed = notebook := by
  rw [decNotebook_eq] at hopens
  obtain ⟨content, hcontent, rfl⟩ := exists_of_map_ok hopens
  rw [revealNotebook, reveal_of_ok hcontent]

theorem revealTag_of_ok {sealed tag : Tag} (hopens : cipher.decTag sealed = .ok tag) :
    cipher.revealTag sealed = tag := by
  rw [decTag_eq] at hopens
  obtain ⟨title, htitle, rfl⟩ := exists_of_map_ok hopens
  rw [revealTag, reveal_of_ok htitle]

theorem revealResource_of_ok {sealed resource : Resource}
    (hopens : cipher.decResource sealed = .ok resource) :
    cipher.revealResource sealed = resource := by
  rw [decResource_eq] at hopens
  obtain ⟨content, hcontent, rfl⟩ := exists_of_map_ok hopens
  rw [revealResource, reveal_of_ok hcontent]

/-- The change a device sends is of what its entity says. -/
theorem revealChange_encChange (hlawful : cipher.Lawful) (change : Change) (rng : Rng) :
    cipher.revealChange (cipher.encChange change rng).1 = change := by
  cases change with
  | noteCreate note => exact congrArg _ (revealNote_of_ok (undoes_encNote hlawful note rng))
  | noteUpdate note => exact congrArg _ (revealNote_of_ok (undoes_encNote hlawful note rng))
  | notebookCreate notebook =>
      exact congrArg _ (revealNotebook_of_ok (undoes_encNotebook hlawful notebook rng))
  | notebookUpdate notebook =>
      exact congrArg _ (revealNotebook_of_ok (undoes_encNotebook hlawful notebook rng))
  | tagCreate tag => exact congrArg _ (revealTag_of_ok (undoes_encTag hlawful tag rng))
  | tagUpdate tag => exact congrArg _ (revealTag_of_ok (undoes_encTag hlawful tag rng))
  | resourceCreate resource data =>
      have hresource := revealResource_of_ok (undoes_encResource hlawful resource rng)
      have hdata : ∀ (data : Option (List UInt8)) rng, (data.mapM cipher.encryptBytes rng).1.map
          (reveal cipher.decryptBytes) = data := by
        intro data rng
        cases data with
        | none => rfl
        | some data => exact congrArg some (reveal_of_ok (undoes_encryptBytes hlawful data rng))
      exact congrArg₂ _ hresource (hdata data _)
  | noteDelete id deletedAt vv lastWriter => rfl
  | notebookDelete id deletedAt vv lastWriter => rfl
  | tagDelete id deletedAt vv lastWriter => rfl
  | noteTagAdd noteId tagId updatedAt vv lastWriter => rfl
  | noteTagRemove noteId tagId updatedAt vv lastWriter => rfl
  | resourceDelete id deletedAt vv lastWriter => rfl

/-- The targets of links are not sealed. -/
theorem targets_mapM_decLink {links opened : List NoteLink}
    (hopens : links.mapM cipher.decLink = .ok opened) :
    opened.map NoteLink.targetNoteId = links.map NoteLink.targetNoteId := by
  induction links generalizing opened with
  | nil =>
      cases hopens
      rfl
  | cons link rest ih =>
      rw [List.mapM_cons, decLink] at hopens
      cases hraw : cipher.decryptStr link.raw with
      | error failure =>
          rw [hraw] at hopens
          cases hopens
      | ok raw =>
          cases hrest : rest.mapM cipher.decLink with
          | error failure =>
              rw [hraw, hrest] at hopens
              cases hopens
          | ok later =>
              rw [hraw, hrest] at hopens
              cases hopens
              simp only [List.map_cons, ih hrest]

theorem targets_revealNote (content : NoteContent) :
    (reveal cipher.openNote content).links.map NoteLink.targetNoteId =
      content.links.map NoteLink.targetNoteId := by
  cases hopens : cipher.openNote content with
  | error failure => rw [reveal, hopens]
  | ok opened =>
      rw [reveal_of_ok hopens]
      rw [openNote] at hopens
      cases htitle : cipher.decryptStr content.title <;> rw [htitle] at hopens
      · cases hopens
      cases hbody : cipher.decryptStr content.body <;> rw [hbody] at hopens
      · cases hopens
      cases halias : content.alias.mapM cipher.decryptStr <;> rw [halias] at hopens
      · cases hopens
      cases hbookmarks : content.bookmarks.mapM cipher.decBookmark <;> rw [hbookmarks] at hopens
      · cases hopens
      cases hlinks : content.links.mapM cipher.decLink <;> rw [hlinks] at hopens
      · cases hopens
      cases hopens
      exact targets_mapM_decLink hlinks

end Cipher

/-- The rows of a table, each changed. -/
def mapRows {R : Type} (change : R → R) (table : Table R) : Table R :=
  table.map fun _ row => change row

section Rows

variable {R : Type} {change : R → R} {table : Table R}

@[simp] theorem getElem?_mapRows (id : Uuid) :
    (mapRows change table)[id]? = table[id]?.map change :=
  Std.ExtTreeMap.getElem?_map

@[simp] theorem contains_mapRows (id : Uuid) :
    (mapRows change table).contains id = table.contains id := by
  rw [Std.ExtTreeMap.contains_eq_isSome_getElem?, getElem?_mapRows, Option.isSome_map,
    Std.ExtTreeMap.contains_eq_isSome_getElem?]

theorem mapRows_insert (id : Uuid) (row : R) :
    mapRows change (table.insert id row) = (mapRows change table).insert id (change row) := by
  refine Std.ExtTreeMap.ext_getElem? fun key => ?_
  simp only [getElem?_mapRows, Std.ExtTreeMap.getElem?_insert]
  split <;> rfl

/-- Changes of different columns in either order. -/
theorem mapRows_map {other : R → R} (hcommute : ∀ row, change (other row) = other (change row)) :
    mapRows change (table.map fun _ row => other row) =
      (mapRows change table).map fun _ row => other row := by
  refine Std.ExtTreeMap.ext_getElem? fun key => ?_
  simp only [getElem?_mapRows, Std.ExtTreeMap.getElem?_map, Option.map_map]
  congr 1
  funext row
  exact hcommute row

end Rows

namespace Cipher

variable (cipher : Cipher)

def revealDb (db : Db) : Db :=
  { db with
    notes := mapRows cipher.revealNoteRow db.notes
    notebooks := mapRows cipher.revealNotebookRow db.notebooks
    tags := mapRows cipher.revealTagRow db.tags
    resources := mapRows cipher.revealResourceRow db.resources
    entityChanges := db.entityChanges.map fun entry =>
      { entry with change := cipher.revealChange entry.change } }

variable {cipher} (db : Db)

theorem currentMeta_revealDb (table : VersionedTable) (id : Uuid) :
    (cipher.revealDb db).currentMeta table id = db.currentMeta table id := by
  cases table with
  | notes =>
      simp only [Db.currentMeta, revealDb, getElem?_mapRows, Option.map_map]
      rfl
  | notebooks =>
      simp only [Db.currentMeta, revealDb, getElem?_mapRows, Option.map_map]
      rfl
  | tags =>
      simp only [Db.currentMeta, revealDb, getElem?_mapRows, Option.map_map]
      rfl

theorem resourceMeta_revealDb (id : Uuid) :
    (cipher.revealDb db).resourceMeta id = db.resourceMeta id := by
  simp only [Db.resourceMeta, revealDb, getElem?_mapRows, Option.map_map]
  rfl

theorem noteIsLive_revealDb (id : Uuid) :
    (cipher.revealDb db).noteIsLive id = db.noteIsLive id := by
  simp only [Db.noteIsLive, revealDb, getElem?_mapRows]
  cases db.notes[id]? <;> rfl

theorem tagIsLive_revealDb (id : Uuid) :
    (cipher.revealDb db).tagIsLive id = db.tagIsLive id := by
  simp only [Db.tagIsLive, revealDb, getElem?_mapRows]
  cases db.tags[id]? <;> rfl

theorem revealDb_recordChange (changedAt : DateTime) (change : Change) :
    cipher.revealDb (db.recordChange changedAt change) =
      (cipher.revealDb db).recordChange changedAt (cipher.revealChange change) := by
  simp only [Db.recordChange, revealDb, List.map_append, List.map_cons, List.map_nil]

theorem revealDb_putNote (id : Uuid) (row : NoteRow) :
    cipher.revealDb { db with notes := db.notes.insert id row } =
      { cipher.revealDb db with
        notes := (cipher.revealDb db).notes.insert id (cipher.revealNoteRow row) } := by
  simp only [revealDb, mapRows_insert]

theorem revealDb_putNotebook (id : Uuid) (row : NotebookRow) :
    cipher.revealDb { db with notebooks := db.notebooks.insert id row } =
      { cipher.revealDb db with
        notebooks := (cipher.revealDb db).notebooks.insert id
          (cipher.revealNotebookRow row) } := by
  simp only [revealDb, mapRows_insert]

theorem revealDb_putTag (id : Uuid) (row : TagRow) :
    cipher.revealDb { db with tags := db.tags.insert id row } =
      { cipher.revealDb db with
        tags := (cipher.revealDb db).tags.insert id (cipher.revealTagRow row) } := by
  simp only [revealDb, mapRows_insert]

theorem revealDb_putResource (id : Uuid) (row : ResourceRow) :
    cipher.revealDb { db with resources := db.resources.insert id row } =
      { cipher.revealDb db with
        resources := (cipher.revealDb db).resources.insert id
          (cipher.revealResourceRow row) } := by
  simp only [revealDb, mapRows_insert]

/-- The links are recorded by their targets. -/
theorem revealDb_refreshNoteLinks (note : Note) :
    cipher.revealDb (db.refreshNoteLinks note) =
      (cipher.revealDb db).refreshNoteLinks (cipher.revealNote note) := by
  have htargets : (cipher.revealNote note).links.filterMap NoteLink.targetNoteId =
      note.links.filterMap NoteLink.targetNoteId := by
    have hsame : (reveal cipher.openNote note.content).links.map NoteLink.targetNoteId =
        note.content.links.map NoteLink.targetNoteId := targets_revealNote note.content
    have hid : ∀ links : List NoteLink, links.filterMap NoteLink.targetNoteId =
        (links.map NoteLink.targetNoteId).filterMap id :=
      fun links => by rw [List.filterMap_map, Function.id_comp]
    rw [hid, hid note.links]
    exact congrArg _ hsame
  simp only [Db.refreshNoteLinks, htargets]
  rfl

theorem revealDb_cascadeStampResources (noteId : Uuid) (deletedAt : DateTime) :
    cipher.revealDb (db.cascadeStampResources noteId deletedAt) =
      (cipher.revealDb db).cascadeStampResources noteId deletedAt := by
  simp only [Db.cascadeStampResources, revealDb]
  rw [mapRows_map]
  intro row
  by_cases hstamped : row.noteId = noteId ∧ row.deletedAt = none
  · rw [if_pos hstamped]
    exact (if_pos hstamped).symm
  · rw [if_neg hstamped]
    exact (if_neg hstamped).symm

theorem revealDb_cascadeUnstampResources (noteId : Uuid) (deletedAt : DateTime) :
    cipher.revealDb (db.cascadeUnstampResources noteId deletedAt) =
      (cipher.revealDb db).cascadeUnstampResources noteId deletedAt := by
  simp only [Db.cascadeUnstampResources, revealDb]
  rw [mapRows_map]
  intro row
  by_cases hstamped : row.noteId = noteId ∧ row.deletedAt = some deletedAt
  · rw [if_pos hstamped]
    exact (if_pos hstamped).symm
  · rw [if_neg hstamped]
    exact (if_neg hstamped).symm

theorem revealDb_restoreResources (note : Note) (priorDeleted : Option DateTime) :
    cipher.revealDb (db.restoreResources note priorDeleted) =
      (cipher.revealDb db).restoreResources (cipher.revealNote note) priorDeleted := by
  have hdeleted : (cipher.revealNote note).deletedAt = note.deletedAt := rfl
  simp only [Db.restoreResources, hdeleted]
  cases note.deletedAt with
  | some deletedAt => rfl
  | none =>
      cases priorDeleted with
      | none => rfl
      | some priorDeleted => exact revealDb_cascadeUnstampResources db note.id priorDeleted

section Mutators

variable (changedAt : DateTime)

theorem revealDb_createNote (note : Note) :
    (db.createNote note changedAt).map (Prod.map cipher.revealDb cipher.revealNote) =
      (cipher.revealDb db).createNote (cipher.revealNote note) changedAt := by
  have hid : (cipher.revealNote note).id = note.id := rfl
  have htaken : (cipher.revealDb db).notes.contains note.id = db.notes.contains note.id :=
    contains_mapRows note.id
  simp only [Db.createNote, Db.nextLocalVv, currentMeta_revealDb, hid, htaken]
  cases db.notes.contains note.id with
  | true => rfl
  | false =>
      simp only [Bool.false_eq_true, ↓reduceIte, Except.map, Prod.map]
      rw [revealDb_recordChange, revealDb_refreshNoteLinks, revealDb_putNote]
      rfl

theorem revealDb_updateNote (note : Note) :
    (db.updateNote note changedAt).map (Prod.map cipher.revealDb cipher.revealNote) =
      (cipher.revealDb db).updateNote (cipher.revealNote note) changedAt := by
  have hid : (cipher.revealNote note).id = note.id := rfl
  have hrow : (cipher.revealDb db).notes[note.id]? =
      db.notes[note.id]?.map cipher.revealNoteRow := getElem?_mapRows note.id
  simp only [Db.updateNote, Db.nextLocalVv, currentMeta_revealDb, hid, hrow]
  cases db.notes[note.id]? with
  | none => rfl
  | some row =>
      simp only [Except.map, Prod.map, Option.map_some]
      rw [revealDb_recordChange, revealDb_refreshNoteLinks, revealDb_restoreResources,
        revealDb_putNote]
      rfl

theorem revealDb_deleteNote (id : Uuid) (ts : DateTime) :
    (db.deleteNote id ts changedAt).map cipher.revealDb =
      (cipher.revealDb db).deleteNote id ts changedAt := by
  have hrow : (cipher.revealDb db).notes[id]? = db.notes[id]?.map cipher.revealNoteRow :=
    getElem?_mapRows id
  simp only [Db.deleteNote, Db.nextLocalVv, currentMeta_revealDb, hrow]
  cases db.notes[id]? with
  | none => rfl
  | some row =>
      simp only [Except.map, Option.map_some]
      rw [revealDb_recordChange, revealDb_cascadeStampResources, revealDb_putNote]
      rfl

theorem revealDb_createNotebook (notebook : Notebook) :
    (db.createNotebook notebook changedAt).map
        (Prod.map cipher.revealDb cipher.revealNotebook) =
      (cipher.revealDb db).createNotebook (cipher.revealNotebook notebook) changedAt := by
  have hid : (cipher.revealNotebook notebook).id = notebook.id := rfl
  have htaken : (cipher.revealDb db).notebooks.contains notebook.id =
      db.notebooks.contains notebook.id := contains_mapRows notebook.id
  simp only [Db.createNotebook, Db.nextLocalVv, currentMeta_revealDb, hid, htaken]
  cases db.notebooks.contains notebook.id with
  | true => rfl
  | false =>
      simp only [Bool.false_eq_true, ↓reduceIte, Except.map, Prod.map]
      rw [revealDb_recordChange, revealDb_putNotebook]
      rfl

theorem revealDb_updateNotebook (notebook : Notebook) :
    (db.updateNotebook notebook changedAt).map
        (Prod.map cipher.revealDb cipher.revealNotebook) =
      (cipher.revealDb db).updateNotebook (cipher.revealNotebook notebook) changedAt := by
  have hid : (cipher.revealNotebook notebook).id = notebook.id := rfl
  have hrow : (cipher.revealDb db).notebooks[notebook.id]? =
      db.notebooks[notebook.id]?.map cipher.revealNotebookRow := getElem?_mapRows notebook.id
  simp only [Db.updateNotebook, Db.nextLocalVv, currentMeta_revealDb, hid, hrow]
  cases db.notebooks[notebook.id]? with
  | none => rfl
  | some row =>
      simp only [Except.map, Prod.map, Option.map_some]
      rw [revealDb_recordChange, revealDb_putNotebook]
      rfl

theorem revealDb_deleteNotebook (id : Uuid) (ts : DateTime) :
    (db.deleteNotebook id ts changedAt).map cipher.revealDb =
      (cipher.revealDb db).deleteNotebook id ts changedAt := by
  have hrow : (cipher.revealDb db).notebooks[id]? =
      db.notebooks[id]?.map cipher.revealNotebookRow := getElem?_mapRows id
  simp only [Db.deleteNotebook, Db.nextLocalVv, currentMeta_revealDb, hrow]
  cases db.notebooks[id]? with
  | none => rfl
  | some row =>
      simp only [Except.map, Option.map_some]
      rw [revealDb_recordChange, revealDb_putNotebook]
      rfl

theorem revealDb_createTag (tag : Tag) :
    (db.createTag tag changedAt).map (Prod.map cipher.revealDb cipher.revealTag) =
      (cipher.revealDb db).createTag (cipher.revealTag tag) changedAt := by
  have hid : (cipher.revealTag tag).id = tag.id := rfl
  have htaken : (cipher.revealDb db).tags.contains tag.id = db.tags.contains tag.id :=
    contains_mapRows tag.id
  simp only [Db.createTag, Db.nextLocalVv, currentMeta_revealDb, hid, htaken]
  cases db.tags.contains tag.id with
  | true => rfl
  | false =>
      simp only [Bool.false_eq_true, ↓reduceIte, Except.map, Prod.map]
      rw [revealDb_recordChange, revealDb_putTag]
      rfl

theorem revealDb_updateTag (tag : Tag) :
    (db.updateTag tag changedAt).map (Prod.map cipher.revealDb cipher.revealTag) =
      (cipher.revealDb db).updateTag (cipher.revealTag tag) changedAt := by
  have hid : (cipher.revealTag tag).id = tag.id := rfl
  have hrow : (cipher.revealDb db).tags[tag.id]? = db.tags[tag.id]?.map cipher.revealTagRow :=
    getElem?_mapRows tag.id
  simp only [Db.updateTag, Db.nextLocalVv, currentMeta_revealDb, hid, hrow]
  cases db.tags[tag.id]? with
  | none => rfl
  | some row =>
      simp only [Except.map, Prod.map, Option.map_some]
      rw [revealDb_recordChange, revealDb_putTag]
      rfl

theorem revealDb_deleteTag (id : Uuid) (ts : DateTime) :
    (db.deleteTag id ts changedAt).map cipher.revealDb =
      (cipher.revealDb db).deleteTag id ts changedAt := by
  have hrow : (cipher.revealDb db).tags[id]? = db.tags[id]?.map cipher.revealTagRow :=
    getElem?_mapRows id
  simp only [Db.deleteTag, Db.nextLocalVv, currentMeta_revealDb, hrow]
  cases db.tags[id]? with
  | none => rfl
  | some row =>
      simp only [Except.map, Option.map_some]
      rw [revealDb_recordChange, revealDb_putTag]
      rfl

theorem revealDb_upsertAssoc (noteId tagId : Uuid) (updatedAt : DateTime)
    (deletedAt : Option DateTime) (vv : VersionVector) (lastWriter : String) :
    cipher.revealDb (db.upsertAssoc noteId tagId updatedAt deletedAt vv lastWriter) =
      (cipher.revealDb db).upsertAssoc noteId tagId updatedAt deletedAt vv lastWriter := rfl

theorem revealDb_addNoteTag (noteTag : NoteTag) (ts : DateTime) :
    (db.addNoteTag noteTag ts changedAt).map cipher.revealDb =
      (cipher.revealDb db).addNoteTag noteTag ts changedAt := by
  have hvv : (cipher.revealDb db).nextAssocVv noteTag.noteId noteTag.tagId =
      db.nextAssocVv noteTag.noteId noteTag.tagId := rfl
  simp only [Db.addNoteTag, noteIsLive_revealDb, tagIsLive_revealDb, hvv]
  cases db.noteIsLive noteTag.noteId with
  | false => rfl
  | true =>
      cases db.tagIsLive noteTag.tagId with
      | false => rfl
      | true =>
          simp only [Bool.not_true, Bool.false_eq_true, ↓reduceIte, Except.map]
          rw [revealDb_recordChange, revealDb_upsertAssoc]
          rfl

theorem revealDb_removeNoteTag (noteId tagId : Uuid) (ts : DateTime) :
    (db.removeNoteTag noteId tagId ts changedAt).map cipher.revealDb =
      (cipher.revealDb db).removeNoteTag noteId tagId ts changedAt := by
  simp only [Db.removeNoteTag, Except.map]
  rw [revealDb_recordChange, revealDb_upsertAssoc]
  rfl

theorem revealDb_createResource (resource : Resource) (data : List UInt8) :
    (db.createResource resource data changedAt).map
        (Prod.map cipher.revealDb cipher.revealResource) =
      (cipher.revealDb db).createResource (cipher.revealResource resource)
        (reveal cipher.decryptBytes data) changedAt := by
  have hid : (cipher.revealResource resource).id = resource.id := rfl
  have htaken : (cipher.revealDb db).resources.contains resource.id =
      db.resources.contains resource.id := contains_mapRows resource.id
  simp only [Db.createResource, Db.nextResourceVv, resourceMeta_revealDb, hid, htaken]
  cases db.resources.contains resource.id with
  | true => rfl
  | false =>
      simp only [Bool.false_eq_true, ↓reduceIte, Except.map, Prod.map]
      rw [revealDb_recordChange, revealDb_putResource]
      rfl

theorem revealDb_deleteResource (id : Uuid) (ts : DateTime) :
    (db.deleteResource id ts changedAt).map cipher.revealDb =
      (cipher.revealDb db).deleteResource id ts changedAt := by
  have hrow : (cipher.revealDb db).resources[id]? =
      db.resources[id]?.map cipher.revealResourceRow := getElem?_mapRows id
  simp only [Db.deleteResource, Db.nextResourceVv, resourceMeta_revealDb, hrow]
  cases db.resources[id]? with
  | none => rfl
  | some row =>
      simp only [Except.map, Option.map_some]
      rw [revealDb_recordChange, revealDb_putResource]
      rfl

/-- The payloads that go are of the same rows. -/
theorem revealDb_purgeDeletedResources (olderThan : DateTime) :
    Prod.map cipher.revealDb id (db.purgeDeletedResources olderThan) =
      (cipher.revealDb db).purgeDeletedResources olderThan := by
  have hcount : ∀ purges : ResourceRow → Bool,
      (∀ row, purges (cipher.revealResourceRow row) = purges row) →
      ((cipher.revealDb db).resources.toList.countP fun entry => purges entry.2) =
        db.resources.toList.countP fun entry => purges entry.2 := by
    intro purges hpurges
    have htoList : (cipher.revealDb db).resources.toList = db.resources.toList.map
        fun entry => (entry.1, cipher.revealResourceRow entry.2) := Std.ExtTreeMap.toList_map
    rw [htoList, List.countP_map]
    congr 1
    funext entry
    exact hpurges entry.2
  let purges (row : ResourceRow) : Bool :=
    row.deletedAt.any (fun deletedAt => deletedAt < olderThan) && row.data.isSome
  have hsame : ∀ row, purges (cipher.revealResourceRow row) = purges row := by
    intro row
    simp only [purges, revealResourceRow, ResourceRow.withContent, Option.isSome_map]
  simp only [Db.purgeDeletedResources, Prod.map, id_eq]
  refine Prod.ext ?_ (hcount purges hsame).symm
  simp only [revealDb]
  rw [mapRows_map]
  intro row
  by_cases hpurges : purges row = true
  · have hrevealed : purges (cipher.revealResourceRow row) = true := (hsame row).trans hpurges
    exact (congrArg cipher.revealResourceRow (if_pos hpurges)).trans (if_pos hrevealed).symm
  · have hrevealed : ¬ purges (cipher.revealResourceRow row) = true := by
      rw [hsame]
      exact hpurges
    exact (congrArg cipher.revealResourceRow (if_neg hpurges)).trans (if_neg hrevealed).symm

theorem revealDb_pruneChangeJournal (olderThan : DateTime) :
    Prod.map cipher.revealDb id (db.pruneChangeJournal olderThan) =
      (cipher.revealDb db).pruneChangeJournal olderThan := by
  simp only [Db.pruneChangeJournal, revealDb, Prod.map, List.filter_map, List.countP_map]
  rfl

end Mutators

end Cipher

end Keeplin
