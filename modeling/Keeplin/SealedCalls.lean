/-
What the database behind the encrypting decorator becomes.  Seen by one who has
the key it goes the way of a database that is given the plain entities, whatever
the calls and whatever the nonces: of the rows it makes up by itself, the empty
texts are no ciphertexts and stand for themselves.
-/
import Keeplin.RevealedDb

namespace Keeplin

namespace Cipher

variable {cipher : Cipher}

section Placeholders

variable (hlawful : cipher.Lawful) (deletedAt : DateTime) (vv : VersionVector) (lastWriter : String)
include hlawful

theorem openNote_of_title {content : NoteContent} (htitle : content.title = "") :
    cipher.openNote content = .error .corruptedData := by
  rw [openNote, htitle, decryptStr_empty hlawful]
  rfl

theorem openNotebook_of_title {content : NotebookContent} (htitle : content.title = "") :
    cipher.openNotebook content = .error .corruptedData := by
  rw [openNotebook, htitle, decryptStr_empty hlawful]
  rfl

theorem openResource_of_title {content : ResourceContent} (htitle : content.title = "") :
    cipher.openResource content = .error .corruptedData := by
  rw [openResource, htitle, decryptStr_empty hlawful]
  rfl

theorem revealNoteRow_placeholder :
    cipher.revealNoteRow (.placeholder deletedAt vv lastWriter) =
      .placeholder deletedAt vv lastWriter := by
  rw [revealNoteRow, reveal, openNote_of_title hlawful rfl]
  rfl

theorem revealNotebookRow_placeholder :
    cipher.revealNotebookRow (.placeholder deletedAt vv lastWriter) =
      .placeholder deletedAt vv lastWriter := by
  rw [revealNotebookRow, reveal, openNotebook_of_title hlawful rfl]
  rfl

theorem revealTagRow_placeholder :
    cipher.revealTagRow (.placeholder deletedAt vv lastWriter) =
      .placeholder deletedAt vv lastWriter := by
  have htitle : (TagRow.placeholder deletedAt vv lastWriter).title = "" := rfl
  rw [revealTagRow, reveal, htitle, decryptStr_empty hlawful]
  rfl

theorem revealResourceRow_placeholder :
    cipher.revealResourceRow (.placeholder deletedAt vv lastWriter) =
      .placeholder deletedAt vv lastWriter := by
  rw [revealResourceRow, reveal, openResource_of_title hlawful rfl]
  rfl

end Placeholders

theorem reveal_no_bytes : reveal cipher.decryptBytes [] = [] := rfl

section Applied

variable (db : Db)

theorem incomingWins_revealDb (table : VersionedTable) (id : Uuid) (vv : VersionVector)
    (updatedAt : DateTime) (lastWriter : String) :
    (cipher.revealDb db).incomingWins table id vv updatedAt lastWriter =
      db.incomingWins table id vv updatedAt lastWriter := by
  rw [Db.incomingWins, Db.incomingWins, currentMeta_revealDb]

theorem resourceIncomingWins_revealDb (id : Uuid) (vv : VersionVector) (ts : DateTime)
    (lastWriter : String) :
    (cipher.revealDb db).resourceIncomingWins id vv ts lastWriter =
      db.resourceIncomingWins id vv ts lastWriter := by
  rw [Db.resourceIncomingWins, Db.resourceIncomingWins, resourceMeta_revealDb]

theorem revealDb_applyNote (note : Note) :
    cipher.revealDb (db.applyNote note) =
      (cipher.revealDb db).applyNote (cipher.revealNote note) := by
  have hwins : (cipher.revealDb db).incomingWins .notes (cipher.revealNote note).id
      (cipher.revealNote note).vv (cipher.revealNote note).updatedAt
        (cipher.revealNote note).lastWriter =
      db.incomingWins .notes note.id note.vv note.updatedAt note.lastWriter :=
    incomingWins_revealDb db .notes note.id note.vv note.updatedAt note.lastWriter
  have hprior : (cipher.revealDb db).notes[(cipher.revealNote note).id]?.bind NoteRow.deletedAt =
      db.notes[note.id]?.bind NoteRow.deletedAt := by
    have hrow : (cipher.revealDb db).notes[note.id]? =
        db.notes[note.id]?.map cipher.revealNoteRow := getElem?_mapRows note.id
    refine (congrArg (fun row => Option.bind row NoteRow.deletedAt) hrow).trans ?_
    cases db.notes[note.id]? <;> rfl
  simp only [Db.applyNote, hwins, hprior]
  split
  · rw [revealDb_restoreResources, revealDb_putNote, revealDb_refreshNoteLinks]
    rfl
  · rfl

theorem revealDb_applyNotebook (notebook : Notebook) :
    cipher.revealDb (db.applyNotebook notebook) =
      (cipher.revealDb db).applyNotebook (cipher.revealNotebook notebook) := by
  have hwins : (cipher.revealDb db).incomingWins .notebooks (cipher.revealNotebook notebook).id
      (cipher.revealNotebook notebook).vv (cipher.revealNotebook notebook).updatedAt
        (cipher.revealNotebook notebook).lastWriter =
      db.incomingWins .notebooks notebook.id notebook.vv notebook.updatedAt notebook.lastWriter :=
    incomingWins_revealDb db .notebooks notebook.id notebook.vv notebook.updatedAt
      notebook.lastWriter
  simp only [Db.applyNotebook, hwins]
  split
  · rw [revealDb_putNotebook]
    rfl
  · rfl

theorem revealDb_applyTag (tag : Tag) :
    cipher.revealDb (db.applyTag tag) = (cipher.revealDb db).applyTag (cipher.revealTag tag) := by
  have hwins : (cipher.revealDb db).incomingWins .tags (cipher.revealTag tag).id
      (cipher.revealTag tag).vv (cipher.revealTag tag).updatedAt (cipher.revealTag tag).lastWriter =
      db.incomingWins .tags tag.id tag.vv tag.updatedAt tag.lastWriter :=
    incomingWins_revealDb db .tags tag.id tag.vv tag.updatedAt tag.lastWriter
  simp only [Db.applyTag, hwins]
  split
  · rw [revealDb_putTag]
    rfl
  · rfl

theorem revealDb_applyResource (resource : Resource) (data : Option (List UInt8)) :
    cipher.revealDb (db.applyResource resource data) =
      (cipher.revealDb db).applyResource (cipher.revealResource resource)
        (data.map (reveal cipher.decryptBytes)) := by
  have hwins : (cipher.revealDb db).resourceIncomingWins (cipher.revealResource resource).id
      (cipher.revealResource resource).vv ((cipher.revealResource resource).deletedAt.getD
        (cipher.revealResource resource).createdAt) (cipher.revealResource resource).lastWriter =
      db.resourceIncomingWins resource.id resource.vv
        (resource.deletedAt.getD resource.createdAt) resource.lastWriter :=
    resourceIncomingWins_revealDb db resource.id resource.vv _ resource.lastWriter
  have hdata : (data.map (reveal cipher.decryptBytes)).getD [] =
      reveal cipher.decryptBytes (data.getD []) := by
    cases data with
    | none => exact reveal_no_bytes.symm
    | some data => rfl
  simp only [Db.applyResource, hwins, hdata]
  split
  · rw [revealDb_putResource]
    rfl
  · rfl

section Deletes

variable (hlawful : cipher.Lawful) (id : Uuid) (deletedAt : DateTime) (vv : VersionVector)
  (lastWriter : String)
include hlawful

theorem revealDb_applyNoteDelete :
    cipher.revealDb (db.applyNoteDelete id deletedAt vv lastWriter) =
      (cipher.revealDb db).applyNoteDelete id deletedAt vv lastWriter := by
  have hrow : (cipher.revealDb db).notes[id]? = db.notes[id]?.map cipher.revealNoteRow :=
    getElem?_mapRows id
  simp only [Db.applyNoteDelete, incomingWins_revealDb, hrow]
  split
  · rw [revealDb_cascadeStampResources, revealDb_putNote]
    cases db.notes[id]? with
    | none => simp only [Option.map_none, revealNoteRow_placeholder hlawful]
    | some row => rfl
  · rfl

theorem revealDb_applyNotebookDelete :
    cipher.revealDb (db.applyNotebookDelete id deletedAt vv lastWriter) =
      (cipher.revealDb db).applyNotebookDelete id deletedAt vv lastWriter := by
  have hrow : (cipher.revealDb db).notebooks[id]? =
      db.notebooks[id]?.map cipher.revealNotebookRow := getElem?_mapRows id
  simp only [Db.applyNotebookDelete, incomingWins_revealDb, hrow]
  split
  · rw [revealDb_putNotebook]
    cases db.notebooks[id]? with
    | none => simp only [Option.map_none, revealNotebookRow_placeholder hlawful]
    | some row => rfl
  · rfl

theorem revealDb_applyTagDelete :
    cipher.revealDb (db.applyTagDelete id deletedAt vv lastWriter) =
      (cipher.revealDb db).applyTagDelete id deletedAt vv lastWriter := by
  have hrow : (cipher.revealDb db).tags[id]? = db.tags[id]?.map cipher.revealTagRow :=
    getElem?_mapRows id
  simp only [Db.applyTagDelete, incomingWins_revealDb, hrow]
  split
  · rw [revealDb_putTag]
    cases db.tags[id]? with
    | none => simp only [Option.map_none, revealTagRow_placeholder hlawful]
    | some row => rfl
  · rfl

theorem revealDb_applyResourceDelete :
    cipher.revealDb (db.applyResourceDelete id deletedAt vv lastWriter) =
      (cipher.revealDb db).applyResourceDelete id deletedAt vv lastWriter := by
  have hrow : (cipher.revealDb db).resources[id]? =
      db.resources[id]?.map cipher.revealResourceRow := getElem?_mapRows id
  simp only [Db.applyResourceDelete, resourceIncomingWins_revealDb, hrow]
  split
  · rw [revealDb_putResource]
    cases db.resources[id]? with
    | none => simp only [Option.map_none, revealResourceRow_placeholder hlawful]
    | some row => rfl
  · rfl

end Deletes

theorem revealDb_applyNoteTag (noteId tagId : Uuid) (updatedAt : DateTime)
    (deletedAt : Option DateTime) (vv : VersionVector) (lastWriter : String) :
    cipher.revealDb (db.applyNoteTag noteId tagId updatedAt deletedAt vv lastWriter) =
      (cipher.revealDb db).applyNoteTag noteId tagId updatedAt deletedAt vv lastWriter := by
  have hwins : (cipher.revealDb db).assocIncomingWins noteId tagId vv updatedAt lastWriter =
      db.assocIncomingWins noteId tagId vv updatedAt lastWriter := rfl
  simp only [Db.applyNoteTag, hwins]
  split <;> rfl

theorem revealDb_applyChange (hlawful : cipher.Lawful) (change : Change) :
    cipher.revealDb (db.applyChange change) =
      (cipher.revealDb db).applyChange (cipher.revealChange change) := by
  cases change with
  | noteCreate note | noteUpdate note => exact revealDb_applyNote db note
  | noteDelete id deletedAt vv lastWriter =>
      exact revealDb_applyNoteDelete db hlawful id deletedAt vv lastWriter
  | notebookCreate notebook | notebookUpdate notebook => exact revealDb_applyNotebook db notebook
  | notebookDelete id deletedAt vv lastWriter =>
      exact revealDb_applyNotebookDelete db hlawful id deletedAt vv lastWriter
  | tagCreate tag | tagUpdate tag => exact revealDb_applyTag db tag
  | tagDelete id deletedAt vv lastWriter =>
      exact revealDb_applyTagDelete db hlawful id deletedAt vv lastWriter
  | noteTagAdd noteId tagId updatedAt vv lastWriter =>
      exact revealDb_applyNoteTag db noteId tagId updatedAt none vv lastWriter
  | noteTagRemove noteId tagId updatedAt vv lastWriter =>
      exact revealDb_applyNoteTag db noteId tagId updatedAt (some updatedAt) vv lastWriter
  | resourceCreate resource data => exact revealDb_applyResource db resource data
  | resourceDelete id deletedAt vv lastWriter =>
      exact revealDb_applyResourceDelete db hlawful id deletedAt vv lastWriter

end Applied

section Runs

variable {A : Type}

/-- The database after a call. -/
def settled (db : Db) (result : Except StorageError (Db × A)) : Db :=
  match result with
  | .ok (after, _) => after
  | .error _ => db

theorem settled_map {B : Type} (db : Db) (result : Except StorageError (Db × A)) (reply : A → B) :
    settled db (result.map (Prod.map id reply)) = settled db result := by
  cases result <;> rfl

theorem serve_eq_settled (db : Db) (call : RepositoryCall) :
    (db.serve call).1 = settled db (db.repositoryCall call) := by
  unfold Db.serve
  cases db.repositoryCall call <;> rfl

/-- A call with an entity that has been sealed does what it does with the entity. -/
theorem revealDb_write {seals : A → StateM Rng A} {opens : A → Except StorageError A}
    {reply : A → Reply} {call : Db → A → Except StorageError (Db × A)} {revealed : A → A}
    (callPlain : Db → A → Except StorageError (Db × A))
    (hcall : ∀ db item, (call db item).map (Prod.map cipher.revealDb revealed) =
      callPlain (cipher.revealDb db) (revealed item))
    (hsealed : ∀ item rng, revealed (seals item rng).1 = item)
    (backend : EncryptedBackend) (item : A) :
    cipher.revealDb (backend.write seals opens reply call item).1.inner =
      settled (cipher.revealDb backend.inner) (callPlain (cipher.revealDb backend.inner) item) := by
  have hplain := hcall backend.inner (seals item backend.rng).1
  rw [hsealed] at hplain
  rw [← hplain]
  simp only [EncryptedBackend.write]
  cases call backend.inner (seals item backend.rng).1 with
  | error failure => rfl
  | ok done => rfl

/-- A call that has nothing to seal. -/
theorem revealDb_settle_unit {result : Except StorageError Db} {backend : EncryptedBackend}
    {plain : Except StorageError Db} (hplain : result.map cipher.revealDb = plain) :
    cipher.revealDb (backend.settle (result.map (·, Reply.done))).1.inner =
      settled (cipher.revealDb backend.inner) (plain.map (·, Reply.done)) := by
  subst hplain
  cases result <;> rfl

variable (hlawful : cipher.Lawful)
include hlawful

theorem revealDb_serve (backend : EncryptedBackend) (call : RepositoryCall) :
    cipher.revealDb (EncryptedBackend.serve cipher backend call).1.inner =
      ((cipher.revealDb backend.inner).serve call).1 := by
  rw [serve_eq_settled]
  cases call with
  | createNote note changedAt =>
      refine (revealDb_write (fun db note => db.createNote note changedAt)
        (fun db note => revealDb_createNote db changedAt note)
        (fun note rng => revealNote_of_ok (undoes_encNote hlawful note rng)) backend note).trans ?_
      exact (settled_map _ _ _).symm
  | updateNote note changedAt =>
      refine (revealDb_write (fun db note => db.updateNote note changedAt)
        (fun db note => revealDb_updateNote db changedAt note)
        (fun note rng => revealNote_of_ok (undoes_encNote hlawful note rng)) backend note).trans ?_
      exact (settled_map _ _ _).symm
  | createNotebook notebook changedAt =>
      refine (revealDb_write (fun db notebook => db.createNotebook notebook changedAt)
        (fun db notebook => revealDb_createNotebook db changedAt notebook)
        (fun notebook rng => revealNotebook_of_ok (undoes_encNotebook hlawful notebook rng))
        backend notebook).trans ?_
      exact (settled_map _ _ _).symm
  | updateNotebook notebook changedAt =>
      refine (revealDb_write (fun db notebook => db.updateNotebook notebook changedAt)
        (fun db notebook => revealDb_updateNotebook db changedAt notebook)
        (fun notebook rng => revealNotebook_of_ok (undoes_encNotebook hlawful notebook rng))
        backend notebook).trans ?_
      exact (settled_map _ _ _).symm
  | createTag tag changedAt =>
      refine (revealDb_write (fun db tag => db.createTag tag changedAt)
        (fun db tag => revealDb_createTag db changedAt tag)
        (fun tag rng => revealTag_of_ok (undoes_encTag hlawful tag rng)) backend tag).trans ?_
      exact (settled_map _ _ _).symm
  | updateTag tag changedAt =>
      refine (revealDb_write (fun db tag => db.updateTag tag changedAt)
        (fun db tag => revealDb_updateTag db changedAt tag)
        (fun tag rng => revealTag_of_ok (undoes_encTag hlawful tag rng)) backend tag).trans ?_
      exact (settled_map _ _ _).symm
  | createResource resource data changedAt =>
      have hdata : reveal cipher.decryptBytes (cipher.encryptBytes data backend.rng).1 = data :=
        reveal_of_ok (undoes_encryptBytes hlawful data backend.rng)
      refine (revealDb_write (fun db resource => db.createResource resource data changedAt)
        (fun db resource => ?_)
        (fun resource rng => revealResource_of_ok (undoes_encResource hlawful resource rng))
        { backend with rng := (cipher.encryptBytes data backend.rng).2 } resource).trans ?_
      · rw [revealDb_createResource, hdata]
      · exact (settled_map _ _ _).symm
  | deleteNote id ts changedAt =>
      exact revealDb_settle_unit (revealDb_deleteNote backend.inner changedAt id ts)
  | deleteNotebook id ts changedAt =>
      exact revealDb_settle_unit (revealDb_deleteNotebook backend.inner changedAt id ts)
  | deleteTag id ts changedAt =>
      exact revealDb_settle_unit (revealDb_deleteTag backend.inner changedAt id ts)
  | addNoteTag noteTag ts changedAt =>
      exact revealDb_settle_unit (revealDb_addNoteTag backend.inner changedAt noteTag ts)
  | removeNoteTag noteId tagId ts changedAt =>
      exact revealDb_settle_unit (revealDb_removeNoteTag backend.inner changedAt noteId tagId ts)
  | deleteResource id ts changedAt =>
      exact revealDb_settle_unit (revealDb_deleteResource backend.inner changedAt id ts)
  | purgeDeletedResources olderThan =>
      exact congrArg Prod.fst (revealDb_purgeDeletedResources backend.inner olderThan)
  | applyChange change peer =>
      refine (revealDb_applyChange backend.inner hlawful _).trans ?_
      rw [revealChange_encChange hlawful]
      rfl
  | updateSyncTime ts => rfl
  | pruneChangeJournal olderThan =>
      exact congrArg Prod.fst (revealDb_pruneChangeJournal backend.inner olderThan)

/-- The database that is given the plain entities, whatever the calls. -/
theorem revealDb_serveAll (backend : EncryptedBackend) (calls : List RepositoryCall) :
    cipher.revealDb (EncryptedBackend.serveAll cipher backend calls).inner =
      (cipher.revealDb backend.inner).serveAll calls := by
  induction calls generalizing backend with
  | nil => rfl
  | cons call rest ih =>
      refine (ih (EncryptedBackend.serve cipher backend call).1).trans ?_
      rw [revealDb_serve hlawful]
      rfl

end Runs

end Cipher

end Keeplin
