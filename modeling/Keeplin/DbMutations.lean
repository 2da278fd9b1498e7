/-
The mutators of the database as the statements they execute.  Each begins a
transaction, looks the stored vector up, runs its writes under a guard that
rolls back what fails, and commits.  The lookup stands before the guard, so an
error in it returns with the transaction open.

The columns of instants hold texts.  Here a `DateTime` of a row stands for its
text, and `parses` tells which texts the readers accept.
-/
import Keeplin.DbStatements
import Keeplin.GuardedTransactions
import Keeplin.LocalWrite

namespace Keeplin

namespace DbMutations

open Session

/-- The statements a mutator can execute, each at most once. -/
inductive Statement where
  | begin
  | selectMeta
  | selectDeletedAt
  | selectNote
  | selectTag
  | insertRow
  | updateRow
  | replaceRow
  | stampResources
  | restoreResources
  | deleteLinks
  | insertLink (position : Nat)
  | recordChange
  | commit
  | rollback
deriving DecidableEq, Repr

abbrev Program := Session Statement Db StorageError

/-- What a local write stamps its row with. -/
structure Stamp where
  vv : VersionVector
  lastWriter : String

section Lookup

variable (parses : DateTime → Bool) (db : Db)

def currentMetaParses (table : VersionedTable) (id : Uuid) : Bool :=
  match table with
  | .notes => db.notes[id]?.all fun row => parses row.updatedAt
  | .notebooks => db.notebooks[id]?.all fun row => parses row.updatedAt
  | .tags => db.tags[id]?.all fun row => parses row.updatedAt

def assocMetaParses (noteId tagId : Uuid) : Bool :=
  db.noteTags[(noteId, tagId)]?.all fun row => row.updatedAt.all parses

def resourceMetaParses (id : Uuid) : Bool :=
  db.resources[id]?.all fun row => parses row.createdAt && row.deletedAt.all parses

end Lookup

/-- The `SELECT` of a stored vector, in a row whose instants may not parse. -/
def selectMeta (readable : Db → Bool) (next : Db → VersionVector) : Program Stamp :=
  execute .selectMeta .database fun db =>
    if readable db then .ok (⟨next db, db.deviceId⟩, db) else .error .invalidState

def transaction {A : Type} (lookup : Program Stamp) (block : Stamp → Program A) : Program A :=
  byHand .begin .commit .rollback .database lookup block

/-- An `INSERT`, which a row with the same key violates. -/
def insertRow (taken : Db → Bool) (insert : Db → Db) : Program Unit :=
  execute .insertRow .database fun db =>
    if taken db then .error .database else .ok ((), insert db)

/-- An `UPDATE` of one row, which gives up when it has affected none. -/
def updateRow {R : Type} (row : Db → Option R) (update : R → Db → Db) (id : Uuid) :
    Program Unit := do
  let affected ← execute .updateRow .database fun db =>
    match row db with
    | some found => .ok (1, update found db)
    | none => .ok (0, db)
  if affected = 0 then refuse (.notFound id)

def write (statement : Statement) (change : Db → Db) : Program Unit :=
  execute statement .database fun db => .ok ((), change db)

def recordChange (changedAt : DateTime) (change : Change) : Program Unit :=
  write .recordChange fun db => db.recordChange changedAt change

def insertLinks (source : Uuid) : Nat → List Uuid → Program Unit
  | _, [] => pure ()
  | position, target :: rest => do
      write (.insertLink position) (DbStatements.insertLink source target)
      insertLinks source (position + 1) rest

def refreshNoteLinks (note : Note) : Program Unit := do
  write .deleteLinks fun db =>
    { db with noteLinks := db.noteLinks.filter fun link => link.1 ≠ note.id }
  insertLinks note.id 0 (note.links.filterMap NoteLink.targetNoteId)

def restoreResources (note : Note) (priorDeleted : Option DateTime) : Program Unit :=
  match note.deletedAt, priorDeleted with
  | none, some oldTs =>
      write .restoreResources fun db => db.cascadeUnstampResources note.id oldTs
  | _, _ => pure ()

/-- A block that gives up when the row is not there or is deleted. -/
def rowIsLive (statement : Statement) (live : Db → Bool) (id : Uuid) : Program Unit := do
  let live ← query statement .database live
  if live = false then refuse (.notFound id)

section Mutators

variable (parses : DateTime → Bool)

def nextLocalVv (table : VersionedTable) (id : Uuid) : Program Stamp :=
  selectMeta (fun db => currentMetaParses parses db table id) (fun db => db.nextLocalVv table id)

def nextAssocVv (noteId tagId : Uuid) : Program Stamp :=
  selectMeta (fun db => assocMetaParses parses db noteId tagId)
    (fun db => db.nextAssocVv noteId tagId)

def nextResourceVv (id : Uuid) : Program Stamp :=
  selectMeta (fun db => resourceMetaParses parses db id) (fun db => db.nextResourceVv id)

def createNote (note : Note) (changedAt : DateTime) : Program Note :=
  transaction (nextLocalVv parses .notes note.id) fun stamp => do
    let note := { note with vv := stamp.vv, lastWriter := stamp.lastWriter }
    insertRow (fun db => db.notes.contains note.id) fun db =>
      { db with notes := db.notes.insert note.id (NoteRow.ofNote note) }
    refreshNoteLinks note
    recordChange changedAt (.noteCreate note)
    pure note

def updateNote (note : Note) (changedAt : DateTime) : Program Note :=
  transaction (nextLocalVv parses .notes note.id) fun stamp => do
    let note := { note with vv := stamp.vv, lastWriter := stamp.lastWriter }
    let priorDeleted ← query .selectDeletedAt .database fun db =>
      db.notes[note.id]?.bind NoteRow.deletedAt
    updateRow (fun db => db.notes[note.id]?)
      (fun row db =>
        { db with
          notes := db.notes.insert note.id
            { NoteRow.ofNote note with createdAt := row.createdAt } })
      note.id
    restoreResources note priorDeleted
    refreshNoteLinks note
    recordChange changedAt (.noteUpdate note)
    pure note

def deleteNote (id : Uuid) (ts changedAt : DateTime) : Program Unit :=
  transaction (nextLocalVv parses .notes id) fun stamp => do
    updateRow (fun db => db.notes[id]?)
      (fun row db =>
        { db with
          notes := db.notes.insert id { row with
            deletedAt := some ts, updatedAt := ts, vv := stamp.vv,
            lastWriter := stamp.lastWriter } })
      id
    write .stampResources fun db => db.cascadeStampResources id ts
    recordChange changedAt (.noteDelete id ts stamp.vv stamp.lastWriter)

def createNotebook (notebook : Notebook) (changedAt : DateTime) : Program Notebook :=
  transaction (nextLocalVv parses .notebooks notebook.id) fun stamp => do
    let notebook := { notebook with vv := stamp.vv, lastWriter := stamp.lastWriter }
    insertRow (fun db => db.notebooks.contains notebook.id) fun db =>
      { db with
        notebooks := db.notebooks.insert notebook.id (NotebookRow.ofNotebook notebook) }
    recordChange changedAt (.notebookCreate notebook)
    pure notebook

def updateNotebook (notebook : Notebook) (changedAt : DateTime) : Program Notebook :=
  transaction (nextLocalVv parses .notebooks notebook.id) fun stamp => do
    let notebook := { notebook with vv := stamp.vv, lastWriter := stamp.lastWriter }
    updateRow (fun db => db.notebooks[notebook.id]?)
      (fun row db =>
        { db with
          notebooks := db.notebooks.insert notebook.id
            { NotebookRow.ofNotebook notebook with createdAt := row.createdAt } })
      notebook.id
    recordChange changedAt (.notebookUpdate notebook)
    pure notebook

def deleteNotebook (id : Uuid) (ts changedAt : DateTime) : Program Unit :=
  transaction (nextLocalVv parses .notebooks id) fun stamp => do
    updateRow (fun db => db.notebooks[id]?)
      (fun row db =>
        { db with
          notebooks := db.notebooks.insert id { row with
            deletedAt := some ts, updatedAt := ts, vv := stamp.vv,
            lastWriter := stamp.lastWriter } })
      id
    recordChange changedAt (.notebookDelete id ts stamp.vv stamp.lastWriter)

def createTag (tag : Tag) (changedAt : DateTime) : Program Tag :=
  transaction (nextLocalVv parses .tags tag.id) fun stamp => do
    let tag := { tag with vv := stamp.vv, lastWriter := stamp.lastWriter }
    insertRow (fun db => db.tags.contains tag.id) fun db =>
      { db with tags := db.tags.insert tag.id (TagRow.ofTag tag) }
    recordChange changedAt (.tagCreate tag)
    pure tag

def updateTag (tag : Tag) (changedAt : DateTime) : Program Tag :=
  transaction (nextLocalVv parses .tags tag.id) fun stamp => do
    let tag := { tag with vv := stamp.vv, lastWriter := stamp.lastWriter }
    updateRow (fun db => db.tags[tag.id]?)
      (fun row db =>
        { db with
          tags := db.tags.insert tag.id { TagRow.ofTag tag with createdAt := row.createdAt } })
      tag.id
    recordChange changedAt (.tagUpdate tag)
    pure tag

def deleteTag (id : Uuid) (ts changedAt : DateTime) : Program Unit :=
  transaction (nextLocalVv parses .tags id) fun stamp => do
    updateRow (fun db => db.tags[id]?)
      (fun row db =>
        { db with
          tags := db.tags.insert id { row with
            deletedAt := some ts, updatedAt := ts, vv := stamp.vv,
            lastWriter := stamp.lastWriter } })
      id
    recordChange changedAt (.tagDelete id ts stamp.vv stamp.lastWriter)

def addNoteTag (noteTag : NoteTag) (ts changedAt : DateTime) : Program Unit :=
  transaction (nextAssocVv parses noteTag.noteId noteTag.tagId) fun stamp => do
    rowIsLive .selectNote (fun db => db.noteIsLive noteTag.noteId) noteTag.noteId
    rowIsLive .selectTag (fun db => db.tagIsLive noteTag.tagId) noteTag.tagId
    write .replaceRow fun db =>
      db.upsertAssoc noteTag.noteId noteTag.tagId ts none stamp.vv stamp.lastWriter
    recordChange changedAt
      (.noteTagAdd noteTag.noteId noteTag.tagId ts stamp.vv stamp.lastWriter)

def removeNoteTag (noteId tagId : Uuid) (ts changedAt : DateTime) : Program Unit :=
  transaction (nextAssocVv parses noteId tagId) fun stamp => do
    write .replaceRow fun db =>
      db.upsertAssoc noteId tagId ts (some ts) stamp.vv stamp.lastWriter
    recordChange changedAt (.noteTagRemove noteId tagId ts stamp.vv stamp.lastWriter)

def createResource (resource : Resource) (data : List UInt8) (changedAt : DateTime) :
    Program Resource :=
  transaction (nextResourceVv parses resource.id) fun stamp => do
    let resource := { resource with vv := stamp.vv, lastWriter := stamp.lastWriter }
    insertRow (fun db => db.resources.contains resource.id) fun db =>
      { db with
        resources := db.resources.insert resource.id (ResourceRow.ofResource resource data) }
    recordChange changedAt (.resourceCreate resource (some data))
    pure resource

def deleteResource (id : Uuid) (ts changedAt : DateTime) : Program Unit :=
  transaction (nextResourceVv parses id) fun stamp => do
    updateRow (fun db => db.resources[id]?)
      (fun row db =>
        { db with
          resources := db.resources.insert id { row with
            deletedAt := some ts, vv := stamp.vv, lastWriter := stamp.lastWriter } })
      id
    recordChange changedAt (.resourceDelete id ts stamp.vv stamp.lastWriter)

/-- The statements of a local write. -/
def localWrite (ts changedAt : DateTime) : LocalWrite → Program Unit
  | .createNote note => forget (createNote parses note changedAt)
  | .updateNote note => forget (updateNote parses note changedAt)
  | .deleteNote id => deleteNote parses id ts changedAt
  | .createNotebook notebook => forget (createNotebook parses notebook changedAt)
  | .updateNotebook notebook => forget (updateNotebook parses notebook changedAt)
  | .deleteNotebook id => deleteNotebook parses id ts changedAt
  | .createTag tag => forget (createTag parses tag changedAt)
  | .updateTag tag => forget (updateTag parses tag changedAt)
  | .deleteTag id => deleteTag parses id ts changedAt
  | .addNoteTag noteTag => addNoteTag parses noteTag ts changedAt
  | .removeNoteTag noteId tagId => removeNoteTag parses noteId tagId ts changedAt
  | .createResource resource data => forget (createResource parses resource data changedAt)
  | .deleteResource id => deleteResource parses id ts changedAt

end Mutators

def metaSteps (readable : Bool) : List (Step Statement) :=
  .statement .selectMeta :: if readable then [] else [.refusal]

def insertSteps (taken : Bool) : List (Step Statement) :=
  .statement .insertRow :: if taken then [.refusal] else []

def updateSteps (found : Bool) : List (Step Statement) :=
  .statement .updateRow :: if found then [] else [.refusal]

def liveSteps (statement : Statement) (live : Bool) : List (Step Statement) :=
  .statement statement :: if live then [] else [.refusal]

def insertLinkSteps : Nat → List Uuid → List (Step Statement)
  | _, [] => []
  | position, _ :: rest =>
      .statement (.insertLink position) :: insertLinkSteps (position + 1) rest

def linkSteps (note : Note) : List (Step Statement) :=
  .statement .deleteLinks ::
    insertLinkSteps 0 (note.links.filterMap NoteLink.targetNoteId)

def restoreSteps (note : Note) (priorDeleted : Option DateTime) : List (Step Statement) :=
  match note.deletedAt, priorDeleted with
  | none, some _ => [.statement .restoreResources]
  | _, _ => []

theorem follows_selectMeta (readable : Db → Bool) (next : Db → VersionVector) :
    Follows (selectMeta readable next) (fun db => metaSteps (readable db))
      (fun db => ⟨next db, db.deviceId⟩) id := by
  refine (follows_execute_or_refuse Statement.selectMeta _ _ (fun db => !readable db)
    (fun db => (⟨next db, db.deviceId⟩ : Stamp)) id ?_ ?_).of_eq ?_ ?_ ?_
  · intro db hreadable
    simp only [Bool.not_eq_false'] at hreadable
    simp [hreadable]
  · intro db hreadable
    simp only [Bool.not_eq_true'] at hreadable
    exact ⟨.invalidState, by simp [hreadable]⟩
  · intro db
    cases hreadable : readable db <;> simp [metaSteps]
  · exact fun _ => rfl
  · exact fun _ => rfl

theorem follows_write (statement : Statement) (change : Db → Db) :
    Follows (write statement change) (fun _ => [.statement statement]) (fun _ => ()) change :=
  follows_execute statement StorageError.database fun db => ((), change db)

theorem follows_insertRow (taken : Db → Bool) (insert : Db → Db) :
    Follows (insertRow taken insert) (fun db => insertSteps (taken db)) (fun _ => ())
      insert := by
  refine follows_execute_or_refuse Statement.insertRow _ _ taken (fun _ => ()) insert ?_ ?_
  · intro db htaken
    simp [htaken]
  · intro db htaken
    exact ⟨.database, by simp [htaken]⟩

theorem follows_refuse_if (condition : Prop) [Decidable condition] (failure : StorageError) :
    Follows (if condition then refuse failure else pure () : Program Unit)
      (fun _ => if condition then [.refusal] else []) (fun _ => ()) id := by
  by_cases hcondition : condition
  · simp only [if_pos hcondition]
    exact follows_refuse failure _ _
  · simp only [if_neg hcondition]
    exact follows_pure ()

theorem follows_updateRow {R : Type} (row : Db → Option R) (update : R → Db → Db) (id : Uuid) :
    Follows (updateRow row update id) (fun db => updateSteps (row db).isSome) (fun _ => ())
      (fun db => ((row db).map fun found => update found db).getD db) := by
  have hupdate : Follows
      (execute Statement.updateRow StorageError.database fun db =>
        match row db with
        | some found => .ok (1, update found db)
        | none => .ok (0, db))
      (fun _ => [.statement .updateRow]) (fun db => if (row db).isSome then 1 else 0)
      (fun db => ((row db).map fun found => update found db).getD db) := by
    have hact := follows_execute Statement.updateRow StorageError.database fun db =>
      (if (row db).isSome then 1 else 0, ((row db).map fun found => update found db).getD db)
    refine Eq.mp ?_ hact
    congr 2
    funext db
    cases row db <;> rfl
  refine (hupdate.bind fun affected => follows_refuse_if (affected = 0) (.notFound id)).of_eq
    ?_ ?_ ?_
  · intro db
    cases row db <;> rfl
  · exact fun _ => rfl
  · exact fun _ => rfl

theorem follows_rowIsLive (statement : Statement) (live : Db → Bool) (id : Uuid) :
    Follows (rowIsLive statement live id) (fun db => liveSteps statement (live db))
      (fun _ => ()) (fun db => db) := by
  have hquery := follows_query statement StorageError.database live
  refine (hquery.bind fun found => follows_refuse_if (found = false) (.notFound id)).of_eq
    ?_ ?_ ?_
  · intro db
    cases hlive : live db <;> simp [liveSteps]
  · exact fun _ => rfl
  · exact fun _ => rfl

theorem follows_insertLinks (source : Uuid) (position : Nat) (targets : List Uuid) :
    Follows (insertLinks source position targets) (fun _ => insertLinkSteps position targets)
      (fun _ => ())
      (fun db => targets.foldl (fun db target => DbStatements.insertLink source target db) db) := by
  induction targets generalizing position with
  | nil => exact follows_pure ()
  | cons target rest ih =>
      exact (follows_write (.insertLink position) _).bind fun _ => ih (position + 1)

theorem follows_refreshNoteLinks (note : Note) :
    Follows (refreshNoteLinks note) (fun _ => linkSteps note) (fun _ => ())
      (fun db => db.refreshNoteLinks note) := by
  have hwrites := (follows_write .deleteLinks fun db : Db =>
      { db with noteLinks := db.noteLinks.filter fun link => link.1 ≠ note.id }).bind fun _ =>
    follows_insertLinks note.id 0 (note.links.filterMap NoteLink.targetNoteId)
  refine hwrites.of_eq (fun _ => rfl) (fun _ => rfl) ?_
  intro db
  exact DbStatements.insertLinks_refresh note db

theorem follows_restoreResources (note : Note) (priorDeleted : Option DateTime) :
    Follows (restoreResources note priorDeleted) (fun _ => restoreSteps note priorDeleted)
      (fun _ => ()) (fun db => db.restoreResources note priorDeleted) := by
  simp only [restoreResources, restoreSteps, Db.restoreResources]
  cases note.deletedAt with
  | some deletedAt => exact follows_pure ()
  | none =>
      cases priorDeleted with
      | none => exact follows_pure ()
      | some oldTs => exact follows_write .restoreResources _

/-- The mutator executes the steps of its lookup and of its block. -/
structure Transacts {A : Type} (program : Program A) (looked steps : Db → List (Step Statement))
    (effect : Db → Db) : Prop where
  clean : ∀ outcomes db, Clean (program.run outcomes (.idle db)) db ↔
    ¬LeavesOpen outcomes .begin .commit .rollback (looked db) (steps db)
  done : ∀ db, ending (fun _ => .done) (looked db) = .done →
    ending (fun _ => .done) (steps db) = .done →
    ∃ value, program.run (fun _ => .done) (.idle db) = (.ok value, .idle (effect db))
  refused : ∀ db, ending (fun _ => .done) (looked db) = .done →
    ending (fun _ => .done) (steps db) = .failed →
    ∃ failure, program.run (fun _ => .done) (.idle db) = (.error failure, .idle db)

theorem transacts {A : Type} {readable : Db → Bool} {next : Db → VersionVector}
    {block : Stamp → Program A} {steps : Stamp → Db → List (Step Statement)}
    {value : Stamp → Db → A} {effect : Stamp → Db → Db}
    (hblock : ∀ stamp, Follows (block stamp) (steps stamp) (value stamp) (effect stamp)) :
    Transacts (transaction (selectMeta readable next) block) (fun db => metaSteps (readable db))
      (fun db => steps ⟨next db, db.deviceId⟩ db)
      (fun db => effect ⟨next db, db.deviceId⟩ db) where
  clean := byHand_clean_iff (follows_selectMeta readable next) hblock
  done _ hlooked hsteps :=
    ⟨_, byHand_of_done (follows_selectMeta readable next) hblock hlooked hsteps⟩
  refused _ hlooked hsteps :=
    byHand_of_refused (follows_selectMeta readable next) hblock hlooked hsteps

theorem Transacts.forget {A : Type} {program : Program A}
    {looked steps : Db → List (Step Statement)} {effect : Db → Db}
    (hprogram : Transacts program looked steps effect) :
    Transacts (Session.forget program) looked steps effect where
  clean outcomes db := by
    rw [clean_forget]
    exact hprogram.clean outcomes db
  done db hlooked hsteps := by
    obtain ⟨value, hrun⟩ := hprogram.done db hlooked hsteps
    exact ⟨(), by rw [run_forget, hrun]; rfl⟩
  refused db hlooked hsteps := by
    obtain ⟨failure, hrun⟩ := hprogram.refused db hlooked hsteps
    exact ⟨failure, by rw [run_forget, hrun]; rfl⟩

section Blocks

variable (changedAt : DateTime) (change : Change)

theorem follows_insert (taken : Db → Bool) (insert : Db → Db) {A : Type} (value : A) :
    Follows (do insertRow taken insert; recordChange changedAt change; pure value)
      (fun db => insertSteps (taken db) ++ [.statement .recordChange]) (fun _ => value)
      (fun db => (insert db).recordChange changedAt change) :=
  (follows_insertRow taken insert).bind fun _ =>
    (follows_write .recordChange _).bind fun _ => follows_pure value

variable {R : Type} (row : Db → Option R) (update : R → Db → Db) (id : Uuid)

theorem follows_update {A : Type} (value : A) :
    Follows (do updateRow row update id; recordChange changedAt change; pure value)
      (fun db => updateSteps (row db).isSome ++ [.statement .recordChange]) (fun _ => value)
      (fun db => Db.recordChange (((row db).map fun found => update found db).getD db)
        changedAt change) :=
  (follows_updateRow row update id).bind fun _ =>
    (follows_write .recordChange _).bind fun _ => follows_pure value

theorem follows_delete :
    Follows (do updateRow row update id; recordChange changedAt change)
      (fun db => updateSteps (row db).isSome ++ [.statement .recordChange]) (fun _ => ())
      (fun db => Db.recordChange (((row db).map fun found => update found db).getD db)
        changedAt change) :=
  (follows_updateRow row update id).bind fun _ => follows_write .recordChange _

end Blocks

/-- The instants of the row that the lookup of a local write reads parse. -/
def readable (parses : DateTime → Bool) (db : Db) : LocalWrite → Bool
  | .createNote note => currentMetaParses parses db .notes note.id
  | .updateNote note => currentMetaParses parses db .notes note.id
  | .deleteNote id => currentMetaParses parses db .notes id
  | .createNotebook notebook => currentMetaParses parses db .notebooks notebook.id
  | .updateNotebook notebook => currentMetaParses parses db .notebooks notebook.id
  | .deleteNotebook id => currentMetaParses parses db .notebooks id
  | .createTag tag => currentMetaParses parses db .tags tag.id
  | .updateTag tag => currentMetaParses parses db .tags tag.id
  | .deleteTag id => currentMetaParses parses db .tags id
  | .addNoteTag noteTag => assocMetaParses parses db noteTag.noteId noteTag.tagId
  | .removeNoteTag noteId tagId => assocMetaParses parses db noteId tagId
  | .createResource resource _ => resourceMetaParses parses db resource.id
  | .deleteResource id => resourceMetaParses parses db id

/-- What the guarded block of a local write executes in these tables. -/
def blockSteps (db : Db) : LocalWrite → List (Step Statement)
  | .createNote note =>
      insertSteps (db.notes.contains note.id) ++ (linkSteps note ++ [.statement .recordChange])
  | .updateNote note =>
      .statement .selectDeletedAt :: (updateSteps db.notes[note.id]?.isSome ++
        (restoreSteps note (db.notes[note.id]?.bind NoteRow.deletedAt) ++
          (linkSteps note ++ [.statement .recordChange])))
  | .deleteNote id =>
      updateSteps db.notes[id]?.isSome ++ [.statement .stampResources, .statement .recordChange]
  | .createNotebook notebook =>
      insertSteps (db.notebooks.contains notebook.id) ++ [.statement .recordChange]
  | .updateNotebook notebook =>
      updateSteps db.notebooks[notebook.id]?.isSome ++ [.statement .recordChange]
  | .deleteNotebook id => updateSteps db.notebooks[id]?.isSome ++ [.statement .recordChange]
  | .createTag tag => insertSteps (db.tags.contains tag.id) ++ [.statement .recordChange]
  | .updateTag tag => updateSteps db.tags[tag.id]?.isSome ++ [.statement .recordChange]
  | .deleteTag id => updateSteps db.tags[id]?.isSome ++ [.statement .recordChange]
  | .addNoteTag noteTag =>
      liveSteps .selectNote (db.noteIsLive noteTag.noteId) ++
        (liveSteps .selectTag (db.tagIsLive noteTag.tagId) ++
          [.statement .replaceRow, .statement .recordChange])
  | .removeNoteTag _ _ => [.statement .replaceRow, .statement .recordChange]
  | .createResource resource _ =>
      insertSteps (db.resources.contains resource.id) ++ [.statement .recordChange]
  | .deleteResource id => updateSteps db.resources[id]?.isSome ++ [.statement .recordChange]

variable (parses : DateTime → Bool) (ts changedAt : DateTime)

/-- A local write executes the statements of its block, to the mutator's effect where that
succeeds. -/
def TransactsWrite (write : LocalWrite) : Prop :=
  ∃ effect, Transacts (localWrite parses ts changedAt write)
      (fun db => metaSteps (readable parses db write)) (fun db => blockSteps db write) effect ∧
    ∀ db after, db.localWrite ts changedAt write = .ok after → effect db = after

theorem createNote_transacts (note : Note) :
    TransactsWrite parses ts changedAt (.createNote note) := by
  refine ⟨_, (transacts fun stamp => (follows_insertRow _ _).bind fun _ =>
    (follows_refreshNoteLinks _).bind fun _ =>
      (follows_write _ _).bind fun _ => follows_pure _).forget, ?_⟩
  intro db after hwrite
  simp only [Db.localWrite, Db.createNote] at hwrite
  split at hwrite
  · contradiction
  · exact Except.ok.inj hwrite

theorem updateNote_transacts (note : Note) :
    TransactsWrite parses ts changedAt (.updateNote note) := by
  refine ⟨_, (transacts fun stamp => (follows_query _ _ _).bind fun _ =>
    (follows_updateRow _ _ _).bind fun _ => (follows_restoreResources _ _).bind fun _ =>
      (follows_refreshNoteLinks _).bind fun _ =>
        (follows_write _ _).bind fun _ => follows_pure _).forget, ?_⟩
  intro db after hwrite
  simp only [Db.localWrite, Db.updateNote] at hwrite
  split at hwrite
  · contradiction
  · next row hrow =>
      simp only [hrow, Option.bind_some, id, Option.map_some, Option.getD_some]
      exact Except.ok.inj hwrite

theorem deleteNote_transacts (id : Uuid) :
    TransactsWrite parses ts changedAt (.deleteNote id) := by
  refine ⟨_, transacts fun stamp => (follows_updateRow _ _ _).bind fun _ =>
    (follows_write _ _).bind fun _ => follows_write _ _, ?_⟩
  intro db after hwrite
  simp only [Db.localWrite, Db.deleteNote] at hwrite
  split at hwrite
  · contradiction
  · next row hrow =>
      simp only [hrow, Option.map_some, Option.getD_some]
      exact Except.ok.inj hwrite

theorem createNotebook_transacts (notebook : Notebook) :
    TransactsWrite parses ts changedAt (.createNotebook notebook) := by
  refine ⟨_, (transacts fun stamp => follows_insert _ _ _ _ _).forget, ?_⟩
  intro db after hwrite
  simp only [Db.localWrite, Db.createNotebook] at hwrite
  split at hwrite
  · contradiction
  · exact Except.ok.inj hwrite

theorem updateNotebook_transacts (notebook : Notebook) :
    TransactsWrite parses ts changedAt (.updateNotebook notebook) := by
  refine ⟨_, (transacts fun stamp => follows_update _ _ _ _ _ _).forget, ?_⟩
  intro db after hwrite
  simp only [Db.localWrite, Db.updateNotebook] at hwrite
  split at hwrite
  · contradiction
  · next row hrow =>
      simp only [hrow, Option.map_some, Option.getD_some]
      exact Except.ok.inj hwrite

theorem deleteNotebook_transacts (id : Uuid) :
    TransactsWrite parses ts changedAt (.deleteNotebook id) := by
  refine ⟨_, transacts fun stamp => follows_delete _ _ _ _ _, ?_⟩
  intro db after hwrite
  simp only [Db.localWrite, Db.deleteNotebook] at hwrite
  split at hwrite
  · contradiction
  · next row hrow =>
      simp only [hrow, Option.map_some, Option.getD_some]
      exact Except.ok.inj hwrite

theorem createTag_transacts (tag : Tag) :
    TransactsWrite parses ts changedAt (.createTag tag) := by
  refine ⟨_, (transacts fun stamp => follows_insert _ _ _ _ _).forget, ?_⟩
  intro db after hwrite
  simp only [Db.localWrite, Db.createTag] at hwrite
  split at hwrite
  · contradiction
  · exact Except.ok.inj hwrite

theorem updateTag_transacts (tag : Tag) :
    TransactsWrite parses ts changedAt (.updateTag tag) := by
  refine ⟨_, (transacts fun stamp => follows_update _ _ _ _ _ _).forget, ?_⟩
  intro db after hwrite
  simp only [Db.localWrite, Db.updateTag] at hwrite
  split at hwrite
  · contradiction
  · next row hrow =>
      simp only [hrow, Option.map_some, Option.getD_some]
      exact Except.ok.inj hwrite

theorem deleteTag_transacts (id : Uuid) :
    TransactsWrite parses ts changedAt (.deleteTag id) := by
  refine ⟨_, transacts fun stamp => follows_delete _ _ _ _ _, ?_⟩
  intro db after hwrite
  simp only [Db.localWrite, Db.deleteTag] at hwrite
  split at hwrite
  · contradiction
  · next row hrow =>
      simp only [hrow, Option.map_some, Option.getD_some]
      exact Except.ok.inj hwrite

theorem addNoteTag_transacts (noteTag : NoteTag) :
    TransactsWrite parses ts changedAt (.addNoteTag noteTag) := by
  refine ⟨_, transacts fun stamp => (follows_rowIsLive _ _ _).bind fun _ =>
    (follows_rowIsLive _ _ _).bind fun _ => (follows_write _ _).bind fun _ =>
      follows_write _ _, ?_⟩
  intro db after hwrite
  simp only [Db.localWrite, Db.addNoteTag] at hwrite
  split at hwrite
  · contradiction
  · split at hwrite
    · contradiction
    · exact Except.ok.inj hwrite

theorem removeNoteTag_transacts (noteId tagId : Uuid) :
    TransactsWrite parses ts changedAt (.removeNoteTag noteId tagId) := by
  refine ⟨_, transacts fun stamp => (follows_write _ _).bind fun _ => follows_write _ _, ?_⟩
  intro db after hwrite
  exact Except.ok.inj hwrite

theorem createResource_transacts (resource : Resource) (data : List UInt8) :
    TransactsWrite parses ts changedAt (.createResource resource data) := by
  refine ⟨_, (transacts fun stamp => follows_insert _ _ _ _ _).forget, ?_⟩
  intro db after hwrite
  simp only [Db.localWrite, Db.createResource] at hwrite
  split at hwrite
  · contradiction
  · exact Except.ok.inj hwrite

theorem deleteResource_transacts (id : Uuid) :
    TransactsWrite parses ts changedAt (.deleteResource id) := by
  refine ⟨_, transacts fun stamp => follows_delete _ _ _ _ _, ?_⟩
  intro db after hwrite
  simp only [Db.localWrite, Db.deleteResource] at hwrite
  split at hwrite
  · contradiction
  · next row hrow =>
      simp only [hrow, Option.map_some, Option.getD_some]
      exact Except.ok.inj hwrite

theorem localWrite_transacts (write : LocalWrite) :
    TransactsWrite parses ts changedAt write := by
  cases write with
  | createNote note => exact createNote_transacts parses ts changedAt note
  | updateNote note => exact updateNote_transacts parses ts changedAt note
  | deleteNote id => exact deleteNote_transacts parses ts changedAt id
  | createNotebook notebook => exact createNotebook_transacts parses ts changedAt notebook
  | updateNotebook notebook => exact updateNotebook_transacts parses ts changedAt notebook
  | deleteNotebook id => exact deleteNotebook_transacts parses ts changedAt id
  | createTag tag => exact createTag_transacts parses ts changedAt tag
  | updateTag tag => exact updateTag_transacts parses ts changedAt tag
  | deleteTag id => exact deleteTag_transacts parses ts changedAt id
  | addNoteTag noteTag => exact addNoteTag_transacts parses ts changedAt noteTag
  | removeNoteTag noteId tagId => exact removeNoteTag_transacts parses ts changedAt noteId tagId
  | createResource resource data => exact createResource_transacts parses ts changedAt resource data
  | deleteResource id => exact deleteResource_transacts parses ts changedAt id

theorem ending_of_done (steps : List (Step Statement)) :
    ending (fun _ => .done) steps = if .refusal ∈ steps then .failed else .done := by
  induction steps with
  | nil => rfl
  | cons step rest ih =>
      cases step with
      | refusal => simp [ending]
      | statement statement => simp [ending, ih]

theorem refusal_notMem_insertLinkSteps (position : Nat) (targets : List Uuid) :
    .refusal ∉ insertLinkSteps position targets := by
  induction targets generalizing position with
  | nil => exact List.not_mem_nil
  | cons target rest ih => simpa [insertLinkSteps] using ih (position + 1)

theorem refusal_notMem_linkSteps (note : Note) : .refusal ∉ linkSteps note := by
  simpa [linkSteps] using refusal_notMem_insertLinkSteps 0 _

theorem refusal_notMem_restoreSteps (note : Note) (priorDeleted : Option DateTime) :
    .refusal ∉ restoreSteps note priorDeleted := by
  simp only [restoreSteps]
  split <;> simp

/-- The block gives up exactly where the mutator is an error. -/
theorem refusal_mem_blockSteps (db : Db) (write : LocalWrite) :
    .refusal ∈ blockSteps db write ↔
      ∃ failure, db.localWrite ts changedAt write = .error failure := by
  cases write with
  | createNote note =>
      have hlinks := refusal_notMem_linkSteps note
      cases hrow : db.notes.contains note.id <;>
        simp [blockSteps, insertSteps, Db.localWrite, Db.createNote, Except.map, hrow, hlinks]
  | updateNote note =>
      have hlinks := refusal_notMem_linkSteps note
      have hrestore := refusal_notMem_restoreSteps note
      cases hrow : db.notes[note.id]? <;>
        simp [blockSteps, updateSteps, Db.localWrite, Db.updateNote, Except.map, hrow, hlinks,
          hrestore]
  | deleteNote id =>
      cases hrow : db.notes[id]? <;>
        simp [blockSteps, updateSteps, Db.localWrite, Db.deleteNote, hrow]
  | createNotebook notebook =>
      cases hrow : db.notebooks.contains notebook.id <;>
        simp [blockSteps, insertSteps, Db.localWrite, Db.createNotebook, Except.map, hrow]
  | updateNotebook notebook =>
      cases hrow : db.notebooks[notebook.id]? <;>
        simp [blockSteps, updateSteps, Db.localWrite, Db.updateNotebook, Except.map, hrow]
  | deleteNotebook id =>
      cases hrow : db.notebooks[id]? <;>
        simp [blockSteps, updateSteps, Db.localWrite, Db.deleteNotebook, hrow]
  | createTag tag =>
      cases hrow : db.tags.contains tag.id <;>
        simp [blockSteps, insertSteps, Db.localWrite, Db.createTag, Except.map, hrow]
  | updateTag tag =>
      cases hrow : db.tags[tag.id]? <;>
        simp [blockSteps, updateSteps, Db.localWrite, Db.updateTag, Except.map, hrow]
  | deleteTag id =>
      cases hrow : db.tags[id]? <;>
        simp [blockSteps, updateSteps, Db.localWrite, Db.deleteTag, hrow]
  | addNoteTag noteTag =>
      cases hnote : db.noteIsLive noteTag.noteId <;> cases htag : db.tagIsLive noteTag.tagId <;>
        simp [blockSteps, liveSteps, Db.localWrite, Db.addNoteTag, hnote, htag]
  | removeNoteTag noteId tagId => simp [blockSteps, Db.localWrite, Db.removeNoteTag]
  | createResource resource data =>
      cases hrow : db.resources.contains resource.id <;>
        simp [blockSteps, insertSteps, Db.localWrite, Db.createResource, Except.map, hrow]
  | deleteResource id =>
      cases hrow : db.resources[id]? <;>
        simp [blockSteps, updateSteps, Db.localWrite, Db.deleteResource, hrow]

/-- Without a failure, and with a row that can be read, the statements do what
the mutator does to the tables. -/
theorem run_localWrite {db : Db} {write : LocalWrite}
    (hreadable : readable parses db write = true) :
    ((localWrite parses ts changedAt write).run (fun _ => .done) (.idle db)).2 =
      .idle (match db.localWrite ts changedAt write with
        | .ok after => after
        | .error _ => db) := by
  obtain ⟨effect, htransacts, heffect⟩ := localWrite_transacts parses ts changedAt write
  have hlooked : ending (fun _ => .done) (metaSteps (readable parses db write)) = .done := by
    rw [hreadable]
    rfl
  have hending := ending_of_done (blockSteps db write)
  have hrefusal := refusal_mem_blockSteps ts changedAt db write
  cases hwrite : db.localWrite ts changedAt write with
  | ok after =>
      rw [if_neg (by simp [hrefusal, hwrite])] at hending
      obtain ⟨value, hrun⟩ := htransacts.done db hlooked hending
      rw [hrun, heffect db after hwrite]
  | error failure =>
      rw [if_pos (hrefusal.mpr ⟨failure, hwrite⟩)] at hending
      obtain ⟨reason, hrun⟩ := htransacts.refused db hlooked hending
      rw [hrun]

/-- While a transaction is open every local write fails and changes nothing. -/
theorem localWrite_inside (write : LocalWrite) (outcomes : Statement → Outcome)
    (saved working : Db) :
    (localWrite parses ts changedAt write).run outcomes (inside saved working) =
      (.error .database, inside saved working) := by
  cases write <;> rfl

/-- An error of a local write leaves the tables unchanged and no transaction
open exactly when it is not one of the failures that a guard misses: the lookup
of the vector, a `COMMIT` that does not end the transaction, or the `ROLLBACK`
itself. -/
theorem localWrite_clean_iff (write : LocalWrite) (outcomes : Statement → Outcome) (db : Db) :
    Clean ((localWrite parses ts changedAt write).run outcomes (.idle db)) db ↔
      ¬LeavesOpen outcomes .begin .commit .rollback (metaSteps (readable parses db write))
        (blockSteps db write) := by
  obtain ⟨effect, htransacts, -⟩ := localWrite_transacts parses ts changedAt write
  exact htransacts.clean outcomes db

namespace Witness

def tag : TagRow := .placeholder 0 ∅ "A"

/-- One tag, whose `updated_at` holds a text that is no instant. -/
def db : Db := ⟨"A", ∅, ∅, (∅ : Table TagRow).insert 3 { tag with updatedAt := -1 }, ∅, ∅,
  [], [], none⟩

def notNegative (text : DateTime) : Bool := 0 ≤ text

/-- No statement fails, yet deleting the tag leaves the transaction open. -/
theorem deleteTag_leaves_open :
    ¬∀ parses ts changedAt write outcomes db,
      Clean ((localWrite parses ts changedAt write).run outcomes (.idle db)) db := by
  intro hclean
  obtain ⟨effect, htransacts, -⟩ := localWrite_transacts notNegative 1 1 (.deleteTag 3)
  have hwedges := hclean notNegative 1 1 (.deleteTag 3) (fun _ => .done) db
  rw [htransacts.clean] at hwedges
  apply hwedges
  have hreadable : readable notNegative db (.deleteTag 3) = false := by decide
  rw [hreadable]
  exact ⟨rfl, trivial⟩

end Witness

end DbMutations

end Keeplin
