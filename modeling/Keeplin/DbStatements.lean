/-
An applied change as the SQL statements it executes.  Without a failure they do
what `Db.applyChange` does; the failure of one of them leaves the tables as they
were, but for two statements that can leave the change half done for good.
-/
import Keeplin.DbSync
import Keeplin.Transactions

namespace Keeplin

namespace DbStatements

open Sql

/-- The statements an applied change can execute, each at most once. -/
inductive Statement where
  | selectMeta
  | begin
  | selectDeletedAt
  | deleteLinks
  | insertLink (position : Nat)
  | replaceRow
  | restoreResources
  | commit
  | updateRow
  | insertPlaceholder
  | stampResources
deriving DecidableEq, Repr

abbrev Program := Sql Statement Db

def insertLink (source target : Uuid) (db : Db) : Db :=
  { db with noteLinks :=
      if (source, target) ∈ db.noteLinks then db.noteLinks
      else db.noteLinks ++ [(source, target)] }

def insertLinks (source : Uuid) : Nat → List Uuid → Program Unit
  | _, [] => pure ()
  | position, target :: rest => do
      execute (.insertLink position) (insertLink source target)
      insertLinks source (position + 1) rest

def refreshNoteLinks (note : Note) : Program Unit := do
  execute .deleteLinks fun db =>
    { db with noteLinks := db.noteLinks.filter fun link => link.1 ≠ note.id }
  insertLinks note.id 0 (note.links.filterMap NoteLink.targetNoteId)

def restoreResources (note : Note) (priorDeleted : Option DateTime) : Program Unit :=
  match note.deletedAt, priorDeleted with
  | none, some oldTs =>
      execute .restoreResources fun db => db.cascadeUnstampResources note.id oldTs
  | _, _ => pure ()

def writeNote (note : Note) : Program Unit := do
  let priorDeleted ← query .selectDeletedAt fun db =>
    db.notes[note.id]?.bind NoteRow.deletedAt
  refreshNoteLinks note
  execute .replaceRow fun db =>
    { db with notes := db.notes.insert note.id (NoteRow.ofNote note) }
  restoreResources note priorDeleted

def applyNote (note : Note) : Program Unit :=
  guarded .selectMeta
    (fun db => db.incomingWins .notes note.id note.vv note.updatedAt note.lastWriter)
    (transaction .begin .commit (writeNote note))

/-- The `UPDATE` that marks a row deleted, and the `INSERT OR IGNORE` of a
placeholder when there was no row. -/
def deleteRow {R : Type} (row : Db → Option R) (put : Db → R → Db) (mark : R → R)
    (placeholder : R) : Program Unit := do
  let affected ← executeCount .updateRow
    (fun db => match row db with
      | some found => put db (mark found)
      | none => db)
    (fun db => if (row db).isSome then 1 else 0)
  if affected = 0 then
    execute .insertPlaceholder fun db =>
      match row db with
      | some _ => db
      | none => put db placeholder

def applyNoteDelete (id : Uuid) (deletedAt : DateTime) (vv : VersionVector)
    (lastWriter : String) : Program Unit :=
  guarded .selectMeta (fun db => db.incomingWins .notes id vv deletedAt lastWriter) do
    deleteRow (fun db => db.notes[id]?)
      (fun db row => { db with notes := db.notes.insert id row })
      (fun row => { row with
        deletedAt := some deletedAt, updatedAt := deletedAt, vv, lastWriter })
      (.placeholder deletedAt vv lastWriter)
    execute .stampResources fun db => db.cascadeStampResources id deletedAt

def applyNotebook (notebook : Notebook) : Program Unit :=
  guarded .selectMeta
    (fun db => db.incomingWins .notebooks notebook.id notebook.vv notebook.updatedAt
      notebook.lastWriter)
    (execute .replaceRow fun db =>
      { db with
        notebooks := db.notebooks.insert notebook.id (NotebookRow.ofNotebook notebook) })

def applyNotebookDelete (id : Uuid) (deletedAt : DateTime) (vv : VersionVector)
    (lastWriter : String) : Program Unit :=
  guarded .selectMeta (fun db => db.incomingWins .notebooks id vv deletedAt lastWriter)
    (deleteRow (fun db => db.notebooks[id]?)
      (fun db row => { db with notebooks := db.notebooks.insert id row })
      (fun row => { row with
        deletedAt := some deletedAt, updatedAt := deletedAt, vv, lastWriter })
      (.placeholder deletedAt vv lastWriter))

def applyTag (tag : Tag) : Program Unit :=
  guarded .selectMeta
    (fun db => db.incomingWins .tags tag.id tag.vv tag.updatedAt tag.lastWriter)
    (execute .replaceRow fun db =>
      { db with
        tags := db.tags.insert tag.id { TagRow.ofTag tag with system := false } })

def applyTagDelete (id : Uuid) (deletedAt : DateTime) (vv : VersionVector)
    (lastWriter : String) : Program Unit :=
  guarded .selectMeta (fun db => db.incomingWins .tags id vv deletedAt lastWriter)
    (deleteRow (fun db => db.tags[id]?)
      (fun db row => { db with tags := db.tags.insert id row })
      (fun row => { row with
        deletedAt := some deletedAt, updatedAt := deletedAt, vv, lastWriter })
      (.placeholder deletedAt vv lastWriter))

def applyNoteTag (noteId tagId : Uuid) (updatedAt : DateTime)
    (deletedAt : Option DateTime) (vv : VersionVector) (lastWriter : String) :
    Program Unit :=
  guarded .selectMeta
    (fun db => db.assocIncomingWins noteId tagId vv updatedAt lastWriter)
    (execute .replaceRow fun db =>
      db.upsertAssoc noteId tagId updatedAt deletedAt vv lastWriter)

def applyResource (resource : Resource) (data : Option (List UInt8)) : Program Unit :=
  guarded .selectMeta
    (fun db => db.resourceIncomingWins resource.id resource.vv
      (resource.deletedAt.getD resource.createdAt) resource.lastWriter)
    (execute .replaceRow fun db =>
      { db with
        resources := db.resources.insert resource.id
          (ResourceRow.ofResource resource (data.getD [])) })

def applyResourceDelete (id : Uuid) (deletedAt : DateTime) (vv : VersionVector)
    (lastWriter : String) : Program Unit :=
  guarded .selectMeta (fun db => db.resourceIncomingWins id vv deletedAt lastWriter)
    (deleteRow (fun db => db.resources[id]?)
      (fun db row => { db with resources := db.resources.insert id row })
      (fun row => { row with deletedAt := some deletedAt, vv, lastWriter })
      (.placeholder deletedAt vv lastWriter))

def applyChange : Change → Program Unit
  | .noteCreate note => applyNote note
  | .noteUpdate note => applyNote note
  | .noteDelete id deletedAt vv lastWriter => applyNoteDelete id deletedAt vv lastWriter
  | .notebookCreate notebook => applyNotebook notebook
  | .notebookUpdate notebook => applyNotebook notebook
  | .notebookDelete id deletedAt vv lastWriter =>
      applyNotebookDelete id deletedAt vv lastWriter
  | .tagCreate tag => applyTag tag
  | .tagUpdate tag => applyTag tag
  | .tagDelete id deletedAt vv lastWriter => applyTagDelete id deletedAt vv lastWriter
  | .noteTagAdd noteId tagId updatedAt vv lastWriter =>
      applyNoteTag noteId tagId updatedAt none vv lastWriter
  | .noteTagRemove noteId tagId updatedAt vv lastWriter =>
      applyNoteTag noteId tagId updatedAt (some updatedAt) vv lastWriter
  | .resourceCreate resource data => applyResource resource data
  | .resourceDelete id deletedAt vv lastWriter =>
      applyResourceDelete id deletedAt vv lastWriter

theorem foldl_insertLink (source : Uuid) (targets : List Uuid) (db : Db) :
    targets.foldl (fun db target => insertLink source target db) db =
      { db with noteLinks := db.noteLinks ++
          ((targets.map fun target => (source, target)).filter
            fun link => link ∉ db.noteLinks).eraseDups } := by
  induction targets generalizing db with
  | nil => simp
  | cons target rest ih =>
      rw [List.foldl_cons, ih]
      by_cases hmem : (source, target) ∈ db.noteLinks
      · simp [insertLink, hmem]
      · simp only [insertLink, hmem, if_false, List.map_cons, not_false_eq_true, decide_true,
          List.filter_cons_of_pos, List.eraseDups_cons, List.append_assoc, List.filter_filter,
          List.mem_append, List.mem_singleton, not_or]
        congr 3
        simp [Bool.and_comm, Bool.beq_eq_decide_eq]

theorem edits_insertLinks {statements : Set Statement} (source : Uuid) (targets : List Uuid)
    (hall : ∀ position, Statement.insertLink position ∈ statements) (position : Nat) :
    Edits statements (insertLinks source position targets) (fun _ => ())
      (fun db => targets.foldl (fun db target => insertLink source target db) db) := by
  induction targets generalizing position with
  | nil => exact edits_pure ()
  | cons target rest ih =>
      exact (edits_execute (hall position) _).bind fun _ => ih (position + 1)

/-- The new links of a note, none of which is among those that were kept. -/
theorem insertLinks_refresh (note : Note) (db : Db) :
    (note.links.filterMap NoteLink.targetNoteId).foldl
        (fun db target => insertLink note.id target db)
        { db with noteLinks := db.noteLinks.filter fun link => link.1 ≠ note.id } =
      db.refreshNoteLinks note := by
  have hnew : ((note.links.filterMap NoteLink.targetNoteId).map
      fun target => (note.id, target)).filter
        (fun link => link ∉ db.noteLinks.filter fun link => link.1 ≠ note.id) =
      (note.links.filterMap NoteLink.targetNoteId).map fun target => (note.id, target) := by
    apply List.filter_eq_self.mpr
    intro link hlink
    obtain ⟨target, -, rfl⟩ := List.mem_map.mp hlink
    simp
  rw [foldl_insertLink, hnew]
  rfl

theorem edits_refreshNoteLinks {statements : Set Statement} (note : Note)
    (hdelete : Statement.deleteLinks ∈ statements)
    (hall : ∀ position, Statement.insertLink position ∈ statements) :
    Edits statements (refreshNoteLinks note) (fun _ => ())
      (fun db => db.refreshNoteLinks note) := by
  have hedits := (edits_execute hdelete fun db : Db =>
      { db with noteLinks := db.noteLinks.filter fun link => link.1 ≠ note.id }).bind fun _ =>
    edits_insertLinks note.id (note.links.filterMap NoteLink.targetNoteId) hall 0
  intro fault connection
  have hrun := hedits fault connection
  simp only [insertLinks_refresh] at hrun
  exact hrun

theorem edits_restoreResources {statements : Set Statement} (note : Note)
    (priorDeleted : Option DateTime) (hrestore : Statement.restoreResources ∈ statements) :
    Edits statements (restoreResources note priorDeleted) (fun _ => ())
      (fun db => db.restoreResources note priorDeleted) := by
  simp only [restoreResources, Db.restoreResources]
  cases note.deletedAt with
  | some deletedAt => exact edits_pure ()
  | none =>
      cases priorDeleted with
      | none => exact edits_pure ()
      | some oldTs => exact edits_execute hrestore _

theorem edits_writeNote (note : Note) :
    Edits { statement | statement ≠ .commit } (writeNote note) (fun _ => ())
      (fun db =>
        Db.restoreResources
          { db.refreshNoteLinks note with
            notes := db.notes.insert note.id (NoteRow.ofNote note) }
          note (db.notes[note.id]?.bind NoteRow.deletedAt)) :=
  (edits_query (by simp) _).bind fun priorDeleted =>
    (edits_refreshNoteLinks note (by simp) (by simp)).bind fun _ =>
      (edits_execute (by simp) _).bind fun _ =>
        edits_restoreResources note priorDeleted (by simp)

theorem atomic_deleteRow {R : Type} (row : Db → Option R) (put : Db → R → Db) (mark : R → R)
    (placeholder : R) (db : Db) :
    Atomic { .updateRow, .insertPlaceholder } (deleteRow row put mark placeholder)
      (fun db => put db (((row db).map mark).getD placeholder)) db := by
  have hupdate : Statement.updateRow ∈
      ({ .updateRow, .insertPlaceholder } : Set Statement) := by simp
  have hinsert : Statement.insertPlaceholder ∈
      ({ .updateRow, .insertPlaceholder } : Set Statement) := by simp
  intro fault
  have hrun := atomic_update_or_insert hupdate hinsert
    (fun db => match row db with
      | some found => put db (mark found)
      | none => db)
    (fun db => match row db with
      | some _ => db
      | none => put db placeholder)
    (fun db => if (row db).isSome then 1 else 0) db (by cases row db <;> simp) fault
  cases hrow : row db with
  | none => simpa [deleteRow, hrow] using hrun
  | some found => simpa [deleteRow, hrow] using hrun

/-- The failures that tear a change: a commit that leaves the transaction of a
winning note open, and the cascade of a winning deletion that has a live
resource to delete. -/
def Torn (db : Db) (fault : Fault Statement) : Change → Prop
  | .noteCreate note | .noteUpdate note =>
      db.incomingWins .notes note.id note.vv note.updatedAt note.lastWriter = true ∧
        fault = ⟨.commit, .leavesOpen⟩
  | .noteDelete id deletedAt vv lastWriter =>
      db.incomingWins .notes id vv deletedAt lastWriter = true ∧
        fault.statement = .stampResources ∧
        ∃ (resource : Uuid) (row : ResourceRow), db.resources[resource]? = some row ∧
          row.noteId = id ∧ row.deletedAt = none
  | _ => False

theorem applyNote_wholeOrNone (note : Note) (db : Db) {fault : Option (Fault Statement)}
    (hwhole : db.incomingWins .notes note.id note.vv note.updatedAt note.lastWriter = true →
      fault ≠ some ⟨.commit, .leavesOpen⟩) :
    WholeOrNone (applyNote note) fault db (db.applyNote note) := by
  apply wholeOrNone_guarded
  intro hwins
  have hbegin : Statement.begin ∈ { statement : Statement | statement ≠ .commit } := by simp
  have hcommit : Statement.commit ∉ { statement : Statement | statement ≠ .commit } := by simp
  rcases transaction_run (edits_writeNote note) hbegin hcommit fault db with
    ⟨-, hrun⟩ | ⟨hfault, -⟩
  · exact hrun
  · exact absurd hfault (hwhole hwins)

/-- A commit that fails and leaves the transaction open has stored nothing. -/
theorem applyNote_left_open {note : Note} {db : Db}
    (hwins : db.incomingWins .notes note.id note.vv note.updatedAt note.lastWriter = true) :
    ((applyNote note).run (some ⟨.commit, .leavesOpen⟩) (.idle db)).2 =
      ⟨db, some (db.applyNote note)⟩ := by
  have hbegin : Statement.begin ∈ { statement : Statement | statement ≠ .commit } := by simp
  have hcommit : Statement.commit ∉ { statement : Statement | statement ≠ .commit } := by simp
  rw [applyNote, guarded_of_holds (by simp [hits]) (by simpa using hwins)]
  rcases transaction_run (edits_writeNote note) hbegin hcommit (some ⟨.commit, .leavesOpen⟩) db
    with ⟨hfault, -⟩ | ⟨-, hrun⟩
  · exact absurd rfl hfault
  · rw [hrun, Db.applyNote, if_pos hwins]
    rfl

/-- A note deleted without its resources. -/
def markDeleted (id : Uuid) (deletedAt : DateTime) (vv : VersionVector) (lastWriter : String)
    (db : Db) : Db :=
  { db with
    notes := db.notes.insert id ((db.notes[id]?.map fun row => { row with
      deletedAt := some deletedAt, updatedAt := deletedAt, vv, lastWriter }).getD
        (.placeholder deletedAt vv lastWriter)) }

theorem applyNoteDelete_eq (id : Uuid) (deletedAt : DateTime) (vv : VersionVector)
    (lastWriter : String) (db : Db) :
    db.applyNoteDelete id deletedAt vv lastWriter =
      if db.incomingWins .notes id vv deletedAt lastWriter = true then
        (markDeleted id deletedAt vv lastWriter db).cascadeStampResources id deletedAt
      else db := by
  simp only [Db.applyNoteDelete, markDeleted]
  cases db.notes[id]? <;> rfl

theorem applyNoteDelete_wholeOrNone (id : Uuid) (deletedAt : DateTime) (vv : VersionVector)
    (lastWriter : String) (db : Db) {fault : Option (Fault Statement)}
    (hwhole : db.incomingWins .notes id vv deletedAt lastWriter = true →
      hits Statement.stampResources fault = true →
      (markDeleted id deletedAt vv lastWriter db).cascadeStampResources id deletedAt =
        markDeleted id deletedAt vv lastWriter db) :
    WholeOrNone (applyNoteDelete id deletedAt vv lastWriter) fault db
      (db.applyNoteDelete id deletedAt vv lastWriter) := by
  rw [applyNoteDelete_eq]
  apply wholeOrNone_guarded
  intro hwins
  rcases atomic_deleteRow (fun db => db.notes[id]?)
      (fun db row => { db with notes := db.notes.insert id row })
      (fun row => { row with
        deletedAt := some deletedAt, updatedAt := deletedAt, vv, lastWriter })
      (.placeholder deletedAt vv lastWriter) db fault with
    hrun | ⟨⟨found, hfault, -⟩, hrun⟩
  · rw [WholeOrNone, bind_of_some hrun]
    rcases execute_run Statement.stampResources (fun db => db.cascadeStampResources id deletedAt)
        fault (.idle (markDeleted id deletedAt vv lastWriter db)) with hstamp | ⟨hhits, hstamp⟩
    · exact .inl (congrArg Prod.snd hstamp)
    · have hsame := hwhole hwins hhits
      exact .inl ((congrArg Prod.snd hstamp).trans (congrArg Connection.idle hsame.symm))
  · exact .inr ⟨by simp [hfault], by rw [bind_of_none hrun]⟩

/-- A cascade that fails leaves the note deleted and its resources as they
were. -/
theorem applyNoteDelete_cut_short {id : Uuid} {deletedAt : DateTime} {vv : VersionVector}
    {lastWriter : String} {db : Db} {fault : Fault Statement}
    (hwins : db.incomingWins .notes id vv deletedAt lastWriter = true)
    (hfault : fault.statement = .stampResources) :
    ((applyNoteDelete id deletedAt vv lastWriter).run (some fault) (.idle db)).2 =
      .idle (markDeleted id deletedAt vv lastWriter db) := by
  rw [applyNoteDelete, guarded_of_holds (by simp [hits, hfault]) (by simpa using hwins)]
  rcases atomic_deleteRow (fun db => db.notes[id]?)
      (fun db row => { db with notes := db.notes.insert id row })
      (fun row => { row with
        deletedAt := some deletedAt, updatedAt := deletedAt, vv, lastWriter })
      (.placeholder deletedAt vv lastWriter) db (some fault) with
    hrun | ⟨⟨found, hfound, hmem⟩, -⟩
  · rw [bind_of_some hrun]
    have hhits : hits Statement.stampResources (some fault) = true := by
      simp [hits, hfault]
    simp only [execute, hhits, if_true]
    rfl
  · rw [Option.some.injEq] at hfound
    rw [← hfound, hfault] at hmem
    simp at hmem

/-- A cascade without a live resource changes nothing. -/
theorem cascadeStampResources_of_none_live {db : Db} {id : Uuid}
    (hnone : ∀ (resource : Uuid) (row : ResourceRow), db.resources[resource]? = some row →
      row.noteId = id → row.deletedAt ≠ none) (deletedAt : DateTime) :
    db.cascadeStampResources id deletedAt = db := by
  have hmap : (db.resources.map fun _ row =>
      if row.noteId = id ∧ row.deletedAt = none then { row with deletedAt := some deletedAt }
      else row) = db.resources := by
    apply Std.ExtTreeMap.ext_getElem?
    intro resource
    rw [Std.ExtTreeMap.getElem?_map]
    cases hrow : db.resources[resource]? with
    | none => rfl
    | some row =>
        have hkept : ¬(row.noteId = id ∧ row.deletedAt = none) := fun hlive =>
          hnone resource row hrow hlive.1 hlive.2
        rw [Option.map_some, if_neg hkept]
  rw [Db.cascadeStampResources, hmap]

/-- A change that no failure tears is applied in full or not at all. -/
theorem applyChange_wholeOrNone (change : Change) (db : Db) (fault : Option (Fault Statement))
    (hwhole : ∀ found, fault = some found → ¬Torn db found change) :
    WholeOrNone (applyChange change) fault db (db.applyChange change) := by
  cases change with
  | noteCreate note | noteUpdate note =>
      exact applyNote_wholeOrNone note db fun hwins hfault =>
        hwhole _ hfault ⟨hwins, rfl⟩
  | noteDelete id deletedAt vv lastWriter =>
      apply applyNoteDelete_wholeOrNone
      intro hwins hhits
      simp only [hits, Option.any_eq_true, decide_eq_true_eq] at hhits
      obtain ⟨found, hfault, hfound⟩ := hhits
      apply cascadeStampResources_of_none_live
      intro resource row hrow hnote hlive
      exact hwhole found hfault ⟨hwins, hfound, resource, row, hrow, hnote, hlive⟩
  | notebookCreate notebook | notebookUpdate notebook =>
      exact wholeOrNone_guarded fun _ =>
        (atomic_execute (Set.mem_univ _) _ db).wholeOrNone fault
  | tagCreate tag | tagUpdate tag =>
      exact wholeOrNone_guarded fun _ =>
        (atomic_execute (Set.mem_univ _) _ db).wholeOrNone fault
  | noteTagAdd noteId tagId updatedAt vv lastWriter
  | noteTagRemove noteId tagId updatedAt vv lastWriter =>
      exact wholeOrNone_guarded fun _ =>
        (atomic_execute (Set.mem_univ _) _ db).wholeOrNone fault
  | resourceCreate resource data =>
      exact wholeOrNone_guarded fun _ =>
        (atomic_execute (Set.mem_univ _) _ db).wholeOrNone fault
  | notebookDelete id deletedAt vv lastWriter =>
      have heq : db.applyNotebookDelete id deletedAt vv lastWriter =
          if db.incomingWins .notebooks id vv deletedAt lastWriter = true then
            { db with
              notebooks := db.notebooks.insert id ((db.notebooks[id]?.map fun row => { row with
                deletedAt := some deletedAt, updatedAt := deletedAt, vv, lastWriter }).getD
                  (.placeholder deletedAt vv lastWriter)) }
          else db := by
        simp only [Db.applyNotebookDelete]
        cases db.notebooks[id]? <;> rfl
      rw [Db.applyChange, heq]
      exact wholeOrNone_guarded fun _ => (atomic_deleteRow _ _ _ _ db).wholeOrNone fault
  | tagDelete id deletedAt vv lastWriter =>
      have heq : db.applyTagDelete id deletedAt vv lastWriter =
          if db.incomingWins .tags id vv deletedAt lastWriter = true then
            { db with
              tags := db.tags.insert id ((db.tags[id]?.map fun row => { row with
                deletedAt := some deletedAt, updatedAt := deletedAt, vv, lastWriter }).getD
                  (.placeholder deletedAt vv lastWriter)) }
          else db := by
        simp only [Db.applyTagDelete]
        cases db.tags[id]? <;> rfl
      rw [Db.applyChange, heq]
      exact wholeOrNone_guarded fun _ => (atomic_deleteRow _ _ _ _ db).wholeOrNone fault
  | resourceDelete id deletedAt vv lastWriter =>
      have heq : db.applyResourceDelete id deletedAt vv lastWriter =
          if db.resourceIncomingWins id vv deletedAt lastWriter = true then
            { db with
              resources := db.resources.insert id ((db.resources[id]?.map fun row => { row with
                deletedAt := some deletedAt, vv, lastWriter }).getD
                  (.placeholder deletedAt vv lastWriter)) }
          else db := by
        simp only [Db.applyResourceDelete]
        cases db.resources[id]? <;> rfl
      rw [Db.applyChange, heq]
      exact wholeOrNone_guarded fun _ => (atomic_deleteRow _ _ _ _ db).wholeOrNone fault

/-- Without a failure the statements do what the change does to the tables. -/
theorem run_applyChange (change : Change) (db : Db) :
    ((applyChange change).run none (.idle db)).2 = .idle (db.applyChange change) := by
  rcases applyChange_wholeOrNone change db none (by simp) with hwhole | ⟨hfault, -⟩
  · exact hwhole
  · exact absurd rfl hfault

/-- After the failure of one statement the tables, as the connection reads them
and as they are stored, are as before the change or as after all of it, and the
change applied again is applied in full. -/
def Recovers (change : Change) (fault : Fault Statement) (db : Db) : Prop :=
  let whole := ((applyChange change).run none (.idle db)).2
  let failed := ((applyChange change).run (some fault) (.idle db)).2
  (failed.tables = whole.tables ∨ failed.tables = db) ∧
    (failed.saved = whole.saved ∨ failed.saved = db) ∧
    ((applyChange change).run none failed).2 = whole

theorem recovers_of_not_torn {change : Change} {fault : Fault Statement} {db : Db}
    (hwhole : ¬Torn db fault change) : Recovers change fault db := by
  simp only [Recovers, run_applyChange]
  have hleft := applyChange_wholeOrNone change db (some fault) fun found hfound =>
    by rwa [← Option.some.inj hfound]
  rcases hleft with hrun | ⟨-, hrun⟩
  · rw [hrun]
    exact ⟨.inl rfl, .inl rfl, by rw [run_applyChange, Db.applyChange_twice]⟩
  · rw [hrun]
    exact ⟨.inr rfl, .inr rfl, run_applyChange change db⟩

/-- A note cannot be written while a transaction is open. -/
theorem applyNote_inside_transaction (note : Note) (saved working : Db) :
    ((applyNote note).run none ⟨saved, some working⟩).2 = ⟨saved, some working⟩ := by
  by_cases hwins :
      working.incomingWins .notes note.id note.vv note.updatedAt note.lastWriter = true
  · rw [applyNote, guarded_of_holds rfl hwins]
    rfl
  · rw [applyNote, guarded_of_fails rfl (Bool.eq_false_iff.mpr hwins)]

theorem not_recovers_of_torn_note {change : Change} {note : Note} {db : Db}
    (hchange : change = .noteCreate note ∨ change = .noteUpdate note)
    (hwins : db.incomingWins .notes note.id note.vv note.updatedAt note.lastWriter = true) :
    ¬Recovers change ⟨.commit, .leavesOpen⟩ db := by
  have happly : applyChange change = applyNote note := by
    rcases hchange with rfl | rfl <;> rfl
  have hfailed : ((applyChange change).run (some ⟨.commit, .leavesOpen⟩) (.idle db)).2 =
      ⟨db, some (db.applyNote note)⟩ := by
    rw [happly, applyNote_left_open hwins]
  rintro ⟨-, -, hagain⟩
  rw [hfailed, run_applyChange, happly, applyNote_inside_transaction] at hagain
  exact Option.some_ne_none _ (congrArg Connection.working hagain)

theorem markDeleted_ne {id : Uuid} {deletedAt : DateTime} {vv : VersionVector}
    {lastWriter : String} {db : Db}
    (hwins : db.incomingWins .notes id vv deletedAt lastWriter = true) :
    markDeleted id deletedAt vv lastWriter db ≠ db := by
  intro heq
  have hloses : (markDeleted id deletedAt vv lastWriter db).incomingWins .notes id vv deletedAt
      lastWriter = false := by
    rw [Db.incomingWins, Db.currentMeta_notes]
    have hslot : (markDeleted id deletedAt vv lastWriter db).slot (.note id) =
        .stored ⟨vv, deletedAt, lastWriter, false⟩ := by
      cases hrow : db.notes[id]? <;> simp [markDeleted, Db.slot, hrow, NoteRow.placeholder]
    rw [hslot]
    exact Version.not_beats_self ⟨vv, deletedAt, lastWriter, false⟩
  rw [heq, hwins] at hloses
  contradiction

theorem not_recovers_of_torn_delete {id : Uuid} {deletedAt : DateTime} {vv : VersionVector}
    {lastWriter : String} {fault : Fault Statement} {db : Db}
    (htorn : Torn db fault (.noteDelete id deletedAt vv lastWriter)) :
    ¬Recovers (.noteDelete id deletedAt vv lastWriter) fault db := by
  obtain ⟨hwins, hfault, resource, row, hrow, hnote, hlive⟩ := htorn
  have happly : applyChange (.noteDelete id deletedAt vv lastWriter) =
      applyNoteDelete id deletedAt vv lastWriter := rfl
  have hfailed : ((applyChange (.noteDelete id deletedAt vv lastWriter)).run (some fault)
      (.idle db)).2 = .idle (markDeleted id deletedAt vv lastWriter db) := by
    rw [happly, applyNoteDelete_cut_short hwins hfault]
  have hwhole : db.applyChange (.noteDelete id deletedAt vv lastWriter) =
      (markDeleted id deletedAt vv lastWriter db).cascadeStampResources id deletedAt := by
    simp only [Db.applyChange, applyNoteDelete_eq, hwins, if_true]
  simp only [Recovers, hfailed, run_applyChange, Connection.tables_idle, hwhole]
  rintro ⟨hafter | hbefore, -, -⟩
  · have hfound := congrArg (fun db : Db => db.resources[resource]?) hafter
    have hkept : (markDeleted id deletedAt vv lastWriter db).resources = db.resources := rfl
    simp only [Db.cascadeStampResources, hkept, Std.ExtTreeMap.getElem?_map, hrow,
      Option.map_some, hnote, hlive, and_self, if_true, Option.some.injEq] at hfound
    have hdeleted := congrArg ResourceRow.deletedAt hfound
    simp [hlive] at hdeleted
  · exact markDeleted_ne hwins hbefore

/-- The failure of a single statement leaves an applied change whole or undone,
and its redelivery completes it, exactly when it does not tear the change. -/
theorem recovers_iff (change : Change) (fault : Fault Statement) (db : Db) :
    Recovers change fault db ↔ ¬Torn db fault change := by
  constructor
  · intro hrecovers htorn
    cases change with
    | noteCreate note =>
        obtain ⟨hwins, rfl⟩ := htorn
        exact not_recovers_of_torn_note (.inl rfl) hwins hrecovers
    | noteUpdate note =>
        obtain ⟨hwins, rfl⟩ := htorn
        exact not_recovers_of_torn_note (.inr rfl) hwins hrecovers
    | noteDelete id deletedAt vv lastWriter =>
        exact not_recovers_of_torn_delete htorn hrecovers
    | _ => exact htorn
  · exact recovers_of_not_torn

namespace Witness

def note : NoteRow := .placeholder 1 ((∅ : VersionVector).increment "A") "A"

def resource : ResourceRow :=
  { ResourceRow.placeholder 1 ((∅ : VersionVector).increment "A") "A" with
    noteId := 1, deletedAt := none }

/-- A live note with one live resource. -/
def db : Db :=
  ⟨"B", (∅ : Table NoteRow).insert 1 { note with deletedAt := none }, ∅, ∅, ∅,
    (∅ : Table ResourceRow).insert 2 resource, [], [], none⟩

def delete : Change :=
  .noteDelete 1 2 (((∅ : VersionVector).increment "A").increment "A") "A"

/-- The row of the deleted note counts the change, so its redelivery loses and
the resource stays live. -/
theorem delete_not_recovered :
    ¬ ∀ change fault db, Recovers change fault db := by
  intro hrecovers
  have htorn : Torn db ⟨.stampResources, .rollsBack⟩ delete :=
    ⟨by decide, rfl, 2, resource, by decide, rfl, rfl⟩
  exact not_recovers_of_torn_delete htorn (hrecovers _ _ _)

end Witness

end DbStatements

end Keeplin
