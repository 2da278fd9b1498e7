/-
Pruning the journal of the database after a sync.  The rows from before the retention
period go, whether they were sent or not, while other cycles of a sync and mutators go on.
Syncing does not notice where every watermark in play is as late as the rows that go.
-/
import Keeplin.OutgoingSync
import Keeplin.EncryptedBackend
import Keeplin.Rfc3339

namespace Keeplin

namespace Db

def withJournal (db : Db) (rows : List EntityChange) : Db := { db with entityChanges := rows }

variable {db : Db} {rows : List EntityChange}

theorem withJournal_restoreResources (note : Note) (priorDeleted : Option DateTime) :
    (db.withJournal rows).restoreResources note priorDeleted =
      (db.restoreResources note priorDeleted).withJournal rows := by
  simp only [restoreResources]
  split <;> rfl

theorem withJournal_ite {wins : Bool} {next other : Db}
    (hnext : next = other.withJournal rows) :
    (if wins then next else db.withJournal rows) =
      (if wins then other else db).withJournal rows := by
  rw [hnext]
  cases wins <;> rfl

theorem withJournal_applyChange (change : Change) :
    (db.withJournal rows).applyChange change = (db.applyChange change).withJournal rows := by
  cases change with
  | noteCreate note | noteUpdate note =>
      exact withJournal_ite (Eq.symm (withJournal_restoreResources note _).symm)
  | noteTagAdd | noteTagRemove =>
      simp only [applyChange, applyNoteTag]
      exact withJournal_ite rfl
  | resourceCreate | resourceDelete =>
      simp only [applyChange, applyResource, applyResourceDelete]
      exact withJournal_ite rfl
  | _ =>
      simp only [applyChange, applyNoteDelete, applyNotebook, applyNotebookDelete, applyTag,
        applyTagDelete]
      exact withJournal_ite rfl

/-- What a successful write does to the journal, and that it does not look at it. -/
structure Logs (changedAt : DateTime) (row : EntityChange) (db after : Db)
    (write : Db → Except StorageError Db) : Prop where
  instant : row.changedAt = changedAt
  journal : after.entityChanges = db.entityChanges ++ [row]
  blind : ∀ rows, write (db.withJournal rows) = .ok (after.withJournal (rows ++ [row]))

variable {ts changedAt : DateTime} {after : Db}

theorem createNote_logs {note : Note}
    (hwrite : db.localWrite ts changedAt (.createNote note) = .ok after) :
    ∃ row, Logs changedAt row db after fun db =>
      db.localWrite ts changedAt (.createNote note) := by
  obtain ⟨pair, hpair, rfl⟩ := exists_of_map_ok hwrite
  simp only [createNote] at hpair
  split at hpair
  · contradiction
  · next hfree =>
      cases hpair
      exact ⟨_, rfl, rfl, fun rows => congrArg (Except.map Prod.fst) (if_neg hfree)⟩

theorem updateNote_logs {note : Note}
    (hwrite : db.localWrite ts changedAt (.updateNote note) = .ok after) :
    ∃ row, Logs changedAt row db after fun db =>
      db.localWrite ts changedAt (.updateNote note) := by
  obtain ⟨pair, hpair, rfl⟩ := exists_of_map_ok hwrite
  simp only [updateNote] at hpair
  split at hpair
  · contradiction
  · next row hrow =>
      cases hpair
      let stamped : Note :=
        { note with vv := db.nextLocalVv .notes note.id, lastWriter := db.deviceId }
      refine ⟨⟨changedAt, .noteUpdate stamped⟩, rfl, ?_, fun rows => ?_⟩
      · exact congrArg (· ++ _) (entityChanges_restoreResources stamped row.deletedAt)
      · have hsame : (db.withJournal rows).notes[note.id]? = some row := hrow
        simp only [localWrite, updateNote, hsame]
        let updated : NoteRow := { NoteRow.ofNote stamped with createdAt := row.createdAt }
        let held : Db := { db with notes := db.notes.insert note.id updated }
        have hrestore := @withJournal_restoreResources held rows stamped row.deletedAt
        exact congrArg
          (fun restored : Db => (Except.ok
            ((restored.refreshNoteLinks stamped).recordChange changedAt
              (.noteUpdate stamped)) : Except StorageError Db))
          hrestore

theorem deleteNote_logs {id : Uuid}
    (hwrite : db.localWrite ts changedAt (.deleteNote id) = .ok after) :
    ∃ row, Logs changedAt row db after fun db =>
      db.localWrite ts changedAt (.deleteNote id) := by
  simp only [localWrite, deleteNote] at hwrite
  split at hwrite
  · contradiction
  · next row hrow =>
      cases hwrite
      refine ⟨_, rfl, rfl, fun rows => ?_⟩
      have hsame : (db.withJournal rows).notes[id]? = some row := hrow
      simp only [localWrite, deleteNote, hsame]
      rfl

theorem createNotebook_logs {notebook : Notebook}
    (hwrite : db.localWrite ts changedAt (.createNotebook notebook) = .ok after) :
    ∃ row, Logs changedAt row db after fun db =>
      db.localWrite ts changedAt (.createNotebook notebook) := by
  obtain ⟨pair, hpair, rfl⟩ := exists_of_map_ok hwrite
  simp only [createNotebook] at hpair
  split at hpair
  · contradiction
  · next hfree =>
      cases hpair
      exact ⟨_, rfl, rfl, fun rows => congrArg (Except.map Prod.fst) (if_neg hfree)⟩

theorem updateNotebook_logs {notebook : Notebook}
    (hwrite : db.localWrite ts changedAt (.updateNotebook notebook) = .ok after) :
    ∃ row, Logs changedAt row db after fun db =>
      db.localWrite ts changedAt (.updateNotebook notebook) := by
  obtain ⟨pair, hpair, rfl⟩ := exists_of_map_ok hwrite
  simp only [updateNotebook] at hpair
  split at hpair
  · contradiction
  · next row hrow =>
      cases hpair
      refine ⟨_, rfl, rfl, fun rows => ?_⟩
      have hsame : (db.withJournal rows).notebooks[notebook.id]? = some row := hrow
      simp only [localWrite, updateNotebook, hsame]
      rfl

theorem deleteNotebook_logs {id : Uuid}
    (hwrite : db.localWrite ts changedAt (.deleteNotebook id) = .ok after) :
    ∃ row, Logs changedAt row db after fun db =>
      db.localWrite ts changedAt (.deleteNotebook id) := by
  simp only [localWrite, deleteNotebook] at hwrite
  split at hwrite
  · contradiction
  · next row hrow =>
      cases hwrite
      refine ⟨_, rfl, rfl, fun rows => ?_⟩
      have hsame : (db.withJournal rows).notebooks[id]? = some row := hrow
      simp only [localWrite, deleteNotebook, hsame]
      rfl

theorem createTag_logs {tag : Tag}
    (hwrite : db.localWrite ts changedAt (.createTag tag) = .ok after) :
    ∃ row, Logs changedAt row db after fun db =>
      db.localWrite ts changedAt (.createTag tag) := by
  obtain ⟨pair, hpair, rfl⟩ := exists_of_map_ok hwrite
  simp only [createTag] at hpair
  split at hpair
  · contradiction
  · next hfree =>
      cases hpair
      exact ⟨_, rfl, rfl, fun rows => congrArg (Except.map Prod.fst) (if_neg hfree)⟩

theorem updateTag_logs {tag : Tag}
    (hwrite : db.localWrite ts changedAt (.updateTag tag) = .ok after) :
    ∃ row, Logs changedAt row db after fun db =>
      db.localWrite ts changedAt (.updateTag tag) := by
  obtain ⟨pair, hpair, rfl⟩ := exists_of_map_ok hwrite
  simp only [updateTag] at hpair
  split at hpair
  · contradiction
  · next row hrow =>
      cases hpair
      refine ⟨_, rfl, rfl, fun rows => ?_⟩
      have hsame : (db.withJournal rows).tags[tag.id]? = some row := hrow
      simp only [localWrite, updateTag, hsame]
      rfl

theorem deleteTag_logs {id : Uuid}
    (hwrite : db.localWrite ts changedAt (.deleteTag id) = .ok after) :
    ∃ row, Logs changedAt row db after fun db =>
      db.localWrite ts changedAt (.deleteTag id) := by
  simp only [localWrite, deleteTag] at hwrite
  split at hwrite
  · contradiction
  · next row hrow =>
      cases hwrite
      refine ⟨_, rfl, rfl, fun rows => ?_⟩
      have hsame : (db.withJournal rows).tags[id]? = some row := hrow
      simp only [localWrite, deleteTag, hsame]
      rfl

theorem addNoteTag_logs {noteTag : NoteTag}
    (hwrite : db.localWrite ts changedAt (.addNoteTag noteTag) = .ok after) :
    ∃ row, Logs changedAt row db after fun db =>
      db.localWrite ts changedAt (.addNoteTag noteTag) := by
  simp only [localWrite, addNoteTag] at hwrite
  split at hwrite
  · contradiction
  · next hnote =>
      split at hwrite
      · contradiction
      · next htag =>
          cases hwrite
          exact ⟨_, rfl, rfl, fun rows => (if_neg hnote).trans (if_neg htag)⟩

theorem removeNoteTag_logs {noteId tagId : Uuid}
    (hwrite : db.localWrite ts changedAt (.removeNoteTag noteId tagId) = .ok after) :
    ∃ row, Logs changedAt row db after fun db =>
      db.localWrite ts changedAt (.removeNoteTag noteId tagId) := by
  cases hwrite
  exact ⟨_, rfl, rfl, fun rows => rfl⟩

theorem createResource_logs {resource : Resource} {data : List UInt8}
    (hwrite : db.localWrite ts changedAt (.createResource resource data) = .ok after) :
    ∃ row, Logs changedAt row db after fun db =>
      db.localWrite ts changedAt (.createResource resource data) := by
  obtain ⟨pair, hpair, rfl⟩ := exists_of_map_ok hwrite
  simp only [createResource] at hpair
  split at hpair
  · contradiction
  · next hfree =>
      cases hpair
      exact ⟨_, rfl, rfl, fun rows => congrArg (Except.map Prod.fst) (if_neg hfree)⟩

theorem deleteResource_logs {id : Uuid}
    (hwrite : db.localWrite ts changedAt (.deleteResource id) = .ok after) :
    ∃ row, Logs changedAt row db after fun db =>
      db.localWrite ts changedAt (.deleteResource id) := by
  simp only [localWrite, deleteResource] at hwrite
  split at hwrite
  · contradiction
  · next row hrow =>
      cases hwrite
      refine ⟨_, rfl, rfl, fun rows => ?_⟩
      have hsame : (db.withJournal rows).resources[id]? = some row := hrow
      simp only [localWrite, deleteResource, hsame]
      rfl

/-- Every mutator logs one row where it succeeds. -/
theorem localWrite_logs {write : LocalWrite}
    (hwrite : db.localWrite ts changedAt write = .ok after) :
    ∃ row, Logs changedAt row db after fun db => db.localWrite ts changedAt write := by
  cases write with
  | createNote => exact createNote_logs hwrite
  | updateNote => exact updateNote_logs hwrite
  | deleteNote => exact deleteNote_logs hwrite
  | createNotebook => exact createNotebook_logs hwrite
  | updateNotebook => exact updateNotebook_logs hwrite
  | deleteNotebook => exact deleteNotebook_logs hwrite
  | createTag => exact createTag_logs hwrite
  | updateTag => exact updateTag_logs hwrite
  | deleteTag => exact deleteTag_logs hwrite
  | addNoteTag => exact addNoteTag_logs hwrite
  | removeNoteTag => exact removeNoteTag_logs hwrite
  | createResource => exact createResource_logs hwrite
  | deleteResource => exact deleteResource_logs hwrite
end Db

/-- The instants that a cycle takes, or will take, for "sent up to here". -/
def Cycle.watermarks : Cycle → List DateTime
  | started _ since => [since]
  | stamped _ since syncTs => [since, syncTs]
  | collected _ syncTs _ => [syncTs]
  | sent _ syncTs => [syncTs]
  | done _ => []
  | failed => []

/-- A cycle without the count of the rows there were at its start. -/
def Cycle.uncounted : Cycle → Cycle
  | started _ since => started 0 since
  | stamped _ since syncTs => stamped 0 since syncTs
  | collected _ syncTs batch => collected 0 syncTs batch
  | sent _ syncTs => sent 0 syncTs
  | done _ => done 0
  | failed => failed

def OutgoingWorld.watermarks (world : OutgoingWorld) : List DateTime :=
  world.db.getLastSyncTime :: world.cycles.flatMap Cycle.watermarks

inductive PruningStep where
  | sync (step : OutgoingStep)
  | prune (retentionDays : Nat) (now : DateTime)

def nanosPerDay : Int := 86400 * 1000000000

/-- The instant from before which the rows go. -/
def pruneCutoff (retentionDays : Nat) (now : DateTime) : DateTime :=
  now - min retentionDays 36500 * nanosPerDay

/-- A step of the database.  A prune has read the clock before it takes the write lock. -/
def pruningStep (world : OutgoingWorld) : PruningStep → Option OutgoingWorld
  | .sync step => outgoingStep world step
  | .prune retentionDays now =>
      if world.writer = none ∧ now ≤ world.clock then
        if retentionDays = 0 then some world
        else some { world with
          db := (world.db.pruneChangeJournal (pruneCutoff retentionDays now)).1 }
      else none

/-- No watermark in play is from before the retention period, and the years have four
digits. -/
def Recent (world : OutgoingWorld) : PruningStep → Prop
  | .sync _ => True
  | .prune retentionDays now => retentionDays = 0 ∨
      (∀ watermark ∈ world.watermarks, pruneCutoff retentionDays now ≤ watermark) ∧
      FourDigitYear (pruneCutoff retentionDays now) ∧
      ∀ row ∈ world.db.entityChanges, FourDigitYear row.changedAt

/-- The steps of a run that are no prunes. -/
def syncSteps (steps : List PruningStep) : List OutgoingStep :=
  steps.filterMap fun
    | .sync step => some step
    | .prune _ _ => none

/-- A world with a pruned journal, beside the world with all of its rows. -/
structure PrunedFrom (floor : DateTime) (pruned plain : OutgoingWorld) : Prop where
  db : plain.db = pruned.db.withJournal plain.db.entityChanges
  clock : plain.clock = pruned.clock
  writer : plain.writer = pruned.writer
  sent : plain.sent = pruned.sent
  cycles : plain.cycles.map Cycle.uncounted = pruned.cycles.map Cycle.uncounted
  rows : pruned.db.entityChanges.Sublist plain.db.entityChanges
  recent : (pruned.db.entityChanges.filter fun row => floor ≤ row.changedAt) =
    plain.db.entityChanges.filter fun row => floor ≤ row.changedAt
  now : floor ≤ pruned.clock
  watermarks : ∀ watermark ∈ pruned.watermarks, floor ≤ watermark

theorem filter_of_imp {A : Type} {narrow wide : A → Bool}
    (himplies : ∀ item, narrow item = true → wide item = true) (items : List A) :
    items.filter narrow = (items.filter wide).filter narrow := by
  rw [List.filter_filter]
  apply List.filter_congr
  intro item _
  cases hnarrow : narrow item with
  | false => rfl
  | true => rw [himplies item hnarrow, Bool.and_self]

namespace PrunedFrom

variable {floor : DateTime} {pruned plain next : OutgoingWorld}

theorem lastSync (hfrom : PrunedFrom floor pruned plain) :
    plain.db.getLastSyncTime = pruned.db.getLastSyncTime :=
  (congrArg Db.getLastSyncTime hfrom.db).trans rfl

theorem cycle_found {position : Nat} {cycle : Cycle} (hfrom : PrunedFrom floor pruned plain)
    (hcycle : pruned.cycles[position]? = some cycle) :
    ∃ other, plain.cycles[position]? = some other ∧ other.uncounted = cycle.uncounted := by
  have hsame := congrArg (·[position]?) hfrom.cycles
  simp only [List.getElem?_map, hcycle, Option.map_some] at hsame
  exact Option.map_eq_some_iff.mp hsame

theorem cycle_watermarks {position : Nat} {cycle : Cycle}
    (hfrom : PrunedFrom floor pruned plain) (hcycle : pruned.cycles[position]? = some cycle) :
    ∀ watermark ∈ cycle.watermarks, floor ≤ watermark := by
  intro watermark hmem
  apply hfrom.watermarks watermark
  exact List.mem_cons_of_mem _
    (List.mem_flatMap.mpr ⟨cycle, List.mem_of_getElem? hcycle, hmem⟩)

/-- A cycle moves on in both worlds. -/
theorem setCycle {position : Nat} {cycle other : Cycle} (hfrom : PrunedFrom floor pruned plain)
    (hcount : other.uncounted = cycle.uncounted)
    (hwatermarks : ∀ watermark ∈ cycle.watermarks, floor ≤ watermark) :
    PrunedFrom floor (pruned.setCycle position cycle) (plain.setCycle position other) where
  db := hfrom.db
  clock := hfrom.clock
  writer := hfrom.writer
  sent := hfrom.sent
  cycles := by
    simp only [OutgoingWorld.setCycle, List.map_set, hfrom.cycles, hcount]
  rows := hfrom.rows
  recent := hfrom.recent
  now := hfrom.now
  watermarks := by
    intro watermark hmem
    rcases List.mem_cons.mp hmem with rfl | hcycles
    · exact hfrom.watermarks _ List.mem_cons_self
    · obtain ⟨found, hfound, hin⟩ := List.mem_flatMap.mp hcycles
      rcases List.mem_or_eq_of_mem_set hfound with hold | rfl
      · exact hfrom.watermarks watermark
          (List.mem_cons_of_mem _ (List.mem_flatMap.mpr ⟨found, hold, hin⟩))
      · exact hwatermarks watermark hin

/-- The rows that a cycle collects are all there. -/
theorem getChangesSince (hfrom : PrunedFrom floor pruned plain) {since : DateTime}
    (hsince : floor ≤ since) :
    plain.db.getChangesSince since = pruned.db.getChangesSince since := by
  have hlater : ∀ row : EntityChange, decide (since < row.changedAt) = true →
      decide (floor ≤ row.changedAt) = true := by
    intro row hlt
    exact decide_eq_true (hsince.trans (of_decide_eq_true hlt).le)
  unfold Db.getChangesSince
  rw [filter_of_imp hlater plain.db.entityChanges,
    filter_of_imp hlater pruned.db.entityChanges, hfrom.recent]

/-- A mutator writes to both databases, and logs the same row. -/
theorem commit {ts changedAt : DateTime} {write : LocalWrite} {db : Db}
    (hfrom : PrunedFrom floor pruned plain)
    (hwrite : pruned.db.localWrite ts changedAt write = .ok db) :
    ∃ other, plain.db.localWrite ts changedAt write = .ok other ∧
      PrunedFrom floor { pruned with db, writer := none }
        { plain with db := other, writer := none } := by
  obtain ⟨row, -, hjournal, hblind⟩ := Db.localWrite_logs hwrite
  obtain ⟨_, hwrote⟩ := Db.localWrite_wrote hwrite
  refine ⟨db.withJournal (plain.db.entityChanges ++ [row]), ?_, ?_⟩
  · rw [hfrom.db]
    exact hblind plain.db.entityChanges
  · refine ⟨rfl, hfrom.clock, rfl, hfrom.sent, hfrom.cycles, ?_, ?_, hfrom.now, ?_⟩
    · show db.entityChanges.Sublist (plain.db.entityChanges ++ [row])
      rw [hjournal]
      exact hfrom.rows.append (List.Sublist.refl _)
    · show (db.entityChanges.filter fun row => floor ≤ row.changedAt) =
        (plain.db.entityChanges ++ [row]).filter fun row => floor ≤ row.changedAt
      rw [hjournal, List.filter_append, List.filter_append, hfrom.recent]
    · intro watermark hmem
      rcases List.mem_cons.mp hmem with rfl | hcycles
      · rw [Db.getLastSyncTime, hwrote.lastSync]
        exact hfrom.watermarks _ List.mem_cons_self
      · exact hfrom.watermarks watermark (List.mem_cons_of_mem _ hcycles)

theorem apply (hfrom : PrunedFrom floor pruned plain) (change : Change) :
    PrunedFrom floor { pruned with db := pruned.db.applyChange change }
      { plain with db := plain.db.applyChange change } := by
  obtain ⟨hrows, hlast⟩ := pruned.db.journal_applyChange change
  obtain ⟨hplain, -⟩ := plain.db.journal_applyChange change
  refine { hfrom with db := ?_, rows := ?_, recent := ?_, watermarks := ?_ }
  · show plain.db.applyChange change = (pruned.db.applyChange change).withJournal
      (plain.db.applyChange change).entityChanges
    rw [hplain, ← Db.withJournal_applyChange]
    exact congrArg (Db.applyChange · change) hfrom.db
  · show (pruned.db.applyChange change).entityChanges.Sublist
      (plain.db.applyChange change).entityChanges
    rw [hrows, hplain]
    exact hfrom.rows
  · show ((pruned.db.applyChange change).entityChanges.filter fun row => floor ≤ row.changedAt) =
      (plain.db.applyChange change).entityChanges.filter fun row => floor ≤ row.changedAt
    rw [hrows, hplain]
    exact hfrom.recent
  · intro watermark hmem
    rcases List.mem_cons.mp hmem with rfl | hcycles
    · rw [Db.getLastSyncTime, hlast]
      exact hfrom.watermarks _ List.mem_cons_self
    · exact hfrom.watermarks watermark (List.mem_cons_of_mem _ hcycles)

theorem sync_tick {now : DateTime} (hfrom : PrunedFrom floor pruned plain)
    (hstep : outgoingStep pruned (.tick now) = some next) :
    ∃ other, outgoingStep plain (.tick now) = some other ∧ PrunedFrom floor next other := by
  simp only [outgoingStep] at hstep ⊢
  split at hstep
  · next hclock =>
      cases hstep
      rw [hfrom.clock, if_pos hclock]
      exact ⟨_, rfl, { hfrom with clock := rfl, now := hfrom.now.trans hclock }⟩
  · contradiction

theorem sync_begin (hfrom : PrunedFrom floor pruned plain)
    (hstep : outgoingStep pruned .begin = some next) :
    ∃ other, outgoingStep plain .begin = some other ∧ PrunedFrom floor next other := by
  simp only [outgoingStep] at hstep ⊢
  split at hstep
  · next hwriter =>
      cases hstep
      rw [hfrom.writer, if_pos hwriter, hfrom.clock]
      exact ⟨_, rfl, { hfrom with clock := rfl, writer := rfl }⟩
  · contradiction

theorem sync_commit {ts : DateTime} {write : LocalWrite} (hfrom : PrunedFrom floor pruned plain)
    (hstep : outgoingStep pruned (.commit ts write) = some next) :
    ∃ other, outgoingStep plain (.commit ts write) = some other ∧ PrunedFrom floor next other := by
  simp only [outgoingStep] at hstep ⊢
  split at hstep
  · next changedAt hwriter =>
      split at hstep
      · next db hwrite =>
          cases hstep
          obtain ⟨other, hother, hcommitted⟩ := hfrom.commit hwrite
          rw [hfrom.writer, hwriter]
          simp only [hother]
          exact ⟨_, rfl, hcommitted⟩
      · contradiction
  · contradiction

theorem sync_rollback (hfrom : PrunedFrom floor pruned plain)
    (hstep : outgoingStep pruned .rollback = some next) :
    ∃ other, outgoingStep plain .rollback = some other ∧ PrunedFrom floor next other := by
  simp only [outgoingStep] at hstep ⊢
  split at hstep
  · contradiction
  · next hwriter =>
      cases hstep
      rw [hfrom.writer, if_neg hwriter]
      exact ⟨_, rfl, { hfrom with writer := rfl }⟩

theorem sync_start (hfrom : PrunedFrom floor pruned plain)
    (hstep : outgoingStep pruned .start = some next) :
    ∃ other, outgoingStep plain .start = some other ∧ PrunedFrom floor next other := by
  simp only [outgoingStep] at hstep ⊢
  split at hstep
  · next hwriter =>
      cases hstep
      rw [hfrom.writer, if_pos hwriter]
      refine ⟨_, rfl, { hfrom with writer := rfl, cycles := ?_, watermarks := ?_ }⟩
      · simp only [List.map_append, hfrom.cycles, hfrom.lastSync, List.map_cons,
          List.map_nil, Cycle.uncounted]
      · intro watermark hmem
        rcases List.mem_cons.mp hmem with rfl | hcycles
        · exact hfrom.watermarks _ List.mem_cons_self
        · rw [List.flatMap_append] at hcycles
          rcases List.mem_append.mp hcycles with hold | hnew
          · exact hfrom.watermarks watermark (List.mem_cons_of_mem _ hold)
          · obtain rfl := List.mem_singleton.mp hnew
            exact hfrom.watermarks _ List.mem_cons_self
  · contradiction

theorem sync_stamp {position : Nat} (hfrom : PrunedFrom floor pruned plain)
    (hstep : outgoingStep pruned (.stamp position) = some next) :
    ∃ other, outgoingStep plain (.stamp position) = some other ∧ PrunedFrom floor next other := by
  simp only [outgoingStep] at hstep ⊢
  split at hstep
  · next before since hcycle =>
      cases hstep
      obtain ⟨other, hother, hcount⟩ := hfrom.cycle_found hcycle
      cases other with
      | started count instant =>
          cases hcount
          rw [hother, hfrom.clock]
          refine ⟨_, rfl, hfrom.setCycle rfl ?_⟩
          intro watermark hmem
          rcases List.mem_cons.mp hmem with rfl | hmem
          · exact hfrom.cycle_watermarks hcycle _ List.mem_cons_self
          · exact List.mem_singleton.mp hmem ▸ hfrom.now
      | _ => cases hcount
  · contradiction

theorem sync_collect {position : Nat} (hfrom : PrunedFrom floor pruned plain)
    (hstep : outgoingStep pruned (.collect position) = some next) :
    ∃ other, outgoingStep plain (.collect position) = some other ∧ PrunedFrom floor next other := by
  simp only [outgoingStep] at hstep ⊢
  split at hstep
  · next before since syncTs hcycle hwriter =>
      cases hstep
      obtain ⟨other, hother, hcount⟩ := hfrom.cycle_found hcycle
      have hheld := hfrom.cycle_watermarks hcycle
      cases other with
      | stamped count instant syncTs =>
          cases hcount
          rw [hother, hfrom.writer, hwriter,
            ← hfrom.getChangesSince (hheld since List.mem_cons_self)]
          refine ⟨_, rfl, hfrom.setCycle rfl ?_⟩
          exact fun watermark hmem => hheld watermark (List.mem_cons_of_mem _ hmem)
      | _ => cases hcount
  · contradiction

theorem sync_send {position : Nat} (hfrom : PrunedFrom floor pruned plain)
    (hstep : outgoingStep pruned (.send position) = some next) :
    ∃ other, outgoingStep plain (.send position) = some other ∧ PrunedFrom floor next other := by
  simp only [outgoingStep] at hstep ⊢
  split at hstep
  · next before syncTs batch hcycle =>
      cases hstep
      obtain ⟨other, hother, hcount⟩ := hfrom.cycle_found hcycle
      have hheld := hfrom.cycle_watermarks hcycle
      cases other with
      | collected count syncTs batch =>
          cases hcount
          have hmoved := @setCycle _ _ _ position (.sent before syncTs) (.sent count syncTs)
            hfrom rfl hheld
          rw [hother, hfrom.sent]
          exact ⟨_, rfl, { hmoved with sent := rfl }⟩
      | _ => cases hcount
  · contradiction

theorem sync_apply {position : Nat} {change : Change} (hfrom : PrunedFrom floor pruned plain)
    (hstep : outgoingStep pruned (.apply position change) = some next) :
    ∃ other, outgoingStep plain (.apply position change) = some other ∧
      PrunedFrom floor next other := by
  simp only [outgoingStep] at hstep ⊢
  split at hstep
  · next before syncTs hcycle hwriter =>
      cases hstep
      obtain ⟨other, hother, hcount⟩ := hfrom.cycle_found hcycle
      cases other with
      | sent count instant =>
          rw [hother, hfrom.writer, hwriter]
          exact ⟨_, rfl, { hfrom.apply change with writer := rfl }⟩
      | _ => cases hcount
  · contradiction

theorem sync_finish {position : Nat} (hfrom : PrunedFrom floor pruned plain)
    (hstep : outgoingStep pruned (.finish position) = some next) :
    ∃ other, outgoingStep plain (.finish position) = some other ∧ PrunedFrom floor next other := by
  simp only [outgoingStep] at hstep ⊢
  split at hstep
  · next before syncTs hcycle hwriter =>
      cases hstep
      obtain ⟨other, hother, hcount⟩ := hfrom.cycle_found hcycle
      have hheld := hfrom.cycle_watermarks hcycle
      cases other with
      | sent count instant =>
          obtain ⟨-, rfl⟩ := Cycle.sent.inj hcount
          have hmoved := @setCycle _ _ _ position (.done before) (.done count) hfrom rfl
            fun watermark hmem => absurd hmem List.not_mem_nil
          rw [hother, hfrom.writer, hwriter]
          refine ⟨_, rfl, { hmoved with db := ?_, writer := hmoved.writer, watermarks := ?_ }⟩
          · exact congrArg (fun db => Db.updateSyncTime db instant) hfrom.db
          · intro watermark hmem
            rcases List.mem_cons.mp hmem with rfl | hcycles
            · exact hheld _ List.mem_cons_self
            · exact hmoved.watermarks watermark (List.mem_cons_of_mem _ hcycles)
      | _ => cases hcount
  · contradiction

theorem sync_fail {position : Nat} (hfrom : PrunedFrom floor pruned plain)
    (hstep : outgoingStep pruned (.fail position) = some next) :
    ∃ other, outgoingStep plain (.fail position) = some other ∧ PrunedFrom floor next other := by
  simp only [outgoingStep] at hstep ⊢
  have hlength : plain.cycles.length = pruned.cycles.length := by
    have hsame := congrArg List.length hfrom.cycles
    rwa [List.length_map, List.length_map] at hsame
  split at hstep
  · next hposition =>
      cases hstep
      rw [hlength, if_pos hposition]
      exact ⟨_, rfl, hfrom.setCycle rfl fun watermark hmem => absurd hmem List.not_mem_nil⟩
  · contradiction

/-- What a pruned database does, one with all of its rows does as well. -/
theorem sync {step : OutgoingStep} (hfrom : PrunedFrom floor pruned plain)
    (hstep : outgoingStep pruned step = some next) :
    ∃ other, outgoingStep plain step = some other ∧ PrunedFrom floor next other := by
  cases step with
  | tick => exact hfrom.sync_tick hstep
  | begin => exact hfrom.sync_begin hstep
  | commit => exact hfrom.sync_commit hstep
  | rollback => exact hfrom.sync_rollback hstep
  | start => exact hfrom.sync_start hstep
  | stamp => exact hfrom.sync_stamp hstep
  | collect => exact hfrom.sync_collect hstep
  | send => exact hfrom.sync_send hstep
  | apply => exact hfrom.sync_apply hstep
  | finish => exact hfrom.sync_finish hstep
  | fail => exact hfrom.sync_fail hstep

/-- The rows from before the new floor go. -/
theorem prune {retentionDays : Nat} {now : DateTime} (hfrom : PrunedFrom floor pruned plain)
    (hrecent : Recent pruned (.prune retentionDays now))
    (hstep : pruningStep pruned (.prune retentionDays now) = some next) :
    ∃ above, PrunedFrom above next plain := by
  simp only [pruningStep] at hstep
  split at hstep
  · next hready =>
      split at hstep
      · cases hstep
        exact ⟨floor, hfrom⟩
      · next hdays =>
          cases hstep
          obtain ⟨hwatermarks, hyear, hyears⟩ := hrecent.resolve_left hdays
          have hcutoff : pruneCutoff retentionDays now ≤ now := by
            apply Int.sub_le_self
            exact Int.mul_nonneg (Int.natCast_nonneg _) (by decide)
          refine ⟨max floor (pruneCutoff retentionDays now),
            { hfrom with db := hfrom.db, rows := ?_, recent := ?_, now := ?_, watermarks := ?_ }⟩
          · exact List.filter_sublist.trans hfrom.rows
          · have hkept : ∀ row ∈ pruned.db.entityChanges,
                pruneCutoff retentionDays now ≤ row.changedAt →
                ¬ toSortableRfc3339 row.changedAt <
                  toSortableRfc3339 (pruneCutoff retentionDays now) := by
              intro row hrow hle hlt
              exact absurd ((toSortableRfc3339_lt_iff (hyears row hrow) hyear).mp hlt)
                (not_lt.mpr hle)
            have habove : ∀ row : EntityChange,
                decide (max floor (pruneCutoff retentionDays now) ≤ row.changedAt) = true →
                decide (floor ≤ row.changedAt) = true := by
              intro row hle
              exact decide_eq_true ((le_max_left _ _).trans (of_decide_eq_true hle))
            rw [filter_of_imp habove plain.db.entityChanges, ← hfrom.recent,
              ← filter_of_imp habove pruned.db.entityChanges]
            unfold Db.pruneChangeJournal
            rw [List.filter_filter]
            apply List.filter_congr
            intro row hrow
            by_cases hle : max floor (pruneCutoff retentionDays now) ≤ row.changedAt
            · simp [hle, hkept row hrow ((le_max_right _ _).trans hle)]
            · simp [hle]
          · exact max_le hfrom.now (hcutoff.trans hready.2)
          · exact fun watermark hmem =>
              max_le (hfrom.watermarks watermark hmem) (hwatermarks watermark hmem)
  · contradiction

end PrunedFrom

theorem exists_floor (instants : List DateTime) :
    ∃ floor, ∀ instant ∈ instants, floor ≤ instant := by
  induction instants with
  | nil => exact ⟨0, fun instant hmem => absurd hmem List.not_mem_nil⟩
  | cons instant instants ih =>
      obtain ⟨floor, hfloor⟩ := ih
      refine ⟨min instant floor, fun other hmem => ?_⟩
      rcases List.mem_cons.mp hmem with rfl | hrest
      · exact min_le_left _ _
      · exact (min_le_right _ _).trans (hfloor other hrest)

theorem PrunedFrom.refl (world : OutgoingWorld) : ∃ floor, PrunedFrom floor world world := by
  obtain ⟨floor, hfloor⟩ := exists_floor (world.clock :: world.watermarks)
  exact ⟨floor, rfl, rfl, rfl, rfl, rfl, List.Sublist.refl _, rfl,
    hfloor _ List.mem_cons_self,
    fun watermark hmem => hfloor watermark (List.mem_cons_of_mem _ hmem)⟩

/-- A run with prunes does what the run without them does. -/
theorem pruningRun_simulated {floor : DateTime} {pruned plain final : OutgoingWorld}
    {steps : List PruningStep} (hfrom : PrunedFrom floor pruned plain)
    (hrecent : MeetsAll pruningStep Recent pruned steps)
    (hrun : runAll pruningStep pruned steps = some final) :
    ∃ above other, runAll outgoingStep plain (syncSteps steps) = some other ∧
      PrunedFrom above final other := by
  induction steps generalizing floor pruned plain with
  | nil =>
      obtain rfl := Option.some.inj hrun
      exact ⟨floor, plain, rfl, hfrom⟩
  | cons step rest ih =>
      obtain ⟨next, hnext, hrest⟩ := (runAll_cons_eq_some pruningStep).mp hrun
      have hlater := hrecent.2 next hnext
      cases step with
      | sync step =>
          obtain ⟨other, hother, hkept⟩ := hfrom.sync hnext
          obtain ⟨above, last, hlast, hfinal⟩ := ih hkept hlater hrest
          exact ⟨above, last, (runAll_cons_eq_some outgoingStep).mpr ⟨other, hother, hlast⟩,
            hfinal⟩
      | prune retentionDays now =>
          obtain ⟨above, hkept⟩ := hfrom.prune hrecent.1 hnext
          exact ih hkept hlater hrest

/-- Syncing does not notice the prunes of a run.  Without them the same batches are sent, the
tables and the cycles end up the same, and what a cycle may yet collect is the same. -/
theorem pruningRun_unseen {world final : OutgoingWorld} {steps : List PruningStep}
    (hrecent : MeetsAll pruningStep Recent world steps)
    (hrun : runAll pruningStep world steps = some final) :
    ∃ plain, runAll outgoingStep world (syncSteps steps) = some plain ∧
      plain.sent = final.sent ∧
      plain.cycles.map Cycle.uncounted = final.cycles.map Cycle.uncounted ∧
      plain.db = final.db.withJournal plain.db.entityChanges ∧
      final.db.entityChanges.Sublist plain.db.entityChanges ∧
      ∀ since ∈ final.watermarks,
        plain.db.getChangesSince since = final.db.getChangesSince since := by
  obtain ⟨floor, hstart⟩ := PrunedFrom.refl world
  obtain ⟨above, plain, hplain, hfrom⟩ := pruningRun_simulated hstart hrecent hrun
  exact ⟨plain, hplain, hfrom.sent, hfrom.cycles, hfrom.db, hfrom.rows,
    fun since hsince => hfrom.getChangesSince (hfrom.watermarks since hsince)⟩

instance (world : OutgoingWorld) : ∀ step, Decidable (Recent world step)
  | .sync _ => inferInstanceAs (Decidable True)
  | .prune retentionDays now => inferInstanceAs (Decidable (retentionDays = 0 ∨
      (∀ watermark ∈ world.watermarks, pruneCutoff retentionDays now ≤ watermark) ∧
      FourDigitYear (pruneCutoff retentionDays now) ∧
      ∀ row ∈ world.db.entityChanges, FourDigitYear row.changedAt))

namespace JournalPruningWitness

open OutgoingSyncWitness

def cycle (position : Nat) : List PruningStep :=
  [.start, .stamp position, .collect position, .send position, .finish position].map .sync

/-- The row of a notebook is sent, and goes with the prune after a later sync. -/
def steps : List PruningStep :=
  [.sync .begin, .sync (.commit 1 (.createNotebook notebook)), .sync (.tick 2)] ++ cycle 0 ++
    [.sync (.tick (3 * nanosPerDay))] ++ cycle 1 ++ [.prune 1 (3 * nanosPerDay)]

theorem pruningRun_unseen_later :
    ∃ final, runAll pruningStep start steps = some final ∧ final.db.entityChanges = [] ∧
      ∃ plain, runAll outgoingStep start (syncSteps steps) = some plain ∧
        plain.sent = final.sent ∧
        plain.cycles.map Cycle.uncounted = final.cycles.map Cycle.uncounted ∧
        plain.db = final.db.withJournal plain.db.entityChanges ∧
        final.db.entityChanges.Sublist plain.db.entityChanges ∧
        ∀ since ∈ final.watermarks,
          plain.db.getChangesSince since = final.db.getChangesSince since := by
  have hrun : (runAll pruningStep start steps).any
      (fun final => final.db.entityChanges.isEmpty) = true := by
    decide
  obtain ⟨final, hfinal, hempty⟩ := (Option.any_eq_true _ _).mp hrun
  exact ⟨final, hfinal, List.isEmpty_iff.mp hempty, pruningRun_unseen (by decide) hfinal⟩

end JournalPruningWitness

end Keeplin
