/-
What the migrations make of a database.  Attempts that were stopped anywhere leave
nothing that the next one could tell, and a database of any earlier version comes
out with every column the store reads and with the values it had.
-/
import Keeplin.Migrations

namespace Keeplin

namespace Migrations

open Session

/-- What the file holds after attempts to open it. -/
def attempted (attempts : List (Label → Outcome)) (db : Database) : Database :=
  attempts.foldl (fun stored outcomes => (opened outcomes stored).2) db

theorem opened_newer {db : Database} (hnewer : SCHEMA_VERSION < schemaVersion db)
    (outcomes : Label → Outcome) :
    opened outcomes db =
      (.error (if outcomes .readVersion = .done then newerSchema (schemaVersion db)
        else .database .io), db) := by
  cases hread : outcomes .readVersion with
  | failed | rolledBack =>
      have hquery : (query .readVersion (.database .io) schemaVersion :
          Session Label Database OpenError Nat).run outcomes (.idle db) =
            (.error (.database .io), .idle db) := by
        simp [query, execute, hread]
      simp only [opened, runMigrations, bind_of_error hquery]
      rfl
  | done =>
      have hquery : (query .readVersion (.database .io) schemaVersion :
          Session Label Database OpenError Nat).run outcomes (.idle db) =
            (.ok (schemaVersion db), .idle db) := by
        simp [query, execute, hread]
      simp only [opened, runMigrations, bind_of_ok hquery, if_pos hnewer]
      rfl

theorem opened_calm {db : Database} (hversion : schemaVersion db ≤ SCHEMA_VERSION) :
    opened calm db = schemaUpgrade.advance (schemaUpgrade.pending db) db := by
  have hquery : (query .readVersion (.database .io) schemaVersion :
      Session Label Database OpenError Nat).run calm (.idle db) =
        (.ok (schemaVersion db), .idle db) := rfl
  have hrun := schemaUpgrade.perform_calm (schemaUpgrade.pending db) db
  simp only [opened, runMigrations, bind_of_ok hquery, if_neg (Nat.not_lt.mpr hversion)]
  rw [Upgrade.pending] at hrun ⊢
  exact congrArg (fun ended => (ended.1, ended.2.saved)) hrun

theorem opened_reaches {db : Database} (hversion : schemaVersion db ≤ SCHEMA_VERSION)
    (outcomes : Label → Outcome) : schemaUpgrade.Reaches db (opened outcomes db).2 := by
  cases hread : outcomes .readVersion with
  | failed | rolledBack =>
      have hquery : (query .readVersion (.database .io) schemaVersion :
          Session Label Database OpenError Nat).run outcomes (.idle db) =
            (.error (.database .io), .idle db) := by
        simp [query, execute, hread]
      simp only [opened, runMigrations, bind_of_error hquery]
      exact .rest db
  | done =>
      have hquery : (query .readVersion (.database .io) schemaVersion :
          Session Label Database OpenError Nat).run outcomes (.idle db) =
            (.ok (schemaVersion db), .idle db) := by
        simp [query, execute, hread]
      simp only [opened, runMigrations, bind_of_ok hquery, if_neg (Nat.not_lt.mpr hversion)]
      exact schemaUpgrade.perform_reaches outcomes db

theorem version_of_reaches {db after : Database} (hreaches : schemaUpgrade.Reaches db after)
    (hversion : schemaVersion db ≤ SCHEMA_VERSION) :
    schemaVersion db ≤ schemaVersion after ∧ schemaVersion after ≤ SCHEMA_VERSION := by
  induction hreaches with
  | rest _ => exact ⟨le_rfl, hversion⟩
  | @step saved middle after hlt hmiddle _ ih =>
      have hnext : schemaVersion middle = schemaVersion saved + 1 := schemaVersion_stepped hmiddle
      have hlt : schemaVersion saved < SCHEMA_VERSION := hlt
      obtain ⟨hle, hbound⟩ := ih (by omega)
      exact ⟨by omega, hbound⟩

theorem attempted_reaches (attempts : List (Label → Outcome)) {db : Database}
    (hversion : schemaVersion db ≤ SCHEMA_VERSION) :
    schemaUpgrade.Reaches db (attempted attempts db) := by
  induction attempts generalizing db with
  | nil => exact .rest db
  | cons outcomes rest ih =>
      have hfirst := opened_reaches hversion outcomes
      exact hfirst.trans (ih (version_of_reaches hfirst hversion).2)

theorem attempted_newer (attempts : List (Label → Outcome)) {db : Database}
    (hnewer : SCHEMA_VERSION < schemaVersion db) : attempted attempts db = db := by
  induction attempts with
  | nil => rfl
  | cons outcomes rest ih =>
      rw [attempted, List.foldl_cons, opened_newer hnewer outcomes]
      exact ih

theorem opened_attempted (attempts : List (Label → Outcome)) (db : Database) :
    opened calm (attempted attempts db) = opened calm db := by
  by_cases hversion : schemaVersion db ≤ SCHEMA_VERSION
  · have hreaches := attempted_reaches attempts hversion
    rw [opened_calm hversion, opened_calm (version_of_reaches hreaches hversion).2]
    exact schemaUpgrade.advance_of_reaches hreaches
  · rw [attempted_newer attempts (Nat.lt_of_not_le hversion)]

/-- Whatever stopped the attempts before, the next one that nothing stops ends as the
first would have.  Until then the file is as some version between left it, and a file
of a newer program is refused and not touched at all. -/
theorem opened_after_attempts (attempts : List (Label → Outcome)) (db : Database) :
    opened calm (attempted attempts db) = opened calm db ∧
      (schemaVersion db ≤ SCHEMA_VERSION → schemaUpgrade.Reaches db (attempted attempts db)) ∧
      (SCHEMA_VERSION < schemaVersion db →
        attempted attempts db = db ∧
          opened calm db = (.error (newerSchema (schemaVersion db)), db)) := by
  refine ⟨opened_attempted attempts db, attempted_reaches attempts, fun hnewer => ?_⟩
  exact ⟨attempted_newer attempts hnewer, opened_newer hnewer calm⟩

/-- The columns of the tables before there were versions. -/
def legacyColumns (table : TableName) : List ColumnName :=
  match table with
  | .notes =>
      [.id, .title, .body, .notebookId, .isTodo, .todoDue, .todoCompleted, .createdAt,
        .updatedAt, .deletedAt]
  | .notebooks => [.id, .title, .createdAt, .updatedAt, .deletedAt]
  | .tags => [.id, .title, .createdAt, .updatedAt, .deletedAt]
  | .noteTags => [.noteId, .tagId]
  | .noteLinks => [.sourceNoteId, .targetNoteId]
  | .resources => [.id, .title, .mimeType, .fileName, .size, .data, .createdAt]
  | .syncState => [.key, .value]
  | .device => [.id]
  | .entityChanges => [.id, .entityType, .entityId, .operation, .changedAt, .data]

/-- The columns a version has brought. -/
def newColumns (version : Nat) (table : TableName) : List ColumnName :=
  match version, table with
  | 1, .notes => [.alias, .bookmarks, .links, .vv, .lastWriter]
  | 1, .notebooks => [.alias, .vv, .lastWriter]
  | 1, .tags => [.vv, .lastWriter]
  | 1, .noteTags => [.updatedAt, .deletedAt, .vv, .lastWriter]
  | 1, .resources => [.deletedAt, .vv, .lastWriter]
  | 2, .notes => [.isPinned, .isStarred, .sortKey]
  | 3, .tags => [.system]
  | 4, .resources => [.durationMs, .width, .height]
  | 5, .resources => [.noteId]
  | _, _ => []

def columnsAt (version : Nat) (table : TableName) : List ColumnName :=
  match version with
  | 0 => legacyColumns table
  | version + 1 => columnsAt version table ++ newColumns (version + 1) table

/-- A file of a version has its tables and columns; before the first version any of
the tables may be missing. -/
def shapeAt (version : Nat) (table : TableName) : TableShape ColumnName :=
  ⟨1 ≤ version, columnsAt version table⟩

/-- The columns the row layer reads of each table. -/
def rowColumns (table : TableName) : List ColumnName :=
  match table with
  | .notes =>
      [.id, .title, .body, .notebookId, .isTodo, .todoDue, .todoCompleted, .createdAt,
        .updatedAt, .deletedAt, .alias, .bookmarks, .links, .vv, .lastWriter, .isPinned,
        .isStarred, .sortKey]
  | .notebooks =>
      [.id, .title, .createdAt, .updatedAt, .deletedAt, .alias, .vv, .lastWriter]
  | .tags => [.id, .title, .createdAt, .updatedAt, .deletedAt, .vv, .lastWriter, .system]
  | .noteTags => [.noteId, .tagId, .updatedAt, .deletedAt, .vv, .lastWriter]
  | .noteLinks => [.sourceNoteId, .targetNoteId]
  | .resources =>
      [.id, .title, .mimeType, .fileName, .size, .createdAt, .deletedAt, .vv, .lastWriter,
        .durationMs, .width, .height, .noteId, .data]
  | .syncState => [.key, .value]
  | .device => [.id]
  | .entityChanges => [.id, .entityType, .entityId, .operation, .changedAt, .data]

theorem rowColumns_subset (table : TableName) :
    rowColumns table ⊆ (shapeAt SCHEMA_VERSION table).columns := by
  cases table <;> decide

def allTables : List TableName :=
  [.notes, .notebooks, .tags, .noteTags, .noteLinks, .resources, .syncState, .device,
    .entityChanges]

theorem mem_allTables (table : TableName) : table ∈ allTables := by
  cases table <;> decide

/-- The first shape tells at least what the second does. -/
def covers (shape weaker : TableName → TableShape ColumnName) : Bool :=
  allTables.all fun table =>
    (!(weaker table).made || (shape table).made) &&
      (weaker table).columns.all fun column => column ∈ (shape table).columns

theorem fits_of_covers {db : Database} {shape weaker : TableName → TableShape ColumnName}
    (hfits : db.Fits shape) (hcovers : covers shape weaker = true) : db.Fits weaker := by
  have htable : ∀ table, ((weaker table).made = true → (shape table).made = true) ∧
      ∀ column ∈ (weaker table).columns, column ∈ (shape table).columns := by
    intro table
    have hboth := List.all_eq_true.mp hcovers table (mem_allTables table)
    rw [Bool.and_eq_true, List.all_eq_true] at hboth
    refine ⟨fun hmade => ?_, fun column hcolumn => of_decide_eq_true (hboth.2 column hcolumn)⟩
    simpa [hmade] using hboth.1
  exact hfits.mono (fun table => (htable table).1) fun table => (htable table).2

/-- The migration to a version passes the check on the shape of the one before. -/
theorem migration_checks {version : Nat} (hlt : version < SCHEMA_VERSION) :
    ∃ steps next, applyMigration (version + 1) = .ok steps ∧
      checkAll (stamped (version + 1) steps) (shapeAt version) = some next ∧
      covers next (shapeAt (version + 1)) = true := by
  have hnext (steps : List Step) (hsteps : applyMigration (version + 1) = .ok steps)
      (hcheck : (checkAll (stamped (version + 1) steps) (shapeAt version)).any
        (fun next => covers next (shapeAt (version + 1))) = true) :
      ∃ steps next, applyMigration (version + 1) = .ok steps ∧
        checkAll (stamped (version + 1) steps) (shapeAt version) = some next ∧
        covers next (shapeAt (version + 1)) = true := by
    cases hsome : checkAll (stamped (version + 1) steps) (shapeAt version) with
    | none =>
        rw [hsome] at hcheck
        contradiction
    | some next =>
        rw [hsome] at hcheck
        exact ⟨steps, next, hsteps, hsome, hcheck⟩
  match version, hlt with
  | 0, _ => exact hnext migrateV1Baseline rfl (by decide)
  | 1, _ => exact hnext migrateV2Ordering rfl (by decide)
  | 2, _ => exact hnext migrateV3TagSystem rfl (by decide)
  | 3, _ => exact hnext migrateV4ResourceMedia rfl (by decide)
  | 4, _ => exact hnext migrateV5ResourceNoteId rfl (by decide)

theorem stepped_of_fits {version : Nat} (hlt : version < SCHEMA_VERSION) {db : Database}
    (hfits : db.Fits (shapeAt version)) :
    ∃ after, steppedOn (version + 1) db = .ok after ∧ after.Fits (shapeAt (version + 1)) := by
  obtain ⟨steps, next, hsteps, hcheck, hcovers⟩ := migration_checks hlt
  obtain ⟨after, hafter, hfitsAfter⟩ := checkAll_sound hfits hcheck
  refine ⟨after, ?_, fits_of_covers hfitsAfter hcovers⟩
  simp only [steppedOn, hsteps, hafter]
  rfl

/-- The steps that lead from a version to the newest. -/
def stepsFrom (version : Nat) : List Step :=
  (List.range' (version + 1) (SCHEMA_VERSION - version)).flatMap fun next =>
    match applyMigration next with
    | .ok steps => stamped next steps
    | .error _ => []

/-- The default a column gets where the migrations from a version add it. -/
def addedDefault (version : Nat) (table : TableName) (column : ColumnName) : Option SqlValue :=
  (stepsFrom version).findSome? fun step => step.adds table column

/-- What a database of a version becomes, value by value: what is stored stays, but
for the missing notebook of a note, which is the Inbox from the second version on. -/
def upgradedCell (version : Nat) (table : TableName) (column : ColumnName)
    (old : Option SqlValue) : Option SqlValue :=
  match old with
  | none => addedDefault version table column
  | some stored =>
      if version < 2 ∧ table = .notes ∧ column = .notebookId ∧ stored = .null then some inboxText
      else some stored

theorem carried_advance {versions : List Nat} {db after : Database}
    (hafter : schemaUpgrade.advance versions db = (.ok (), after)) :
    Carried (cellAfterAll (versions.flatMap fun next =>
      match applyMigration next with
      | .ok steps => stamped next steps
      | .error _ => [])) db after := by
  induction versions generalizing db with
  | nil =>
      obtain rfl : db = after := congrArg Prod.snd hafter
      exact carried_of_tables rfl
  | cons version rest ih =>
      rw [Upgrade.advance] at hafter
      split at hafter
      · next middle hmiddle =>
          obtain ⟨steps, hsteps, hrun⟩ := steppedOn_ok hmiddle
          have hfirst := carried_effects hrun
          rw [List.flatMap_cons, hsteps]
          exact (hfirst.trans (ih hafter)).of_eq fun table column old =>
            (cellAfterAll_append _ _ table column old).symm
      · have hresult := congrArg Prod.fst hafter
        contradiction

/-- The step fills in nothing but the notebooks of notes. -/
def fillsInboxOnly (step : Step) : Bool :=
  match step with
  | .execute (.fillNull table column _) => table = .notes ∧ column = .notebookId
  | _ => true

theorem stepsFrom_fillInboxOnly {version : Nat} (hversion : version ≤ SCHEMA_VERSION) :
    (stepsFrom version).all fillsInboxOnly = true := by
  match version, hversion with
  | 0, _ | 1, _ | 2, _ | 3, _ | 4, _ | 5, _ => decide

theorem not_fills_of_inboxOnly {step : Step} (hstep : fillsInboxOnly step = true)
    {table : TableName} {column : ColumnName}
    (hother : ¬(table = .notes ∧ column = .notebookId)) : step.fills table column = false := by
  match step with
  | .addColumnIfMissing _ _ => rfl
  | .execute (.createTable _ _) | .execute (.createIndex _ _ _) | .execute (.addColumn _ _) |
    .execute (.setUserVersion _) => rfl
  | .execute (.fillNull changed filled _) =>
      obtain ⟨rfl, rfl⟩ := of_decide_eq_true hstep
      exact decide_eq_false hother

theorem cellAfterAll_stepsFrom {version : Nat} (hversion : version ≤ SCHEMA_VERSION)
    (table : TableName) (column : ColumnName) (old : Option SqlValue) :
    cellAfterAll (stepsFrom version) table column old = upgradedCell version table column old := by
  by_cases hfilled : table = .notes ∧ column = .notebookId
  · obtain ⟨rfl, rfl⟩ := hfilled
    match version, hversion with
    | 0, _ | 1, _ | 2, _ | 3, _ | 4, _ | 5, _ =>
        cases old with
        | none => rfl
        | some stored => cases stored <;> rfl
  · have hfills : ∀ step ∈ stepsFrom version, step.fills table column = false := by
      intro step hstep
      exact not_fills_of_inboxOnly
        (List.all_eq_true.mp (stepsFrom_fillInboxOnly hversion) step hstep) hfilled
    rw [cellAfterAll_of_not_fills hfills]
    cases old with
    | none => rfl
    | some stored =>
        rw [upgradedCell, if_neg fun h => hfilled ⟨h.2.1, h.2.2.1⟩]
        rfl

theorem advance_of_fits {db : Database} (hversion : schemaVersion db ≤ SCHEMA_VERSION)
    (hfits : db.Fits (shapeAt (schemaVersion db))) :
    ∃ after, schemaUpgrade.advance (schemaUpgrade.pending db) db = (.ok (), after) ∧
      schemaVersion after = SCHEMA_VERSION ∧ after.Fits (shapeAt SCHEMA_VERSION) := by
  -- by the number of versions that are still to come
  suffices h : ∀ count (db : Database), SCHEMA_VERSION = schemaVersion db + count →
      db.Fits (shapeAt (schemaVersion db)) →
      ∃ after, schemaUpgrade.advance (schemaUpgrade.pending db) db = (.ok (), after) ∧
        schemaVersion after = SCHEMA_VERSION ∧ after.Fits (shapeAt SCHEMA_VERSION) from
    h _ db (Nat.add_sub_of_le hversion).symm hfits
  intro count
  induction count with
  | zero =>
      intro db hcount hfits
      have hpending : schemaUpgrade.pending db = [] := by
        have hnone : SCHEMA_VERSION - schemaVersion db = 0 := by omega
        exact congrArg (List.range' _) hnone
      rw [hpending]
      exact ⟨db, rfl, hcount.symm, by rw [hcount]; exact hfits⟩
  | succ count ih =>
      intro db hcount hfits
      have hlt : schemaVersion db < SCHEMA_VERSION := by omega
      obtain ⟨middle, hmiddle, hfitsMiddle⟩ := stepped_of_fits hlt hfits
      have hnext : schemaVersion middle = schemaVersion db + 1 := schemaVersion_stepped hmiddle
      obtain ⟨after, hafter, hlast⟩ := ih middle (by omega) (by rw [hnext]; exact hfitsMiddle)
      refine ⟨after, ?_, hlast⟩
      have heffect : schemaUpgrade.effect (schemaUpgrade.versionOf db + 1) db = .ok middle :=
        hmiddle
      rw [schemaUpgrade.pending_effect heffect] at hafter
      rw [schemaUpgrade.pending_of_lt hlt]
      simp only [Upgrade.advance, heffect]
      exact hafter

/-- Any file of an earlier version, opened after whatever attempts, has the newest
version with all the columns the store reads.  Its rows are those it had, value by
value. -/
theorem opened_upgrades {db : Database} (hversion : schemaVersion db ≤ SCHEMA_VERSION)
    (hfits : db.Fits (shapeAt (schemaVersion db))) (attempts : List (Label → Outcome)) :
    ∃ after, opened calm (attempted attempts db) = (.ok (), after) ∧
      schemaVersion after = SCHEMA_VERSION ∧
      (∀ table, ∃ found, after.tables table = some found ∧ rowColumns table ⊆ found.columns) ∧
      Carried (upgradedCell (schemaVersion db)) db after := by
  obtain ⟨after, hafter, hnewest, hfitsAfter⟩ := advance_of_fits hversion hfits
  have hopened : opened calm (attempted attempts db) = (.ok (), after) := by
    rw [opened_attempted attempts db, opened_calm hversion, hafter]
  refine ⟨after, hopened, hnewest, fun table => ?_, ?_⟩
  · obtain ⟨found, hfound⟩ := hfitsAfter.made table rfl
    exact ⟨found, hfound, fun column hcolumn =>
      hfitsAfter.columns table found hfound (rowColumns_subset table hcolumn)⟩
  · exact (carried_advance hafter).of_eq fun table column old =>
      cellAfterAll_stepsFrom hversion table column old

/-- A file from before there were versions, with the table of notes alone. -/
def legacyDb : Database where
  userVersion := 0
  tables := Function.update (fun _ => none) .notes <| some {
    columns := legacyColumns .notes
    rows := [[.text "11111111-1111-4111-8111-111111111111", .text "legacy", .text "kept", .null,
      .integer 0, .null, .null, .text "2020-01-01T00:00:00+00:00",
      .text "2020-01-01T00:00:00+00:00", .null]]
    nodup := by decide
    width := by simp [legacyColumns] }
  indexes := []

theorem legacyDb_fits : legacyDb.Fits (shapeAt (schemaVersion legacyDb)) where
  made name hname := by
    have hmade : decide (1 ≤ schemaVersion legacyDb) = true := hname
    contradiction
  columns name table htable := by
    by_cases hnotes : name = .notes
    · subst hnotes
      rw [← Option.some.inj htable]
      exact List.Subset.refl _
    · have hnone : legacyDb.tables name = none := by simp [legacyDb, hnotes]
      rw [hnone] at htable
      contradiction

/-- The commit of the third version failed once. -/
theorem opened_upgrades_legacy :
    ∃ after, opened calm (attempted
        [fun label => if label = .commit 3 then .failed else .done] legacyDb) = (.ok (), after) ∧
      schemaVersion after = SCHEMA_VERSION ∧
      (∀ table, ∃ found, after.tables table = some found ∧ rowColumns table ⊆ found.columns) ∧
      Carried (upgradedCell (schemaVersion legacyDb)) legacyDb after :=
  opened_upgrades (by decide) legacyDb_fits _

end Migrations

end Keeplin
