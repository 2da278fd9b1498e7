/-
The schema of the SQLite store and its migrations.  A database file is stamped with
the version of its schema, and opening it runs the migrations it still lacks, each
in a transaction of its own.
-/
import Keeplin.SchemaShapes

namespace Keeplin

inductive TableName where
  | notes
  | notebooks
  | tags
  | noteTags
  | noteLinks
  | resources
  | syncState
  | device
  | entityChanges
deriving DecidableEq, Repr

/-- The columns the program knows, and any others a file may have. -/
inductive ColumnName where
  | id
  | title
  | body
  | notebookId
  | isTodo
  | todoDue
  | todoCompleted
  | createdAt
  | updatedAt
  | deletedAt
  | «alias»
  | bookmarks
  | links
  | vv
  | lastWriter
  | noteId
  | tagId
  | sourceNoteId
  | targetNoteId
  | mimeType
  | fileName
  | size
  | data
  | key
  | value
  | entityType
  | entityId
  | operation
  | changedAt
  | isPinned
  | isStarred
  | sortKey
  | system
  | durationMs
  | width
  | height
  | other (name : String)
deriving DecidableEq, Repr

namespace Migrations

abbrev Column := ColumnDef ColumnName

abbrev Step := SchemaStep TableName ColumnName

abbrev Database := SchemaDb TableName ColumnName

abbrev Label := SchemaLabel TableName ColumnName

inductive OpenError where
  | database (error : SqlError TableName ColumnName)
  | invalidState (message : String)
deriving DecidableEq

def SCHEMA_VERSION : Nat := 5

/-- A column that may be `NULL`. -/
def nullable (name : ColumnName) : Column := ⟨name, false, .null⟩

/-- A `NOT NULL` column without a default. -/
def required (name : ColumnName) : Column := ⟨name, true, .null⟩

/-- A `NOT NULL` column with a default. -/
def defaulted (name : ColumnName) (value : SqlValue) : Column := ⟨name, true, value⟩

def vvColumn : Column := defaulted .vv (.text "\x7b\x7d")

def lastWriterColumn : Column := defaulted .lastWriter (.text "")

def bookmarksColumn : Column := defaulted .bookmarks (.text "[]")

def linksColumn : Column := defaulted .links (.text "[]")

def createTables : List Step :=
  [.execute (.createTable .notes
      [nullable .id, required .title, defaulted .body (.text ""), nullable .notebookId,
        defaulted .isTodo (.integer 0), nullable .todoDue, nullable .todoCompleted,
        required .createdAt, required .updatedAt, nullable .deletedAt, nullable .alias,
        bookmarksColumn, linksColumn, vvColumn, lastWriterColumn]),
    .execute (.createTable .notebooks
      [nullable .id, required .title, required .createdAt, required .updatedAt,
        nullable .deletedAt, nullable .alias, vvColumn, lastWriterColumn]),
    .execute (.createTable .tags
      [nullable .id, required .title, required .createdAt, required .updatedAt,
        nullable .deletedAt, vvColumn, lastWriterColumn]),
    .execute (.createTable .noteTags
      [required .noteId, required .tagId, nullable .updatedAt, nullable .deletedAt, vvColumn,
        lastWriterColumn]),
    .execute (.createTable .noteLinks [required .sourceNoteId, required .targetNoteId]),
    .execute (.createTable .resources
      [nullable .id, required .title, required .mimeType, required .fileName, required .size,
        nullable .data, required .createdAt, nullable .deletedAt, vvColumn, lastWriterColumn]),
    .execute (.createTable .syncState [nullable .key, required .value]),
    .execute (.createTable .device [nullable .id]),
    .execute (.createTable .entityChanges
      [nullable .id, required .entityType, required .entityId, required .operation,
        required .changedAt, nullable .data])]

def createIndexes : List Step :=
  [.execute (.createIndex "idx_notes_updated_at" .notes [.updatedAt]),
    .execute (.createIndex "idx_notes_notebook_id" .notes [.notebookId]),
    .execute (.createIndex "idx_notes_is_todo" .notes [.isTodo]),
    .execute (.createIndex "idx_note_tags_note_id" .noteTags [.noteId]),
    .execute (.createIndex "idx_note_tags_tag_id" .noteTags [.tagId]),
    .execute (.createIndex "idx_resources_created_at" .resources [.createdAt]),
    .execute (.createIndex "idx_note_links_target" .noteLinks [.targetNoteId]),
    .execute (.createIndex "idx_entity_changes_changed_at" .entityChanges [.changedAt])]

def migrateV1Baseline : List Step :=
  createTables ++ createIndexes ++
    [.addColumnIfMissing .notes (nullable .alias),
      .addColumnIfMissing .notes bookmarksColumn,
      .addColumnIfMissing .notes linksColumn,
      .addColumnIfMissing .notebooks (nullable .alias)] ++
    ([.notes, .notebooks, .tags].flatMap fun table =>
      [.addColumnIfMissing table vvColumn, .addColumnIfMissing table lastWriterColumn]) ++
    [.addColumnIfMissing .noteTags (nullable .updatedAt),
      .addColumnIfMissing .noteTags (nullable .deletedAt),
      .addColumnIfMissing .noteTags vvColumn,
      .addColumnIfMissing .noteTags lastWriterColumn,
      .addColumnIfMissing .resources (nullable .deletedAt),
      .addColumnIfMissing .resources vvColumn,
      .addColumnIfMissing .resources lastWriterColumn]

/-- The id of the Inbox as it stands in the rows. -/
def inboxText : SqlValue := .text "00000000-0000-0000-0000-000000000000"

def migrateV2Ordering : List Step :=
  [.addColumnIfMissing .notes (defaulted .isPinned (.integer 0)),
    .addColumnIfMissing .notes (defaulted .isStarred (.integer 0)),
    .addColumnIfMissing .notes (defaulted .sortKey (.integer 0)),
    .execute (.fillNull .notes .notebookId inboxText),
    .execute (.createIndex "idx_notes_notebook_sort" .notes [.notebookId, .sortKey, .id])]

def migrateV3TagSystem : List Step :=
  [.addColumnIfMissing .tags (defaulted .system (.integer 0))]

def migrateV4ResourceMedia : List Step :=
  [.addColumnIfMissing .resources (nullable .durationMs),
    .addColumnIfMissing .resources (nullable .width),
    .addColumnIfMissing .resources (nullable .height)]

/-- `SYSTEM_RESOURCE_NOTE_ID` as it stands in the rows. -/
def systemNoteText : SqlValue := .text "00000000-0000-0000-0000-000000000001"

def migrateV5ResourceNoteId : List Step :=
  [.addColumnIfMissing .resources (defaulted .noteId systemNoteText),
    .execute (.createIndex "idx_resources_note" .resources [.noteId, .createdAt, .id])]

/-- The steps of a version, if there is a migration to it. -/
def applyMigration (version : Nat) : Except OpenError (List Step) :=
  match version with
  | 1 => .ok migrateV1Baseline
  | 2 => .ok migrateV2Ordering
  | 3 => .ok migrateV3TagSystem
  | 4 => .ok migrateV4ResourceMedia
  | 5 => .ok migrateV5ResourceNoteId
  | other => .error (.invalidState s!"no migration defined for schema version {other}")

open Session

/-- The steps of a migration, and the version number behind them. -/
def stamped (version : Nat) (steps : List Step) : List Step :=
  steps ++ [SchemaStep.execute (.setUserVersion version)]

def stepped (version : Nat) : Session Label Database OpenError Unit :=
  match applyMigration version with
  | .error failure => refuse failure
  | .ok steps =>
      mapError .database (inTurn ((stamped version steps).map (SchemaStep.session version)))

def steppedOn (version : Nat) (db : Database) : Except OpenError Database :=
  match applyMigration version with
  | .error failure => .error failure
  | .ok steps =>
      (inTurnOn ((stamped version steps).map SchemaStep.effect) db).mapError .database

theorem performs_stepped (version : Nat) : Performs (stepped version) (steppedOn version) := by
  unfold stepped steppedOn
  cases applyMigration version with
  | error failure => exact performs_refuse failure
  | ok steps => exact (performs_inTurn _ _ (performs_step version) _).mapError _

/-- What the file is stamped with; a negative number counts as none. -/
def schemaVersion (db : Database) : Nat :=
  db.userVersion.toNat

theorem steppedOn_ok {version : Nat} {db after : Database}
    (hafter : steppedOn version db = .ok after) :
    ∃ steps, applyMigration version = .ok steps ∧
      inTurnOn ((stamped version steps).map SchemaStep.effect) db = .ok after := by
  unfold steppedOn at hafter
  cases hsteps : applyMigration version with
  | error failure =>
      rw [hsteps] at hafter
      contradiction
  | ok steps =>
      simp only [hsteps] at hafter
      refine ⟨steps, rfl, ?_⟩
      cases hrun : inTurnOn ((stamped version steps).map SchemaStep.effect) db with
      | error failure =>
          rw [hrun] at hafter
          contradiction
      | ok found =>
          rw [hrun] at hafter
          exact congrArg _ (Except.ok.inj hafter)

theorem schemaVersion_stepped {version : Nat} {db after : Database}
    (hafter : steppedOn version db = .ok after) : schemaVersion after = version := by
  obtain ⟨steps, _, hrun⟩ := steppedOn_ok hafter
  rw [stamped, List.map_append, inTurnOn_append] at hrun
  cases hbefore : inTurnOn (steps.map SchemaStep.effect) db with
  | error failure =>
      rw [hbefore] at hrun
      contradiction
  | ok between =>
      rw [hbefore] at hrun
      rw [← Except.ok.inj hrun]
      exact Int.toNat_natCast version

def schemaUpgrade : Upgrade Label Database OpenError where
  versionOf := schemaVersion
  newest := SCHEMA_VERSION
  beginning := .begin
  ending := .commit
  undoing := .rollback
  failure := .database .io
  program := stepped
  effect := steppedOn
  performs := performs_stepped
  version_effect _ _ _ hafter := schemaVersion_stepped hafter

def newerSchema (current : Nat) : OpenError :=
  .invalidState (s!"database schema version {current} is newer than this build supports " ++
    s!"(max {SCHEMA_VERSION}); upgrade keeplin to open it")

def runMigrations : Session Label Database OpenError Unit := do
  let current ← query .readVersion (.database .io) schemaVersion
  if SCHEMA_VERSION < current then refuse (newerSchema current)
  else schemaUpgrade.perform (List.range' (current + 1) (SCHEMA_VERSION - current))

/-- An attempt to open the file: how it ends, and what the file holds then.  A crash
leaves what the failure of the next statement leaves. -/
def opened (outcomes : Label → Outcome) (db : Database) : Except OpenError Unit × Database :=
  let ended := runMigrations.run outcomes (.idle db)
  (ended.1, ended.2.saved)

end Migrations

end Keeplin
