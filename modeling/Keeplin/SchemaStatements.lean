/-
Statements that change the tables of a database: they create tables and indexes,
add columns and fill in missing values.  What a list of them needs of the tables can
be checked without the rows, and what it makes of a row is told value by value.
-/
import Keeplin.Upgrades
import Mathlib.Data.List.Nodup
import Mathlib.Logic.Function.Basic

namespace Keeplin

inductive SqlValue where
  | null
  | integer (value : Int)
  | text (value : String)
  | blob (value : List UInt8)
deriving DecidableEq, Repr

structure ColumnDef (C : Type) where
  name : C
  notNull : Bool
  default : SqlValue
deriving DecidableEq

/-- A table: its columns, and rows with a value for each of them. -/
structure SchemaTable (C : Type) where
  columns : List C
  rows : List (List SqlValue)
  nodup : columns.Nodup
  width : ∀ row ∈ rows, row.length = columns.length

namespace SchemaTable

variable {C : Type} [DecidableEq C] (table : SchemaTable C)

/-- The value a row has in a column. -/
def cell (row : Nat) (column : C) : Option SqlValue :=
  if column ∈ table.columns then
    table.rows[row]?.bind fun values => values[table.columns.idxOf column]?
  else none

def create (columns : List C) (hnodup : columns.Nodup) : SchemaTable C :=
  ⟨columns, [], hnodup, by simp⟩

/-- Every row gets the default of the new column. -/
def addColumn (column : ColumnDef C) (hnew : column.name ∉ table.columns) : SchemaTable C where
  columns := table.columns ++ [column.name]
  rows := table.rows.map (· ++ [column.default])
  nodup := table.nodup.append (List.nodup_singleton _)
    (List.disjoint_singleton.mpr hnew)
  width row hrow := by
    obtain ⟨old, hold, rfl⟩ := List.mem_map.mp hrow
    simp [table.width old hold]

def fillNull (column : C) (value : SqlValue) : SchemaTable C where
  columns := table.columns
  rows := table.rows.map fun row =>
    row.modify (table.columns.idxOf column) fun old => if old = .null then value else old
  nodup := table.nodup
  width row hrow := by
    obtain ⟨old, hold, rfl⟩ := List.mem_map.mp hrow
    simp [table.width old hold]

theorem cell_addColumn {column : ColumnDef C} (hnew : column.name ∉ table.columns) {row : Nat}
    (hrow : row < table.rows.length) (asked : C) :
    (table.addColumn column hnew).cell row asked =
      if asked = column.name then some column.default else table.cell row asked := by
  have hwidth := table.width _ (List.getElem_mem hrow)
  have hvalues : (table.addColumn column hnew).rows[row]? =
      some (table.rows[row] ++ [column.default]) := by
    simp [addColumn, hrow]
  by_cases hasked : asked = column.name
  · subst hasked
    have hmem : column.name ∈ (table.addColumn column hnew).columns := by simp [addColumn]
    have hposition : (table.addColumn column hnew).columns.idxOf column.name =
        table.columns.length := by
      simp [addColumn, List.idxOf_append_of_notMem hnew]
    rw [cell, if_pos hmem, if_pos rfl, hvalues, Option.bind_some, hposition, ← hwidth]
    simp
  · rw [if_neg hasked, cell, cell, hvalues, Option.bind_some]
    by_cases hold : asked ∈ table.columns
    · have hmem : asked ∈ (table.addColumn column hnew).columns := by simp [addColumn, hold]
      have hposition : (table.addColumn column hnew).columns.idxOf asked =
          table.columns.idxOf asked := by
        simp [addColumn, List.idxOf_append_of_mem hold]
      have hlt : table.columns.idxOf asked < table.rows[row].length := by
        rw [hwidth]
        exact List.idxOf_lt_length_of_mem hold
      rw [if_pos hmem, if_pos hold, hposition, List.getElem?_append_left hlt,
        List.getElem?_eq_getElem hrow, Option.bind_some]
    · have hmem : asked ∉ (table.addColumn column hnew).columns := by
        simp [addColumn, hold, hasked]
      rw [if_neg hmem, if_neg hold]

theorem cell_fillNull (column : C) (value : SqlValue) (row : Nat) (asked : C) :
    (table.fillNull column value).cell row asked =
      if asked = column then
        (table.cell row asked).map fun old => if old = .null then value else old
      else table.cell row asked := by
  rw [cell, cell]
  by_cases hasked : asked ∈ table.columns
  · have hmem : asked ∈ (table.fillNull column value).columns := hasked
    rw [if_pos hmem, if_pos hasked]
    cases hvalues : table.rows[row]? with
    | none => simp [fillNull, hvalues]
    | some values =>
        by_cases heq : asked = column
        · subst heq
          simp [fillNull, hvalues]
        · have hne : table.columns.idxOf column ≠ table.columns.idxOf asked := by
            intro hsame
            exact heq (List.idxOf_inj hasked |>.mp hsame.symm)
          simp [fillNull, hvalues, heq, hne]
  · have hmem : asked ∉ (table.fillNull column value).columns := hasked
    rw [if_neg hmem, if_neg hasked]
    simp

end SchemaTable

/-- The tables and indexes of a database file, and the number it is stamped with. -/
structure SchemaDb (T : Type) (C : Type) where
  userVersion : Int
  tables : T → Option (SchemaTable C)
  indexes : List String

inductive SqlStatement (T : Type) (C : Type) where
  | createTable (name : T) (columns : List (ColumnDef C))
  | createIndex (name : String) (table : T) (columns : List C)
  | addColumn (table : T) (column : ColumnDef C)
  | fillNull (table : T) (column : C) (value : SqlValue)
  | setUserVersion (version : Nat)
deriving DecidableEq

inductive SqlError (T : Type) (C : Type) where
  | io
  | noSuchTable (table : T)
  | noSuchColumn (column : C)
  | duplicateColumn (column : C)
  | repeatedColumns
  | notNullWithoutDefault (column : C)
deriving DecidableEq

variable {T : Type} {C : Type} [DecidableEq T] [DecidableEq C]

/-- The tables after one of them has been put in place of what was there. -/
def SchemaDb.put (db : SchemaDb T C) (name : T) (table : SchemaTable C) : SchemaDb T C :=
  { db with tables := Function.update db.tables name (some table) }

omit [DecidableEq C] in
@[simp] theorem SchemaDb.put_tables_self (db : SchemaDb T C) (name : T) (table : SchemaTable C) :
    (db.put name table).tables name = some table := by
  simp [put]

omit [DecidableEq C] in
theorem SchemaDb.put_tables_of_ne (db : SchemaDb T C) {name asked : T} (table : SchemaTable C)
    (hne : asked ≠ name) : (db.put name table).tables asked = db.tables asked := by
  simp [put, hne]

/-- `CREATE … IF NOT EXISTS` leaves what there is; the other statements are errors
without their table and columns. -/
def SqlStatement.exec (statement : SqlStatement T C) (db : SchemaDb T C) :
    Except (SqlError T C) (SchemaDb T C) :=
  match statement with
  | .createTable name columns =>
      match db.tables name with
      | some _ => .ok db
      | none =>
          if hnodup : (columns.map ColumnDef.name).Nodup then
            .ok (db.put name (.create (columns.map ColumnDef.name) hnodup))
          else .error .repeatedColumns
  | .createIndex name table columns =>
      if name ∈ db.indexes then .ok db
      else
        match db.tables table with
        | none => .error (.noSuchTable table)
        | some found =>
            match columns.find? fun column => column ∉ found.columns with
            | some missing => .error (.noSuchColumn missing)
            | none => .ok { db with indexes := name :: db.indexes }
  | .addColumn table column =>
      match db.tables table with
      | none => .error (.noSuchTable table)
      | some found =>
          if hnew : column.name ∉ found.columns then
            if column.notNull ∧ column.default = .null then
              .error (.notNullWithoutDefault column.name)
            else .ok (db.put table (found.addColumn column hnew))
          else .error (.duplicateColumn column.name)
  | .fillNull table column value =>
      match db.tables table with
      | none => .error (.noSuchTable table)
      | some found =>
          if column ∈ found.columns then .ok (db.put table (found.fillNull column value))
          else .error (.noSuchColumn column)
  | .setUserVersion version => .ok { db with userVersion := version }

theorem exec_createTable (db : SchemaDb T C) (name : T) (columns : List (ColumnDef C)) :
    (SqlStatement.createTable name columns).exec db =
      match db.tables name with
      | some _ => .ok db
      | none =>
          if hnodup : (columns.map ColumnDef.name).Nodup then
            .ok (db.put name (.create (columns.map ColumnDef.name) hnodup))
          else .error .repeatedColumns := rfl

theorem exec_createIndex (db : SchemaDb T C) (name : String) (table : T) (columns : List C) :
    (SqlStatement.createIndex name table columns).exec db =
      if name ∈ db.indexes then .ok db
      else
        match db.tables table with
        | none => .error (.noSuchTable table)
        | some found =>
            match columns.find? fun column => column ∉ found.columns with
            | some missing => .error (.noSuchColumn missing)
            | none => .ok { db with indexes := name :: db.indexes } := rfl

theorem exec_addColumn (db : SchemaDb T C) (name : T) (column : ColumnDef C) :
    (SqlStatement.addColumn name column).exec db =
      match db.tables name with
      | none => .error (.noSuchTable name)
      | some found =>
          if hnew : column.name ∉ found.columns then
            if column.notNull ∧ column.default = .null then
              .error (.notNullWithoutDefault column.name)
            else .ok (db.put name (found.addColumn column hnew))
          else .error (.duplicateColumn column.name) := rfl

theorem exec_fillNull (db : SchemaDb T C) (name : T) (column : C) (value : SqlValue) :
    (SqlStatement.fillNull name column value).exec db =
      match db.tables name with
      | none => .error (.noSuchTable name)
      | some found =>
          if column ∈ found.columns then .ok (db.put name (found.fillNull column value))
          else .error (.noSuchColumn column) := rfl

/-- A step of a migration.  The error of a column that is there already is taken
for success. -/
inductive SchemaStep (T : Type) (C : Type) where
  | execute (statement : SqlStatement T C)
  | addColumnIfMissing (table : T) (column : ColumnDef C)

def SchemaStep.effect (step : SchemaStep T C) (db : SchemaDb T C) :
    Except (SqlError T C) (SchemaDb T C) :=
  match step with
  | .execute statement => statement.exec db
  | .addColumnIfMissing table column =>
      match (SqlStatement.addColumn table column).exec db with
      | .error (.duplicateColumn _) => .ok db
      | result => result

/-- What a step makes of the value that a row has in a column, if it has one. -/
def SchemaStep.cellAfter (step : SchemaStep T C) (table : T) (column : C)
    (old : Option SqlValue) : Option SqlValue :=
  match step with
  | .execute (.addColumn changed added) | .addColumnIfMissing changed added =>
      if table = changed then
        if column = added.name then old.or (some added.default) else old
      else old
  | .execute (.fillNull changed filled value) =>
      if table = changed then
        if column = filled then old.map fun stored => if stored = .null then value else stored
        else old
      else old
  | .execute _ => old

/-- The default the step gives a column where it adds it. -/
def SchemaStep.adds (step : SchemaStep T C) (table : T) (column : C) : Option SqlValue :=
  match step with
  | .execute (.addColumn changed added) | .addColumnIfMissing changed added =>
      if table = changed ∧ column = added.name then some added.default else none
  | .execute _ => none

def SchemaStep.fills (step : SchemaStep T C) (table : T) (column : C) : Bool :=
  match step with
  | .execute (.fillNull changed filled _) => table = changed ∧ column = filled
  | _ => false

theorem SchemaStep.cellAfter_of_not_fills {step : SchemaStep T C} {table : T} {column : C}
    (hfills : step.fills table column = false) (old : Option SqlValue) :
    step.cellAfter table column old = old.or (step.adds table column) := by
  cases step with
  | addColumnIfMissing changed added =>
      simp only [cellAfter, adds]
      split_ifs <;> simp_all
  | execute statement =>
      cases statement with
      | addColumn changed added =>
          simp only [cellAfter, adds]
          split_ifs <;> simp_all
      | fillNull changed filled value =>
          simp only [fills, decide_eq_false_iff_not, not_and] at hfills
          simp only [cellAfter, adds, Option.or_none]
          split_ifs with htable hcolumn
          · exact absurd hcolumn (hfills htable)
          · rfl
          · rfl
      | createTable _ _ => simp [cellAfter, adds]
      | createIndex _ _ _ => simp [cellAfter, adds]
      | setUserVersion _ => simp [cellAfter, adds]

/-- The rows of the old tables are those of the new ones, with the values that are
given for them, and a table that was not there has no rows. -/
structure Carried (values : T → C → Option SqlValue → Option SqlValue)
    (old new : SchemaDb T C) : Prop where
  kept : ∀ name table, old.tables name = some table →
    ∃ after, new.tables name = some after ∧ after.rows.length = table.rows.length ∧
      ∀ row column, row < table.rows.length →
        after.cell row column = values name column (table.cell row column)
  fresh : ∀ name after, old.tables name = none → new.tables name = some after → after.rows = []

omit [DecidableEq T] in
theorem Carried.trans {first second : T → C → Option SqlValue → Option SqlValue}
    {old middle new : SchemaDb T C} (hfirst : Carried first old middle)
    (hsecond : Carried second middle new) :
    Carried (fun name column value => second name column (first name column value)) old new where
  kept name table htable := by
    obtain ⟨between, hbetween, hlength, hcells⟩ := hfirst.kept name table htable
    obtain ⟨after, hafter, hlengthAfter, hcellsAfter⟩ := hsecond.kept name between hbetween
    refine ⟨after, hafter, hlengthAfter.trans hlength, fun row column hrow => ?_⟩
    rw [hcellsAfter row column (hlength ▸ hrow), hcells row column hrow]
  fresh name after hnone hafter := by
    cases hbetween : middle.tables name with
    | none => exact hsecond.fresh name after hbetween hafter
    | some between =>
        obtain ⟨last, hlast, hlength, _⟩ := hsecond.kept name between hbetween
        obtain rfl : last = after := Option.some.inj (hlast.symm.trans hafter)
        rw [hfirst.fresh name between hnone hbetween] at hlength
        exact List.eq_nil_of_length_eq_zero hlength

omit [DecidableEq T] in
theorem Carried.of_eq {values others : T → C → Option SqlValue → Option SqlValue}
    {old new : SchemaDb T C} (hcarried : Carried values old new)
    (heq : ∀ table column value, values table column value = others table column value) :
    Carried others old new := by
  have hsame : values = others := by
    funext table column value
    exact heq table column value
  exact hsame ▸ hcarried

omit [DecidableEq T] in
/-- The tables are the same. -/
theorem carried_of_tables {old new : SchemaDb T C} (htables : new.tables = old.tables) :
    Carried (fun _ _ value => value) old new where
  kept name table htable := ⟨table, by rw [htables, htable], rfl, fun _ _ _ => rfl⟩
  fresh name after hnone hafter := by
    rw [htables, hnone] at hafter
    contradiction

theorem carried_create (db : SchemaDb T C) {name : T} (columns : List C)
    (hnodup : columns.Nodup) (hnone : db.tables name = none) :
    Carried (fun _ _ value => value) db (db.put name (.create columns hnodup)) where
  kept asked table htable := by
    have hne : asked ≠ name := by
      rintro rfl
      rw [hnone] at htable
      contradiction
    exact ⟨table, by rw [db.put_tables_of_ne _ hne, htable], rfl, fun _ _ _ => rfl⟩
  fresh asked after hasked hafter := by
    by_cases heq : asked = name
    · subst heq
      rw [SchemaDb.put_tables_self] at hafter
      rw [← Option.some.inj hafter]
      rfl
    · rw [db.put_tables_of_ne _ heq, hasked] at hafter
      contradiction

/-- One table is changed, and its rows have the values that are given for them. -/
theorem carried_put (db : SchemaDb T C) {name : T} {table changed : SchemaTable C}
    (values : C → Option SqlValue → Option SqlValue) (htable : db.tables name = some table)
    (hlength : changed.rows.length = table.rows.length)
    (hcells : ∀ row column, row < table.rows.length →
      changed.cell row column = values column (table.cell row column)) :
    Carried (fun asked column value => if asked = name then values column value else value)
      db (db.put name changed) where
  kept asked found hfound := by
    by_cases heq : asked = name
    · subst heq
      obtain rfl : table = found := Option.some.inj (htable.symm.trans hfound)
      refine ⟨changed, db.put_tables_self _ _, hlength, fun row column hrow => ?_⟩
      rw [if_pos rfl, hcells row column hrow]
    · refine ⟨found, by rw [db.put_tables_of_ne _ heq, hfound], rfl, fun row column _ => ?_⟩
      rw [if_neg heq]
  fresh asked after hnone hafter := by
    by_cases heq : asked = name
    · subst heq
      rw [htable] at hnone
      contradiction
    · rw [db.put_tables_of_ne _ heq, hnone] at hafter
      contradiction

theorem exec_addColumn_ok {db after : SchemaDb T C} {name : T} {column : ColumnDef C}
    (hafter : (SqlStatement.addColumn name column).exec db = .ok after) :
    ∃ table, ∃ hnew : column.name ∉ table.columns, db.tables name = some table ∧
      after = db.put name (table.addColumn column hnew) := by
  simp only [exec_addColumn] at hafter
  split at hafter
  · contradiction
  · next table htable =>
      split at hafter
      · next hnew =>
          split at hafter
          · contradiction
          · exact ⟨table, hnew, htable, (Except.ok.inj hafter).symm⟩
      · contradiction

theorem exec_fillNull_ok {db after : SchemaDb T C} {name : T} {column : C} {value : SqlValue}
    (hafter : (SqlStatement.fillNull name column value).exec db = .ok after) :
    ∃ table, db.tables name = some table ∧ after = db.put name (table.fillNull column value) := by
  simp only [exec_fillNull] at hafter
  split at hafter
  · contradiction
  · next table htable =>
      split at hafter
      · exact ⟨table, htable, (Except.ok.inj hafter).symm⟩
      · contradiction

theorem exec_createTable_ok {db after : SchemaDb T C} {name : T} {columns : List (ColumnDef C)}
    (hafter : (SqlStatement.createTable name columns).exec db = .ok after) :
    after = db ∨ ∃ hnodup : (columns.map ColumnDef.name).Nodup, db.tables name = none ∧
      after = db.put name (.create (columns.map ColumnDef.name) hnodup) := by
  simp only [exec_createTable] at hafter
  split at hafter
  · exact .inl (Except.ok.inj hafter).symm
  · next hnone =>
      split at hafter
      · next hnodup => exact .inr ⟨hnodup, hnone, (Except.ok.inj hafter).symm⟩
      · contradiction

theorem exec_createIndex_tables {db after : SchemaDb T C} {name : String} {table : T}
    {columns : List C}
    (hafter : (SqlStatement.createIndex name table columns).exec db = .ok after) :
    after.tables = db.tables := by
  simp only [exec_createIndex] at hafter
  split at hafter
  · rw [← Except.ok.inj hafter]
  · split at hafter
    · contradiction
    · split at hafter
      · contradiction
      · rw [← Except.ok.inj hafter]

theorem carried_addColumn (db : SchemaDb T C) {name : T} {table : SchemaTable C}
    {column : ColumnDef C} (hnew : column.name ∉ table.columns)
    (htable : db.tables name = some table) :
    Carried (SchemaStep.addColumnIfMissing name column).cellAfter db
      (db.put name (table.addColumn column hnew)) := by
  refine carried_put db
    (fun asked value => if asked = column.name then value.or (some column.default) else value)
    htable (by simp [SchemaTable.addColumn]) fun row asked hrow => ?_
  rw [table.cell_addColumn hnew hrow]
  by_cases hasked : asked = column.name
  · have hnone : table.cell row asked = none := by
      rw [SchemaTable.cell, if_neg (hasked ▸ hnew)]
    rw [if_pos hasked, if_pos hasked, hnone]
    rfl
  · rw [if_neg hasked, if_neg hasked]

theorem carried_exec {statement : SqlStatement T C} {db after : SchemaDb T C}
    (hafter : statement.exec db = .ok after) :
    Carried (SchemaStep.execute statement).cellAfter db after := by
  cases statement with
  | createTable name columns =>
      rcases exec_createTable_ok hafter with rfl | ⟨hnodup, hnone, rfl⟩
      · exact carried_of_tables rfl
      · exact carried_create db _ hnodup hnone
  | createIndex name table columns => exact carried_of_tables (exec_createIndex_tables hafter)
  | addColumn name column =>
      obtain ⟨table, hnew, htable, rfl⟩ := exec_addColumn_ok hafter
      exact carried_addColumn db hnew htable
  | fillNull name column value =>
      obtain ⟨table, htable, rfl⟩ := exec_fillNull_ok hafter
      exact carried_put db
        (fun asked old => if asked = column then
          old.map fun stored => if stored = .null then value else stored else old)
        htable (by simp [SchemaTable.fillNull])
        fun row asked _ => table.cell_fillNull column value row asked
  | setUserVersion version => exact carried_of_tables (by rw [← Except.ok.inj hafter])

/-- A column that is there already has a value in every row. -/
theorem cell_of_mem {table : SchemaTable C} {column : C} (hmem : column ∈ table.columns)
    {row : Nat} (hrow : row < table.rows.length) : ∃ value, table.cell row column = some value := by
  have hwidth := table.width _ (List.getElem_mem hrow)
  have hlt : table.columns.idxOf column < table.rows[row].length := by
    rw [hwidth]
    exact List.idxOf_lt_length_of_mem hmem
  refine ⟨table.rows[row][table.columns.idxOf column], ?_⟩
  rw [SchemaTable.cell, if_pos hmem, List.getElem?_eq_getElem hrow, Option.bind_some,
    List.getElem?_eq_getElem hlt]

theorem carried_of_duplicate {db : SchemaDb T C} {name : T} {column : ColumnDef C} {found : C}
    (hfound : (SqlStatement.addColumn name column).exec db = .error (.duplicateColumn found)) :
    Carried (SchemaStep.addColumnIfMissing name column).cellAfter db db where
  kept asked table htable := by
    refine ⟨table, htable, rfl, fun row asked' hrow => ?_⟩
    by_cases hname : asked = name
    · subst hname
      simp only [exec_addColumn, htable] at hfound
      have hmem : column.name ∈ table.columns := by
        by_contra hnew
        rw [dif_pos hnew] at hfound
        split at hfound <;> cases hfound
      by_cases hcolumn : asked' = column.name
      · subst hcolumn
        obtain ⟨value, hvalue⟩ := cell_of_mem hmem hrow
        simp [SchemaStep.cellAfter, hvalue]
      · simp [SchemaStep.cellAfter, hcolumn]
    · simp [SchemaStep.cellAfter, hname]
  fresh asked after hnone hafter := by
    rw [hnone] at hafter
    contradiction

theorem carried_effect {step : SchemaStep T C} {db after : SchemaDb T C}
    (hafter : step.effect db = .ok after) : Carried step.cellAfter db after := by
  cases step with
  | execute statement => exact carried_exec hafter
  | addColumnIfMissing name column =>
      simp only [SchemaStep.effect] at hafter
      split at hafter
      · next hfound =>
          obtain rfl : db = after := Except.ok.inj hafter
          exact carried_of_duplicate hfound
      · obtain ⟨table, hnew, htable, rfl⟩ := exec_addColumn_ok hafter
        exact carried_addColumn db hnew htable

/-- What the steps in turn make of a value. -/
def cellAfterAll (steps : List (SchemaStep T C)) (table : T) (column : C)
    (old : Option SqlValue) : Option SqlValue :=
  steps.foldl (fun value step => step.cellAfter table column value) old

theorem cellAfterAll_append (first second : List (SchemaStep T C)) (table : T) (column : C)
    (old : Option SqlValue) :
    cellAfterAll (first ++ second) table column old =
      cellAfterAll second table column (cellAfterAll first table column old) :=
  List.foldl_append ..

/-- Where no step fills a column in, what is stored stays, and otherwise the first
that adds the column gives its default. -/
theorem cellAfterAll_of_not_fills {steps : List (SchemaStep T C)} {table : T} {column : C}
    (hfills : ∀ step ∈ steps, step.fills table column = false) (old : Option SqlValue) :
    cellAfterAll steps table column old =
      old.or (steps.findSome? fun step => step.adds table column) := by
  induction steps generalizing old with
  | nil => simp [cellAfterAll]
  | cons step rest ih =>
      have hrest := ih (fun other hother => hfills other (List.mem_cons_of_mem _ hother))
      have hstep := SchemaStep.cellAfter_of_not_fills (hfills step List.mem_cons_self) old
      rw [cellAfterAll, List.foldl_cons, hstep, ← cellAfterAll, hrest, List.findSome?_cons]
      cases hadds : step.adds table column <;> cases old <;> rfl

open Session in
theorem carried_effects {steps : List (SchemaStep T C)} {db after : SchemaDb T C}
    (hafter : inTurnOn (steps.map SchemaStep.effect) db = .ok after) :
    Carried (cellAfterAll steps) db after := by
  induction steps generalizing db with
  | nil =>
      obtain rfl : db = after := Except.ok.inj hafter
      exact carried_of_tables rfl
  | cons step rest ih =>
      cases heffect : step.effect db with
      | error failure =>
          rw [List.map_cons, inTurnOn, heffect] at hafter
          contradiction
      | ok middle =>
          rw [List.map_cons, inTurnOn, heffect] at hafter
          exact (carried_effect heffect).trans (ih hafter)

end Keeplin
