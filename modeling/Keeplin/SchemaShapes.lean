/-
What is known of the tables of a database before and after statements that change
them.  A list of statements that passes the check succeeds on every database the
shape fits, whatever its rows hold.
-/
import Keeplin.SchemaStatements

namespace Keeplin

variable {T : Type} {C : Type}

/-- Whether a table is known to be there, and columns it has if it is. -/
structure TableShape (C : Type) where
  made : Bool
  columns : List C
deriving DecidableEq

/-- The tables are at least as the shapes say. -/
structure SchemaDb.Fits (db : SchemaDb T C) (shape : T → TableShape C) : Prop where
  made : ∀ name, (shape name).made = true → ∃ table, db.tables name = some table
  columns : ∀ name table, db.tables name = some table → (shape name).columns ⊆ table.columns

theorem SchemaDb.Fits.mono {db : SchemaDb T C} {shape weaker : T → TableShape C}
    (hfits : db.Fits shape)
    (hmade : ∀ name, (weaker name).made = true → (shape name).made = true)
    (hcolumns : ∀ name, (weaker name).columns ⊆ (shape name).columns) : db.Fits weaker where
  made name hname := hfits.made name (hmade name hname)
  columns name table htable := List.Subset.trans (hcolumns name) (hfits.columns name table htable)

variable [DecidableEq T] [DecidableEq C]

/-- What is known after a step, if it is known to succeed. -/
def SchemaStep.check (step : SchemaStep T C) (shape : T → TableShape C) :
    Option (T → TableShape C) :=
  match step with
  | .execute (.createTable name columns) =>
      if (columns.map ColumnDef.name).Nodup then
        some (Function.update shape name
          ⟨true, if (shape name).made then (shape name).columns
            else (shape name).columns.filter (· ∈ columns.map ColumnDef.name)⟩)
      else none
  | .execute (.createIndex _ table columns) =>
      if (shape table).made ∧ columns ⊆ (shape table).columns then some shape else none
  | .execute (.addColumn _ _) => none
  | .execute (.fillNull table column _) =>
      if (shape table).made ∧ column ∈ (shape table).columns then some shape else none
  | .execute (.setUserVersion _) => some shape
  | .addColumnIfMissing table column =>
      if (shape table).made ∧ ¬(column.notNull ∧ column.default = .null) then
        some (Function.update shape table ⟨true, column.name :: (shape table).columns⟩)
      else none

def checkAll (steps : List (SchemaStep T C)) (shape : T → TableShape C) :
    Option (T → TableShape C) :=
  match steps with
  | [] => some shape
  | step :: rest => (step.check shape).bind (checkAll rest)

omit [DecidableEq C] in
/-- A table is put in place of what was there, and the shape tells of it. -/
theorem SchemaDb.Fits.put {db : SchemaDb T C} {shape : T → TableShape C} (hfits : db.Fits shape)
    {name : T} {table : SchemaTable C} {columns : List C} (hcolumns : columns ⊆ table.columns) :
    (db.put name table).Fits (Function.update shape name ⟨true, columns⟩) where
  made asked hasked := by
    by_cases heq : asked = name
    · exact ⟨table, by rw [heq, db.put_tables_self]⟩
    · rw [Function.update_of_ne heq] at hasked
      rw [db.put_tables_of_ne table heq]
      exact hfits.made asked hasked
  columns asked found hfound := by
    by_cases heq : asked = name
    · subst heq
      rw [db.put_tables_self] at hfound
      rw [Function.update_self, ← Option.some.inj hfound]
      exact hcolumns
    · rw [db.put_tables_of_ne table heq] at hfound
      rw [Function.update_of_ne heq]
      exact hfits.columns asked found hfound

omit [DecidableEq C] in
/-- The tables are as they were, and the shape says of one of them that it is there
with columns it was known to have. -/
theorem SchemaDb.Fits.of_there {db : SchemaDb T C} {shape : T → TableShape C}
    (hfits : db.Fits shape) {name : T} {table : SchemaTable C} {columns : List C}
    (htable : db.tables name = some table) (hcolumns : columns ⊆ table.columns) :
    db.Fits (Function.update shape name ⟨true, columns⟩) where
  made asked hasked := by
    by_cases heq : asked = name
    · exact ⟨table, heq ▸ htable⟩
    · rw [Function.update_of_ne heq] at hasked
      exact hfits.made asked hasked
  columns asked found hfound := by
    by_cases heq : asked = name
    · subst heq
      obtain rfl : table = found := Option.some.inj (htable.symm.trans hfound)
      rw [Function.update_self]
      exact hcolumns
    · rw [Function.update_of_ne heq]
      exact hfits.columns asked found hfound

section Sound

variable {db : SchemaDb T C} {shape next : T → TableShape C}

theorem createTable_fits (hfits : db.Fits shape) {name : T} {columns : List (ColumnDef C)}
    (hcheck : (SchemaStep.execute (.createTable name columns)).check shape = some next) :
    ∃ after, (SqlStatement.createTable name columns).exec db = .ok after ∧ after.Fits next := by
  simp only [SchemaStep.check, Option.ite_none_right_eq_some, Option.some.injEq] at hcheck
  obtain ⟨hnodup, rfl⟩ := hcheck
  cases htable : db.tables name with
  | some table =>
      refine ⟨db, by simp [SqlStatement.exec, htable], hfits.of_there htable ?_⟩
      have hknown := hfits.columns name table htable
      split
      · exact hknown
      · exact fun column hcolumn => hknown (List.mem_of_mem_filter hcolumn)
  | none =>
      have hmade : (shape name).made ≠ true := by
        intro hmade
        obtain ⟨table, hsome⟩ := hfits.made name hmade
        rw [htable] at hsome
        contradiction
      refine ⟨db.put name (.create _ hnodup), ?_, hfits.put ?_⟩
      · simp only [SqlStatement.exec, htable, hnodup, dite_true]
      · rw [if_neg hmade]
        intro column hcolumn
        exact of_decide_eq_true (List.mem_filter.mp hcolumn).2

theorem addColumnIfMissing_fits (hfits : db.Fits shape) {name : T} {column : ColumnDef C}
    (hcheck : (SchemaStep.addColumnIfMissing name column).check shape = some next) :
    ∃ after, (SchemaStep.addColumnIfMissing name column).effect db = .ok after ∧
      after.Fits next := by
  simp only [SchemaStep.check, Option.ite_none_right_eq_some, Option.some.injEq] at hcheck
  obtain ⟨⟨hmade, hdefault⟩, rfl⟩ := hcheck
  obtain ⟨table, htable⟩ := hfits.made name hmade
  have hknown := hfits.columns name table htable
  by_cases hnew : column.name ∉ table.columns
  · refine ⟨db.put name (table.addColumn column hnew), ?_, hfits.put ?_⟩
    · simp [SchemaStep.effect, SqlStatement.exec, htable, hnew, hdefault]
    · intro known hmem
      rcases List.mem_cons.mp hmem with rfl | hold
      · simp [SchemaTable.addColumn]
      · simp [SchemaTable.addColumn, hknown hold]
  · refine ⟨db, ?_, hfits.of_there htable ?_⟩
    · simp [SchemaStep.effect, SqlStatement.exec, htable, hnew]
    · intro known hmem
      rcases List.mem_cons.mp hmem with rfl | hold
      · exact not_not.mp hnew
      · exact hknown hold

theorem check_sound (hfits : db.Fits shape) {step : SchemaStep T C}
    (hcheck : step.check shape = some next) :
    ∃ after, step.effect db = .ok after ∧ after.Fits next := by
  cases step with
  | addColumnIfMissing name column => exact addColumnIfMissing_fits hfits hcheck
  | execute statement =>
      cases statement with
      | createTable name columns => exact createTable_fits hfits hcheck
      | createIndex name table columns =>
          simp only [SchemaStep.check, Option.ite_none_right_eq_some, Option.some.injEq] at hcheck
          obtain ⟨⟨hmade, hcolumns⟩, rfl⟩ := hcheck
          obtain ⟨found, hfound⟩ := hfits.made table hmade
          by_cases hindex : name ∈ db.indexes
          · exact ⟨db, by simp [SchemaStep.effect, SqlStatement.exec, hindex], hfits⟩
          · have hmissing : (columns.find? fun column => column ∉ found.columns) = none := by
              rw [List.find?_eq_none]
              intro column hcolumn
              simpa using hfits.columns table found hfound (hcolumns hcolumn)
            refine ⟨{ db with indexes := name :: db.indexes }, ?_, ⟨hfits.made, hfits.columns⟩⟩
            simp only [SchemaStep.effect, SqlStatement.exec, hindex, if_false, hfound, hmissing]
      | addColumn name column => simp [SchemaStep.check] at hcheck
      | fillNull name column value =>
          simp only [SchemaStep.check, Option.ite_none_right_eq_some, Option.some.injEq] at hcheck
          obtain ⟨⟨hmade, hcolumn⟩, rfl⟩ := hcheck
          obtain ⟨found, hfound⟩ := hfits.made name hmade
          have hknown := hfits.columns name found hfound
          refine ⟨db.put name (found.fillNull column value), ?_, ?_⟩
          · simp [SchemaStep.effect, SqlStatement.exec, hfound, hknown hcolumn]
          · have hput := @SchemaDb.Fits.put _ _ _ db shape hfits name
              (found.fillNull column value) (shape name).columns hknown
            refine hput.mono (fun asked hasked => ?_) fun asked => ?_
            · by_cases heq : asked = name
              · rw [heq, Function.update_self]
              · rwa [Function.update_of_ne heq]
            · by_cases heq : asked = name
              · rw [heq, Function.update_self]
                exact List.Subset.refl _
              · rw [Function.update_of_ne heq]
                exact List.Subset.refl _
      | setUserVersion version =>
          obtain rfl : shape = next := by simpa [SchemaStep.check] using hcheck
          exact ⟨{ db with userVersion := version }, rfl, ⟨hfits.made, hfits.columns⟩⟩

open Session in
theorem checkAll_sound {steps : List (SchemaStep T C)} (hfits : db.Fits shape)
    (hcheck : checkAll steps shape = some next) :
    ∃ after, inTurnOn (steps.map SchemaStep.effect) db = .ok after ∧ after.Fits next := by
  induction steps generalizing db shape with
  | nil =>
      obtain rfl : shape = next := by simpa [checkAll] using hcheck
      exact ⟨db, rfl, hfits⟩
  | cons step rest ih =>
      obtain ⟨between, hbetween, hrest⟩ := Option.bind_eq_some_iff.mp hcheck
      obtain ⟨middle, hmiddle, hfitsMiddle⟩ := check_sound hfits hbetween
      obtain ⟨after, hafter, hfitsAfter⟩ := ih hfitsMiddle hrest
      refine ⟨after, ?_, hfitsAfter⟩
      rw [List.map_cons, inTurnOn, hmiddle]
      exact hafter

end Sound

/-- Every statement of an upgrade has a label of its own. -/
inductive SchemaLabel (T : Type) (C : Type) where
  | readVersion
  | begin (version : Nat)
  | statement (version : Nat) (statement : SqlStatement T C)
  | commit (version : Nat)
  | rollback (version : Nat)
deriving DecidableEq

open Session

def SqlError.isDuplicateColumn (error : SqlError T C) : Bool :=
  match error with
  | .duplicateColumn _ => true
  | _ => false

def SqlStatement.session (version : Nat) (statement : SqlStatement T C) :
    Session (SchemaLabel T C) (SchemaDb T C) (SqlError T C) Unit :=
  Session.execute (.statement version statement) .io fun db =>
    (statement.exec db).map fun after => ((), after)

def SchemaStep.session (version : Nat) (step : SchemaStep T C) :
    Session (SchemaLabel T C) (SchemaDb T C) (SqlError T C) Unit :=
  match step with
  | .execute statement => statement.session version
  | .addColumnIfMissing table column =>
      tolerating SqlError.isDuplicateColumn
        ((SqlStatement.addColumn table column).session version)

theorem performs_step (version : Nat) (step : SchemaStep T C) :
    Performs (step.session version) step.effect := by
  cases step with
  | execute statement => exact performs_execute _ _ _
  | addColumnIfMissing table column =>
      have heffect : (SchemaStep.addColumnIfMissing table column).effect =
          toleratingOn SqlError.isDuplicateColumn (SqlStatement.addColumn table column).exec := by
        funext db
        simp only [SchemaStep.effect, toleratingOn]
        cases hexec : (SqlStatement.addColumn table column).exec db with
        | ok after => rfl
        | error failure => cases failure <;> rfl
      rw [heffect]
      exact performs_tolerating _ _ rfl

end Keeplin
