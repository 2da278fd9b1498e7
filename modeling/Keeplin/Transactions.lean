/-
Programs of statements on one database connection, any one of which may fail.
A statement that fails writes nothing; what the program wrote before it stays
unless a transaction takes it back.
-/
import Mathlib.Data.Set.Insert

namespace Keeplin

universe u v

/-- How a `COMMIT` that fails leaves its transaction. -/
inductive FailedCommit where
  | leavesOpen
  | rollsBack
deriving DecidableEq, Repr

/-- The statement that fails, and how the transaction ends if it is a commit. -/
structure Fault (L : Type u) where
  statement : L
  commit : FailedCommit
deriving DecidableEq

/-- The tables as they are stored, and as an open transaction has changed them. -/
structure Connection (S : Type v) where
  saved : S
  working : Option S
deriving DecidableEq

namespace Connection

variable {S : Type v} (connection : Connection S)

/-- A connection without an open transaction. -/
def idle (saved : S) : Connection S :=
  ⟨saved, none⟩

/-- What the statements of the connection read. -/
def tables : S :=
  connection.working.getD connection.saved

def write (tables : S) : Connection S :=
  match connection.working with
  | none => { connection with saved := tables }
  | some _ => { connection with working := some tables }

@[simp] theorem saved_idle (saved : S) : (idle saved).saved = saved := rfl

@[simp] theorem tables_idle (saved : S) : (idle saved).tables = saved := rfl

@[simp] theorem write_idle (saved tables : S) : (idle saved).write tables = idle tables := rfl

@[simp] theorem tables_write (tables : S) : (connection.write tables).tables = tables := by
  obtain ⟨saved, working⟩ := connection
  cases working <;> rfl

@[simp] theorem write_write (first second : S) :
    (connection.write first).write second = connection.write second := by
  obtain ⟨saved, working⟩ := connection
  cases working <;> rfl

@[simp] theorem write_tables : connection.write connection.tables = connection := by
  obtain ⟨saved, working⟩ := connection
  cases working <;> rfl

end Connection

/-- A program of statements: run with the fault there is, if any, it returns a
value or an error, and the connection it leaves. -/
structure Sql (L : Type u) (S : Type v) (A : Type) where
  run : Option (Fault L) → Connection S → Option A × Connection S

namespace Sql

variable {L : Type u} {S : Type v} {A B : Type}

instance : Monad (Sql L S) where
  pure value := ⟨fun _ connection => (some value, connection)⟩
  bind program next := ⟨fun fault connection =>
    match program.run fault connection with
    | (some value, after) => (next value).run fault after
    | (none, after) => (none, after)⟩

@[simp] theorem run_pure (value : A) (fault : Option (Fault L)) (connection : Connection S) :
    (pure value : Sql L S A).run fault connection = (some value, connection) := rfl

theorem bind_of_some {program : Sql L S A} {next : A → Sql L S B} {fault : Option (Fault L)}
    {connection after : Connection S} {value : A}
    (hrun : program.run fault connection = (some value, after)) :
    (program >>= next).run fault connection = (next value).run fault after := by
  simp only [Bind.bind, hrun]

theorem bind_of_none {program : Sql L S A} {next : A → Sql L S B} {fault : Option (Fault L)}
    {connection after : Connection S} (hrun : program.run fault connection = (none, after)) :
    (program >>= next).run fault connection = (none, after) := by
  simp only [Bind.bind, hrun]

section Statements

variable [DecidableEq L]

def hits (statement : L) (fault : Option (Fault L)) : Bool :=
  fault.any fun fault => fault.statement = statement

def query (statement : L) (read : S → A) : Sql L S A where
  run fault connection :=
    if hits statement fault then (none, connection)
    else (some (read connection.tables), connection)

/-- A writing statement, with the number of rows it reports. -/
def executeCount (statement : L) (write : S → S) (affected : S → Nat) : Sql L S Nat where
  run fault connection :=
    if hits statement fault then (none, connection)
    else (some (affected connection.tables), connection.write (write connection.tables))

def execute (statement : L) (write : S → S) : Sql L S Unit where
  run fault connection :=
    if hits statement fault then (none, connection)
    else (some (), connection.write (write connection.tables))

/-- `BEGIN` is an error inside a transaction. -/
def begin (statement : L) : Sql L S Unit where
  run fault connection :=
    if hits statement fault || connection.working.isSome then (none, connection)
    else (some (), { connection with working := some connection.saved })

def commit (statement : L) : Sql L S Unit where
  run fault connection :=
    match fault, connection.working with
    | _, none => (none, connection)
    | none, some tables => (some (), .idle tables)
    | some fault, some tables =>
        if fault.statement = statement then
          match fault.commit with
          | .leavesOpen => (none, connection)
          | .rollsBack => (none, .idle connection.saved)
        else (some (), .idle tables)

/-- The body and its `COMMIT`, or the `ROLLBACK` if the body fails.  The
`ROLLBACK` runs only after a statement has failed, so it is not the one that
fails. -/
def commitOrRollback (ending : L) (body : Sql L S Unit) : Sql L S Unit where
  run fault connection :=
    match body.run fault connection with
    | (some _, after) => (commit ending).run fault after
    | (none, after) => (none, .idle after.saved)

def transaction (beginning ending : L) (body : Sql L S Unit) : Sql L S Unit := do
  begin beginning
  commitOrRollback ending body

end Statements

/-- The fault is at one of the statements. -/
def Blames (statements : Set L) (fault : Option (Fault L)) : Prop :=
  ∃ found, fault = some found ∧ found.statement ∈ statements

/-- The program makes one change of the tables; if one of its statements fails
it may have made a part of it. -/
def Edits (statements : Set L) (program : Sql L S A) (value : S → A) (effect : S → S) : Prop :=
  ∀ fault connection,
    program.run fault connection =
      (some (value connection.tables), connection.write (effect connection.tables)) ∨
    Blames statements fault ∧
      ∃ part, program.run fault connection = (none, connection.write part)

/-- Outside a transaction the program makes the whole change of the tables or,
if one of its statements fails, none of it. -/
def Atomic (statements : Set L) (program : Sql L S Unit) (effect : S → S) (tables : S) :
    Prop :=
  ∀ fault,
    program.run fault (.idle tables) = (some (), .idle (effect tables)) ∨
    Blames statements fault ∧ program.run fault (.idle tables) = (none, .idle tables)

/-- The program has made the whole change, or a statement of it has failed and
it has made none of it. -/
def WholeOrNone (program : Sql L S Unit) (fault : Option (Fault L)) (before after : S) : Prop :=
  (program.run fault (.idle before)).2 = .idle after ∨
    fault ≠ none ∧ (program.run fault (.idle before)).2 = .idle before

variable {statements : Set L}

theorem Atomic.wholeOrNone {program : Sql L S Unit} {effect : S → S} {tables : S}
    (hatomic : Atomic statements program effect tables) (fault : Option (Fault L)) :
    WholeOrNone program fault tables (effect tables) := by
  rcases hatomic fault with hrun | ⟨⟨found, hfault, -⟩, hrun⟩
  · exact .inl (by rw [hrun])
  · exact .inr ⟨by simp [hfault], by rw [hrun]⟩

theorem edits_pure (value : A) :
    Edits statements (pure value : Sql L S A) (fun _ => value) id := by
  intro fault connection
  exact .inl (by simp)

theorem Edits.bind {program : Sql L S A} {next : A → Sql L S B} {value : S → A}
    {effect : S → S} {last : A → S → B} {change : A → S → S}
    (hprogram : Edits statements program value effect)
    (hnext : ∀ found, Edits statements (next found) (last found) (change found)) :
    Edits statements (program >>= next)
      (fun tables => last (value tables) (effect tables))
      (fun tables => change (value tables) (effect tables)) := by
  intro fault connection
  rcases hprogram fault connection with hrun | ⟨hblames, part, hrun⟩
  · rw [bind_of_some hrun]
    rcases hnext (value connection.tables) fault
        (connection.write (effect connection.tables)) with hrest | ⟨hblames, part, hrest⟩
    · exact .inl (by simpa using hrest)
    · exact .inr ⟨hblames, part, by simpa using hrest⟩
  · exact .inr ⟨hblames, part, bind_of_none hrun⟩

section Rules

variable [DecidableEq L]

theorem blames_of_hits {statement : L} (hmem : statement ∈ statements)
    {fault : Option (Fault L)} (hhits : hits statement fault = true) :
    Blames statements fault := by
  simp only [hits, Option.any_eq_true, decide_eq_true_eq] at hhits
  obtain ⟨found, hfault, hfound⟩ := hhits
  exact ⟨found, hfault, hfound ▸ hmem⟩

theorem query_run (statement : L) (read : S → A) (fault : Option (Fault L))
    (connection : Connection S) :
    (query statement read).run fault connection =
        (some (read connection.tables), connection) ∨
      hits statement fault = true ∧
        (query statement read).run fault connection = (none, connection) := by
  by_cases hhits : hits statement fault = true
  · exact .inr ⟨hhits, by simp [query, hhits]⟩
  · exact .inl (by simp [query, hhits])

theorem execute_run (statement : L) (write : S → S) (fault : Option (Fault L))
    (connection : Connection S) :
    (execute statement write).run fault connection =
        (some (), connection.write (write connection.tables)) ∨
      hits statement fault = true ∧
        (execute statement write).run fault connection = (none, connection) := by
  by_cases hhits : hits statement fault = true
  · exact .inr ⟨hhits, by simp [execute, hhits]⟩
  · exact .inl (by simp [execute, hhits])

theorem executeCount_run (statement : L) (write : S → S) (affected : S → Nat)
    (fault : Option (Fault L)) (connection : Connection S) :
    (executeCount statement write affected).run fault connection =
        (some (affected connection.tables), connection.write (write connection.tables)) ∨
      hits statement fault = true ∧
        (executeCount statement write affected).run fault connection = (none, connection) := by
  by_cases hhits : hits statement fault = true
  · exact .inr ⟨hhits, by simp [executeCount, hhits]⟩
  · exact .inl (by simp [executeCount, hhits])

theorem edits_query {statement : L} (hmem : statement ∈ statements) (read : S → A) :
    Edits statements (query statement read) read id := by
  intro fault connection
  rcases query_run statement read fault connection with hrun | ⟨hhits, hrun⟩
  · exact .inl (by simpa using hrun)
  · exact .inr ⟨blames_of_hits hmem hhits, connection.tables, by simpa using hrun⟩

theorem edits_execute {statement : L} (hmem : statement ∈ statements) (write : S → S) :
    Edits statements (execute statement write) (fun _ => ()) write := by
  intro fault connection
  rcases execute_run statement write fault connection with hrun | ⟨hhits, hrun⟩
  · exact .inl hrun
  · exact .inr ⟨blames_of_hits hmem hhits, connection.tables, by simpa using hrun⟩

theorem atomic_execute {statement : L} (hmem : statement ∈ statements) (write : S → S)
    (tables : S) : Atomic statements (execute statement write) write tables := by
  intro fault
  rcases execute_run statement write fault (.idle tables) with hrun | ⟨hhits, hrun⟩
  · exact .inl hrun
  · exact .inr ⟨blames_of_hits hmem hhits, hrun⟩

/-- A write that reports no rows has changed nothing, so the write that stands
in for it may fail. -/
theorem atomic_update_or_insert {update insert : L} (hupdate : update ∈ statements)
    (hinsert : insert ∈ statements) (write other : S → S) (affected : S → Nat) (tables : S)
    (hnone : affected tables = 0 → write tables = tables) :
    Atomic statements
      (executeCount update write affected >>= fun count =>
        if count = 0 then execute insert other else pure ())
      (fun tables => if affected tables = 0 then other tables else write tables) tables := by
  intro fault
  rcases executeCount_run update write affected fault (.idle tables) with hrun | ⟨hhits, hrun⟩
  · rw [bind_of_some hrun]
    by_cases hcount : affected tables = 0
    · have hinserted := atomic_execute hinsert other tables fault
      simpa [hcount, hnone hcount] using hinserted
    · exact .inl (by simp [hcount])
  · exact .inr ⟨blames_of_hits hupdate hhits, bind_of_none hrun⟩

/-- A program behind a check of the tables. -/
def guarded (statement : L) (read : S → Bool) (program : Sql L S Unit) : Sql L S Unit := do
  if ← query statement read then program

theorem guarded_of_holds {statement : L} {read : S → Bool} {fault : Option (Fault L)}
    (hmisses : hits statement fault = false) {connection : Connection S}
    (hread : read connection.tables = true) (program : Sql L S Unit) :
    (guarded statement read program).run fault connection = program.run fault connection := by
  have hquery : (query statement read).run fault connection = (some true, connection) := by
    simp [query, hmisses, hread]
  rw [guarded, bind_of_some hquery, if_pos rfl]

theorem guarded_of_fails {statement : L} {read : S → Bool} {fault : Option (Fault L)}
    (hmisses : hits statement fault = false) {connection : Connection S}
    (hread : read connection.tables = false) (program : Sql L S Unit) :
    (guarded statement read program).run fault connection = (some (), connection) := by
  have hquery : (query statement read).run fault connection = (some false, connection) := by
    simp [query, hmisses, hread]
  rw [guarded, bind_of_some hquery, if_neg (by simp), run_pure]

theorem wholeOrNone_guarded {statement : L} {read : S → Bool} {program : Sql L S Unit}
    {fault : Option (Fault L)} {before after : S}
    (hprogram : read before = true → WholeOrNone program fault before after) :
    WholeOrNone (guarded statement read program) fault before
      (if read before = true then after else before) := by
  by_cases hhits : hits statement fault = true
  · have hquery : (query statement read).run fault (.idle before) = (none, .idle before) := by
      simp [query, hhits]
    have hfault : fault ≠ none := by
      rintro rfl
      simp [hits] at hhits
    exact .inr ⟨hfault, by rw [guarded, bind_of_none hquery]⟩
  · have hmisses : hits statement fault = false := Bool.eq_false_iff.mpr hhits
    by_cases hread : read before = true
    · rw [if_pos hread, WholeOrNone, guarded_of_holds hmisses hread]
      exact hprogram hread
    · have hloses : read before = false := Bool.eq_false_iff.mpr hread
      rw [if_neg hread, WholeOrNone, guarded_of_fails hmisses hloses]
      exact .inl rfl

/-- A transaction is atomic, but for a commit that leaves it open. -/
theorem transaction_run {beginning ending : L} {body : Sql L S Unit} {effect : S → S}
    (hbody : Edits statements body (fun _ => ()) effect) (hbeginning : beginning ∈ statements)
    (hending : ending ∉ statements) (fault : Option (Fault L)) (tables : S) :
    (fault ≠ some ⟨ending, .leavesOpen⟩ ∧
      WholeOrNone (transaction beginning ending body) fault tables (effect tables)) ∨
    fault = some ⟨ending, .leavesOpen⟩ ∧
      (transaction beginning ending body).run fault (.idle tables) =
        (none, ⟨tables, some (effect tables)⟩) := by
  have hblamed : ∀ {fault : Option (Fault L)}, Blames statements fault →
      fault ≠ none ∧ fault ≠ some ⟨ending, .leavesOpen⟩ := by
    rintro fault ⟨found, rfl, hfound⟩
    refine ⟨by simp, ?_⟩
    intro hfault
    rw [Option.some.injEq] at hfault
    rw [hfault] at hfound
    exact hending hfound
  by_cases hhits : hits beginning fault = true
  · have hbegin : (begin beginning).run fault (Connection.idle tables) =
        (none, .idle tables) := by
      simp [begin, hhits]
    have hleft := hblamed (blames_of_hits hbeginning hhits)
    exact .inl ⟨hleft.2, .inr ⟨hleft.1, by rw [transaction, bind_of_none hbegin]⟩⟩
  · have hbegin : (begin beginning).run fault (Connection.idle tables) =
        (some (), ⟨tables, some tables⟩) := by
      simp [begin, hhits, Connection.idle]
    rw [WholeOrNone, transaction, bind_of_some hbegin]
    rcases hbody fault ⟨tables, some tables⟩ with hrun | ⟨hblames, part, hrun⟩
    · simp only [commitOrRollback, hrun, Connection.tables, Connection.write, Option.getD_some,
        commit]
      cases fault with
      | none => exact .inl (by simp)
      | some fault =>
          obtain ⟨statement, commit⟩ := fault
          by_cases hstatement : statement = ending
          · subst hstatement
            cases commit with
            | leavesOpen => exact .inr (by simp)
            | rollsBack => exact .inl (by simp)
          · exact .inl (by simp [hstatement])
    · simp only [commitOrRollback, hrun, Connection.write]
      have hleft := hblamed hblames
      exact .inl ⟨hleft.2, .inr ⟨hleft.1, trivial⟩⟩

end Rules

end Sql

end Keeplin
