/-
Programs of statements on one connection when any number of them may fail, each
in either of the two ways a database fails a statement: with the transaction
left as it is, or rolled back.  What a program does is read off the list of
statements it executes.
-/
import Keeplin.Transactions

namespace Keeplin

universe u v

/-- How a statement ends. -/
inductive Outcome where
  | done
  | failed
  | rolledBack
deriving DecidableEq, Repr

/-- A program of statements.  The outcomes are those its statements would have
if they were executed. -/
structure Session (L : Type u) (S : Type v) (E A : Type) where
  run : (L → Outcome) → Connection S → Except E A × Connection S

namespace Session

variable {L : Type u} {S : Type v} {E A B : Type}

instance : Monad (Session L S E) where
  pure value := ⟨fun _ connection => (.ok value, connection)⟩
  bind program next := ⟨fun outcomes connection =>
    match program.run outcomes connection with
    | (.ok value, after) => (next value).run outcomes after
    | (.error failure, after) => (.error failure, after)⟩

theorem bind_of_ok {program : Session L S E A} {next : A → Session L S E B}
    {outcomes : L → Outcome} {connection after : Connection S} {value : A}
    (hrun : program.run outcomes connection = (.ok value, after)) :
    (program >>= next).run outcomes connection = (next value).run outcomes after := by
  simp only [Bind.bind, hrun]

theorem bind_of_error {program : Session L S E A} {next : A → Session L S E B}
    {outcomes : L → Outcome} {connection after : Connection S} {failure : E}
    (hrun : program.run outcomes connection = (.error failure, after)) :
    (program >>= next).run outcomes connection = (.error failure, after) := by
  simp only [Bind.bind, hrun]

/-- The program gives up although no statement of it has failed. -/
def refuse (failure : E) : Session L S E A where
  run _ connection := (.error failure, connection)

/-- A statement that is executed returns a value and changes the tables, or is
an error of its own, such as a violated constraint. -/
def execute (statement : L) (failure : E) (act : S → Except E (A × S)) :
    Session L S E A where
  run outcomes connection :=
    match outcomes statement with
    | .failed => (.error failure, connection)
    | .rolledBack => (.error failure, .idle connection.saved)
    | .done =>
        match act connection.tables with
        | .ok (value, after) => (.ok value, connection.write after)
        | .error violation => (.error violation, connection)

def query (statement : L) (failure : E) (read : S → A) : Session L S E A :=
  execute statement failure fun tables => .ok (read tables, tables)

/-- `BEGIN` is an error inside a transaction. -/
def begin (statement : L) (failure : E) : Session L S E Unit where
  run outcomes connection :=
    if connection.working.isSome then (.error failure, connection)
    else
      match outcomes statement with
      | .done => (.ok (), { connection with working := some connection.saved })
      | _ => (.error failure, connection)

/-- `COMMIT` is an error outside a transaction. -/
def commit (statement : L) (failure : E) : Session L S E Unit where
  run outcomes connection :=
    if connection.working.isNone then (.error failure, connection)
    else
      match outcomes statement with
      | .done => (.ok (), .idle connection.tables)
      | .failed => (.error failure, connection)
      | .rolledBack => (.error failure, .idle connection.saved)

/-- The error of a `ROLLBACK` is ignored. -/
def rollback (statement : L) : Session L S E Unit where
  run outcomes connection :=
    match outcomes statement with
    | .failed => (.ok (), connection)
    | _ => (.ok (), .idle connection.saved)

/-- The block and its `COMMIT`, or the `ROLLBACK` and the error of the block. -/
def guarded (ending undoing : L) (failure : E) (block : Session L S E A) :
    Session L S E A where
  run outcomes connection :=
    match block.run outcomes connection with
    | (.ok value, after) => (do commit ending failure; pure value : Session L S E A).run
        outcomes after
    | (.error reason, after) => (do rollback undoing; refuse reason : Session L S E A).run
        outcomes after

inductive Step (L : Type u) where
  | statement (statement : L)
  | refusal
deriving DecidableEq

/-- How a list of steps ends: at its first failure, if it has one. -/
def ending (outcomes : L → Outcome) : List (Step L) → Outcome
  | [] => .done
  | .refusal :: _ => .failed
  | .statement statement :: rest =>
      match outcomes statement with
      | .done => ending outcomes rest
      | outcome => outcome

/-- A connection inside a transaction. -/
def inside (saved working : S) : Connection S :=
  ⟨saved, some working⟩

@[simp] theorem tables_inside (saved working : S) :
    (inside saved working).tables = working := rfl

@[simp] theorem write_inside (saved working tables : S) :
    (inside saved working).write tables = inside saved tables := rfl

/-- Inside a transaction the program executes these steps: it returns the value
and makes the change if none of them fails, and else ends as the first that
does. -/
def Follows (program : Session L S E A) (steps : S → List (Step L)) (value : S → A)
    (effect : S → S) : Prop :=
  ∀ outcomes saved tables,
    match ending outcomes (steps tables) with
    | .done => program.run outcomes (inside saved tables) =
        (.ok (value tables), inside saved (effect tables))
    | .failed => ∃ failure part, program.run outcomes (inside saved tables) =
        (.error failure, inside saved part)
    | .rolledBack => ∃ failure, program.run outcomes (inside saved tables) =
        (.error failure, .idle saved)

theorem ending_append (outcomes : L → Outcome) (first second : List (Step L)) :
    ending outcomes (first ++ second) =
      match ending outcomes first with
      | .done => ending outcomes second
      | outcome => outcome := by
  induction first with
  | nil => rfl
  | cons step rest ih =>
      cases step with
      | refusal => rfl
      | statement statement =>
          simp only [List.cons_append, ending]
          cases outcomes statement with
          | done => exact ih
          | failed => rfl
          | rolledBack => rfl

theorem follows_pure (value : A) :
    Follows (pure value : Session L S E A) (fun _ => []) (fun _ => value) id :=
  fun _ _ _ => rfl

theorem follows_refuse (failure : E) (value : S → A) (effect : S → S) :
    Follows (refuse failure : Session L S E A) (fun _ => [.refusal]) value effect :=
  fun _ _ tables => ⟨failure, tables, rfl⟩

theorem follows_execute (statement : L) (failure : E) (act : S → A × S) :
    Follows (execute statement failure fun tables => .ok (act tables))
      (fun _ => [.statement statement]) (fun tables => (act tables).1)
      (fun tables => (act tables).2) := by
  intro outcomes saved tables
  simp only [ending, execute]
  cases outcomes statement with
  | done => rfl
  | failed => exact ⟨failure, tables, rfl⟩
  | rolledBack => exact ⟨failure, rfl⟩

theorem follows_query (statement : L) (failure : E) (read : S → A) :
    Follows (query statement failure read) (fun _ => [.statement statement]) read id :=
  follows_execute statement failure fun tables => (read tables, tables)

/-- A statement that may be refused, as a violated constraint is. -/
theorem follows_execute_or_refuse (statement : L) (failure : E)
    (act : S → Except E (A × S)) (refused : S → Bool) (value : S → A) (effect : S → S)
    (hok : ∀ tables, refused tables = false → act tables = .ok (value tables, effect tables))
    (herror : ∀ tables, refused tables = true → ∃ violation, act tables = .error violation) :
    Follows (execute statement failure act)
      (fun tables => .statement statement :: if refused tables then [.refusal] else [])
      value effect := by
  intro outcomes saved tables
  simp only [ending, execute]
  cases outcomes statement with
  | failed => exact ⟨failure, tables, rfl⟩
  | rolledBack => exact ⟨failure, rfl⟩
  | done =>
      cases hrefused : refused tables with
      | false => simp [ending, hok tables hrefused]
      | true =>
          obtain ⟨violation, hviolation⟩ := herror tables hrefused
          exact ⟨violation, tables, by simp [hviolation]⟩

theorem Follows.bind {program : Session L S E A} {next : A → Session L S E B}
    {first : S → List (Step L)} {second : A → S → List (Step L)} {value : S → A}
    {effect : S → S} {last : A → S → B} {change : A → S → S}
    (hprogram : Follows program first value effect)
    (hnext : ∀ found, Follows (next found) (second found) (last found) (change found)) :
    Follows (program >>= next)
      (fun tables => first tables ++ second (value tables) (effect tables))
      (fun tables => last (value tables) (effect tables))
      (fun tables => change (value tables) (effect tables)) := by
  intro outcomes saved tables
  have hfirst := hprogram outcomes saved tables
  simp only [ending_append]
  cases hending : ending outcomes (first tables) with
  | done =>
      simp only [hending] at hfirst
      rw [bind_of_ok hfirst]
      exact hnext (value tables) outcomes saved (effect tables)
  | failed =>
      simp only [hending] at hfirst
      obtain ⟨failure, part, hrun⟩ := hfirst
      exact ⟨failure, part, bind_of_error hrun⟩
  | rolledBack =>
      simp only [hending] at hfirst
      obtain ⟨failure, hrun⟩ := hfirst
      exact ⟨failure, bind_of_error hrun⟩

theorem Follows.of_eq {program : Session L S E A} {first second : S → List (Step L)}
    {value result : S → A} {effect change : S → S} (hprogram : Follows program first value effect)
    (hsteps : ∀ tables, first tables = second tables)
    (hvalue : ∀ tables, value tables = result tables)
    (heffect : ∀ tables, effect tables = change tables) :
    Follows program second result change := by
  have hfirst : first = second := funext hsteps
  have hresult : value = result := funext hvalue
  have hchange : effect = change := funext heffect
  rw [← hfirst, ← hresult, ← hchange]
  exact hprogram

/-- `BEGIN`, what is read before the block, and the block under its guard. -/
def byHand (beginning ending undoing : L) (failure : E) (lookup : Session L S E A)
    (block : A → Session L S E B) : Session L S E B := do
  begin beginning failure
  let found ← lookup
  guarded ending undoing failure (block found)

/-- The failures that leave the transaction open: of what is read before the
block, of a `COMMIT`, and of the `ROLLBACK` of a failed block, unless the
database has rolled back by itself. -/
def LeavesOpen (outcomes : L → Outcome) (beginning ending undoing : L)
    (looked steps : List (Step L)) : Prop :=
  outcomes beginning = .done ∧
    match Session.ending outcomes looked with
    | .failed => True
    | .rolledBack => False
    | .done =>
        match Session.ending outcomes steps with
        | .done => outcomes ending = .failed
        | .failed => outcomes undoing = .failed
        | .rolledBack => False

/-- An error leaves the tables as they were and no transaction open. -/
def Clean (result : Except E B × Connection S) (tables : S) : Prop :=
  ∀ failure, result.1 = .error failure → result.2 = .idle tables

theorem clean_ok (value : B) (after : Connection S) (tables : S) :
    Clean ((.ok value, after) : Except E B × Connection S) tables := by
  intro failure hfailure
  contradiction

theorem clean_idle (result : Except E B) (tables : S) : Clean (result, .idle tables) tables :=
  fun _ _ => rfl

theorem not_clean_inside (failure : E) (saved working tables : S) :
    ¬Clean ((.error failure, inside saved working) : Except E B × Connection S) tables := by
  intro hclean
  have hidle := hclean failure rfl
  exact Option.some_ne_none working (congrArg Connection.working hidle)

section Guarded

variable {ending undoing : L} {failure : E} {block : Session L S E B} {outcomes : L → Outcome}

/-- A block that has succeeded ends as its `COMMIT` does. -/
theorem guarded_of_ok {connection after : Connection S} {value : B}
    (hblock : block.run outcomes connection = (.ok value, after)) :
    (guarded ending undoing failure block).run outcomes connection =
      (do commit ending failure; pure value : Session L S E B).run outcomes after := by
  simp only [guarded, hblock]

theorem guarded_of_error {connection after : Connection S} {reason : E}
    (hblock : block.run outcomes connection = (.error reason, after)) :
    (guarded ending undoing failure block).run outcomes connection =
      (do rollback undoing; refuse reason : Session L S E B).run outcomes after := by
  simp only [guarded, hblock]

theorem commit_clean_iff (value : B) (saved working : S) :
    Clean ((do commit ending failure; pure value : Session L S E B).run outcomes
      (inside saved working)) saved ↔ outcomes ending ≠ .failed := by
  cases hending : outcomes ending with
  | done =>
      have hrun : (commit ending failure).run outcomes (inside saved working) =
          (.ok (), .idle working) := by
        simp [commit, inside, hending, Connection.tables]
      rw [bind_of_ok hrun]
      exact iff_of_true (clean_ok _ _ _) (by simp)
  | failed =>
      have hrun : (commit ending failure).run outcomes (inside saved working) =
          (.error failure, inside saved working) := by
        simp [commit, inside, hending]
      rw [bind_of_error hrun]
      exact iff_of_false (not_clean_inside _ _ _ _) (by simp)
  | rolledBack =>
      have hrun : (commit ending failure).run outcomes (inside saved working) =
          (.error failure, .idle saved) := by
        simp [commit, inside, hending]
      rw [bind_of_error hrun]
      exact iff_of_true (clean_idle _ _) (by simp)

theorem rollback_clean_iff (reason : E) (saved working : S) :
    Clean ((do rollback undoing; refuse reason : Session L S E B).run outcomes
      (inside saved working)) saved ↔ outcomes undoing ≠ .failed := by
  cases hundoing : outcomes undoing with
  | failed =>
      have hrun : (rollback undoing : Session L S E Unit).run outcomes (inside saved working) =
          (.ok (), inside saved working) := by
        simp [rollback, hundoing]
      rw [bind_of_ok hrun]
      exact iff_of_false (not_clean_inside _ _ _ _) (by simp)
  | done | rolledBack =>
      have hrun : (rollback undoing : Session L S E Unit).run outcomes (inside saved working) =
          (.ok (), .idle saved) := by
        simp [rollback, hundoing, inside]
      rw [bind_of_ok hrun]
      exact iff_of_true (clean_idle _ _) (by simp)

/-- A `ROLLBACK` of what the database has already rolled back changes nothing. -/
theorem rollback_idle (reason : E) (saved : S) :
    (do rollback undoing; refuse reason : Session L S E B).run outcomes (.idle saved) =
      (.error reason, .idle saved) := by
  have hrun : (rollback undoing : Session L S E Unit).run outcomes (.idle saved) =
      (.ok (), .idle saved) := by
    cases hundoing : outcomes undoing <;> simp [rollback, hundoing]
  rw [bind_of_ok hrun]
  rfl

theorem guarded_clean_iff {steps : S → List (Step L)} {value : S → B} {effect : S → S}
    (hblock : Follows block steps value effect) (saved tables : S) :
    Clean ((guarded ending undoing failure block).run outcomes (inside saved tables)) saved ↔
      ¬ match Session.ending outcomes (steps tables) with
        | .done => outcomes ending = .failed
        | .failed => outcomes undoing = .failed
        | .rolledBack => False := by
  have hrun := hblock outcomes saved tables
  cases hending : Session.ending outcomes (steps tables) with
  | done =>
      simp only [hending] at hrun
      rw [guarded_of_ok hrun]
      exact commit_clean_iff ..
  | failed =>
      simp only [hending] at hrun
      obtain ⟨reason, part, hrun⟩ := hrun
      rw [guarded_of_error hrun]
      exact rollback_clean_iff ..
  | rolledBack =>
      simp only [hending] at hrun
      obtain ⟨reason, hrun⟩ := hrun
      rw [guarded_of_error hrun, rollback_idle]
      exact iff_of_true (clean_idle _ _) (by simp)

end Guarded

section Handmade

variable {beginning ending undoing : L} {failure : E} {lookup : Session L S E A}
  {block : A → Session L S E B} {looked : S → List (Step L)} {found : S → A}
  {steps : A → S → List (Step L)} {value : A → S → B} {effect : A → S → S}

theorem begin_idle (outcomes : L → Outcome) (tables : S) :
    (begin beginning failure).run outcomes (.idle tables) =
      if outcomes beginning = .done then (.ok (), inside tables tables)
      else (.error failure, .idle tables) := by
  cases hbeginning : outcomes beginning <;>
    simp [begin, hbeginning, inside, Connection.idle]

theorem byHand_clean_iff (hlookup : Follows lookup looked found id)
    (hblock : ∀ found, Follows (block found) (steps found) (value found) (effect found))
    (outcomes : L → Outcome) (tables : S) :
    Clean ((byHand beginning ending undoing failure lookup block).run outcomes (.idle tables))
        tables ↔
      ¬LeavesOpen outcomes beginning ending undoing (looked tables)
        (steps (found tables) tables) := by
  by_cases hbeginning : outcomes beginning = .done
  · have hbegun : (begin beginning failure).run outcomes (.idle tables) =
        (.ok (), inside tables tables) := by
      rw [begin_idle, if_pos hbeginning]
    have hlooked := hlookup outcomes tables tables
    rw [byHand, bind_of_ok hbegun, LeavesOpen]
    simp only [hbeginning, true_and]
    cases hending : Session.ending outcomes (looked tables) with
    | done =>
        simp only [hending] at hlooked
        rw [bind_of_ok hlooked]
        exact guarded_clean_iff (hblock (found tables)) tables tables
    | failed =>
        simp only [hending] at hlooked
        obtain ⟨reason, part, hrun⟩ := hlooked
        rw [bind_of_error hrun]
        exact iff_of_false (not_clean_inside _ _ _ _) (by simp)
    | rolledBack =>
        simp only [hending] at hlooked
        obtain ⟨reason, hrun⟩ := hlooked
        rw [bind_of_error hrun]
        exact iff_of_true (clean_idle _ _) (by simp)
  · have hbegun : (begin beginning failure).run outcomes (.idle tables) =
        (.error failure, .idle tables) := by
      rw [begin_idle, if_neg hbeginning]
    rw [byHand, bind_of_error hbegun]
    exact iff_of_true (clean_idle _ _) (fun hopen => hbeginning hopen.1)

/-- Without a failure the block and its `COMMIT` are carried out. -/
theorem byHand_of_done (hlookup : Follows lookup looked found id)
    (hblock : ∀ found, Follows (block found) (steps found) (value found) (effect found))
    {tables : S} (hlooked : Session.ending (fun _ => .done) (looked tables) = .done)
    (hsteps : Session.ending (fun _ => .done) (steps (found tables) tables) = .done) :
    (byHand beginning ending undoing failure lookup block).run (fun _ => .done)
        (.idle tables) =
      (.ok (value (found tables) tables), .idle (effect (found tables) tables)) := by
  have hbegun : (begin beginning failure).run (fun _ => .done) (.idle tables) =
      (.ok (), inside tables tables) := rfl
  have hfound := hlookup (fun _ => .done) tables tables
  have hrun := hblock (found tables) (fun _ => .done) tables tables
  simp only [hlooked] at hfound
  simp only [hsteps] at hrun
  rw [byHand, bind_of_ok hbegun, bind_of_ok hfound, id, guarded_of_ok hrun]
  rfl

/-- Without a failure a block that gives up is rolled back. -/
theorem byHand_of_refused (hlookup : Follows lookup looked found id)
    (hblock : ∀ found, Follows (block found) (steps found) (value found) (effect found))
    {tables : S} (hlooked : Session.ending (fun _ => .done) (looked tables) = .done)
    (hsteps : Session.ending (fun _ => .done) (steps (found tables) tables) = .failed) :
    ∃ reason, (byHand beginning ending undoing failure lookup block).run (fun _ => .done)
      (.idle tables) = (.error reason, .idle tables) := by
  have hbegun : (begin beginning failure).run (fun _ => .done) (.idle tables) =
      (.ok (), inside tables tables) := rfl
  have hfound := hlookup (fun _ => .done) tables tables
  have hrun := hblock (found tables) (fun _ => .done) tables tables
  simp only [hlooked] at hfound
  simp only [hsteps] at hrun
  obtain ⟨reason, part, hrun⟩ := hrun
  refine ⟨reason, ?_⟩
  rw [byHand, bind_of_ok hbegun, bind_of_ok hfound, id, guarded_of_error hrun]
  rfl

end Handmade

/-- The program without its value. -/
def forget (program : Session L S E A) : Session L S E Unit := do
  let _ ← program
  pure ()

theorem run_forget (program : Session L S E A) (outcomes : L → Outcome)
    (connection : Connection S) :
    (forget program).run outcomes connection =
      ((program.run outcomes connection).1.map fun _ => (),
        (program.run outcomes connection).2) := by
  rcases hrun : program.run outcomes connection with ⟨result, after⟩
  cases result with
  | ok value => rw [forget, bind_of_ok hrun]; rfl
  | error failure => rw [forget, bind_of_error hrun]; rfl

theorem clean_forget (program : Session L S E A) (outcomes : L → Outcome)
    (connection : Connection S) (tables : S) :
    Clean ((forget program).run outcomes connection) tables ↔
      Clean (program.run outcomes connection) tables := by
  rw [run_forget, Clean, Clean]
  cases (program.run outcomes connection).1 <;> simp [Except.map]

end Session

end Keeplin
