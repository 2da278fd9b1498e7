/-
Upgrades of stored data by numbered steps.  Each step is a transaction of its own
that ends with the new version number, so whatever stops an upgrade leaves a
version that the next attempt goes on from.
-/
import Keeplin.GuardedTransactions

namespace Keeplin

universe u v

namespace Session

variable {L : Type u} {S : Type v} {E : Type}

/-- No statement fails. -/
def calm : L → Outcome :=
  fun _ => .done

/-- What a program does to the tables of its transaction.  Without a failure it is
the effect; a program that failed has saved nothing. -/
structure Performs (program : Session L S E Unit) (effect : S → Except E S) : Prop where
  of_ok : ∀ saved working after, effect working = .ok after →
    program.run calm (inside saved working) = (.ok (), inside saved after)
  of_error : ∀ saved working failure, effect working = .error failure →
    ∃ part, program.run calm (inside saved working) = (.error failure, inside saved part)
  sound : ∀ outcomes saved working,
    (∃ after, effect working = .ok after ∧
      program.run outcomes (inside saved working) = (.ok (), inside saved after)) ∨
    ∃ failure left, left.saved = saved ∧
      program.run outcomes (inside saved working) = (.error failure, left)

theorem performs_pure : Performs (pure () : Session L S E Unit) .ok where
  of_ok saved working after hafter := by
    cases hafter
    rfl
  of_error _ _ _ hfailure := by contradiction
  sound _ saved working := .inl ⟨working, rfl, rfl⟩

theorem performs_refuse (failure : E) :
    Performs (refuse failure : Session L S E Unit) fun _ => .error failure where
  of_ok _ _ _ hafter := by contradiction
  of_error saved working reason hreason := by
    obtain rfl : failure = reason := Except.error.inj hreason
    exact ⟨working, rfl⟩
  sound _ saved working := .inr ⟨failure, inside saved working, rfl, rfl⟩

theorem performs_execute (statement : L) (failure : E) (effect : S → Except E S) :
    Performs (execute statement failure fun tables => (effect tables).map fun after => ((), after))
      effect where
  of_ok saved working after hafter := by
    simp [execute, calm, hafter, Except.map]
  of_error saved working reason hreason := by
    exact ⟨working, by simp [execute, calm, hreason, Except.map]⟩
  sound outcomes saved working := by
    simp only [execute]
    cases outcomes statement with
    | failed => exact .inr ⟨failure, inside saved working, rfl, rfl⟩
    | rolledBack => exact .inr ⟨failure, .idle saved, rfl, rfl⟩
    | done =>
        cases heffect : effect working with
        | ok after => exact .inl ⟨after, rfl, by simp [heffect, Except.map]⟩
        | error reason =>
            exact .inr ⟨reason, inside saved working, rfl, by simp [heffect, Except.map]⟩

theorem Performs.andThen {first second : Session L S E Unit} {before after : S → Except E S}
    (hfirst : Performs first before) (hsecond : Performs second after) :
    Performs (do first; second) fun tables => before tables >>= after where
  of_ok saved working last hlast := by
    cases hbefore : before working with
    | error failure =>
        rw [hbefore] at hlast
        contradiction
    | ok middle =>
        rw [hbefore] at hlast
        exact (bind_of_ok (hfirst.of_ok saved working middle hbefore)).trans
          (hsecond.of_ok saved middle last hlast)
  of_error saved working failure hfailure := by
    cases hbefore : before working with
    | error reason =>
        rw [hbefore] at hfailure
        obtain rfl : reason = failure := Except.error.inj hfailure
        obtain ⟨part, hrun⟩ := hfirst.of_error saved working reason hbefore
        exact ⟨part, bind_of_error hrun⟩
    | ok middle =>
        rw [hbefore] at hfailure
        obtain ⟨part, hrun⟩ := hsecond.of_error saved middle failure hfailure
        exact ⟨part, (bind_of_ok (hfirst.of_ok saved working middle hbefore)).trans hrun⟩
  sound outcomes saved working := by
    rcases hfirst.sound outcomes saved working with
      ⟨middle, hmiddle, hrun⟩ | ⟨failure, left, hleft, hrun⟩
    · rw [bind_of_ok hrun, hmiddle]
      exact hsecond.sound outcomes saved middle
    · exact .inr ⟨failure, left, hleft, bind_of_error hrun⟩

/-- One program after another, up to the first that fails. -/
def inTurn (programs : List (Session L S E Unit)) : Session L S E Unit :=
  match programs with
  | [] => pure ()
  | program :: rest => do
      program
      inTurn rest

/-- One change after another, up to the first that is refused. -/
def inTurnOn (effects : List (S → Except E S)) (tables : S) : Except E S :=
  match effects with
  | [] => .ok tables
  | effect :: rest => effect tables >>= inTurnOn rest

theorem inTurnOn_append (first second : List (S → Except E S)) (tables : S) :
    inTurnOn (first ++ second) tables = inTurnOn first tables >>= inTurnOn second := by
  induction first generalizing tables with
  | nil => rfl
  | cons effect rest ih =>
      rw [List.cons_append, inTurnOn, inTurnOn]
      cases effect tables with
      | error failure => rfl
      | ok after => exact ih after

theorem performs_inTurn {A : Type} (program : A → Session L S E Unit)
    (effect : A → S → Except E S) (hprogram : ∀ item, Performs (program item) (effect item))
    (items : List A) :
    Performs (inTurn (items.map program)) (inTurnOn (items.map effect)) := by
  induction items with
  | nil => exact performs_pure
  | cons item rest ih => exact (hprogram item).andThen ih

/-- A statement whose errors of one kind are taken for success. -/
def tolerating (accepts : E → Bool) (program : Session L S E Unit) : Session L S E Unit where
  run outcomes connection :=
    match program.run outcomes connection with
    | (.ok (), after) => (.ok (), after)
    | (.error failure, after) =>
        if accepts failure then (.ok (), after) else (.error failure, after)

def toleratingOn (accepts : E → Bool) (effect : S → Except E S) (tables : S) : Except E S :=
  match effect tables with
  | .ok after => .ok after
  | .error failure => if accepts failure then .ok tables else .error failure

/-- The error of the connection itself is not one of those. -/
theorem performs_tolerating (statement : L) {failure : E} (effect : S → Except E S)
    {accepts : E → Bool} (hfailure : accepts failure = false) :
    Performs (tolerating accepts
        (execute statement failure fun tables => (effect tables).map fun after => ((), after)))
      (toleratingOn accepts effect) where
  of_ok saved working after hafter := by
    rw [toleratingOn] at hafter
    cases heffect : effect working with
    | ok found =>
        rw [heffect] at hafter
        obtain rfl : found = after := Except.ok.inj hafter
        simp [tolerating, execute, calm, heffect, Except.map]
    | error reason =>
        simp only [heffect] at hafter
        cases haccepts : accepts reason with
        | false => simp [haccepts] at hafter
        | true =>
            obtain rfl : working = after := by simpa [haccepts] using hafter
            simp [tolerating, execute, calm, heffect, haccepts, Except.map]
  of_error saved working reason hreason := by
    rw [toleratingOn] at hreason
    cases heffect : effect working with
    | ok found =>
        rw [heffect] at hreason
        contradiction
    | error found =>
        simp only [heffect] at hreason
        cases haccepts : accepts found with
        | true => simp [haccepts] at hreason
        | false =>
            obtain rfl : found = reason := by simpa [haccepts] using hreason
            exact ⟨working, by simp [tolerating, execute, calm, heffect, haccepts, Except.map]⟩
  sound outcomes saved working := by
    simp only [tolerating, toleratingOn, execute]
    cases outcomes statement with
    | failed => exact .inr ⟨failure, inside saved working, rfl, by simp [hfailure]⟩
    | rolledBack => exact .inr ⟨failure, .idle saved, rfl, by simp [hfailure, inside]⟩
    | done =>
        cases heffect : effect working with
        | ok after => exact .inl ⟨after, rfl, by simp [heffect, Except.map]⟩
        | error reason =>
            cases haccepts : accepts reason with
            | true =>
                exact .inl ⟨working, by simp [haccepts], by simp [heffect, haccepts, Except.map]⟩
            | false =>
                exact .inr ⟨reason, inside saved working, rfl,
                  by simp [heffect, haccepts, Except.map]⟩

/-- The errors of the program as those of another type. -/
def mapError {F : Type} (convert : E → F) (program : Session L S E Unit) : Session L S F Unit where
  run outcomes connection :=
    ((program.run outcomes connection).1.mapError convert, (program.run outcomes connection).2)

theorem Performs.mapError {F : Type} {program : Session L S E Unit} {effect : S → Except E S}
    (hprogram : Performs program effect) (convert : E → F) :
    Performs (mapError convert program) fun tables => (effect tables).mapError convert where
  of_ok saved working after hafter := by
    cases heffect : effect working with
    | error reason =>
        rw [heffect] at hafter
        contradiction
    | ok found =>
        rw [heffect] at hafter
        obtain rfl : found = after := Except.ok.inj hafter
        simp only [Session.mapError, hprogram.of_ok saved working found heffect]
        rfl
  of_error saved working failure hfailure := by
    cases heffect : effect working with
    | ok found =>
        rw [heffect] at hfailure
        contradiction
    | error reason =>
        rw [heffect] at hfailure
        obtain rfl : convert reason = failure := Except.error.inj hfailure
        obtain ⟨part, hrun⟩ := hprogram.of_error saved working reason heffect
        refine ⟨part, ?_⟩
        simp only [Session.mapError, hrun]
        rfl
  sound outcomes saved working := by
    rcases hprogram.sound outcomes saved working with
      ⟨after, hafter, hrun⟩ | ⟨failure, left, hleft, hrun⟩
    · refine .inl ⟨after, by rw [hafter]; rfl, ?_⟩
      simp only [Session.mapError, hrun]
      rfl
    · refine .inr ⟨convert failure, left, hleft, ?_⟩
      simp only [Session.mapError, hrun]
      rfl

/-- `BEGIN`, the step, and `COMMIT`, or `ROLLBACK` and the error of the step. -/
def transacted (beginning ending undoing : L) (failure : E) (program : Session L S E Unit) :
    Session L S E Unit := do
  begin beginning failure
  guarded ending undoing failure program

section Transacted

variable {beginning ending undoing : L} {failure : E} {program : Session L S E Unit}
  {effect : S → Except E S}

theorem transacted_of_ok (hprogram : Performs program effect) {tables after : S}
    (hafter : effect tables = .ok after) :
    (transacted beginning ending undoing failure program).run calm (.idle tables) =
      (.ok (), .idle after) := by
  have hbegun : (begin beginning failure).run calm (.idle tables) =
      (.ok (), inside tables tables) := rfl
  rw [transacted, bind_of_ok hbegun, guarded_of_ok (hprogram.of_ok tables tables after hafter)]
  rfl

theorem transacted_of_error (hprogram : Performs program effect) {tables : S} {reason : E}
    (hreason : effect tables = .error reason) :
    (transacted beginning ending undoing failure program).run calm (.idle tables) =
      (.error reason, .idle tables) := by
  have hbegun : (begin beginning failure).run calm (.idle tables) =
      (.ok (), inside tables tables) := rfl
  obtain ⟨part, hrun⟩ := hprogram.of_error tables tables reason hreason
  rw [transacted, bind_of_ok hbegun, guarded_of_error hrun]
  rfl

/-- A transaction that has ended well has made the change, and one that has not
has saved nothing. -/
theorem transacted_sound (hprogram : Performs program effect) (outcomes : L → Outcome)
    (tables : S) :
    (∃ after, effect tables = .ok after ∧
      (transacted beginning ending undoing failure program).run outcomes (.idle tables) =
        (.ok (), .idle after)) ∨
    ∃ reason left, left.saved = tables ∧
      (transacted beginning ending undoing failure program).run outcomes (.idle tables) =
        (.error reason, left) := by
  by_cases hbeginning : outcomes beginning = .done
  · have hbegun : (begin beginning failure).run outcomes (.idle tables) =
        (.ok (), inside tables tables) := by
      rw [begin_idle, if_pos hbeginning]
    rw [transacted, bind_of_ok hbegun]
    rcases hprogram.sound outcomes tables tables with
      ⟨after, hafter, hrun⟩ | ⟨reason, left, hleft, hrun⟩
    · rw [guarded_of_ok hrun]
      cases hending : outcomes ending with
      | done =>
          have hcommit : (commit ending failure).run outcomes (inside tables after) =
              (.ok (), .idle after) := by
            simp [commit, inside, hending, Connection.tables]
          exact .inl ⟨after, hafter, bind_of_ok hcommit⟩
      | failed =>
          have hcommit : (commit ending failure).run outcomes (inside tables after) =
              (.error failure, inside tables after) := by
            simp [commit, inside, hending]
          exact .inr ⟨failure, inside tables after, rfl, bind_of_error hcommit⟩
      | rolledBack =>
          have hcommit : (commit ending failure).run outcomes (inside tables after) =
              (.error failure, .idle tables) := by
            simp [commit, inside, hending]
          exact .inr ⟨failure, .idle tables, rfl, bind_of_error hcommit⟩
    · rw [guarded_of_error hrun]
      cases hundoing : outcomes undoing with
      | failed =>
          have hrollback : (rollback undoing : Session L S E Unit).run outcomes left =
              (.ok (), left) := by
            simp [rollback, hundoing]
          exact .inr ⟨reason, left, hleft, bind_of_ok hrollback⟩
      | done | rolledBack =>
          have hrollback : (rollback undoing : Session L S E Unit).run outcomes left =
              (.ok (), .idle left.saved) := by
            simp [rollback, hundoing]
          exact .inr ⟨reason, .idle left.saved, hleft, bind_of_ok hrollback⟩
  · have hbegun : (begin beginning failure).run outcomes (.idle tables) =
        (.error failure, .idle tables) := by
      rw [begin_idle, if_neg hbeginning]
    exact .inr ⟨failure, .idle tables, rfl, bind_of_error hbegun⟩

end Transacted

end Session

open Session

/-- Numbered steps, with the labels of the statements around each.  A step writes
the version that it leads to. -/
structure Upgrade (L : Type u) (S : Type v) (E : Type) where
  versionOf : S → Nat
  newest : Nat
  beginning : Nat → L
  ending : Nat → L
  undoing : Nat → L
  failure : E
  program : Nat → Session L S E Unit
  effect : Nat → S → Except E S
  performs : ∀ version, Performs (program version) (effect version)
  version_effect : ∀ version saved after, effect version saved = .ok after →
    versionOf after = version

namespace Upgrade

variable {L : Type u} {S : Type v} {E : Type} (upgrade : Upgrade L S E)

def step (version : Nat) : Session L S E Unit :=
  transacted (upgrade.beginning version) (upgrade.ending version) (upgrade.undoing version)
    upgrade.failure (upgrade.program version)

theorem step_sound (outcomes : L → Outcome) (version : Nat) (saved : S) :
    (∃ after, upgrade.effect version saved = .ok after ∧
      (upgrade.step version).run outcomes (.idle saved) = (.ok (), .idle after)) ∨
    ∃ failure left, left.saved = saved ∧
      (upgrade.step version).run outcomes (.idle saved) = (.error failure, left) :=
  transacted_sound (upgrade.performs version) outcomes saved

/-- The versions that are still to be reached. -/
def pending (saved : S) : List Nat :=
  List.range' (upgrade.versionOf saved + 1) (upgrade.newest - upgrade.versionOf saved)

/-- The steps up to the first that is refused, with what is saved then. -/
def advance (versions : List Nat) (saved : S) : Except E Unit × S :=
  match versions with
  | [] => (.ok (), saved)
  | version :: rest =>
      match upgrade.effect version saved with
      | .ok after => advance rest after
      | .error failure => (.error failure, saved)

/-- What is saved when the steps have been carried out as far as to some version. -/
inductive Reaches : S → S → Prop where
  | rest (saved : S) : Reaches saved saved
  | step {saved middle after : S} : upgrade.versionOf saved < upgrade.newest →
      upgrade.effect (upgrade.versionOf saved + 1) saved = .ok middle →
      Reaches middle after → Reaches saved after

theorem pending_of_lt {saved : S} (hlt : upgrade.versionOf saved < upgrade.newest) :
    upgrade.pending saved = (upgrade.versionOf saved + 1) ::
      List.range' (upgrade.versionOf saved + 2)
        (upgrade.newest - (upgrade.versionOf saved + 1)) := by
  have hlength : upgrade.newest - upgrade.versionOf saved =
      upgrade.newest - (upgrade.versionOf saved + 1) + 1 := by omega
  rw [pending, hlength, List.range'_succ]

theorem pending_effect {saved after : S}
    (hafter : upgrade.effect (upgrade.versionOf saved + 1) saved = .ok after) :
    upgrade.pending after = List.range' (upgrade.versionOf saved + 2)
      (upgrade.newest - (upgrade.versionOf saved + 1)) := by
  rw [pending, upgrade.version_effect _ _ _ hafter]

/-- An upgrade that goes on where another one has stopped ends as that would have. -/
theorem advance_of_reaches {saved after : S} (hreaches : upgrade.Reaches saved after) :
    upgrade.advance (upgrade.pending after) after =
      upgrade.advance (upgrade.pending saved) saved := by
  induction hreaches with
  | rest saved => rfl
  | @step saved middle after hlt hmiddle _ ih =>
      rw [ih, upgrade.pending_of_lt hlt, upgrade.pending_effect hmiddle]
      simp only [advance, hmiddle]

theorem Reaches.trans {upgrade : Upgrade L S E} {first second third : S}
    (hfirst : upgrade.Reaches first second) (hsecond : upgrade.Reaches second third) :
    upgrade.Reaches first third := by
  induction hfirst with
  | rest _ => exact hsecond
  | step hlt hmiddle _ ih => exact .step hlt hmiddle (ih hsecond)

/-- Run the steps that are pending. -/
def perform (versions : List Nat) : Session L S E Unit :=
  inTurn (versions.map upgrade.step)

theorem perform_calm (versions : List Nat) (saved : S) :
    (upgrade.perform versions).run calm (.idle saved) =
      ((upgrade.advance versions saved).1, .idle (upgrade.advance versions saved).2) := by
  induction versions generalizing saved with
  | nil => rfl
  | cons version rest ih =>
      cases heffect : upgrade.effect version saved with
      | ok after =>
          have hrun : (upgrade.step version).run calm (.idle saved) = (.ok (), .idle after) :=
            transacted_of_ok (upgrade.performs version) heffect
          rw [perform, List.map_cons, inTurn, bind_of_ok hrun]
          simp only [advance, heffect]
          exact ih after
      | error failure =>
          have hrun : (upgrade.step version).run calm (.idle saved) =
              (.error failure, .idle saved) :=
            transacted_of_error (upgrade.performs version) heffect
          rw [perform, List.map_cons, inTurn, bind_of_error hrun]
          simp only [advance, heffect]

/-- Whatever fails, what is saved is what the steps up to some version make of it. -/
theorem perform_reaches (outcomes : L → Outcome) (saved : S) :
    upgrade.Reaches saved
      ((upgrade.perform (upgrade.pending saved)).run outcomes (.idle saved)).2.saved := by
  suffices h : ∀ count saved, upgrade.newest - upgrade.versionOf saved = count →
      upgrade.Reaches saved
        ((upgrade.perform (upgrade.pending saved)).run outcomes (.idle saved)).2.saved from
    h _ saved rfl
  intro count
  induction count with
  | zero =>
      intro saved hcount
      rw [pending, hcount]
      exact .rest saved
  | succ count ih =>
      intro saved hcount
      have hlt : upgrade.versionOf saved < upgrade.newest := by omega
      rw [upgrade.pending_of_lt hlt, perform, List.map_cons, inTurn]
      rcases upgrade.step_sound outcomes (upgrade.versionOf saved + 1) saved with
        ⟨after, hafter, hrun⟩ | ⟨failure, left, hleft, hrun⟩
      · have hversion := upgrade.version_effect _ _ _ hafter
        have hrest := ih after (by omega)
        rw [upgrade.pending_effect hafter] at hrest
        rw [bind_of_ok hrun]
        exact .step hlt hafter hrest
      · rw [bind_of_error hrun, hleft]
        exact .rest saved

end Upgrade

end Keeplin
