/-
Edits and the deletion of a note.  An edit checks that the note is live and writes
it later, and the store takes a live note over a deleted one, so a delete in
between is undone.  Nothing else undoes one.
-/
import Keeplin.NoteEdits

namespace Keeplin

open StorageBackend

/-- A write of a note leaves it as live as the note written, a delete leaves it
deleted, and neither changes another. -/
structure NoteBackend.KeepsLiveness {S Clock : Type} (backend : NoteBackend S Clock)
    (valid : S → Prop) : Prop where
  note_id : ∀ {inner id note}, valid inner → backend.readNote id inner = .ok note → note.id = id
  updateNote : ∀ {inner clock note after result}, valid inner →
    backend.updateNote clock note inner = (after, result) → valid after ∧
      match result with
      | .ok _ => (∃ found, backend.readNote note.id after = .ok found ∧
          found.deletedAt = note.deletedAt) ∧ UnchangedBut backend.readNote note.id inner after
      | .error _ => Unchanged backend.readNote inner after
  deleteNote : ∀ {inner clock id after result}, valid inner →
    backend.deleteNote clock id inner = (after, result) → valid after ∧
      match result with
      | .ok () => (∀ found, backend.readNote id after = .ok found → found.deletedAt.isSome) ∧
          UnchangedBut backend.readNote id inner after
      | .error _ => Unchanged backend.readNote inner after

namespace EditState

variable {S Clock : Type} (backend : NoteBackend S Clock)

/-- A note a delete has completed on is deleted, if it was not restored since. -/
def StaysDeleted (state : EditState S) : Prop :=
  ∀ id, state.deleted id = true → ∀ found, backend.readNote id state.inner = .ok found →
    found.deletedAt.isSome = true

/-- No edit writes a live note that a delete has completed on. -/
def WritesUndeleted (state : EditState S) : NoteEditAction Clock → Prop
  | .write caller clock => ∀ edit read note stored,
      state.phases caller = .writing edit read note → note.deletedAt = none →
        (backend.updateNote clock note state.inner).2 = .ok stored →
          state.deleted note.id = false
  | _ => True

variable {backend} {valid : S → Prop} {state next : EditState S}

theorem StaysDeleted.of_unchanged {inner : S} {phases : Nat → EditPhase}
    (hsame : Unchanged backend.readNote state.inner inner) (hstays : state.StaysDeleted backend) :
    StaysDeleted backend { state with inner := inner, phases := phases } :=
  fun id hid found hfound => hstays id hid found ((hsame id).symm.trans hfound)

/-- A write of an edit keeps the deleted notes deleted exactly if its note is not
among them or is itself deleted. -/
theorem staysDeleted_write_iff {inner : S} {note : Note} {phases : Nat → EditPhase}
    (hread : ∃ found, backend.readNote note.id inner = .ok found ∧
      found.deletedAt = note.deletedAt)
    (hothers : UnchangedBut backend.readNote note.id state.inner inner)
    (hstays : state.StaysDeleted backend) :
    StaysDeleted backend { state with inner := inner, phases := phases } ↔
      (note.deletedAt = none → state.deleted note.id = false) := by
  obtain ⟨found, hfound, hsame⟩ := hread
  constructor
  · intro hafter hlive
    rw [← Bool.not_eq_true]
    intro hdeleted
    have hsome := hafter note.id hdeleted found hfound
    rw [hsame, hlive] at hsome
    contradiction
  · intro hkeeps id hid other hother
    by_cases heq : id = note.id
    · subst heq
      obtain rfl := Except.ok.inj (hfound.symm.trans hother)
      rw [hsame, Option.isSome_iff_ne_none]
      intro hlive
      have hmarked : state.deleted note.id = true := hid
      rw [hkeeps hlive] at hmarked
      contradiction
    · exact hstays id hid other ((hothers id heq).symm.trans hother)

theorem valid_step (hbackend : backend.KeepsLiveness valid) (hvalid : valid state.inner)
    {action : NoteEditAction Clock} (hstep : step backend state action = some next) :
    valid next.inner := by
  cases action with
  | check caller =>
      simp only [step] at hstep
      split at hstep
      · exact Option.some.inj hstep ▸ hvalid
      · contradiction
  | place caller resequenced =>
      simp only [step] at hstep
      split at hstep
      · exact Option.some.inj hstep ▸ hvalid
      · contradiction
  | write caller clock =>
      simp only [step] at hstep
      split at hstep
      · obtain rfl := Option.some.inj hstep
        exact (hbackend.updateNote hvalid rfl).1
      · contradiction
  | delete clock id =>
      simp only [step] at hstep
      split at hstep
      all_goals
        next hdelete =>
          obtain rfl := Option.some.inj hstep
          exact (hbackend.deleteNote hvalid hdelete).1
  | restore clock note =>
      simp only [step] at hstep
      split at hstep
      all_goals
        next hwritten =>
          obtain rfl := Option.some.inj hstep
          exact (hbackend.updateNote hvalid hwritten).1

theorem staysDeleted_step_iff (hbackend : backend.KeepsLiveness valid) (hvalid : valid state.inner)
    (hstays : state.StaysDeleted backend) {action : NoteEditAction Clock}
    (hstep : step backend state action = some next) :
    next.StaysDeleted backend ↔ state.WritesUndeleted backend action := by
  cases action with
  | check caller =>
      simp only [step] at hstep
      split at hstep
      · obtain rfl := Option.some.inj hstep
        exact iff_of_true (hstays.of_unchanged fun _ => rfl) trivial
      · contradiction
  | place caller resequenced =>
      simp only [step] at hstep
      split at hstep
      · obtain rfl := Option.some.inj hstep
        exact iff_of_true (hstays.of_unchanged fun _ => rfl) trivial
      · contradiction
  | write caller clock =>
      simp only [step] at hstep
      split at hstep
      · next edit read note hphase =>
          obtain rfl := Option.some.inj hstep
          cases hwritten : backend.updateNote clock note state.inner with
          | mk inner result =>
              obtain ⟨-, heffect⟩ := hbackend.updateNote hvalid hwritten
              cases result with
              | error failure =>
                  refine iff_of_true (hstays.of_unchanged heffect) ?_
                  intro edit' read' note' stored hphase' _ hok
                  rw [hphase] at hphase'
                  cases hphase'
                  rw [hwritten] at hok
                  contradiction
              | ok stored =>
                  refine (staysDeleted_write_iff heffect.1 heffect.2 hstays).trans ?_
                  constructor
                  · intro hkeeps edit' read' note' stored' hphase' hlive _
                    rw [hphase] at hphase'
                    cases hphase'
                    exact hkeeps hlive
                  · exact fun hkeeps hlive =>
                      hkeeps edit read note stored hphase hlive (by rw [hwritten])
      · contradiction
  | delete clock id =>
      simp only [step] at hstep
      split at hstep
      · next inner hdelete =>
          obtain rfl := Option.some.inj hstep
          obtain ⟨-, hdeleted, hothers⟩ := hbackend.deleteNote hvalid hdelete
          refine iff_of_true (fun other hother found hfound => ?_) trivial
          by_cases heq : other = id
          · subst heq
            exact hdeleted found hfound
          · simp only [Function.update_of_ne heq] at hother
            exact hstays other hother found ((hothers other heq).symm.trans hfound)
      · next inner failure hdelete =>
          obtain rfl := Option.some.inj hstep
          obtain ⟨-, hsame⟩ := hbackend.deleteNote hvalid hdelete
          exact iff_of_true (hstays.of_unchanged hsame) trivial
  | restore clock note =>
      simp only [step] at hstep
      split at hstep
      · next inner stored hwritten =>
          obtain rfl := Option.some.inj hstep
          obtain ⟨-, -, hothers⟩ := hbackend.updateNote hvalid hwritten
          refine iff_of_true (fun other hother found hfound => ?_) trivial
          by_cases heq : other = note.id
          · subst heq
            simp at hother
          · simp only [Function.update_of_ne heq] at hother
            exact hstays other hother found ((hothers other heq).symm.trans hfound)
      · next inner failure hwritten =>
          obtain rfl := Option.some.inj hstep
          obtain ⟨-, hsame⟩ := hbackend.updateNote hvalid hwritten
          exact iff_of_true (hstays.of_unchanged hsame) trivial

/-- In a run of edits, deletes and restores every deleted note stays deleted until it
is restored exactly if no edit writes a live note over a completed delete. -/
theorem run_staysDeleted_iff (backend : NoteBackend S Clock)
    (hbackend : backend.KeepsLiveness valid) (hvalid : valid state.inner)
    (hstays : state.StaysDeleted backend) (actions : List (NoteEditAction Clock)) :
    (∀ front, front <+: actions → ∀ reached, runAll (step backend) state front = some reached →
      reached.StaysDeleted backend) ↔
      MeetsAll (step backend) (WritesUndeleted backend) state actions := by
  have hiff : (∀ front, front <+: actions → ∀ reached,
      runAll (step backend) state front = some reached →
        valid reached.inner ∧ reached.StaysDeleted backend) ↔
      MeetsAll (step backend) (WritesUndeleted backend) state actions := by
    refine forall_reached_iff_meetsAll _ ?_ ?_ ⟨hvalid, hstays⟩
    · intro state action hnone
      cases action with
      | write caller clock =>
          intro edit read note stored hphase
          simp [step, hphase] at hnone
      | _ => trivial
    · rintro state action - next ⟨hvalid, hstays⟩ hnext
      rw [staysDeleted_step_iff hbackend hvalid hstays hnext]
      exact and_iff_right (valid_step hbackend hvalid hnext)
  rw [← hiff]
  constructor
  · intro hreached front hfront reached hrun
    have hkept : valid reached.inner := runAll_invariant (step backend)
      (fun _ _ _ hkept hnext => valid_step hbackend hkept hnext) hvalid hrun
    exact ⟨hkept, hreached front hfront reached hrun⟩
  · exact fun hreached front hfront reached hrun => (hreached front hfront reached hrun).2

/-- The edit has checked the note and not yet written it. -/
def InWindow (state : EditState S) (id : Uuid) : Prop :=
  ∃ caller edit read note, note.id = id ∧
    (state.phases caller = .placing edit read note ∨ state.phases caller = .writing edit read note)

/-- No delete of a note runs while an edit has checked it and not yet written it. -/
def DeletesApart (state : EditState S) : NoteEditAction Clock → Prop
  | .delete _ id => ¬ state.InWindow id
  | _ => True

theorem exists_note?_of_phase {edit edit' : NoteEdit} {read read' note : Note}
    {stage : NoteEditStage}
    (hphase : stage.phase edit read = .placing edit' read' note ∨
      stage.phase edit read = .writing edit' read' note) : stage.note? = some note := by
  cases stage with
  | returns result => rcases hphase with heq | heq <;> cases heq
  | places found =>
      rcases hphase with heq | heq <;> cases heq
      rfl
  | writes found =>
      rcases hphase with heq | heq <;> cases heq
      rfl

/-- An edit comes into its window with a note that is live. -/
theorem live_of_afterCheck (hbackend : backend.KeepsLiveness valid) {inner : S}
    (hvalid : valid inner) {id : Uuid} {edit edit' : NoteEdit} {read note : Note}
    (hphase : afterCheck backend inner id edit = .placing edit' read note ∨
      afterCheck backend inner id edit = .writing edit' read note) :
    ∃ found, backend.readNote note.id inner = .ok found ∧ found.deletedAt.isSome = false := by
  unfold afterCheck at hphase
  split at hphase
  · rcases hphase with heq | heq <;> cases heq
  · split at hphase
    · rcases hphase with heq | heq <;> cases heq
    · next stored hread =>
        split at hphase
        · rcases hphase with heq | heq <;> cases heq
        · next hlive =>
            have hnote := NoteEdit.id_checked (exists_note?_of_phase hphase)
            rw [hnote, hbackend.note_id hvalid hread]
            exact ⟨stored, hread, Bool.eq_false_of_not_eq_true hlive⟩

/-- Between its check and its write no delete has completed on the note of an
edit. -/
structure Apart (backend : NoteBackend S Clock) (valid : S → Prop) (state : EditState S) :
    Prop where
  isValid : valid state.inner
  stays : state.StaysDeleted backend
  window : ∀ id, state.InWindow id → state.deleted id = false

theorem writesUndeleted_of_apart (hstate : state.Apart backend valid)
    (action : NoteEditAction Clock) : state.WritesUndeleted backend action := by
  cases action with
  | write caller clock =>
      intro edit read note stored hphase _ _
      exact hstate.window note.id ⟨caller, edit, read, note, rfl, .inr hphase⟩
  | _ => trivial

theorem Apart.step (hbackend : backend.KeepsLiveness valid) (hstate : state.Apart backend valid)
    {action : NoteEditAction Clock} (hapart : state.DeletesApart action)
    (hstep : step backend state action = some next) : next.Apart backend valid := by
  refine ⟨valid_step hbackend hstate.isValid hstep,
    (staysDeleted_step_iff hbackend hstate.isValid hstate.stays hstep).mpr
      (writesUndeleted_of_apart hstate action), ?_⟩
  rintro id ⟨caller, edit, read, note, rfl, hphase⟩
  have hwindow : ∀ phases : Nat → EditPhase, phases = state.phases →
      (phases caller = .placing edit read note ∨ phases caller = .writing edit read note) →
        state.deleted note.id = false := by
    rintro phases rfl hold
    exact hstate.window note.id ⟨caller, edit, read, note, rfl, hold⟩
  cases action with
  | check other =>
      simp only [EditState.step] at hstep
      split at hstep
      · obtain rfl := Option.some.inj hstep
        simp only [setPhase, Function.update_apply] at hphase
        split at hphase
        · obtain ⟨found, hread, hlive⟩ := live_of_afterCheck hbackend hstate.isValid hphase
          change state.deleted note.id = false
          rw [← Bool.not_eq_true]
          intro hdeleted
          rw [hstate.stays note.id hdeleted found hread] at hlive
          contradiction
        · exact hwindow _ rfl hphase
      · contradiction
  | place other resequenced =>
      simp only [EditState.step] at hstep
      split at hstep
      · next edit' read' note' hplacing =>
          obtain rfl := Option.some.inj hstep
          simp only [setPhase, Function.update_apply] at hphase
          split at hphase
          · change state.deleted note.id = false
            unfold afterPlace at hphase
            split at hphase
            · rcases hphase with heq | heq <;> cases heq
            · rw [NoteEdit.id_placed (exists_note?_of_phase hphase)]
              exact hstate.window note'.id ⟨other, edit', read', note', rfl, .inl hplacing⟩
          · exact hwindow _ rfl hphase
      · contradiction
  | write other clock =>
      simp only [EditState.step] at hstep
      split at hstep
      · obtain rfl := Option.some.inj hstep
        simp only [setPhase, Function.update_apply] at hphase
        split at hphase
        · rcases hphase with heq | heq <;> cases heq
        · exact hwindow _ rfl hphase
      · contradiction
  | delete clock deleted =>
      simp only [EditState.step] at hstep
      split at hstep
      · obtain rfl := Option.some.inj hstep
        have hne : note.id ≠ deleted := by
          rintro rfl
          exact hapart ⟨caller, edit, read, note, rfl, hphase⟩
        simp only [Function.update_of_ne hne]
        exact hwindow _ rfl hphase
      · obtain rfl := Option.some.inj hstep
        exact hwindow _ rfl hphase
  | restore clock restored =>
      simp only [EditState.step] at hstep
      split at hstep
      · obtain rfl := Option.some.inj hstep
        simp only [Function.update_apply]
        split
        · rfl
        · exact hwindow _ rfl hphase
      · obtain rfl := Option.some.inj hstep
        exact hwindow _ rfl hphase

/-- Deletes that run outside the windows of the edits are never undone. -/
theorem writesUndeleted_of_deletesApart (hbackend : backend.KeepsLiveness valid)
    (hstate : state.Apart backend valid) {actions : List (NoteEditAction Clock)}
    (hmeets : MeetsAll (EditState.step backend) DeletesApart state actions) :
    MeetsAll (EditState.step backend) (WritesUndeleted backend) state actions :=
  MeetsAll.of_invariant (EditState.step backend)
    (fun _ _ _ hkept hapart hnext => Apart.step hbackend hkept hapart hnext)
    (fun _ action hkept _ => writesUndeleted_of_apart hkept action) hstate hmeets

end EditState

namespace LinkingBackend

variable {S Clock : Type} {store : StorageBackend S Clock} {valid : S → Prop}

theorem keepsLiveness_noteBackend (hlawful : store.Lawful valid) (patterns : LinkSyntax)
    (notebookSortProfile : Uuid → S → Except StorageError NotebookSortProfile) :
    (noteBackend store patterns notebookSortProfile).KeepsLiveness
      fun backend => valid backend.inner where
  note_id := fun hvalid hread => hlawful.note_id hvalid hread
  updateNote := by
    intro backend clock note after result hvalid hupdate
    rcases writeNote_cases hupdate with
      ⟨failure, rfl, hinner⟩ | ⟨looked, prepared, stored, hprepare, hstored, rfl⟩
    · exact ⟨hinner ▸ hvalid, fun id => congrArg (store.readNote id) hinner⟩
    · obtain ⟨hafter, hwrote⟩ := hlawful.updateNote hvalid hstored
      obtain ⟨alias_, bookmarks, links, rfl, -, -⟩ := prepared_eq hprepare
      obtain ⟨found, hfound, hsame⟩ := hwrote.read
      exact ⟨hafter, ⟨found, hfound, hsame.deletedAt⟩, hwrote.notes⟩
  deleteNote := by
    intro backend clock id after result hvalid hdelete
    simp only [noteBackend, deleteNote] at hdelete
    split at hdelete
    · obtain ⟨rfl, rfl⟩ := Prod.mk.inj hdelete
      exact ⟨hvalid, fun _ => rfl⟩
    · next inner hdeleted =>
        obtain ⟨rfl, rfl⟩ := Prod.mk.inj hdelete
        obtain ⟨hafter, hgone⟩ := hlawful.deleteNote hvalid hdeleted
        exact ⟨hafter, hgone.read, hgone.notes⟩

end LinkingBackend

namespace EditRevivalWitness

open LinkingIndexWitness

def backend : NoteBackend (LinkingBackend Db) DbClock :=
  LinkingBackend.noteBackend Db.storage patterns Db.notebookSortProfile

/-- A note that a client is to star. -/
def start : EditState (LinkingBackend Db) where
  inner := ((LinkingBackend.createNote Db.storage patterns ⟨1, 1⟩ (note 1 none) ⟨db, none⟩)).1
  phases _ := .begun 1 (.setStarred true)
  deleted _ := false

theorem start_staysDeleted : start.StaysDeleted backend := by
  intro id hid
  cases hid

/-- The note is deleted after its check and before its write. -/
def deletedBetween : List (NoteEditAction DbClock) := [.check 0, .delete ⟨2, 2⟩ 1, .write 0 ⟨3, 3⟩]

theorem starring_revives_note :
    ∃ last, runAll (EditState.step backend) start deletedBetween = some last ∧
      last.deleted 1 = true ∧ ¬ last.StaysDeleted backend := by
  refine ⟨_, rfl, rfl, fun hstays => ?_⟩
  have hsome := hstays 1 rfl _ rfl
  revert hsome
  decide

/-- The note is deleted after the write. -/
def deletedAfter : List (NoteEditAction DbClock) := [.check 0, .write 0 ⟨3, 3⟩, .delete ⟨4, 4⟩ 1]

theorem run_staysDeleted_iff_after :
    ∃ last, runAll (EditState.step backend) start deletedAfter = some last ∧
      last.deleted 1 = true ∧ last.StaysDeleted backend := by
  have hmeets : MeetsAll (EditState.step backend) (EditState.WritesUndeleted backend) start
      deletedAfter := by
    refine ⟨trivial, fun next hnext => ⟨?_, fun _ _ => ⟨trivial, fun _ _ => trivial⟩⟩⟩
    obtain rfl := Option.some.inj hnext
    intro edit read note stored hphase hlive hok
    rfl
  refine ⟨_, rfl, rfl, ?_⟩
  exact (EditState.run_staysDeleted_iff backend
    (LinkingBackend.keepsLiveness_noteBackend Db.lawful_storage patterns Db.notebookSortProfile)
    trivial start_staysDeleted deletedAfter).mpr hmeets deletedAfter List.prefix_rfl _ rfl

end EditRevivalWitness

end Keeplin
