/-
The stack below the event layer when the daemon is online: the linking layer over
the SQLite store.  What it does not look at it hands on.
-/
import Keeplin.EventFeed
import Keeplin.DbFrames
import Keeplin.NoteEdits

namespace Keeplin

open StorageBackend

namespace LinkingBackend

variable {S R : Type}

/-- A call that the layer hands on. -/
def handOn (call : S → Except StorageError (S × R)) (backend : LinkingBackend S) :
    LinkingBackend S × Except StorageError R :=
  match call backend.inner with
  | .error failure => (backend, .error failure)
  | .ok (inner, value) => ({ backend with inner }, .ok value)

def handOnUnit (call : S → Except StorageError S) :
    LinkingBackend S → LinkingBackend S × Except StorageError Unit :=
  handOn fun inner => (call inner).map fun after => (after, ())

theorem handOn_cases {call : S → Except StorageError (S × R)} {backend after : LinkingBackend S}
    {result : Except StorageError R} (hcall : handOn call backend = (after, result)) :
    (∃ failure, result = .error failure ∧ after.inner = backend.inner) ∨
      ∃ value, call backend.inner = .ok (after.inner, value) ∧ result = .ok value := by
  unfold handOn at hcall
  split at hcall
  · next failure hfailed =>
      obtain ⟨rfl, rfl⟩ := Prod.mk.inj hcall
      exact .inl ⟨failure, rfl, rfl⟩
  · next inner value hdone =>
      obtain ⟨rfl, rfl⟩ := Prod.mk.inj hcall
      exact .inr ⟨value, hdone, rfl⟩

end LinkingBackend

namespace Db

open LinkingBackend

/-- The linking layer over the SQLite store. -/
def repositories (patterns : LinkSyntax) : Repositories (LinkingBackend Db) DbClock where
  readNote id backend := backend.inner.readNote id
  readNotebook id backend := backend.inner.readNotebook id
  listNotes pageSize token backend := .ok (backend.inner.listNotes pageSize token)
  listNoteTags noteId pageSize token backend :=
    .ok (backend.inner.listNoteTags noteId pageSize token)
  createNote := LinkingBackend.createNote storage patterns
  updateNote := LinkingBackend.updateNote storage patterns
  deleteNote := LinkingBackend.deleteNote storage
  createNotebook := LinkingBackend.createNotebook storage
  updateNotebook := LinkingBackend.updateNotebook storage
  deleteNotebook := LinkingBackend.deleteNotebook storage
  createTag clock tag := handOn fun db => db.createTag tag clock.changedAt
  updateTag clock tag := handOn fun db => db.updateTag tag clock.changedAt
  deleteTag clock id := handOnUnit fun db => db.deleteTag id clock.ts clock.changedAt
  addNoteTag clock noteTag := handOnUnit fun db => db.addNoteTag noteTag clock.ts clock.changedAt
  removeNoteTag clock noteId tagId :=
    handOnUnit fun db => db.removeNoteTag noteId tagId clock.ts clock.changedAt
  createResource clock resource data :=
    handOn fun db => db.createResource resource data clock.changedAt
  deleteResource clock id := handOnUnit fun db => db.deleteResource id clock.ts clock.changedAt
  applyChange := LinkingBackend.applyChange storage

variable {patterns : LinkSyntax} {backend : LinkingBackend Db}

/-- A call fails and leaves the database, or it makes one write of the entity. -/
def Writes {R : Type} (entity : Entity) (clock : DbClock) (db : Db)
    (result : LinkingBackend Db × Except StorageError R) : Prop :=
  (∃ failure, result.2 = .error failure ∧ result.1.inner = db) ∨
    ∃ (write : LocalWrite) (value : R), write.entity = entity ∧ result.2 = .ok value ∧
      db.localWrite clock.ts clock.changedAt write = .ok result.1.inner

section Calls

variable {R : Type} {clock : DbClock} {after : Db}

theorem map_fst_of_ok {result : Except StorageError (Db × R)} {value : R}
    (hresult : result = .ok (after, value)) : result.map Prod.fst = .ok after := by
  rw [hresult]
  rfl

theorem writes_handOn {entity : Entity} {call : Db → Except StorageError (Db × R)}
    (write : LocalWrite) (hentity : write.entity = entity)
    (hwrite : ∀ db : Db, (call db).map Prod.fst = db.localWrite clock.ts clock.changedAt write)
    (backend : LinkingBackend Db) :
    Writes entity clock backend.inner (handOn call backend) := by
  cases hcall : handOn call backend with
  | mk after result =>
      rcases handOn_cases hcall with ⟨failure, rfl, hinner⟩ | ⟨value, hdone, rfl⟩
      · exact .inl ⟨failure, rfl, hinner⟩
      · exact .inr ⟨write, value, hentity, rfl,
          (hwrite backend.inner).symm.trans (map_fst_of_ok hdone)⟩

theorem map_fst_map (result : Except StorageError Db) :
    (result.map fun after => (after, ())).map Prod.fst = result := by
  cases result <;> rfl

theorem writes_handOnUnit {entity : Entity} {call : Db → Except StorageError Db}
    (write : LocalWrite) (hentity : write.entity = entity)
    (hwrite : ∀ db : Db, call db = db.localWrite clock.ts clock.changedAt write)
    (backend : LinkingBackend Db) :
    Writes entity clock backend.inner (handOnUnit call backend) :=
  writes_handOn write hentity (fun db => (map_fst_map (call db)).trans (hwrite db)) backend

theorem writes_writeNote {call : Note → Db → Except StorageError (Db × Note)}
    {write : Note → LocalWrite} (hentity : ∀ note, (write note).entity = .note note.id)
    (hwrite : ∀ note (db : Db), (call note db).map Prod.fst =
      db.localWrite clock.ts clock.changedAt (write note))
    (note : Note) (backend : LinkingBackend Db) :
    Writes (.note note.id) clock backend.inner
      (writeNote storage patterns call note backend) := by
  cases hcall : writeNote storage patterns call note backend with
  | mk after result =>
      rcases writeNote_cases hcall with
        ⟨failure, rfl, hinner⟩ | ⟨looked, prepared, stored, hprepare, hdone, rfl⟩
      · exact .inl ⟨failure, rfl, hinner⟩
      · have hid : prepared.id = note.id := by
          obtain ⟨alias_, bookmarks, links, rfl, -, -⟩ := prepared_eq hprepare
          rfl
        exact .inr ⟨write prepared, stored, (hentity prepared).trans (by rw [hid]), rfl,
          (hwrite prepared backend.inner).symm.trans (map_fst_of_ok hdone)⟩

theorem writes_createNote (note : Note) (backend : LinkingBackend Db) :
    Writes (.note note.id) clock backend.inner
      (LinkingBackend.createNote storage patterns clock note backend) :=
  writes_writeNote (fun note => (rfl : (LocalWrite.createNote note).entity = .note note.id))
    (fun _ _ => rfl) note backend

theorem writes_updateNote (note : Note) (backend : LinkingBackend Db) :
    Writes (.note note.id) clock backend.inner
      (LinkingBackend.updateNote storage patterns clock note backend) :=
  writes_writeNote (fun note => (rfl : (LocalWrite.updateNote note).entity = .note note.id))
    (fun _ _ => rfl) note backend

theorem writes_writeNotebook {call : Notebook → Db → Except StorageError (Db × Notebook)}
    {notebook : Notebook} (write : LocalWrite) (hentity : write.entity = .notebook notebook.id)
    (hwrite : ∀ db : Db, (call notebook db).map Prod.fst =
      db.localWrite clock.ts clock.changedAt write)
    (backend : LinkingBackend Db) :
    Writes (.notebook notebook.id) clock backend.inner
      (writeNotebook storage call notebook backend) := by
  cases hcall : writeNotebook storage call notebook backend with
  | mk after result =>
      rcases writeNotebook_cases hcall with ⟨failure, rfl, hinner⟩ | ⟨stored, hdone, rfl⟩
      · exact .inl ⟨failure, rfl, hinner⟩
      · exact .inr ⟨write, stored, hentity, rfl,
          (hwrite backend.inner).symm.trans (map_fst_of_ok hdone)⟩

theorem writes_deleteNote (id : Uuid) (backend : LinkingBackend Db) :
    Writes (.note id) clock backend.inner (LinkingBackend.deleteNote storage clock id backend) := by
  unfold LinkingBackend.deleteNote
  split
  · next failure hfailed => exact .inl ⟨failure, rfl, rfl⟩
  · next inner hdone => exact .inr ⟨.deleteNote id, (), rfl, rfl, hdone⟩

theorem writes_deleteNotebook (id : Uuid) (backend : LinkingBackend Db) :
    Writes (.notebook id) clock backend.inner
      (LinkingBackend.deleteNotebook storage clock id backend) := by
  unfold LinkingBackend.deleteNotebook
  split
  · next failure hfailed => exact .inl ⟨failure, rfl, rfl⟩
  · next inner hdone => exact .inr ⟨.deleteNotebook id, (), rfl, rfl, hdone⟩

theorem Writes.outcome {entity : Entity} {result : LinkingBackend Db × Except StorageError R}
    {db : Db} (hwrites : Writes entity clock db result) {event : R → Option Change}
    (hevent : ∀ value, event value ≠ none) :
    ((Mutator.outcome event result).2 = none ∧ (Mutator.outcome event result).1.inner = db) ∨
      ∃ write : LocalWrite, write.entity = entity ∧ (Mutator.outcome event result).2 ≠ none ∧
        db.localWrite clock.ts clock.changedAt write =
          .ok (Mutator.outcome event result).1.inner := by
  rcases hwrites with ⟨failure, hfailed, hinner⟩ | ⟨write, value, hentity, hvalue, hwrite⟩
  · refine .inl ⟨?_, hinner⟩
    rw [Mutator.outcome, hfailed]
    rfl
  · refine .inr ⟨write, hentity, ?_, hwrite⟩
    rw [Mutator.outcome, hvalue]
    exact hevent value

end Calls

/-- What a mutator does to the database: nothing and it publishes nothing, one write
of the entity that it publishes, or one applied change. -/
theorem commit_inner (patterns : LinkSyntax) (clock : DbClock) (now : DateTime)
    (backend : LinkingBackend Db) (mutator : Mutator) :
    ((mutator.commit (repositories patterns) clock now backend).2 = none ∧
        (mutator.commit (repositories patterns) clock now backend).1.inner = backend.inner) ∨
      (∃ write : LocalWrite, write.entity = mutator.entity ∧
        (mutator.commit (repositories patterns) clock now backend).2 ≠ none ∧
        backend.inner.localWrite clock.ts clock.changedAt write =
          .ok (mutator.commit (repositories patterns) clock now backend).1.inner) ∨
      ∃ change, mutator = .applyChange change ∧
        (mutator.commit (repositories patterns) clock now backend).1.inner =
          backend.inner.applyChange change := by
  cases mutator with
  | createNote note =>
      exact ((writes_createNote note backend).outcome fun _ => Option.some_ne_none _).imp_right .inl
  | updateNote note =>
      exact ((writes_updateNote note backend).outcome fun _ => Option.some_ne_none _).imp_right .inl
  | deleteNote id =>
      exact ((writes_deleteNote id backend).outcome fun _ => Option.some_ne_none _).imp_right .inl
  | createNotebook notebook =>
      have hwrites : Writes (.notebook notebook.id) clock backend.inner
          (LinkingBackend.createNotebook storage clock notebook backend) :=
        writes_writeNotebook (.createNotebook notebook) rfl (fun _ => rfl) backend
      exact (hwrites.outcome fun _ => Option.some_ne_none _).imp_right .inl
  | updateNotebook notebook =>
      have hwrites : Writes (.notebook notebook.id) clock backend.inner
          (LinkingBackend.updateNotebook storage clock notebook backend) :=
        writes_writeNotebook (.updateNotebook notebook) rfl (fun _ => rfl) backend
      exact (hwrites.outcome fun _ => Option.some_ne_none _).imp_right .inl
  | deleteNotebook id =>
      exact ((writes_deleteNotebook id backend).outcome fun _ =>
        Option.some_ne_none _).imp_right .inl
  | createTag tag =>
      exact ((writes_handOn (.createTag tag) rfl (fun _ => rfl) backend).outcome
        fun _ => Option.some_ne_none _).imp_right .inl
  | updateTag tag =>
      exact ((writes_handOn (.updateTag tag) rfl (fun _ => rfl) backend).outcome
        fun _ => Option.some_ne_none _).imp_right .inl
  | deleteTag id =>
      exact ((writes_handOnUnit (.deleteTag id) rfl (fun _ => rfl) backend).outcome
        fun _ => Option.some_ne_none _).imp_right .inl
  | addNoteTag noteTag =>
      exact ((writes_handOnUnit (.addNoteTag noteTag) rfl (fun _ => rfl) backend).outcome
        fun _ => Option.some_ne_none _).imp_right .inl
  | removeNoteTag noteId tagId =>
      exact ((writes_handOnUnit (.removeNoteTag noteId tagId) rfl (fun _ => rfl) backend).outcome
        fun _ => Option.some_ne_none _).imp_right .inl
  | createResource resource data =>
      exact ((writes_handOn (.createResource resource data) rfl (fun _ => rfl) backend).outcome
        fun _ => Option.some_ne_none _).imp_right .inl
  | deleteResource id =>
      exact ((writes_handOnUnit (.deleteResource id) rfl (fun _ => rfl) backend).outcome
        fun _ => Option.some_ne_none _).imp_right .inl
  | applyChange change => exact .inr (.inr ⟨change, rfl, rfl⟩)

/-- A mutator keeps the rows of the other entities. -/
theorem frame_commit (patterns : LinkSyntax) (clock : DbClock) (now : DateTime)
    (backend : LinkingBackend Db) (mutator : Mutator) :
    Frame mutator.entity backend.inner
      (mutator.commit (repositories patterns) clock now backend).1.inner := by
  rcases commit_inner patterns clock now backend mutator with
    ⟨-, hinner⟩ | ⟨write, hentity, -, hwrite⟩ | ⟨change, rfl, hinner⟩
  · exact hinner ▸ .refl _ _
  · exact hentity ▸ frame_localWrite hwrite
  · exact hinner ▸ frame_applyChange backend.inner change

section Notes

variable {db after : Db} {note stored : Note} {changedAt : DateTime}

theorem readNote_createNote (hcreate : db.createNote note changedAt = .ok (after, stored)) :
    stored.id = note.id ∧ after.readNote stored.id = .ok stored := by
  simp only [createNote] at hcreate
  split at hcreate
  · contradiction
  · cases hcreate
    refine ⟨rfl, ?_⟩
    simp only [readNote, recordChange, refreshNoteLinks, Std.ExtTreeMap.getElem?_insert_self]
    rfl

/-- An update keeps the instant of creation of the row. -/
theorem readNote_updateNote (hupdate : db.updateNote note changedAt = .ok (after, stored)) :
    stored.id = note.id ∧ stored.createdAt = note.createdAt ∧
      ∃ prior, db.readNote note.id = .ok prior ∧
        after.readNote stored.id = .ok { stored with createdAt := prior.createdAt } := by
  simp only [updateNote] at hupdate
  split at hupdate
  · contradiction
  · next row hrow =>
      cases hupdate
      refine ⟨rfl, rfl, rowToNote note.id row, readNote_ok_iff.mpr ⟨row, hrow, rfl⟩, ?_⟩
      simp only [readNote, recordChange, refreshNoteLinks, notes_restoreResources,
        Std.ExtTreeMap.getElem?_insert_self]
      rfl

theorem Frame.readNote {entity : Entity} (hframe : Frame entity db after) {id : Uuid}
    (hne : entity ≠ .note id) : after.readNote id = db.readNote id :=
  readNote_of_rows (hframe.notes id hne)

end Notes

theorem prepared_keeps {note prepared : Note} {after : LinkingBackend Db}
    (hprepare : prepare storage patterns note backend = (after, .ok prepared)) :
    prepared.id = note.id ∧ prepared.createdAt = note.createdAt := by
  obtain ⟨alias_, bookmarks, links, rfl, -, -⟩ := prepared_eq hprepare
  exact ⟨rfl, rfl⟩

theorem frame_of_call {R : Type} {entity : Entity} {db : Db} {result : LinkingBackend Db × R}
    {after : LinkingBackend Db} {value : R} (hcall : result = (after, value))
    (hframe : Frame entity db result.1.inner) : Frame entity db after.inner := by
  rw [hcall] at hframe
  exact hframe

theorem noteLaws (patterns : LinkSyntax) : (repositories patterns).NoteLaws fun _ => True where
  createNote := by
    intro backend clock note after stored _ hcreate
    have hframe : Frame (.note note.id) backend.inner after.inner :=
      frame_of_call hcreate (frame_commit patterns clock 0 backend (.createNote note))
    rcases writeNote_cases hcreate with
      ⟨failure, hfailed, -⟩ | ⟨looked, prepared, found, hprepare, hdone, hfound⟩
    · contradiction
    · obtain rfl := Except.ok.inj hfound
      obtain ⟨hid, hread⟩ := readNote_createNote hdone
      rw [(prepared_keeps hprepare).1] at hid
      refine ⟨hread, fun other hother => hframe.readNote fun heq => hother ?_⟩
      rw [hid, Entity.note.inj heq]
  updateNote := by
    intro backend clock note after stored _ hupdate
    have hframe : Frame (.note note.id) backend.inner after.inner :=
      frame_of_call hupdate (frame_commit patterns clock 0 backend (.updateNote note))
    rcases writeNote_cases hupdate with
      ⟨failure, hfailed, -⟩ | ⟨looked, prepared, found, hprepare, hdone, hfound⟩
    · contradiction
    · obtain rfl := Except.ok.inj hfound
      obtain ⟨hid, hcreated, prior, hprior, hread⟩ := readNote_updateNote hdone
      obtain ⟨hpreparedId, hpreparedAt⟩ := prepared_keeps hprepare
      rw [hpreparedId] at hid hprior
      refine ⟨hcreated.trans hpreparedAt, fun other hother => hframe.readNote fun heq => hother ?_,
        prior, prior.createdAt, hprior, hread, Eq.symm⟩
      rw [hid, Entity.note.inj heq]
  deleteNote := by
    intro backend clock id after _ hdelete
    have hframe : Frame (.note id) backend.inner after.inner :=
      frame_of_call hdelete (frame_commit patterns clock 0 backend (.deleteNote id))
    simp only [repositories, LinkingBackend.deleteNote] at hdelete
    split at hdelete
    · cases (Prod.mk.inj hdelete).2
    · next inner hdone =>
        obtain rfl := (Prod.mk.inj hdelete).1
        have hgone := (deleteNote_reads hdone).read
        refine ⟨fun found hfound hlive => ?_, fun other hother => hframe.readNote fun heq => ?_⟩
        · have hsome := hgone found hfound
          rw [hlive] at hsome
          contradiction
        · exact hother (Entity.note.inj heq).symm
  others := by
    intro backend clock now mutator _ happly hevent id
    rcases commit_inner patterns clock now backend mutator with
      ⟨-, hinner⟩ | ⟨write, hentity, hpublished, -⟩ | ⟨change, rfl, -⟩
    · exact congrArg (fun db => Db.readNote db id) hinner
    · refine (frame_commit patterns clock now backend mutator).readNote fun hsame => ?_
      obtain ⟨change, hchange⟩ := Option.ne_none_iff_exists'.mp hpublished
      have hsilent := hevent change hchange
      cases mutator with
      | createNote note | updateNote note =>
          obtain ⟨stored, hstored⟩ := Mutator.mem_outcome hchange
          obtain rfl := Option.some.inj hstored
          exact hsilent stored.id rfl
      | deleteNote other =>
          obtain ⟨done, hdone⟩ := Mutator.mem_outcome hchange
          obtain rfl := Option.some.inj hdone
          exact hsilent other rfl
      | applyChange change =>
          obtain ⟨done, hdone⟩ := Mutator.mem_outcome hchange
          contradiction
      | createNotebook | updateNotebook | deleteNotebook | createTag | updateTag | deleteTag
      | addNoteTag | removeNoteTag | createResource | deleteResource => cases hsame
    · exact (frame_commit patterns clock now backend (.applyChange change)).readNote
        (happly change id rfl)

end Db

namespace EventFeedWitness

open LinkingIndexWitness

def store : Repositories (LinkingBackend Db) DbClock := Db.repositories patterns

/-- A store with one note, and nothing under way. -/
def start : ChangeFeed (LinkingBackend Db) where
  backend := ⟨(LinkingBackend.createNote Db.storage patterns ⟨1, 1⟩ (note 1 none) ⟨db, none⟩).1, []⟩
  held := []

def retitle (title : String) : Mutator := .updateNote { note 1 none with title }

/-- Two calls commit before either of them publishes. -/
def bothCommit : List (FeedStep DbClock) :=
  [.commit ⟨2, 2⟩ 2 (retitle "first"), .commit ⟨3, 3⟩ 3 (retitle "second")]

def title (found : Option Note) : Option String := found.map Note.title

/-- The call that commits first publishes last, and the subscriber keeps the title
that has been replaced. -/
theorem foldEvents_behind :
    ((runAll (ChangeFeed.step store) start (bothCommit ++ [.publish 1, .publish 0])).map
      fun final => decide (final.held = [] ∧
        title (foldEvents (store.liveNote start.backend.inner) final.backend.tx 1) = some "first" ∧
        title (store.liveNote final.backend.inner 1) = some "second")) = some true := by
  decide +kernel

theorem foldEvents_out_of_order :
    ¬ ∀ (start final : ChangeFeed (LinkingBackend Db)) (steps : List (FeedStep DbClock)),
      start.backend.tx = [] ∧ start.held = [] →
      runAll (ChangeFeed.step store) start steps = some final → final.held = [] →
        ∀ id, foldEvents (store.liveNote start.backend.inner) final.backend.tx id =
          store.liveNote final.backend.inner id := by
  intro hagree
  obtain ⟨final, hrun, hbehind⟩ := Option.map_eq_some_iff.mp foldEvents_behind
  rw [decide_eq_true_eq] at hbehind
  obtain ⟨hheld, hknown, hstored⟩ := hbehind
  rw [hagree start final _ ⟨rfl, rfl⟩ hrun hheld 1, hstored] at hknown
  exact absurd hknown (by decide)

theorem createdAt_of_map {result : Except StorageError Note} {prior : Note} {createdAt : DateTime}
    (hcreated : result.map Note.createdAt = .ok createdAt) (hprior : result = .ok prior) :
    createdAt = prior.createdAt := by
  rw [hprior] at hcreated
  exact (Except.ok.inj hcreated).symm

theorem publish_front (feed : ChangeFeed (LinkingBackend Db)) :
    feed.InOrder store (.publish 0) :=
  fun _ _ i hi => absurd hi (Nat.not_lt_zero i)

theorem inOrder_inTurn :
    MeetsAll (ChangeFeed.step store) (ChangeFeed.InOrder store) start
      (bothCommit ++ [.publish 0, .publish 0]) := by
  refine ⟨fun prior hprior => ?_, fun next hnext => ⟨fun prior hprior => ?_,
    fun next _ => ⟨publish_front next, fun next _ => ⟨publish_front next, fun _ _ => trivial⟩⟩⟩⟩
  · exact createdAt_of_map (by decide +kernel) hprior
  · obtain rfl := Option.some.inj hnext
    exact createdAt_of_map (by decide +kernel) hprior

/-- Where they publish in the order in which they commit the subscriber has the
title that is stored. -/
theorem foldEvents_in_turn :
    ∃ final, runAll (ChangeFeed.step store) start (bothCommit ++ [.publish 0, .publish 0]) =
        some final ∧ final.held = [] ∧
      foldEvents (store.liveNote start.backend.inner) final.backend.tx 1 =
        store.liveNote final.backend.inner 1 := by
  have hrun : ((runAll (ChangeFeed.step store) start
      (bothCommit ++ [.publish 0, .publish 0])).map fun final => decide (final.held = [])) =
        some true := by decide +kernel
  obtain ⟨final, hfinal, hheld⟩ := Option.map_eq_some_iff.mp hrun
  rw [decide_eq_true_eq] at hheld
  refine ⟨final, hfinal, hheld, ?_⟩
  exact ChangeFeed.foldEvents_of_run (Db.noteLaws patterns) (fun _ _ _ _ _ => trivial) trivial
    ⟨rfl, rfl⟩ inOrder_inTurn hfinal 1 fun change hchange => by simp [hheld] at hchange

end EventFeedWitness

end Keeplin
