/-
Reverts of several notes.  They run one after another up to the first that fails, and what
was reverted before it stays reverted.
-/
import Keeplin.HistorySelection
import Mathlib.Algebra.Order.Group.Nat

namespace Keeplin

namespace NoteStore

variable {S : Type} (backend : NoteStore S)

/-- The ids of the notes of a notebook, page after page. -/
def collectNotebookIds (backend : NoteStore S) (notebookId : Uuid) :
    Nat → Option (Keyed Uuid) → S → Option (S × Except StorageError (List Uuid))
  | 0, _, _ => none
  | fuel + 1, token, store =>
      match backend.listNotesInNotebook notebookId 0 token store with
      | (after, .error failure) => some (after, .error failure)
      | (after, .ok (page, none)) => some (after, .ok (page.map Note.id))
      | (after, .ok (page, some next)) =>
          (collectNotebookIds backend notebookId fuel (some next) after).map fun rest =>
            (rest.1, rest.2.map fun ids => page.map Note.id ++ ids)

/-- A batch that reads the clock again for each of its notes. -/
def revertNotesToWith (at_ : DateTime) :
    List Uuid → (Nat → CallClock) → S → S × Except StorageError (List Note)
  | [], _, store => (store, .ok [])
  | id :: rest, clocks, store =>
      match backend.revertNote (clocks 0) id at_ store with
      | (store, .error failure) => (store, .error failure)
      | (store, .ok note) =>
          let done := revertNotesToWith at_ rest (fun turn => clocks (turn + 1)) store
          (done.1, done.2.map fun notes => note :: notes)

def revertNotebookNotesTo (clocks : Nat → CallClock) (notebookId : Uuid) (at_ : DateTime)
    (fuel : Nat) (store : S) : Option (S × Except StorageError (List Note)) :=
  (backend.collectNotebookIds notebookId fuel none store).map fun
    | (after, .error failure) => (after, .error failure)
    | (after, .ok ids) => backend.revertNotesToWith at_ ids clocks after

theorem revertNotesToWith_const (clock : CallClock) (at_ : DateTime) (ids : List Uuid) (store : S) :
    backend.revertNotesToWith at_ ids (fun _ => clock) store =
      backend.revertNotesTo clock at_ ids store := by
  induction ids generalizing store with
  | nil => rfl
  | cons id rest ih =>
      cases hrevert : backend.revertNote clock id at_ store with
      | mk after reverted =>
          cases reverted with
          | error failure => simp only [revertNotesToWith, revertNotesTo, hrevert]
          | ok note => simp only [revertNotesToWith, revertNotesTo, hrevert, ih]

end NoteStore

/-- The same note, up to when and by whom it was written. -/
def Note.HoldsStateOf (found note : Note) : Prop :=
  { found with
    createdAt := note.createdAt, updatedAt := note.updatedAt, vv := note.vv,
    lastWriter := note.lastWriter } = note

namespace NoteStore

section Turns

variable {S : Type} (backend : NoteStore S)

/-- Every other note reads as before, and has the history it had. -/
structure LeavesOthers (id : Uuid) (store after : S) : Prop where
  reads : ∀ other, other ≠ id → backend.readNote other after = backend.readNote other store
  histories : ∀ other limit, other ≠ id →
    backend.noteHistory other limit after = backend.noteHistory other limit store

/-- The note is as the version says that was in force at the instant. -/
def InForce (at_ : DateTime) (id : Uuid) (store after : S) : Prop :=
  ∃ target, backend.revertTarget id at_ store = .ok target ∧
    match target.entity with
    | some note => ∃ found, backend.readNote id after = .ok found ∧
        found.HoldsStateOf { note with deletedAt := none }
    | none => ∀ found, backend.readNote id after = .ok found → found.deletedAt ≠ none

/-- Notes that are reverted one after another. -/
inductive RevertsInTurn (at_ : DateTime) : List Uuid → S → S → Prop
  | nil (store : S) : RevertsInTurn at_ [] store store
  | cons {id : Uuid} {rest : List Uuid} {store next after : S}
      (hfirst : backend.InForce at_ id store next) (hothers : backend.LeavesOthers id store next)
      (hrest : RevertsInTurn at_ rest next after) : RevertsInTurn at_ (id :: rest) store after

/-- The first notes of the list are reverted in turn.  These are all notes of the list, or
the revert of the next one fails and touches no other note; if there is no version to go
back to, it touches none. -/
def StopsAtFailure (clocks : Nat → CallClock) (at_ : DateTime) (ids : List Uuid) (store : S)
    (done : S × Except StorageError (List Note)) : Prop :=
  ∃ front back middle, ids = front ++ back ∧ backend.RevertsInTurn at_ front store middle ∧
    (∀ other, other ∉ front → backend.readNote other middle = backend.readNote other store) ∧
    (front.Nodup → ∀ id ∈ front, backend.InForce at_ id store middle) ∧
    match done.2 with
    | .ok notes => back = [] ∧ notes.length = ids.length ∧ done.1 = middle
    | .error failure => ∃ id rest, back = id :: rest ∧
        (backend.revertNote (clocks front.length) id at_ middle).2 = .error failure ∧
        backend.LeavesOthers id middle done.1 ∧
        ∀ reason, backend.revertTarget id at_ middle = .error reason → done.1 = middle

/-- A backend whose writes of a note leave the other notes, and that lists its notebooks in
pages. -/
structure RevertLaws (ready : S → Prop) (listed : Uuid → S → List (Keyed Uuid)) : Prop where
  ordered : ∀ notebookId store, ready store → Ordered (listed notebookId store)
  list : ∀ notebookId store token, ready store → ∃ after notes,
    backend.listNotesInNotebook notebookId 0 token store =
        (after, .ok (notes, (pageAfter DEFAULT_PAGE_SIZE token (listed notebookId store)).2)) ∧
      notes.map Note.keyed = (pageAfter DEFAULT_PAGE_SIZE token (listed notebookId store)).1 ∧
      ready after ∧ listed notebookId after = listed notebookId store ∧
      (∀ id, backend.readNote id after = backend.readNote id store) ∧
      ∀ id limit, backend.noteHistory id limit after = backend.noteHistory id limit store
  target : ∀ store id at_ target note, ready store →
    backend.revertTarget id at_ store = .ok target → target.entity = some note → note.id = id
  update : ∀ store note now, ready store →
    ready (backend.updateNote note now store).1 ∧
      backend.LeavesOthers note.id store (backend.updateNote note now store).1 ∧
      ∀ stored, (backend.updateNote note now store).2 = .ok stored → ∃ found,
        backend.readNote note.id (backend.updateNote note now store).1 = .ok found ∧
          found.HoldsStateOf note
  delete : ∀ store id ts now, ready store →
    ready (backend.deleteNote id ts now store).1 ∧
      backend.LeavesOthers id store (backend.deleteNote id ts now store).1 ∧
      (((backend.deleteNote id ts now store).2 = .ok () ∨
          ∃ missing, (backend.deleteNote id ts now store).2 = .error (.notFound missing)) →
        ∀ found, backend.readNote id (backend.deleteNote id ts now store).1 = .ok found →
          found.deletedAt ≠ none)

variable {backend} {ready : S → Prop} {listed : Uuid → S → List (Keyed Uuid)} {at_ : DateTime}
  {store middle after : S} {id : Uuid} {ids : List Uuid}

theorem LeavesOthers.refl (id : Uuid) (store : S) : backend.LeavesOthers id store store :=
  ⟨fun _ _ => rfl, fun _ _ _ => rfl⟩

theorem LeavesOthers.revertTarget (hleaves : backend.LeavesOthers id store after) {other : Uuid}
    (hne : other ≠ id) (at_ : DateTime) :
    backend.revertTarget other at_ after = backend.revertTarget other at_ store := by
  rw [NoteStore.revertTarget, hleaves.histories other _ hne]
  rfl

theorem RevertsInTurn.reads (hturns : backend.RevertsInTurn at_ ids store after) {other : Uuid}
    (hother : other ∉ ids) : backend.readNote other after = backend.readNote other store := by
  induction hturns with
  | nil store => rfl
  | cons hfirst hothers hrest ih =>
      obtain ⟨hne, hlater⟩ := not_or.mp (List.mem_cons.not.mp hother)
      exact (ih hlater).trans (hothers.reads other hne)

/-- Notes that are listed once are reverted to what their history had before the batch. -/
theorem RevertsInTurn.inForce (hturns : backend.RevertsInTurn at_ ids store after)
    (hids : ids.Nodup) : ∀ id ∈ ids, backend.InForce at_ id store after := by
  induction hturns with
  | nil store => exact fun id hid => absurd hid List.not_mem_nil
  | @cons first rest store next after hfirst hothers hrest ih =>
      obtain ⟨hnot, hrestIds⟩ := List.nodup_cons.mp hids
      intro id hid
      rcases List.mem_cons.mp hid with rfl | hlater
      · obtain ⟨target, htarget, hread⟩ := hfirst
        refine ⟨target, htarget, ?_⟩
        rw [hrest.reads hnot]
        exact hread
      · have hne : id ≠ first := fun heq => hnot (heq ▸ hlater)
        obtain ⟨target, htarget, hread⟩ := ih hrestIds id hlater
        exact ⟨target, (hothers.revertTarget hne at_).symm.trans htarget, hread⟩

/-- What a revert does to its note and to the others. -/
structure RevertsOne (backend : NoteStore S) (ready : S → Prop) (at_ : DateTime) (id : Uuid)
    (store : S) (done : S × Except StorageError Note) : Prop where
  ready : ready done.1
  others : backend.LeavesOthers id store done.1
  reverted : ∀ note, done.2 = .ok note → backend.InForce at_ id store done.1
  missing : ∀ reason, backend.revertTarget id at_ store = .error reason → done.1 = store

theorem revertNote_missing {clock : CallClock} {failure : StorageError}
    (htarget : backend.revertTarget id at_ store = .error failure) :
    backend.revertNote clock id at_ store = (store, .error failure) := by
  rw [NoteStore.revertNote, htarget]

theorem revertNote_live {clock : CallClock} {target : EntityVersion Note} {note : Note}
    (htarget : backend.revertTarget id at_ store = .ok target)
    (hentity : target.entity = some note) :
    backend.revertNote clock id at_ store = backend.updateNote
      { note with updatedAt := clock.now, deletedAt := none } clock.now store := by
  simp only [NoteStore.revertNote, htarget, hentity]

/-- The note is read again when its deletion is done or has nothing to do. -/
def afterDelete (backend : NoteStore S) (id : Uuid) (done : S × Except StorageError Unit) :
    S × Except StorageError Note :=
  match done with
  | (after, .ok ()) => (after, backend.readNote id after)
  | (after, .error (.notFound _)) => (after, backend.readNote id after)
  | (after, .error failure) => (after, .error failure)

theorem revertNote_deleted {clock : CallClock} {target : EntityVersion Note}
    (htarget : backend.revertTarget id at_ store = .ok target)
    (hentity : target.entity = none) :
    backend.revertNote clock id at_ store =
      backend.afterDelete id (backend.deleteNote id clock.ts clock.now store) := by
  simp only [NoteStore.revertNote, htarget, hentity]
  rfl

theorem afterDelete_fst (done : S × Except StorageError Unit) :
    (backend.afterDelete id done).1 = done.1 := by
  unfold afterDelete
  split <;> rfl

theorem of_afterDelete_ok {done : S × Except StorageError Unit} {note : Note}
    (hdone : (backend.afterDelete id done).2 = .ok note) :
    done.2 = .ok () ∨ ∃ missing, done.2 = .error (.notFound missing) := by
  unfold afterDelete at hdone
  split at hdone
  · exact .inl rfl
  · exact .inr ⟨_, rfl⟩
  · contradiction

theorem RevertLaws.revertNote (hlaws : backend.RevertLaws ready listed) (clock : CallClock)
    (id : Uuid) (at_ : DateTime) (hready : ready store) :
    backend.RevertsOne ready at_ id store (backend.revertNote clock id at_ store) := by
  cases htarget : backend.revertTarget id at_ store with
  | error failure =>
      rw [revertNote_missing htarget]
      exact ⟨hready, LeavesOthers.refl id store, fun note hnote => by contradiction,
        fun _ _ => rfl⟩
  | ok target =>
      have hfound : ∀ reason, backend.revertTarget id at_ store = .error reason →
          (backend.revertNote clock id at_ store).1 = store := fun reason hreason => by
        rw [htarget] at hreason
        contradiction
      cases hentity : target.entity with
      | some note =>
          obtain rfl := hlaws.target store id at_ target note hready htarget hentity
          obtain ⟨hafter, hothers, hread⟩ := hlaws.update store
            { note with updatedAt := clock.now, deletedAt := none } clock.now hready
          rw [revertNote_live htarget hentity] at hfound ⊢
          refine ⟨hafter, hothers, fun stored hstored => ⟨target, htarget, ?_⟩, hfound⟩
          obtain ⟨found, hfoundRead, hstate⟩ := hread stored hstored
          rw [hentity]
          refine ⟨found, hfoundRead, ?_⟩
          exact congrArg (fun held : Note => { held with updatedAt := note.updatedAt }) hstate
      | none =>
          obtain ⟨hafter, hothers, hread⟩ := hlaws.delete store id clock.ts clock.now hready
          rw [revertNote_deleted htarget hentity] at hfound ⊢
          rw [← @afterDelete_fst _ backend id] at hafter hothers hread
          refine ⟨hafter, hothers, fun note hnote => ⟨target, htarget, ?_⟩, hfound⟩
          rw [hentity]
          exact hread (of_afterDelete_ok hnote)

/-- A batch stops at the first revert that fails. -/
theorem RevertLaws.revertNotesToWith (hlaws : backend.RevertLaws ready listed) (at_ : DateTime)
    (ids : List Uuid) (clocks : Nat → CallClock) (hready : ready store) :
    ready (backend.revertNotesToWith at_ ids clocks store).1 ∧
      backend.StopsAtFailure clocks at_ ids store
        (backend.revertNotesToWith at_ ids clocks store) := by
  suffices hturns : ready (backend.revertNotesToWith at_ ids clocks store).1 ∧
      ∃ front back middle, ids = front ++ back ∧ backend.RevertsInTurn at_ front store middle ∧
        match (backend.revertNotesToWith at_ ids clocks store).2 with
        | .ok notes => back = [] ∧ notes.length = ids.length ∧
            (backend.revertNotesToWith at_ ids clocks store).1 = middle
        | .error failure => ∃ id rest, back = id :: rest ∧
            (backend.revertNote (clocks front.length) id at_ middle).2 = .error failure ∧
            backend.LeavesOthers id middle (backend.revertNotesToWith at_ ids clocks store).1 ∧
            ∀ reason, backend.revertTarget id at_ middle = .error reason →
              (backend.revertNotesToWith at_ ids clocks store).1 = middle by
    obtain ⟨hafter, front, back, middle, hids, hfront, hresult⟩ := hturns
    exact ⟨hafter, front, back, middle, hids, hfront, fun other => hfront.reads, hfront.inForce,
      hresult⟩
  induction ids generalizing store clocks with
  | nil => exact ⟨hready, [], [], store, rfl, .nil store, rfl, rfl, rfl⟩
  | cons id rest ih =>
      have hone := hlaws.revertNote (clocks 0) id at_ hready
      cases hfirst : backend.revertNote (clocks 0) id at_ store with
      | mk next result =>
          rw [hfirst] at hone
          cases result with
          | error failure =>
              have hrun : backend.revertNotesToWith at_ (id :: rest) clocks store =
                  (next, .error failure) := by
                rw [NoteStore.revertNotesToWith, hfirst]
              rw [hrun]
              refine ⟨hone.ready, [], id :: rest, store, rfl, .nil store, id, rest, rfl, ?_,
                hone.others, hone.missing⟩
              rw [List.length_nil, hfirst]
          | ok note =>
              generalize hlater : (fun turn => clocks (turn + 1)) = later
              obtain ⟨hafter, front, back, middle, hids, hfront, hresult⟩ := ih later hone.ready
              have hrun : backend.revertNotesToWith at_ (id :: rest) clocks store =
                  ((backend.revertNotesToWith at_ rest later next).1,
                    (backend.revertNotesToWith at_ rest later next).2.map fun notes =>
                      note :: notes) := by
                rw [NoteStore.revertNotesToWith, hfirst, ← hlater]
              rw [hrun]
              refine ⟨hafter, id :: front, back, middle, by rw [hids, List.cons_append],
                .cons (hone.reverted note rfl) hone.others hfront, ?_⟩
              cases hdone : (backend.revertNotesToWith at_ rest later next).2 with
              | error failure =>
                  rw [hdone] at hresult
                  subst hlater
                  exact hresult
              | ok notes =>
                  rw [hdone] at hresult
                  obtain ⟨hback, hlength, hlast⟩ := hresult
                  exact ⟨hback, by simpa using hlength, hlast⟩

end Turns

section Listing

variable {S : Type} {backend : NoteStore S} {ready : S → Prop}
  {listed : Uuid → S → List (Keyed Uuid)} {store : S}

theorem pageAfter_eq_pageOf (limit : Nat) (cursor : Option (Keyed Uuid))
    (items : List (Keyed Uuid)) : pageAfter limit cursor items = pageOf id limit cursor items := by
  cases cursor <;> rfl

/-- Another page is fetched while the walk of the keys goes on. -/
theorem RevertLaws.collectNotebookIds_walk (hlaws : backend.RevertLaws ready listed)
    (notebookId : Uuid) (fuel : Nat) (token : Option (Keyed Uuid)) (hready : ready store)
    {visited : List (Keyed Uuid)}
    (hwalk : walk id id DEFAULT_PAGE_SIZE (listed notebookId store) fuel token = some visited) :
    ∃ after, backend.collectNotebookIds notebookId fuel token store =
        some (after, .ok (visited.map Keyed.id)) ∧ ready after ∧
      (∀ id, backend.readNote id after = backend.readNote id store) ∧
      ∀ id limit, backend.noteHistory id limit after = backend.noteHistory id limit store := by
  induction fuel generalizing token store visited with
  | zero => contradiction
  | succ fuel ih =>
      obtain ⟨next, notes, hlist, hnotes, hnext, hlisted, hreads, hhistories⟩ :=
        hlaws.list notebookId store token hready
      rw [pageAfter_eq_pageOf] at hlist hnotes
      have hids : notes.map Note.id = (notes.map Note.keyed).map Keyed.id := by
        rw [List.map_map]
        rfl
      rw [walk] at hwalk
      cases hmore : (pageOf id DEFAULT_PAGE_SIZE token (listed notebookId store)).2 with
      | none =>
          simp only [hmore, Option.some.injEq] at hwalk
          refine ⟨next, ?_, hnext, hreads, hhistories⟩
          simp only [NoteStore.collectNotebookIds, hlist, hmore, hids, hnotes, hwalk]
      | some last =>
          simp only [hmore] at hwalk
          obtain ⟨rest, hrest, rfl⟩ := Option.map_eq_some_iff.mp hwalk
          rw [← hlisted] at hrest
          obtain ⟨after, hcollect, hafter, hlaterReads, hlaterHistories⟩ :=
            ih (some last) hnext hrest
          refine ⟨after, ?_, hafter, fun id => (hlaterReads id).trans (hreads id),
            fun id limit => (hlaterHistories id limit).trans (hhistories id limit)⟩
          simp only [NoteStore.collectNotebookIds, hlist, hmore, hcollect, Option.map_some,
            Except.map, hids, hnotes, List.map_append]

/-- The collected ids are those of the notes listed, each once. -/
theorem RevertLaws.collectNotebookIds (hlaws : backend.RevertLaws ready listed)
    (notebookId : Uuid) {fuel : Nat} (hready : ready store)
    (hfuel : (listed notebookId store).length < fuel) :
    ∃ after, backend.collectNotebookIds notebookId fuel none store =
        some (after, .ok ((listed notebookId store).map Keyed.id)) ∧ ready after ∧
      (∀ id, backend.readNote id after = backend.readNote id store) ∧
      ∀ id limit, backend.noteHistory id limit after = backend.noteHistory id limit store := by
  have hsorted := (hlaws.ordered notebookId store hready).sorted
  exact hlaws.collectNotebookIds_walk notebookId fuel none hready
    (walk_of_separated hsorted (fun item _ => le_refl _) hsorted (by decide) afterCursor_none
      hfuel)

end Listing

end NoteStore

open NoteStore

namespace Db

/-- What a server answers for a note are versions of it. -/
def TellsOwn (serverHistory : Uuid → Nat → Option (List (EntityVersion Note))) : Prop :=
  ∀ id limit, ∀ served ∈ serverHistory id limit, ∀ version ∈ served,
    ∀ note ∈ version.entity, note.id = id

/-- The notes of a notebook in the order of its listing. -/
def keyedIn (notebookId : Uuid) (db : Db) : List (Keyed Uuid) :=
  (sortedByKey (db.notesAfter notebookId none)).map Note.keyed

/-- The journal has one more entry. -/
structure Records (db after : Db) (change : Change) : Prop where
  deviceId : after.deviceId = db.deviceId
  entries : ∃ now, after.entityChanges = db.entityChanges ++ [⟨now, change⟩]

variable {db after : Db} {serverHistory : Uuid → Nat → Option (List (EntityVersion Note))}

/-- An entry that tells nothing of an entity leaves its history. -/
theorem Records.entityHistory {T : Type} {change : Change} (hrecords : db.Records after change)
    {version? : Change → Option (Option T)} (hother : version? change = none)
    (served : Option (List (EntityVersion T))) (limit : Nat) :
    after.entityHistory version? served limit = db.entityHistory version? served limit := by
  obtain ⟨now, hentries⟩ := hrecords.entries
  rw [Db.entityHistory, Db.entityHistory, hentries, List.filterMap_append, hrecords.deviceId]
  simp only [List.filterMap_cons, hother, Option.map_none, List.filterMap_nil, List.append_nil]

theorem LeavesOthers_of_records {change : Change} {id : Uuid} (hrecords : db.Records after change)
    (hreads : ∀ other, other ≠ id → after.readNote other = db.readNote other)
    (hother : ∀ other, other ≠ id → change.noteVersion? other = none) :
    (noteStore serverHistory).LeavesOthers id db after where
  reads := hreads
  histories other limit hne :=
    congrArg Except.ok (hrecords.entityHistory (hother other hne) _ limit)

theorem mem_entityHistory {T : Type} {version? : Change → Option (Option T)} {limit : Nat}
    {version : EntityVersion T} (hmem : version ∈ db.entityHistory version? none limit) :
    ∃ entry ∈ db.entityChanges, version? entry.change = some version.entity := by
  obtain ⟨entry, hentry, hversion⟩ :=
    List.mem_filterMap.mp (List.mem_reverse.mp (List.mem_of_mem_take hmem))
  obtain ⟨entity, hentity, rfl⟩ := Option.map_eq_some_iff.mp hversion
  exact ⟨entry, hentry, hentity⟩

theorem note_id_of_noteVersion {change : Change} {id : Uuid} {note : Note}
    (hversion : change.noteVersion? id = some (some note)) : note.id = id := by
  cases change <;> simp only [Change.noteVersion?, Option.ite_none_right_eq_some, reduceCtorEq,
    Option.some.injEq, and_false] at hversion
  · exact hversion.2 ▸ hversion.1
  · exact hversion.2 ▸ hversion.1

theorem note_id_of_target (hserver : TellsOwn serverHistory) {id : Uuid} {at_ : DateTime}
    {target : EntityVersion Note} {note : Note}
    (htarget : (noteStore serverHistory).revertTarget id at_ db = .ok target)
    (hentity : target.entity = some note) : note.id = id := by
  rw [NoteStore.revertTarget] at htarget
  simp only [noteStore] at htarget
  split at htarget
  · contradiction
  · next chosen hchosen =>
      obtain rfl := Except.ok.inj htarget
      obtain ⟨hmem, -⟩ := mem_of_stateAt hchosen
      cases hserved : serverHistory id (historyCap REVERT_SCAN_LIMIT) with
      | none =>
          rw [hserved] at hmem
          obtain ⟨entry, -, hversion⟩ := mem_entityHistory hmem
          exact note_id_of_noteVersion (hentity ▸ hversion)
      | some served =>
          rw [hserved] at hmem
          exact hserver id _ served hserved chosen hmem note hentity

theorem records_updateNote {note stored : Note} {now : DateTime}
    (hupdate : db.updateNote note now = .ok (after, stored)) :
    db.Records after (.noteUpdate stored) ∧ stored.id = note.id := by
  simp only [updateNote] at hupdate
  split at hupdate
  · contradiction
  · cases hupdate
    refine ⟨⟨?_, now, ?_⟩, rfl⟩
    · simp only [recordChange, refreshNoteLinks, restoreResources]
      split <;> rfl
    · simp only [recordChange, refreshNoteLinks, restoreResources]
      split <;> rfl

theorem holdsStateOf_updateNote {note stored : Note} {now : DateTime}
    (hupdate : db.updateNote note now = .ok (after, stored)) :
    ∃ found, after.readNote note.id = .ok found ∧ found.HoldsStateOf note := by
  simp only [updateNote] at hupdate
  split at hupdate
  · contradiction
  · cases hupdate
    exact ⟨_, PutsNote.read ⟨notes_restoreResources _ _ _, notebooks_restoreResources _ _ _⟩, rfl⟩

theorem revertLaws (hserver : TellsOwn serverHistory) :
    (noteStore serverHistory).RevertLaws (fun _ => True) keyedIn where
  ordered _ _ _ := ordered_sortedByKey nodup_notesAfter
  list notebookId db token _ := by
    have hpage := db.listNotesInNotebook_eq notebookId token
    refine ⟨db, (db.listNotesInNotebook notebookId 0 token).1, ?_, congrArg Prod.fst hpage,
      trivial, rfl, fun _ => rfl, fun _ _ => rfl⟩
    rw [keyedIn, ← hpage]
    rfl
  target db id at_ target note _ := note_id_of_target hserver
  update db note now _ := by
    refine ⟨trivial, ?_, ?_⟩
    · simp only [noteStore, noteRepository]
      cases hupdate : db.updateNote note now with
      | error failure => exact LeavesOthers.refl note.id db
      | ok done =>
          obtain ⟨hrecords, hid⟩ := records_updateNote hupdate
          refine LeavesOthers_of_records hrecords (updateNote_reads hupdate).notes ?_
          intro other hother
          simp only [Change.noteVersion?, hid, if_neg (Ne.symm hother)]
    · intro stored hstored
      simp only [noteStore, noteRepository] at hstored ⊢
      cases hupdate : db.updateNote note now with
      | error failure =>
          rw [hupdate] at hstored
          contradiction
      | ok done => exact holdsStateOf_updateNote hupdate
  delete db id ts now _ := by
    refine ⟨trivial, ?_, ?_⟩
    · simp only [noteStore]
      cases hdelete : db.deleteNote id ts now with
      | error failure => exact LeavesOthers.refl id db
      | ok after =>
          have hrecords : ∃ vv, db.Records after (.noteDelete id ts vv db.deviceId) := by
            simp only [deleteNote] at hdelete
            split at hdelete
            · contradiction
            · cases hdelete
              exact ⟨_, rfl, now, rfl⟩
          obtain ⟨vv, hrecords⟩ := hrecords
          refine LeavesOthers_of_records hrecords (deleteNote_reads hdelete).notes ?_
          intro other hother
          simp only [Change.noteVersion?, if_neg (Ne.symm hother)]
    · intro hresult found hfound
      simp only [noteStore] at hresult hfound
      cases hdelete : db.deleteNote id ts now with
      | ok after =>
          rw [hdelete] at hfound
          exact Option.isSome_iff_ne_none.mp ((deleteNote_reads hdelete).read found hfound)
      | error failure =>
          rw [hdelete] at hfound
          obtain ⟨row, hrow, -⟩ := readNote_ok_iff.mp hfound
          simp only [deleteNote, hrow] at hdelete
          contradiction

end Db

namespace FsTree

variable {tree : FsTree} {place : Uuid → Nat} {id other : Uuid}

/-- A write that is of no log but those of the note. -/
def SparesLogs (id : Uuid) (write : TreeWrite) : Prop :=
  ∀ noteId device log, write = .noteLog noteId device log → noteId = id

theorem noteLogs_performAll {writes : List TreeWrite}
    (hwrites : ∀ write ∈ writes, SparesLogs id write) (hother : other ≠ id) :
    (tree.performAll place writes).noteLogs other = tree.noteLogs other := by
  induction writes generalizing tree with
  | nil => rfl
  | cons write rest ih =>
      change ((tree.perform place write).performAll place rest).noteLogs other = _
      rw [ih fun later hlater => hwrites later (List.mem_cons_of_mem _ hlater)]
      by_cases hlog : ∃ noteId device log, write = .noteLog noteId device log
      · obtain ⟨noteId, device, log, rfl⟩ := hlog
        obtain rfl := hwrites _ List.mem_cons_self noteId device log rfl
        simp only [noteLogs, FsTree.perform, noteFolder_modifyNote, if_neg (Ne.symm hother)]
      · rw [noteLogs, logs_perform_other tree fun noteId device log heq =>
          hlog ⟨noteId, device, log, heq⟩, noteLogs]

theorem noteHistory_performAll {writes : List TreeWrite}
    (hwrites : ∀ write ∈ writes, SparesLogs id write) (hother : other ≠ id) (limit : Nat) :
    (tree.performAll place writes).noteHistory other limit = tree.noteHistory other limit := by
  rw [FsTree.noteHistory, FsTree.noteHistory, noteLogs_performAll hwrites hother]

theorem sparesLogs_appendNoteOp (timestamp : DateTime) (op : NoteOp) :
    (tree.appendNoteOp place id timestamp op).Writes (SparesLogs id) := by
  intro write hwrite noteId device log heq
  subst heq
  rcases mem_appendNoteOp hwrite with ⟨own, held, hsame⟩ | ⟨_, _, hsame⟩ | ⟨_, _, hsame⟩
  · cases hsame
    rfl
  · contradiction
  · contradiction

theorem sparesLogs_cascade {noteId : Uuid} {change : StoredResource → Option StoredResource}
    {files : List (Uuid × Sidecar StoredResource)} :
    (cascadeResources noteId change files).Writes (SparesLogs id) := by
  intro write hwrite
  obtain ⟨_, _, _, -, -, rfl⟩ := mem_cascadeResources hwrite
  intro _ _ _ heq
  contradiction

theorem sparesLogs_updateNote (note : Note) (now : DateTime) :
    (tree.updateNote place note now).Writes (SparesLogs note.id) := by
  unfold FsTree.updateNote
  split
  · exact fun write hwrite => absurd hwrite List.not_mem_nil
  · refine Plan.writes_reading fun prior _ =>
      Plan.writes_bind (sparesLogs_appendNoteOp now _) fun merged _ => ?_
    split
    · exact Plan.writes_bind sparesLogs_cascade fun _ _ => Plan.writes_done merged
    · exact Plan.writes_done merged

theorem sparesLogs_deleteNote (ts now : DateTime) :
    (tree.deleteNote place id ts now).Writes (SparesLogs id) := by
  unfold FsTree.deleteNote
  split
  · exact fun write hwrite => absurd hwrite List.not_mem_nil
  · exact Plan.writes_bind (sparesLogs_appendNoteOp now _) fun _ _ => sparesLogs_cascade

theorem readNote_of_mergeNote {after : FsTree} (hmerge : after.mergeNote id = tree.mergeNote id) :
    after.readNote id = tree.readNote id := by
  rw [FsTree.readNote, FsTree.readNote, hmerge]

theorem WellFiled.note_id_of_target (hfiled : tree.WellFiled) {limit : Nat} {at_ : DateTime}
    {target : EntityVersion Note} {note : Note}
    (htarget : stateAt (tree.noteHistory id limit) at_ = some target)
    (hentity : target.entity = some note) : note.id = id := by
  obtain ⟨hmem, -⟩ := mem_of_stateAt htarget
  have hversion := List.mem_mergeSort.mp (List.mem_of_mem_take hmem)
  obtain ⟨entry, hentry, rfl⟩ := List.mem_map.mp hversion
  obtain ⟨log, hlog, hheld⟩ := List.mem_flatten.mp hentry
  obtain ⟨stamped, hupsert, rfl⟩ := Option.map_eq_some_iff.mp hentity
  refine hfiled id log hlog entry hheld stamped.2 ?_
  cases hop : entry.op with
  | upsert content =>
      simp only [NoteLogEntry.upsert?, hop, Option.some.injEq] at hupsert
      rw [← hupsert]
  | tombstone deletedAt => simp [NoteLogEntry.upsert?, hop] at hupsert

end FsTree

namespace IndexedTree

variable {store : IndexedTree}

/-- The notes of a notebook in the order of its listing. -/
def keyedIn (notebookId : Uuid) (store : IndexedTree) : List (Keyed Uuid) :=
  (sortedByKey (store.notesIn notebookId)).map Note.keyed

/-- A call that writes the logs of one note. -/
theorem LeavesOthers_of_writes {A : Type} {place : Uuid → Nat} {id : Uuid} {plan : Plan A}
    (hwrites : plan.Writes (FsTree.SparesLogs id)) :
    (noteStore place).LeavesOthers id store (store.call place plan).1 := by
  have htree : (store.call place plan).1.tree = store.tree.performAll place plan.writes :=
    tree_performAll plan.writes
  refine ⟨fun other hother => ?_, fun other limit hother => ?_⟩
  · refine FsTree.readNote_of_mergeNote ?_
    rw [htree]
    simp only [FsTree.mergeNote, FsTree.mergeLogs, FsTree.noteLogs_performAll hwrites hother]
  · simp only [noteStore, htree, FsTree.noteHistory_performAll hwrites hother]

theorem Current.deletedAt_of_deleteNote (hcurrent : store.Current) {place : Uuid → Nat}
    {id : Uuid} {ts now : DateTime} {found : Note}
    (hread : (store.call place (store.tree.deleteNote place id ts now)).1.tree.readNote id =
      .ok found) : found.deletedAt ≠ none := by
  by_cases hlogs : store.tree.noteLogs id = []
  · have hafter : (store.call place (store.tree.deleteNote place id ts now)).1 = store := by
      rw [call, FsTree.deleteNote, if_pos hlogs]
      rfl
    rw [hafter, FsTree.readNote] at hread
    simp [FsTree.mergeNote, FsTree.mergeLogs, hlogs, merge, heads, Except.map] at hread
  · have hop : ∀ note, NoteOp.tombstone ts = .upsert note → note.id = id := by simp
    obtain ⟨note, happended, -⟩ := hcurrent.append place now hop rfl
    rw [FsTree.readNote, hcurrent.mergeNote_deleteNote place id ts now hlogs,
      happended.merged] at hread
    obtain ⟨entry, hentry, hresolved⟩ := happended.resolved
    rw [resolvedNote, hentry] at hresolved
    cases note with
    | none => contradiction
    | some note =>
        obtain ⟨source, -, rfl⟩ := Option.map_eq_some_iff.mp hresolved.symm
        obtain rfl := Except.ok.inj hread
        exact Option.some_ne_none ts

theorem revertLaws (place : Uuid → Nat) : (noteStore place).RevertLaws Current keyedIn where
  ordered notebookId store hcurrent := ordered_sortedByKey (hcurrent.nodup_notesIn notebookId)
  list notebookId store token hcurrent := by
    obtain ⟨after, notes, hlist, hnotes, hafter, htree, -⟩ :=
      hcurrent.listNotesInNotebook_keyed notebookId token
    refine ⟨after, notes, hlist, hnotes, hafter, ?_, fun id => ?_, fun id limit => ?_⟩
    · rw [keyedIn, keyedIn, notesIn, notesIn, htree]
    · simp only [noteStore, htree]
    · simp only [noteStore, htree]
  target store id at_ target note hcurrent htarget hentity := by
    rw [NoteStore.revertTarget] at htarget
    simp only [noteStore] at htarget
    split at htarget
    · contradiction
    · next chosen hchosen =>
        obtain rfl := Except.ok.inj htarget
        exact hcurrent.filed.note_id_of_target hchosen hentity
  update store note now hcurrent := by
    refine ⟨hcurrent.updateNote place note now,
      LeavesOthers_of_writes (FsTree.sparesLogs_updateNote note now), fun stored hstored => ?_⟩
    by_cases hlogs : store.tree.noteLogs note.id = []
    · simp only [noteStore, noteRepository, call, FsTree.updateNote, if_pos hlogs] at hstored
      contradiction
    · obtain ⟨-, -, hmerge, -⟩ := hcurrent.upsert place note now rfl
      rw [← hcurrent.mergeNote_updateNote place note now hlogs note.id] at hmerge
      refine ⟨note, ?_, rfl⟩
      simp only [noteStore, noteRepository, FsTree.readNote, hmerge]
  delete store id ts now hcurrent :=
    ⟨hcurrent.deleteNote place id ts now,
      LeavesOthers_of_writes (FsTree.sparesLogs_deleteNote ts now),
      fun _ found hfound => hcurrent.deletedAt_of_deleteNote hfound⟩

end IndexedTree

/-- What the batches of a backend come to, of notes and of a notebook.  Its listing
changes nothing that is read. -/
structure BatchesStop {S : Type} (backend : NoteStore S) (ready : S → Prop)
    (listed : Uuid → S → List (Keyed Uuid)) : Prop where
  notes : ∀ store at_ ids clocks, ready store →
    backend.StopsAtFailure clocks at_ ids store (backend.revertNotesToWith at_ ids clocks store)
  notebook : ∀ store at_ notebookId clocks fuel, ready store →
    (listed notebookId store).length < fuel → ∃ read ids,
      ids = (listed notebookId store).map Keyed.id ∧
      (∀ id, backend.readNote id read = backend.readNote id store) ∧
      (∀ id limit, backend.noteHistory id limit read = backend.noteHistory id limit store) ∧
      ∃ done, backend.revertNotebookNotesTo clocks notebookId at_ fuel store = some done ∧
        backend.StopsAtFailure clocks at_ ids read done

theorem NoteStore.RevertLaws.batchesStop {S : Type} {backend : NoteStore S} {ready : S → Prop}
    {listed : Uuid → S → List (Keyed Uuid)} (hlaws : backend.RevertLaws ready listed) :
    BatchesStop backend ready listed where
  notes store at_ ids clocks hready := (hlaws.revertNotesToWith at_ ids clocks hready).2
  notebook store at_ notebookId clocks fuel hready hfuel := by
    obtain ⟨read, hcollect, hread, hreads, hhistories⟩ :=
      hlaws.collectNotebookIds notebookId hready hfuel
    refine ⟨read, _, rfl, hreads, hhistories, _, ?_,
      (hlaws.revertNotesToWith at_ _ clocks hread).2⟩
    rw [NoteStore.revertNotebookNotesTo, hcollect]
    rfl

/-- The reverts of a batch run in turn up to the first that fails. -/
theorem batches_stop_at_failure
    {serverHistory : Uuid → Nat → Option (List (EntityVersion Note))}
    (hserver : Db.TellsOwn serverHistory) (place : Uuid → Nat) :
    BatchesStop (Db.noteStore serverHistory) (fun _ => True) Db.keyedIn ∧
      BatchesStop (IndexedTree.noteStore place) IndexedTree.Current IndexedTree.keyedIn :=
  ⟨(Db.revertLaws hserver).batchesStop, (IndexedTree.revertLaws place).batchesStop⟩

namespace BatchWitness

def noServer : Uuid → Nat → Option (List (EntityVersion Note)) := fun _ _ => none

def clocks (turn : Nat) : CallClock := ⟨6 + turn, 6 + turn, fun _ => 0, 1⟩

def performed (db : Db) (call : Db → Except StorageError (Db × Note)) : Db :=
  match call db with
  | .ok (after, _) => after
  | .error _ => db

/-- A note that was edited, and a later one. -/
def db : Db :=
  let first := performed (Db.empty "A") fun db => db.createNote (Note.new 1 "old" "" 1) 1
  let edited := performed first fun db => db.updateNote (Note.new 1 "new" "" 3) 3
  performed edited fun db => db.createNote (Note.new 2 "" "" 5) 5

theorem batch_stops :
    (Db.noteStore noServer).StopsAtFailure clocks 4 [1, 2] db
        ((Db.noteStore noServer).revertNotesToWith 4 [1, 2] clocks db) ∧
      (IndexedTree.noteStore fun _ => 0).StopsAtFailure clocks 4 [1, 2] (.empty "A")
        ((IndexedTree.noteStore fun _ => 0).revertNotesToWith 4 [1, 2] clocks (.empty "A")) := by
  have hserver : Db.TellsOwn noServer := fun _ _ _ hserved => by cases hserved
  obtain ⟨hdb, hfiles⟩ := batches_stop_at_failure hserver fun _ => 0
  exact ⟨hdb.notes db 4 [1, 2] clocks trivial,
    hfiles.notes (.empty "A") 4 [1, 2] clocks (IndexedTree.current_empty "A")⟩

/-- The second note was created after the instant, so the batch fails, and the first one has
its old title again. -/
theorem batch_splits :
    ((Db.noteStore noServer).revertNotesToWith 2 [1, 2] clocks db).2.toOption.isNone ∧
      (db.readNote 1).toOption.map Note.title = some "new" ∧
      (((Db.noteStore noServer).revertNotesToWith 2 [1, 2] clocks db).1.readNote 1).toOption.map
        Note.title = some "old" := by
  decide +kernel

end BatchWitness

end Keeplin
