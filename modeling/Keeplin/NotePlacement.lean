/-
Where the live notes of a store stand: the notebook of each, its pin and its sort
key.  What the calls of clients read of this and what a write of a note does to it,
over either backend.
-/
import Keeplin.NoteEdits
import Keeplin.NoteHistory
import Keeplin.InboxResequencing

namespace Keeplin

/-- What the calls of clients ask of a backend, with the clock where it reads it. -/
structure NoteStore (S : Type) extends NoteRepository S where
  readNote : Uuid → S → Except StorageError Note
  notebookSortProfile : Uuid → S → S × Except StorageError NotebookSortProfile
  createNote : Note → DateTime → S → S × Except StorageError Note
  deleteNote : Uuid → DateTime → DateTime → S → S × Except StorageError Unit
  noteHistory : Uuid → Nat → S → Except StorageError (List (EntityVersion Note))

/-- Where a live note stands. -/
structure Placement where
  id : Uuid
  notebookId : Uuid
  isPinned : Bool
  sortKey : Nat
deriving DecidableEq

def Note.placement (note : Note) : Placement :=
  ⟨note.id, note.notebookId, note.isPinned, note.effectiveSortKey⟩

theorem Note.effectiveSortKey_pos (note : Note) : 0 < note.effectiveSortKey := by
  unfold Note.effectiveSortKey
  split
  · decide
  · next hne => exact Nat.pos_of_ne_zero hne

section Laws

variable {S : Type} (live : S → List Placement)

/-- Every live note stands where it stood. -/
def Stays (store after : S) : Prop :=
  ∀ item, item ∈ live after ↔ item ∈ live store

/-- A written note stands where it says if it is live, and every other where it
stood. -/
def Places (note : Note) (store after : S) : Prop :=
  ∀ item, item ∈ live after ↔
    (item = note.placement ∧ note.deletedAt = none) ∨ (item.id ≠ note.id ∧ item ∈ live store)

def Removes (id : Uuid) (store after : S) : Prop :=
  ∀ item, item ∈ live after ↔ item.id ≠ id ∧ item ∈ live store

/-- A call that was done has its effect; one that failed may have it as well. -/
def Performs {A : Type} (ready : S → Prop) (effect : S → S → Prop) (store : S)
    (done : S × Except StorageError A) : Prop :=
  ready done.1 ∧ match done.2 with
    | .ok _ => effect store done.1
    | .error _ => effect store done.1 ∨ Stays live store done.1

/-- A backend whose reads and writes show where its live notes stand. -/
structure KeepsPlacements (backend : NoteStore S) (ready : S → Prop) : Prop where
  ids : ∀ store, ready store → ((live store).map Placement.id).Nodup
  keys : ∀ store, ready store → ∀ item ∈ live store, 0 < item.sortKey
  read : ∀ store id note, ready store → backend.readNote id store = .ok note →
    note.id = id ∧ (note.deletedAt = none → note.placement ∈ live store)
  profile : ∀ store notebookId, ready store → ∃ after keys,
    backend.notebookSortProfile notebookId store = (after, .ok (.fromEffectiveKeys keys)) ∧
      ready after ∧ Stays live store after ∧
      keys.Perm (((live store).filter fun item => item.notebookId = notebookId).map
        Placement.sortKey)
  list : ∀ store token, ready store → ∃ after notes more,
    backend.listNotesInNotebook INBOX_ID 0 token store = (after, .ok (notes, more)) ∧
      ready after ∧ Stays live store after ∧ (notes.map Note.id).Nodup ∧
      ∀ note ∈ notes, note.notebookId = INBOX_ID ∧ note.deletedAt = none ∧
        note.placement ∈ live store
  create : ∀ store note now, ready store →
    Performs live ready (Places live note) store (backend.createNote note now store)
  update : ∀ store note now, ready store →
    Performs live ready (Places live note) store (backend.updateNote note now store)
  updates : ∀ store note now stored, ready store → backend.readNote note.id store = .ok stored →
    stored.deletedAt = none → ∃ after updated,
      backend.updateNote note now store = (after, .ok updated)
  delete : ∀ store id ts now, ready store →
    Performs live ready (Removes live id) store (backend.deleteNote id ts now store)

variable {live}

theorem Stays.refl (store : S) : Stays live store store := fun _ => Iff.rfl

theorem Stays.trans {store middle after : S} (hfirst : Stays live store middle)
    (hsecond : Stays live middle after) : Stays live store after :=
  fun item => (hsecond item).trans (hfirst item)

theorem Performs.ready {A : Type} {ready : S → Prop} {effect : S → S → Prop} {store : S}
    {done : S × Except StorageError A} (hdone : Performs live ready effect store done) :
    ready done.1 :=
  hdone.1

theorem Performs.of_effect {A : Type} {ready : S → Prop} {effect : S → S → Prop} {store : S}
    {done : S × Except StorageError A} (hready : ready done.1) (heffect : effect store done.1) :
    Performs live ready effect store done := by
  refine ⟨hready, ?_⟩
  split
  · exact heffect
  · exact .inl heffect

theorem Performs.of_error {A : Type} {ready : S → Prop} {effect : S → S → Prop}
    {store after : S} (failure : StorageError) (hready : ready after)
    (hstays : Stays live store after) :
    Performs (A := A) live ready effect store (after, .error failure) :=
  ⟨hready, .inr hstays⟩

/-- Whether or not a call was done. -/
theorem Performs.cases {A : Type} {ready : S → Prop} {effect : S → S → Prop} {store : S}
    {done : S × Except StorageError A} (hdone : Performs live ready effect store done) :
    effect store done.1 ∨ Stays live store done.1 := by
  obtain ⟨after, result⟩ := done
  cases result with
  | ok value => exact .inl hdone.2
  | error failure => exact hdone.2

/-- The places are those of the live notes that are held, by id. -/
def Shows (held : S → Uuid → Option Note) (live : S → List Placement) (store : S) : Prop :=
  ∀ item, item ∈ live store ↔ ∃ note, held store item.id = some note ∧ note.placement = item

section Shows

variable {held : S → Uuid → Option Note} {store after : S} {note : Note} {id : Uuid}

theorem Shows.stays (hbefore : Shows held live store) (hafter : Shows held live after)
    (hsame : ∀ id, held after id = held store id) : Stays live store after := by
  intro item
  rw [hbefore, hafter, hsame]

theorem Shows.removes (hbefore : Shows held live store) (hafter : Shows held live after)
    (hnone : held after id = none) (hothers : ∀ other, other ≠ id → held after other =
      held store other) : Removes live id store after := by
  intro item
  rw [hbefore, hafter]
  by_cases hid : item.id = id
  · simp [hid, hnone]
  · simp [hid, hothers item.id hid]

/-- A note is held as it was written, up to what does not place it. -/
theorem Shows.places (hbefore : Shows held live store) (hafter : Shows held live after)
    {stored : Note} (hplacement : stored.placement = note.placement)
    (hheld : held after note.id = if note.deletedAt = none then some stored else none)
    (hothers : ∀ other, other ≠ note.id → held after other = held store other) :
    Places live note store after := by
  intro item
  rw [hbefore, hafter]
  by_cases hid : item.id = note.id
  · rw [hid, hheld]
    constructor
    · rintro ⟨found, hfound, rfl⟩
      obtain ⟨hlive, hfound⟩ := Option.ite_none_right_eq_some.mp hfound
      obtain rfl := Option.some.inj hfound
      exact .inl ⟨hplacement, hlive⟩
    · rintro (⟨rfl, hlive⟩ | ⟨hne, -⟩)
      · exact ⟨stored, if_pos hlive, hplacement⟩
      · exact absurd rfl hne
  · rw [hothers item.id hid]
    constructor
    · exact fun hitem => .inr ⟨hid, hitem⟩
    · rintro (⟨rfl, -⟩ | ⟨-, hitem⟩)
      · exact absurd rfl hid
      · exact hitem

end Shows

end Laws

namespace Db

/-- The live notes in their places. -/
def placements (db : Db) : List Placement :=
  db.collectNotes.map Note.placement

/-- The backend, with what a server answers of the history of a note. -/
def noteStore (serverHistory : Uuid → Nat → Option (List (EntityVersion Note))) :
    NoteStore Db where
  toNoteRepository := noteRepository
  readNote id db := db.readNote id
  notebookSortProfile notebookId db := (db, db.notebookSortProfile notebookId)
  createNote note now db :=
    match db.createNote note now with
    | .ok (after, note) => (after, .ok note)
    | .error failure => (db, .error failure)
  deleteNote id ts now db :=
    match db.deleteNote id ts now with
    | .ok after => (after, .ok ())
    | .error failure => (db, .error failure)
  noteHistory id limit db :=
    .ok (db.entityHistory (Change.noteVersion? id) (serverHistory id (historyCap limit)) limit)

/-- The note of a row if it is live. -/
def heldNote (db : Db) (id : Uuid) : Option Note :=
  liveNote ((db.readNote id).map some)

variable {db after : Db} {note : Note} {id : Uuid}

theorem heldNote_eq_some :
    db.heldNote id = some note ↔ db.readNote id = .ok note ∧ note.deletedAt = none := by
  rw [heldNote, liveNote_eq_some]
  cases db.readNote id <;> simp [Except.map]

theorem lists_collectNotes (db : Db) :
    StorageBackend.Lists storage.readNote Note.id Note.deletedAt db db.collectNotes :=
  lawful_storage.collectNotes trivial rfl

theorem shows_placements (db : Db) : Shows heldNote placements db := by
  intro item
  rw [placements, List.mem_map]
  constructor
  · rintro ⟨note, hnote, rfl⟩
    exact ⟨note, heldNote_eq_some.mpr ((db.lists_collectNotes.mem note).mp hnote), rfl⟩
  · rintro ⟨note, hheld, rfl⟩
    exact ⟨note, (db.lists_collectNotes.mem note).mpr (heldNote_eq_some.mp hheld), rfl⟩

/-- A row written for a note puts it in its place. -/
theorem PutsNote.places {row : NoteRow} (hputs : db.PutsNote after note.id row)
    (hplacement : (rowToNote note.id row).placement = note.placement)
    (hdeleted : row.deletedAt = note.deletedAt) : Places placements note db after := by
  refine (shows_placements db).places (shows_placements after) hplacement ?_ ?_
  · rw [heldNote, hputs.read, ← hdeleted]
    rfl
  · intro other hother
    have hread : after.readNote other = db.readNote other := hputs.others other hother
    rw [heldNote, heldNote, hread]

theorem createNote_places {stored : Note} {now : DateTime}
    (hcreate : db.createNote note now = .ok (after, stored)) :
    Places placements note db after := by
  simp only [createNote] at hcreate
  split at hcreate
  · contradiction
  · cases hcreate
    exact PutsNote.places ⟨rfl, rfl⟩ rfl rfl

theorem updateNote_places {stored : Note} {now : DateTime}
    (hupdate : db.updateNote note now = .ok (after, stored)) :
    Places placements note db after := by
  simp only [updateNote] at hupdate
  split at hupdate
  · contradiction
  · cases hupdate
    exact PutsNote.places ⟨notes_restoreResources _ _ _, notebooks_restoreResources _ _ _⟩ rfl rfl

theorem deleteNote_removes {ts now : DateTime} (hdelete : db.deleteNote id ts now = .ok after) :
    Removes placements id db after := by
  obtain ⟨hread, hothers, -⟩ := deleteNote_reads hdelete
  refine (shows_placements db).removes (shows_placements after) ?_ ?_
  · rw [Option.eq_none_iff_forall_ne_some]
    intro found hfound
    obtain ⟨hfound, hlive⟩ := heldNote_eq_some.mp hfound
    have hdeleted := hread found hfound
    rw [hlive] at hdeleted
    contradiction
  · intro other hother
    have hsame : after.readNote other = db.readNote other := hothers other hother
    rw [heldNote, heldNote, hsame]

theorem keepsPlacements (serverHistory : Uuid → Nat → Option (List (EntityVersion Note))) :
    KeepsPlacements placements (noteStore serverHistory) fun _ => True where
  ids db _ := by
    have hids := db.lists_collectNotes.nodup
    rw [placements, List.map_map]
    exact hids
  keys db _ item hitem := by
    obtain ⟨note, -, rfl⟩ := List.mem_map.mp hitem
    exact note.effectiveSortKey_pos
  read db id note _ hread := by
    obtain ⟨row, hrow, rfl⟩ := readNote_ok_iff.mp hread
    refine ⟨rfl, fun hlive => ?_⟩
    exact List.mem_map_of_mem ((db.lists_collectNotes.mem _).mpr ⟨hread, hlive⟩)
  profile db notebookId _ := by
    refine ⟨db, _, rfl, trivial, Stays.refl db, ?_⟩
    simp only [placements, List.filter_map, List.map_map]
    exact List.Perm.refl _
  list db token _ := by
    refine ⟨db, _, _, rfl, trivial, Stays.refl db, ?_, ?_⟩
    · have hids : ((sortedByKey (db.notesAfter INBOX_ID token)).map Note.id).Nodup := by
        rw [sortedByKey, ((List.mergeSort_perm _ _).map _).nodup_iff]
        exact nodup_notesAfter
      exact hids.sublist (((List.take_sublist _ _).trans (List.take_sublist _ _)).map _)
    · intro note hnote
      have hlisted : note ∈ db.notesAfter INBOX_ID token := by
        have hmem := List.mem_of_mem_take (List.mem_of_mem_take hnote)
        simpa [sortedByKey] using hmem
      obtain ⟨row, hrow, hsame, hinbox, hlive, -⟩ := mem_notesAfter.mp hlisted
      have hread := readNote_ok_iff.mpr ⟨row, hrow, hsame⟩
      have hdeleted : note.deletedAt = none := hsame ▸ hlive
      refine ⟨?_, hdeleted, (shows_placements db _).mpr
        ⟨note, heldNote_eq_some.mpr ⟨hread, hdeleted⟩, rfl⟩⟩
      rw [← hsame, rowToNote, hinbox]
      rfl
  create db note now _ := by
    refine ⟨trivial, ?_⟩
    simp only [noteStore]
    cases hcreate : db.createNote note now with
    | error failure => exact .inr (Stays.refl db)
    | ok stored => exact createNote_places hcreate
  update db note now _ := by
    refine ⟨trivial, ?_⟩
    simp only [noteStore, noteRepository]
    cases hupdate : db.updateNote note now with
    | error failure => exact .inr (Stays.refl db)
    | ok stored => exact updateNote_places hupdate
  updates db note now stored _ hread _ := by
    obtain ⟨row, hrow, -⟩ := readNote_ok_iff.mp hread
    obtain ⟨after, result, -, hupdate, -⟩ := db.updateNote_notes note hrow now
    exact ⟨after, result, by simp only [noteStore, noteRepository, hupdate]⟩
  delete db id ts now _ := by
    refine ⟨trivial, ?_⟩
    simp only [noteStore]
    cases hdelete : db.deleteNote id ts now with
    | error failure => exact .inr (Stays.refl db)
    | ok stored => exact deleteNote_removes hdelete

end Db

def FsTree.readNote (id : Uuid) (tree : FsTree) : Except StorageError Note :=
  match tree.mergeNote id with
  | .error failure => .error failure
  | .ok none => .error (.notFound id)
  | .ok (some note) => .ok note

namespace IndexedTree

def notebookSortProfile (notebookId : Uuid) (store : IndexedTree) :
    IndexedTree × Except StorageError NotebookSortProfile :=
  match store.withNoteIndex with
  | .error failure => (store, .error failure)
  | .ok idx =>
      let entries := idx.toList.filter fun entry => entry.2.notebookId = notebookId
      ({ store with index := some idx },
        .ok (.fromEffectiveKeys (entries.map fun entry => entry.2.effectiveSortKey)))

def noteStore (place : Uuid → Nat) : NoteStore IndexedTree where
  toNoteRepository := noteRepository place
  readNote id store := store.tree.readNote id
  notebookSortProfile := notebookSortProfile
  createNote note now store := store.call place (store.tree.createNote place note now)
  deleteNote id ts now store := store.call place (store.tree.deleteNote place id ts now)
  noteHistory id limit store := .ok (store.tree.noteHistory id limit)

def heldNote (store : IndexedTree) (id : Uuid) : Option Note :=
  liveNote (store.tree.mergeNote id)

def liveNotes (store : IndexedTree) : List Note :=
  store.tree.allNoteIds.filterMap store.heldNote

def placements (store : IndexedTree) : List Placement :=
  store.liveNotes.map Note.placement

variable {store after : IndexedTree} {note : Note} {id : Uuid} {place : Uuid → Nat}

theorem heldNote_eq_some :
    store.heldNote id = some note ↔
      store.tree.readNote id = .ok note ∧ note.deletedAt = none := by
  rw [heldNote, liveNote_eq_some, FsTree.readNote]
  cases hmerge : store.tree.mergeNote id with
  | error failure => simp
  | ok found => cases found <;> simp

theorem Sound.shows_placements (hsound : store.Sound) : Shows heldNote placements store := by
  intro item
  rw [placements, List.mem_map]
  constructor
  · rintro ⟨note, hnote, rfl⟩
    obtain ⟨id, -, hheld⟩ := List.mem_filterMap.mp hnote
    obtain rfl : note.id = id := hsound.note_id (liveNote_eq_some.mp hheld).1
    exact ⟨note, hheld, rfl⟩
  · rintro ⟨note, hheld, rfl⟩
    exact ⟨note, List.mem_filterMap.mpr ⟨_, mem_allNoteIds_of_live hheld, hheld⟩, rfl⟩

theorem Sound.nodup_liveNotes (hsound : store.Sound) : (store.liveNotes.map Note.id).Nodup :=
  hsound.nodup_live

/-- The writes of a cascade leave the notes. -/
theorem mergeNote_cascade {noteId : Uuid} {change : StoredResource → Option StoredResource}
    {files : List (Uuid × Sidecar StoredResource)} (other : Uuid) :
    (store.performAll place (FsTree.cascadeResources noteId change files).writes).tree.mergeNote
        other = store.tree.mergeNote other := by
  rw [tree_performAll, FsTree.mergeNote_cascade]

/-- The cascade of an update, if there is one, comes behind the write of the note. -/
theorem Current.mergeNote_updateNote (hcurrent : store.Current) (place : Uuid → Nat) (note : Note)
    (now : DateTime) (hlogs : store.tree.noteLogs note.id ≠ []) (other : Uuid) :
    (store.call place (store.tree.updateNote place note now)).1.tree.mergeNote other =
      (store.performAll place
        (store.tree.appendNoteOp place note.id now (.upsert note)).writes).tree.mergeNote other := by
  obtain ⟨hresult, -⟩ := hcurrent.upsert place note now rfl
  obtain ⟨prior, hprior⟩ := hcurrent.mergeNote_ok note.id
  simp only [call, FsTree.updateNote, if_neg hlogs, hprior, Plan.reading, Plan.bind, hresult]
  rw [performAll_append]
  split
  · simp only [FsTree.cascadeUnstampResources, Plan.done]
    split
    · exact mergeNote_cascade other
    · rw [List.append_nil]
      exact mergeNote_cascade other
  · rfl

/-- And so does the cascade of a deletion. -/
theorem Current.mergeNote_deleteNote (hcurrent : store.Current) (place : Uuid → Nat) (id : Uuid)
    (ts now : DateTime) (hlogs : store.tree.noteLogs id ≠ []) (other : Uuid) :
    (store.call place (store.tree.deleteNote place id ts now)).1.tree.mergeNote other =
      (store.performAll place
        (store.tree.appendNoteOp place id now (.tombstone ts)).writes).tree.mergeNote other := by
  have hop : ∀ note, NoteOp.tombstone ts = .upsert note → note.id = id := by simp
  obtain ⟨found, -, hresult, -⟩ := hcurrent.append place now hop rfl
  simp only [call, FsTree.deleteNote, if_neg hlogs, Plan.bind, hresult]
  cases found with
  | none => rfl
  | some note =>
      simp only
      rw [performAll_append]
      exact mergeNote_cascade other

/-- A note whose folder has logs is written whether or not its resources follow. -/
theorem Current.updateNote_places (hcurrent : store.Current) (place : Uuid → Nat) (note : Note)
    (now : DateTime) :
    Performs placements Current (Places placements note) store
      (store.call place (store.tree.updateNote place note now)) := by
  by_cases hlogs : store.tree.noteLogs note.id = []
  · rw [call, FsTree.updateNote, if_pos hlogs]
    exact Performs.of_error _ hcurrent (Stays.refl store)
  have hafter := hcurrent.updateNote place note now
  obtain ⟨-, -, hmerge, hothers⟩ := hcurrent.upsert place note now rfl
  refine Performs.of_effect hafter ?_
  refine hcurrent.shows_placements.places hafter.shows_placements rfl ?_ ?_
  · rw [heldNote, hcurrent.mergeNote_updateNote place note now hlogs, hmerge]
    rfl
  · intro other hother
    rw [heldNote, hcurrent.mergeNote_updateNote place note now hlogs, hothers other hother]
    rfl

theorem Current.deleteNote_removes (hcurrent : store.Current) (place : Uuid → Nat) (id : Uuid)
    (ts now : DateTime) :
    Performs placements Current (Removes placements id) store
      (store.call place (store.tree.deleteNote place id ts now)) := by
  by_cases hlogs : store.tree.noteLogs id = []
  · rw [call, FsTree.deleteNote, if_pos hlogs]
    exact Performs.of_error _ hcurrent (Stays.refl store)
  have hafter := hcurrent.deleteNote place id ts now
  have hop : ∀ note, NoteOp.tombstone ts = .upsert note → note.id = id := by simp
  obtain ⟨found, happended, -⟩ := hcurrent.append place now hop rfl
  refine Performs.of_effect hafter ?_
  refine hcurrent.shows_placements.removes hafter.shows_placements ?_ ?_
  · rw [heldNote, hcurrent.mergeNote_deleteNote place id ts now hlogs, happended.merged]
    obtain ⟨entry, hentry, rfl⟩ := happended.resolved
    rw [resolvedNote, hentry, Option.eq_none_iff_forall_ne_some]
    intro note hnote
    obtain ⟨hnote, hlive⟩ := liveNote_eq_some.mp hnote
    obtain ⟨source, -, rfl⟩ := Option.map_eq_some_iff.mp (Except.ok.inj hnote)
    contradiction
  · intro other hother
    rw [heldNote, hcurrent.mergeNote_deleteNote place id ts now hlogs,
      happended.others other hother]
    rfl

/-- The index has the keys of the live notes of a notebook. -/
theorem Current.perm_index (hcurrent : store.Current) {idx : NoteMetaIndex}
    (hentries : ∀ id, idx[id]? =
      (liveNote (store.tree.mergeNote id)).map NoteMetaEntry.fromNote) (notebookId : Uuid) :
    ((idx.toList.filter fun entry => entry.2.notebookId = notebookId).map
        fun entry => (⟨entry.2.effectiveSortKey, entry.1⟩ : Keyed Uuid)).Perm
      ((store.notesIn notebookId).map Note.keyed) := by
  rw [List.perm_ext_iff_of_nodup]
  · intro item
    simp only [List.mem_map, List.mem_filter, Prod.exists, decide_eq_true_eq,
      Std.ExtTreeMap.mem_toList_iff_getElem?_eq_some, hentries, Option.map_eq_some_iff]
    constructor
    · rintro ⟨id, entry, ⟨⟨note, hlive, rfl⟩, hnotebook⟩, rfl⟩
      obtain rfl : note.id = id := hcurrent.note_id (liveNote_eq_some.mp hlive).1
      exact ⟨note, hcurrent.mem_notesIn.mpr ⟨hlive, hnotebook⟩, rfl⟩
    · rintro ⟨note, hnote, rfl⟩
      obtain ⟨hlive, hnotebook⟩ := hcurrent.mem_notesIn.mp hnote
      exact ⟨note.id, .fromNote note, ⟨⟨note, hlive, rfl⟩, hnotebook⟩, rfl⟩
  · have hids := idx.nodup_ids fun entry => entry.2.notebookId = notebookId
    exact List.Nodup.of_map Keyed.id (by rwa [List.map_map])
  · have hids := hcurrent.nodup_notesIn notebookId
    exact List.Nodup.of_map Keyed.id (by rwa [List.map_map])

theorem tree_listNotesInNotebook (store : IndexedTree) (notebookId : Uuid) (pageSize : Nat)
    (token : Option (Keyed Uuid)) :
    (store.listNotesInNotebook notebookId pageSize token).1.tree = store.tree := by
  simp only [listNotesInNotebook]
  split <;> rfl

theorem keepsPlacements (place : Uuid → Nat) :
    KeepsPlacements placements (noteStore place) Current where
  ids store hcurrent := by
    have hids := hcurrent.nodup_liveNotes
    rw [placements, List.map_map]
    exact hids
  keys store _ item hitem := by
    obtain ⟨note, -, rfl⟩ := List.mem_map.mp hitem
    exact note.effectiveSortKey_pos
  read store id note hcurrent hread := by
    have hmerge : store.tree.mergeNote id = .ok (some note) := by
      simp only [noteStore, FsTree.readNote] at hread
      split at hread <;> cases hread
      assumption
    obtain rfl : note.id = id := hcurrent.note_id hmerge
    refine ⟨rfl, fun hlive => (hcurrent.shows_placements _).mpr ⟨note, ?_, rfl⟩⟩
    exact liveNote_eq_some.mpr ⟨hmerge, hlive⟩
  profile store notebookId hcurrent := by
    obtain ⟨idx, hidx, hentries⟩ := hcurrent.withNoteIndex
    refine ⟨{ store with index := some idx },
      (idx.toList.filter fun entry => entry.2.notebookId = notebookId).map
        fun entry => entry.2.effectiveSortKey, ?_,
      ⟨⟨hcurrent.folders, hcurrent.logs, hcurrent.filed, hcurrent.projected, hcurrent.merges⟩,
        hentries⟩, fun item => Iff.rfl, ?_⟩
    · simp only [noteStore, notebookSortProfile, hidx]
    · have hperm := (hcurrent.perm_index hentries notebookId).map Keyed.key
      simp only [List.map_map] at hperm
      simp only [placements, List.filter_map, List.map_map]
      exact hperm
  list store token hcurrent := by
    obtain ⟨after, notes, hlist, hnotes, hafter, -, hall⟩ :=
      hcurrent.listNotesInNotebook_inbox token
    have htree : after.tree = store.tree := by
      rw [← store.tree_listNotesInNotebook INBOX_ID 0 token, hlist]
    have hstays : Stays placements store after :=
      hcurrent.shows_placements.stays hafter.shows_placements fun id => by
        rw [heldNote, heldNote, htree]
    refine ⟨after, notes, _, hlist, hafter, hstays, ?_, ?_⟩
    · have hids : ((notes.map Note.keyed).map Keyed.id).Nodup := by
        rw [hnotes]
        exact hcurrent.ordered_inbox.ids.sublist
          (((List.take_sublist _ _).trans List.filter_sublist).map _)
      rwa [List.map_map] at hids
    · intro note hnote
      obtain ⟨hlive, hnotebook⟩ := hafter.mem_notesIn.mp (hall note hnote)
      refine ⟨hnotebook, (liveNote_eq_some.mp hlive).2, (hstays _).mp ?_⟩
      exact (hafter.shows_placements _).mpr ⟨note, hlive, rfl⟩
  create store note now hcurrent := by
    obtain ⟨hresult, hafter, hmerge, hothers⟩ := hcurrent.upsert place note now rfl
    refine Performs.of_effect hafter ?_
    refine hcurrent.shows_placements.places hafter.shows_placements rfl ?_ ?_
    · exact congrArg liveNote hmerge
    · exact fun other hother => congrArg liveNote (hothers other hother)
  update store note now hcurrent := hcurrent.updateNote_places place note now
  updates store note now stored hcurrent hread hlive := by
    obtain ⟨after, hupdate, -⟩ := hcurrent.updateNote_of_live place
      (heldNote_eq_some.mpr ⟨hread, hlive⟩) now
    exact ⟨after, note, hupdate⟩
  delete store id ts now hcurrent := hcurrent.deleteNote_removes place id ts now

end IndexedTree

end Keeplin
