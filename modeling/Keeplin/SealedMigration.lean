/-
Databases with and without a key as the two ends of a migration.  With a key, what is read is
opened and what is written is sealed, so that a database goes the way of the one that it is to
who has the key.
-/
import Keeplin.DbMigration
import Keeplin.Transparency

namespace Keeplin

open MigrationBackend

namespace EncryptedBackend

/-- What the database has become, and its answer. -/
def passed (backend : EncryptedBackend) (done : Db × Except StorageError Reply) :
    EncryptedBackend × Except StorageError Reply :=
  ({ backend with inner := done.1 }, done.2)

def migrationBackend (cipher : Cipher) : MigrationBackend EncryptedBackend DbClock where
  listNotebooks pageSize token backend :=
    openPage cipher.decNotebook (backend.inner.listNotebooks pageSize token)
  listTags pageSize token backend := openPage cipher.decTag (backend.inner.listTags pageSize token)
  listNotes pageSize token backend :=
    openPage cipher.decNote (backend.inner.listNotes pageSize token)
  listNoteTags noteId pageSize token backend :=
    openPage cipher.decTag (backend.inner.listNoteTags noteId pageSize token)
  listResources pageSize token backend := listResources cipher backend pageSize token
  readResource id backend := readResource cipher backend id
  createNotebook clock notebook backend :=
    serve cipher backend (.createNotebook notebook clock.changedAt)
  createTag clock tag backend := serve cipher backend (.createTag tag clock.changedAt)
  createNote clock note backend := serve cipher backend (.createNote note clock.changedAt)
  addNoteTag clock noteTag backend :=
    serve cipher backend (.addNoteTag noteTag clock.ts clock.changedAt)
  createResource clock resource data backend :=
    serve cipher backend (.createResource resource data clock.changedAt)

/-- Without a key the calls go to the database as they are. -/
def plainBackend : MigrationBackend EncryptedBackend DbClock where
  listNotebooks pageSize token backend :=
    Db.migrationBackend.listNotebooks pageSize token backend.inner
  listTags pageSize token backend := Db.migrationBackend.listTags pageSize token backend.inner
  listNotes pageSize token backend := Db.migrationBackend.listNotes pageSize token backend.inner
  listNoteTags noteId pageSize token backend :=
    Db.migrationBackend.listNoteTags noteId pageSize token backend.inner
  listResources pageSize token backend :=
    Db.migrationBackend.listResources pageSize token backend.inner
  readResource id backend := Db.migrationBackend.readResource id backend.inner
  createNotebook clock notebook backend := passed backend
    (Db.migrationBackend.createNotebook clock notebook backend.inner)
  createTag clock tag backend := passed backend
    (Db.migrationBackend.createTag clock tag backend.inner)
  createNote clock note backend := passed backend
    (Db.migrationBackend.createNote clock note backend.inner)
  addNoteTag clock noteTag backend := passed backend
    (Db.migrationBackend.addNoteTag clock noteTag backend.inner)
  createResource clock resource data backend := passed backend
    (Db.migrationBackend.createResource clock resource data backend.inner)

def buildStorage : Option Cipher → MigrationBackend EncryptedBackend DbClock
  | some cipher => migrationBackend cipher
  | none => plainBackend

/-- The database as it is to who has the key. -/
def opened (key : Option Cipher) (backend : EncryptedBackend) : Db :=
  match key with
  | some cipher => cipher.revealDb backend.inner
  | none => backend.inner

end EncryptedBackend

namespace Cipher

open EncryptedBackend

variable {cipher : Cipher} {db : Db}

/-- The live resources were sealed, and their payloads, where they have one. -/
def Whole (db : Db) : Prop :=
  EveryRow (fun _ row => row.deletedAt = none → row.title ≠ "" ∧ row.data ≠ some []) db.resources

theorem of_map_eq {E A B : Type} {change : A → B} (hinjective : change.Injective)
    {result other : Except E A} (hsame : result.map change = other.map change) :
    result = other := by
  cases result with
  | error failure =>
      cases other with
      | error found => rw [Except.error.inj hsame]
      | ok item => cases hsame
  | ok item =>
      cases other with
      | error found => cases hsame
      | ok found => rw [hinjective (Except.ok.inj hsame)]

theorem Sealed.openPage_listResources (hsealed : cipher.Sealed db) (hwhole : Whole db)
    (pageSize : Nat) (token : Option Text) :
    openPage cipher.decResource (db.listResources pageSize token) =
      .ok ((cipher.revealDb db).listResources pageSize token) := by
  rw [Db.listResources, Db.listResources, liveResources_revealDb]
  refine openPage_createdPage ?_ ?_ (fun resource hresource =>
    hsealed.decResource_of_live hresource ?_) pageSize token
  · exact fun _ => rfl
  · exact fun _ => rfl
  · obtain ⟨id, row, hrow, rfl, hlive⟩ := mem_selectLive.mp hresource
    exact (hwhole id row hrow hlive).1

theorem Sealed.readResource_whole (hsealed : cipher.Sealed db) (hwhole : Whole db) (rng : Rng)
    (id : Uuid) : readResource cipher ⟨db, rng⟩ id = (cipher.revealDb db).readResource id := by
  have hread := (readResource_iff hsealed id rng).mpr (by
    intro item hitem hempty
    obtain ⟨row, hrow, -, hlive⟩ := Db.row_of_readResource hitem
    have hdata := (hwhole id row hrow hlive).2
    rw [Db.readResource, hrow] at hitem
    simp only [hlive, ne_eq, not_true_eq_false, if_false] at hitem
    cases hbytes : row.data with
    | none =>
        rw [hbytes] at hitem
        cases hitem
    | some data =>
        rw [hbytes] at hitem hdata
        obtain rfl := Except.ok.inj hitem
        exact hdata (congrArg some hempty))
  exact of_map_eq (fun _ _ => Answer.resource.inj) (Option.some.inj hread)

theorem answersAs {source : EncryptedBackend} (hsealed : cipher.Sealed source.inner)
    (hwhole : Whole source.inner) :
    (migrationBackend cipher).AnswersAs source Db.migrationBackend
      (cipher.revealDb source.inner) where
  notebooks := hsealed.openPage_listNotebooks
  tags := hsealed.openPage_listTags
  notes := hsealed.openPage_listNotes
  noteTags := hsealed.openPage_listNoteTags
  resources := hsealed.openPage_listResources hwhole
  resource := hsealed.readResource_whole hwhole source.rng

theorem reply_serve (db : Db) (call : RepositoryCall) :
    (db.serve call).2 = (db.repositoryCall call).map Prod.snd := by
  rw [Db.serve]
  cases db.repositoryCall call <;> rfl

theorem reply_map {A B : Type} (result : Except StorageError (Db × A)) (reply : A → B) :
    (result.map (Prod.map id reply)).map Prod.snd = result.map fun done => reply done.2 := by
  cases result <;> rfl

/-- What is answered of an entity that was sealed is what is answered of the entity. -/
theorem reply_write {A : Type} {seals : A → StateM Rng A} {opens : A → Except StorageError A}
    {reply : A → Reply} {call : Db → A → Except StorageError (Db × A)} {revealed : A → A}
    (callPlain : Db → A → Except StorageError (Db × A))
    (hcall : ∀ db item, (call db item).map (Prod.map cipher.revealDb revealed) =
      callPlain (cipher.revealDb db) (revealed item))
    (hsealed : ∀ item rng, revealed (seals item rng).1 = item)
    (hopens : ∀ {db after item stored rng}, call db (seals item rng).1 = .ok (after, stored) →
      opens stored = .ok (revealed stored))
    (backend : EncryptedBackend) (item : A) :
    (backend.write seals opens reply call item).2 =
      (callPlain (cipher.revealDb backend.inner) item).map fun done => reply done.2 := by
  have hplain := hcall backend.inner (seals item backend.rng).1
  rw [hsealed] at hplain
  rw [← hplain]
  simp only [EncryptedBackend.write]
  cases hdone : call backend.inner (seals item backend.rng).1 with
  | error failure => rfl
  | ok done =>
      obtain ⟨after, stored⟩ := done
      simp only [hopens hdone]
      rfl

section Lawful

variable (hlawful : cipher.Lawful)
include hlawful

theorem reply_createNotebook (backend : EncryptedBackend) (notebook : Notebook)
    (changedAt : DateTime) :
    (serve cipher backend (.createNotebook notebook changedAt)).2 =
      ((cipher.revealDb backend.inner).serve (.createNotebook notebook changedAt)).2 := by
  refine Eq.trans ?_ ((reply_serve _ _).trans (reply_map _ _)).symm
  refine reply_write (fun db notebook => db.createNotebook notebook changedAt)
    (fun db notebook => revealDb_createNotebook db changedAt notebook)
    (fun notebook rng => revealNotebook_of_ok (undoes_encNotebook hlawful notebook rng)) ?_
    backend notebook
  intro db after item stored rng hstored
  rw [Db.createNotebook] at hstored
  split at hstored
  · cases hstored
  · cases hstored
    exact decNotebook_of_opens (opens_encNotebook hlawful item rng)

theorem reply_createTag (backend : EncryptedBackend) (tag : Tag) (changedAt : DateTime) :
    (serve cipher backend (.createTag tag changedAt)).2 =
      ((cipher.revealDb backend.inner).serve (.createTag tag changedAt)).2 := by
  refine Eq.trans ?_ ((reply_serve _ _).trans (reply_map _ _)).symm
  refine reply_write (fun db tag => db.createTag tag changedAt)
    (fun db tag => revealDb_createTag db changedAt tag)
    (fun tag rng => revealTag_of_ok (undoes_encTag hlawful tag rng)) ?_ backend tag
  intro db after item stored rng hstored
  rw [Db.createTag] at hstored
  split at hstored
  · cases hstored
  · cases hstored
    exact decTag_of_opens (opens_encTag hlawful item rng)

theorem reply_createNote (backend : EncryptedBackend) (note : Note) (changedAt : DateTime) :
    (serve cipher backend (.createNote note changedAt)).2 =
      ((cipher.revealDb backend.inner).serve (.createNote note changedAt)).2 := by
  refine Eq.trans ?_ ((reply_serve _ _).trans (reply_map _ _)).symm
  refine reply_write (fun db note => db.createNote note changedAt)
    (fun db note => revealDb_createNote db changedAt note)
    (fun note rng => revealNote_of_ok (undoes_encNote hlawful note rng)) ?_ backend note
  intro db after item stored rng hstored
  rw [Db.createNote] at hstored
  split at hstored
  · cases hstored
  · cases hstored
    exact decNote_of_opens (opens_encNote hlawful item rng)

theorem reply_createResource (backend : EncryptedBackend) (resource : Resource)
    (data : List UInt8) (changedAt : DateTime) :
    (serve cipher backend (.createResource resource data changedAt)).2 =
      ((cipher.revealDb backend.inner).serve (.createResource resource data changedAt)).2 := by
  have hdata : reveal cipher.decryptBytes (cipher.encryptBytes data backend.rng).1 = data :=
    reveal_of_ok (undoes_encryptBytes hlawful data backend.rng)
  refine Eq.trans ?_ ((reply_serve _ _).trans (reply_map _ _)).symm
  refine reply_write (fun db resource => db.createResource resource data changedAt)
    (fun db resource => ?_)
    (fun resource rng => revealResource_of_ok (undoes_encResource hlawful resource rng)) ?_
    { backend with rng := (cipher.encryptBytes data backend.rng).2 } resource
  · rw [revealDb_createResource, hdata]
  · intro db after item stored rng hstored
    rw [Db.createResource] at hstored
    split at hstored
    · cases hstored
    · cases hstored
      exact decResource_of_opens (opens_encResource hlawful item rng)

omit hlawful in
theorem reply_addNoteTag (backend : EncryptedBackend) (noteTag : NoteTag)
    (ts changedAt : DateTime) :
    (serve cipher backend (.addNoteTag noteTag ts changedAt)).2 =
      ((cipher.revealDb backend.inner).serve (.addNoteTag noteTag ts changedAt)).2 := by
  have hplain : ((cipher.revealDb backend.inner).serve (.addNoteTag noteTag ts changedAt)).2 =
      (((cipher.revealDb backend.inner).addNoteTag noteTag ts changedAt).map
        (·, Reply.done)).map Prod.snd := reply_serve _ _
  rw [hplain, ← revealDb_addNoteTag]
  change (backend.settle ((backend.inner.addNoteTag noteTag ts changedAt).map (·, Reply.done))).2 =
    _
  cases backend.inner.addNoteTag noteTag ts changedAt <;> rfl

theorem writesAs :
    WritesAs (fun (backend : EncryptedBackend) db => cipher.revealDb backend.inner = db)
      (migrationBackend cipher) Db.migrationBackend where
  createNotebook := by
    rintro now notebook backend _ rfl
    exact ⟨revealDb_serve hlawful backend _, reply_createNotebook hlawful backend notebook _⟩
  createTag := by
    rintro now tag backend _ rfl
    exact ⟨revealDb_serve hlawful backend _, reply_createTag hlawful backend tag _⟩
  createNote := by
    rintro now note backend _ rfl
    exact ⟨revealDb_serve hlawful backend _, reply_createNote hlawful backend note _⟩
  addNoteTag := by
    rintro now noteTag backend _ rfl
    exact ⟨revealDb_serve hlawful backend _, reply_addNoteTag backend noteTag _ _⟩
  createResource := by
    rintro now resource data backend _ rfl
    exact ⟨revealDb_serve hlawful backend _, reply_createResource hlawful backend resource data _⟩

end Lawful

theorem blank_revealDb (hblank : db.Blank) : (cipher.revealDb db).Blank where
  notebooks := fun id => by
    change (mapRows cipher.revealNotebookRow db.notebooks)[id]? = none
    rw [getElem?_mapRows, hblank.notebooks]
    rfl
  tags := fun id => by
    change (mapRows cipher.revealTagRow db.tags)[id]? = none
    rw [getElem?_mapRows, hblank.tags]
    rfl
  notes := fun id => by
    change (mapRows cipher.revealNoteRow db.notes)[id]? = none
    rw [getElem?_mapRows, hblank.notes]
    rfl
  noteTags := hblank.noteTags
  resources := fun id => by
    change (mapRows cipher.revealResourceRow db.resources)[id]? = none
    rw [getElem?_mapRows, hblank.resources]
    rfl

end Cipher

namespace EncryptedBackend

/-- What a store has to have sealed to be read with its key. -/
def Readable (key : Option Cipher) (backend : EncryptedBackend) : Prop :=
  ∀ cipher ∈ key, cipher.Sealed backend.inner ∧ Cipher.Whole backend.inner

theorem answersAs_opened {key : Option Cipher} {source : EncryptedBackend}
    (hreadable : source.Readable key) :
    (buildStorage key).AnswersAs source Db.migrationBackend (source.opened key) := by
  cases key with
  | none => exact ⟨fun _ _ => rfl, fun _ _ => rfl, fun _ _ => rfl, fun _ _ _ => rfl,
      fun _ _ => rfl, fun _ => rfl⟩
  | some cipher =>
      obtain ⟨hsealed, hwhole⟩ := hreadable cipher rfl
      exact Cipher.answersAs hsealed hwhole

theorem writesAs_opened {key : Option Cipher} (hlawful : ∀ cipher ∈ key, cipher.Lawful) :
    WritesAs (fun backend db => backend.opened key = db) (buildStorage key)
      Db.migrationBackend := by
  cases key with
  | none =>
      have hpassed : ∀ call : Db → Db × Except StorageError Reply,
          Alike (fun backend db => backend.opened none = db)
            (fun backend => passed backend (call backend.inner)) call := by
        rintro call backend _ rfl
        exact ⟨rfl, rfl⟩
      exact ⟨fun _ _ => hpassed _, fun _ _ => hpassed _, fun _ _ => hpassed _,
        fun _ _ => hpassed _, fun _ _ _ => hpassed _⟩
  | some cipher => exact Cipher.writesAs (hlawful cipher rfl)

theorem blank_opened {key : Option Cipher} {target : EncryptedBackend}
    (hblank : target.inner.Blank) : (target.opened key).Blank := by
  cases key with
  | none => exact hblank
  | some cipher => exact Cipher.blank_revealDb hblank

/-- Databases are migrated as those that they are to who has their keys, whichever of them has
a key, and whether or not it is the same. -/
theorem migrate_reveals {key other : Option Cipher} {source target : EncryptedBackend}
    {fuel : Nat} (clock : Nat → DbClock) (hreadable : source.Readable key)
    (hlawful : ∀ cipher ∈ other, cipher.Lawful) (hids : (source.opened key).AllUuids)
    (hfuel : (source.opened key).Enough fuel) (hblank : target.inner.Blank) :
    Procedures.Leads
      (migrate (buildStorage key) (buildStorage other) fuel clock source) ⟨target, 0⟩
      fun outcome after => (source.opened key).Copies (after.target.opened other).contents
        outcome := by
  have hopened : (target.opened other).Blank := blank_opened hblank
  have htracks := migrate_tracks (answersAs_opened hreadable) (writesAs_opened hlawful) fuel clock
  refine (htracks.leads ⟨rfl, rfl⟩ (migrate_leads (Db.lists hids hfuel) Db.takes trivial
    hopened.isEmpty hopened.unused)).imp ?_
  rintro outcome after ⟨plain, ⟨hsame, -⟩, hdone⟩
  rw [hsame]
  exact Db.copies_of_migrated hdone

end EncryptedBackend

namespace SealedMigrationWitness

open TransparencyWitness

def day : DateTime := 1000000000

def clock (_ : Nat) : DbClock := ⟨day, day⟩

def memo : Note where
  id := 1
  title := "Trip"
  body := "Pack"
  notebookId := Uuid.nil
  isTodo := false
  todoDue := none
  todoCompleted := none
  createdAt := day
  updatedAt := day
  deletedAt := none
  «alias» := none
  bookmarks := []
  links := []
  vv := ∅
  lastWriter := "laptop"
  isPinned := false
  isStarred := false
  sortKey := 0

def travel : Tag := ⟨2, "Travel", day, day, none, ∅, "laptop", false⟩

def map : Resource :=
  ⟨3, 1, "Map", "image/png", "map.png", 2, none, some (4, 3), day, none, ∅, "laptop"⟩

def shelf : List RepositoryCall :=
  [.createNote memo day, .createTag travel day, .addNoteTag ⟨1, 2⟩ day day,
    .createResource map [7, 8] day]

/-- What a laptop has sealed. -/
def sealedShelf : EncryptedBackend :=
  EncryptedBackend.serveAll cipher ⟨.empty "laptop", nonces⟩ shelf

theorem sealed_shelf : cipher.Sealed sealedShelf.inner := by
  refine (Cipher.sealed_empty "laptop").serveAll lawful fun call hcall => ?_
  simp only [shelf, List.mem_cons, List.not_mem_nil, or_false] at hcall
  rcases hcall with rfl | rfl | rfl | rfl
  · exact trivial
  · exact trivial
  · exact trivial
  · change IsUuid 3
    decide

/-- What the laptop has sealed, as a database without a key has it. -/
def plainShelf : Db := (Db.empty "laptop").serveAll shelf

theorem opened_shelf : sealedShelf.opened (some cipher) = plainShelf := by
  change cipher.revealDb sealedShelf.inner = _
  rw [sealedShelf, Cipher.revealDb_serveAll lawful, Cipher.revealDb_empty, plainShelf]

theorem whole_shelf : Cipher.Whole sealedShelf.inner := by
  have hrows : ∀ pair ∈ sealedShelf.inner.resources.toList,
      pair.2.title ≠ "" ∧ pair.2.data ≠ some [] := by
    decide +kernel
  intro id row hrow _
  exact hrows (id, row) (Std.ExtTreeMap.mem_toList_iff_getElem?_eq_some.mpr hrow)

theorem isUuid_shelf :
    (∀ id ∈ plainShelf.notebooks.keys, IsUuid id) ∧ (∀ id ∈ plainShelf.tags.keys, IsUuid id) ∧
      (∀ id ∈ plainShelf.notes.keys, IsUuid id) ∧
      (∀ id ∈ plainShelf.resources.keys, IsUuid id) := by
  decide +kernel

theorem listed_shelf :
    (plainShelf.liveNotebooks.length < 2 ∧ plainShelf.liveTags.length < 2 ∧
      (liveNoteRows plainShelf.notes).length < 2 ∧ plainShelf.liveResources.length < 2) ∧
    plainShelf.listing.report = ⟨0, 1, 1, 1, 1⟩ ∧
    ∀ pair ∈ plainShelf.resources.toList, pair.2.data ≠ none := by
  decide +kernel

theorem allUuids_shelf : plainShelf.AllUuids := by
  obtain ⟨hnotebooks, htags, hnotes, hresources⟩ := isUuid_shelf
  exact ⟨fun id hid => hnotebooks id (Std.ExtTreeMap.mem_keys.mpr hid),
    fun id hid => htags id (Std.ExtTreeMap.mem_keys.mpr hid),
    fun id hid => hnotes id (Std.ExtTreeMap.mem_keys.mpr hid),
    fun id hid => hresources id (Std.ExtTreeMap.mem_keys.mpr hid)⟩

theorem not_missesBytes_shelf : ¬ plainShelf.MissesBytes := by
  rintro ⟨id, row, hrow, -, hdata⟩
  exact listed_shelf.2.2 (id, row) (Std.ExtTreeMap.mem_toList_iff_getElem?_eq_some.mpr hrow) hdata

theorem blank_empty : (Db.empty "desktop").Blank :=
  ⟨fun _ => Std.ExtTreeMap.getElem?_empty, fun _ => Std.ExtTreeMap.getElem?_empty,
    fun _ => Std.ExtTreeMap.getElem?_empty, fun _ => Std.ExtTreeMap.getElem?_empty,
    fun _ => Std.ExtTreeMap.getElem?_empty⟩

/-- The key is dropped. -/
theorem migrate_reveals_shelf :
    ∃ after, migrate (EncryptedBackend.buildStorage (some cipher))
        (EncryptedBackend.buildStorage none) 2 clock sealedShelf
        ⟨⟨.empty "desktop", nonces⟩, 0⟩ = some (after, .ok ⟨0, 1, 1, 1, 1⟩) ∧
      Contents.Same plainShelf.contents after.target.inner.contents := by
  have hreadable : sealedShelf.Readable (some cipher) := by
    intro found hfound
    obtain rfl := Option.mem_some.mp hfound
    exact ⟨sealed_shelf, whole_shelf⟩
  obtain ⟨outcome, after, hrun, hdone⟩ := @EncryptedBackend.migrate_reveals (some cipher) none
    sealedShelf ⟨.empty "desktop", nonces⟩ 2 clock hreadable
    (fun found hfound => absurd hfound (Option.not_mem_none found))
    (by rw [opened_shelf]; exact allUuids_shelf) (by rw [opened_shelf]; exact listed_shelf.1)
    blank_empty
  rw [opened_shelf] at hdone
  cases outcome with
  | error failure => exact absurd hdone not_missesBytes_shelf
  | ok report =>
      obtain ⟨-, rfl, hsame⟩ := hdone
      rw [listed_shelf.2.1] at hrun
      exact ⟨after, hrun, hsame⟩

end SealedMigrationWitness

end Keeplin
