/-
The search index over the linking layer and the SQLite store.  The listing of notes
is cut after a text that is rendered from the last note of a page, and the rows are
ordered by the same texts, so a rebuild comes by each live note.
-/
import Keeplin.DaemonStack
import Keeplin.SearchFaithful

namespace Keeplin

open StorageBackend SearchIndex

namespace Db

/-- The ids of the notes have 128 bits. -/
def HasUuids (backend : LinkingBackend Db) : Prop := ∀ id ∈ backend.inner.notes, IsUuid id

/-- The live tags of a note in the order of their listing. -/
def sortedTags (noteId : Uuid) (backend : LinkingBackend Db) : List Tag :=
  sortBy (createdKey Tag.createdAt Tag.id) (backend.inner.attachedTags noteId)

/-- Whether a note comes after a token. -/
def comesAfter (token : Option Text) (createdAt : DateTime) (id : Uuid) : Bool :=
  passesCreated Prod.fst Prod.snd (parseCursor token) (createdAt, id)

variable {patterns : LinkSyntax} {backend : LinkingBackend Db} {db : Db}

theorem liveNote_iff {id : Uuid} {note : Note} :
    (repositories patterns).liveNote backend id = some note ↔
      note.id = id ∧ note ∈ liveNoteRows backend.inner.notes := by
  have hread : ∀ found, (repositories patterns).readNote id backend = .ok found ↔
      ∃ row, backend.inner.notes[id]? = some row ∧ rowToNote id row = found :=
    fun found => readNote_ok_iff
  constructor
  · intro hlive
    simp only [Repositories.liveNote, look] at hlive
    split at hlive
    · next found hfound =>
        obtain ⟨row, hrow, rfl⟩ := (hread found).mp hfound
        simp only [Note.whenLive] at hlive
        split at hlive
        · next hdeleted =>
            obtain rfl := Option.some.inj hlive
            exact ⟨rfl, mem_liveNoteRows.mpr ⟨row, hrow, rfl, hdeleted⟩⟩
        · contradiction
    · contradiction
  · rintro ⟨rfl, hnote⟩
    obtain ⟨row, hrow, hsame, hdeleted⟩ := mem_liveNoteRows.mp hnote
    have hnone : note.deletedAt = none := by
      rw [← hsame]
      exact hdeleted
    rw [liveNote_of_read ((hread note).mpr ⟨row, hrow, hsame⟩), Note.whenLive, if_pos hnone]

theorem passesCursor_of_live {note : Note} (hnote : note ∈ liveNoteRows db.notes)
    (cursor : Text × Text) :
    passesCursor db.createdText cursor note =
      passesCreated Note.createdAt Note.id cursor note := by
  rw [passesCursor, passesCreated, createdText_of_live hnote]

/-- A live note that comes after a token is on the page or comes after its token. -/
theorem comesAfter_listNotes_iff (hids : ∀ id ∈ db.notes, IsUuid id) (pageSize : Nat)
    (token : Option Text) {note : Note} (hnote : note ∈ liveNoteRows db.notes) :
    comesAfter token note.createdAt note.id = true ↔
      note ∈ (db.listNotes pageSize token).1 ∨
        ∃ last, (db.listNotes pageSize token).2 = some last ∧
          comesAfter (some last) note.createdAt note.id = true := by
  have hpasses : ∀ token, comesAfter token note.createdAt note.id =
      passesCursor db.createdText (parseCursor token) note :=
    fun token => (passesCursor_of_live hnote (parseCursor token)).symm
  simp only [hpasses]
  refine passes_selectPage_iff (nodup_liveKeys hids) ?_ ?_ pageSize token hnote
  · intro cursor item later hitem hlater hpass hlt
    rw [rowKey_of_live hitem, rowKey_of_live hlater] at hlt
    rw [passesCursor_of_live hitem] at hpass
    rw [passesCursor_of_live hlater]
    exact passesCreated_of_lt hlt hpass
  · intro last item hlast _
    rw [passesCursor_token, decide_eq_true_eq, rowKey_of_live hlast]

theorem mem_live_of_listNotes {pageSize : Nat} {token : Option Text} {note : Note}
    (hnote : note ∈ (db.listNotes pageSize token).1) : note ∈ liveNoteRows db.notes := by
  simp only [listNotes, queryPage, cut_take_succ] at hnote
  exact List.mem_of_mem_filter (mem_sortBy.mp (List.mem_of_mem_take hnote))

theorem fst_listNoteTags (noteId : Uuid) (pageSize : Nat) :
    (backend.inner.listNoteTags noteId pageSize none).1 =
      (sortedTags noteId backend).take (effectivePageSize pageSize) := by
  have hall : (backend.inner.attachedTags noteId).filter
      (passesCreated Tag.createdAt Tag.id (parseCursor none)) =
        backend.inner.attachedTags noteId :=
    List.filter_eq_self.mpr fun _ _ => rfl
  simp only [listNoteTags, createdPage, selectPage, cut_take_succ, hall]
  rfl

theorem Frame.attachedTags {entity : Entity} {after : Db} (hframe : Frame entity db after)
    {noteId : Uuid} (htags : ∀ tagId, entity ≠ .tag tagId)
    (hnoteTags : ∀ tagId, entity ≠ .noteTag noteId tagId) :
    after.attachedTags noteId = db.attachedTags noteId := by
  have hsame : after.tags = db.tags :=
    Std.ExtTreeMap.ext_getElem? fun tagId => hframe.tags tagId (htags tagId)
  rw [Db.attachedTags, Db.attachedTags, liveTags, liveTags, hsame]
  exact List.filter_congr fun tag _ => by rw [hframe.noteTags noteId tag.id (hnoteTags tag.id)]

theorem commit_of_silent {clock : DbClock} {now : DateTime} {mutator : Mutator}
    (happly : ∀ change, mutator ≠ .applyChange change)
    (hsilent : (mutator.commit (repositories patterns) clock now backend).2 = none) :
    (mutator.commit (repositories patterns) clock now backend).1.inner = backend.inner := by
  rcases commit_inner patterns clock now backend mutator with
    ⟨-, hinner⟩ | ⟨write, -, hpublished, -⟩ | ⟨change, happlied, -⟩
  · exact hinner
  · exact absurd hsilent hpublished
  · exact absurd happlied (happly change)

/-- A note that a mutator writes has an id of 128 bits. -/
def NamesUuid (mutator : Mutator) : Prop := ∀ id, mutator.entity = .note id → IsUuid id

theorem keepsValid (patterns : LinkSyntax) :
    (repositories patterns).KeepsValid HasUuids NamesUuid := by
  intro backend clock now mutator hids hnames id hid
  by_cases hsame : mutator.entity = .note id
  · exact hnames id hsame
  · refine hids id ?_
    rw [Std.ExtTreeMap.mem_iff_isSome_getElem?] at hid ⊢
    rwa [(frame_commit patterns clock now backend mutator).notes id hsame] at hid

theorem searchLaws (patterns : LinkSyntax) :
    (repositories patterns).SearchLaws HasUuids sortedTags comesAfter where
  notes :=
    { createNote := fun _ hcreate => (noteLaws patterns).createNote trivial hcreate
      updateNote := fun _ hupdate => (noteLaws patterns).updateNote trivial hupdate
      deleteNote := fun _ hdelete => (noteLaws patterns).deleteNote trivial hdelete
      others := fun _ happly hevent => (noteLaws patterns).others trivial happly hevent }
  note_id := by
    intro backend id note _ hread
    obtain ⟨row, -, rfl⟩ := readNote_ok_iff.mp hread
    rfl
  passes_none := fun _ _ => rfl
  listNotes := by
    intro backend token hids
    refine ⟨_, _, rfl, fun note hnote => ?_, fun id note hlive => ?_⟩
    · exact liveNote_iff.mpr ⟨rfl, mem_live_of_listNotes hnote⟩
    · obtain ⟨rfl, hnote⟩ := liveNote_iff.mp hlive
      exact comesAfter_listNotes_iff hids 0 token hnote
  listNoteTags := by
    intro backend id _
    refine ⟨(backend.inner.listNoteTags id 0 none).2, ?_⟩
    rw [← fst_listNoteTags]
    rfl
  notebooks := by
    intro backend clock now mutator _ hentity id
    have hrow := (frame_commit patterns clock now backend mutator).notebooks id (hentity id)
    simp only [repositories, readNotebook] at hrow ⊢
    rw [hrow]
  tagged := by
    intro backend clock now id mutator _ htags hnoteTags
    rw [sortedTags, sortedTags,
      (frame_commit patterns clock now backend mutator).attachedTags htags hnoteTags]
  refused := by
    intro backend clock now mutator _ happly hsilent
    have hinner := commit_of_silent happly hsilent
    refine ⟨fun id => congrArg (fun db => Db.readNotebook db id) hinner, fun id => ?_⟩
    rw [sortedTags, sortedTags, hinner]

end Db

namespace SearchWitness

open LinkingIndexWitness

def store : Repositories (LinkingBackend Db) DbClock := Db.repositories patterns

def tag (title : String) : Tag := ⟨5, title, 0, 0, none, ∅, "A", false⟩

def written (mutators : List Mutator) : LinkingBackend Db :=
  mutators.foldl (fun backend mutator => (mutator.commit store ⟨1, 1⟩ 1 backend).1) ⟨db, none⟩

/-- A note in a notebook, and a tag. -/
def stock : LinkingBackend Db :=
  written [.createNote (note 1 none), .createTag (tag "old"),
    .createNotebook ⟨9, "book", 0, 0, none, none, ∅, "A"⟩]

def maintained (count : Nat) : List (SearchStep DbClock) := List.replicate count .maintain

/-- The note as a peer has written it. -/
def retold : Note :=
  { note 1 none with
    title := "new", vv := ((note 1 none).vv.increment "A").increment "B" }

def synced : List (SearchStep DbClock) :=
  maintained 5 ++ [.mutate ⟨2, 2⟩ 2 (.applyChange (.noteUpdate retold))]

/-- The note gets the tag, and then the tag another title. -/
def tagged : List (SearchStep DbClock) :=
  maintained 5 ++ [.mutate ⟨2, 2⟩ 2 (.addNoteTag ⟨1, 5⟩)] ++ maintained 6 ++
    [.mutate ⟨3, 3⟩ 3 (.updateTag (tag "new"))] ++ maintained 6

def titles (documents : List Document) : List (String × String × String) :=
  documents.map fun document => (document.title, document.tags, document.notebook)

theorem hasUuids_written (mutators : List Mutator)
    (hnames : ∀ mutator ∈ mutators, Db.NamesUuid mutator) : Db.HasUuids (written mutators) := by
  have hkeeps : ∀ backend : LinkingBackend Db, Db.HasUuids backend →
      Db.HasUuids (mutators.foldl
        (fun backend mutator => (mutator.commit store ⟨1, 1⟩ 1 backend).1) backend) := by
    induction mutators with
    | nil => exact fun backend hids => hids
    | cons mutator rest ih =>
        intro backend hids
        exact ih (fun other hother => hnames other (List.mem_cons_of_mem mutator hother)) _
          (Db.keepsValid patterns _ _ mutator hids (hnames mutator List.mem_cons_self))
  exact hkeeps ⟨db, none⟩ fun id hid => absurd hid Std.ExtTreeMap.not_mem_empty

theorem hasUuids_stock : Db.HasUuids stock := by
  refine hasUuids_written _ fun mutator hmutator id hid => ?_
  simp only [List.mem_cons, List.not_mem_nil, or_false] at hmutator
  rcases hmutator with rfl | rfl | rfl
  · obtain rfl := Entity.note.inj hid
    decide
  · contradiction
  · contradiction

/-- What sync applies is published to nobody, and the index keeps the title that a
peer has replaced. -/
theorem rows_behind :
    ((runAll (Searching.step store) (Searching.start stock) synced).map fun final =>
      (final.pending.length, titles (SearchIndex.rowsOf 1 final.index),
        titles (store.documents Db.sortedTags final.inner 1))) =
      some (0, [("", "", "book")], [("new", "", "book")]) := by
  decide +kernel

theorem rows_unpublished :
    ¬ ∀ (inner : LinkingBackend Db) (steps : List (SearchStep DbClock))
      (final : Searching (LinkingBackend Db)), Db.HasUuids inner →
      (∀ clock now mutator, .mutate clock now mutator ∈ steps → Db.NamesUuid mutator) →
      runAll (Searching.step store) (Searching.start inner) steps = some final →
      final.pending = [] →
        ∀ id, SearchIndex.rowsOf id final.index = store.documents Db.sortedTags final.inner id := by
  intro hfaithful
  obtain ⟨final, hrun, hbehind⟩ := Option.map_eq_some_iff.mp rows_behind
  obtain ⟨hpending, hrows, hdocuments⟩ : _ ∧ _ ∧ _ := by simpa only [Prod.mk.injEq] using hbehind
  have hnames : ∀ clock now mutator, .mutate clock now mutator ∈ synced →
      Db.NamesUuid mutator := by
    intro clock now mutator hmutator id hid
    simp only [synced, maintained, List.mem_append, List.mem_replicate, List.mem_singleton,
      reduceCtorEq, and_false, false_or, SearchStep.mutate.injEq] at hmutator
    obtain ⟨-, -, rfl⟩ := hmutator
    obtain rfl := Entity.note.inj hid
    decide
  rw [hfaithful stock synced final hasUuids_stock hnames hrun
    (List.eq_nil_of_length_eq_zero hpending)
    1, hdocuments] at hrows
  exact absurd hrows (by decide)

theorem meetsAll_maintained {state : Searching (LinkingBackend Db)}
    {steps : List (SearchStep DbClock)} (count : Nat)
    (hrest : ∀ state, MeetsAll (Searching.step store) (Searching.Meets store Db.NamesUuid)
      state steps) :
    MeetsAll (Searching.step store) (Searching.Meets store Db.NamesUuid) state
      (maintained count ++ steps) := by
  induction count generalizing state with
  | zero => exact hrest state
  | succ count ih => exact ⟨trivial, fun next _ => ih⟩

theorem meets_heard (state : Searching (LinkingBackend Db)) {clock : DbClock} {now : DateTime}
    {mutator : Mutator} (hnames : ∀ id, mutator.entity ≠ .note id) (hheard : mutator.heard = true) :
    state.Meets store Db.NamesUuid (.mutate clock now mutator) := by
  refine ⟨fun id hid => absurd hid (hnames id), fun hunheard => ?_⟩
  rw [hheard] at hunheard
  contradiction

theorem meetsAll_tagged : MeetsAll (Searching.step store) (Searching.Meets store Db.NamesUuid)
    (Searching.start stock) tagged := by
  rw [tagged, List.append_assoc, List.append_assoc, List.append_assoc]
  refine meetsAll_maintained 5 fun state =>
    ⟨meets_heard state (fun id hid => ?_) rfl, fun next _ => ?_⟩
  · contradiction
  refine meetsAll_maintained 6 fun state =>
    ⟨meets_heard state (fun id hid => ?_) rfl, fun next _ => ?_⟩
  · contradiction
  · rw [← List.append_nil (maintained 6)]
    exact meetsAll_maintained 6 fun state => trivial

/-- Where each write is heard of the index has the new title of the tag. -/
theorem documents_tagged :
    ∃ final, runAll (Searching.step store) (Searching.start stock) tagged = some final ∧
      final.pending = [] ∧
      (∀ id, SearchIndex.rowsOf id final.index = store.documents Db.sortedTags final.inner id) ∧
      titles (SearchIndex.rowsOf 1 final.index) = [("", "new", "book")] := by
  have hrun : ((runAll (Searching.step store) (Searching.start stock) tagged).map fun final =>
      (final.pending.length, final.inner.inner.liveTags.length,
        titles (SearchIndex.rowsOf 1 final.index))) = some (0, 1, [("", "new", "book")]) := by
    decide +kernel
  obtain ⟨final, hfinal, hends⟩ := Option.map_eq_some_iff.mp hrun
  obtain ⟨hpending, htags, hrows⟩ : _ ∧ _ ∧ _ := by simpa only [Prod.mk.injEq] using hends
  have hdone := List.eq_nil_of_length_eq_zero hpending
  refine ⟨final, hfinal, hdone, ?_, hrows⟩
  refine (Searching.documents_of_run (Db.searchLaws patterns) (Db.keepsValid patterns)
    hasUuids_stock meetsAll_tagged hfinal hdone).mpr fun id note _ => ?_
  rw [Db.sortedTags, (perm_sortBy _).length_eq]
  refine (List.length_filter_le _ _).trans ?_
  rw [htags]
  exact effectivePageSize_pos 0

end SearchWitness

end Keeplin
