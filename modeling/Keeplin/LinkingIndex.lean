/-
Runs of calls on the linking layer.  Whenever the index is there it holds what the
store below has, so it is the index a rebuild would make.
-/
import Keeplin.DbLaws

namespace Keeplin

open StorageBackend

/-- A call on the linking layer; the last two build the index where it is missing
and drop it. -/
inductive LinkingCall (Clock : Type) where
  | createNote (clock : Clock) (note : Note)
  | updateNote (clock : Clock) (note : Note)
  | deleteNote (clock : Clock) (id : Uuid)
  | createNotebook (clock : Clock) (notebook : Notebook)
  | updateNotebook (clock : Clock) (notebook : Notebook)
  | deleteNotebook (clock : Clock) (id : Uuid)
  | applyChange (clock : Clock) (change : Change)
  | buildIndex
  | invalidate

namespace LinkingBackend

variable {S Clock : Type} (store : StorageBackend S Clock) (patterns : LinkSyntax)

def step (backend : LinkingBackend S) : LinkingCall Clock → LinkingBackend S
  | .createNote clock note => (createNote store patterns clock note backend).1
  | .updateNote clock note => (updateNote store patterns clock note backend).1
  | .deleteNote clock id => (deleteNote store clock id backend).1
  | .createNotebook clock notebook => (createNotebook store clock notebook backend).1
  | .updateNotebook clock notebook => (updateNotebook store clock notebook backend).1
  | .deleteNotebook clock id => (deleteNotebook store clock id backend).1
  | .applyChange clock change => (applyChange store clock change backend).1
  | .buildIndex => (withIndex store (fun _ => ()) backend).1
  | .invalidate => { backend with aliasIndex := none }

def run (backend : LinkingBackend S) (calls : List (LinkingCall Clock)) : LinkingBackend S :=
  calls.foldl (step store patterns) backend

/-- The index, where there is one, holds what is stored. -/
structure Indexed (valid : S → Prop) (backend : LinkingBackend S) : Prop where
  valid : valid backend.inner
  holds : ∀ idx, backend.aliasIndex = some idx →
    idx.Holds (store.noteIndexed backend.inner) (store.notebookIndexed backend.inner)

variable {store} {patterns} {valid : S → Prop} {backend after : LinkingBackend S}

section Lookup

variable {R : Type} {read : AliasIndex → R} {result : Except StorageError R}

/-- A lookup changes the index at most, by building it. -/
theorem withIndex_cases (hlook : withIndex store read backend = (after, result)) :
    after = backend ∨ ∃ notes notebooks, store.collectNotes backend.inner = .ok notes ∧
      store.collectNotebooks backend.inner = .ok notebooks ∧
      after = { backend with aliasIndex := some (AliasIndex.fromSnapshots notes notebooks) } := by
  unfold withIndex at hlook
  split at hlook
  · exact .inl (Prod.mk.inj hlook).1.symm
  · split at hlook
    · exact .inl (Prod.mk.inj hlook).1.symm
    · next notes hnotes =>
        split at hlook
        · exact .inl (Prod.mk.inj hlook).1.symm
        · next notebooks hnotebooks =>
            exact .inr ⟨notes, notebooks, hnotes, hnotebooks, (Prod.mk.inj hlook).1.symm⟩

/-- What a successful lookup reads is the index it leaves. -/
theorem withIndex_read {value : R} (hlook : withIndex store read backend = (after, .ok value)) :
    ∃ idx, after.aliasIndex = some idx ∧ value = read idx := by
  unfold withIndex at hlook
  split at hlook
  · next idx hidx =>
      obtain ⟨rfl, hvalue⟩ := Prod.mk.inj hlook
      exact ⟨idx, hidx, (Except.ok.inj hvalue).symm⟩
  · split at hlook
    · cases (Prod.mk.inj hlook).2
    · split at hlook
      · cases (Prod.mk.inj hlook).2
      · obtain ⟨rfl, hvalue⟩ := Prod.mk.inj hlook
        exact ⟨_, rfl, (Except.ok.inj hvalue).symm⟩

theorem inner_withIndex (hlook : withIndex store read backend = (after, result)) :
    after.inner = backend.inner := by
  rcases withIndex_cases hlook with rfl | ⟨notes, notebooks, -, -, rfl⟩ <;> rfl

theorem Indexed.withIndex (hlawful : store.Lawful valid) (hindexed : Indexed store valid backend)
    (hlook : withIndex store read backend = (after, result)) : Indexed store valid after := by
  rcases withIndex_cases hlook with rfl | ⟨notes, notebooks, hnotes, hnotebooks, rfl⟩
  · exact hindexed
  · refine ⟨hindexed.valid, fun idx hidx => ?_⟩
    obtain rfl := Option.some.inj hidx
    exact hlawful.holds_fromSnapshots hindexed.valid hnotes hnotebooks

end Lookup

theorem inner_prepare {note : Note} {result : Except StorageError Note}
    (hprepare : prepare store patterns note backend = (after, result)) :
    after.inner = backend.inner := by
  simp only [prepare] at hprepare
  split at hprepare
  · exact congrArg LinkingBackend.inner (Prod.mk.inj hprepare).1.symm
  · split at hprepare
    · exact congrArg LinkingBackend.inner (Prod.mk.inj hprepare).1.symm
    · split at hprepare
      · next hlook =>
          obtain ⟨rfl, -⟩ := Prod.mk.inj hprepare
          exact inner_withIndex hlook
      · next hlook =>
          split at hprepare <;> obtain ⟨rfl, -⟩ := Prod.mk.inj hprepare <;>
            exact inner_withIndex hlook

theorem Indexed.prepare (hlawful : store.Lawful valid) (hindexed : Indexed store valid backend)
    {note : Note} {result : Except StorageError Note}
    (hprepare : prepare store patterns note backend = (after, result)) :
    Indexed store valid after := by
  simp only [LinkingBackend.prepare] at hprepare
  split at hprepare
  · exact (Prod.mk.inj hprepare).1 ▸ hindexed
  · split at hprepare
    · exact (Prod.mk.inj hprepare).1 ▸ hindexed
    · split at hprepare
      · next hlook =>
          obtain ⟨rfl, -⟩ := Prod.mk.inj hprepare
          exact hindexed.withIndex hlawful hlook
      · next hlook =>
          split at hprepare <;> obtain ⟨rfl, -⟩ := Prod.mk.inj hprepare <;>
            exact hindexed.withIndex hlawful hlook

theorem inner_ensureNotebookAliasFree {notebook : Notebook} {result : Except StorageError Unit}
    (hensure : LinkingBackend.ensureNotebookAliasFree store notebook backend = (after, result)) :
    after.inner = backend.inner := by
  simp only [LinkingBackend.ensureNotebookAliasFree] at hensure
  split at hensure
  · exact congrArg LinkingBackend.inner (Prod.mk.inj hensure).1.symm
  · split at hensure
    all_goals
      next hlook =>
        obtain ⟨rfl, -⟩ := Prod.mk.inj hensure
        exact inner_withIndex hlook

/-- A write of a note fails and leaves the store, or the store writes the prepared
note. -/
theorem writeNote_cases {write : Note → S → Except StorageError (S × Note)} {note : Note}
    {result : Except StorageError Note}
    (hwrite : LinkingBackend.writeNote store patterns write note backend = (after, result)) :
    (∃ failure, result = .error failure ∧ after.inner = backend.inner) ∨
      ∃ looked prepared stored, prepare store patterns note backend = (looked, .ok prepared) ∧
        write prepared backend.inner = .ok (after.inner, stored) ∧ result = .ok stored := by
  simp only [LinkingBackend.writeNote] at hwrite
  split at hwrite
  · next looked failure hprepare =>
      obtain ⟨rfl, rfl⟩ := Prod.mk.inj hwrite
      exact .inl ⟨failure, rfl, inner_prepare hprepare⟩
  · next looked prepared hprepare =>
      have hinner := inner_prepare hprepare
      split at hwrite
      · next failure hfailed =>
          obtain ⟨rfl, rfl⟩ := Prod.mk.inj hwrite
          exact .inl ⟨failure, rfl, hinner⟩
      · next inner stored hstored =>
          obtain ⟨rfl, rfl⟩ := Prod.mk.inj hwrite
          exact .inr ⟨looked, prepared, stored, hprepare, hinner ▸ hstored, rfl⟩

theorem writeNotebook_cases {write : Notebook → S → Except StorageError (S × Notebook)}
    {notebook : Notebook} {result : Except StorageError Notebook}
    (hwrite : LinkingBackend.writeNotebook store write notebook backend = (after, result)) :
    (∃ failure, result = .error failure ∧ after.inner = backend.inner) ∨
      ∃ stored, write notebook backend.inner = .ok (after.inner, stored) ∧ result = .ok stored := by
  simp only [LinkingBackend.writeNotebook] at hwrite
  split at hwrite
  · next looked failure hensure =>
      obtain ⟨rfl, rfl⟩ := Prod.mk.inj hwrite
      exact .inl ⟨failure, rfl, inner_ensureNotebookAliasFree hensure⟩
  · next looked hensure =>
      have hinner := inner_ensureNotebookAliasFree hensure
      split at hwrite
      · next failure hfailed =>
          obtain ⟨rfl, rfl⟩ := Prod.mk.inj hwrite
          exact .inl ⟨failure, rfl, hinner⟩
      · next inner stored hstored =>
          obtain ⟨rfl, rfl⟩ := Prod.mk.inj hwrite
          exact .inr ⟨stored, hinner ▸ hstored, rfl⟩

theorem Indexed.ensureNotebookAliasFree (hlawful : store.Lawful valid)
    (hindexed : Indexed store valid backend) {notebook : Notebook}
    {result : Except StorageError Unit}
    (hensure : ensureNotebookAliasFree store notebook backend = (after, result)) :
    Indexed store valid after := by
  simp only [LinkingBackend.ensureNotebookAliasFree] at hensure
  split at hensure
  · exact (Prod.mk.inj hensure).1 ▸ hindexed
  · split at hensure
    all_goals
      next hlook =>
        obtain ⟨rfl, -⟩ := Prod.mk.inj hensure
        exact hindexed.withIndex hlawful hlook

/-- A note written and upserted in the index. -/
theorem Indexed.upsertNote {inner : S} {note stored : Note} (hvalid : valid inner)
    (hindexed : Indexed store valid backend)
    (hwrote : store.WroteNote note backend.inner inner stored) :
    Indexed store valid ⟨inner, backend.aliasIndex.map fun idx => idx.upsertNote stored⟩ := by
  refine ⟨hvalid, fun idx hidx => ?_⟩
  obtain ⟨old, hold, rfl⟩ := Option.map_eq_some_iff.mp hidx
  change (old.upsertNote stored).Holds (store.noteIndexed inner) (store.notebookIndexed inner)
  rw [hwrote.noteIndexed, StorageBackend.notebookIndexed, look_of_unchanged hwrote.notebooks]
  exact (hindexed.holds old hold).upsertNote stored

theorem Indexed.upsertNotebook {inner : S} {notebook stored : Notebook} (hvalid : valid inner)
    (hindexed : Indexed store valid backend)
    (hwrote : store.WroteNotebook notebook backend.inner inner stored) :
    Indexed store valid
      ⟨inner, backend.aliasIndex.map fun idx => idx.upsertNotebook stored⟩ := by
  refine ⟨hvalid, fun idx hidx => ?_⟩
  obtain ⟨old, hold, rfl⟩ := Option.map_eq_some_iff.mp hidx
  change (old.upsertNotebook stored).Holds (store.noteIndexed inner)
    (store.notebookIndexed inner)
  rw [hwrote.notebookIndexed, StorageBackend.noteIndexed, look_of_unchanged hwrote.notes]
  exact (hindexed.holds old hold).upsertNotebook stored

theorem Indexed.writeNote (hlawful : store.Lawful valid) (hindexed : Indexed store valid backend)
    {write : Note → S → Except StorageError (S × Note)}
    (hwrite : ∀ {inner note after stored}, valid inner → write note inner = .ok (after, stored) →
      valid after ∧ store.WroteNote note inner after stored) (note : Note) :
    Indexed store valid (writeNote store patterns write note backend).1 := by
  unfold LinkingBackend.writeNote
  split
  · next hprepare => exact hindexed.prepare hlawful hprepare
  · next prepared _ hprepare =>
      have hprepared := hindexed.prepare hlawful hprepare
      split
      · exact hprepared
      · next hstored =>
          obtain ⟨hvalid, hwrote⟩ := hwrite hprepared.valid hstored
          exact hprepared.upsertNote hvalid hwrote

theorem Indexed.writeNotebook (hlawful : store.Lawful valid)
    (hindexed : Indexed store valid backend)
    {write : Notebook → S → Except StorageError (S × Notebook)}
    (hwrite : ∀ {inner notebook after stored}, valid inner →
      write notebook inner = .ok (after, stored) →
        valid after ∧ store.WroteNotebook notebook inner after stored) (notebook : Notebook) :
    Indexed store valid (writeNotebook store write notebook backend).1 := by
  unfold LinkingBackend.writeNotebook
  split
  · next hensure => exact hindexed.ensureNotebookAliasFree hlawful hensure
  · next hensure =>
      have hensured := hindexed.ensureNotebookAliasFree hlawful hensure
      split
      · exact hensured
      · next hstored =>
          obtain ⟨hvalid, hwrote⟩ := hwrite hensured.valid hstored
          exact hensured.upsertNotebook hvalid hwrote

theorem Indexed.deleteNote (hlawful : store.Lawful valid)
    (hindexed : Indexed store valid backend) (clock : Clock) (id : Uuid) :
    Indexed store valid (deleteNote store clock id backend).1 := by
  unfold LinkingBackend.deleteNote
  split
  · exact hindexed
  · next inner hdelete =>
      obtain ⟨hvalid, hdeleted⟩ := hlawful.deleteNote hindexed.valid hdelete
      refine ⟨hvalid, fun idx hidx => ?_⟩
      obtain ⟨old, hold, rfl⟩ := Option.map_eq_some_iff.mp hidx
      change (old.removeNote id).Holds (store.noteIndexed inner) (store.notebookIndexed inner)
      rw [hdeleted.noteIndexed, StorageBackend.notebookIndexed,
        look_of_unchanged hdeleted.notebooks]
      exact (hindexed.holds old hold).removeNote id

theorem Indexed.deleteNotebook (hlawful : store.Lawful valid)
    (hindexed : Indexed store valid backend) (clock : Clock) (id : Uuid) :
    Indexed store valid (deleteNotebook store clock id backend).1 := by
  unfold LinkingBackend.deleteNotebook
  split
  · exact hindexed
  · next inner hdelete =>
      obtain ⟨hvalid, hdeleted⟩ := hlawful.deleteNotebook hindexed.valid hdelete
      refine ⟨hvalid, fun idx hidx => ?_⟩
      obtain ⟨old, hold, rfl⟩ := Option.map_eq_some_iff.mp hidx
      change (old.removeNotebook id).Holds (store.noteIndexed inner)
        (store.notebookIndexed inner)
      rw [hdeleted.notebookIndexed, StorageBackend.noteIndexed, look_of_unchanged hdeleted.notes]
      exact (hindexed.holds old hold).removeNotebook id

theorem Indexed.applyChange (hlawful : store.Lawful valid)
    (hindexed : Indexed store valid backend) (clock : Clock) (change : Change) :
    Indexed store valid (applyChange store clock change backend).1 := by
  unfold LinkingBackend.applyChange
  split
  · exact hindexed
  · next inner happly =>
      obtain ⟨hvalid, hsame⟩ := hlawful.applyChange hindexed.valid happly
      refine ⟨hvalid, fun idx hidx => ?_⟩
      cases haffects : changeAffectsAliases change with
      | true => simp [haffects] at hidx
      | false =>
          obtain ⟨hnotes, hnotebooks⟩ := hsame haffects
          simp only [haffects, Bool.false_eq_true, ↓reduceIte] at hidx
          change idx.Holds (store.noteIndexed inner) (store.notebookIndexed inner)
          rw [StorageBackend.noteIndexed, StorageBackend.notebookIndexed,
            look_of_unchanged hnotes, look_of_unchanged hnotebooks]
          exact hindexed.holds idx hidx

theorem Indexed.step (hlawful : store.Lawful valid) (hindexed : Indexed store valid backend)
    (call : LinkingCall Clock) : Indexed store valid (step store patterns backend call) := by
  cases call with
  | createNote clock note => exact hindexed.writeNote hlawful hlawful.createNote note
  | updateNote clock note => exact hindexed.writeNote hlawful hlawful.updateNote note
  | deleteNote clock id => exact hindexed.deleteNote hlawful clock id
  | createNotebook clock notebook =>
      exact hindexed.writeNotebook hlawful hlawful.createNotebook notebook
  | updateNotebook clock notebook =>
      exact hindexed.writeNotebook hlawful hlawful.updateNotebook notebook
  | deleteNotebook clock id => exact hindexed.deleteNotebook hlawful clock id
  | applyChange clock change => exact hindexed.applyChange hlawful clock change
  | buildIndex => exact hindexed.withIndex hlawful rfl
  | invalidate => exact ⟨hindexed.valid, fun idx hidx => by cases hidx⟩

theorem Indexed.run (hlawful : store.Lawful valid) (hindexed : Indexed store valid backend)
    (calls : List (LinkingCall Clock)) :
    Indexed store valid (run store patterns backend calls) := by
  induction calls generalizing backend with
  | nil => exact hindexed
  | cons call rest ih => exact ih (hindexed.step hlawful call)

/-- After any calls the index, if it is there, is in order and is what a rebuild
from the live notes and notebooks makes. -/
theorem run_index_eq_fromSnapshots (store : StorageBackend S Clock) (patterns : LinkSyntax)
    (hlawful : store.Lawful valid) {inner : S} (hvalid : valid inner)
    (calls : List (LinkingCall Clock)) {idx : AliasIndex}
    (hidx : (run store patterns ⟨inner, none⟩ calls).aliasIndex = some idx) :
    idx.Inverse ∧ idx.HasNoEmptySet ∧ ∀ notes notebooks,
      store.collectNotes (run store patterns ⟨inner, none⟩ calls).inner = .ok notes →
      store.collectNotebooks (run store patterns ⟨inner, none⟩ calls).inner = .ok notebooks →
        idx = AliasIndex.fromSnapshots notes notebooks := by
  have hstart : Indexed store valid ⟨inner, none⟩ := ⟨hvalid, fun idx hidx => by cases hidx⟩
  have hindexed : Indexed store valid (run store patterns ⟨inner, none⟩ calls) :=
    hstart.run hlawful calls
  have hholds := hindexed.holds idx hidx
  refine ⟨hholds.inverse, ⟨hholds.noteSets, hholds.notebookSets⟩, ?_⟩
  intro notes notebooks hnotes hnotebooks
  exact hholds.unique (hlawful.holds_fromSnapshots hindexed.valid hnotes hnotebooks)

end LinkingBackend

namespace LinkingIndexWitness

open LinkingBackend

/-- What the patterns find in an empty body. -/
def patterns : LinkSyntax := ⟨fun _ => [], fun _ => [], fun _ => none⟩

def db : Db := ⟨"A", ∅, ∅, ∅, ∅, ∅, [], [], none⟩

def note (id : Uuid) (alias_ : Option String) : Note where
  id := id
  title := ""
  body := ""
  notebookId := 9
  isTodo := false
  todoDue := none
  todoCompleted := none
  createdAt := 0
  updatedAt := 0
  deletedAt := none
  «alias» := alias_
  bookmarks := []
  links := []
  vv := (∅ : VersionVector).increment "B"
  lastWriter := "B"
  isPinned := false
  isStarred := false
  sortKey := 0

/-- Two notes arrive with one alias, and the first is then deleted. -/
def calls : List (LinkingCall DbClock) :=
  [.applyChange ⟨1, 1⟩ (.noteCreate (note 1 (some "a"))),
    .applyChange ⟨2, 2⟩ (.noteCreate (note 2 (some "a"))),
    .buildIndex, .createNote ⟨3, 3⟩ (note 3 none), .deleteNote ⟨4, 4⟩ 1]

theorem run_index_eq_fromSnapshots_shared :
    (run Db.storage patterns ⟨db, none⟩ calls).aliasIndex =
      some (AliasIndex.fromSnapshots
        (run Db.storage patterns ⟨db, none⟩ calls).inner.collectNotes
        (run Db.storage patterns ⟨db, none⟩ calls).inner.collectNotebooks) := by
  obtain ⟨idx, hidx⟩ : ∃ idx,
      (run Db.storage patterns ⟨db, none⟩ calls).aliasIndex = some idx := ⟨_, rfl⟩
  obtain ⟨-, -, hrebuilt⟩ := run_index_eq_fromSnapshots Db.storage patterns Db.lawful_storage
    trivial calls hidx
  rw [hidx, hrebuilt _ _ rfl rfl]

end LinkingIndexWitness

end Keeplin
