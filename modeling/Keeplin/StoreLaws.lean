/-
What the linking layer relies on of the store below it.  A write is what the next
read of the same entity finds and what no read of another does, and a listing has
each live entity once.  The SQLite store keeps these laws.
-/
import Keeplin.Linking
import Keeplin.DbRows

namespace Keeplin

/-- The two agree in all the linking layer reads of a note. -/
structure Note.SameLinks (note other : Note) : Prop where
  id : other.id = note.id
  notebookId : other.notebookId = note.notebookId
  deletedAt : other.deletedAt = note.deletedAt
  aliases : other.alias = note.alias
  links : other.links = note.links

structure Notebook.SameAlias (notebook other : Notebook) : Prop where
  id : other.id = notebook.id
  deletedAt : other.deletedAt = notebook.deletedAt
  aliases : other.alias = notebook.alias

theorem Note.SameLinks.indexed {note other : Note} (hsame : note.SameLinks other) :
    other.indexed = note.indexed := by
  rw [Note.indexed, Note.indexed, hsame.deletedAt, hsame.notebookId, hsame.aliases]

theorem Notebook.SameAlias.indexed {notebook other : Notebook}
    (hsame : notebook.SameAlias other) : other.indexed = notebook.indexed := by
  rw [Notebook.indexed, Notebook.indexed, hsame.deletedAt, hsame.aliases]

namespace StorageBackend

variable {S Clock A : Type}

/-- Every entity reads as before. -/
def Unchanged (read : Uuid → S → Except StorageError A) (inner after : S) : Prop :=
  ∀ id, read id after = read id inner

def UnchangedBut (read : Uuid → S → Except StorageError A) (id : Uuid) (inner after : S) :
    Prop :=
  ∀ other, other ≠ id → read other after = read other inner

/-- A listing has the live entities, each of them once. -/
structure Lists (read : Uuid → S → Except StorageError A) (id : A → Uuid)
    (deletedAt : A → Option DateTime) (inner : S) (list : List A) : Prop where
  nodup : (list.map id).Nodup
  mem : ∀ item, item ∈ list ↔ read (id item) inner = .ok item ∧ deletedAt item = none

variable (store : StorageBackend S Clock)

structure WroteNote (note : Note) (inner after : S) (stored : Note) : Prop where
  stored : note.SameLinks stored
  read : ∃ found, store.readNote note.id after = .ok found ∧ note.SameLinks found
  notes : UnchangedBut store.readNote note.id inner after
  notebooks : Unchanged store.readNotebook inner after

structure DeletedNote (id : Uuid) (inner after : S) : Prop where
  read : ∀ found, store.readNote id after = .ok found → found.deletedAt.isSome
  notes : UnchangedBut store.readNote id inner after
  notebooks : Unchanged store.readNotebook inner after

structure WroteNotebook (notebook : Notebook) (inner after : S) (stored : Notebook) : Prop where
  stored : notebook.SameAlias stored
  read : ∃ found, store.readNotebook notebook.id after = .ok found ∧ notebook.SameAlias found
  notebooks : UnchangedBut store.readNotebook notebook.id inner after
  notes : Unchanged store.readNote inner after

structure DeletedNotebook (id : Uuid) (inner after : S) : Prop where
  read : ∀ found, store.readNotebook id after = .ok found → found.deletedAt.isSome
  notebooks : UnchangedBut store.readNotebook id inner after
  notes : Unchanged store.readNote inner after

/-- The laws of a store, in the states its calls lead to from a valid one. -/
structure Lawful (valid : S → Prop) : Prop where
  note_id : ∀ {inner id note}, valid inner → store.readNote id inner = .ok note → note.id = id
  notebook_id : ∀ {inner id notebook}, valid inner →
    store.readNotebook id inner = .ok notebook → notebook.id = id
  collectNotes : ∀ {inner notes}, valid inner → store.collectNotes inner = .ok notes →
    Lists store.readNote Note.id Note.deletedAt inner notes
  collectNotebooks : ∀ {inner notebooks}, valid inner →
    store.collectNotebooks inner = .ok notebooks →
      Lists store.readNotebook Notebook.id Notebook.deletedAt inner notebooks
  createNote : ∀ {inner clock note after stored}, valid inner →
    store.createNote clock note inner = .ok (after, stored) →
      valid after ∧ store.WroteNote note inner after stored
  updateNote : ∀ {inner clock note after stored}, valid inner →
    store.updateNote clock note inner = .ok (after, stored) →
      valid after ∧ store.WroteNote note inner after stored
  deleteNote : ∀ {inner clock id after}, valid inner →
    store.deleteNote clock id inner = .ok after →
      valid after ∧ store.DeletedNote id inner after
  createNotebook : ∀ {inner clock notebook after stored}, valid inner →
    store.createNotebook clock notebook inner = .ok (after, stored) →
      valid after ∧ store.WroteNotebook notebook inner after stored
  updateNotebook : ∀ {inner clock notebook after stored}, valid inner →
    store.updateNotebook clock notebook inner = .ok (after, stored) →
      valid after ∧ store.WroteNotebook notebook inner after stored
  deleteNotebook : ∀ {inner clock id after}, valid inner →
    store.deleteNotebook clock id inner = .ok after →
      valid after ∧ store.DeletedNotebook id inner after
  applyChange : ∀ {inner clock change after}, valid inner →
    store.applyChange clock change inner = .ok after →
      valid after ∧ (changeAffectsAliases change = false →
        Unchanged store.readNote inner after ∧ Unchanged store.readNotebook inner after)

section View

variable {B : Type} {read : Uuid → S → Except StorageError A} {view : A → Option B}
  {inner after : S} {id : Uuid}

def look (read : Uuid → S → Except StorageError A) (view : A → Option B) (inner : S)
    (id : Uuid) : Option B :=
  match read id inner with
  | .ok item => view item
  | .error _ => none

theorem look_of_read {item : A} (hread : read id inner = .ok item) :
    look read view inner id = view item := by
  rw [look, hread]

theorem look_of_unchanged (hsame : Unchanged read inner after) :
    look read view after = look read view inner := by
  funext id
  rw [look, look, hsame id]

theorem look_of_wrote {found : A} (hread : read id after = .ok found)
    (hothers : UnchangedBut read id inner after) :
    look read view after = Function.update (look read view inner) id (view found) := by
  funext other
  rw [Function.update_apply]
  split
  · next heq =>
      subst heq
      exact look_of_read hread
  · next hne => rw [look, look, hothers other hne]

theorem look_of_deleted (hdeleted : ∀ found, read id after = .ok found → view found = none)
    (hothers : UnchangedBut read id inner after) :
    look read view after = Function.update (look read view inner) id none := by
  funext other
  rw [Function.update_apply]
  split
  · next heq =>
      subst heq
      cases hread : read other after with
      | error failure => rw [look, hread]
      | ok found => rw [look_of_read hread, hdeleted found hread]
  · next hne => rw [look, look, hothers other hne]

/-- An entity found in a listing is the one read, for what only live ones have. -/
theorem Lists.find?_bind {key : A → Uuid} {deletedAt : A → Option DateTime} {list : List A}
    (hlists : Lists read key deletedAt inner list)
    (hkey : ∀ id item, read id inner = .ok item → key item = id)
    (hlive : ∀ item, (deletedAt item).isSome → view item = none) (id : Uuid) :
    (list.find? fun item => key item = id).bind view = look read view inner id := by
  cases hfind : list.find? fun item => key item = id with
  | some item =>
      have heq := List.find?_some hfind
      rw [decide_eq_true_eq] at heq
      obtain ⟨hread, -⟩ := (hlists.mem item).mp (List.mem_of_find?_eq_some hfind)
      rw [heq] at hread
      exact (look_of_read hread).symm
  | none =>
      cases hread : read id inner with
      | error failure => rw [look, hread, Option.bind_none]
      | ok item =>
          have heq := hkey id item hread
          rw [List.find?_eq_none] at hfind
          rw [look_of_read hread, Option.bind_none]
          cases hdeleted : deletedAt item with
          | some ts => exact (hlive item (by simp [hdeleted])).symm
          | none =>
              have hmem : item ∈ list := (hlists.mem item).mpr ⟨heq ▸ hread, hdeleted⟩
              exact absurd heq (by simpa using hfind item hmem)

end View

/-- What an index should have of the notes. -/
def noteIndexed (inner : S) : Uuid → Option (String × Uuid) :=
  look store.readNote Note.indexed inner

def notebookIndexed (inner : S) : Uuid → Option String :=
  look store.readNotebook Notebook.indexed inner

variable {store} {inner after : S} {id : Uuid}

theorem WroteNote.noteIndexed {note stored : Note}
    (hwrote : store.WroteNote note inner after stored) :
    store.noteIndexed after =
      Function.update (store.noteIndexed inner) stored.id stored.indexed := by
  obtain ⟨found, hfound, hsame⟩ := hwrote.read
  rw [hwrote.stored.id, hwrote.stored.indexed, ← hsame.indexed]
  exact look_of_wrote hfound hwrote.notes

theorem DeletedNote.noteIndexed (hdeleted : store.DeletedNote id inner after) :
    store.noteIndexed after = Function.update (store.noteIndexed inner) id none := by
  refine look_of_deleted (fun found hfound => ?_) hdeleted.notes
  simp [Note.indexed, hdeleted.read found hfound]

theorem WroteNotebook.notebookIndexed {notebook stored : Notebook}
    (hwrote : store.WroteNotebook notebook inner after stored) :
    store.notebookIndexed after =
      Function.update (store.notebookIndexed inner) stored.id stored.indexed := by
  obtain ⟨found, hfound, hsame⟩ := hwrote.read
  rw [hwrote.stored.id, hwrote.stored.indexed, ← hsame.indexed]
  exact look_of_wrote hfound hwrote.notebooks

theorem DeletedNotebook.notebookIndexed (hdeleted : store.DeletedNotebook id inner after) :
    store.notebookIndexed after = Function.update (store.notebookIndexed inner) id none := by
  refine look_of_deleted (fun found hfound => ?_) hdeleted.notebooks
  simp [Notebook.indexed, hdeleted.read found hfound]

/-- A rebuild of the index holds what the store has. -/
theorem Lawful.holds_fromSnapshots {valid : S → Prop} (hlawful : store.Lawful valid)
    (hvalid : valid inner) {notes : List Note} {notebooks : List Notebook}
    (hnotes : store.collectNotes inner = .ok notes)
    (hnotebooks : store.collectNotebooks inner = .ok notebooks) :
    (AliasIndex.fromSnapshots notes notebooks).Holds (store.noteIndexed inner)
      (store.notebookIndexed inner) := by
  have hlisted := hlawful.collectNotes hvalid hnotes
  have hlistedNotebooks := hlawful.collectNotebooks hvalid hnotebooks
  have hholds := AliasIndex.holds_fromSnapshots hlisted.nodup hlistedNotebooks.nodup
  have hnoteAt := funext (hlisted.find?_bind (fun id note => hlawful.note_id hvalid)
    fun note hdeleted => (by simp [Note.indexed, hdeleted] : note.indexed = none))
  have hnotebookAt := funext (hlistedNotebooks.find?_bind
    (fun id notebook => hlawful.notebook_id hvalid)
    fun notebook hdeleted => (by simp [Notebook.indexed, hdeleted] : notebook.indexed = none))
  rw [hnoteAt, hnotebookAt] at hholds
  exact hholds

end StorageBackend

end Keeplin
