/-
The index of the aliases of live notes and notebooks.  It is kept up to date by
removing what it holds of an entity and inserting what the entity has now, and is
then what a rebuild from the live entities makes.
-/
import Keeplin.Buckets
import Keeplin.InboxOrder

namespace Keeplin

open Buckets

def isInbox (id : Uuid) : Bool := id = INBOX_ID

structure AliasIndex where
  noteAliases : Buckets String (Uuid × Uuid) compare compareAssoc
  aliasedNotes : Std.ExtTreeMap Uuid (String × Uuid) compare
  notebookAliases : Buckets String Uuid compare compare
  aliasedNotebooks : Std.ExtTreeMap Uuid String compare

namespace AliasIndex

def empty : AliasIndex := ⟨∅, ∅, ∅, ∅⟩

def removeNote (idx : AliasIndex) (id : Uuid) : AliasIndex :=
  match idx.aliasedNotes[id]? with
  | none => idx
  | some (alias_, notebookId) =>
      { idx with
        aliasedNotes := idx.aliasedNotes.erase id
        noteAliases := idx.noteAliases.unfile alias_ (id, notebookId) }

def upsertNote (idx : AliasIndex) (note : Note) : AliasIndex :=
  let idx := idx.removeNote note.id
  if note.deletedAt.isSome then idx
  else if isInbox note.notebookId then idx
  else
    match note.alias with
    | none => idx
    | some alias_ =>
        { idx with
          noteAliases := idx.noteAliases.file alias_ (note.id, note.notebookId)
          aliasedNotes := idx.aliasedNotes.insert note.id (alias_, note.notebookId) }

def removeNotebook (idx : AliasIndex) (id : Uuid) : AliasIndex :=
  match idx.aliasedNotebooks[id]? with
  | none => idx
  | some alias_ =>
      { idx with
        aliasedNotebooks := idx.aliasedNotebooks.erase id
        notebookAliases := idx.notebookAliases.unfile alias_ id }

def upsertNotebook (idx : AliasIndex) (notebook : Notebook) : AliasIndex :=
  let idx := idx.removeNotebook notebook.id
  if notebook.deletedAt.isSome then idx
  else
    match notebook.alias with
    | none => idx
    | some alias_ =>
        { idx with
          notebookAliases := idx.notebookAliases.file alias_ notebook.id
          aliasedNotebooks := idx.aliasedNotebooks.insert notebook.id alias_ }

def fromSnapshots (notes : List Note) (notebooks : List Notebook) : AliasIndex :=
  notebooks.foldl upsertNotebook (notes.foldl upsertNote empty)

end AliasIndex

/-- What the index has of a note: nothing of one that is deleted or in the Inbox. -/
def Note.indexed (note : Note) : Option (String × Uuid) :=
  if note.deletedAt.isSome ∨ isInbox note.notebookId then none
  else note.alias.map fun alias_ => (alias_, note.notebookId)

def Notebook.indexed (notebook : Notebook) : Option String :=
  if notebook.deletedAt.isSome then none else notebook.alias

/-- The name a note is filed under and what is filed. -/
def noteEntry (id : Uuid) (value : String × Uuid) : String × (Uuid × Uuid) :=
  (value.1, id, value.2)

def notebookEntry (id : Uuid) (alias_ : String) : String × Uuid := (alias_, id)

theorem noteEntry_injective (one : Uuid) (first : String × Uuid) (other : Uuid)
    (second : String × Uuid) (hsame : noteEntry one first = noteEntry other second) :
    one = other ∧ first = second := by
  obtain ⟨hname, hpair⟩ := Prod.mk.inj hsame
  obtain ⟨hid, hnotebook⟩ := Prod.mk.inj hpair
  exact ⟨hid, Prod.ext hname hnotebook⟩

theorem notebookEntry_injective (one : Uuid) (first : String) (other : Uuid) (second : String)
    (hsame : notebookEntry one first = notebookEntry other second) :
    one = other ∧ first = second :=
  ⟨(Prod.mk.inj hsame).2, (Prod.mk.inj hsame).1⟩

namespace AliasIndex

/-- The index holds these notes and notebooks: by id what each has, by alias the
inverse, and no empty set. -/
structure Holds (idx : AliasIndex) (notes : Uuid → Option (String × Uuid))
    (notebooks : Uuid → Option String) : Prop where
  aliasedNotes : ∀ id, idx.aliasedNotes[id]? = notes id
  noteAliases : Inverts noteEntry idx.noteAliases notes
  noteSets : idx.noteAliases.NoneEmpty
  aliasedNotebooks : ∀ id, idx.aliasedNotebooks[id]? = notebooks id
  notebookAliases : Inverts notebookEntry idx.notebookAliases notebooks
  notebookSets : idx.notebookAliases.NoneEmpty

/-- The two maps of notes are each other's inverse, as are those of notebooks. -/
structure Inverse (idx : AliasIndex) : Prop where
  notes : ∀ alias_ id notebookId, (id, notebookId) ∈ idx.noteAliases.bucket alias_ ↔
    idx.aliasedNotes[id]? = some (alias_, notebookId)
  notebooks : ∀ alias_ id, id ∈ idx.notebookAliases.bucket alias_ ↔
    idx.aliasedNotebooks[id]? = some alias_

def HasNoEmptySet (idx : AliasIndex) : Prop :=
  idx.noteAliases.NoneEmpty ∧ idx.notebookAliases.NoneEmpty

variable {idx : AliasIndex} {notes : Uuid → Option (String × Uuid)}
  {notebooks : Uuid → Option String}

theorem Holds.inverse (hholds : idx.Holds notes notebooks) : idx.Inverse where
  notes := fun alias_ id notebookId => by
    rw [hholds.noteAliases, hholds.aliasedNotes]
    constructor
    · rintro ⟨key, value, hvalue, hentry⟩
      obtain ⟨rfl, rfl⟩ := noteEntry_injective key value id (alias_, notebookId) hentry
      exact hvalue
    · exact fun hvalue => ⟨id, _, hvalue, rfl⟩
  notebooks := fun alias_ id => by
    rw [hholds.notebookAliases, hholds.aliasedNotebooks]
    constructor
    · rintro ⟨key, value, hvalue, hentry⟩
      obtain ⟨rfl, rfl⟩ := notebookEntry_injective key value id alias_ hentry
      exact hvalue
    · exact fun hvalue => ⟨id, _, hvalue, rfl⟩

/-- What an index holds determines it. -/
theorem Holds.unique {other : AliasIndex} (hholds : idx.Holds notes notebooks)
    (hother : other.Holds notes notebooks) : idx = other := by
  obtain ⟨noteAliases, aliasedNotes, notebookAliases, aliasedNotebooks⟩ := idx
  obtain ⟨noteAliases', aliasedNotes', notebookAliases', aliasedNotebooks'⟩ := other
  obtain rfl : noteAliases = noteAliases' :=
    ext_of_mem hholds.noteSets hother.noteSets fun alias_ entry =>
      (hholds.noteAliases alias_ entry).trans (hother.noteAliases alias_ entry).symm
  obtain rfl : notebookAliases = notebookAliases' :=
    ext_of_mem hholds.notebookSets hother.notebookSets fun alias_ entry =>
      (hholds.notebookAliases alias_ entry).trans (hother.notebookAliases alias_ entry).symm
  obtain rfl : aliasedNotes = aliasedNotes' := Std.ExtTreeMap.ext_getElem? fun id =>
    (hholds.aliasedNotes id).trans (hother.aliasedNotes id).symm
  obtain rfl : aliasedNotebooks = aliasedNotebooks' := Std.ExtTreeMap.ext_getElem? fun id =>
    (hholds.aliasedNotebooks id).trans (hother.aliasedNotebooks id).symm
  rfl

theorem holds_empty : empty.Holds (fun _ => none) fun _ => none where
  aliasedNotes := fun id => by simp [empty]
  noteAliases := fun alias_ entry => by simp [empty, bucket]
  noteSets := noneEmpty_empty
  aliasedNotebooks := fun id => by simp [empty]
  notebookAliases := fun alias_ entry => by simp [empty, bucket]
  notebookSets := noneEmpty_empty

theorem Holds.removeNote (hholds : idx.Holds notes notebooks) (id : Uuid) :
    (idx.removeNote id).Holds (Function.update notes id none) notebooks := by
  simp only [AliasIndex.removeNote]
  split
  · next hnone =>
      have hkept : Function.update notes id none = notes := by
        rw [Function.update_eq_self_iff, ← hholds.aliasedNotes, hnone]
      rw [hkept]
      exact hholds
  · next alias_ notebookId hsome =>
      rw [hholds.aliasedNotes] at hsome
      refine { hholds with
        aliasedNotes := fun other => ?_
        noteAliases := hholds.noteAliases.unfile noteEntry_injective hsome rfl
        noteSets := hholds.noteSets.unfile }
      rw [Std.ExtTreeMap.getElem?_erase, Function.update_apply, hholds.aliasedNotes]
      by_cases hother : other = id
      · simp [hother]
      · simp [hother, Ne.symm hother]

theorem Holds.upsertNote (hholds : idx.Holds notes notebooks) (note : Note) :
    (idx.upsertNote note).Holds (Function.update notes note.id note.indexed) notebooks := by
  have hremoved := hholds.removeNote note.id
  simp only [AliasIndex.upsertNote, Note.indexed]
  by_cases hdeleted : note.deletedAt.isSome = true
  · simpa [hdeleted] using hremoved
  · by_cases hinbox : isInbox note.notebookId = true
    · simpa [hdeleted, hinbox] using hremoved
    · simp only [hdeleted, hinbox, or_self, ↓reduceIte, Bool.false_eq_true]
      cases halias : note.alias with
      | none => exact hremoved
      | some alias_ =>
          have hvacant : Function.update notes note.id none note.id = none :=
            Function.update_self ..
          have hfiled := hremoved.noteAliases.file hvacant
            (show noteEntry note.id (alias_, note.notebookId) = _ from rfl)
          rw [Function.update_idem] at hfiled
          refine { hremoved with
            aliasedNotes := fun other => ?_
            noteAliases := hfiled
            noteSets := hremoved.noteSets.file }
          rw [Std.ExtTreeMap.getElem?_insert, Function.update_apply, hremoved.aliasedNotes,
            Function.update_apply]
          by_cases hother : other = note.id
          · simp [hother]
          · simp [hother, Ne.symm hother]

theorem Holds.removeNotebook (hholds : idx.Holds notes notebooks) (id : Uuid) :
    (idx.removeNotebook id).Holds notes (Function.update notebooks id none) := by
  simp only [AliasIndex.removeNotebook]
  split
  · next hnone =>
      have hkept : Function.update notebooks id none = notebooks := by
        rw [Function.update_eq_self_iff, ← hholds.aliasedNotebooks, hnone]
      rw [hkept]
      exact hholds
  · next alias_ hsome =>
      rw [hholds.aliasedNotebooks] at hsome
      refine { hholds with
        aliasedNotebooks := fun other => ?_
        notebookAliases := hholds.notebookAliases.unfile notebookEntry_injective hsome rfl
        notebookSets := hholds.notebookSets.unfile }
      rw [Std.ExtTreeMap.getElem?_erase, Function.update_apply, hholds.aliasedNotebooks]
      by_cases hother : other = id
      · simp [hother]
      · simp [hother, Ne.symm hother]

theorem Holds.upsertNotebook (hholds : idx.Holds notes notebooks) (notebook : Notebook) :
    (idx.upsertNotebook notebook).Holds notes
      (Function.update notebooks notebook.id notebook.indexed) := by
  have hremoved := hholds.removeNotebook notebook.id
  simp only [AliasIndex.upsertNotebook, Notebook.indexed]
  by_cases hdeleted : notebook.deletedAt.isSome = true
  · simpa [hdeleted] using hremoved
  · simp only [hdeleted, ↓reduceIte, Bool.false_eq_true]
    cases halias : notebook.alias with
    | none => exact hremoved
    | some alias_ =>
        have hvacant : Function.update notebooks notebook.id none notebook.id = none :=
          Function.update_self ..
        have hfiled := hremoved.notebookAliases.file hvacant
          (show notebookEntry notebook.id alias_ = _ from rfl)
        rw [Function.update_idem] at hfiled
        refine { hremoved with
          aliasedNotebooks := fun other => ?_
          notebookAliases := hfiled
          notebookSets := hremoved.notebookSets.file }
        rw [Std.ExtTreeMap.getElem?_insert, Function.update_apply, hremoved.aliasedNotebooks,
          Function.update_apply]
        by_cases hother : other = notebook.id
        · simp [hother]
        · simp [hother, Ne.symm hother]

theorem holds_foldl_upsertNote (hholds : idx.Holds notes notebooks) (list : List Note) :
    (list.foldl AliasIndex.upsertNote idx).Holds
      (list.foldl (fun notes note => Function.update notes note.id note.indexed) notes)
      notebooks := by
  induction list generalizing idx notes with
  | nil => exact hholds
  | cons note rest ih => exact ih (hholds.upsertNote note)

theorem holds_foldl_upsertNotebook (hholds : idx.Holds notes notebooks) (list : List Notebook) :
    (list.foldl AliasIndex.upsertNotebook idx).Holds notes
      (list.foldl (fun notebooks notebook =>
        Function.update notebooks notebook.id notebook.indexed) notebooks) := by
  induction list generalizing idx notebooks with
  | nil => exact hholds
  | cons notebook rest ih => exact ih (hholds.upsertNotebook notebook)

end AliasIndex

/-- Updates at distinct keys: each key has what its own update gave it. -/
theorem foldl_update_apply {A K V : Type} [DecidableEq K] (key : A → K) (value : A → Option V)
    {list : List A} (hnodup : (list.map key).Nodup) (start : K → Option V) (target : K) :
    list.foldl (fun values item => Function.update values (key item) (value item)) start target =
      match list.find? fun item => key item = target with
      | some item => value item
      | none => start target := by
  induction list generalizing start with
  | nil => rfl
  | cons item rest ih =>
      obtain ⟨hnotMem, hrest⟩ := List.nodup_cons.mp hnodup
      rw [List.foldl_cons, ih hrest, List.find?_cons]
      by_cases hkey : key item = target
      · have hnone : (rest.find? fun item => key item = target) = none := by
          rw [List.find?_eq_none]
          intro other hother heq
          rw [decide_eq_true_eq] at heq
          exact hnotMem (hkey.trans heq.symm ▸ List.mem_map_of_mem hother)
        simp [hnone, hkey]
      · simp [hkey, Function.update_of_ne (Ne.symm hkey)]

namespace AliasIndex

/-- A rebuild holds of each entity what its last listing has. -/
theorem holds_fromSnapshots_foldl (notes : List Note) (notebooks : List Notebook) :
    (fromSnapshots notes notebooks).Holds
      (notes.foldl (fun held note => Function.update held note.id note.indexed) fun _ => none)
      (notebooks.foldl (fun held notebook =>
        Function.update held notebook.id notebook.indexed) fun _ => none) :=
  holds_foldl_upsertNotebook (holds_foldl_upsertNote holds_empty notes) notebooks

/-- A rebuild from entities that are each listed once holds what they have. -/
theorem holds_fromSnapshots {notes : List Note} {notebooks : List Notebook}
    (hnotes : (notes.map Note.id).Nodup) (hnotebooks : (notebooks.map Notebook.id).Nodup) :
    (fromSnapshots notes notebooks).Holds
      (fun id => (notes.find? fun note => note.id = id).bind Note.indexed)
      (fun id => (notebooks.find? fun notebook => notebook.id = id).bind Notebook.indexed) := by
  have hnotesAt : (fun id => (notes.find? fun note => note.id = id).bind Note.indexed) =
      notes.foldl (fun held note => Function.update held note.id note.indexed) fun _ => none := by
    funext id
    rw [foldl_update_apply Note.id Note.indexed hnotes]
    cases notes.find? fun note => note.id = id <;> rfl
  have hnotebooksAt :
      (fun id => (notebooks.find? fun notebook => notebook.id = id).bind Notebook.indexed) =
        notebooks.foldl (fun held notebook =>
          Function.update held notebook.id notebook.indexed) fun _ => none := by
    funext id
    rw [foldl_update_apply Notebook.id Notebook.indexed hnotebooks]
    cases notebooks.find? fun notebook => notebook.id = id <;> rfl
  rw [hnotesAt, hnotebooksAt]
  exact holds_fromSnapshots_foldl notes notebooks

end AliasIndex

end Keeplin
