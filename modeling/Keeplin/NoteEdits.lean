/-
The edits of a note by a client.  Each reads the note and checks that it is live,
may read the keys of its notebook, and then writes the note back whole; other
calls run between these steps.
-/
import Keeplin.LinkingIndex
import Keeplin.LabelledRun
import Keeplin.Format

namespace Keeplin

def PIN_MAX : Nat := 999

def NORMAL_START : Nat := Note.DEFAULT_SORT_KEY

structure NotebookSortProfile where
  pinnedKeys : List Nat
  minKey : Option Nat
  maxNormalKey : Option Nat
  liveNotes : Nat

/-- The profile of the effective keys of a notebook's live notes. -/
def NotebookSortProfile.fromEffectiveKeys (keys : List Nat) : NotebookSortProfile :=
  let isPinnedKey (key : Nat) : Bool := 1 ≤ key ∧ key < 1000
  ⟨(keys.filter isPinnedKey).insertionSort (· ≤ ·), keys.min?,
    (keys.filter fun key => !isPinnedKey key).max?, keys.length⟩

/-- The first number from the candidate on that is not among the keys, which are
sorted. -/
def firstFree : Nat → List Nat → Nat
  | candidate, [] => candidate
  | candidate, key :: rest =>
      if candidate < key then candidate
      else firstFree (if key = candidate then candidate + 1 else candidate) rest

def lowestFreePinnedKey (used : List Nat) : Option Nat :=
  let candidate := firstFree 1 used
  if candidate ≤ PIN_MAX then some candidate else none

def nextNormalKey (profile : NotebookSortProfile) : Nat :=
  (profile.maxNormalKey.map fun max => min (max + 1) SORT_KEY_MAX).getD NORMAL_START

/-- The key of a note new in a notebook.  `resequenced` is how resequencing the Inbox
ended, where there is no room on top of it. -/
def placeNewNote (profile : NotebookSortProfile) (resequenced : Except StorageError Unit)
    (note : Note) : Except StorageError Note :=
  match checkNotebookCapacity profile.liveNotes with
  | .error violation => .error (.tooLarge violation)
  | .ok () =>
      if isInbox note.notebookId then
        match profile.minKey with
        | some min =>
            if min ≤ 1 then resequenced.map fun () => { note with sortKey := RESEQUENCE_STEP - 1 }
            else .ok { note with sortKey := min - 1 }
        | none => .ok { note with sortKey := NORMAL_START }
      else .ok { note with sortKey := nextNormalKey profile }

/-- What a client asks of a note.  Resequencing the Inbox asks a key of each note it
lists. -/
inductive NoteEdit where
  | updateNote (note : Note) (now : DateTime)
  | pinNote
  | unpinNote
  | setStarred (starred : Bool)
  | reorderNote (newSortKey : Nat)
  | setNoteAlias (alias_ : Option String)
  | addManualLink (raw : String)
  | removeLink (index : Nat)
  | resequence (next : Nat)

/-- Where an edit goes on from: it returns, needs the keys of the notebook, or writes
the note. -/
inductive NoteEditStage where
  | returns (result : Except StorageError Note)
  | places (note : Note)
  | writes (note : Note)

/-- The note an edit goes on with. -/
def NoteEditStage.note? : NoteEditStage → Option Note
  | .returns _ => none
  | .places note | .writes note => some note

/-- The keys a note can be moved to. -/
def sortKeyBand (note : Note) (newSortKey : Nat) : Bool × String :=
  if isInbox note.notebookId then (1 ≤ newSortKey, ">= 1 (Inbox)")
  else if note.isPinned then (1 ≤ newSortKey ∧ newSortKey ≤ PIN_MAX, "1..=999 (pinned)")
  else (NORMAL_START ≤ newSortKey, ">= 1000 (normal)")

namespace NoteEdit

/-- What is refused before the note is read. -/
def refused : NoteEdit → Option StorageError
  | .addManualLink raw =>
      if (NoteLink.fromRaw raw .manual).isSome then none else some .invalidState
  | _ => none

/-- The edit of a note that was read and is live. -/
def checked (stored : Note) : NoteEdit → NoteEditStage
  | .updateNote note now =>
      let note := { note with id := stored.id }
      match checkBody note.body with
      | .error violation => .returns (.error (.tooLarge violation))
      | .ok () =>
          if note.notebookId = stored.notebookId then .writes { note with updatedAt := now }
          else .places { note with isPinned := false, sortKey := 0 }
  | .pinNote =>
      if isInbox stored.notebookId then
        .returns (.error (.invalidInput
          "Inbox notes cannot be pinned (the Inbox is a single manually ordered list)"))
      else if stored.isPinned then .returns (.ok stored)
      else .places stored
  | .unpinNote => if stored.isPinned then .places stored else .returns (.ok stored)
  | .setStarred starred =>
      if stored.isStarred = starred then .returns (.ok stored)
      else .writes { stored with isStarred := starred }
  | .reorderNote newSortKey =>
      let band := sortKeyBand stored newSortKey
      if !band.1 then
        .returns (.error (.invalidInput ("sort_key " ++ toString newSortKey ++
          " is outside the note's band " ++ band.2)))
      else if stored.sortKey = newSortKey then .returns (.ok stored)
      else .writes { stored with sortKey := newSortKey }
  | .setNoteAlias alias_ =>
      if alias_.isSome ∧ isInbox stored.notebookId then
        .returns (.error (.invalidInput "an Inbox note cannot carry an alias"))
      else .writes { stored with «alias» := alias_ }
  | .addManualLink raw =>
      .writes { stored with links := stored.links ++ (NoteLink.fromRaw raw .manual).toList }
  | .removeLink index =>
      if stored.links.length ≤ index then .returns (.error (.linkNotFound index stored.id))
      else .writes { stored with links := stored.links.eraseIdx index }
  | .resequence next =>
      if stored.effectiveSortKey = next then .returns (.ok stored)
      else .writes { stored with sortKey := next }

/-- What is left to do once the keys of the notebook are read. -/
def placed (profile : NotebookSortProfile) (resequenced : Except StorageError Unit)
    (note : Note) : NoteEdit → NoteEditStage
  | .updateNote _ now =>
      match placeNewNote profile resequenced note with
      | .error failure => .returns (.error failure)
      | .ok note => .writes { note with updatedAt := now }
  | .pinNote =>
      match lowestFreePinnedKey profile.pinnedKeys with
      | none =>
          .returns (.error (.conflict "cannot pin: the notebook already has 999 pinned notes"))
      | some key => .writes { note with isPinned := true, sortKey := key }
  | .unpinNote => .writes { note with isPinned := false, sortKey := nextNormalKey profile }
  | _ => .writes note

theorem id_checked {edit : NoteEdit} {stored note : Note}
    (hnote : (edit.checked stored).note? = some note) : note.id = stored.id := by
  cases edit with
  | updateNote asked now =>
      simp only [checked] at hnote
      split at hnote
      · contradiction
      · split at hnote <;> cases hnote <;> rfl
  | pinNote =>
      simp only [checked] at hnote
      split at hnote
      · contradiction
      · split at hnote <;> cases hnote
        rfl
  | reorderNote newSortKey =>
      simp only [checked] at hnote
      split at hnote
      · contradiction
      · split at hnote <;> cases hnote
        rfl
  | setNoteAlias alias_ =>
      simp only [checked] at hnote
      split at hnote <;> cases hnote
      rfl
  | unpinNote | setStarred starred | removeLink index | resequence next =>
      simp only [checked] at hnote
      split at hnote <;> cases hnote
      rfl
  | addManualLink raw =>
      cases hnote
      rfl

theorem id_placeNewNote {profile : NotebookSortProfile}
    {resequenced : Except StorageError Unit} {note placed : Note}
    (hplaced : placeNewNote profile resequenced note = .ok placed) : placed.id = note.id := by
  simp only [placeNewNote] at hplaced
  split at hplaced
  · contradiction
  · split at hplaced
    · split at hplaced
      · split at hplaced
        · obtain ⟨-, -, rfl⟩ := exists_of_map_ok hplaced
          rfl
        · cases hplaced
          rfl
      · cases hplaced
        rfl
    · cases hplaced
      rfl

theorem id_placed {edit : NoteEdit} {profile : NotebookSortProfile}
    {resequenced : Except StorageError Unit} {note placed : Note}
    (hplaced : (edit.placed profile resequenced note).note? = some placed) :
    placed.id = note.id := by
  cases edit with
  | updateNote asked now =>
      simp only [NoteEdit.placed] at hplaced
      split at hplaced
      · contradiction
      · next hfound =>
          have hid := id_placeNewNote hfound
          cases hplaced
          exact hid
  | pinNote =>
      simp only [NoteEdit.placed] at hplaced
      split at hplaced <;> cases hplaced
      rfl
  | unpinNote | setStarred starred | reorderNote newSortKey | setNoteAlias alias_
  | addManualLink raw | removeLink index | resequence next =>
      cases hplaced
      rfl

end NoteEdit

/-- What the calls of clients ask of the store below them. -/
structure NoteBackend (S Clock : Type) where
  readNote : Uuid → S → Except StorageError Note
  notebookSortProfile : Uuid → S → Except StorageError NotebookSortProfile
  updateNote : Clock → Note → S → S × Except StorageError Note
  deleteNote : Clock → Uuid → S → S × Except StorageError Unit

/-- Where an edit is; `read` is the note its check found. -/
inductive EditPhase where
  | begun (id : Uuid) (edit : NoteEdit)
  | placing (edit : NoteEdit) (read note : Note)
  | writing (edit : NoteEdit) (read note : Note)
  | returned (edit : NoteEdit) (result : Except StorageError Note)

def NoteEditStage.phase (edit : NoteEdit) (read : Note) : NoteEditStage → EditPhase
  | .returns result => .returned edit result
  | .places note => .placing edit read note
  | .writes note => .writing edit read note

/-- `deleted` has the notes a delete has completed on since they were last
restored. -/
structure EditState (S : Type) where
  inner : S
  phases : Nat → EditPhase
  deleted : Uuid → Bool

inductive NoteEditAction (Clock : Type) where
  | check (caller : Nat)
  | place (caller : Nat) (resequenced : Except StorageError Unit)
  | write (caller : Nat) (clock : Clock)
  | delete (clock : Clock) (id : Uuid)
  | restore (clock : Clock) (note : Note)

namespace EditState

variable {S Clock : Type} (backend : NoteBackend S Clock)

def setPhase (state : EditState S) (caller : Nat) (phase : EditPhase) : EditState S :=
  { state with phases := Function.update state.phases caller phase }

/-- The check of an edit: the note is read and has to be live. -/
def afterCheck (inner : S) (id : Uuid) (edit : NoteEdit) : EditPhase :=
  match edit.refused with
  | some failure => .returned edit (.error failure)
  | none =>
      match backend.readNote id inner with
      | .error failure => .returned edit (.error failure)
      | .ok note =>
          if note.deletedAt.isSome then .returned edit (.error (.notFound id))
          else (edit.checked note).phase edit note

def afterPlace (inner : S) (edit : NoteEdit) (read note : Note)
    (resequenced : Except StorageError Unit) : EditPhase :=
  match backend.notebookSortProfile note.notebookId inner with
  | .error failure => .returned edit (.error failure)
  | .ok profile => (edit.placed profile resequenced note).phase edit read

def step (state : EditState S) : NoteEditAction Clock → Option (EditState S)
  | .check caller =>
      match state.phases caller with
      | .begun id edit => some (state.setPhase caller (afterCheck backend state.inner id edit))
      | _ => none
  | .place caller resequenced =>
      match state.phases caller with
      | .placing edit read note =>
          some (state.setPhase caller (afterPlace backend state.inner edit read note resequenced))
      | _ => none
  | .write caller clock =>
      match state.phases caller with
      | .writing edit _ note =>
          let written := backend.updateNote clock note state.inner
          some { state.setPhase caller (.returned edit written.2) with inner := written.1 }
      | _ => none
  | .delete clock id =>
      match backend.deleteNote clock id state.inner with
      | (inner, .ok ()) =>
          some { state with inner := inner, deleted := Function.update state.deleted id true }
      | (inner, .error _) => some { state with inner := inner }
  | .restore clock note =>
      match backend.updateNote clock note state.inner with
      | (inner, .ok _) =>
          some { state with inner := inner, deleted := Function.update state.deleted note.id false }
      | (inner, .error _) => some { state with inner := inner }

end EditState

/-- The references made by hand. -/
def manualRaws (links : List NoteLink) : List String :=
  (links.filter fun link => link.source = .manual).map NoteLink.raw

theorem manualRaws_append (links others : List NoteLink) :
    manualRaws (links ++ others) = manualRaws links ++ manualRaws others := by
  rw [manualRaws, List.filter_append, List.map_append]
  rfl

/-- A new target leaves the references as they are. -/
theorem manualRaws_map (retarget : NoteLink → NoteLink)
    (hsource : ∀ link, (retarget link).source = link.source)
    (hraw : ∀ link, (retarget link).raw = link.raw) (links : List NoteLink) :
    manualRaws (links.map retarget) = manualRaws links := by
  induction links with
  | nil => rfl
  | cons link rest ih =>
      simp only [manualRaws, List.map_cons, List.filter_cons, hsource] at ih ⊢
      split
      · simp only [List.map_cons, hraw, ih]
      · exact ih

/-- The links of the body are not made by hand. -/
theorem manualRaws_refresh (patterns : LinkSyntax) (note : Note) :
    manualRaws (patterns.refresh note).links = manualRaws note.links := by
  have hcontent : ∀ raws : List String,
      manualRaws (raws.filterMap fun raw => NoteLink.fromRaw raw .content) = [] := by
    intro raws
    rw [manualRaws, List.filter_eq_nil_iff.mpr, List.map_nil]
    intro link hlink
    obtain ⟨raw, -, hfrom⟩ := List.mem_filterMap.mp hlink
    obtain ⟨segments, -, rfl⟩ := Option.map_eq_some_iff.mp hfrom
    simp
  simp only [LinkSyntax.refresh, manualRaws_append, hcontent, List.append_nil]
  simp only [manualRaws, List.filter_filter, Bool.and_self]

/-- Where the targets are looked up one for each link. -/
theorem manualRaws_linked {note : Note} {targets : List (Option Uuid)} {inbox : List Uuid}
    (hlength : targets.length = note.links.length) :
    manualRaws (LinkingBackend.linked note targets inbox).links = manualRaws note.links := by
  simp only [LinkingBackend.linked]
  generalize note.links = links at hlength
  induction links generalizing targets with
  | nil => simp [manualRaws]
  | cons link rest ih =>
      cases targets with
      | nil => cases hlength
      | cons target others =>
          have hrest := ih (Nat.succ.inj hlength)
          simp only [manualRaws, List.zipWith_cons_cons, List.filter_cons] at hrest ⊢
          split
          · simp only [List.map_cons, hrest]
          · exact hrest

namespace LinkingBackend

variable {S Clock : Type} {store : StorageBackend S Clock} {patterns : LinkSyntax}

/-- The store gets a note with other bookmarks and links, with the same links made by
hand, and in the Inbox without its alias. -/
theorem prepared_eq {note prepared : Note} {backend after : LinkingBackend S}
    (hprepare : prepare store patterns note backend = (after, .ok prepared)) :
    ∃ alias_ bookmarks links,
      prepared = { note with «alias» := alias_, bookmarks := bookmarks, links := links } ∧
      manualRaws links = manualRaws note.links ∧
      (alias_ = note.alias ∨ (isInbox note.notebookId = true ∧ alias_ = none)) := by
  have hrefreshed := manualRaws_refresh patterns note
  simp only [prepare] at hprepare
  split at hprepare
  · next hinbox =>
      obtain rfl := Except.ok.inj (Prod.mk.inj hprepare).2
      refine ⟨none, _, _, rfl, ?_, .inr ⟨hinbox, rfl⟩⟩
      have hkept := manualRaws_map (fun link => { link with targetNoteId := none })
        (fun _ => rfl) (fun _ => rfl) (patterns.refresh note).links
      exact hkept.trans hrefreshed
  · split at hprepare
    · obtain rfl := Except.ok.inj (Prod.mk.inj hprepare).2
      exact ⟨note.alias, _, _, rfl, hrefreshed, .inl rfl⟩
    · split at hprepare
      · cases (Prod.mk.inj hprepare).2
      · next looked taken targets unverified hlook =>
          split at hprepare
          · cases (Prod.mk.inj hprepare).2
          · obtain rfl := Except.ok.inj (Prod.mk.inj hprepare).2
            obtain ⟨idx, -, hread⟩ := withIndex_read hlook
            simp only [lookUp, Prod.mk.injEq] at hread
            obtain ⟨-, rfl, -⟩ := hread
            refine ⟨note.alias, _, _, rfl, ?_, .inl rfl⟩
            exact (manualRaws_linked (List.length_map _)).trans hrefreshed

/-- What the edits call of the linking layer, with the keys the store below tells. -/
def noteBackend (store : StorageBackend S Clock) (patterns : LinkSyntax)
    (notebookSortProfile : Uuid → S → Except StorageError NotebookSortProfile) :
    NoteBackend (LinkingBackend S) Clock where
  readNote id backend := store.readNote id backend.inner
  notebookSortProfile notebookId backend := notebookSortProfile notebookId backend.inner
  updateNote := updateNote store patterns
  deleteNote := deleteNote store

end LinkingBackend

def Db.notebookSortProfile (notebookId : Uuid) (db : Db) :
    Except StorageError NotebookSortProfile :=
  .ok (.fromEffectiveKeys ((db.collectNotes.filter fun note => note.notebookId = notebookId).map
    Note.effectiveSortKey))

end Keeplin
