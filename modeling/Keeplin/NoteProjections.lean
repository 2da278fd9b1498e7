/-
The projections of notes and the index beside them, and their refresh when
changes are received.  A projection is written where the joined vector of the
logs is not the one it was made from.
-/
import Keeplin.FsNoteIndex
import Keeplin.SeenLogs

namespace Keeplin

open VersionVector EventClock

/-- The files of a projection are those of the merge, and there are none where
the merge has no note. -/
def ProjectionOf (folder : NoteFolder) (merged : Merged) : Prop :=
  match merged.note with
  | none => folder.md = none ∧ folder.meta = none
  | some note =>
      folder.md = some note.body ∧
        folder.meta = some (.readable ⟨{ note with body := "" }, merged.vv⟩)

theorem md_of_projectionOf {folder : NoteFolder} {merged : Merged}
    (hprojection : ProjectionOf folder merged) : folder.md = merged.note.map Note.body := by
  rw [ProjectionOf] at hprojection
  cases hnote : merged.note with
  | none =>
      rw [hnote] at hprojection
      exact hprojection.1
  | some note =>
      rw [hnote] at hprojection
      exact hprojection.1

/-- A store with the logs that each projection was made from. -/
structure TracedStore extends IndexedTree where
  projectedFrom : Uuid → Option (List NoteLog)

namespace TracedStore

variable (store : TracedStore) (place : Uuid → Nat)

def perform (write : TreeWrite) : TracedStore where
  toIndexedTree := store.toIndexedTree.perform place write
  projectedFrom :=
    match write with
    | .noteMeta id _ => Function.update store.projectedFrom id (some (store.tree.noteLogs id))
    | _ => store.projectedFrom

def performAll (writes : List TreeWrite) : TracedStore :=
  writes.foldl (fun store write => store.perform place write) store

/-- The collection over the listed notes, with the index. -/
def collectNotes (place : Uuid → Nat) (store : TracedStore) :
    List Uuid → TracedStore × Except StorageError (List Change)
  | [] => (store, .ok [])
  | id :: rest =>
      let plan := store.tree.collectNote id
      let moved := store.performAll place plan.writes
      match plan.result with
      | .error failure => (moved, .error failure)
      | .ok change =>
          let later := collectNotes place moved rest
          (later.1, later.2.map fun changes => change.toList ++ changes)

/-- What receiving changes does to the notes. -/
def receiveChanges : TracedStore × Except StorageError (List Change) :=
  store.collectNotes place store.tree.allNoteIds

variable {store place}

theorem toIndexedTree_performAll (writes : List TreeWrite) :
    (store.performAll place writes).toIndexedTree =
      store.toIndexedTree.performAll place writes := by
  induction writes generalizing store with
  | nil => rfl
  | cons write rest ih => exact ih

theorem tree_performAll (writes : List TreeWrite) :
    (store.performAll place writes).tree = store.tree.performAll place writes := by
  rw [toIndexedTree_performAll, IndexedTree.tree_performAll]

/-- The projection is that of the logs it was made from. -/
def Seen (history : History NoteLogEntry) (folder : NoteFolder) : Option (List NoteLog) → Prop
  | none => folder.md = none ∧ folder.meta = none
  | some logs =>
      RecordedLogs history logs ∧
        ∃ merged, merge logs = some merged ∧ merged.note.isSome ∧ ProjectionOf folder merged

/-- The logs of every note are recorded, each projection is that of the logs it
was made from, and the index shows every projection. -/
structure Sound (histories : Uuid → History NoteLogEntry) (store : TracedStore) : Prop where
  exact : ∀ id, entryClock.Exact (histories id)
  filed : ∀ id entry, Recorded (histories id) entry → ∀ note, entry.op = .upsert note →
    note.id = id
  folders : store.tree.allNoteIds.Nodup
  names : ∀ id, ((store.tree.noteFolder id).logs.map Prod.fst).Nodup
  logs : ∀ id, RecordedLogs (histories id) (store.tree.noteLogs id)
  seen : ∀ id, Seen (histories id) (store.tree.noteFolder id) (store.projectedFrom id)
  entries : ∀ idx, store.index = some idx → ∀ id value,
    (store.tree.noteFolder id).meta = some (.readable value) →
    idx[id]? = (liveNote (.ok (some value.note))).map NoteMetaEntry.fromNote

variable {histories : Uuid → History NoteLogEntry} {id : Uuid} {merged : Merged} {note : Note}

theorem mergeLogs_eq_ok {tree : FsTree} :
    tree.mergeLogs id = .ok merged ↔ merge (tree.noteLogs id) = some merged := by
  rw [FsTree.mergeLogs]
  cases merge (tree.noteLogs id) <;> simp

theorem Sound.exists_merge (hsound : store.Sound histories) (id : Uuid) :
    ∃ merged, merge (store.tree.noteLogs id) = some merged :=
  (hsound.logs id).exists_merge (hsound.exact id)

/-- The content of a merge of recorded logs is of the note they are filed under. -/
theorem note_id_of_merge {history : History NoteLogEntry}
    (hfiled : ∀ entry, Recorded history entry → ∀ note, entry.op = .upsert note → note.id = id)
    {logs : List NoteLog} (hlogs : RecordedLogs history logs) (hmerge : merge logs = some merged)
    (hnote : merged.note = some note) : note.id = id := by
  obtain ⟨log, hlog, entry, hentry, source, hop, hsame⟩ := exists_upsert_of_merge hmerge hnote
  exact hsame.trans (hfiled entry (hlogs.recorded log hlog entry hentry) source hop)

/-- A readable projection was made from logs. -/
theorem Sound.exists_seen (hsound : store.Sound histories) {value : NoteMeta}
    (hvalue : (store.tree.noteFolder id).meta = some (.readable value)) :
    ∃ logs merged note, store.projectedFrom id = some logs ∧ RecordedLogs (histories id) logs ∧
      merge logs = some merged ∧ merged.note = some note ∧ note.id = id ∧
      (store.tree.noteFolder id).md = some note.body ∧
      value = ⟨{ note with body := "" }, merged.vv⟩ := by
  have hseen := hsound.seen id
  cases hfrom : store.projectedFrom id with
  | none =>
      rw [hfrom] at hseen
      rw [hseen.2] at hvalue
      contradiction
  | some logs =>
      rw [hfrom] at hseen
      obtain ⟨hlogs, merged, hmerge, hsome, hprojection⟩ := hseen
      obtain ⟨note, hnote⟩ := Option.isSome_iff_exists.mp hsome
      rw [ProjectionOf, hnote] at hprojection
      obtain ⟨hmd, hmeta⟩ := hprojection
      rw [hvalue, Option.some.injEq, Sidecar.readable.injEq] at hmeta
      exact ⟨logs, merged, note, rfl, hlogs, hmerge, hnote,
        note_id_of_merge (hsound.filed id) hlogs hmerge hnote, hmd, hmeta⟩

theorem Sound.not_unreadable (hsound : store.Sound histories) (id : Uuid) :
    (store.tree.noteFolder id).meta ≠ some .unreadable := by
  intro hunreadable
  have hseen := hsound.seen id
  cases hfrom : store.projectedFrom id with
  | none =>
      rw [hfrom] at hseen
      rw [hseen.2] at hunreadable
      contradiction
  | some logs =>
      rw [hfrom] at hseen
      obtain ⟨-, merged, -, hsome, hprojection⟩ := hseen
      obtain ⟨note, hnote⟩ := Option.isSome_iff_exists.mp hsome
      rw [ProjectionOf, hnote, hunreadable] at hprojection
      cases hprojection.2

/-- The store without its trace is sound too. -/
theorem Sound.toIndexedTree (hsound : store.Sound histories) : store.toIndexedTree.Sound where
  folders := hsound.folders
  logs := hsound.names
  filed id log hlog entry hentry :=
    hsound.filed id entry ((hsound.logs id).recorded log hlog entry hentry)
  projected id value hvalue := by
    obtain ⟨-, -, note, -, -, -, -, hid, -, rfl⟩ := hsound.exists_seen hvalue
    exact hid
  merges id := by
    obtain ⟨merged, hmerge⟩ := hsound.exists_merge id
    exact ⟨merged, mergeLogs_eq_ok.mpr hmerge⟩

/-- A note that a call leaves as it was. -/
structure Kept (store after : TracedStore) (id : Uuid) : Prop where
  folder : after.tree.noteFolder id = store.tree.noteFolder id
  seen : after.projectedFrom id = store.projectedFrom id
  entry : after.indexEntry id = store.indexEntry id

theorem Kept.refl (store : TracedStore) (id : Uuid) : Kept store store id := ⟨rfl, rfl, rfl⟩

theorem Kept.trans {middle after : TracedStore} (hfirst : Kept store middle id)
    (hsecond : Kept middle after id) : Kept store after id :=
  ⟨hsecond.folder.trans hfirst.folder, hsecond.seen.trans hfirst.seen,
    hsecond.entry.trans hfirst.entry⟩

/-- The folders after the projection of a note. -/
theorem noteFolder_project (store : TracedStore) (place : Uuid → Nat) (note : Note)
    (vv : VersionVector) (other : Uuid) :
    (store.performAll place (FsTree.projectionWrites note vv)).tree.noteFolder other =
      if note.id = other then
        { store.tree.noteFolder other with
          md := some note.body
          «meta» := some (.readable ⟨{ note with body := "" }, vv⟩) }
      else store.tree.noteFolder other := by
  rw [tree_performAll]
  simp only [FsTree.projectionWrites, FsTree.performAll, List.foldl_cons, List.foldl_nil,
    FsTree.perform, FsTree.noteFolder_modifyNote]
  by_cases hid : note.id = other
  · simp only [hid, ↓reduceIte]
  · simp only [hid, ↓reduceIte]

theorem projectedFrom_project (store : TracedStore) (place : Uuid → Nat) (note : Note)
    (vv : VersionVector) :
    (store.performAll place (FsTree.projectionWrites note vv)).projectedFrom =
      Function.update store.projectedFrom note.id (some (store.tree.noteLogs note.id)) := by
  have hlogs : (store.tree.perform place (.noteMd note.id note.body)).noteLogs note.id =
      store.tree.noteLogs note.id :=
    congrArg readNoteLogs (store.tree.logs_perform_other (by simp) note.id)
  rw [← hlogs]
  rfl

theorem indexEntry_project (store : TracedStore) (place : Uuid → Nat) (note : Note)
    (vv : VersionVector) (other : Uuid) :
    (store.performAll place (FsTree.projectionWrites note vv)).indexEntry other =
      if note.id = other then
        (liveNote (.ok (some { note with body := "" }))).map NoteMetaEntry.fromNote
      else store.indexEntry other := by
  rw [toIndexedTree_performAll]
  change ((store.toIndexedTree.perform place (.noteMd note.id note.body)).perform place
    (.noteMeta note.id ⟨{ note with body := "" }, vv⟩)).indexEntry other = _
  rw [IndexedTree.indexEntry_perform_noteMeta ⟨{ note with body := "" }, vv⟩ rfl,
    IndexedTree.indexEntry_perform_beside (by simp [IndexedTree.Beside])]

theorem index_project (store : TracedStore) (place : Uuid → Nat) (note : Note)
    (vv : VersionVector) :
    (store.performAll place (FsTree.projectionWrites note vv)).index =
      store.index.map fun idx => idx.apply { note with body := "" } := by
  rw [toIndexedTree_performAll]
  rfl

theorem nodup_folders_performAll {tree : FsTree} (hfolders : tree.allNoteIds.Nodup)
    (writes : List TreeWrite) : (tree.performAll place writes).allNoteIds.Nodup :=
  @FsTree.performAll_keeps (fun tree => tree.allNoteIds.Nodup) place
    (fun _ write hnodup => IndexedTree.nodup_allNoteIds_perform hnodup write) tree hfolders writes

/-- The projection of a merge is that of its logs, and the index shows it. -/
theorem Sound.project (hsound : store.Sound histories) (place : Uuid → Nat)
    (hmerge : merge (store.tree.noteLogs id) = some merged) (hnote : merged.note = some note)
    {after : TracedStore}
    (hafter : after = store.performAll place (FsTree.projectionWrites note merged.vv)) :
    after.Sound histories ∧ ProjectionOf (after.tree.noteFolder id) merged ∧
      (∀ other, (after.tree.noteFolder other).logs = (store.tree.noteFolder other).logs) ∧
      ∀ other, other ≠ id → Kept store after other := by
  obtain rfl : note.id = id := note_id_of_merge (hsound.filed id) (hsound.logs id) hmerge hnote
  have hfolder := hafter ▸ noteFolder_project store place note merged.vv
  have hfrom := hafter ▸ projectedFrom_project store place note merged.vv
  have hentry := hafter ▸ indexEntry_project store place note merged.vv
  have hindex := hafter ▸ index_project store place note merged.vv
  have hnodup : after.tree.allNoteIds.Nodup := by
    rw [hafter, tree_performAll]
    exact nodup_folders_performAll hsound.folders _
  have hlogs : ∀ other,
      (after.tree.noteFolder other).logs = (store.tree.noteFolder other).logs := by
    intro other
    rw [hfolder]
    split <;> rfl
  have hnoteLogs : ∀ other, after.tree.noteLogs other = store.tree.noteLogs other :=
    fun other => congrArg readNoteLogs (hlogs other)
  have hprojection : ProjectionOf (after.tree.noteFolder note.id) merged := by
    rw [ProjectionOf, hnote, hfolder, if_pos rfl]
    exact ⟨rfl, rfl⟩
  have hkept : ∀ other, other ≠ note.id → Kept store after other := by
    intro other hother
    refine ⟨?_, ?_, ?_⟩
    · rw [hfolder, if_neg (Ne.symm hother)]
    · rw [hfrom, Function.update_of_ne hother]
    · rw [hentry, if_neg (Ne.symm hother)]
  refine ⟨⟨hsound.exact, hsound.filed, hnodup, ?_, ?_, ?_, ?_⟩, hprojection, hlogs, hkept⟩
  · intro other
    rw [hlogs]
    exact hsound.names other
  · intro other
    rw [hnoteLogs]
    exact hsound.logs other
  · intro other
    by_cases hother : other = note.id
    · subst hother
      rw [hfrom, Function.update_self]
      exact ⟨hsound.logs note.id, merged, hmerge, by rw [hnote]; rfl, hprojection⟩
    · rw [(hkept other hother).folder, (hkept other hother).seen]
      exact hsound.seen other
  · intro idx hidx other value hvalue
    obtain ⟨before, hbefore, -⟩ := Option.map_eq_some_iff.mp (hindex.symm.trans hidx)
    have hshown := hentry other
    simp only [IndexedTree.indexEntry, hidx, hbefore] at hshown
    rw [hshown]
    by_cases hother : note.id = other
    · rw [hfolder, if_pos hother, Option.some.injEq, Sidecar.readable.injEq] at hvalue
      rw [if_pos hother, ← hvalue]
    · rw [hfolder, if_neg hother] at hvalue
      rw [if_neg hother]
      exact hsound.entries before hbefore other value hvalue

theorem Seen.mono {history grown : History NoteLogEntry} {folder : NoteFolder}
    {found : Option (List NoteLog)} (hseen : Seen history folder found)
    (hgrown : ∀ entry, Recorded history entry → Recorded grown entry) :
    Seen grown folder found := by
  cases found with
  | none => exact hseen
  | some logs =>
      obtain ⟨hlogs, hrest⟩ := hseen
      exact ⟨hlogs.mono hgrown, hrest⟩

/-- The histories go on elsewhere. -/
theorem Sound.mono (hsound : store.Sound histories) {grown : Uuid → History NoteLogEntry}
    (hexact : ∀ id, entryClock.Exact (grown id))
    (hfiled : ∀ id entry, Recorded (grown id) entry → ∀ note, entry.op = .upsert note →
      note.id = id)
    (hgrown : ∀ id entry, Recorded (histories id) entry → Recorded (grown id) entry) :
    store.Sound grown where
  exact := hexact
  filed := hfiled
  folders := hsound.folders
  names := hsound.names
  logs id := (hsound.logs id).mono (hgrown id)
  seen id := (hsound.seen id).mono (hgrown id)
  entries := hsound.entries

/-- A log of the note arrives or is appended to. -/
theorem Sound.noteLog (hsound : store.Sound histories) (place : Uuid → Nat) {device : String}
    {log : NoteLog} (hlogs : RecordedLogs (histories id)
      (readNoteLogs (writeNoteLog (store.tree.noteFolder id).logs device log))) :
    (store.perform place (.noteLog id device log)).Sound histories := by
  have hfolder : ∀ other,
      (store.perform place (.noteLog id device log)).tree.noteFolder other =
        if id = other then
          { store.tree.noteFolder id with
            logs := writeNoteLog (store.tree.noteFolder id).logs device log }
        else store.tree.noteFolder other :=
    fun other => FsTree.noteFolder_modifyNote _ _ _ _ _
  refine ⟨hsound.exact, hsound.filed, IndexedTree.nodup_allNoteIds_perform hsound.folders _,
    FsTree.nodup_logs_perform hsound.names _, ?_, ?_, ?_⟩
  · intro other
    rw [FsTree.noteLogs, hfolder]
    split
    · next hother => exact hother ▸ hlogs
    · exact hsound.logs other
  · intro other
    have hseen := hsound.seen other
    change Seen _ _ (store.projectedFrom other)
    rw [hfolder]
    split
    · next hother =>
        subst hother
        cases hfrom : store.projectedFrom id <;> rw [hfrom] at hseen <;> exact hseen
    · exact hseen
  · intro idx hidx other value hvalue
    refine hsound.entries idx hidx other value ?_
    rw [hfolder] at hvalue
    split at hvalue
    · next hother => exact hother ▸ hvalue
    · exact hvalue

/-- A resource of the note is written. -/
theorem Sound.resource (hsound : store.Sound histories) (place : Uuid → Nat) (noteId id : Uuid)
    (stored : StoredResource) :
    (store.perform place (.resource noteId id stored)).Sound histories := by
  have hparts : ∀ {B : Type} (part : NoteFolder → B),
      (∀ folder resources, part { folder with resources := resources } = part folder) →
      ∀ other, part ((store.perform place (.resource noteId id stored)).tree.noteFolder other) =
        part (store.tree.noteFolder other) :=
    fun part hpart other => store.tree.folder_modifyNote part (fun folder => hpart folder _) other
  have hlogs := hparts NoteFolder.logs fun _ _ => rfl
  have hmd := hparts NoteFolder.md fun _ _ => rfl
  have hmeta := hparts NoteFolder.meta fun _ _ => rfl
  refine ⟨hsound.exact, hsound.filed, IndexedTree.nodup_allNoteIds_perform hsound.folders _,
    FsTree.nodup_logs_perform hsound.names _, ?_, ?_, ?_⟩
  · intro other
    rw [FsTree.noteLogs, hlogs]
    exact hsound.logs other
  · intro other
    have hseen := hsound.seen other
    change Seen _ _ (store.projectedFrom other)
    cases hfrom : store.projectedFrom other with
    | none =>
        rw [hfrom] at hseen
        exact ⟨(hmd other).trans hseen.1, (hmeta other).trans hseen.2⟩
    | some logs =>
        rw [hfrom] at hseen
        obtain ⟨hrecorded, merged, hmerge, hsome, hprojection⟩ := hseen
        refine ⟨hrecorded, merged, hmerge, hsome, ?_⟩
        rw [ProjectionOf] at hprojection ⊢
        cases hnote : merged.note with
        | none => rw [hnote] at hsome; cases hsome
        | some note =>
            rw [hnote] at hprojection
            exact ⟨(hmd other).trans hprojection.1, (hmeta other).trans hprojection.2⟩
  · intro idx hidx other value hvalue
    rw [hmeta] at hvalue
    exact hsound.entries idx hidx other value hvalue

/-- The index is built. -/
theorem Sound.withIndex (hsound : store.Sound histories) {idx : NoteMetaIndex}
    (hidx : ∀ id, idx[id]? = store.indexEntry id) :
    ({ store with index := some idx } : TracedStore).Sound histories where
  exact := hsound.exact
  filed := hsound.filed
  folders := hsound.folders
  names := hsound.names
  logs := hsound.logs
  seen := hsound.seen
  entries found hfound id value hvalue := by
    obtain rfl := Option.some.inj hfound
    rw [hidx, IndexedTree.indexEntry]
    cases hindex : store.index with
    | some before => exact hsound.entries before hindex id value hvalue
    | none => simp only [FsTree.indexedNote, FsTree.readNoteProjection, hvalue]

/-- The collection writes the projection of the note. -/
def Moves (store : TracedStore) (id : Uuid) : Prop :=
  ∃ merged, merge (store.tree.noteLogs id) = some merged ∧ merged.note.isSome ∧
    store.tree.noteVv id ≠ .ok merged.vv

theorem Kept.moves_iff {after : TracedStore} (hkept : Kept store after id) :
    after.Moves id ↔ store.Moves id := by
  simp only [Moves, FsTree.noteLogs, FsTree.noteVv, hkept.folder]

theorem Sound.noteVv_ok (hsound : store.Sound histories) (id : Uuid) :
    ∃ vv, store.tree.noteVv id = .ok vv := by
  rw [FsTree.noteVv]
  cases hmeta : (store.tree.noteFolder id).meta with
  | none => exact ⟨_, rfl⟩
  | some sidecar =>
      cases sidecar with
      | unreadable => exact absurd hmeta (hsound.not_unreadable id)
      | readable value => exact ⟨_, rfl⟩

/-- What the collection does with one note. -/
theorem Sound.collectNote_cases (hsound : store.Sound histories) (id : Uuid) :
    (¬ store.Moves id ∧ store.tree.collectNote id = .done none) ∨
      ∃ merged note change, merge (store.tree.noteLogs id) = some merged ∧
        merged.note = some note ∧ store.Moves id ∧
        store.tree.collectNote id =
          ⟨FsTree.projectionWrites note merged.vv, .ok (some change)⟩ := by
  obtain ⟨merged, hmerge⟩ := hsound.exists_merge id
  obtain ⟨vv, hvv⟩ := hsound.noteVv_ok id
  simp only [FsTree.collectNote, hvv, mergeLogs_eq_ok.mpr hmerge, Plan.reading]
  by_cases hsame : merged.vv = vv
  · refine .inl ⟨?_, by rw [if_pos hsame]⟩
    rintro ⟨found, hfound, -, hne⟩
    obtain rfl := Option.some.inj (hmerge.symm.trans hfound)
    exact hne (hsame ▸ hvv)
  · rw [if_neg hsame]
    cases hnote : merged.note with
    | none =>
        refine .inl ⟨?_, rfl⟩
        rintro ⟨found, hfound, hsome, -⟩
        obtain rfl := Option.some.inj (hmerge.symm.trans hfound)
        rw [hnote] at hsome
        cases hsome
    | some note =>
        refine .inr ⟨merged, note, _, hmerge, hnote, ⟨merged, hmerge, by rw [hnote]; rfl, ?_⟩, rfl⟩
        rw [hvv]
        exact fun heq => hsame (Except.ok.inj heq).symm

/-- A note after the collection: its projection is that of the merge if it was
written, and otherwise nothing has changed. -/
structure Collected (store after : TracedStore) (ids : List Uuid) (id : Uuid) : Prop where
  logs : (after.tree.noteFolder id).logs = (store.tree.noteFolder id).logs
  moved : id ∈ ids → store.Moves id →
    ∃ merged, merge (store.tree.noteLogs id) = some merged ∧
      ProjectionOf (after.tree.noteFolder id) merged
  kept : ¬ (id ∈ ids ∧ store.Moves id) → Kept store after id

theorem Sound.collectNotes (hsound : store.Sound histories) (place : Uuid → Nat) {ids : List Uuid}
    (hids : ids.Nodup) :
    (∃ changes, (store.collectNotes place ids).2 = .ok changes) ∧
      (store.collectNotes place ids).1.Sound histories ∧
      ∀ id, Collected store (store.collectNotes place ids).1 ids id := by
  induction ids generalizing store with
  | nil =>
      exact ⟨⟨[], rfl⟩, hsound, fun id => ⟨rfl, fun hmem => absurd hmem List.not_mem_nil,
        fun _ => .refl store id⟩⟩
  | cons head rest ih =>
      obtain ⟨hhead, hrest⟩ := List.nodup_cons.mp hids
      rcases hsound.collectNote_cases head with
        ⟨hstays, hplan⟩ | ⟨merged, note, change, hmerge, hnote, hmoves, hplan⟩
      · obtain ⟨⟨changes, hok⟩, hafter, hcollected⟩ := ih hsound hrest
        have hsame : store.performAll place [] = store := rfl
        simp only [TracedStore.collectNotes, hplan, Plan.done, hsame, hok]
        refine ⟨⟨_, rfl⟩, hafter, fun id => ⟨(hcollected id).logs, fun hmem hid => ?_,
          fun hnot => (hcollected id).kept fun hboth =>
            hnot ⟨List.mem_cons_of_mem _ hboth.1, hboth.2⟩⟩⟩
        rcases List.mem_cons.mp hmem with rfl | hlater
        · exact absurd hid hstays
        · exact (hcollected id).moved hlater hid
      · obtain ⟨hmiddle, hprojection, hlogs, hothers⟩ := hsound.project place hmerge hnote rfl
        obtain ⟨⟨changes, hok⟩, hafter, hcollected⟩ := ih hmiddle hrest
        simp only [TracedStore.collectNotes, hplan, hok]
        have hnoteLogs : ∀ id, (store.performAll place
            (FsTree.projectionWrites note merged.vv)).tree.noteLogs id = store.tree.noteLogs id :=
          fun id => congrArg readNoteLogs (hlogs id)
        refine ⟨⟨_, rfl⟩, hafter, fun id => ⟨(hcollected id).logs.trans (hlogs id), ?_, ?_⟩⟩
        · intro hmem hid
          by_cases hsame : id = head
          · subst hsame
            have hkept := (hcollected id).kept fun hboth => hhead hboth.1
            exact ⟨merged, hmerge, hkept.folder ▸ hprojection⟩
          · obtain ⟨found, hfound, hprojected⟩ := (hcollected id).moved
              ((List.mem_cons.mp hmem).resolve_left hsame)
              ((hothers id hsame).moves_iff.mpr hid)
            exact ⟨found, hnoteLogs id ▸ hfound, hprojected⟩
        · intro hnot
          have hsame : id ≠ head := by
            rintro rfl
            exact hnot ⟨List.mem_cons_self, hmoves⟩
          refine (hothers id hsame).trans ((hcollected id).kept fun hboth => ?_)
          exact hnot ⟨List.mem_cons_of_mem _ hboth.1, (hothers id hsame).moves_iff.mp hboth.2⟩

/-- Every projection is that of the merge, and the index is the one that would be
built. -/
structure Fresh (store : IndexedTree) : Prop where
  projections : ∀ id, ∃ merged, merge (store.tree.noteLogs id) = some merged ∧
    ProjectionOf (store.tree.noteFolder id) merged
  index : ∀ idx, store.index = some idx → store.tree.buildNoteIndex = .ok idx

/-- A note that has been seen keeps an upsert in its logs; and where a tombstone
wins and the joined vector is that of the logs the projection was made from, the
latest upsert has the content it had there. -/
structure Steady (store : TracedStore) (id : Uuid) : Prop where
  upsert : (store.projectedFrom id).isSome ∨ (store.indexEntry id).isSome →
    hasUpsert (store.tree.noteLogs id)
  content : ∀ logs, store.projectedFrom id = some logs →
    mergedVv (heads (store.tree.noteLogs id)) = mergedVv (heads logs) →
    TombstoneWins (store.tree.noteLogs id) →
    (latestUpsert (store.tree.noteLogs id)).map Note.keptByTombstone =
      (latestUpsert logs).map Note.keptByTombstone

/-- A projection is made from logs with another vector, or with the vector of
these. -/
theorem Sound.noteVv_eq (hsound : store.Sound histories) (id : Uuid) :
    store.tree.noteVv id = .ok (((store.projectedFrom id).map fun logs =>
      mergedVv (heads logs)).getD ∅) := by
  have hseen := hsound.seen id
  rw [FsTree.noteVv]
  cases hfrom : store.projectedFrom id with
  | none =>
      rw [hfrom] at hseen
      rw [hseen.2]
      rfl
  | some logs =>
      rw [hfrom] at hseen
      obtain ⟨-, merged, hmerge, hsome, hprojection⟩ := hseen
      obtain ⟨note, hnote⟩ := Option.isSome_iff_exists.mp hsome
      rw [ProjectionOf, hnote] at hprojection
      rw [hprojection.2]
      simp only [merge_vv hmerge, Option.map_some, Option.getD_some]

/-- A note that was merged is what the winner resolves to. -/
theorem exists_winner {logs : List NoteLog} (hmerge : merge logs = some merged)
    (hsome : merged.note.isSome) :
    ∃ winner, maxBy NoteLogEntry.compareStamp (frontier (heads logs)) = some winner ∧
      merged.note = resolvedNote logs winner := by
  unfold merge at hmerge
  split at hmerge
  · obtain rfl := Option.some.inj hmerge
    cases hsome
  · obtain ⟨winner, hwinner, rfl⟩ := Option.map_eq_some_iff.mp hmerge
    exact ⟨winner, hwinner, rfl⟩

/-- A projection tells the note and the vector it was made from. -/
theorem projectionOf_iff_of_vv {seen : Merged} {folder : NoteFolder}
    (hprojection : ProjectionOf folder seen) (hfound : seen.note.isSome)
    (hvv : merged.vv = seen.vv) : ProjectionOf folder merged ↔ merged.note = seen.note := by
  obtain ⟨note, hnote⟩ := Option.isSome_iff_exists.mp hfound
  rw [ProjectionOf, hnote] at hprojection
  obtain ⟨hmd, hmeta⟩ := hprojection
  rw [ProjectionOf, hnote]
  cases hmerged : merged.note with
  | none => simp [hmd]
  | some other =>
      simp only [hmd, hmeta, hvv, Option.some.injEq, Sidecar.readable.injEq, NoteMeta.mk.injEq,
        and_true]
      constructor
      · rintro ⟨hbody, hrest⟩
        cases note
        cases other
        simp_all
      · rintro rfl
        exact ⟨rfl, rfl⟩

/-- A tombstone resolves to the same note where it keeps the same content. -/
theorem resolvedNote_eq_iff {logs now : List NoteLog} {winner : NoteLogEntry} {deletedAt : DateTime}
    (hop : winner.op = .tombstone deletedAt) :
    resolvedNote now winner = resolvedNote logs winner ↔
      (latestUpsert now).map Note.keptByTombstone =
        (latestUpsert logs).map Note.keptByTombstone := by
  simp only [resolvedNote, hop]
  cases latestUpsert now with
  | none => cases latestUpsert logs <;> simp
  | some one =>
      cases latestUpsert logs with
      | none => simp
      | some other =>
          simp only [Option.map_some, Option.some.injEq]
          exact (keptByTombstone_eq_iff deletedAt).symm

/-- Where the vectors agree, the projections do if a winning tombstone keeps the
same content. -/
theorem projectionOf_iff {history : History NoteLogEntry} (hexact : entryClock.Exact history)
    {logs now : List NoteLog} (hlogs : RecordedLogs history logs)
    (hnow : RecordedLogs history now) (hvv : mergedVv (heads now) = mergedVv (heads logs))
    {seen : Merged} (hseen : merge logs = some seen) (hfound : seen.note.isSome)
    (hmerge : merge now = some merged) (hsome : merged.note.isSome) {folder : NoteFolder}
    (hprojection : ProjectionOf folder seen) :
    ProjectionOf folder merged ↔ (TombstoneWins now →
      (latestUpsert now).map Note.keptByTombstone =
        (latestUpsert logs).map Note.keptByTombstone) := by
  have hsameVv : merged.vv = seen.vv := by rw [merge_vv hmerge, merge_vv hseen, hvv]
  obtain ⟨winner, hwinner, hresolved⟩ := exists_winner hmerge hsome
  obtain ⟨other, hother, hresolvedSeen⟩ := exists_winner hseen hfound
  obtain rfl : winner = other := by
    have hsame := winner_of_mergedVv hexact hnow hlogs hvv
    rw [hwinner, hother] at hsame
    exact Option.some.inj hsame
  rw [projectionOf_iff_of_vv hprojection hfound hsameVv, hresolved, hresolvedSeen]
  cases hop : winner.op with
  | upsert note =>
      simp only [resolvedNote, hop, true_iff]
      intro htombstone
      obtain ⟨deleting, deletedAt, hdeleting, htombstoneOp⟩ :=
        winner_of_tombstoneWins hnow.devices htombstone
      obtain rfl := Option.some.inj (hwinner.symm.trans hdeleting)
      rw [hop] at htombstoneOp
      contradiction
  | tombstone deletedAt =>
      rw [resolvedNote_eq_iff hop]
      exact ⟨fun hsame _ => hsame, fun hsame => hsame (tombstoneWins_of_winner hwinner hop)⟩

/-- The index is the built one where each entry is that of the note it would be
built from. -/
theorem Sound.index_iff (hsound : store.Sound histories) :
    (∀ idx, store.index = some idx → store.tree.buildNoteIndex = .ok idx) ↔
      ∀ id, store.indexEntry id =
        (liveNote (store.tree.indexedNote id)).map NoteMetaEntry.fromNote := by
  have hbare : ({ store.toIndexedTree with index := none } : IndexedTree).Sound :=
    ⟨hsound.toIndexedTree.folders, hsound.toIndexedTree.logs, hsound.toIndexedTree.filed,
      hsound.toIndexedTree.projected, hsound.toIndexedTree.merges⟩
  obtain ⟨built, hbuilt, hentries⟩ := hbare.withNoteIndex
  have hbuilt : store.tree.buildNoteIndex = .ok built := hbuilt
  have hentries : ∀ id, built[id]? =
      (liveNote (store.tree.indexedNote id)).map NoteMetaEntry.fromNote := hentries
  simp only [hbuilt, Except.ok.injEq]
  cases hindex : store.index with
  | none =>
      simp only [reduceCtorEq, false_implies, implies_true, IndexedTree.indexEntry, hindex]
  | some idx =>
      simp only [Option.some.injEq, forall_eq', IndexedTree.indexEntry, hindex]
      constructor
      · rintro rfl
        exact hentries
      · intro hsame
        exact Std.ExtTreeMap.ext_getElem? fun id => (hentries id).trans (hsame id).symm

/-- The index shows a projection as it would be built. -/
theorem Sound.entry_of_projection (hsound : store.Sound histories) {value : NoteMeta}
    (hvalue : (store.tree.noteFolder id).meta = some (.readable value)) :
    store.indexEntry id = (liveNote (store.tree.indexedNote id)).map NoteMetaEntry.fromNote := by
  have hread : store.tree.indexedNote id = .ok (some value.note) := by
    simp only [FsTree.indexedNote, FsTree.readNoteProjection, hvalue]
  cases hindex : store.index with
  | none => simp only [IndexedTree.indexEntry, hindex]
  | some idx =>
      simp only [IndexedTree.indexEntry, hindex, hread]
      exact hsound.entries idx hindex id value hvalue

/-- A note is fresh with its entry. -/
def FreshAt (store : IndexedTree) (id : Uuid) : Prop :=
  (∃ merged, merge (store.tree.noteLogs id) = some merged ∧
    ProjectionOf (store.tree.noteFolder id) merged) ∧
  store.indexEntry id = (liveNote (store.tree.indexedNote id)).map NoteMetaEntry.fromNote

theorem Sound.fresh_iff (hsound : store.Sound histories) :
    Fresh store.toIndexedTree ↔ ∀ id, FreshAt store.toIndexedTree id := by
  constructor
  · exact fun hfresh id => ⟨hfresh.projections id, hsound.index_iff.mp hfresh.index id⟩
  · exact fun hfresh => ⟨fun id => (hfresh id).1, hsound.index_iff.mpr fun id => (hfresh id).2⟩

/-- A note that is not collected is fresh where it is steady. -/
theorem Sound.freshAt_iff_steady (hsound : store.Sound histories) (hstays : ¬ store.Moves id) :
    FreshAt store.toIndexedTree id ↔ store.Steady id := by
  obtain ⟨merged, hmerge⟩ := hsound.exists_merge id
  have hseen := hsound.seen id
  have hvv := hsound.noteVv_eq id
  have hfreshAt : FreshAt store.toIndexedTree id ↔
      ProjectionOf (store.tree.noteFolder id) merged ∧
        store.indexEntry id =
          (liveNote (store.tree.indexedNote id)).map NoteMetaEntry.fromNote := by
    refine and_congr_left fun _ => ⟨?_, fun hprojection => ⟨merged, hmerge, hprojection⟩⟩
    rintro ⟨found, hfound, hprojection⟩
    obtain rfl := Option.some.inj (hmerge.symm.trans hfound)
    exact hprojection
  rw [hfreshAt]
  cases hfrom : store.projectedFrom id with
  | none =>
      rw [hfrom] at hseen hvv
      obtain ⟨hmd, hmeta⟩ := hseen
      have hread : store.tree.indexedNote id = .ok merged.note := by
        simp only [FsTree.indexedNote, FsTree.readNoteProjection, hmeta, FsTree.mergeNote,
          mergeLogs_eq_ok.mpr hmerge]
        rfl
      -- A note with content would have been collected.
      have hnone : merged.note = none := by
        by_contra hsome
        have hsome := Option.isSome_iff_ne_none.mpr hsome
        have hempty : merged.vv = ∅ := by
          by_contra hne
          refine hstays ⟨merged, hmerge, hsome, ?_⟩
          rw [hvv]
          exact fun heq => hne (Except.ok.inj heq).symm
        rw [merge_vv hmerge] at hempty
        obtain ⟨winner, hwinner, -⟩ := exists_winner hmerge hsome
        rw [heads_nil_of_mergedVv (hsound.exact id) (hsound.logs id) hempty] at hwinner
        contradiction
      have hno : ¬ hasUpsert (store.tree.noteLogs id) := by
        rw [← merge_note_isSome hmerge, hnone]
        simp
      rw [ProjectionOf, hnone, hread, hnone]
      constructor
      · rintro ⟨-, hentry⟩
        refine ⟨fun hknown => ?_, fun logs hlogs => by rw [hfrom] at hlogs; contradiction⟩
        rw [hfrom, hentry] at hknown
        simp [liveNote] at hknown
      · intro hsteady
        refine ⟨⟨hmd, hmeta⟩, ?_⟩
        have hentry : ¬ (store.indexEntry id).isSome := fun hentry =>
          hno (hsteady.upsert (.inr hentry))
        rw [Option.not_isSome_iff_eq_none] at hentry
        rw [hentry]
        rfl
  | some logs =>
      rw [hfrom] at hseen hvv
      obtain ⟨hlogs, seen, hmergeSeen, hfound, hprojection⟩ := hseen
      have hmeta : ∃ value, (store.tree.noteFolder id).meta = some (.readable value) := by
        obtain ⟨note, hnote⟩ := Option.isSome_iff_exists.mp hfound
        rw [ProjectionOf, hnote] at hprojection
        exact ⟨_, hprojection.2⟩
      obtain ⟨value, hvalue⟩ := hmeta
      rw [and_iff_left (hsound.entry_of_projection hvalue)]
      cases hnote : merged.note with
      | none =>
          have hno : ¬ hasUpsert (store.tree.noteLogs id) := by
            rw [← merge_note_isSome hmerge, hnote]
            simp
          rw [ProjectionOf, hnote, hvalue]
          constructor
          · rintro ⟨-, hmissing⟩
            contradiction
          · exact fun hsteady => absurd (hsteady.upsert (.inl (by rw [hfrom]; rfl))) hno
      | some note =>
          have hsome : merged.note.isSome := by rw [hnote]; rfl
          have hsame : mergedVv (heads (store.tree.noteLogs id)) = mergedVv (heads logs) := by
            by_contra hne
            refine hstays ⟨merged, hmerge, hsome, ?_⟩
            rw [hvv, merge_vv hmerge]
            exact fun heq => hne (Except.ok.inj heq).symm
          rw [projectionOf_iff (hsound.exact id) hlogs (hsound.logs id) hsame hmergeSeen hfound hmerge
            hsome hprojection]
          constructor
          · intro hcontent
            refine ⟨fun _ => (merge_note_isSome hmerge).mp hsome, fun other hother _ => ?_⟩
            obtain rfl := Option.some.inj (hfrom.symm.trans hother)
            exact hcontent
          · exact fun hsteady => hsteady.content logs hfrom hsame

theorem Sound.steady_of_moves (hsound : store.Sound histories) (hmoves : store.Moves id) :
    store.Steady id := by
  obtain ⟨merged, hmerge, hsome, hne⟩ := hmoves
  refine ⟨fun _ => (merge_note_isSome hmerge).mp hsome, fun logs hlogs hvv => ?_⟩
  rw [hsound.noteVv_eq, hlogs, merge_vv hmerge, hvv] at hne
  exact absurd rfl hne

theorem Kept.freshAt_iff {after : TracedStore} (hkept : Kept store after id) :
    FreshAt after.toIndexedTree id ↔ FreshAt store.toIndexedTree id := by
  simp only [FreshAt, FsTree.noteLogs, FsTree.indexedNote, FsTree.readNoteProjection,
    FsTree.mergeNote, FsTree.mergeLogs, hkept.folder, hkept.entry]

theorem mem_allNoteIds_of_moves (hmoves : store.Moves id) : id ∈ store.tree.allNoteIds := by
  by_contra hmissing
  obtain ⟨merged, hmerge, hsome, -⟩ := hmoves
  have hfolder : store.tree.notes.file? id = none := Directory.file?_eq_none_iff.mpr
    fun folder hmem => hmissing (List.mem_map.mpr ⟨(id, folder), hmem, rfl⟩)
  have hlogs : store.tree.noteLogs id = [] := by
    rw [FsTree.noteLogs, FsTree.noteFolder, hfolder]
    rfl
  rw [hlogs] at hmerge
  obtain rfl := Option.some.inj hmerge
  cases hsome

/-- After changes are received the projections and the index are fresh exactly if
every note is steady. -/
theorem Sound.fresh_receiveChanges_iff (hsound : store.Sound histories) (place : Uuid → Nat) :
    (∃ changes, (store.receiveChanges place).2 = .ok changes) ∧
      (Fresh (store.receiveChanges place).1.toIndexedTree ↔ ∀ id, store.Steady id) := by
  obtain ⟨hok, hafter, hcollected⟩ := hsound.collectNotes place hsound.folders
  refine ⟨hok, hafter.fresh_iff.trans (forall_congr' fun id => ?_)⟩
  by_cases hmoves : store.Moves id
  · refine iff_of_true ⟨?_, ?_⟩ (hsound.steady_of_moves hmoves)
    · obtain ⟨merged, hmerge, hprojection⟩ :=
        (hcollected id).moved (mem_allNoteIds_of_moves hmoves) hmoves
      have hlogs : (store.receiveChanges place).1.tree.noteLogs id = store.tree.noteLogs id :=
        congrArg readNoteLogs (hcollected id).logs
      exact ⟨merged, hlogs ▸ hmerge, hprojection⟩
    · obtain ⟨merged, hmerge, hprojection⟩ :=
        (hcollected id).moved (mem_allNoteIds_of_moves hmoves) hmoves
      obtain ⟨found, hfound, hsome, -⟩ := hmoves
      obtain rfl := Option.some.inj (hmerge.symm.trans hfound)
      obtain ⟨note, hnote⟩ := Option.isSome_iff_exists.mp hsome
      rw [ProjectionOf, hnote] at hprojection
      exact hafter.entry_of_projection hprojection.2
  · rw [((hcollected id).kept fun hboth => hmoves hboth.2).freshAt_iff]
    exact hsound.freshAt_iff_steady hmoves

end TracedStore

end Keeplin
