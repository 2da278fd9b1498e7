/-
The index of the live notes that the filesystem store keeps in memory, and the
pages it lists from it.
-/
import Keeplin.FsNotes
import Keeplin.InboxOrder
import Keeplin.SmallestHeap

namespace Keeplin

structure NoteMetaEntry where
  notebookId : Uuid
  createdAt : DateTime
  effectiveSortKey : Nat
  isStarred : Bool
deriving DecidableEq

def NoteMetaEntry.fromNote (note : Note) : NoteMetaEntry :=
  ⟨note.notebookId, note.createdAt, note.effectiveSortKey, note.isStarred⟩

/-- The entries by note.  Nothing depends on the order they are visited in. -/
abbrev NoteMetaIndex := Std.ExtTreeMap Uuid NoteMetaEntry

def NoteMetaIndex.apply (idx : NoteMetaIndex) (note : Note) : NoteMetaIndex :=
  if note.deletedAt.isSome then idx.erase note.id
  else idx.insert note.id (.fromNote note)

theorem NoteMetaIndex.nodup_ids (idx : NoteMetaIndex) (shows : Uuid × NoteMetaEntry → Bool) :
    ((idx.toList.filter shows).map Prod.fst).Nodup := by
  rw [List.Nodup, List.pairwise_map]
  refine (idx.distinct_keys_toList.sublist List.filter_sublist).imp fun hne heq => hne ?_
  rw [Std.LawfulEqCmp.compare_eq_iff_eq]
  exact heq

/-- The `limit + 1` smallest items after the cursor among those pushed.  The heap
is a sorted list, its top the last. -/
structure PageCollector where
  limit : Nat
  cursor : Option (Keyed Uuid)
  heap : List (Keyed Uuid)

namespace PageCollector

def new (limit : Nat) (cursor : Option (Keyed Uuid)) : PageCollector :=
  ⟨limit, cursor, []⟩

def push (collector : PageCollector) (item : Keyed Uuid) : PageCollector :=
  if isAfter collector.cursor item = false then collector
  else if collector.heap.length ≤ collector.limit then
    { collector with heap := collector.heap.orderedInsert (· ≤ ·) item }
  else
    match collector.heap.getLast? with
    | none => collector
    | some top =>
        if item < top then
          { collector with heap := collector.heap.dropLast.orderedInsert (· ≤ ·) item }
        else collector

def intoPage (collector : PageCollector) : List Uuid × Option (Keyed Uuid) :=
  let items := collector.heap.take collector.limit
  (items.map Keyed.id,
    if collector.limit < collector.heap.length then items.getLast? else none)

theorem limit_foldl_push (collector : PageCollector) (items : List (Keyed Uuid)) :
    (items.foldl push collector).limit = collector.limit := by
  induction items generalizing collector with
  | nil => rfl
  | cons item rest ih =>
      rw [List.foldl_cons, ih]
      unfold push
      split
      · rfl
      · split
        · rfl
        · split
          · rfl
          · split <;> rfl

theorem filter_isAfter (cursor : Option (Keyed Uuid)) (items : List (Keyed Uuid)) :
    items.filter (isAfter cursor) = afterCursor id cursor items := by
  cases cursor <;> rfl

/-- The heap keeps the smallest of what is pushed after the cursor. -/
theorem heap_foldl_push (collector : PageCollector) (items : List (Keyed Uuid)) :
    (items.foldl push collector).heap =
      (items.filter (isAfter collector.cursor)).foldl (pushSmallest id collector.limit)
        collector.heap := by
  induction items generalizing collector with
  | nil => rfl
  | cons item rest ih =>
      rw [List.foldl_cons, ih, push, List.filter_cons]
      cases isAfter collector.cursor item with
      | false => rfl
      | true =>
          simp only [Bool.true_eq_false, ↓reduceIte, List.foldl_cons]
          by_cases hroom : collector.heap.length ≤ collector.limit
          · rw [if_pos hroom, pushSmallest, if_pos hroom]
            rfl
          · rw [if_neg hroom, pushSmallest, if_neg hroom]
            cases collector.heap.getLast? with
            | none => rfl
            | some top =>
                by_cases hlt : item < top
                · simp only [id_eq, hlt, ↓reduceIte]
                  rfl
                · simp only [id_eq, hlt, ↓reduceIte]

/-- The page of what was pushed. -/
theorem intoPage_collect {items all : List (Keyed Uuid)} (hitems : items.Nodup)
    (hall : all.Pairwise (· < ·)) (hsame : ∀ item, item ∈ items ↔ item ∈ all) (limit : Nat)
    (cursor : Option (Keyed Uuid)) :
    (items.foldl push (new limit cursor)).intoPage =
      ((pageAfter limit cursor all).1.map Keyed.id, (pageAfter limit cursor all).2) := by
  have hkeys : (items.map id).Nodup := by rwa [List.map_id]
  have hsorted : all = sortBy id items :=
    eq_sortBy hall hkeys fun item => (hsame item).symm
  have hheap := heap_foldl_push (new limit cursor) items
  have hpage := cut_foldl_pushSmallest hkeys limit cursor
  rw [← hsorted, pageOf, ← filter_isAfter, ← filter_isAfter] at hpage
  rw [intoPage, limit_foldl_push, hheap]
  exact congrArg (fun page : List (Keyed Uuid) × Option (Keyed Uuid) =>
    (page.1.map Keyed.id, page.2)) hpage

end PageCollector

namespace FsTree

variable (tree : FsTree)

def readNoteProjection (id : Uuid) : Except StorageError (Option Note) :=
  match (tree.noteFolder id).meta with
  | none => .ok none
  | some .unreadable => .error .corruptedData
  | some (.readable value) => .ok (some value.note)

/-- What the index is built from: the projection, or the merge where there is
none to read. -/
def indexedNote (id : Uuid) : Except StorageError (Option Note) :=
  match tree.readNoteProjection id with
  | .ok (some note) => .ok (some note)
  | .ok none => tree.mergeNote id
  | .error _ => tree.mergeNote id

/-- One note folder of the listing the index is built over. -/
def indexFolder (idx : NoteMetaIndex) (id : Uuid) : Except StorageError NoteMetaIndex :=
  (tree.indexedNote id).map fun
    | none => idx
    | some note => if note.deletedAt = none then idx.apply note else idx

def buildNoteIndex : Except StorageError NoteMetaIndex :=
  tree.allNoteIds.foldlM tree.indexFolder ∅

/-- The live notes of a page; one that cannot be merged is left out, but a merge
that panics takes the call with it. -/
def materializePage : List Uuid → Except StorageError (List Note)
  | [] => .ok []
  | id :: rest =>
      match tree.mergeNote id with
      | .error .panic => .error .panic
      | .error _ => materializePage rest
      | .ok none => materializePage rest
      | .ok (some note) =>
          if note.deletedAt = none then (materializePage rest).map fun notes => note :: notes
          else materializePage rest

end FsTree

/-- The files and the index, once it is built. -/
structure IndexedTree where
  tree : FsTree
  index : Option NoteMetaIndex

namespace IndexedTree

variable (store : IndexedTree)

/-- A write of a projection applies the note to the index. -/
def perform (place : Uuid → Nat) (write : TreeWrite) : IndexedTree where
  tree := store.tree.perform place write
  index :=
    match write with
    | .noteMeta _ value => store.index.map fun idx => idx.apply value.note
    | _ => store.index

def performAll (place : Uuid → Nat) (writes : List TreeWrite) : IndexedTree :=
  writes.foldl (fun store write => store.perform place write) store

def withNoteIndex : Except StorageError NoteMetaIndex :=
  match store.index with
  | some idx => .ok idx
  | none => store.tree.buildNoteIndex

def listNotesInNotebook (notebookId : Uuid) (pageSize : Nat) (token : Option (Keyed Uuid)) :
    IndexedTree × Except StorageError (List Note × Option (Keyed Uuid)) :=
  match store.withNoteIndex with
  | .error failure => (store, .error failure)
  | .ok idx =>
      let entries := idx.toList.filter fun entry => entry.2.notebookId = notebookId
      let items := entries.map fun entry => (⟨entry.2.effectiveSortKey, entry.1⟩ : Keyed Uuid)
      let page := (items.foldl PageCollector.push
        (PageCollector.new (effectivePageSize pageSize) token)).intoPage
      ({ store with index := some idx },
        (store.tree.materializePage page.1).map fun notes => (notes, page.2))

def call {A : Type} (place : Uuid → Nat) (plan : Plan A) : IndexedTree × Except StorageError A :=
  (store.performAll place plan.writes, plan.result)

def noteRepository (place : Uuid → Nat) : NoteRepository IndexedTree where
  listNotesInNotebook notebookId pageSize token store :=
    store.listNotesInNotebook notebookId pageSize token
  updateNote note now store := store.call place (store.tree.updateNote place note now)

end IndexedTree

/-- The note of a merge if it is live. -/
def liveNote (found : Except StorageError (Option Note)) : Option Note :=
  match found with
  | .ok (some note) => if note.deletedAt = none then some note else none
  | _ => none

theorem liveNote_eq_some {found : Except StorageError (Option Note)} {note : Note} :
    liveNote found = some note ↔ found = .ok (some note) ∧ note.deletedAt = none := by
  constructor
  · intro hlive
    unfold liveNote at hlive
    split at hlive
    · next held =>
        split at hlive
        · next hdeleted =>
            obtain rfl := Option.some.inj hlive
            exact ⟨rfl, hdeleted⟩
        · contradiction
    · contradiction
  · rintro ⟨rfl, hdeleted⟩
    exact if_pos hdeleted

namespace FsTree

variable {tree : FsTree}

theorem getElem?_indexFolder {id : Uuid} {found : Option Note}
    (hfound : tree.indexedNote id = .ok found)
    (hown : ∀ note, found = some note → note.id = id) (idx : NoteMetaIndex) :
    ∃ next, tree.indexFolder idx id = .ok next ∧ ∀ other, next[other]? =
      (if other = id then (liveNote (tree.indexedNote id)).map NoteMetaEntry.fromNote
        else none).or idx[other]? := by
  rw [indexFolder, hfound]
  cases found with
  | none => exact ⟨idx, rfl, fun other => by simp [liveNote]⟩
  | some note =>
      have hid := hown note rfl
      refine ⟨_, rfl, fun other => ?_⟩
      by_cases hdeleted : note.deletedAt = none
      · by_cases hsame : other = id
        · simp [hdeleted, liveNote, NoteMetaIndex.apply, hid, hsame]
        · simp [hdeleted, NoteMetaIndex.apply, hid, hsame, Std.ExtTreeMap.getElem?_insert,
            Ne.symm hsame]
      · simp [hdeleted, liveNote]

theorem getElem?_indexFolders (hok : ∀ id, ∃ found, tree.indexedNote id = .ok found)
    (hown : ∀ id note, tree.indexedNote id = .ok (some note) → note.id = id)
    (ids : List Uuid) (idx : NoteMetaIndex) :
    ∃ built, ids.foldlM tree.indexFolder idx = .ok built ∧ ∀ id, built[id]? =
      (if id ∈ ids then (liveNote (tree.indexedNote id)).map NoteMetaEntry.fromNote
        else none).or idx[id]? := by
  induction ids generalizing idx with
  | nil => exact ⟨idx, rfl, fun id => by simp⟩
  | cons head rest ih =>
      obtain ⟨found, hfound⟩ := hok head
      obtain ⟨next, hnext, hentries⟩ := getElem?_indexFolder hfound
        (fun note hnote => hown head note (hnote ▸ hfound)) idx
      obtain ⟨built, hbuilt, hall⟩ := ih next
      refine ⟨built, ?_, fun id => ?_⟩
      · rw [List.foldlM_cons, hnext]
        exact hbuilt
      · rw [hall, hentries]
        by_cases hsame : id = head
        · subst hsame
          by_cases hlater : id ∈ rest
          · simp [hlater, ← Option.or_assoc]
          · simp [hlater]
        · simp [hsame]

/-- The index has an entry for every note that is read live, wherever it is read
from. -/
theorem getElem?_buildNoteIndex (hok : ∀ id, ∃ found, tree.indexedNote id = .ok found)
    (hown : ∀ id note, tree.indexedNote id = .ok (some note) → note.id = id) :
    ∃ built, tree.buildNoteIndex = .ok built ∧
      ∀ id, built[id]? = (liveNote (tree.indexedNote id)).map NoteMetaEntry.fromNote := by
  obtain ⟨built, hbuilt, hentries⟩ := getElem?_indexFolders hok hown tree.allNoteIds ∅
  refine ⟨built, hbuilt, fun id => ?_⟩
  rw [hentries]
  by_cases hlisted : id ∈ tree.allNoteIds
  · simp [hlisted]
  · have hmissing : tree.notes.file? id = none := by
      rw [Directory.file?_eq_none_iff]
      exact fun folder hmem => hlisted (List.mem_map.mpr ⟨(id, folder), hmem, rfl⟩)
    have hnone : liveNote (tree.indexedNote id) = none := by
      simp [indexedNote, readNoteProjection, mergeNote, mergeLogs, noteLogs, noteFolder, hmissing,
        NoteFolder.empty, readNoteLogs, merge, heads, liveNote, Except.map]
    simp [hlisted, hnone]

/-- Notes whose merges are known are the page. -/
theorem materializePage_eq {items : List (Keyed Uuid)}
    (hitems : ∀ item ∈ items, ∃ note, liveNote (tree.mergeNote item.id) = some note ∧
      note.keyed = item) :
    ∃ notes, tree.materializePage (items.map Keyed.id) = .ok notes ∧
      notes.map Note.keyed = items ∧
      ∀ note ∈ notes, liveNote (tree.mergeNote note.id) = some note := by
  induction items with
  | nil => exact ⟨[], rfl, rfl, by simp⟩
  | cons item rest ih =>
      obtain ⟨note, hlive, rfl⟩ := hitems item List.mem_cons_self
      obtain ⟨notes, hpage, hkeyed, hall⟩ := ih fun other hother =>
        hitems other (List.mem_cons_of_mem _ hother)
      obtain ⟨hmerge, hdeleted⟩ := liveNote_eq_some.mp hlive
      refine ⟨note :: notes, ?_, ?_, ?_⟩
      · simp only [List.map_cons, materializePage, hmerge, hpage, if_pos hdeleted]
        rfl
      · rw [List.map_cons, hkeyed]
      · intro other hother
        rcases List.mem_cons.mp hother with rfl | hlater
        · exact hlive
        · exact hall other hlater

end FsTree

namespace IndexedTree

/-- The entry of the index, or of the index a listing would build. -/
def indexEntry (store : IndexedTree) (id : Uuid) : Option NoteMetaEntry :=
  match store.index with
  | some idx => idx[id]?
  | none => (liveNote (store.tree.indexedNote id)).map NoteMetaEntry.fromNote

/-- Every folder and every log is listed once, and every note is in the folder of
its id and merges. -/
structure Sound (store : IndexedTree) : Prop where
  folders : store.tree.allNoteIds.Nodup
  logs : ∀ id, ((store.tree.noteFolder id).logs.map Prod.fst).Nodup
  filed : store.tree.WellFiled
  projected : ∀ id value, (store.tree.noteFolder id).meta = some (.readable value) →
    value.note.id = id
  merges : ∀ id, ∃ merged, store.tree.mergeLogs id = .ok merged

/-- The index shows what the logs merge to. -/
structure Current (store : IndexedTree) : Prop extends Sound store where
  index : ∀ id, store.indexEntry id =
    (liveNote (store.tree.mergeNote id)).map NoteMetaEntry.fromNote

variable {store : IndexedTree} {place : Uuid → Nat} {id : Uuid} {note : Note}

theorem Sound.mergeNote_ok (hsound : store.Sound) (id : Uuid) :
    ∃ found, store.tree.mergeNote id = .ok found := by
  obtain ⟨merged, hmerge⟩ := hsound.merges id
  exact ⟨merged.note, by rw [FsTree.mergeNote, hmerge]; rfl⟩

theorem Sound.note_id (hsound : store.Sound)
    (hnote : store.tree.mergeNote id = .ok (some note)) : note.id = id := by
  obtain ⟨merged, hmerge⟩ := hsound.merges id
  rw [FsTree.mergeNote, hmerge] at hnote
  exact hsound.filed.note_id hmerge (Except.ok.inj hnote)

theorem Sound.withNoteIndex (hsound : store.Sound) :
    ∃ idx, store.withNoteIndex = .ok idx ∧ ∀ id, idx[id]? = store.indexEntry id := by
  obtain ⟨tree, index⟩ := store
  cases index with
  | some idx => exact ⟨idx, rfl, fun _ => rfl⟩
  | none =>
      have hfound : ∀ id, tree.indexedNote id = tree.mergeNote id ∨
          ∃ value, (tree.noteFolder id).meta = some (.readable value) ∧
            tree.indexedNote id = .ok (some value.note) := by
        intro id
        simp only [FsTree.indexedNote, FsTree.readNoteProjection]
        cases hmeta : (tree.noteFolder id).meta with
        | none => exact .inl rfl
        | some sidecar =>
            cases sidecar with
            | unreadable => exact .inl rfl
            | readable value => exact .inr ⟨value, rfl, rfl⟩
      have hok : ∀ id, ∃ found, tree.indexedNote id = .ok found := by
        intro id
        rcases hfound id with hmerge | ⟨value, -, hvalue⟩
        · rw [hmerge]
          exact hsound.mergeNote_ok id
        · exact ⟨_, hvalue⟩
      have hown : ∀ id note, tree.indexedNote id = .ok (some note) → note.id = id := by
        intro id note hnote
        rcases hfound id with hmerge | ⟨value, hmeta, hvalue⟩
        · exact hsound.note_id (hmerge ▸ hnote)
        · rw [hvalue, Except.ok.injEq, Option.some.injEq] at hnote
          rw [← hnote]
          exact hsound.projected id value hmeta
      exact FsTree.getElem?_buildNoteIndex hok hown

/-- A listing reads the index of the merges. -/
theorem Current.withNoteIndex (hcurrent : store.Current) :
    ∃ idx, store.withNoteIndex = .ok idx ∧
      ∀ id, idx[id]? = (liveNote (store.tree.mergeNote id)).map NoteMetaEntry.fromNote := by
  obtain ⟨idx, hidx, hentries⟩ := hcurrent.toSound.withNoteIndex
  exact ⟨idx, hidx, fun id => (hentries id).trans (hcurrent.index id)⟩

theorem tree_performAll (writes : List TreeWrite) :
    (store.performAll place writes).tree = store.tree.performAll place writes := by
  induction writes generalizing store with
  | nil => rfl
  | cons write rest ih => exact ih

theorem performAll_append (first second : List TreeWrite) :
    store.performAll place (first ++ second) =
      (store.performAll place first).performAll place second :=
  List.foldl_append

/-- A write that is neither of a log nor of a projection. -/
def Beside (write : TreeWrite) : Prop :=
  (∀ id device log, write ≠ .noteLog id device log) ∧ ∀ id value, write ≠ .noteMeta id value

theorem nodup_allNoteIds_perform {tree : FsTree} (hfolders : tree.allNoteIds.Nodup)
    (write : TreeWrite) : (tree.perform place write).allNoteIds.Nodup := by
  have hmodify : ∀ (id : Uuid) (change : NoteFolder → NoteFolder),
      (tree.modifyNote place id change).allNoteIds.Nodup :=
    fun id change => Directory.nodup_put hfolders
  cases write with
  | noteLog id device log => exact hmodify id _
  | noteMd id body => exact hmodify id _
  | noteMeta id value => exact hmodify id _
  | resource noteId id stored => exact hmodify noteId _
  | notebook id value => exact hfolders
  | tag id value => exact hfolders
  | noteTag noteId id state => exact hfolders
  | blob noteId hash data => exact hfolders

theorem meta_perform_other {tree : FsTree} {write : TreeWrite}
    (hother : ∀ id value, write ≠ .noteMeta id value) (noteId : Uuid) :
    ((tree.perform place write).noteFolder noteId).meta = (tree.noteFolder noteId).meta := by
  cases write with
  | noteMeta id value => exact absurd rfl (hother id value)
  | noteLog id device log =>
      exact tree.folder_modifyNote NoteFolder.meta (by intro folder; rfl) noteId
  | noteMd id body => exact tree.folder_modifyNote NoteFolder.meta (by intro folder; rfl) noteId
  | resource id resourceId stored =>
      exact tree.folder_modifyNote NoteFolder.meta (by intro folder; rfl) noteId
  | notebook id value => rfl
  | tag id value => rfl
  | noteTag id tagId state => rfl
  | blob id hash data => rfl

theorem meta_perform_noteMeta {tree : FsTree} (id : Uuid) (value : NoteMeta) (noteId : Uuid) :
    ((tree.perform place (.noteMeta id value)).noteFolder noteId).meta =
      if id = noteId then some (.readable value) else (tree.noteFolder noteId).meta := by
  simp only [FsTree.perform, FsTree.noteFolder_modifyNote]
  split <;> rfl

theorem mergeLogs_perform_other {tree : FsTree} {write : TreeWrite}
    (hlog : ∀ id device log, write ≠ .noteLog id device log) (noteId : Uuid) :
    (tree.perform place write).mergeLogs noteId = tree.mergeLogs noteId := by
  simp only [FsTree.mergeLogs, FsTree.noteLogs, tree.logs_perform_other hlog]

theorem Sound.perform (hsound : store.Sound) {write : TreeWrite}
    (hlog : ∀ id device log, write ≠ .noteLog id device log)
    (hmeta : ∀ id value, write = .noteMeta id value → value.note.id = id) :
    (store.perform place write).Sound where
  folders := nodup_allNoteIds_perform hsound.folders write
  logs := FsTree.nodup_logs_perform hsound.logs write
  filed := by
    intro id
    simp only [IndexedTree.perform, FsTree.noteLogs, store.tree.logs_perform_other hlog]
    exact hsound.filed id
  projected := by
    intro noteId value hvalue
    by_cases hwrite : ∃ id value, write = .noteMeta id value
    · obtain ⟨id, written, rfl⟩ := hwrite
      simp only [IndexedTree.perform, meta_perform_noteMeta] at hvalue
      split at hvalue
      · next hsame =>
          obtain rfl := Sidecar.readable.inj (Option.some.inj hvalue)
          rw [← hsame]
          exact hmeta id written rfl
      · exact hsound.projected noteId value hvalue
    · have hother : ∀ id value, write ≠ .noteMeta id value :=
        fun id value heq => hwrite ⟨id, value, heq⟩
      simp only [IndexedTree.perform, meta_perform_other hother] at hvalue
      exact hsound.projected noteId value hvalue
  merges := by
    intro id
    have hkept : (store.tree.perform place write).mergeLogs id = store.tree.mergeLogs id :=
      mergeLogs_perform_other hlog id
    exact hkept.symm ▸ hsound.merges id

theorem mergeNote_perform_other {write : TreeWrite}
    (hlog : ∀ id device log, write ≠ .noteLog id device log) (noteId : Uuid) :
    (store.perform place write).tree.mergeNote noteId = store.tree.mergeNote noteId := by
  simp only [perform, FsTree.mergeNote, mergeLogs_perform_other hlog]

theorem indexEntry_perform_beside {write : TreeWrite} (hbeside : Beside write) (noteId : Uuid) :
    (store.perform place write).indexEntry noteId = store.indexEntry noteId := by
  have hindex : (store.perform place write).index = store.index := by
    cases write with
    | noteMeta id value => exact absurd rfl (hbeside.2 id value)
    | _ => rfl
  simp only [indexEntry, hindex, FsTree.indexedNote, mergeNote_perform_other hbeside.1]
  simp only [perform, FsTree.readNoteProjection, meta_perform_other hbeside.2]

/-- The write of a projection is seen in the entry of its note. -/
theorem indexEntry_perform_noteMeta (value : NoteMeta) (hid : value.note.id = id) (noteId : Uuid) :
    (store.perform place (.noteMeta id value)).indexEntry noteId =
      if id = noteId then (liveNote (.ok (some value.note))).map NoteMetaEntry.fromNote
      else store.indexEntry noteId := by
  subst hid
  have hmergeNote :
      (store.tree.perform place (.noteMeta value.note.id value)).mergeNote noteId =
        store.tree.mergeNote noteId := mergeNote_perform_other (by simp) noteId
  have hmeta : ((store.tree.perform place (.noteMeta value.note.id value)).noteFolder noteId).meta =
      if value.note.id = noteId then some (.readable value)
      else (store.tree.noteFolder noteId).meta := meta_perform_noteMeta _ value noteId
  obtain ⟨tree, index⟩ := store
  cases index with
  | none =>
      simp only [indexEntry, perform, Option.map_none, FsTree.indexedNote,
        FsTree.readNoteProjection, hmeta, hmergeNote]
      by_cases hsame : value.note.id = noteId
      · simp only [if_pos hsame]
      · simp only [if_neg hsame]
  | some idx =>
      simp only [indexEntry, perform, Option.map_some, NoteMetaIndex.apply]
      by_cases hsame : value.note.id = noteId
      · cases hdeleted : value.note.deletedAt <;> simp [hsame, hdeleted, liveNote]
      · cases hdeleted : value.note.deletedAt <;>
          simp [hsame, Std.ExtTreeMap.getElem?_insert, Std.ExtTreeMap.getElem?_erase]

/-- Writes beside the notes leave the index current. -/
theorem Current.perform_beside (hcurrent : store.Current) {write : TreeWrite}
    (hbeside : Beside write) : (store.perform place write).Current where
  toSound := hcurrent.toSound.perform hbeside.1 fun id value heq =>
    absurd heq (hbeside.2 id value)
  index := by
    intro id
    rw [indexEntry_perform_beside hbeside, mergeNote_perform_other hbeside.1, hcurrent.index]

theorem Current.performAll_beside (hcurrent : store.Current) {writes : List TreeWrite}
    (hbeside : ∀ write ∈ writes, Beside write) : (store.performAll place writes).Current := by
  induction writes generalizing store with
  | nil => exact hcurrent
  | cons write rest ih =>
      exact ih (hcurrent.perform_beside (hbeside write List.mem_cons_self)) fun later hlater =>
        hbeside later (List.mem_cons_of_mem _ hlater)

/-- The projection of a merge brings the entry of its note up to date. -/
theorem Sound.project (hsound : store.Sound) {merged : Merged}
    (hmerge : store.tree.mergeLogs id = .ok merged)
    (hothers : ∀ other, other ≠ id → store.indexEntry other =
      (liveNote (store.tree.mergeNote other)).map NoteMetaEntry.fromNote)
    (hmissing : merged.note = none → store.indexEntry id = none) :
    (store.performAll place (match merged.note with
      | none => []
      | some note => FsTree.projectionWrites note merged.vv)).Current := by
  have hmergeNote : store.tree.mergeNote id = .ok merged.note := by
    rw [FsTree.mergeNote, hmerge]
    rfl
  cases hnote : merged.note with
  | none =>
      refine ⟨hsound, fun other => ?_⟩
      by_cases hother : other = id
      · subst hother
        exact (hmissing hnote).trans (by
          rw [hnote] at hmergeNote
          simp [performAll, hmergeNote, liveNote])
      · exact hothers other hother
  | some note =>
      obtain rfl : note.id = id := hsound.note_id (hnote ▸ hmergeNote)
      have hbody : Beside (.noteMd note.id note.body) := by simp [Beside]
      have hsoundAfter : (store.performAll place (FsTree.projectionWrites note merged.vv)).Sound :=
        (hsound.perform hbody.1 (by simp)).perform (by simp) (by
          rintro id value heq
          cases heq
          rfl)
      refine ⟨hsoundAfter, fun other => ?_⟩
      have hmergeAfter :
          (store.performAll place (FsTree.projectionWrites note merged.vv)).tree.mergeNote other =
            store.tree.mergeNote other := by
        change ((store.perform place _).perform place _).tree.mergeNote other = _
        rw [mergeNote_perform_other (by simp), mergeNote_perform_other hbody.1]
      have hentryAfter :
          (store.performAll place (FsTree.projectionWrites note merged.vv)).indexEntry other =
            if note.id = other then (liveNote (.ok (some note))).map NoteMetaEntry.fromNote
            else store.indexEntry other := by
        change ((store.perform place _).perform place (.noteMeta note.id _)).indexEntry other = _
        rw [indexEntry_perform_noteMeta ⟨{ note with body := "" }, merged.vv⟩ rfl,
          indexEntry_perform_beside hbody]
        -- An entry has nothing of the body.
        split
        · simp only [liveNote]
          split <;> rfl
        · rfl
      rw [hentryAfter, hmergeAfter]
      split
      · next hsame => rw [← hsame, hmergeNote, hnote]
      · next hother => exact hothers other (Ne.symm hother)

/-- A log is seen where the index or a projection does not hide it. -/
theorem indexEntry_perform_noteLog (device : String) (log : NoteLog) (noteId : Uuid) :
    (store.perform place (.noteLog id device log)).indexEntry noteId = store.indexEntry noteId ∨
      (store.perform place (.noteLog id device log)).indexEntry noteId =
        (liveNote ((store.perform place (.noteLog id device log)).tree.mergeNote noteId)).map
          NoteMetaEntry.fromNote := by
  have hmeta : ((store.tree.perform place (.noteLog id device log)).noteFolder noteId).meta =
      (store.tree.noteFolder noteId).meta := meta_perform_other (by simp) noteId
  obtain ⟨tree, index⟩ := store
  cases index with
  | some idx => exact .inl rfl
  | none =>
      simp only [indexEntry, perform, FsTree.indexedNote, FsTree.readNoteProjection, hmeta]
      cases (tree.noteFolder noteId).meta with
      | none => exact .inr rfl
      | some sidecar =>
          cases sidecar with
          | unreadable => exact .inr rfl
          | readable value => exact .inl rfl

/-- An append files its operation and leaves every other note as it was. -/
theorem Sound.noteLog (hsound : store.Sound) {op : NoteOp} {log : NoteLog} {merged : Merged}
    (hop : ∀ note, op = .upsert note → note.id = id)
    (hentries : ∀ entry ∈ log, entry.op = op ∨ ∃ held ∈ store.tree.noteLogs id, entry ∈ held)
    (hmerge : (store.tree.perform place (.noteLog id store.tree.deviceId log)).mergeLogs id =
      .ok merged) :
    (store.perform place (.noteLog id store.tree.deviceId log)).Sound ∧
      ∀ other, other ≠ id →
        (store.perform place (.noteLog id store.tree.deviceId log)).tree.noteFolder other =
          store.tree.noteFolder other := by
  have hfolder : ∀ other,
      (store.perform place (.noteLog id store.tree.deviceId log)).tree.noteFolder other =
        if id = other then
          { store.tree.noteFolder id with
            logs := writeNoteLog (store.tree.noteFolder id).logs store.tree.deviceId log }
        else store.tree.noteFolder other :=
    fun other => FsTree.noteFolder_modifyNote _ _ _ _ _
  refine ⟨⟨nodup_allNoteIds_perform hsound.folders _, FsTree.nodup_logs_perform hsound.logs _,
    ?_, ?_, ?_⟩, ?_⟩
  · intro other held hheld entry hentry source hsource
    rw [FsTree.noteLogs, hfolder] at hheld
    split at hheld
    · next hsame =>
        subst hsame
        obtain ⟨file, hfile, rfl⟩ := List.mem_map.mp hheld
        rcases Directory.eq_or_mem_of_mem_put hfile with rfl | ⟨hold, -⟩
        · rcases hentries entry hentry with hnew | ⟨old, hold, hmem⟩
          · exact hop source (hnew ▸ hsource)
          · exact hsound.filed id old hold entry hmem source hsource
        · exact hsound.filed id file.2 (mem_readNoteLogs hold) entry hentry source hsource
    · exact hsound.filed other held hheld entry hentry source hsource
  · intro other value hvalue
    refine hsound.projected other value ?_
    rw [hfolder] at hvalue
    split at hvalue
    · next hsame => exact hsame ▸ hvalue
    · exact hvalue
  · intro other
    by_cases hother : other = id
    · exact ⟨merged, hother ▸ hmerge⟩
    · simp only [FsTree.mergeLogs, FsTree.noteLogs, hfolder, if_neg (Ne.symm hother)]
      exact hsound.merges other
  · intro other hother
    rw [hfolder, if_neg (Ne.symm hother)]

/-- An append brings the index to the merge it comes to. -/
theorem Current.append (hcurrent : store.Current) (place : Uuid → Nat) (timestamp : DateTime)
    {op : NoteOp} (hop : ∀ note, op = .upsert note → note.id = id) {plan : Plan Note}
    (hplan : plan = store.tree.appendNoteOp place id timestamp op) :
    ∃ note, FsTree.Appended store.tree (store.performAll place plan.writes).tree id op note ∧
      plan.result = (match note with
        | some note => .ok note
        | none => .error (.notFound id)) ∧
      (store.performAll place plan.writes).Current := by
  subst hplan
  obtain ⟨prior, hprior⟩ := hcurrent.merges id
  obtain ⟨log, merged, hmerge, hwrites, hresult, hentries, -⟩ :=
    FsTree.appendNoteOp_writes place timestamp op hprior
  obtain ⟨note, happended, hnoteResult⟩ : ∃ note, FsTree.Appended store.tree
      (store.tree.performAll place (store.tree.appendNoteOp place id timestamp op).writes) id op
        note ∧
      (store.tree.appendNoteOp place id timestamp op).result = (match note with
        | some note => .ok note
        | none => .error (.notFound id)) := by
    rcases FsTree.appendNoteOp_effect (hcurrent.logs id) place timestamp op with
      ⟨-, hpanic⟩ | heffect
    · rw [hpanic] at hresult
      revert hresult
      cases merged.note <;> rintro ⟨⟩
    · exact heffect
  have hsame : note = merged.note := by
    rw [hresult] at hnoteResult
    revert hnoteResult
    cases note <;> cases merged.note <;> rintro ⟨⟩ <;> rfl
  subst hsame
  refine ⟨merged.note, tree_performAll _ ▸ happended, hresult, ?_⟩
  obtain ⟨hsound, hothers⟩ := hcurrent.toSound.noteLog hop hentries hmerge
  -- A note that an append finds nothing for was not there before.
  have hmissing : merged.note = none → liveNote (store.tree.mergeNote id) = none := by
    intro hnone
    obtain ⟨entry, hentryOp, hresolved⟩ := happended.resolved
    have htombstone : ∃ deletedAt, op = .tombstone deletedAt := by
      cases op with
      | upsert note => simp [hnone, resolvedNote, hentryOp] at hresolved
      | tombstone deletedAt => exact ⟨deletedAt, rfl⟩
    rw [Option.eq_none_iff_forall_ne_some]
    intro note hlive
    have hexisted := (happended.existed htombstone).mpr ⟨note, (liveNote_eq_some.mp hlive).1⟩
    rw [hnone] at hexisted
    contradiction
  rw [hwrites]
  apply hsound.project hmerge
  · intro other hother
    have hmergeNote :
        (store.perform place (.noteLog id store.tree.deviceId log)).tree.mergeNote other =
          store.tree.mergeNote other := by
      simp only [FsTree.mergeNote, FsTree.mergeLogs, FsTree.noteLogs, hothers other hother]
    rcases indexEntry_perform_noteLog store.tree.deviceId log other with hentry | hentry
    · rw [hentry, hmergeNote, hcurrent.index]
    · exact hentry
  · intro hnone
    have hmergeNote :
        (store.perform place (.noteLog id store.tree.deviceId log)).tree.mergeNote id =
          .ok none := by
      rw [← hnone]
      exact congrArg (Except.map Merged.note) hmerge
    rcases indexEntry_perform_noteLog store.tree.deviceId log id with hentry | hentry
    · rw [hentry, hcurrent.index, hmissing hnone]
      rfl
    · rw [hentry, hmergeNote]
      rfl

/-- An appended note is what its folder merges to. -/
theorem Current.upsert (hcurrent : store.Current) (place : Uuid → Nat) (note : Note)
    (timestamp : DateTime) {plan : Plan Note}
    (hplan : plan = store.tree.appendNoteOp place note.id timestamp (.upsert note)) :
    plan.result = .ok note ∧ (store.performAll place plan.writes).Current ∧
      (store.performAll place plan.writes).tree.mergeNote note.id = .ok (some note) ∧
      ∀ other, other ≠ note.id → (store.performAll place plan.writes).tree.mergeNote other =
        store.tree.mergeNote other := by
  have hop : ∀ source, NoteOp.upsert note = .upsert source → source.id = note.id := by
    rintro source heq
    rw [NoteOp.upsert.inj heq]
  obtain ⟨merged, happended, hresult, hafter⟩ := hcurrent.append place timestamp hop hplan
  obtain ⟨entry, hentry, hresolved⟩ := happended.resolved
  rw [resolvedNote, hentry] at hresolved
  subst hresolved
  exact ⟨hresult, hafter, happended.merged, happended.others⟩

/-- An update of a live note is an append. -/
theorem Current.updateNote_of_live (hcurrent : store.Current) (place : Uuid → Nat) {prior : Note}
    (hlive : liveNote (store.tree.mergeNote note.id) = some prior) (timestamp : DateTime) :
    ∃ after, store.call place (store.tree.updateNote place note timestamp) = (after, .ok note) ∧
      after.Current ∧ after.tree.mergeNote note.id = .ok (some note) ∧
      ∀ other, other ≠ note.id → after.tree.mergeNote other = store.tree.mergeNote other := by
  obtain ⟨hmerge, hdeleted⟩ := liveNote_eq_some.mp hlive
  obtain ⟨hresult, hafter⟩ := hcurrent.upsert place note timestamp rfl
  have hlogs : store.tree.noteLogs note.id ≠ [] := by
    intro hempty
    simp [FsTree.mergeNote, FsTree.mergeLogs, hempty, merge, heads, Except.map] at hmerge
  refine ⟨_, ?_, hafter⟩
  simp only [call, FsTree.updateNote, if_neg hlogs, hmerge, Plan.reading, Plan.bind, hresult,
    Option.bind_some, hdeleted]
  cases note.deletedAt <;> simp only [Plan.done, List.append_nil]

theorem beside_cascade {noteId : Uuid} {change : StoredResource → Option StoredResource}
    {files : List (Uuid × Sidecar StoredResource)} :
    ∀ write ∈ (FsTree.cascadeResources noteId change files).writes, Beside write := by
  intro write hwrite
  obtain ⟨_, _, _, _, _, rfl⟩ := FsTree.mem_cascadeResources hwrite
  simp [Beside]

theorem Current.createNote (hcurrent : store.Current) (place : Uuid → Nat) (note : Note)
    (timestamp : DateTime) :
    (store.call place (store.tree.createNote place note timestamp)).1.Current := by
  obtain ⟨-, hafter, -⟩ := hcurrent.upsert place note timestamp rfl
  exact hafter

theorem Current.updateNote (hcurrent : store.Current) (place : Uuid → Nat) (note : Note)
    (timestamp : DateTime) :
    (store.call place (store.tree.updateNote place note timestamp)).1.Current := by
  rw [call, FsTree.updateNote]
  split
  · exact hcurrent
  obtain ⟨prior, hprior⟩ := hcurrent.mergeNote_ok note.id
  obtain ⟨hresult, hafter, -⟩ := hcurrent.upsert place note timestamp rfl
  simp only [hprior, Plan.reading, Plan.bind, hresult]
  rw [performAll_append]
  refine hafter.performAll_beside ?_
  split
  · intro write hwrite
    simp only [FsTree.cascadeUnstampResources, Plan.done] at hwrite
    split at hwrite
    · exact beside_cascade write hwrite
    · rw [List.append_nil] at hwrite
      exact beside_cascade write hwrite
  · simp [Plan.done]

theorem Current.deleteNote (hcurrent : store.Current) (place : Uuid → Nat) (id : Uuid)
    (ts timestamp : DateTime) :
    (store.call place (store.tree.deleteNote place id ts timestamp)).1.Current := by
  rw [call, FsTree.deleteNote]
  split
  · exact hcurrent
  have hop : ∀ note, NoteOp.tombstone ts = .upsert note → note.id = id := by simp
  obtain ⟨note, -, hresult, hafter⟩ := hcurrent.append place timestamp hop rfl
  simp only [Plan.bind, hresult]
  cases note with
  | none => exact hafter
  | some note =>
      simp only
      rw [performAll_append]
      exact hafter.performAll_beside beside_cascade

/-- A listing only builds the index. -/
theorem Current.listNotesInNotebook (hcurrent : store.Current) (notebookId : Uuid)
    (pageSize : Nat) (token : Option (Keyed Uuid)) :
    (store.listNotesInNotebook notebookId pageSize token).1.Current := by
  obtain ⟨idx, hidx, hentries⟩ := hcurrent.withNoteIndex
  simp only [IndexedTree.listNotesInNotebook, hidx]
  exact ⟨⟨hcurrent.folders, hcurrent.logs, hcurrent.filed, hcurrent.projected, hcurrent.merges⟩,
    hentries⟩

end IndexedTree

inductive NoteCall where
  | create (note : Note) (timestamp : DateTime)
  | update (note : Note) (timestamp : DateTime)
  | delete (id : Uuid) (ts timestamp : DateTime)
  | list (notebookId : Uuid) (pageSize : Nat) (token : Option (Keyed Uuid))

namespace IndexedTree

def noteCall (place : Uuid → Nat) (store : IndexedTree) : NoteCall → IndexedTree
  | .create note timestamp => (store.call place (store.tree.createNote place note timestamp)).1
  | .update note timestamp => (store.call place (store.tree.updateNote place note timestamp)).1
  | .delete id ts timestamp => (store.call place (store.tree.deleteNote place id ts timestamp)).1
  | .list notebookId pageSize token => (store.listNotesInNotebook notebookId pageSize token).1

/-- The store before its first note. -/
def empty (deviceId : String) : IndexedTree :=
  ⟨⟨deviceId, [], [], [], [], []⟩, none⟩

theorem current_empty (deviceId : String) : (empty deviceId).Current where
  folders := List.nodup_nil
  logs _ := List.nodup_nil
  filed _ _ hlog := absurd hlog List.not_mem_nil
  projected _ _ hvalue := by cases hvalue
  merges _ := ⟨_, rfl⟩
  index _ := rfl

theorem Current.noteCall {store : IndexedTree} (hcurrent : store.Current) (place : Uuid → Nat)
    (call : NoteCall) : (store.noteCall place call).Current := by
  cases call with
  | create note timestamp => exact hcurrent.createNote place note timestamp
  | update note timestamp => exact hcurrent.updateNote place note timestamp
  | delete id ts timestamp => exact hcurrent.deleteNote place id ts timestamp
  | list notebookId pageSize token => exact hcurrent.listNotesInNotebook notebookId pageSize token

/-- The index is current after any calls on a new store. -/
theorem current_run (place : Uuid → Nat) (deviceId : String) (calls : List NoteCall) :
    (calls.foldl (IndexedTree.noteCall place) (empty deviceId)).Current := by
  induction calls using List.reverseRecOn with
  | nil => exact current_empty deviceId
  | append_singleton calls call ih =>
      rw [List.foldl_append]
      exact ih.noteCall place call

end IndexedTree

end Keeplin
