/-
The listings of the filesystem store with the texts of their page tokens.  Notes
are collected from the index; the other listings are sorted by instant and cut
where the texts of their keys pass the token.
-/
import Keeplin.FsNoteIndex
import Keeplin.PageTokens

namespace Keeplin

/-- The text and the id that a token is made from. -/
abbrev PageKey := Text ×ₗ Uuid

def PageKey.of (text : Text) (id : Uuid) : PageKey := toLex (text, id)

def PageKey.text (key : PageKey) : Text := (ofLex key).1

def PageKey.id (key : PageKey) : Uuid := (ofLex key).2

def PageKey.token (key : PageKey) : Text := pageToken key.text key.id

/-- A token that cannot be read starts at the beginning. -/
def readPageKey (token : Option Text) : Option PageKey := (parseToken token).map toLex

/-- A key whose token is read back. -/
structure PageKey.Readable (key : PageKey) : Prop where
  text : '|' ∉ key.text
  id : IsUuid key.id

theorem readPageKey_token {key : PageKey} (hkey : key.Readable) :
    readPageKey (some key.token) = some key := by
  rw [readPageKey, PageKey.token, parseToken_pageToken hkey.text hkey.id]
  rfl

theorem map_cut {A B : Type} (limit : Nat) (items : List A) (next : A → B) :
    (cut limit items).2.map next =
      if limit < items.length then (items.take limit).getLast?.map next else none := by
  simp only [cut]
  split <;> rfl

structure KeyedItem (A : Type) where
  key : PageKey
  item : A

namespace FilePages

/-- The heap is a sorted list, its top the last. -/
structure PageCollector (A : Type) where
  limit : Nat
  cursor : Option PageKey
  heap : List (KeyedItem A)

namespace PageCollector

variable {A : Type}

def new (limit : Nat) (token : Option Text) : PageCollector A := ⟨limit, readPageKey token, []⟩

def push (collector : PageCollector A) (key : PageKey) (item : A) : PageCollector A :=
  if collector.cursor.any fun cursor => key ≤ cursor then collector
  else if collector.heap.length ≤ collector.limit then
    { collector with heap := insertBy KeyedItem.key ⟨key, item⟩ collector.heap }
  else
    match collector.heap.getLast? with
    | none => collector
    | some top =>
        if key < top.key then
          { collector with heap := insertBy KeyedItem.key ⟨key, item⟩ collector.heap.dropLast }
        else collector

def intoPage (collector : PageCollector A) : List A × Option Text :=
  let items := collector.heap.take collector.limit
  (items.map KeyedItem.item,
    if collector.limit < collector.heap.length then
      items.getLast?.map fun last => last.key.token
    else none)

def pushItem (collector : PageCollector A) (item : KeyedItem A) : PageCollector A :=
  collector.push item.key item.item

theorem push_eq (collector : PageCollector A) (item : KeyedItem A) :
    collector.pushItem item = { collector with
      heap := (afterCursor KeyedItem.key collector.cursor [item]).foldl
        (pushSmallest KeyedItem.key collector.limit) collector.heap } := by
  obtain ⟨limit, cursor, heap⟩ := collector
  have hafter : afterCursor KeyedItem.key cursor [item] =
      if cursor.any (fun cursor => item.key ≤ cursor) then [] else [item] := by
    cases cursor with
    | none => rfl
    | some last =>
        by_cases hle : item.key ≤ last
        · simp [afterCursor, hle]
        · simp [afterCursor, hle, not_le.mp hle]
  simp only [pushItem, push, hafter]
  by_cases hpassed : cursor.any (fun cursor => item.key ≤ cursor) = true
  · rw [if_pos hpassed, if_pos hpassed]
    rfl
  · rw [if_neg hpassed, if_neg hpassed, List.foldl_cons, List.foldl_nil, pushSmallest]
    by_cases hroom : heap.length ≤ limit
    · rw [if_pos hroom, if_pos hroom]
    · rw [if_neg hroom, if_neg hroom]
      cases heap.getLast? with
      | none => rfl
      | some top =>
          by_cases hlt : item.key < top.key
          · simp only [hlt, ↓reduceIte]
          · simp only [hlt, ↓reduceIte]

theorem foldl_pushItem (collector : PageCollector A) (items : List (KeyedItem A)) :
    items.foldl pushItem collector = { collector with
      heap := (afterCursor KeyedItem.key collector.cursor items).foldl
        (pushSmallest KeyedItem.key collector.limit) collector.heap } := by
  induction items generalizing collector with
  | nil => rfl
  | cons item rest ih =>
      have hcons : afterCursor KeyedItem.key collector.cursor (item :: rest) =
          afterCursor KeyedItem.key collector.cursor [item] ++
            afterCursor KeyedItem.key collector.cursor rest := by
        rw [← List.singleton_append, afterCursor, List.filter_append]
        rfl
      rw [List.foldl_cons, ih, push_eq, hcons, List.foldl_append]

/-- The page of what was pushed, in whatever order. -/
theorem intoPage_collect {items : List (KeyedItem A)} (hkeys : (items.map KeyedItem.key).Nodup)
    (limit : Nat) (token : Option Text) :
    (items.foldl pushItem (new limit token)).intoPage =
      let page := pageOf KeyedItem.key limit (readPageKey token) (sortBy KeyedItem.key items)
      (page.1.map KeyedItem.item, page.2.map fun last => last.key.token) := by
  rw [foldl_pushItem]
  simp only [new, intoPage, ← cut_foldl_pushSmallest hkeys, map_cut]
  rfl

end PageCollector

variable {A : Type} {keyFn : A → PageKey} {items : List A}

def paginate (items : List A) (limit : Nat) (token : Option Text) (keyFn : A → PageKey) :
    List A × Option Text :=
  let start :=
    match readPageKey token with
    | some cursor => partitionPoint (fun item => keyFn item ≤ cursor) items
    | none => 0
  let remaining := items.drop start
  let page := remaining.take limit
  (page, if limit < remaining.length then page.getLast?.map fun last => (keyFn last).token
    else none)

/-- A listing in the order of its texts is cut after the token. -/
theorem paginate_eq (hsorted : items.Pairwise fun item later => keyFn item < keyFn later)
    (limit : Nat) (token : Option Text) :
    paginate items limit token keyFn =
      let page := pageOf keyFn limit (readPageKey token) items
      (page.1, page.2.map fun last => (keyFn last).token) := by
  have hremaining : items.drop (match readPageKey token with
      | some cursor => partitionPoint (fun item => keyFn item ≤ cursor) items
      | none => 0) = afterCursor keyFn (readPageKey token) items := by
    cases readPageKey token with
    | none => rw [afterCursor_none, List.drop_zero]
    | some cursor =>
        simp only [drop_partitionPoint]
        refine dropWhile_eq_afterCursor hsorted fun item _ => ?_
        simp only [← not_lt, decide_not]
  simp only [paginate, hremaining, pageOf, map_cut]
  rfl

/-- The items pushed in any order make the page that the sorted listing is cut
into, for every token. -/
theorem collected_eq_paginated {sorted : List A} (hkeys : (items.map keyFn).Nodup)
    (hperm : sorted.Perm items)
    (hsorted : sorted.Pairwise fun item later => keyFn item ≤ keyFn later) (limit : Nat)
    (token : Option Text) :
    (items.foldl (fun collector item => collector.push (keyFn item) item)
        (PageCollector.new limit token)).intoPage =
      paginate sorted limit token keyFn := by
  have hdistinct : (sorted.map keyFn).Nodup := ((hperm.map keyFn).nodup_iff).mpr hkeys
  have hstrict : sorted.Pairwise fun item later => keyFn item < keyFn later :=
    hsorted.imp₂ (fun _ _ hle hne => lt_of_le_of_ne hle hne) (List.pairwise_map.mp hdistinct)
  have hsame : sorted = sortBy keyFn items :=
    eq_sortBy hstrict hkeys fun item => hperm.mem_iff
  have hpushed : items.foldl (fun collector item => collector.push (keyFn item) item)
        (PageCollector.new limit token) =
      (items.map fun item => (⟨keyFn item, item⟩ : KeyedItem A)).foldl
        PageCollector.pushItem (PageCollector.new limit token) := by
    rw [List.foldl_map]
    rfl
  have hitems : ((items.map fun item => (⟨keyFn item, item⟩ : KeyedItem A)).map
      KeyedItem.key).Nodup := by
    rw [List.map_map]
    exact hkeys
  rw [hpushed, PageCollector.intoPage_collect hitems, paginate_eq hstrict, hsame]
  have hkeyed : ∀ item, KeyedItem.key (⟨keyFn item, item⟩ : KeyedItem A) = keyFn item :=
    fun item => rfl
  rw [sortBy_map hkeyed, pageOf_map hkeyed]
  simp only [List.map_map, Option.map_map]
  rw [show (KeyedItem.item ∘ fun item => (⟨keyFn item, item⟩ : KeyedItem A)) = id from rfl,
    List.map_id]
  rfl

namespace PagesWitness

/-- The text of a page's key holds the bar of the token, and the token has none
that can be read. -/
theorem collected_eq_paginated_one :
    ([2, 1].foldl (fun collector item => collector.push (PageKey.of ['|'] item) item)
        (PageCollector.new 1 (some ['x']))).intoPage =
      paginate [1, 2] 1 (some ['x']) (PageKey.of ['|']) :=
  collected_eq_paginated (by decide) (by decide) (by decide) 1 (some ['x'])

end PagesWitness

end FilePages

open FilePages

namespace IndexedTree

variable (store : IndexedTree)

/-- A page of the notes that the index shows, under the text of their key. -/
def listIndexed (shows : NoteMetaEntry → Bool) (keyText : NoteMetaEntry → Text) (pageSize : Nat)
    (token : Option Text) : IndexedTree × Except StorageError (List Note × Option Text) :=
  match store.withNoteIndex with
  | .error failure => (store, .error failure)
  | .ok idx =>
      let entries := idx.toList.filter fun entry => shows entry.2
      let items := entries.map fun entry =>
        (⟨PageKey.of (keyText entry.2) entry.1, entry.1⟩ : KeyedItem Uuid)
      let page := (items.foldl FilePages.PageCollector.pushItem
        (.new (effectivePageSize pageSize) token)).intoPage
      ({ store with index := some idx },
        (store.tree.materializePage page.1).map fun notes => (notes, page.2))

def createdText (entry : NoteMetaEntry) : Text := toSortableRfc3339 entry.createdAt

/-- The sort key with ten digits. -/
def sortKeyText (entry : NoteMetaEntry) : Text := decimal 10 entry.effectiveSortKey

def listNotes (pageSize : Nat) (token : Option Text) :
    IndexedTree × Except StorageError (List Note × Option Text) :=
  store.listIndexed (fun _ => true) createdText pageSize token

def listNotebookNotes (notebookId : Uuid) (pageSize : Nat) (token : Option Text) :
    IndexedTree × Except StorageError (List Note × Option Text) :=
  store.listIndexed (fun entry => entry.notebookId = notebookId) sortKeyText pageSize token

def listStarredNotes (pageSize : Nat) (token : Option Text) :
    IndexedTree × Except StorageError (List Note × Option Text) :=
  store.listIndexed NoteMetaEntry.isStarred createdText pageSize token

end IndexedTree

/-- The page of a collection sorted by instant and id. -/
def listByInstant {A : Type} (createdAt : A → DateTime) (id : A → Uuid) (items : List A)
    (pageSize : Nat) (token : Option Text) : List A × Option Text :=
  paginate (sortBy (fun item => (toLex (createdAt item, id item) : DateTime ×ₗ Uuid)) items)
    (effectivePageSize pageSize) token fun item =>
      PageKey.of (toSortableRfc3339 (createdAt item)) (id item)

namespace FsTree

variable (tree : FsTree)

/-- The values of the files that can be read and are not deleted. -/
def liveFiles {A : Type} (deletedAt : A → Option DateTime) (files : List (Sidecar A)) : List A :=
  files.filterMap fun
    | .unreadable => none
    | .readable value => if deletedAt value = none then some value else none

def liveNotebooks : List Notebook :=
  liveFiles Notebook.deletedAt (tree.notebooks.map Prod.snd)

def liveTags : List Tag :=
  liveFiles Tag.deletedAt (tree.tags.map Prod.snd)

/-- The tags of the folder of a note's associations that are not detached. -/
def attachedTagIds (noteId : Uuid) : List Uuid :=
  (((tree.noteTags.file? noteId).getD []).map Prod.fst).filter fun tagId =>
    (tree.readAssocState noteId tagId).all fun state => state.deletedAt = none

def attachedTags (noteId : Uuid) : List Tag :=
  liveFiles Tag.deletedAt ((tree.attachedTagIds noteId).filterMap tree.tags.file?)

def noteResources (noteId : Uuid) : List Resource :=
  (liveFiles (fun stored => stored.resource.deletedAt)
    ((tree.noteResourceIds noteId).filterMap (tree.resourceFile noteId))).map
      StoredResource.resource

def liveResources : List Resource := tree.allNoteIds.flatMap tree.noteResources

def listNotebooks (pageSize : Nat) (token : Option Text) : List Notebook × Option Text :=
  listByInstant Notebook.createdAt Notebook.id tree.liveNotebooks pageSize token

def listTags (pageSize : Nat) (token : Option Text) : List Tag × Option Text :=
  listByInstant Tag.createdAt Tag.id tree.liveTags pageSize token

def listNoteTags (noteId : Uuid) (pageSize : Nat) (token : Option Text) :
    List Tag × Option Text :=
  listByInstant Tag.createdAt Tag.id (tree.attachedTags noteId) pageSize token

def listResources (pageSize : Nat) (token : Option Text) : List Resource × Option Text :=
  listByInstant Resource.createdAt Resource.id tree.liveResources pageSize token

def listResourcesForNote (noteId : Uuid) (pageSize : Nat) (token : Option Text) :
    List Resource × Option Text :=
  listByInstant Resource.createdAt Resource.id (tree.noteResources noteId) pageSize token

end FsTree

end Keeplin
