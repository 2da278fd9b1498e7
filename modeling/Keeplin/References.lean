/-
What a reference resolves to.  An alias leads to a live note outside the Inbox; an id
is taken as it is written, and only a live note of the Inbox is refused.
-/
import Keeplin.DbLaws
import Keeplin.NotePlacement
import Keeplin.PageTokens
import Keeplin.Startup

namespace Keeplin

structure ResolvedReference where
  noteId : Uuid
  bookmarkNumber : Option Nat
deriving DecidableEq, Repr

inductive BookmarkRef where
  | number (value : Nat)
  | «alias» (text : String)
deriving DecidableEq, Repr

def BookmarkRef.parse (segment : String) : BookmarkRef :=
  match parseU32 segment.toList with
  | some value => if 1 ≤ value then .number value else .alias segment
  | none => .alias segment

namespace AliasIndex

/-- The note of a reference, with the segment that names a bookmark. -/
def resolveTargetSegment (idx : AliasIndex) (patterns : LinkSyntax) (raw : String)
    (sourceNotebook : Option Uuid) : Option (Uuid × Option String) :=
  match linkSegments raw with
  | some [note] =>
      (idx.resolveNoteSeg patterns note none sourceNotebook).map fun id => (id, none)
  | some [first, second] =>
      match idx.resolveNoteSeg patterns second (some first) sourceNotebook with
      | some id => some (id, none)
      | none =>
          (idx.resolveNoteSeg patterns first none sourceNotebook).map fun id => (id, some second)
  | some [notebook, note, bookmark] =>
      (idx.resolveNoteSeg patterns note (some notebook) sourceNotebook).map fun id =>
        (id, some bookmark)
  | _ => none

end AliasIndex

def resolveBookmarkSeg (segment : String) (noteId : Uuid) (notes : List Note) : Option Nat :=
  (notes.find? fun note => note.id = noteId).bind fun note =>
    match BookmarkRef.parse segment with
    | .number value =>
        (note.bookmarks.find? fun bookmark => bookmark.number = value).map Bookmark.number
    | .alias text =>
        (note.bookmarks.find? fun bookmark => bookmark.alias = text).map Bookmark.number

def resolveRef (patterns : LinkSyntax) (raw : String) (notes : List Note)
    (notebooks : List Notebook) : Option ResolvedReference :=
  match (AliasIndex.fromSnapshots notes notebooks).resolveTargetSegment patterns raw none with
  | none => none
  | some (noteId, bookmark) =>
      if notes.any fun note => note.id = noteId ∧ isInbox note.notebookId then none
      else some ⟨noteId, bookmark.bind fun segment => resolveBookmarkSeg segment noteId notes⟩

def StorageBackend.resolve {S Clock : Type} (store : StorageBackend S Clock)
    (patterns : LinkSyntax) (raw : String) (inner : S) :
    Except StorageError (Option ResolvedReference) :=
  match store.collectNotes inner with
  | .error failure => .error failure
  | .ok notes =>
      match store.collectNotebooks inner with
      | .error failure => .error failure
      | .ok notebooks => .ok (resolveRef patterns raw notes notebooks)

/-- The segments of a reference that may name its note, the first choice first. -/
def noteSegments (raw : String) : List String :=
  match linkSegments raw with
  | some [note] => [note]
  | some [first, second] => [second, first]
  | some [_, note, _] => [note]
  | _ => []

namespace AliasIndex

variable {idx : AliasIndex} {patterns : LinkSyntax} {segment raw : String}
  {notebookSegment : Option String} {sourceNotebook : Option Uuid} {id : Uuid}

/-- A segment is an id, or an alias that the index has of the note. -/
theorem resolveNoteSeg_cases
    (hresolve : idx.resolveNoteSeg patterns segment notebookSegment sourceNotebook = some id) :
    patterns.parseUuid segment = some id ∨
      ∃ notebookId, (id, notebookId) ∈ idx.noteAliases.bucket segment := by
  simp only [resolveNoteSeg] at hresolve
  split at hresolve
  · next written hwritten => exact .inl (hwritten.trans hresolve)
  · right
    have hcandidate : ∀ entry ∈ idx.noteCandidates segment,
        entry ∈ idx.noteAliases.bucket segment := by
      intro entry hentry
      exact Std.ExtTreeSet.mem_toList.mp (List.mem_of_mem_filter hentry)
    have hwithin : ∀ notebookId, (((idx.noteCandidates segment).filter fun entry =>
          entry.2 = notebookId).map Prod.fst).min? = some id →
        ∃ notebookId, (id, notebookId) ∈ idx.noteAliases.bucket segment := by
      intro notebookId hmin
      obtain ⟨⟨found, filed⟩, hentry, rfl⟩ := List.mem_map.mp (List.min?_mem hmin)
      exact ⟨filed, hcandidate _ (List.mem_of_mem_filter hentry)⟩
    split at hresolve
    · contradiction
    split at hresolve
    · split at hresolve
      · contradiction
      · split at hresolve
        · contradiction
        · exact hwithin _ hresolve
    · split at hresolve
      · next _ only hcandidates =>
          obtain rfl := Option.some.inj hresolve
          exact ⟨only.2, hcandidate only (by rw [hcandidates]; exact List.mem_singleton_self _)⟩
      · exact hwithin _ hresolve
      · obtain ⟨⟨found, filed⟩, hentry, rfl⟩ := List.mem_map.mp (List.min?_mem hresolve)
        exact ⟨filed, hcandidate _ hentry⟩

/-- A reference leads to a segment of its own that is an id, or to a note of the
index. -/
theorem resolveTargetSegment_cases {bookmark : Option String}
    (hresolve : idx.resolveTargetSegment patterns raw sourceNotebook = some (id, bookmark)) :
    (∃ segment ∈ noteSegments raw, patterns.parseUuid segment = some id) ∨
      ∃ name notebookId, (id, notebookId) ∈ idx.noteAliases.bucket name := by
  have hof : ∀ {segment notebookSegment}, segment ∈ noteSegments raw →
      idx.resolveNoteSeg patterns segment notebookSegment sourceNotebook = some id →
      (∃ segment ∈ noteSegments raw, patterns.parseUuid segment = some id) ∨
        ∃ name notebookId, (id, notebookId) ∈ idx.noteAliases.bucket name := by
    intro segment notebookSegment hsegment hfound
    rcases resolveNoteSeg_cases hfound with hwritten | ⟨notebookId, hfiled⟩
    · exact .inl ⟨segment, hsegment, hwritten⟩
    · exact .inr ⟨segment, notebookId, hfiled⟩
  have hmap : ∀ {found : Option Uuid} {bookmark' : Option String},
      (found.map fun id => (id, bookmark')) = some (id, bookmark) → found = some id := by
    intro found bookmark' heq
    obtain ⟨written, hfound, hpair⟩ := Option.map_eq_some_iff.mp heq
    obtain rfl := (Prod.mk.inj hpair).1
    exact hfound
  simp only [resolveTargetSegment, noteSegments] at hresolve hof ⊢
  generalize linkSegments raw = segments at hresolve hof ⊢
  rcases segments with _ | _ | ⟨first, _ | ⟨second, _ | ⟨third, _ | ⟨fourth, rest⟩⟩⟩⟩
  · contradiction
  · contradiction
  · exact hof (by simp) (hmap hresolve)
  · simp only at hresolve hof ⊢
    cases hsecond : idx.resolveNoteSeg patterns second (some first) sourceNotebook with
    | some found =>
        rw [hsecond] at hresolve
        obtain ⟨rfl, -⟩ := Prod.mk.inj (Option.some.inj hresolve)
        exact hof (by simp) hsecond
    | none =>
        rw [hsecond] at hresolve
        exact hof (by simp) (hmap hresolve)
  · exact hof (by simp) (hmap hresolve)
  · contradiction

end AliasIndex

section Listings

variable {A : Type} {key : A → Uuid} {list listed : List A}

theorem find?_eq_some_of_nodup (hnodup : (list.map key).Nodup) {id : Uuid} {item : A} :
    list.find? (fun item => key item = id) = some item ↔ item ∈ list ∧ key item = id := by
  constructor
  · intro hfind
    have hkey := List.find?_some hfind
    exact ⟨List.mem_of_find?_eq_some hfind, of_decide_eq_true hkey⟩
  · rintro ⟨hmem, rfl⟩
    cases hfind : list.find? fun other => key other = key item with
    | none =>
        rw [List.find?_eq_none] at hfind
        exact absurd (decide_eq_true rfl) (hfind item hmem)
    | some found =>
        have hkey : key found = key item := by simpa using List.find?_some hfind
        rw [List.inj_on_of_nodup_map hnodup (List.mem_of_find?_eq_some hfind) hmem hkey]

/-- The one item of an id is found wherever it is listed. -/
theorem find?_eq_of_perm (hnodup : (list.map key).Nodup) (hperm : listed.Perm list) (id : Uuid) :
    listed.find? (fun item => key item = id) = list.find? fun item => key item = id := by
  have hlisted : (listed.map key).Nodup := (hperm.map key).nodup_iff.mpr hnodup
  apply Option.ext
  intro item
  rw [find?_eq_some_of_nodup hnodup, find?_eq_some_of_nodup hlisted, hperm.mem_iff]

end Listings

theorem fromSnapshots_perm {notes listedNotes : List Note}
    {notebooks listedNotebooks : List Notebook} (hnotes : (notes.map Note.id).Nodup)
    (hnotebooks : (notebooks.map Notebook.id).Nodup)
    (hnotesPerm : listedNotes.Perm notes) (hnotebooksPerm : listedNotebooks.Perm notebooks) :
    AliasIndex.fromSnapshots listedNotes listedNotebooks =
      AliasIndex.fromSnapshots notes notebooks := by
  have hlisted := AliasIndex.holds_fromSnapshots
    ((hnotesPerm.map Note.id).nodup_iff.mpr hnotes)
    ((hnotebooksPerm.map Notebook.id).nodup_iff.mpr hnotebooks)
  simp only [find?_eq_of_perm hnotes hnotesPerm, find?_eq_of_perm hnotebooks hnotebooksPerm]
    at hlisted
  exact hlisted.unique (AliasIndex.holds_fromSnapshots hnotes hnotebooks)

theorem resolveRef_perm (patterns : LinkSyntax) (raw : String) {notes listedNotes : List Note}
    {notebooks listedNotebooks : List Notebook} (hnotes : (notes.map Note.id).Nodup)
    (hnotebooks : (notebooks.map Notebook.id).Nodup) (hnotesPerm : listedNotes.Perm notes)
    (hnotebooksPerm : listedNotebooks.Perm notebooks) :
    resolveRef patterns raw listedNotes listedNotebooks =
      resolveRef patterns raw notes notebooks := by
  simp only [resolveRef, resolveBookmarkSeg, find?_eq_of_perm hnotes hnotesPerm,
    fromSnapshots_perm hnotes hnotebooks hnotesPerm hnotebooksPerm, hnotesPerm.any_eq]

section Resolved

variable {S : Type} (readNote : Uuid → S → Except StorageError Note) (inner : S)

/-- The note is live and not in the Inbox, and has the bookmark. -/
def ResolvedReference.Usable (found : ResolvedReference) : Prop :=
  ∃ note, readNote found.noteId inner = .ok note ∧ note.deletedAt = none ∧
    isInbox note.notebookId = false ∧ ∀ number, found.bookmarkNumber = some number →
      ∃ bookmark ∈ note.bookmarks, bookmark.number = number

/-- The reference has the id itself, which no live note has. -/
def ResolvedReference.AsWritten (patterns : LinkSyntax) (raw : String)
    (found : ResolvedReference) : Prop :=
  (∃ segment ∈ noteSegments raw, patterns.parseUuid segment = some found.noteId) ∧
    (∀ note, readNote found.noteId inner = .ok note → note.deletedAt.isSome = true) ∧
    found.bookmarkNumber = none

variable {readNote} {inner} {patterns : LinkSyntax} {raw : String} {notes : List Note}
  {notebooks : List Notebook}

theorem mem_bookmarks_of_resolveBookmarkSeg {segment : String} {noteId : Uuid} {note : Note}
    (hnote : notes.find? (fun note => note.id = noteId) = some note) {number : Nat}
    (hresolve : resolveBookmarkSeg segment noteId notes = some number) :
    ∃ bookmark ∈ note.bookmarks, bookmark.number = number := by
  simp only [resolveBookmarkSeg, hnote, Option.bind_some] at hresolve
  split at hresolve <;>
  · obtain ⟨bookmark, hfind, hnumber⟩ := Option.map_eq_some_iff.mp hresolve
    exact ⟨bookmark, List.mem_of_find?_eq_some hfind, hnumber⟩

/-- A note of the index is one of the listing. -/
theorem find?_isSome_of_indexed (hnotes : (notes.map Note.id).Nodup) {id notebookId : Uuid}
    {name : String}
    (hfiled : (id, notebookId) ∈
      (AliasIndex.fromSnapshots notes notebooks).noteAliases.bucket name) :
    (notes.find? fun note => note.id = id).isSome = true := by
  have hholds := AliasIndex.holds_fromSnapshots_foldl notes notebooks
  rw [hholds.inverse.notes, hholds.aliasedNotes,
    foldl_update_apply Note.id Note.indexed hnotes] at hfiled
  cases hfind : notes.find? fun note => note.id = id with
  | some note => rfl
  | none =>
      rw [hfind] at hfiled
      cases hfiled

theorem usable_or_asWritten
    (hlists : StorageBackend.Lists readNote Note.id Note.deletedAt inner notes)
    (hids : ∀ id note, readNote id inner = .ok note → note.id = id) {found : ResolvedReference}
    (hresolve : resolveRef patterns raw notes notebooks = some found) :
    found.Usable readNote inner ∨ found.AsWritten readNote inner patterns raw := by
  simp only [resolveRef] at hresolve
  split at hresolve
  · contradiction
  next noteId bookmark htarget =>
  obtain ⟨hinbox, hfound⟩ := Option.ite_none_left_eq_some.mp hresolve
  obtain rfl := Option.some.inj hfound
  cases hnote : notes.find? fun note => note.id = noteId with
  | some note =>
      obtain ⟨hmem, hid⟩ := (find?_eq_some_of_nodup hlists.nodup).mp hnote
      obtain ⟨hread, hlive⟩ := (hlists.mem note).mp hmem
      refine .inl ⟨note, hid ▸ hread, hlive, ?_, fun number hnumber => ?_⟩
      · rw [Bool.eq_false_iff]
        exact fun hin => hinbox (List.any_eq_true.mpr ⟨note, hmem, decide_eq_true ⟨hid, hin⟩⟩)
      · obtain ⟨segment, -, hsegment⟩ := Option.bind_eq_some_iff.mp hnumber
        exact mem_bookmarks_of_resolveBookmarkSeg hnote hsegment
  | none =>
      refine .inr ⟨?_, fun note hread => ?_, ?_⟩
      · rcases AliasIndex.resolveTargetSegment_cases htarget with hwritten | ⟨name, _, hfiled⟩
        · exact hwritten
        · have hlisted := find?_isSome_of_indexed hlists.nodup hfiled
          rw [hnote] at hlisted
          contradiction
      · by_contra hlive
        have hid := hids noteId note hread
        have hmem := (hlists.mem note).mpr ⟨hid ▸ hread, by simpa using hlive⟩
        rw [(find?_eq_some_of_nodup hlists.nodup).mpr ⟨hmem, hid⟩] at hnote
        contradiction
      · cases bookmark with
        | none => rfl
        | some segment => simp only [Option.bind_some, resolveBookmarkSeg, hnote, Option.bind_none]

end Resolved

theorem IndexedTree.Sound.lists_liveNotes {store : IndexedTree} (hsound : store.Sound)
    {notes : List Note} (hperm : notes.Perm store.liveNotes) :
    StorageBackend.Lists (fun id store => store.tree.readNote id) Note.id Note.deletedAt store
      notes where
  nodup := (hperm.map Note.id).nodup_iff.mpr hsound.nodup_liveNotes
  mem note := by
    rw [hperm.mem_iff, IndexedTree.liveNotes, List.mem_filterMap]
    constructor
    · rintro ⟨id, -, hheld⟩
      obtain rfl : note.id = id := hsound.note_id (liveNote_eq_some.mp hheld).1
      exact IndexedTree.heldNote_eq_some.mp hheld
    · intro hread
      have hheld := IndexedTree.heldNote_eq_some.mpr hread
      exact ⟨note.id, IndexedTree.mem_allNoteIds_of_live hheld, hheld⟩

theorem IndexedTree.Sound.readNote_id {store : IndexedTree} (hsound : store.Sound) {id : Uuid}
    {note : Note} (hread : store.tree.readNote id = .ok note) : note.id = id := by
  simp only [FsTree.readNote] at hread
  cases hmerge : store.tree.mergeNote id with
  | error failure =>
      rw [hmerge] at hread
      cases hread
  | ok found =>
      rw [hmerge] at hread
      cases found with
      | none => cases hread
      | some merged =>
          obtain rfl := Except.ok.inj hread
          exact hsound.note_id hmerge

/-- Every store resolves a reference to a note that can be used, or to the id that it
has itself; and the order of the listings does not matter. -/
theorem resolve_usable_or_asWritten (patterns : LinkSyntax) (raw : String) :
    (∀ {S Clock : Type} (store : StorageBackend S Clock) (valid : S → Prop), store.Lawful valid →
      ∀ inner found, valid inner → store.resolve patterns raw inner = .ok (some found) →
        found.Usable store.readNote inner ∨
          found.AsWritten store.readNote inner patterns raw) ∧
      (∀ (store : IndexedTree) (notes : List Note) (notebooks : List Notebook) found,
        store.Sound → notes.Perm store.liveNotes →
        resolveRef patterns raw notes notebooks = some found →
          found.Usable (fun id store => store.tree.readNote id) store ∨
            found.AsWritten (fun id store => store.tree.readNote id) store patterns raw) ∧
      ∀ (notes listedNotes : List Note) (notebooks listedNotebooks : List Notebook),
        (notes.map Note.id).Nodup → (notebooks.map Notebook.id).Nodup →
        listedNotes.Perm notes → listedNotebooks.Perm notebooks →
        resolveRef patterns raw listedNotes listedNotebooks =
          resolveRef patterns raw notes notebooks := by
  refine ⟨?_, ?_, ?_⟩
  · intro S Clock store valid hlawful inner found hvalid hresolve
    simp only [StorageBackend.resolve] at hresolve
    split at hresolve
    · contradiction
    next notes hnotes =>
    split at hresolve
    · contradiction
    next notebooks hnotebooks =>
    exact usable_or_asWritten (hlawful.collectNotes hvalid hnotes)
      (fun id note hread => hlawful.note_id hvalid hread) (Except.ok.inj hresolve)
  · intro store notes notebooks found hsound hperm hresolve
    exact usable_or_asWritten (hsound.lists_liveNotes hperm)
      (fun id note hread => hsound.readNote_id hread) hresolve
  · intro notes listedNotes notebooks listedNotebooks hnotes hnotebooks hnotesPerm hnotebooksPerm
    exact resolveRef_perm patterns raw hnotes hnotebooks hnotesPerm hnotebooksPerm

namespace ReferenceWitness

def patterns : LinkSyntax where
  bookmarkCaptures _ := []
  contentLinkCaptures _ := []
  parseUuid segment := Keeplin.parseUuid segment.toList

/-- A note outside the Inbox, with an alias and a bookmark. -/
def named (id : Uuid) : Note :=
  { InboxWitness.note id with
    notebookId := 7, «alias» := some "a", bookmarks := [⟨1, "b", "b"⟩] }

def stored : Db :=
  { InboxWitness.rows 0 with
    notes := (∅ : Std.ExtTreeMap Uuid NoteRow compare).insert 0 (NoteRow.ofNote (named 0)) }

/-- The id of no note. -/
def unknown : String := "#00000000-0000-0000-0000-000000000005"

theorem resolve_named :
    Db.storage.resolve patterns "#a#1" stored = .ok (some ⟨0, some 1⟩) := by
  decide +kernel

theorem resolved_in_stores :
    (∃ found : ResolvedReference,
      Db.storage.resolve patterns "#a#1" stored = .ok (some found) ∧
        (found.Usable Db.storage.readNote stored ∨
          found.AsWritten Db.storage.readNote stored patterns "#a#1")) ∧
      (∃ found : ResolvedReference, resolveRef patterns unknown [] [] = some found ∧
        (found.Usable (fun id store => store.tree.readNote id) (IndexedTree.empty "A") ∨
          found.AsWritten (fun id store => store.tree.readNote id) (IndexedTree.empty "A")
            patterns unknown)) ∧
      resolveRef patterns "#a" [named 1, named 0] [] =
        resolveRef patterns "#a" [named 0, named 1] [] := by
  refine ⟨⟨_, resolve_named, ?_⟩, ⟨⟨5, none⟩, by decide +kernel, ?_⟩, ?_⟩
  · exact (resolve_usable_or_asWritten patterns "#a#1").1 Db.storage _ Db.lawful_storage stored _
      trivial resolve_named
  · exact (resolve_usable_or_asWritten patterns unknown).2.1 (.empty "A") [] [] ⟨5, none⟩
      (IndexedTree.current_empty "A").toSound (List.Perm.refl _) (by decide +kernel)
  · exact (resolve_usable_or_asWritten patterns "#a").2.2 _ _ [] [] (by decide) (by decide)
      (List.Perm.swap (named 0) (named 1) []) (List.Perm.refl _)

/-- The id resolves in a store that has no note. -/
theorem resolve_unknown :
    ∃ found : ResolvedReference,
      Db.storage.resolve patterns unknown (InboxWitness.rows 0) = .ok (some found) ∧
        ∀ note, Db.storage.readNote found.noteId (InboxWitness.rows 0) ≠ .ok note := by
  refine ⟨⟨5, none⟩, by decide +kernel, fun note hread => ?_⟩
  have hread : (InboxWitness.rows 0).readNote 5 = .ok note := hread
  obtain ⟨row, hrow, -⟩ := Db.readNote_ok_iff.mp hread
  rw [InboxWitness.rows_notes, if_neg (Nat.not_lt_zero _)] at hrow
  contradiction

end ReferenceWitness

end Keeplin
