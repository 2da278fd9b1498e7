/-
The manual order of the Inbox and its resequencing, over either backend, and the
database as one of them.
-/
import Keeplin.DbRows
import Keeplin.KeysetPages

namespace Keeplin

def Note.DEFAULT_SORT_KEY : Nat := 1000

/-- The sort key zero stands for the start of the normal band. -/
def Note.effectiveSortKey (note : Note) : Nat :=
  if note.sortKey = 0 then Note.DEFAULT_SORT_KEY else note.sortKey

/-- What a page token holds of a note.  The text of a token orders as its key
and id do. -/
def Note.keyed (note : Note) : Keyed Uuid :=
  ⟨note.effectiveSortKey, note.id⟩

def INBOX_ID : Uuid := Uuid.nil

def RESEQUENCE_STEP : Nat := 1000

def DEFAULT_PAGE_SIZE : Nat := 100

def MAX_PAGE_SIZE : Nat := 1000

def effectivePageSize (pageSize : Nat) : Nat :=
  if pageSize = 0 then DEFAULT_PAGE_SIZE else min pageSize MAX_PAGE_SIZE

theorem effectivePageSize_pos (pageSize : Nat) : 0 < effectivePageSize pageSize := by
  rw [effectivePageSize]
  split
  · decide
  · next hsize => exact Nat.lt_min.mpr ⟨Nat.pos_of_ne_zero hsize, by decide⟩

/-- The largest sort key. -/
def SORT_KEY_MAX : Nat := 4294967295

/-- What the ordering asks of a backend, with the clock of an update. -/
structure NoteRepository (S : Type) where
  listNotesInNotebook : Uuid → Nat → Option (Keyed Uuid) → S →
    S × Except StorageError (List Note × Option (Keyed Uuid))
  updateNote : Note → DateTime → S → S × Except StorageError Note

section Resequence

variable {S : Type} (backend : NoteRepository S) (clock : Nat → DateTime)

/-- The notes of one page; `count` numbers the notes of the run. -/
def resequencePage : List Note → Nat → Nat → S → S × Except StorageError Nat
  | [], next, _, store => (store, .ok next)
  | note :: rest, next, count, store =>
      let following := min (next + RESEQUENCE_STEP) SORT_KEY_MAX
      if note.effectiveSortKey ≠ next then
        match backend.updateNote { note with sortKey := next } (clock count) store with
        | (store, .error failure) => (store, .error failure)
        | (store, .ok _) => resequencePage rest following (count + 1) store
      else resequencePage rest following (count + 1) store

/-- The loop over the pages, with the notes visited so far. -/
def resequencePages : Nat → Option (Keyed Uuid) → Nat → List Uuid → S →
    Option (S × Except StorageError (Nat × List Uuid))
  | 0, _, _, _, _ => none
  | fuel + 1, token, next, visited, store =>
      match backend.listNotesInNotebook INBOX_ID 0 token store with
      | (store, .error failure) => some (store, .error failure)
      | (store, .ok (page, more)) =>
          match resequencePage backend clock page next visited.length store with
          | (store, .error failure) => some (store, .error failure)
          | (store, .ok next) =>
              let visited := visited ++ page.map Note.id
              match more with
              | some last => resequencePages fuel (some last) next visited store
              | none => some (store, .ok (RESEQUENCE_STEP, visited))

def resequenceInbox (fuel : Nat) (store : S) :
    Option (S × Except StorageError (Nat × List Uuid)) :=
  resequencePages backend clock fuel none RESEQUENCE_STEP [] store

/-- The run ends, visits every live Inbox note once and leaves the notes in their
order with the keys 1000, 2000, ... -/
def Resequences (inbox : S → List (Keyed Uuid)) (store : S) : Prop :=
  ∃ fuel after visited,
    resequenceInbox backend clock fuel store =
        some (after, .ok (RESEQUENCE_STEP, visited)) ∧
      visited.Nodup ∧ (∀ id, id ∈ visited ↔ id ∈ (inbox store).map Keyed.id) ∧
      inbox after = numbered RESEQUENCE_STEP RESEQUENCE_STEP (inbox store)

/-- A backend that lists its Inbox in pages and updates one note at a time. -/
structure KeepsInbox (inbox : S → List (Keyed Uuid)) (ready : S → Prop)
    (holds : S → Note → Prop) : Prop where
  ordered : ∀ store, ready store → Ordered (inbox store)
  mem : ∀ store note, ready store → holds store note → note.keyed ∈ inbox store
  list : ∀ store token, ready store → ∃ after notes,
    backend.listNotesInNotebook INBOX_ID 0 token store =
        (after, .ok (notes, (pageAfter DEFAULT_PAGE_SIZE token (inbox store)).2)) ∧
      notes.map Note.keyed = (pageAfter DEFAULT_PAGE_SIZE token (inbox store)).1 ∧
      ready after ∧ inbox after = inbox store ∧ ∀ note ∈ notes, holds after note
  update : ∀ store note next now, ready store → holds store note → 0 < next →
    ∃ after result, backend.updateNote { note with sortKey := next } now store =
        (after, .ok result) ∧
      ready after ∧ inbox after = rekey note.id next (inbox store) ∧
      ∀ other, other.id ≠ note.id → holds store other → holds after other

variable {backend} {clock} {inbox : S → List (Keyed Uuid)} {ready : S → Prop}
  {holds : S → Note → Prop}

/-- A page is renumbered as its keys are. -/
theorem KeepsInbox.resequencePage (hkeeps : KeepsInbox backend inbox ready holds)
    (clock : Nat → DateTime) {notes : List Note} {next : Nat} (count : Nat) {store : S}
    (hready : ready store)
    (hnext : 0 < next) (hids : (notes.map Note.id).Nodup)
    (hholds : ∀ note ∈ notes, holds store note) :
    ∃ after, Keeplin.resequencePage backend clock notes next count store =
        (after, .ok (renumberPage RESEQUENCE_STEP SORT_KEY_MAX (notes.map Note.keyed) next
          (inbox store)).2) ∧
      ready after ∧
      inbox after = (renumberPage RESEQUENCE_STEP SORT_KEY_MAX (notes.map Note.keyed) next
        (inbox store)).1 ∧
      0 < (renumberPage RESEQUENCE_STEP SORT_KEY_MAX (notes.map Note.keyed) next
        (inbox store)).2 := by
  induction notes generalizing next count store with
  | nil => exact ⟨store, rfl, hready, rfl, hnext⟩
  | cons note rest ih =>
      obtain ⟨hnotMem, hrestIds⟩ := List.nodup_cons.mp hids
      have hnote := hholds note List.mem_cons_self
      have hfollowing : 0 < min (next + RESEQUENCE_STEP) SORT_KEY_MAX := by
        have hmax : 0 < SORT_KEY_MAX := by decide
        omega
      have hothers : ∀ other ∈ rest, other.id ≠ note.id := fun other hother hid =>
        hnotMem (hid ▸ List.mem_map_of_mem hother)
      simp only [Keeplin.resequencePage, List.map_cons, renumberPage]
      by_cases hsame : note.effectiveSortKey = next
      · have hkept : rekey note.keyed.id next (inbox store) = inbox store := by
          rw [← hsame]
          exact rekey_of_mem (hkeeps.ordered store hready) (hkeeps.mem store note hready hnote)
        rw [if_neg (not_not.mpr hsame), hkept]
        exact ih (count + 1) hready hfollowing hrestIds fun other hother =>
          hholds other (List.mem_cons_of_mem _ hother)
      · obtain ⟨after, result, hupdate, hreadyAfter, hinbox, hheld⟩ :=
          hkeeps.update store note next (clock count) hready hnote hnext
        rw [if_pos hsame, hupdate, ← show inbox after = rekey note.keyed.id next (inbox store)
          from hinbox]
        exact ih (count + 1) hreadyAfter hfollowing hrestIds fun other hother =>
          hheld other (hothers other hother) (hholds other (List.mem_cons_of_mem _ hother))

/-- The loop visits what the renumbering of the keys visits. -/
theorem KeepsInbox.resequencePages (hkeeps : KeepsInbox backend inbox ready holds)
    (clock : Nat → DateTime) (fuel : Nat) (token : Option (Keyed Uuid)) {next : Nat}
    (visited : List Uuid) {store : S}
    (hready : ready store) (hnext : 0 < next) :
    match renumber DEFAULT_PAGE_SIZE RESEQUENCE_STEP SORT_KEY_MAX fuel token next
        (inbox store) with
    | none => Keeplin.resequencePages backend clock fuel token next visited store = none
    | some (final, ids) => ∃ after,
        Keeplin.resequencePages backend clock fuel token next visited store =
          some (after, .ok (RESEQUENCE_STEP, visited ++ ids)) ∧ inbox after = final := by
  induction fuel generalizing token next visited store with
  | zero => rfl
  | succ fuel ih =>
      obtain ⟨listed, notes, hlist, hnotes, hreadyListed, hinboxListed, hholds⟩ :=
        hkeeps.list store token hready
      have hids : (notes.map Note.id).Nodup := by
        have hmap : notes.map Note.id = (notes.map Note.keyed).map Keyed.id := by
          rw [List.map_map]
          rfl
        rw [hmap, hnotes]
        exact (hkeeps.ordered store hready).ids.sublist
          (((List.take_sublist _ _).trans List.filter_sublist).map _)
      obtain ⟨after, hpage, hreadyAfter, hinboxAfter, hfollowing⟩ :=
        hkeeps.resequencePage clock visited.length hreadyListed hnext hids hholds
      rw [hinboxListed, hnotes] at hpage hinboxAfter hfollowing
      have hvisited : notes.map Note.id =
          (pageAfter DEFAULT_PAGE_SIZE token (inbox store)).1.map Keyed.id := by
        rw [← hnotes, List.map_map]
        rfl
      simp only [renumber, Keeplin.resequencePages, hlist, hpage, hvisited]
      cases hmore : (pageAfter DEFAULT_PAGE_SIZE token (inbox store)).2 with
      | none => exact ⟨after, rfl, hinboxAfter⟩
      | some last =>
          have hrest := ih (some last) (visited ++
            (pageAfter DEFAULT_PAGE_SIZE token (inbox store)).1.map Keyed.id) hreadyAfter
            hfollowing
          rw [hinboxAfter] at hrest
          simp only
          cases hrun : renumber DEFAULT_PAGE_SIZE RESEQUENCE_STEP SORT_KEY_MAX fuel (some last)
              (renumberPage RESEQUENCE_STEP SORT_KEY_MAX
                (pageAfter DEFAULT_PAGE_SIZE token (inbox store)).1 next (inbox store)).2
              (renumberPage RESEQUENCE_STEP SORT_KEY_MAX
                (pageAfter DEFAULT_PAGE_SIZE token (inbox store)).1 next (inbox store)).1 with
          | none =>
              rw [hrun] at hrest
              exact hrest
          | some found =>
              rw [hrun] at hrest
              obtain ⟨final, hrest, hfinal⟩ := hrest
              exact ⟨final, by rw [hrest, List.append_assoc], hfinal⟩

theorem KeepsInbox.resequences_iff (hkeeps : KeepsInbox backend inbox ready holds) {store : S}
    (hready : ready store) (hkeys : ∀ item ∈ inbox store, item.key ≤ SORT_KEY_MAX) :
    Resequences backend clock inbox store ↔
      RESEQUENCE_STEP * (inbox store).length ≤ SORT_KEY_MAX ∧
        Spread DEFAULT_PAGE_SIZE RESEQUENCE_STEP (inbox store) := by
  rw [← renumbers_iff_spread (by decide) (by decide) (by decide)
    (hkeeps.ordered store hready) hkeys]
  constructor
  · rintro ⟨fuel, after, visited, hrun, hnodup, hall, hfinal⟩
    have hsimulated := hkeeps.resequencePages clock fuel none [] hready
      (show 0 < RESEQUENCE_STEP by decide)
    rw [resequenceInbox] at hrun
    cases hrenumber : renumber DEFAULT_PAGE_SIZE RESEQUENCE_STEP SORT_KEY_MAX fuel none
        RESEQUENCE_STEP (inbox store) with
    | none =>
        rw [hrenumber, hrun] at hsimulated
        cases hsimulated
    | some found =>
        obtain ⟨final, ids⟩ := found
        rw [hrenumber, hrun] at hsimulated
        obtain ⟨other, heq, hinbox⟩ := hsimulated
        cases heq
        exact ⟨fuel, final, ids, hrenumber, hnodup, hall, hinbox ▸ hfinal⟩
  · rintro ⟨fuel, final, ids, hrenumber, hnodup, hall, hfinal⟩
    have hsimulated := hkeeps.resequencePages clock fuel none [] hready
      (show 0 < RESEQUENCE_STEP by decide)
    rw [hrenumber] at hsimulated
    obtain ⟨after, hrun, hinbox⟩ := hsimulated
    exact ⟨fuel, after, ids, hrun, hnodup, hall, hinbox.trans hfinal⟩

end Resequence

def sortedByKey (notes : List Note) : List Note :=
  notes.mergeSort fun first second => first.keyed ≤ second.keyed

theorem mem_sortedByKey {notes : List Note} {item : Keyed Uuid} :
    item ∈ (sortedByKey notes).map Note.keyed ↔ ∃ note ∈ notes, note.keyed = item := by
  simp [sortedByKey]

/-- Notes with ids of their own are sorted strictly. -/
theorem ordered_sortedByKey {notes : List Note} (hids : (notes.map Note.id).Nodup) :
    Ordered ((sortedByKey notes).map Note.keyed) := by
  have hsortedIds : (((sortedByKey notes).map Note.keyed).map Keyed.id).Nodup := by
    rw [List.map_map, sortedByKey, ((List.mergeSort_perm _ _).map _).nodup_iff]
    exact hids
  have hsorted : ((sortedByKey notes).map Note.keyed).Pairwise (· ≤ ·) := by
    rw [List.pairwise_map]
    have htrans : ∀ first second third : Note, decide (first.keyed ≤ second.keyed) = true →
        decide (second.keyed ≤ third.keyed) = true →
        decide (first.keyed ≤ third.keyed) = true := by
      simpa using fun first second third => le_trans
    have htotal : ∀ first second : Note, (decide (first.keyed ≤ second.keyed) ||
        decide (second.keyed ≤ first.keyed)) = true := by
      simpa using fun first second => le_total _ _
    exact (List.pairwise_mergeSort htrans htotal notes).imp of_decide_eq_true
  exact ⟨hsorted.imp₂ (fun _ _ hle hne => lt_of_le_of_ne hle hne) (hsortedIds.of_map _),
    hsortedIds⟩

namespace Db

variable (db : Db)

/-- The live notes of a notebook whose keys the cursor has not passed. -/
def notesAfter (notebookId : Uuid) (cursor : Option (Keyed Uuid)) : List Note :=
  (db.notes.toList.filter fun entry =>
      entry.2.notebookId = some notebookId ∧ entry.2.deletedAt = none ∧
        isAfter cursor (rowToNote entry.1 entry.2).keyed = true).map
    fun entry => rowToNote entry.1 entry.2

/-- The rows a query has fetched, one more than the page holds if there are
more. -/
def buildPage (rows : List Note) (limit : Nat) : List Note × Option (Keyed Uuid) :=
  (rows.take limit,
    if limit < rows.length then (rows.take limit).getLast?.map Note.keyed else none)

def listNotesInNotebook (notebookId : Uuid) (pageSize : Nat) (token : Option (Keyed Uuid)) :
    List Note × Option (Keyed Uuid) :=
  let limit := effectivePageSize pageSize
  buildPage ((sortedByKey (db.notesAfter notebookId token)).take (limit + 1)) limit

def noteRepository : NoteRepository Db where
  listNotesInNotebook notebookId pageSize token db :=
    (db, .ok (db.listNotesInNotebook notebookId pageSize token))
  updateNote note now db :=
    match db.updateNote note now with
    | .ok (after, note) => (after, .ok note)
    | .error failure => (db, .error failure)

/-- The live notes of the Inbox by key and id. -/
def inbox : List (Keyed Uuid) :=
  (sortedByKey (db.notesAfter INBOX_ID none)).map Note.keyed

variable {db} {notebookId : Uuid} {cursor : Option (Keyed Uuid)} {note : Note}

theorem mem_notesAfter :
    note ∈ db.notesAfter notebookId cursor ↔
      ∃ row, db.notes[note.id]? = some row ∧ rowToNote note.id row = note ∧
        row.notebookId = some notebookId ∧ row.deletedAt = none ∧
        isAfter cursor note.keyed = true := by
  simp only [notesAfter, List.mem_map, List.mem_filter, Prod.exists, decide_eq_true_eq,
    Std.ExtTreeMap.mem_toList_iff_getElem?_eq_some]
  constructor
  · rintro ⟨id, row, ⟨hrow, hlisted⟩, rfl⟩
    exact ⟨row, hrow, rfl, hlisted⟩
  · rintro ⟨row, hrow, hnote, hlisted⟩
    exact ⟨note.id, row, ⟨hrow, by rwa [hnote]⟩, hnote⟩

theorem nodup_notesAfter : ((db.notesAfter notebookId cursor).map Note.id).Nodup := by
  have hkeys : (db.notes.toList.map Prod.fst).Nodup := by
    rw [List.Nodup, List.pairwise_map]
    exact db.notes.distinct_keys_toList.imp fun hne heq =>
      hne (Std.LawfulEqCmp.compare_eq_iff_eq.mpr heq)
  rw [notesAfter, List.map_map]
  exact hkeys.sublist (List.filter_sublist.map _)

theorem ordered_inbox (db : Db) : Ordered db.inbox :=
  ordered_sortedByKey nodup_notesAfter

theorem mem_inbox {item : Keyed Uuid} :
    item ∈ db.inbox ↔ ∃ row, db.notes[item.id]? = some row ∧
      row.notebookId = some INBOX_ID ∧ row.deletedAt = none ∧
      (rowToNote item.id row).effectiveSortKey = item.key := by
  rw [inbox, mem_sortedByKey]
  constructor
  · rintro ⟨note, hnote, rfl⟩
    obtain ⟨row, hrow, hsame, hinbox, hlive, -⟩ := mem_notesAfter.mp hnote
    exact ⟨row, hrow, hinbox, hlive, congrArg Note.effectiveSortKey hsame⟩
  · rintro ⟨row, hrow, hinbox, hlive, hkey⟩
    refine ⟨rowToNote item.id row, mem_notesAfter.mpr ⟨row, hrow, rfl, hinbox, hlive, rfl⟩, ?_⟩
    rw [Note.keyed, hkey]
    rfl

/-- A query with a cursor finds what is left of the notebook after it. -/
theorem sorted_notesAfter (notebookId : Uuid) (cursor : Option (Keyed Uuid)) :
    (sortedByKey (db.notesAfter notebookId cursor)).map Note.keyed =
      ((sortedByKey (db.notesAfter notebookId none)).map Note.keyed).filter (isAfter cursor) := by
  apply (ordered_sortedByKey nodup_notesAfter).sorted.eq_of_mem_iff
    ((ordered_sortedByKey nodup_notesAfter).sorted.sublist List.filter_sublist)
  intro item
  rw [List.mem_filter, mem_sortedByKey, mem_sortedByKey]
  constructor
  · rintro ⟨note, hnote, rfl⟩
    obtain ⟨row, hrow, hsame, hinbox, hlive, hafter⟩ := mem_notesAfter.mp hnote
    exact ⟨⟨note, mem_notesAfter.mpr ⟨row, hrow, hsame, hinbox, hlive, rfl⟩, rfl⟩, hafter⟩
  · rintro ⟨⟨note, hnote, rfl⟩, hafter⟩
    obtain ⟨row, hrow, hsame, hinbox, hlive, -⟩ := mem_notesAfter.mp hnote
    exact ⟨note, mem_notesAfter.mpr ⟨row, hrow, hsame, hinbox, hlive, hafter⟩, rfl⟩

theorem buildPage_eq (rows : List Note) (limit : Nat) :
    ((buildPage rows limit).1.map Note.keyed, (buildPage rows limit).2) =
      cutPage limit (rows.map Note.keyed) := by
  simp only [buildPage, cutPage, ← List.map_take, List.length_map, List.getLast?_map]

theorem listNotesInNotebook_eq (notebookId : Uuid) (cursor : Option (Keyed Uuid)) :
    ((db.listNotesInNotebook notebookId 0 cursor).1.map Note.keyed,
        (db.listNotesInNotebook notebookId 0 cursor).2) =
      pageAfter DEFAULT_PAGE_SIZE cursor
        ((sortedByKey (db.notesAfter notebookId none)).map Note.keyed) := by
  rw [listNotesInNotebook, buildPage_eq, List.map_take, sorted_notesAfter, cutPage_take_succ]
  rfl

theorem updateNote_notes (note : Note) {row : NoteRow} (hrow : db.notes[note.id]? = some row)
    (now : DateTime) :
    ∃ after result updated, db.updateNote note now = .ok (after, result) ∧
      after.notes = db.notes.insert note.id updated ∧
      updated.notebookId = some note.notebookId ∧ updated.deletedAt = note.deletedAt ∧
      updated.sortKey = note.sortKey := by
  simp only [updateNote, hrow]
  refine ⟨_, _, { NoteRow.ofNote { note with
    vv := db.nextLocalVv .notes note.id, lastWriter := db.deviceId } with
      createdAt := row.createdAt }, rfl, ?_, rfl, rfl, rfl⟩
  simp only [recordChange, refreshNoteLinks, notes_restoreResources]

/-- An update of a live Inbox note moves it to its new key. -/
theorem updateNote_inbox {next : Nat} (hnote : note ∈ db.notesAfter INBOX_ID none)
    (hnext : 0 < next) (now : DateTime) :
    ∃ after result, db.updateNote { note with sortKey := next } now = .ok (after, result) ∧
      after.inbox = rekey note.id next db.inbox ∧
      ∀ id, id ≠ note.id → after.notes[id]? = db.notes[id]? := by
  obtain ⟨row, hrow, hsame, hinbox, hlive, -⟩ := mem_notesAfter.mp hnote
  have hdeleted : note.deletedAt = none := by
    rw [← hsame]
    exact hlive
  have hnotebook : note.notebookId = INBOX_ID := by
    rw [← hsame]
    simp [rowToNote, hinbox]
  obtain ⟨after, result, updated, hupdate, hnotes, hupdatedNotebook, hupdatedDeleted, hsortKey⟩ :=
    db.updateNote_notes { note with sortKey := next } hrow now
  have hothers : ∀ id, id ≠ note.id → after.notes[id]? = db.notes[id]? := by
    intro id hid
    rw [hnotes, Std.ExtTreeMap.getElem?_insert, if_neg]
    simpa using hid.symm
  refine ⟨after, result, hupdate, ?_, hothers⟩
  apply after.ordered_inbox.eq_of_mem_iff (db.ordered_inbox.rekey note.id next)
  intro item
  rw [mem_rekey, mem_inbox, mem_inbox]
  by_cases hid : item.id = note.id
  · have hfound : after.notes[item.id]? = some updated := by
      simp [hnotes, hid]
    have hkey : (rowToNote item.id updated).effectiveSortKey = next := by
      simp [rowToNote, Note.effectiveSortKey, hsortKey, Nat.pos_iff_ne_zero.mp hnext]
    constructor
    · rintro ⟨found, hsomeFound, -, -, hfoundKey⟩
      obtain rfl := Option.some.inj (hfound.symm.trans hsomeFound)
      obtain ⟨key, id⟩ := item
      exact .inl (by rw [← hid, ← hkey, hfoundKey])
    · rintro (rfl | ⟨-, hne⟩)
      · exact ⟨updated, hfound, by rw [hupdatedNotebook, hnotebook],
          by rw [hupdatedDeleted, hdeleted], hkey⟩
      · exact absurd hid hne
  · rw [hothers item.id hid]
    have hne : item ≠ ⟨next, note.id⟩ := fun heq => hid (heq ▸ rfl)
    simp [hid, hne]

theorem keepsInbox : KeepsInbox noteRepository inbox (fun _ => True)
    fun db note => note ∈ db.notesAfter INBOX_ID none where
  ordered db _ := db.ordered_inbox
  mem db note _ hnote := mem_sortedByKey.mpr ⟨note, hnote, rfl⟩
  list := by
    intro db token _
    have hpage := db.listNotesInNotebook_eq INBOX_ID token
    refine ⟨db, (db.listNotesInNotebook INBOX_ID 0 token).1, ?_, congrArg Prod.fst hpage,
      trivial, rfl, ?_⟩
    · rw [inbox, ← hpage]
      rfl
    · intro note hnote
      have hlisted : note ∈ db.notesAfter INBOX_ID token := by
        have hmem := List.mem_of_mem_take (List.mem_of_mem_take hnote)
        simpa [sortedByKey] using hmem
      obtain ⟨row, hrow, hsame, hinbox, hlive, -⟩ := mem_notesAfter.mp hlisted
      exact mem_notesAfter.mpr ⟨row, hrow, hsame, hinbox, hlive, rfl⟩
  update := by
    intro db note next now _ hnote hnext
    obtain ⟨after, result, hupdate, hinbox, hothers⟩ := updateNote_inbox hnote hnext now
    refine ⟨after, result, by simp [noteRepository, hupdate], trivial, hinbox, ?_⟩
    intro other hother hlisted
    obtain ⟨row, hrow, hsame, hlisted⟩ := mem_notesAfter.mp hlisted
    exact mem_notesAfter.mpr ⟨row, by rw [hothers other.id hother, hrow], hsame, hlisted⟩

end Db

end Keeplin
