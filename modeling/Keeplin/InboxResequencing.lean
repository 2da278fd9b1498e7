/-
The Inbox of the filesystem store, and when its resequencing is right in either
store.
-/
import Keeplin.FsNoteIndex

namespace Keeplin

namespace IndexedTree

/-- The live notes of a notebook. -/
def notesIn (store : IndexedTree) (notebookId : Uuid) : List Note :=
  (store.tree.allNoteIds.filterMap fun id => liveNote (store.tree.mergeNote id)).filter
    fun note => note.notebookId = notebookId

/-- The live notes of the Inbox by key and id. -/
def inbox (store : IndexedTree) : List (Keyed Uuid) :=
  (sortedByKey (store.notesIn INBOX_ID)).map Note.keyed

variable {store : IndexedTree} {note : Note} {notebookId : Uuid}

theorem mem_allNoteIds_of_live {tree : FsTree} {id : Uuid}
    (hlive : liveNote (tree.mergeNote id) = some note) : id ∈ tree.allNoteIds := by
  by_contra hmissing
  have hnone : tree.notes.file? id = none := by
    rw [Directory.file?_eq_none_iff]
    exact fun folder hmem => hmissing (List.mem_map.mpr ⟨(id, folder), hmem, rfl⟩)
  have hmerge : tree.mergeNote id = .ok none := by
    simp only [FsTree.mergeNote, FsTree.mergeLogs, FsTree.noteLogs, FsTree.noteFolder, hnone]
    rfl
  rw [hmerge] at hlive
  contradiction

theorem Sound.mem_notesIn (hsound : store.Sound) :
    note ∈ store.notesIn notebookId ↔
      liveNote (store.tree.mergeNote note.id) = some note ∧ note.notebookId = notebookId := by
  simp only [notesIn, List.mem_filter, List.mem_filterMap, decide_eq_true_eq]
  constructor
  · rintro ⟨⟨id, -, hlive⟩, hnotebook⟩
    rw [hsound.note_id (liveNote_eq_some.mp hlive).1]
    exact ⟨hlive, hnotebook⟩
  · rintro ⟨hlive, hnotebook⟩
    exact ⟨⟨note.id, mem_allNoteIds_of_live hlive, hlive⟩, hnotebook⟩

/-- The folders hold different notes. -/
theorem Sound.nodup_live (hsound : store.Sound) :
    ((store.tree.allNoteIds.filterMap fun id =>
      liveNote (store.tree.mergeNote id)).map Note.id).Nodup := by
  rw [List.Nodup, List.pairwise_map, List.pairwise_filterMap]
  refine hsound.folders.imp fun {first second} hne note hnote other hother heq => hne ?_
  rw [← hsound.note_id (liveNote_eq_some.mp hnote).1, heq,
    hsound.note_id (liveNote_eq_some.mp hother).1]

theorem Sound.nodup_notesIn (hsound : store.Sound) (notebookId : Uuid) :
    ((store.notesIn notebookId).map Note.id).Nodup :=
  hsound.nodup_live.sublist (List.filter_sublist.map Note.id)

theorem Sound.ordered_inbox (hsound : store.Sound) : Ordered store.inbox :=
  ordered_sortedByKey (hsound.nodup_notesIn INBOX_ID)

theorem Sound.mem_keyed (hsound : store.Sound) {item : Keyed Uuid} :
    item ∈ (sortedByKey (store.notesIn notebookId)).map Note.keyed ↔
      ∃ note, liveNote (store.tree.mergeNote item.id) = some note ∧
        note.notebookId = notebookId ∧ note.effectiveSortKey = item.key := by
  rw [mem_sortedByKey]
  constructor
  · rintro ⟨note, hnote, rfl⟩
    obtain ⟨hlive, hnotebook⟩ := hsound.mem_notesIn.mp hnote
    exact ⟨note, hlive, hnotebook, rfl⟩
  · rintro ⟨note, hlive, hnotebook, hkey⟩
    have hid : note.id = item.id := hsound.note_id (liveNote_eq_some.mp hlive).1
    refine ⟨note, hsound.mem_notesIn.mpr ⟨hid.symm ▸ hlive, hnotebook⟩, ?_⟩
    rw [Note.keyed, hkey, hid]

theorem Sound.mem_inbox (hsound : store.Sound) {item : Keyed Uuid} :
    item ∈ store.inbox ↔ ∃ note, liveNote (store.tree.mergeNote item.id) = some note ∧
      note.notebookId = INBOX_ID ∧ note.effectiveSortKey = item.key :=
  hsound.mem_keyed

/-- A page of the index is a page of the notebook. -/
theorem Current.listNotesInNotebook_keyed (hcurrent : store.Current) (notebookId : Uuid)
    (token : Option (Keyed Uuid)) :
    ∃ after notes, store.listNotesInNotebook notebookId 0 token =
        (after, .ok (notes, (pageAfter DEFAULT_PAGE_SIZE token
          ((sortedByKey (store.notesIn notebookId)).map Note.keyed)).2)) ∧
      notes.map Note.keyed = (pageAfter DEFAULT_PAGE_SIZE token
        ((sortedByKey (store.notesIn notebookId)).map Note.keyed)).1 ∧
      after.Current ∧ after.tree = store.tree ∧
      ∀ note ∈ notes, note ∈ after.notesIn notebookId := by
  have hafter := hcurrent.listNotesInNotebook notebookId 0 token
  obtain ⟨idx, hidx, hentries⟩ := hcurrent.withNoteIndex
  simp only [IndexedTree.listNotesInNotebook, hidx] at hafter ⊢
  generalize hlisted : (idx.toList.filter fun entry => entry.2.notebookId = notebookId).map
    (fun entry => (⟨entry.2.effectiveSortKey, entry.1⟩ : Keyed Uuid)) = items
  have hitems : items.Nodup := by
    have hids := idx.nodup_ids fun entry => entry.2.notebookId = notebookId
    rw [← hlisted]
    exact List.Nodup.of_map Keyed.id (by rwa [List.map_map])
  have hsame : ∀ item, item ∈ items ↔
      item ∈ (sortedByKey (store.notesIn notebookId)).map Note.keyed := by
    intro item
    rw [hcurrent.mem_keyed, ← hlisted]
    simp only [List.mem_map, List.mem_filter, Prod.exists, decide_eq_true_eq,
      Std.ExtTreeMap.mem_toList_iff_getElem?_eq_some, hentries, Option.map_eq_some_iff]
    constructor
    · rintro ⟨id, entry, ⟨⟨note, hlive, rfl⟩, hnotebook⟩, rfl⟩
      exact ⟨note, hlive, hnotebook, rfl⟩
    · rintro ⟨note, hlive, hnotebook, hkey⟩
      refine ⟨item.id, .fromNote note, ⟨⟨note, hlive, rfl⟩, hnotebook⟩, ?_⟩
      rw [NoteMetaEntry.fromNote, hkey]
  have hordered := ordered_sortedByKey (hcurrent.nodup_notesIn notebookId)
  have hpage := PageCollector.intoPage_collect hitems hordered.sorted hsame
    DEFAULT_PAGE_SIZE token
  have hlisting : ∀ item ∈ (pageAfter DEFAULT_PAGE_SIZE token
      ((sortedByKey (store.notesIn notebookId)).map Note.keyed)).1,
      item ∈ (sortedByKey (store.notesIn notebookId)).map Note.keyed := fun item hitem =>
    List.mem_of_mem_filter (List.mem_of_mem_take hitem)
  have hfound : ∀ item ∈ (pageAfter DEFAULT_PAGE_SIZE token
      ((sortedByKey (store.notesIn notebookId)).map Note.keyed)).1,
      ∃ note, liveNote (store.tree.mergeNote item.id) = some note ∧ note.keyed = item := by
    intro item hitem
    obtain ⟨note, hnote, rfl⟩ := mem_sortedByKey.mp (hlisting item hitem)
    exact ⟨note, (hcurrent.mem_notesIn.mp hnote).1, rfl⟩
  obtain ⟨notes, hnotes, hkeyed, hall⟩ := FsTree.materializePage_eq hfound
  refine ⟨_, notes, ?_, hkeyed, hafter, rfl, ?_⟩
  · rw [show effectivePageSize 0 = DEFAULT_PAGE_SIZE from rfl, hpage, hnotes]
    rfl
  · intro note hnote
    have hitem := hlisting note.keyed (hkeyed ▸ List.mem_map_of_mem hnote)
    obtain ⟨held, hlive, hnotebook, -⟩ := hcurrent.mem_keyed.mp hitem
    obtain rfl := Option.some.inj ((hall note hnote).symm.trans hlive)
    exact hcurrent.mem_notesIn.mpr ⟨hlive, hnotebook⟩

/-- A page of the index is a page of the Inbox. -/
theorem Current.listNotesInNotebook_inbox (hcurrent : store.Current)
    (token : Option (Keyed Uuid)) :
    ∃ after notes, store.listNotesInNotebook INBOX_ID 0 token =
        (after, .ok (notes, (pageAfter DEFAULT_PAGE_SIZE token store.inbox).2)) ∧
      notes.map Note.keyed = (pageAfter DEFAULT_PAGE_SIZE token store.inbox).1 ∧
      after.Current ∧ after.inbox = store.inbox ∧
      ∀ note ∈ notes, note ∈ after.notesIn INBOX_ID := by
  obtain ⟨after, notes, hlist, hkeyed, hafter, htree, hall⟩ :=
    hcurrent.listNotesInNotebook_keyed INBOX_ID token
  refine ⟨after, notes, hlist, hkeyed, hafter, ?_, hall⟩
  rw [inbox, inbox, notesIn, notesIn, htree]

/-- An update of a live Inbox note moves it to its new key. -/
theorem Current.updateNote_inbox (hcurrent : store.Current) (place : Uuid → Nat) {next : Nat}
    (hnote : note ∈ store.notesIn INBOX_ID) (hnext : 0 < next) (now : DateTime) :
    ∃ after result,
      store.call place (store.tree.updateNote place { note with sortKey := next } now) =
        (after, .ok result) ∧
      after.Current ∧ after.inbox = rekey note.id next store.inbox ∧
      ∀ other, other ≠ note.id → after.tree.mergeNote other = store.tree.mergeNote other := by
  obtain ⟨hlive, hnotebook⟩ := hcurrent.mem_notesIn.mp hnote
  have hdeleted := (liveNote_eq_some.mp hlive).2
  have hkey : ({ note with sortKey := next } : Note).effectiveSortKey = next :=
    if_neg (Nat.pos_iff_ne_zero.mp hnext)
  generalize hupdated : { note with sortKey := next } = updated at hkey ⊢
  have hid : updated.id = note.id := by rw [← hupdated]
  have hupdatedNotebook : updated.notebookId = INBOX_ID := by rw [← hupdated, hnotebook]
  have hupdatedDeleted : updated.deletedAt = none := by rw [← hupdated, hdeleted]
  rw [← hid] at hlive ⊢
  obtain ⟨after, hcall, hafter, hmerge, hothers⟩ :=
    hcurrent.updateNote_of_live place hlive now
  refine ⟨after, updated, hcall, hafter, ?_, hothers⟩
  apply hafter.ordered_inbox.eq_of_mem_iff (hcurrent.ordered_inbox.rekey updated.id next)
  intro item
  rw [mem_rekey, hafter.mem_inbox, hcurrent.mem_inbox]
  by_cases hsame : item.id = updated.id
  · have hfound : liveNote (after.tree.mergeNote item.id) = some updated := by
      rw [hsame]
      exact liveNote_eq_some.mpr ⟨hmerge, hupdatedDeleted⟩
    constructor
    · rintro ⟨found, hsomeFound, -, hfoundKey⟩
      obtain rfl := Option.some.inj (hfound.symm.trans hsomeFound)
      obtain ⟨key, id⟩ := item
      exact .inl (by rw [← hsame, ← hkey, hfoundKey])
    · rintro (rfl | ⟨-, hne⟩)
      · exact ⟨updated, hfound, hupdatedNotebook, hkey⟩
      · exact absurd hsame hne
  · have hne : item ≠ ⟨next, updated.id⟩ := fun heq => hsame (heq ▸ rfl)
    rw [hothers item.id hsame]
    simp [hsame, hne]

theorem keepsInbox (place : Uuid → Nat) :
    KeepsInbox (noteRepository place) inbox Current
      fun store note => note ∈ store.notesIn INBOX_ID where
  ordered store hcurrent := hcurrent.ordered_inbox
  mem store note _ hnote := mem_sortedByKey.mpr ⟨note, hnote, rfl⟩
  list store token hcurrent := hcurrent.listNotesInNotebook_inbox token
  update := by
    intro store note next now hcurrent hnote hnext
    obtain ⟨after, result, hcall, hafter, hinbox, hothers⟩ :=
      hcurrent.updateNote_inbox place hnote hnext now
    refine ⟨after, result, hcall, hafter, hinbox, ?_⟩
    intro other hother hlisted
    rw [hcurrent.mem_notesIn] at hlisted
    rw [hafter.mem_notesIn, hothers other.id hother]
    exact hlisted

end IndexedTree

/-- Resequencing is right exactly for an Inbox whose new keys fit and whose pages
the new keys of the pages before do not reach. -/
theorem resequenceInbox_iff_spread (clock : Nat → DateTime) (place : Uuid → Nat) :
    (∀ db : Db, (∀ item ∈ db.inbox, item.key ≤ SORT_KEY_MAX) →
      (Resequences Db.noteRepository clock Db.inbox db ↔
        RESEQUENCE_STEP * db.inbox.length ≤ SORT_KEY_MAX ∧
          Spread DEFAULT_PAGE_SIZE RESEQUENCE_STEP db.inbox)) ∧
      ∀ store : IndexedTree, store.Current →
        (∀ item ∈ store.inbox, item.key ≤ SORT_KEY_MAX) →
        (Resequences (IndexedTree.noteRepository place) clock IndexedTree.inbox store ↔
          RESEQUENCE_STEP * store.inbox.length ≤ SORT_KEY_MAX ∧
            Spread DEFAULT_PAGE_SIZE RESEQUENCE_STEP store.inbox) := by
  constructor
  · intro db hkeys
    exact Db.keepsInbox.resequences_iff trivial hkeys
  · intro store hcurrent hkeys
    exact (IndexedTree.keepsInbox place).resequences_iff hcurrent hkeys

namespace InboxWitness

/-- A note with the first key of the pinned band. -/
def note (id : Uuid) : Note :=
  { id := id, title := "", body := "", notebookId := INBOX_ID, isTodo := false
    todoDue := none, todoCompleted := none, createdAt := 0, updatedAt := 0
    deletedAt := none, «alias» := none, bookmarks := [], links := []
    vv := ∅, lastWriter := "", isPinned := false, isStarred := false, sortKey := 1 }

/-- The first notes by id, in the Inbox. -/
def rows : Nat → Db
  | 0 => ⟨"A", ∅, ∅, ∅, ∅, ∅, [], [], none⟩
  | count + 1 =>
      { rows count with notes := (rows count).notes.insert count (NoteRow.ofNote (note count)) }

def place : Uuid → Nat := fun _ => 0

def files : Nat → IndexedTree
  | 0 => .empty "A"
  | count + 1 =>
      ((files count).call place ((files count).tree.createNote place (note count) 0)).1

theorem rows_notes (count : Nat) (id : Uuid) :
    (rows count).notes[id]? = if id < count then some (NoteRow.ofNote (note id)) else none := by
  induction count with
  | zero => simp [rows]
  | succ count ih =>
      by_cases hsame : count = id
      · subst hsame
        simp [rows]
      · have hlt : id < count + 1 ↔ id < count :=
          Nat.lt_succ_iff_lt_or_eq.trans (or_iff_left (Ne.symm hsame))
        simp [rows, Std.ExtTreeMap.getElem?_insert, hsame, ih, hlt]

theorem files_notes (count : Nat) :
    (files count).Current ∧ ∀ id, liveNote ((files count).tree.mergeNote id) =
      if id < count then some (note id) else none := by
  induction count with
  | zero => exact ⟨IndexedTree.current_empty "A", fun id => rfl⟩
  | succ count ih =>
      obtain ⟨hcurrent, hnotes⟩ := ih
      obtain ⟨-, hafter, hmerge, hothers⟩ := hcurrent.upsert place (note count) 0 rfl
      refine ⟨hafter, fun id => ?_⟩
      by_cases hsame : id = count
      · subst hsame
        rw [if_pos (Nat.lt_succ_self id)]
        exact liveNote_eq_some.mpr ⟨hmerge, rfl⟩
      · have hlt : id < count + 1 ↔ id < count :=
          Nat.lt_succ_iff_lt_or_eq.trans (or_iff_left hsame)
        simp only [hlt, ← hnotes]
        exact congrArg liveNote (hothers id hsame)

theorem mem_rows_inbox {count : Nat} {item : Keyed Uuid} :
    item ∈ (rows count).inbox ↔ item.id < count ∧ item.key = 1 := by
  rw [Db.mem_inbox, rows_notes]
  constructor
  · rintro ⟨row, hrow, -, -, hkey⟩
    split at hrow
    · next hlt =>
        obtain rfl := Option.some.inj hrow
        exact ⟨hlt, hkey.symm⟩
    · contradiction
  · rintro ⟨hlt, hkey⟩
    exact ⟨_, if_pos hlt, rfl, rfl, hkey.symm⟩

theorem mem_files_inbox {count : Nat} {item : Keyed Uuid} :
    item ∈ (files count).inbox ↔ item.id < count ∧ item.key = 1 := by
  obtain ⟨hcurrent, hnotes⟩ := files_notes count
  rw [hcurrent.mem_inbox, hnotes]
  constructor
  · rintro ⟨found, hfound, -, hkey⟩
    split at hfound
    · next hlt =>
        obtain rfl := Option.some.inj hfound
        exact ⟨hlt, hkey.symm⟩
    · contradiction
  · rintro ⟨hlt, hkey⟩
    exact ⟨_, if_pos hlt, rfl, hkey.symm⟩

section Inbox

variable {inbox : List (Keyed Uuid)} {count : Nat}

theorem length_inbox (hinbox : Ordered inbox)
    (hmem : ∀ item, item ∈ inbox ↔ item.id < count ∧ item.key = 1) : inbox.length = count := by
  have hids : (inbox.map Keyed.id).Perm (List.range count) := by
    rw [List.perm_ext_iff_of_nodup hinbox.ids List.nodup_range]
    intro id
    rw [List.mem_map, List.mem_range]
    constructor
    · rintro ⟨item, hitem, rfl⟩
      exact ((hmem item).mp hitem).1
    · intro hlt
      exact ⟨⟨1, id⟩, (hmem _).mpr ⟨hlt, rfl⟩, rfl⟩
  rw [← List.length_map Keyed.id, hids.length_eq, List.length_range]

theorem keys_inbox (hmem : ∀ item, item ∈ inbox ↔ item.id < count ∧ item.key = 1) :
    ∀ item ∈ inbox, item.key ≤ SORT_KEY_MAX := by
  intro item hitem
  rw [((hmem item).mp hitem).2]
  decide

/-- One page is always spread. -/
theorem spread_inbox (hinbox : Ordered inbox)
    (hmem : ∀ item, item ∈ inbox ↔ item.id < count ∧ item.key = 1)
    (hcount : count ≤ DEFAULT_PAGE_SIZE) :
    RESEQUENCE_STEP * inbox.length ≤ SORT_KEY_MAX ∧
      Spread DEFAULT_PAGE_SIZE RESEQUENCE_STEP inbox := by
  have hlength := length_inbox hinbox hmem
  simp only [DEFAULT_PAGE_SIZE, RESEQUENCE_STEP, SORT_KEY_MAX] at hcount ⊢
  refine ⟨by omega, fun page hpage last hlast => ?_⟩
  obtain rfl : page = 0 := by omega
  simp at hlast

/-- The new keys of the first page are past the old key of its last note. -/
theorem not_spread_inbox (hinbox : Ordered inbox)
    (hmem : ∀ item, item ∈ inbox ↔ item.id < count ∧ item.key = 1)
    (hcount : DEFAULT_PAGE_SIZE < count) :
    ¬ Spread DEFAULT_PAGE_SIZE RESEQUENCE_STEP inbox := by
  intro hspread
  have hlength := length_inbox hinbox hmem
  have hnonempty : inbox.take (DEFAULT_PAGE_SIZE * 1) ≠ [] := by
    rw [Ne, List.take_eq_nil_iff, not_or, ← List.length_eq_zero_iff]
    simp only [DEFAULT_PAGE_SIZE] at hcount ⊢
    omega
  have hlast := hspread 1 (by rwa [Nat.mul_one, hlength]) _
    (List.getLast?_eq_getLast_of_ne_nil hnonempty)
  have hkey := ((hmem _).mp (List.mem_of_mem_take (List.getLast_mem hnonempty))).2
  rw [hkey] at hlast
  exact absurd hlast (by decide)

end Inbox

theorem resequenceInbox_one_page :
    Resequences Db.noteRepository (fun _ => 0) Db.inbox (rows 3) ∧
      Resequences (IndexedTree.noteRepository place) (fun _ => 0) IndexedTree.inbox (files 3) :=
  ⟨((resequenceInbox_iff_spread (fun _ => 0) place).1 (rows 3)
      (keys_inbox fun _ => mem_rows_inbox)).mpr
      (spread_inbox (rows 3).ordered_inbox (fun _ => mem_rows_inbox) (by decide)),
    ((resequenceInbox_iff_spread (fun _ => 0) place).2 (files 3) (files_notes 3).1
      (keys_inbox fun _ => mem_files_inbox)).mpr
      (spread_inbox (files_notes 3).1.ordered_inbox (fun _ => mem_files_inbox) (by decide))⟩

/-- The second page of 101 notes starts behind notes of the first. -/
theorem resequenceInbox_visits_again :
    ¬ Resequences Db.noteRepository (fun _ => 0) Db.inbox (rows 101) ∧
      ¬ Resequences (IndexedTree.noteRepository place) (fun _ => 0) IndexedTree.inbox
        (files 101) := by
  constructor
  · rw [Db.keepsInbox.resequences_iff trivial (keys_inbox fun _ => mem_rows_inbox)]
    rintro ⟨-, hspread⟩
    exact not_spread_inbox (rows 101).ordered_inbox (fun _ => mem_rows_inbox) (by decide) hspread
  · rw [(IndexedTree.keepsInbox place).resequences_iff (files_notes 101).1
      (keys_inbox fun _ => mem_files_inbox)]
    rintro ⟨-, hspread⟩
    exact not_spread_inbox (files_notes 101).1.ordered_inbox (fun _ => mem_files_inbox)
      (by decide) hspread

end InboxWitness

end Keeplin
