/-
The key of a new note and of a note that is unpinned: behind every other note of its
notebook while the last key is free, and in the Inbox before every other.
-/
import Keeplin.OrderEdits
import Mathlib.Data.Finset.Order

namespace Keeplin

/-- Resequencing ends, and leaves room above the Inbox. -/
theorem KeepsInbox.resequenceInbox_ends {S : Type} {backend : NoteRepository S}
    {inbox : S → List (Keyed Uuid)} {ready : S → Prop} {holds : S → Note → Prop} {store : S}
    (hkeeps : KeepsInbox backend inbox ready holds) (hready : ready store) :
    ∃ pages, ∀ fuel, pages ≤ fuel → ∀ clock, ∃ after visited,
      resequenceInbox backend clock fuel store = some (after, .ok (RESEQUENCE_STEP, visited)) ∧
        ∀ item ∈ inbox after, RESEQUENCE_STEP ≤ item.key := by
  obtain ⟨high, hhigh⟩ := (SORT_KEY_MAX :: (inbox store).map Keyed.key).toFinset.exists_le
  have htop : SORT_KEY_MAX ≤ high := hhigh _ (by simp)
  have hordered := hkeeps.ordered store hready
  have hplaces : ∀ item ∈ inbox store,
      item ∈ keysBelow high ((inbox store).map Keyed.id).toFinset := by
    intro item hitem
    refine mem_keysBelow.mpr ⟨hhigh _ ?_, ?_⟩
    · exact List.mem_toFinset.mpr (List.mem_cons_of_mem _ (List.mem_map_of_mem hitem))
    · exact List.mem_toFinset.mpr (List.mem_map_of_mem hitem)
  refine ⟨(keysBelow high ((inbox store).map Keyed.id).toFinset).card + 1,
    fun fuel hfuel clock => ?_⟩
  obtain ⟨⟨final, ids⟩, hrun⟩ := renumber_ends RESEQUENCE_STEP
    (show 0 < DEFAULT_PAGE_SIZE by decide) htop hordered
    (Nat.le_trans (show RESEQUENCE_STEP ≤ SORT_KEY_MAX by decide) htop) hplaces
    (Nat.lt_of_le_of_lt (Finset.card_filter_le _ _) (Nat.lt_of_succ_le hfuel))
  have hsimulated := hkeeps.resequencePages clock fuel none [] hready
    (show 0 < RESEQUENCE_STEP by decide)
  rw [hrun] at hsimulated
  obtain ⟨after, hpages, rfl⟩ := hsimulated
  refine ⟨after, ids, hpages, ?_⟩
  exact le_renumber (by decide) (show RESEQUENCE_STEP ≤ SORT_KEY_MAX by decide) hordered
    (Nat.le_refl _) (fun item _ => .inr rfl) hrun

section Ends

variable {S : Type} {live : S → List Placement} {ready : S → Prop} {backend : NoteStore S}
  {store : S}

variable (live) in
/-- The key is that of a note placed last: it is above every key but the last there is. -/
def PlacedLast (notebookId : Uuid) (key : Nat) (store : S) : Prop :=
  key ≤ SORT_KEY_MAX ∧ ∀ item ∈ live store, item.notebookId = notebookId →
    (item.sortKey < key ↔ item.sortKey < SORT_KEY_MAX)

variable (live) in
/-- The key is that of a note placed on top of the Inbox. -/
def PlacedFirst (key : Nat) (store : S) : Prop :=
  1 ≤ key ∧ ∀ item ∈ live store, item.notebookId = INBOX_ID → key < item.sortKey

variable (live) in
/-- What a note that is placed gets: a key while there is room. -/
def placedNote (cap : Nat) (note : Note) (key : Nat) (store : S) : Except StorageError Note :=
  if (occupants live note.notebookId store).length < cap then .ok { note with sortKey := key }
  else .error (.tooLarge (.notebookFull (occupants live note.notebookId store).length))

variable (live) in
/-- New notes come last in a normal notebook and first in the Inbox, and a note that is
unpinned comes last. -/
structure PlacesAtEnds (backend : NoteStore S) (cap : Nat) (store : S) : Prop where
  last : ∀ clock note, note.sortKey = 0 → ¬ isInbox note.notebookId = true → ∃ after key,
    backend.placeNewNote cap clock note store =
        some (after, placedNote live cap note key store) ∧
      Stays live store after ∧ PlacedLast live note.notebookId key store
  first : ∃ pages, ∀ clock : CallClock, pages ≤ clock.pages → ∀ note, note.sortKey = 0 →
    isInbox note.notebookId = true → ∃ after key,
      backend.placeNewNote cap clock note store =
          some (after, placedNote live cap note key store) ∧
        Shifts live store after ∧
        ((occupants live note.notebookId store).length < cap → PlacedFirst live key after)
  unpinned : ∀ id now stored, backend.readLiveNote id store = .ok stored →
    stored.isPinned = true → ∃ after updated key,
      backend.editNote now id .unpinNote store = (after, .ok updated) ∧
        Places live { stored with isPinned := false, sortKey := key } store after ∧
        PlacedLast live stored.notebookId key store

theorem KeepsPlacements.profile_keys (hkeeps : KeepsPlacements live backend ready)
    (hready : ready store) (notebookId : Uuid) :
    ∃ middle keys, backend.notebookSortProfile notebookId store =
        (middle, .ok (.fromEffectiveKeys keys)) ∧
      ready middle ∧ Stays live store middle ∧ keys.Perm (keysIn live notebookId store) ∧
      keys.length = (occupants live notebookId store).length ∧ ∀ key ∈ keys, 0 < key := by
  obtain ⟨middle, keys, hprofile, hmiddle, hstays, hperm⟩ :=
    hkeeps.profile store notebookId hready
  refine ⟨middle, keys, hprofile, hmiddle, hstays, hperm, ?_, hkeeps.keys_pos hready hperm⟩
  rw [occupants, List.length_map, hperm.length_eq, List.length_map]

theorem placedLast_nextNormalKey {keys : List Nat} {notebookId : Uuid}
    (hperm : keys.Perm (keysIn live notebookId store)) (hkeys : ∀ key ∈ keys, 0 < key) :
    PlacedLast live notebookId (nextNormalKey (.fromEffectiveKeys keys)) store := by
  refine ⟨nextNormalKey_le, fun item hitem hnotebook => lt_nextNormalKey hkeys ?_⟩
  exact hperm.mem_iff.mpr (mem_keysIn.mpr ⟨item, hitem, hnotebook, rfl⟩)

theorem checkCapacity_profile {keys : List Nat} (cap : Nat) :
    checkCapacity cap (NotebookSortProfile.fromEffectiveKeys keys).liveNotes =
      if keys.length < cap then .ok () else .error (.notebookFull keys.length) := by
  change (if cap ≤ keys.length then _ else _) = _
  by_cases hroom : keys.length < cap
  · rw [if_pos hroom, if_neg (Nat.not_le.mpr hroom)]
  · rw [if_neg hroom, if_pos (Nat.not_lt.mp hroom)]
    rfl

theorem KeepsPlacements.places_last (hkeeps : KeepsPlacements live backend ready)
    (hready : ready store) (cap : Nat) (clock : CallClock) {note : Note}
    (hkey : note.sortKey = 0) (hnormal : ¬ isInbox note.notebookId = true) :
    ∃ after key, backend.placeNewNote cap clock note store =
        some (after, placedNote live cap note key store) ∧
      Stays live store after ∧ PlacedLast live note.notebookId key store := by
  obtain ⟨middle, keys, hprofile, -, hstays, hperm, hlength, hkeys⟩ :=
    hkeeps.profile_keys hready note.notebookId
  refine ⟨middle, nextNormalKey (.fromEffectiveKeys keys), ?_, hstays,
    placedLast_nextNormalKey hperm hkeys⟩
  simp only [NoteStore.placeNewNote, hkey, ne_eq, not_true_eq_false, if_false, hprofile,
    checkCapacity_profile, hlength, placedNote]
  by_cases hroom : (occupants live note.notebookId store).length < cap
  · simp only [if_pos hroom, if_neg hnormal]
  · simp only [if_neg hroom]

/-- What a backend that keeps the placements and the Inbox does with a new note of the
Inbox. -/
theorem KeepsPlacements.places_first (hkeeps : KeepsPlacements live backend ready)
    {inbox : S → List (Keyed Uuid)} {holds : S → Note → Prop}
    {listable : S → Prop} (hinbox : KeepsInbox backend.toNoteRepository inbox listable holds)
    (hlistable : ∀ store, ready store → listable store)
    (hlisted : ∀ store, ready store → ∀ item ∈ live store, item.notebookId = INBOX_ID →
      ⟨item.sortKey, item.id⟩ ∈ inbox store)
    (hready : ready store) (cap : Nat) :
    ∃ pages, ∀ clock : CallClock, pages ≤ clock.pages → ∀ note : Note, note.sortKey = 0 →
      isInbox note.notebookId = true → ∃ after key,
        backend.placeNewNote cap clock note store =
            some (after, placedNote live cap note key store) ∧
          Shifts live store after ∧
          ((occupants live note.notebookId store).length < cap → PlacedFirst live key after) := by
  obtain ⟨middle, keys, hprofile, hmiddle, hstays, hperm, hlength, hkeys⟩ :=
    hkeeps.profile_keys hready INBOX_ID
  obtain ⟨pages, hends⟩ := hinbox.resequenceInbox_ends (hlistable middle hmiddle)
  refine ⟨pages, fun clock hpages note hkey hin => ?_⟩
  suffices hplaced : ∃ after key, backend.placeNewNote cap clock note store =
      some (after, placedNote live cap note key store) ∧
        ((occupants live note.notebookId store).length < cap → PlacedFirst live key after) by
    obtain ⟨after, key, hplace, hfirst⟩ := hplaced
    exact ⟨after, key, hplace, (hkeeps.placeNewNote hready hplace).2.1, hfirst⟩
  have hnotebook : note.notebookId = INBOX_ID := by simpa [isInbox] using hin
  simp only [NoteStore.placeNewNote, hkey, ne_eq, not_true_eq_false, if_false, hnotebook, hprofile,
    checkCapacity_profile, hlength, placedNote]
  by_cases hroom : (occupants live INBOX_ID store).length < cap
  swap
  · simp only [if_neg hroom]
    exact ⟨middle, 0, rfl, fun hbelow => absurd hbelow hroom⟩
  simp only [if_pos hroom, if_pos (show isInbox INBOX_ID = true from rfl)]
  have hheld : ∀ item ∈ live middle, item.notebookId = INBOX_ID → item.sortKey ∈ keys :=
    fun item hitem hitemIn => hperm.mem_iff.mpr
      (mem_keysIn.mpr ⟨item, (hstays item).mp hitem, hitemIn, rfl⟩)
  cases hmin : (NotebookSortProfile.fromEffectiveKeys keys).minKey with
  | none =>
      have hempty : keys = [] := List.min?_eq_none_iff.mp hmin
      refine ⟨middle, NORMAL_START, rfl, fun _ => ⟨by decide, fun item hitem hitemIn => ?_⟩⟩
      have hmem := hheld item hitem hitemIn
      rw [hempty] at hmem
      cases hmem
  | some min =>
      obtain ⟨hminMem, hminLe⟩ := List.min?_eq_some_iff.mp hmin
      by_cases hlow : min ≤ 1
      · obtain ⟨after, visited, hrun, hkeysAfter⟩ := hends clock.pages hpages clock.resequence
        simp only [if_pos hlow, hrun, Option.map_some]
        refine ⟨after, RESEQUENCE_STEP - 1, rfl, fun _ => ⟨by decide, fun item hitem hitemIn => ?_⟩⟩
        have hready := (hkeeps.resequencePages hmiddle hrun).1
        have hkey := hkeysAfter _ (hlisted after hready item hitem hitemIn)
        exact Nat.lt_of_lt_of_le (by decide) hkey
      · simp only [if_neg hlow]
        refine ⟨middle, min - 1, rfl, fun _ => ⟨by omega, fun item hitem hitemIn => ?_⟩⟩
        have hkey := hminLe _ (hheld item hitem hitemIn)
        omega

theorem KeepsPlacements.places_unpinned (hkeeps : KeepsPlacements live backend ready)
    (hreads : ReadsPlacements live backend ready) (hready : ready store) {id : Uuid}
    (now : DateTime) {stored : Note} (hstored : backend.readLiveNote id store = .ok stored)
    (hpinned : stored.isPinned = true) :
    ∃ after updated key, backend.editNote now id .unpinNote store = (after, .ok updated) ∧
      Places live { stored with isPinned := false, sortKey := key } store after ∧
      PlacedLast live stored.notebookId key store := by
  have hedit : NoteEdit.orders .unpinNote := trivial
  obtain ⟨keys, hperm, hends⟩ := hkeeps.editNote_ends hreads hedit now hready hstored
  rw [NoteEdit.outcome_unpinNote, if_pos hpinned] at hends
  obtain ⟨⟨updated, hresult⟩, -, hplaces⟩ := hends
  refine ⟨_, updated, _, Prod.ext rfl hresult, hplaces, placedLast_nextNormalKey hperm ?_⟩
  intro key hkey
  obtain ⟨item, hitem, -, rfl⟩ := mem_keysIn.mp (hperm.mem_iff.mp hkey)
  exact hkeeps.keys store hready item hitem

/-- No call leaves a state that is not ready. -/
theorem KeepsPlacements.ready_placementStep (hkeeps : KeepsPlacements live backend ready)
    (hreads : ReadsPlacements live backend ready) {cap : Nat} {after : S}
    {action : CallClock × PlacementCall} (hready : ready store)
    (hstep : backend.placementStep cap store action = some after) : ready after := by
  obtain ⟨clock, call⟩ := action
  have hedits : ∀ (id : Uuid) (edit : NoteEdit), edit.orders →
      some (backend.editNote clock.now id edit store).1 = some after → ready after := by
    rintro id edit hedit heq
    obtain rfl := Option.some.inj heq
    cases hstored : backend.readLiveNote id store with
    | error failure =>
        rw [editNote_of_error clock.now hstored]
        exact hready
    | ok stored =>
        obtain ⟨keys, -, hends⟩ := hkeeps.editNote_ends hreads hedit clock.now hready hstored
        exact hends.cases.1
  cases call with
  | createNote note =>
      simp only [NoteStore.placementStep] at hstep
      obtain ⟨-, hcreate⟩ := Option.ite_none_right_eq_some.mp hstep
      obtain ⟨⟨done, result⟩, hcreated, rfl⟩ := Option.map_eq_some_iff.mp hcreate
      exact (hkeeps.createPlaced hready hcreated).1
  | pinNote id => exact hedits id .pinNote trivial hstep
  | unpinNote id => exact hedits id .unpinNote trivial hstep
  | reorderNote id newSortKey => exact hedits id (.reorderNote newSortKey) trivial hstep
  | starNote id => exact hedits id (.setStarred true) trivial hstep
  | unstarNote id => exact hedits id (.setStarred false) trivial hstep
  | deleteNote id =>
      obtain rfl := Option.some.inj hstep
      exact (hkeeps.delete store id clock.ts clock.now hready).ready
  | updateNote id note =>
      obtain ⟨⟨done, result⟩, hupdate, rfl⟩ := Option.map_eq_some_iff.mp hstep
      exact (hkeeps.updatePlaced_cases hready hupdate).1

/-- A state that the calls keep beside. -/
theorem KeepsPlacements.and_kept (hkeeps : KeepsPlacements live backend ready) {kept : S → Prop}
    (hprofile : ∀ store notebookId, kept store →
      kept (backend.notebookSortProfile notebookId store).1)
    (hlist : ∀ store token, kept store →
      kept (backend.listNotesInNotebook INBOX_ID 0 token store).1)
    (hcreate : ∀ store note now, kept store → kept (backend.createNote note now store).1)
    (hupdate : ∀ store note now, kept store → kept (backend.updateNote note now store).1)
    (hdelete : ∀ store id ts now, kept store → kept (backend.deleteNote id ts now store).1) :
    KeepsPlacements live backend fun store => ready store ∧ kept store where
  ids store hboth := hkeeps.ids store hboth.1
  keys store hboth := hkeeps.keys store hboth.1
  read store id note hboth := hkeeps.read store id note hboth.1
  profile store notebookId hboth := by
    obtain ⟨after, keys, hcall, hready, hrest⟩ := hkeeps.profile store notebookId hboth.1
    have hkept := hprofile store notebookId hboth.2
    rw [hcall] at hkept
    exact ⟨after, keys, hcall, ⟨hready, hkept⟩, hrest⟩
  list store token hboth := by
    obtain ⟨after, notes, more, hcall, hready, hrest⟩ := hkeeps.list store token hboth.1
    have hkept := hlist store token hboth.2
    rw [hcall] at hkept
    exact ⟨after, notes, more, hcall, ⟨hready, hkept⟩, hrest⟩
  create store note now hboth := by
    obtain ⟨hready, heffect⟩ := hkeeps.create store note now hboth.1
    exact ⟨⟨hready, hcreate store note now hboth.2⟩, heffect⟩
  update store note now hboth := by
    obtain ⟨hready, heffect⟩ := hkeeps.update store note now hboth.1
    exact ⟨⟨hready, hupdate store note now hboth.2⟩, heffect⟩
  updates store note now stored hboth := hkeeps.updates store note now stored hboth.1
  delete store id ts now hboth := by
    obtain ⟨hready, heffect⟩ := hkeeps.delete store id ts now hboth.1
    exact ⟨⟨hready, hdelete store id ts now hboth.2⟩, heffect⟩

end Ends

namespace Db

/-- Every live note is filed, as the migration of the ordering leaves it. -/
def FilesNotes (db : Db) : Prop :=
  ∀ (id : Uuid) (row : NoteRow), db.notes[id]? = some row → row.deletedAt = none →
    row.notebookId.isSome = true

variable {db after : Db} {id : Uuid} {row : NoteRow}

theorem FilesNotes.puts (hfiles : db.FilesNotes) (hnotes : after.notes = db.notes.insert id row)
    (hrow : row.deletedAt = none → row.notebookId.isSome = true) : after.FilesNotes := by
  intro other found hfound hlive
  rw [hnotes, Std.ExtTreeMap.getElem?_insert] at hfound
  split at hfound
  · obtain rfl := Option.some.inj hfound
    exact hrow hlive
  · exact hfiles other found hfound hlive

theorem keepsPlacements_filed
    (serverHistory : Uuid → Nat → Option (List (EntityVersion Note))) :
    KeepsPlacements placements (noteStore serverHistory) fun db => True ∧ db.FilesNotes := by
  refine (keepsPlacements serverHistory).and_kept ?_ ?_ ?_ ?_ ?_
  · exact fun _ _ hfiles => hfiles
  · exact fun _ _ hfiles => hfiles
  · intro db note now hfiles
    simp only [noteStore, createNote]
    split
    · next after stored hcreate =>
        split at hcreate
        · contradiction
        · cases hcreate
          exact hfiles.puts rfl fun _ => rfl
    · exact hfiles
  · intro db note now hfiles
    simp only [noteStore, noteRepository, updateNote]
    split
    · next after stored hupdate =>
        split at hupdate
        · contradiction
        · cases hupdate
          exact hfiles.puts (notes_restoreResources _ _ _) fun _ => rfl
    · exact hfiles
  · intro db id ts now hfiles
    simp only [noteStore, deleteNote]
    split
    · next after hdelete =>
        split at hdelete
        · contradiction
        · cases hdelete
          exact hfiles.puts rfl fun hlive => by cases hlive
    · exact hfiles

theorem FilesNotes.mem_inbox (hfiles : db.FilesNotes) {item : Placement}
    (hitem : item ∈ db.placements) (hnotebook : item.notebookId = INBOX_ID) :
    ⟨item.sortKey, item.id⟩ ∈ db.inbox := by
  obtain ⟨note, hheld, rfl⟩ := (shows_placements db item).mp hitem
  obtain ⟨hread, hlive⟩ := heldNote_eq_some.mp hheld
  obtain ⟨row, hrow, hnote⟩ := readNote_ok_iff.mp hread
  have hdeleted : row.deletedAt = none := by
    rw [← hnote] at hlive
    exact hlive
  obtain ⟨notebookId, hfiled⟩ := Option.isSome_iff_exists.mp (hfiles _ row hrow hdeleted)
  refine Db.mem_inbox.mpr ⟨row, hrow, ?_, hdeleted, congrArg Note.effectiveSortKey hnote⟩
  have hplaced : note.notebookId = INBOX_ID := hnotebook
  rw [← hnote, rowToNote, hfiled] at hplaced
  rw [hfiled]
  exact congrArg some hplaced

end Db

theorem IndexedTree.Current.mem_inbox_of_placement {store : IndexedTree}
    (hcurrent : store.Current) {item : Placement} (hitem : item ∈ store.placements)
    (hnotebook : item.notebookId = INBOX_ID) : ⟨item.sortKey, item.id⟩ ∈ store.inbox := by
  obtain ⟨note, hheld, rfl⟩ := (hcurrent.shows_placements item).mp hitem
  exact hcurrent.mem_inbox.mpr ⟨note, hheld, hnotebook, rfl⟩

/-- In either store, new notes and unpinned ones come at their end in every state that
the ordering calls reach. -/
theorem placesAtEnds_of_run (cap : Nat) :
    (∀ (serverHistory : Uuid → Nat → Option (List (EntityVersion Note))) (db reached : Db)
      (actions : List (CallClock × PlacementCall)), db.FilesNotes →
      runAll ((Db.noteStore serverHistory).placementStep cap) db actions = some reached →
      PlacesAtEnds Db.placements (Db.noteStore serverHistory) cap reached) ∧
      ∀ (place : Uuid → Nat) (store reached : IndexedTree)
        (actions : List (CallClock × PlacementCall)), store.Current →
        runAll ((IndexedTree.noteStore place).placementStep cap) store actions = some reached →
        PlacesAtEnds IndexedTree.placements (IndexedTree.noteStore place) cap reached := by
  constructor
  · intro serverHistory db reached actions hfiles hrun
    have hkeeps := Db.keepsPlacements_filed serverHistory
    have hreads : ReadsPlacements Db.placements (Db.noteStore serverHistory)
        fun db => True ∧ db.FilesNotes :=
      ⟨fun store item _ => (Db.readsPlacements serverHistory).found store item trivial⟩
    have hreached := runAll_invariant _ (fun _ _ _ => hkeeps.ready_placementStep hreads)
      ⟨trivial, hfiles⟩ hrun
    exact {
      last := fun clock note => hkeeps.places_last hreached cap clock
      first := hkeeps.places_first Db.keepsInbox (fun _ _ => trivial)
        (fun _ hready _ => hready.2.mem_inbox) hreached cap
      unpinned := fun id now stored => hkeeps.places_unpinned hreads hreached now }
  · intro place store reached actions hcurrent hrun
    have hkeeps := IndexedTree.keepsPlacements place
    have hreads := IndexedTree.readsPlacements place
    have hreached := runAll_invariant _ (fun _ _ _ => hkeeps.ready_placementStep hreads)
      hcurrent hrun
    exact {
      last := fun clock note => hkeeps.places_last hreached cap clock
      first := hkeeps.places_first (IndexedTree.keepsInbox place) (fun _ => id)
        (fun _ hready _ => hready.mem_inbox_of_placement) hreached cap
      unpinned := fun id now stored => hkeeps.places_unpinned hreads hreached now }

namespace EndsWitness

open InboxWitness BandWitness

theorem rows_filesNotes : (rows 1).FilesNotes := by
  intro id row hrow _
  rw [rows_notes] at hrow
  obtain ⟨-, heq⟩ := Option.ite_none_right_eq_some.mp hrow
  rw [← Option.some.inj heq]
  rfl

/-- A note of the Inbox that is moved and starred. -/
def moved : List (CallClock × PlacementCall) :=
  [(clock, .reorderNote 0 4294967295), (clock, .starNote 0)]

theorem placesAtEnds_moved :
    (∃ reached, runAll ((Db.noteStore noServer).placementStep 10) (rows 1) moved = some reached ∧
      PlacesAtEnds Db.placements (Db.noteStore noServer) 10 reached) ∧
      ∃ reached,
        runAll ((IndexedTree.noteStore place).placementStep 10) (files 1) moved = some reached ∧
        PlacesAtEnds IndexedTree.placements (IndexedTree.noteStore place) 10 reached :=
  ⟨⟨_, rfl, (placesAtEnds_of_run 10).1 noServer (rows 1) _ moved rows_filesNotes rfl⟩,
    _, rfl, (placesAtEnds_of_run 10).2 place (files 1) _ moved (files_notes 1).1 rfl⟩

/-- A new note of a normal notebook. -/
def fresh (id : Uuid) : Note := { note id with notebookId := 7, sortKey := 0 }

def lastKeyTaken : List (CallClock × PlacementCall) :=
  [(clock, .createNote (fresh 0)), (clock, .reorderNote 0 4294967295)]

theorem run_lastKeyTaken :
    (runAll ((Db.noteStore noServer).placementStep 10) (rows 0) lastKeyTaken).map (fun reached =>
        (reached.placements, ((Db.noteStore noServer).placeNewNote 10 clock (fresh 1) reached).map
          fun done => done.2.toOption)) =
      some ([⟨0, 7, false, 4294967295⟩],
        some (some { fresh 1 with sortKey := 4294967295 })) := by
  decide +kernel

/-- A new note gets the key of the note before it. -/
theorem placed_on_used_key :
    ∃ reached after placed, runAll ((Db.noteStore noServer).placementStep 10) (rows 0)
        lastKeyTaken = some reached ∧
      (Db.noteStore noServer).placeNewNote 10 clock (fresh 1) reached = some (after, .ok placed) ∧
      ∃ item ∈ reached.placements, item.id ≠ placed.id ∧ item.notebookId = placed.notebookId ∧
        ¬ item.sortKey < placed.sortKey := by
  obtain ⟨reached, hrun, hshown⟩ := Option.map_eq_some_iff.mp run_lastKeyTaken
  obtain ⟨hplacements, hplaced⟩ := Prod.mk.inj hshown
  obtain ⟨⟨after, result⟩, hcall, hresult⟩ := Option.map_eq_some_iff.mp hplaced
  cases result with
  | error failure => cases hresult
  | ok placed =>
      obtain rfl := Option.some.inj hresult
      refine ⟨reached, after, _, hrun, hcall, ⟨0, 7, false, 4294967295⟩, ?_, ?_⟩
      · rw [hplacements]
        exact List.mem_cons_self
      · decide

end EndsWitness

end Keeplin
