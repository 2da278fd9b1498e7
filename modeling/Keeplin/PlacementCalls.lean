/-
The calls that give a note its place: a new note, a note moved to another notebook,
and the resequencing of the Inbox where there is no room on top of it.
-/
import Keeplin.NotePlacement

namespace Keeplin

/-- What a call reads of the clock, and how many pages of the Inbox it lists at
most; one that has more to resequence does not return. -/
structure CallClock where
  ts : DateTime
  now : DateTime
  resequence : Nat → DateTime
  pages : Nat

/-- The check of the notes of a notebook, for any cap. -/
def checkCapacity (cap liveNotes : Nat) : Except LimitViolation Unit :=
  if cap ≤ liveNotes then .error (.notebookFull liveNotes) else .ok ()

theorem checkNotebookCapacity_eq : checkNotebookCapacity = checkCapacity MAX_NOTES_PER_NOTEBOOK :=
  rfl

namespace NoteStore

variable {S : Type} (backend : NoteStore S) (cap : Nat) (clock : CallClock)

def placeNewNote (note : Note) (store : S) : Option (S × Except StorageError Note) :=
  if note.sortKey ≠ 0 then some (store, .ok note)
  else
    match backend.notebookSortProfile note.notebookId store with
    | (store, .error failure) => some (store, .error failure)
    | (store, .ok profile) =>
        match checkCapacity cap profile.liveNotes with
        | .error violation => some (store, .error (.tooLarge violation))
        | .ok () =>
            if isInbox note.notebookId then
              match profile.minKey with
              | some min =>
                  if min ≤ 1 then
                    (resequenceInbox backend.toNoteRepository clock.resequence clock.pages
                      store).map fun done =>
                        (done.1, done.2.map fun first => { note with sortKey := first.1 - 1 })
                  else some (store, .ok { note with sortKey := min - 1 })
              | none => some (store, .ok { note with sortKey := NORMAL_START })
            else some (store, .ok { note with sortKey := nextNormalKey profile })

def readLiveNote (id : Uuid) (store : S) : Except StorageError Note :=
  match backend.readNote id store with
  | .error failure => .error failure
  | .ok note => if note.deletedAt.isSome then .error (.notFound id) else .ok note

def reconcileNotebookMove (currentNotebookId : Uuid) (note : Note) (store : S) :
    Option (S × Except StorageError Note) :=
  if note.notebookId = currentNotebookId then some (store, .ok note)
  else backend.placeNewNote cap clock { note with isPinned := false, sortKey := 0 } store

/-- A client's new note: it is placed and then created. -/
def createPlaced (note : Note) (store : S) : Option (S × Except StorageError Note) :=
  (backend.placeNewNote cap clock note store).map fun
    | (store, .error failure) => (store, .error failure)
    | (store, .ok note) => backend.createNote note clock.now store

/-- A client's update: the note is placed anew if it moves, and then written. -/
def updatePlaced (id : Uuid) (note : Note) (store : S) : Option (S × Except StorageError Note) :=
  match backend.readLiveNote id store with
  | .error failure => some (store, .error failure)
  | .ok stored =>
      let note := { note with id := id }
      match checkBody note.body with
      | .error violation => some (store, .error (.tooLarge violation))
      | .ok () =>
          (backend.reconcileNotebookMove cap clock stored.notebookId note store).map fun
            | (store, .error failure) => (store, .error failure)
            | (store, .ok note) =>
                backend.updateNote { note with updatedAt := clock.now } clock.now store

end NoteStore

/-- A note keeps its notebook and its pin, and outside the Inbox its key; no note
comes or goes. -/
structure Shifts {S : Type} (live : S → List Placement) (store after : S) : Prop where
  came : ∀ item ∈ live after, ∃ before ∈ live store, before.id = item.id ∧
    before.notebookId = item.notebookId ∧ before.isPinned = item.isPinned ∧
    (item.sortKey = before.sortKey ∨ (item.notebookId = INBOX_ID ∧ 1 ≤ item.sortKey))
  kept : ∀ before ∈ live store, ∃ item ∈ live after,
    item.id = before.id ∧ item.notebookId = before.notebookId

section Shifts

variable {S : Type} {live : S → List Placement} {ready : S → Prop} {backend : NoteStore S}
  {store middle after : S} {note : Note}

theorem Stays.shifts (hstays : Stays live store after) : Shifts live store after where
  came item hitem := ⟨item, (hstays item).mp hitem, rfl, rfl, rfl, .inl rfl⟩
  kept before hbefore := ⟨before, (hstays before).mpr hbefore, rfl, rfl⟩

theorem Shifts.trans (hfirst : Shifts live store middle) (hsecond : Shifts live middle after) :
    Shifts live store after where
  came item hitem := by
    obtain ⟨between, hbetween, hid, hnotebook, hpinned, hkey⟩ := hsecond.came item hitem
    obtain ⟨before, hbefore, hid', hnotebook', hpinned', hkey'⟩ := hfirst.came between hbetween
    refine ⟨before, hbefore, hid'.trans hid, hnotebook'.trans hnotebook, hpinned'.trans hpinned, ?_⟩
    rcases hkey with hkey | hkey
    · rw [hkey, ← hnotebook]
      exact hkey'
    · exact .inr hkey
  kept before hbefore := by
    obtain ⟨between, hbetween, hid, hnotebook⟩ := hfirst.kept before hbefore
    obtain ⟨item, hitem, hid', hnotebook'⟩ := hsecond.kept between hbetween
    exact ⟨item, hitem, hid'.trans hid, hnotebook'.trans hnotebook⟩

/-- A note of the Inbox is written with another key. -/
theorem Places.shifts {next : Nat} (hids : ((live store).map Placement.id).Nodup)
    (hnotebook : note.notebookId = INBOX_ID) (hlive : note.deletedAt = none)
    (hheld : note.placement ∈ live store)
    (hplaces : Places live { note with sortKey := next } store after) :
    Shifts live store after where
  came item hitem := by
    rcases (hplaces item).mp hitem with ⟨rfl, -⟩ | ⟨-, hold⟩
    · refine ⟨note.placement, hheld, rfl, rfl, rfl, .inr ⟨hnotebook, ?_⟩⟩
      exact Note.effectiveSortKey_pos _
    · exact ⟨item, hold, rfl, rfl, rfl, .inl rfl⟩
  kept before hbefore := by
    by_cases hid : before.id = note.id
    · obtain rfl : before = note.placement :=
        List.inj_on_of_nodup_map hids hbefore hheld hid
      exact ⟨_, (hplaces _).mpr (.inl ⟨rfl, hlive⟩), rfl, rfl⟩
    · exact ⟨before, (hplaces before).mpr (.inr ⟨hid, hbefore⟩), rfl, rfl⟩

/-- A page of the Inbox is rewritten note by note. -/
theorem KeepsPlacements.resequencePage (hkeeps : KeepsPlacements live backend ready)
    {clock : Nat → DateTime} {notes : List Note} {next count : Nat}
    {result : Except StorageError Nat} (hready : ready store)
    (hids : (notes.map Note.id).Nodup)
    (hnotes : ∀ note ∈ notes, note.notebookId = INBOX_ID ∧ note.deletedAt = none ∧
      note.placement ∈ live store)
    (hpage : Keeplin.resequencePage backend.toNoteRepository clock notes next count store =
      (after, result)) :
    ready after ∧ Shifts live store after := by
  induction notes generalizing next count store with
  | nil =>
      obtain ⟨rfl, rfl⟩ := Prod.mk.inj hpage
      exact ⟨hready, (Stays.refl store).shifts⟩
  | cons note rest ih =>
      obtain ⟨hnotMem, hrestIds⟩ := List.nodup_cons.mp hids
      obtain ⟨hnotebook, hlive, hheld⟩ := hnotes note List.mem_cons_self
      simp only [Keeplin.resequencePage] at hpage
      split at hpage
      · have hdone := hkeeps.update store { note with sortKey := next } (clock count) hready
        have hmoved : ∀ {middle}, Places live { note with sortKey := next } store middle →
            Shifts live store middle := fun hplaces =>
          hplaces.shifts (hkeeps.ids store hready) hnotebook hlive hheld
        split at hpage
        · next middle failure hupdate =>
            obtain ⟨rfl, rfl⟩ := Prod.mk.inj hpage
            rw [hupdate] at hdone
            refine ⟨hdone.ready, ?_⟩
            exact hdone.cases.elim hmoved Stays.shifts
        · next middle updated hupdate =>
            rw [hupdate] at hdone
            obtain ⟨hmiddle, hplaces⟩ := hdone
            obtain ⟨hafter, hshifts⟩ := ih hmiddle hrestIds
              (fun other hother => by
                obtain ⟨hin, hlives, hholds⟩ := hnotes other (List.mem_cons_of_mem _ hother)
                refine ⟨hin, hlives, (hplaces _).mpr (.inr ⟨?_, hholds⟩)⟩
                exact fun heq => hnotMem (heq ▸ List.mem_map_of_mem hother)) hpage
            exact ⟨hafter, (hmoved hplaces).trans hshifts⟩
      · exact ih hready hrestIds
          (fun other hother => hnotes other (List.mem_cons_of_mem _ hother)) hpage

theorem KeepsPlacements.resequencePages (hkeeps : KeepsPlacements live backend ready)
    {clock : Nat → DateTime} {fuel : Nat} {token : Option (Keyed Uuid)} {next : Nat}
    {visited : List Uuid} {result : Except StorageError (Nat × List Uuid)} (hready : ready store)
    (hpages : Keeplin.resequencePages backend.toNoteRepository clock fuel token next visited
      store = some (after, result)) :
    ready after ∧ Shifts live store after ∧ ∀ done, result = .ok done →
      done.1 = RESEQUENCE_STEP := by
  induction fuel generalizing token next visited store with
  | zero => cases hpages
  | succ fuel ih =>
      obtain ⟨listed, notes, more, hlist, hlisted, hstays, hids, hnotes⟩ :=
        hkeeps.list store token hready
      simp only [Keeplin.resequencePages, hlist] at hpages
      split at hpages
      · next middle failure hpage =>
          obtain ⟨rfl, rfl⟩ := Prod.mk.inj (Option.some.inj hpages)
          obtain ⟨hmiddle, hshifts⟩ := hkeeps.resequencePage hlisted hids
            (fun note hnote => (hnotes note hnote).imp id (.imp id (hstays _).mpr)) hpage
          exact ⟨hmiddle, hstays.shifts.trans hshifts, fun done heq => by cases heq⟩
      · next middle following hpage =>
          obtain ⟨hmiddle, hshifts⟩ := hkeeps.resequencePage hlisted hids
            (fun note hnote => (hnotes note hnote).imp id (.imp id (hstays _).mpr)) hpage
          have hmoved := hstays.shifts.trans hshifts
          cases more with
          | some last =>
              obtain ⟨hafter, hrest, hstep⟩ := ih hmiddle hpages
              exact ⟨hafter, hmoved.trans hrest, hstep⟩
          | none =>
              obtain ⟨rfl, rfl⟩ := Prod.mk.inj (Option.some.inj hpages)
              exact ⟨hmiddle, hmoved, fun done heq => by rw [← Except.ok.inj heq]⟩

variable (live) in
/-- The live notes of a notebook. -/
def occupants (notebookId : Uuid) (store : S) : List Uuid :=
  ((live store).filter fun item => item.notebookId = notebookId).map Placement.id

theorem nextNormalKey_fromEffectiveKeys {keys : List Nat} (hkeys : ∀ key ∈ keys, 0 < key) :
    NORMAL_START ≤ nextNormalKey (.fromEffectiveKeys keys) := by
  simp only [nextNormalKey, NotebookSortProfile.fromEffectiveKeys]
  cases hmax : (keys.filter fun key => !decide (1 ≤ key ∧ key < 1000)).max? with
  | none => exact le_refl _
  | some max =>
      obtain ⟨hmem, hnormal⟩ := List.mem_filter.mp (List.max?_mem hmax)
      have hpositive := hkeys max hmem
      simp only [Bool.not_eq_true', decide_eq_false_iff_not] at hnormal
      simp only [Option.map_some, Option.getD_some, NORMAL_START, Note.DEFAULT_SORT_KEY,
        SORT_KEY_MAX]
      omega

/-- The keys of a notebook's profile are positive. -/
theorem KeepsPlacements.keys_pos (hkeeps : KeepsPlacements live backend ready)
    (hready : ready store) {notebookId : Uuid} {keys : List Nat}
    (hperm : keys.Perm (((live store).filter fun item => item.notebookId = notebookId).map
      Placement.sortKey)) : ∀ key ∈ keys, 0 < key := by
  intro key hkey
  obtain ⟨item, hitem, rfl⟩ := List.mem_map.mp (hperm.mem_iff.mp hkey)
  exact hkeeps.keys store hready item (List.mem_of_mem_filter hitem)

/-- A note keeps a key it has; one without gets a key of its notebook's band where
the notebook is below the cap. -/
theorem KeepsPlacements.placeNewNote (hkeeps : KeepsPlacements live backend ready) {cap : Nat}
    {clock : CallClock} {result : Except StorageError Note} (hready : ready store)
    (hplace : backend.placeNewNote cap clock note store = some (after, result)) :
    ready after ∧ Shifts live store after ∧ ∀ placed, result = .ok placed →
      ∃ key, placed = { note with sortKey := key } ∧
        ((note.sortKey ≠ 0 ∧ key = note.sortKey) ∨
          ((occupants live note.notebookId store).length < cap ∧ 0 < key ∧
            (isInbox note.notebookId = false → NORMAL_START ≤ key))) := by
  simp only [NoteStore.placeNewNote] at hplace
  split at hplace
  · next hkey =>
      obtain ⟨rfl, rfl⟩ := Prod.mk.inj (Option.some.inj hplace)
      refine ⟨hready, (Stays.refl store).shifts, fun placed heq => ?_⟩
      obtain rfl := Except.ok.inj heq
      exact ⟨note.sortKey, rfl, .inl ⟨hkey, rfl⟩⟩
  obtain ⟨middle, keys, hprofile, hmiddle, hstays, hperm⟩ :=
    hkeeps.profile store note.notebookId hready
  have hkeys := hkeeps.keys_pos hready hperm
  simp only [hprofile] at hplace
  split at hplace
  · obtain ⟨rfl, rfl⟩ := Prod.mk.inj (Option.some.inj hplace)
    exact ⟨hmiddle, hstays.shifts, fun placed heq => by cases heq⟩
  · next hcapacity =>
      have hroom : (occupants live note.notebookId store).length < cap := by
        have hlength : (occupants live note.notebookId store).length = keys.length := by
          rw [occupants, List.length_map, hperm.length_eq, List.length_map]
        rw [hlength]
        simpa [checkCapacity, NotebookSortProfile.fromEffectiveKeys] using hcapacity
      have hplaced : ∀ (key : Nat) {result : Except StorageError Note}, 0 < key →
          (isInbox note.notebookId = false → NORMAL_START ≤ key) →
          (∀ placed, result = .ok placed → placed = { note with sortKey := key }) →
          ∀ placed, result = .ok placed → ∃ key, placed = { note with sortKey := key } ∧
            ((note.sortKey ≠ 0 ∧ key = note.sortKey) ∨
              ((occupants live note.notebookId store).length < cap ∧ 0 < key ∧
                (isInbox note.notebookId = false → NORMAL_START ≤ key))) :=
        fun key _ hpositive hnormal hresult placed heq =>
          ⟨key, hresult placed heq, .inr ⟨hroom, hpositive, hnormal⟩⟩
      split at hplace
      · next hinbox =>
          have hnormal : ∀ key, isInbox note.notebookId = false → NORMAL_START ≤ key :=
            fun key hnot => by rw [hinbox] at hnot; contradiction
          split at hplace
          · next min hmin =>
              split at hplace
              · obtain ⟨done, hdone, heq⟩ := Option.map_eq_some_iff.mp hplace
                obtain ⟨rfl, rfl⟩ := Prod.mk.inj heq
                obtain ⟨hafter, hshifts, hstep⟩ := hkeeps.resequencePages hmiddle hdone
                refine ⟨hafter, hstays.shifts.trans hshifts,
                  hplaced (RESEQUENCE_STEP - 1) (by decide) (hnormal _) ?_⟩
                intro placed heq
                obtain ⟨first, hfirst, rfl⟩ := exists_of_map_ok heq
                rw [hstep first hfirst]
              · next hlarge =>
                  obtain ⟨rfl, rfl⟩ := Prod.mk.inj (Option.some.inj hplace)
                  exact ⟨hmiddle, hstays.shifts, hplaced (min - 1) (by omega) (hnormal _)
                    fun placed heq => (Except.ok.inj heq).symm⟩
          · obtain ⟨rfl, rfl⟩ := Prod.mk.inj (Option.some.inj hplace)
            exact ⟨hmiddle, hstays.shifts, hplaced NORMAL_START (by decide) (hnormal _)
              fun placed heq => (Except.ok.inj heq).symm⟩
      · obtain ⟨rfl, rfl⟩ := Prod.mk.inj (Option.some.inj hplace)
        have hstart := nextNormalKey_fromEffectiveKeys hkeys
        exact ⟨hmiddle, hstays.shifts, hplaced _ (lt_of_lt_of_le (by decide) hstart)
          (fun _ => hstart) fun placed heq => (Except.ok.inj heq).symm⟩

theorem readLiveNote_eq_ok {id : Uuid} {stored : Note} :
    backend.readLiveNote id store = .ok stored ↔
      backend.readNote id store = .ok stored ∧ stored.deletedAt = none := by
  unfold NoteStore.readLiveNote
  cases backend.readNote id store with
  | error failure => simp
  | ok found =>
      cases hdeleted : found.deletedAt with
      | none =>
          simp only [hdeleted, Option.isSome_none, Bool.false_eq_true, ↓reduceIte, Except.ok.injEq]
          exact ⟨fun heq => ⟨heq, heq ▸ hdeleted⟩, And.left⟩
      | some ts =>
          simp only [hdeleted, Option.isSome_some, ↓reduceIte, reduceCtorEq, Except.ok.injEq,
            false_iff, not_and]
          rintro rfl hlive
          rw [hdeleted] at hlive
          contradiction

/-- A note is created in the place it was given. -/
theorem KeepsPlacements.createPlaced (hkeeps : KeepsPlacements live backend ready) {cap : Nat}
    {clock : CallClock} {result : Except StorageError Note} (hready : ready store)
    (hcreate : backend.createPlaced cap clock note store = some (after, result)) :
    ready after ∧ ∃ middle, ready middle ∧ Shifts live store middle ∧ (Stays live middle after ∨
      ∃ key, Places live { note with sortKey := key } middle after ∧
        ((note.sortKey ≠ 0 ∧ key = note.sortKey) ∨
          ((occupants live note.notebookId store).length < cap ∧ 0 < key ∧
            (isInbox note.notebookId = false → NORMAL_START ≤ key)))) := by
  obtain ⟨⟨middle, placed⟩, hplace, hdone⟩ := Option.map_eq_some_iff.mp hcreate
  obtain ⟨hmiddle, hshifts, hkey⟩ := hkeeps.placeNewNote hready hplace
  cases placed with
  | error failure =>
      obtain ⟨rfl, rfl⟩ := Prod.mk.inj hdone
      exact ⟨hmiddle, middle, hmiddle, hshifts, .inl (Stays.refl middle)⟩
  | ok placed =>
      obtain ⟨key, rfl, hgiven⟩ := hkey placed rfl
      have hwritten := hkeeps.create middle { note with sortKey := key } clock.now hmiddle
      simp only at hdone
      rw [hdone] at hwritten
      refine ⟨hwritten.ready, middle, hmiddle, hshifts, ?_⟩
      exact hwritten.cases.elim (fun hplaces => .inr ⟨key, hplaces, hgiven⟩) .inl

/-- An update in the notebook of the note writes what the client sent. -/
theorem KeepsPlacements.updatePlaced_same (hkeeps : KeepsPlacements live backend ready)
    (cap : Nat) (clock : CallClock) {id : Uuid} {stored : Note} (hready : ready store)
    (hstored : backend.readLiveNote id store = .ok stored) (hbody : checkBody note.body = .ok ())
    (hsame : note.notebookId = stored.notebookId) :
    ∃ after updated,
      backend.updatePlaced cap clock id note store = some (after, .ok updated) ∧ ready after ∧
        Places live { note with id := id, updatedAt := clock.now } store after := by
  obtain ⟨hread, hlive⟩ := readLiveNote_eq_ok.mp hstored
  obtain ⟨after, updated, hupdate⟩ := hkeeps.updates store
    { note with id := id, updatedAt := clock.now } clock.now stored hready hread hlive
  have hwritten := hkeeps.update store { note with id := id, updatedAt := clock.now } clock.now
    hready
  rw [hupdate] at hwritten
  refine ⟨after, updated, ?_, hwritten⟩
  simp only [NoteStore.updatePlaced, hstored, hbody, NoteStore.reconcileNotebookMove, if_pos hsame,
    Option.map_some, hupdate]

/-- An update that does not return moves the note. -/
theorem KeepsPlacements.moves_of_none (hkeeps : KeepsPlacements live backend ready)
    {cap : Nat} {clock : CallClock} {id : Uuid} (hready : ready store)
    (hupdate : backend.updatePlaced cap clock id note store = none) {stored : Note}
    (hstored : backend.readLiveNote id store = .ok stored) (hbody : checkBody note.body = .ok ()) :
    note.notebookId ≠ stored.notebookId := by
  intro hnotebook
  obtain ⟨written, updated, hwrites, -⟩ :=
    hkeeps.updatePlaced_same cap clock hready hstored hbody hnotebook
  rw [hwrites] at hupdate
  contradiction

/-- Any other update leaves the notes, or moves one where there is room. -/
theorem KeepsPlacements.updatePlaced_moved (hkeeps : KeepsPlacements live backend ready)
    {cap : Nat} {clock : CallClock} {id : Uuid} {result : Except StorageError Note}
    (hready : ready store)
    (hmoved : ∀ stored, backend.readLiveNote id store = .ok stored → checkBody note.body = .ok () →
      note.notebookId ≠ stored.notebookId)
    (hupdate : backend.updatePlaced cap clock id note store = some (after, result)) :
    ready after ∧ ∃ middle, ready middle ∧ Shifts live store middle ∧ (Stays live middle after ∨
      ∃ key, Places live { note with
          id := id, isPinned := false, sortKey := key, updatedAt := clock.now } middle after ∧
        (occupants live note.notebookId store).length < cap ∧ 0 < key ∧
          (isInbox note.notebookId = false → NORMAL_START ≤ key)) := by
  simp only [NoteStore.updatePlaced] at hupdate
  split at hupdate
  · obtain ⟨rfl, rfl⟩ := Prod.mk.inj (Option.some.inj hupdate)
    exact ⟨hready, store, hready, (Stays.refl store).shifts, .inl (Stays.refl store)⟩
  next stored hstored =>
  split at hupdate
  · obtain ⟨rfl, rfl⟩ := Prod.mk.inj (Option.some.inj hupdate)
    exact ⟨hready, store, hready, (Stays.refl store).shifts, .inl (Stays.refl store)⟩
  next hbody =>
  obtain ⟨⟨middle, placed⟩, hplace, hdone⟩ := Option.map_eq_some_iff.mp hupdate
  rw [NoteStore.reconcileNotebookMove, if_neg (hmoved stored hstored hbody)] at hplace
  obtain ⟨hmiddle, hshifts, hkey⟩ := hkeeps.placeNewNote hready hplace
  cases placed with
  | error failure =>
      obtain ⟨rfl, rfl⟩ := Prod.mk.inj hdone
      exact ⟨hmiddle, middle, hmiddle, hshifts, .inl (Stays.refl middle)⟩
  | ok placed =>
      obtain ⟨key, rfl, hgiven⟩ := hkey placed rfl
      have hroom := hgiven.resolve_left fun hpositioned => hpositioned.1 rfl
      have hwritten := hkeeps.update middle { note with
        id := id, isPinned := false, sortKey := key, updatedAt := clock.now } clock.now hmiddle
      simp only at hdone
      rw [hdone] at hwritten
      refine ⟨hwritten.ready, middle, hmiddle, hshifts, ?_⟩
      exact hwritten.cases.elim (fun hplaces => .inr ⟨key, hplaces, hroom⟩) .inl

/-- An update writes a live note where it is, or leaves the notes, or moves one. -/
theorem KeepsPlacements.updatePlaced_cases (hkeeps : KeepsPlacements live backend ready)
    {cap : Nat} {clock : CallClock} {id : Uuid} {result : Except StorageError Note}
    (hready : ready store)
    (hupdate : backend.updatePlaced cap clock id note store = some (after, result)) :
    ready after ∧
      ((∃ stored, stored.id = id ∧ backend.readLiveNote id store = .ok stored ∧
          checkBody note.body = .ok () ∧ note.notebookId = stored.notebookId ∧
          stored.placement ∈ live store ∧
          Places live { note with id := id, updatedAt := clock.now } store after) ∨
        ((∀ stored, backend.readLiveNote id store = .ok stored → checkBody note.body = .ok () →
            note.notebookId ≠ stored.notebookId) ∧
          ∃ middle, ready middle ∧ Shifts live store middle ∧ (Stays live middle after ∨
            ∃ key, Places live { note with
                id := id, isPinned := false, sortKey := key, updatedAt := clock.now } middle after ∧
              (occupants live note.notebookId store).length < cap ∧ 0 < key ∧
              (isInbox note.notebookId = false → NORMAL_START ≤ key)))) := by
  by_cases hsame : ∃ stored, backend.readLiveNote id store = .ok stored ∧
      checkBody note.body = .ok () ∧ note.notebookId = stored.notebookId
  · obtain ⟨stored, hstored, hbody, hnotebook⟩ := hsame
    obtain ⟨written, updated, hwrites, hafter, hplaces⟩ :=
      hkeeps.updatePlaced_same cap clock hready hstored hbody hnotebook
    obtain ⟨rfl, rfl⟩ := Prod.mk.inj (Option.some.inj (hupdate.symm.trans hwrites))
    obtain ⟨hread, hlive⟩ := readLiveNote_eq_ok.mp hstored
    obtain ⟨hid, hheld⟩ := hkeeps.read store id stored hready hread
    exact ⟨hafter, .inl ⟨stored, hid, hstored, hbody, hnotebook, hheld hlive, hplaces⟩⟩
  · have hmoved : ∀ stored, backend.readLiveNote id store = .ok stored →
        checkBody note.body = .ok () → note.notebookId ≠ stored.notebookId :=
      fun stored hstored hbody hnotebook => hsame ⟨stored, hstored, hbody, hnotebook⟩
    obtain ⟨hafter, hdone⟩ := hkeeps.updatePlaced_moved hready hmoved hupdate
    exact ⟨hafter, .inr ⟨hmoved, hdone⟩⟩

end Shifts

end Keeplin
