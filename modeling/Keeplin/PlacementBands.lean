/-
The bands of the manual order: in a normal notebook the pinned notes have the keys
1 to 999 and no other note has, and the notes of the Inbox are not pinned.  Which
calls of clients keep them.
-/
import Keeplin.PlacementCalls

namespace Keeplin

/-- The pin of a note and the band of its key tell the same. -/
def Placement.Banded (item : Placement) : Prop :=
  if isInbox item.notebookId then item.isPinned = false ∧ 1 ≤ item.sortKey
  else (item.isPinned = true ↔ 1 ≤ item.sortKey ∧ item.sortKey ≤ PIN_MAX)

instance (item : Placement) : Decidable item.Banded := by
  unfold Placement.Banded
  infer_instance

section Bands

variable {id notebookId : Uuid} {isPinned : Bool} {sortKey : Nat}

theorem banded_inbox (hinbox : isInbox notebookId = true) :
    (⟨id, notebookId, isPinned, sortKey⟩ : Placement).Banded ↔
      isPinned = false ∧ 1 ≤ sortKey := by
  rw [Placement.Banded, if_pos hinbox]

theorem banded_normal (hnormal : ¬ isInbox notebookId = true) :
    (⟨id, notebookId, isPinned, sortKey⟩ : Placement).Banded ↔
      (isPinned = true ↔ 1 ≤ sortKey ∧ sortKey ≤ PIN_MAX) := by
  rw [Placement.Banded, if_neg hnormal]

end Bands

def InBands {S : Type} (live : S → List Placement) (store : S) : Prop :=
  ∀ item ∈ live store, item.Banded

/-- The calls of clients that place notes, one after another. -/
inductive PlacementCall where
  | createNote (note : Note)
  | pinNote (id : Uuid)
  | unpinNote (id : Uuid)
  | reorderNote (id : Uuid) (newSortKey : Nat)
  | updateNote (id : Uuid) (note : Note)
  | starNote (id : Uuid)
  | unstarNote (id : Uuid)
  | deleteNote (id : Uuid)

namespace NoteStore

variable {S : Type} (backend : NoteStore S) (cap : Nat)

/-- An edit of one note with no other call between its steps. -/
def editNote (now : DateTime) (id : Uuid) (edit : NoteEdit) (store : S) :
    S × Except StorageError Note :=
  match backend.readLiveNote id store with
  | .error failure => (store, .error failure)
  | .ok stored =>
      match edit.checked stored with
      | .returns result => (store, result)
      | .writes note => backend.updateNote note now store
      | .places note =>
          match backend.notebookSortProfile note.notebookId store with
          | (store, .error failure) => (store, .error failure)
          | (store, .ok profile) =>
              match edit.placed profile (.ok ()) note with
              | .returns result => (store, result)
              | .writes note | .places note => backend.updateNote note now store

/-- The store after a call, if it returns.  A new note comes without a key and is
not pinned. -/
def placementStep (store : S) (action : CallClock × PlacementCall) : Option S :=
  let clock := action.1
  match action.2 with
  | .createNote note =>
      if note.sortKey = 0 ∧ note.isPinned = false then
        (backend.createPlaced cap clock note store).map Prod.fst
      else none
  | .pinNote id => some (backend.editNote clock.now id .pinNote store).1
  | .unpinNote id => some (backend.editNote clock.now id .unpinNote store).1
  | .reorderNote id newSortKey =>
      some (backend.editNote clock.now id (.reorderNote newSortKey) store).1
  | .updateNote id note => (backend.updatePlaced cap clock id note store).map Prod.fst
  | .starNote id => some (backend.editNote clock.now id (.setStarred true) store).1
  | .unstarNote id => some (backend.editNote clock.now id (.setStarred false) store).1
  | .deleteNote id => some (backend.deleteNote id clock.ts clock.now store).1

/-- An update that leaves the note in its notebook sends a pin and a key that tell
the same, unless it is refused or deletes the note. -/
def SendsBand (store : S) (action : CallClock × PlacementCall) : Prop :=
  match action.2 with
  | .updateNote id note => ∀ stored, backend.readLiveNote id store = .ok stored →
      checkBody note.body = .ok () → note.notebookId = stored.notebookId →
        note.deletedAt = none → note.placement.Banded
  | _ => True

end NoteStore

/-- The edits that keep a note in its notebook and set its pin, its star or its key. -/
def NoteEdit.orders : NoteEdit → Prop
  | .pinNote | .unpinNote | .setStarred _ | .reorderNote _ => True
  | _ => False

theorem banded_of_normal {n : Note} {key : Nat} (hpinned : n.isPinned = false)
    (hpositive : 0 < key) (hnormal : isInbox n.notebookId = false → NORMAL_START ≤ key) :
    ({ n with sortKey := key } : Note).placement.Banded := by
  have hkey : ({ n with sortKey := key } : Note).effectiveSortKey = key :=
    if_neg (Nat.pos_iff_ne_zero.mp hpositive)
  by_cases hinbox : isInbox n.notebookId = true
  · refine (banded_inbox hinbox).mpr ?_
    rw [hkey]
    exact ⟨hpinned, hpositive⟩
  · refine (banded_normal hinbox).mpr ?_
    have hstart := hnormal (Bool.eq_false_iff.mpr hinbox)
    simp only [NORMAL_START, Note.DEFAULT_SORT_KEY] at hstart
    rw [hkey, hpinned]
    refine iff_of_false Bool.false_ne_true ?_
    simp only [PIN_MAX]
    omega

theorem le_firstFree (candidate : Nat) (used : List Nat) :
    candidate ≤ firstFree candidate used := by
  induction used generalizing candidate with
  | nil => exact le_refl candidate
  | cons key rest ih =>
      simp only [firstFree]
      split
      · exact le_refl candidate
      · refine le_trans ?_ (ih _)
        split <;> omega

/-- A key from the free ones of the pinned band is in it. -/
theorem pinned_lowestFreePinnedKey {used : List Nat} {key : Nat}
    (hkey : lowestFreePinnedKey used = some key) : 1 ≤ key ∧ key ≤ PIN_MAX := by
  simp only [lowestFreePinnedKey] at hkey
  obtain ⟨hmax, heq⟩ := Option.ite_none_right_eq_some.mp hkey
  obtain rfl := Option.some.inj heq
  exact ⟨le_firstFree 1 used, hmax⟩

/-- A key of the band of a note keeps it in its band. -/
theorem banded_of_sortKeyBand {note : Note} {newSortKey : Nat} (hbanded : note.placement.Banded)
    (hband : (sortKeyBand note newSortKey).1 = true) :
    ({ note with sortKey := newSortKey } : Note).placement.Banded := by
  have hkey (hpositive : 0 < newSortKey) :
      ({ note with sortKey := newSortKey } : Note).effectiveSortKey = newSortKey :=
    if_neg (Nat.pos_iff_ne_zero.mp hpositive)
  simp only [sortKeyBand] at hband
  split at hband
  · next hinbox =>
      have hpositive := of_decide_eq_true hband
      refine (banded_inbox hinbox).mpr ?_
      rw [hkey hpositive]
      exact ⟨((banded_inbox hinbox).mp hbanded).1, hpositive⟩
  next hnormal =>
  refine (banded_normal hnormal).mpr ?_
  split at hband
  · next hpinned =>
      have hpinnedBand := of_decide_eq_true hband
      rw [hkey hpinnedBand.1]
      exact iff_of_true hpinned hpinnedBand
  · next hunpinned =>
      have hstart := of_decide_eq_true hband
      simp only [NORMAL_START, Note.DEFAULT_SORT_KEY] at hstart
      rw [hkey (by omega)]
      refine iff_of_false hunpinned ?_
      simp only [PIN_MAX]
      omega

theorem NoteEdit.banded_writes {edit : NoteEdit} {stored note : Note} (hedit : edit.orders)
    (hbanded : stored.placement.Banded) (hchecked : edit.checked stored = .writes note) :
    note.deletedAt = stored.deletedAt ∧ note.placement.Banded := by
  cases edit with
  | setStarred starred =>
      simp only [checked] at hchecked
      split at hchecked
      · contradiction
      · cases hchecked
        exact ⟨rfl, hbanded⟩
  | reorderNote newSortKey =>
      simp only [checked] at hchecked
      split at hchecked
      · contradiction
      next hband =>
      split at hchecked
      · contradiction
      · cases hchecked
        exact ⟨rfl, banded_of_sortKeyBand hbanded (by simpa using hband)⟩
  | pinNote =>
      simp only [checked] at hchecked
      split at hchecked
      · contradiction
      · split at hchecked <;> contradiction
  | unpinNote =>
      simp only [checked] at hchecked
      split at hchecked <;> contradiction
  | _ => contradiction

/-- A pin and its removal give a key of the new band. -/
theorem NoteEdit.banded_places {edit : NoteEdit} {stored note written : Note} {keys : List Nat}
    (hedit : edit.orders) (hkeys : ∀ key ∈ keys, 0 < key)
    (hchecked : edit.checked stored = .places note)
    (hplaced : (edit.placed (.fromEffectiveKeys keys) (.ok ()) note).note? = some written) :
    written.deletedAt = stored.deletedAt ∧ written.placement.Banded := by
  cases edit with
  | pinNote =>
      simp only [checked] at hchecked
      split at hchecked
      · contradiction
      next hnormal =>
      split at hchecked
      · contradiction
      · cases hchecked
        simp only [placed] at hplaced
        split at hplaced
        · contradiction
        · next key hkey =>
            cases hplaced
            obtain ⟨hpositive, hmax⟩ := pinned_lowestFreePinnedKey hkey
            have heffective : ({ stored with isPinned := true, sortKey := key } :
                Note).effectiveSortKey = key := if_neg (Nat.pos_iff_ne_zero.mp hpositive)
            refine ⟨rfl, (banded_normal hnormal).mpr ?_⟩
            rw [heffective]
            exact iff_of_true rfl ⟨hpositive, hmax⟩
  | unpinNote =>
      simp only [checked] at hchecked
      split at hchecked
      · cases hchecked
        cases hplaced
        have hstart := nextNormalKey_fromEffectiveKeys hkeys
        exact ⟨rfl, banded_of_normal (n := { stored with isPinned := false }) rfl
          (lt_of_lt_of_le (by decide) hstart) fun _ => hstart⟩
      · contradiction
  | setStarred starred =>
      simp only [checked] at hchecked
      split at hchecked <;> contradiction
  | reorderNote newSortKey =>
      simp only [checked] at hchecked
      split at hchecked
      · contradiction
      · split at hchecked <;> contradiction
  | _ => contradiction

section Calls

variable {S : Type} {live : S → List Placement} {ready : S → Prop} {backend : NoteStore S}
  {store middle after : S} {note : Note} {id : Uuid} {cap : Nat}

theorem InBands.stays (hbands : InBands live store) (hstays : Stays live store after) :
    InBands live after :=
  fun item hitem => hbands item ((hstays item).mp hitem)

theorem InBands.shifts (hbands : InBands live store) (hshifts : Shifts live store after) :
    InBands live after := by
  intro item hitem
  obtain ⟨⟨id, notebookId, isPinned, key⟩, hbefore, rfl, rfl, rfl, hkey⟩ :=
    hshifts.came item hitem
  have hbanded := hbands _ hbefore
  rcases hkey with rfl | ⟨hinbox, hpositive⟩
  · exact hbanded
  · have hin : isInbox item.notebookId = true := by simp [isInbox, hinbox]
    exact (banded_inbox hin).mpr ⟨((banded_inbox hin).mp hbanded).1, hpositive⟩

theorem InBands.places (hbands : InBands live store) (hplaces : Places live note store after)
    (hnote : note.deletedAt = none → note.placement.Banded) : InBands live after := by
  intro item hitem
  rcases (hplaces item).mp hitem with ⟨rfl, hlive⟩ | ⟨-, hold⟩
  · exact hnote hlive
  · exact hbands item hold

theorem KeepsPlacements.inBands_editNote (hkeeps : KeepsPlacements live backend ready)
    {edit : NoteEdit} (hedit : edit.orders) (hready : ready store) (hbands : InBands live store)
    (now : DateTime) (id : Uuid) :
    ready (backend.editNote now id edit store).1 ∧
      InBands live (backend.editNote now id edit store).1 := by
  simp only [NoteStore.editNote]
  split
  · exact ⟨hready, hbands⟩
  next stored hstored =>
  obtain ⟨hread, hlive⟩ := readLiveNote_eq_ok.mp hstored
  have hbanded := hbands _ ((hkeeps.read store id stored hready hread).2 hlive)
  split
  · exact ⟨hready, hbands⟩
  · next note hchecked =>
      obtain ⟨-, hnote⟩ := NoteEdit.banded_writes hedit hbanded hchecked
      have hdone := hkeeps.update store note now hready
      exact ⟨hdone.ready, hdone.cases.elim (fun hplaces => hbands.places hplaces fun _ => hnote)
        hbands.stays⟩
  · next note hchecked =>
      obtain ⟨middle, keys, hprofile, hmiddle, hstays, hperm⟩ :=
        hkeeps.profile store note.notebookId hready
      have hkeys := hkeeps.keys_pos hready hperm
      simp only [hprofile]
      have hwrites : ∀ written,
          (edit.placed (.fromEffectiveKeys keys) (.ok ()) note).note? = some written →
            ready (backend.updateNote written now middle).1 ∧
              InBands live (backend.updateNote written now middle).1 := by
        intro written hwritten
        obtain ⟨-, hnote⟩ := NoteEdit.banded_places hedit hkeys hchecked hwritten
        have hdone := hkeeps.update middle written now hmiddle
        exact ⟨hdone.ready, hdone.cases.elim
          (fun hplaces => (hbands.stays hstays).places hplaces fun _ => hnote)
          (hbands.stays hstays).stays⟩
      split
      · exact ⟨hmiddle, hbands.stays hstays⟩
      · next written hplaced => exact hwrites written (by rw [hplaced]; rfl)
      · next written hplaced => exact hwrites written (by rw [hplaced]; rfl)

/-- A call keeps the bands exactly when it sends none of its own that is wrong. -/
theorem KeepsPlacements.inBands_step_iff (hkeeps : KeepsPlacements live backend ready)
    {action : CallClock × PlacementCall} (hready : ready store) (hbands : InBands live store)
    (hstep : backend.placementStep cap store action = some after) :
    ready after ∧ (InBands live after ↔ backend.SendsBand store action) := by
  obtain ⟨clock, call⟩ := action
  have hedits : ∀ (id : Uuid) (edit : NoteEdit), edit.orders →
      some (backend.editNote clock.now id edit store).1 = some after →
        ready after ∧ (InBands live after ↔ True) := by
    rintro id edit hedit heq
    obtain rfl := Option.some.inj heq
    obtain ⟨hafter, hkept⟩ := hkeeps.inBands_editNote hedit hready hbands clock.now id
    exact ⟨hafter, iff_true_intro hkept⟩
  cases call with
  | createNote note =>
      simp only [NoteStore.placementStep] at hstep
      obtain ⟨⟨hkey, hpinned⟩, hcreate⟩ := Option.ite_none_right_eq_some.mp hstep
      obtain ⟨⟨done, result⟩, hcreated, rfl⟩ := Option.map_eq_some_iff.mp hcreate
      obtain ⟨hafter, middle, -, hshifts, hdone⟩ := hkeeps.createPlaced hready hcreated
      refine ⟨hafter, iff_true_intro ?_⟩
      have hmiddle := hbands.shifts hshifts
      rcases hdone with hstays | ⟨key, hplaces, hgiven⟩
      · exact hmiddle.stays hstays
      · obtain ⟨-, hpositive, hnormal⟩ := hgiven.resolve_left fun hset => hset.1 hkey
        exact hmiddle.places hplaces fun _ => banded_of_normal hpinned hpositive hnormal
  | pinNote id => exact hedits id .pinNote trivial hstep
  | unpinNote id => exact hedits id .unpinNote trivial hstep
  | reorderNote id newSortKey => exact hedits id (.reorderNote newSortKey) trivial hstep
  | starNote id => exact hedits id (.setStarred true) trivial hstep
  | unstarNote id => exact hedits id (.setStarred false) trivial hstep
  | deleteNote id =>
      obtain rfl := Option.some.inj hstep
      have hdone := hkeeps.delete store id clock.ts clock.now hready
      refine ⟨hdone.ready, iff_true_intro ?_⟩
      rcases hdone.cases with hremoves | hstays
      · exact fun item hitem => hbands item ((hremoves item).mp hitem).2
      · exact hbands.stays hstays
  | updateNote id note =>
      obtain ⟨⟨done, result⟩, hupdate, rfl⟩ := Option.map_eq_some_iff.mp hstep
      obtain ⟨hafter, hcases⟩ := hkeeps.updatePlaced_cases hready hupdate
      refine ⟨hafter, ?_⟩
      rcases hcases with ⟨stored, rfl, hstored, hbody, hnotebook, -, hplaces⟩ |
        ⟨hmoved, middle, -, hshifts, hdone⟩
      · refine ⟨?_, ?_⟩
        · intro hkept other hother _ _ hlive
          have hwritten := hkept _ ((hplaces _).mpr (.inl ⟨rfl, hlive⟩))
          exact hwritten
        · intro hsends
          exact hbands.places hplaces fun hlive => hsends stored hstored hbody hnotebook hlive
      · refine iff_of_true ?_ ?_
        · have hmiddle := hbands.shifts hshifts
          rcases hdone with hstays | ⟨key, hplaces, -, hpositive, hnormal⟩
          · exact hmiddle.stays hstays
          · exact hmiddle.places hplaces fun _ =>
              banded_of_normal (n := { note with
                id := id, isPinned := false, updatedAt := clock.now }) rfl hpositive hnormal
        · exact fun stored hstored hbody hnotebook _ =>
            absurd hnotebook (hmoved stored hstored hbody)

/-- A call that does not return was resequencing. -/
theorem KeepsPlacements.sendsBand_of_none (hkeeps : KeepsPlacements live backend ready)
    {action : CallClock × PlacementCall} (hready : ready store)
    (hstep : backend.placementStep cap store action = none) : backend.SendsBand store action := by
  obtain ⟨clock, call⟩ := action
  cases call with
  | updateNote id note =>
      have hupdate := Option.map_eq_none_iff.mp hstep
      intro stored hstored hbody hnotebook
      exact absurd hnotebook (hkeeps.moves_of_none hready hupdate hstored hbody)
  | _ => trivial

/-- A client's update writes a pin that its key does not tell. -/
theorem KeepsPlacements.not_inBands_updateNote (hkeeps : KeepsPlacements live backend ready)
    (cap : Nat) (clock : CallClock) {stored : Note} (hready : ready store)
    (hstored : backend.readLiveNote id store = .ok stored) (hbody : checkBody note.body = .ok ())
    (hnotebook : note.notebookId = stored.notebookId) (hlive : note.deletedAt = none)
    (hnot : ¬ note.placement.Banded) :
    ∃ reached, runAll (backend.placementStep cap) store [(clock, .updateNote id note)] =
      some reached ∧ ¬ InBands live reached := by
  obtain ⟨after, updated, hupdate, -, hplaces⟩ :=
    hkeeps.updatePlaced_same cap clock hready hstored hbody hnotebook
  refine ⟨after, ?_, fun hbands => hnot ?_⟩
  · simp [runAll, NoteStore.placementStep, hupdate]
  · have hwritten := hbands _ ((hplaces _).mpr (.inl ⟨rfl, hlive⟩))
    exact hwritten

end Calls

/-- In either store the bands hold in every state of a run exactly when the run
sends none of its own that is wrong. -/
theorem inBands_iff_sendsBand (cap : Nat) :
    (∀ (serverHistory : Uuid → Nat → Option (List (EntityVersion Note))) (db : Db)
      (actions : List (CallClock × PlacementCall)), InBands Db.placements db →
      ((∀ front, front <+: actions → ∀ reached,
          runAll ((Db.noteStore serverHistory).placementStep cap) db front = some reached →
            InBands Db.placements reached) ↔
        MeetsAll ((Db.noteStore serverHistory).placementStep cap)
          (Db.noteStore serverHistory).SendsBand db actions)) ∧
      ∀ (place : Uuid → Nat) (store : IndexedTree) (actions : List (CallClock × PlacementCall)),
        store.Current → InBands IndexedTree.placements store →
        ((∀ front, front <+: actions → ∀ reached,
            runAll ((IndexedTree.noteStore place).placementStep cap) store front = some reached →
              InBands IndexedTree.placements reached) ↔
          MeetsAll ((IndexedTree.noteStore place).placementStep cap)
            (IndexedTree.noteStore place).SendsBand store actions) := by
  constructor
  · intro serverHistory db actions hbands
    have hkeeps := Db.keepsPlacements serverHistory
    exact forall_reached_iff_meetsAll_of_ready _
      (fun _ _ hready hstep => hkeeps.sendsBand_of_none hready hstep)
      (fun _ _ _ _ hready hbands hstep => hkeeps.inBands_step_iff hready hbands hstep)
      trivial hbands
  · intro place store actions hcurrent hbands
    have hkeeps := IndexedTree.keepsPlacements place
    refine forall_reached_iff_meetsAll_of_ready _ ?_ ?_ hcurrent hbands
    · exact fun _ _ hready hstep => hkeeps.sendsBand_of_none hready hstep
    · exact fun _ _ _ _ hready hbands hstep => hkeeps.inBands_step_iff hready hbands hstep

namespace BandWitness

open InboxWitness

def clock : CallClock := ⟨0, 0, fun _ => 0, 1⟩

def noServer : Uuid → Nat → Option (List (EntityVersion Note)) := fun _ _ => none

theorem rows_read : (Db.noteStore noServer).readLiveNote 0 (rows 1) = .ok (note 0) :=
  readLiveNote_eq_ok.mpr ⟨Db.readNote_ok_iff.mpr ⟨_, rows_notes 1 0, rfl⟩, rfl⟩

theorem files_read : (IndexedTree.noteStore place).readLiveNote 0 (files 1) = .ok (note 0) := by
  have hheld : (files 1).heldNote 0 = some (note 0) := (files_notes 1).2 0
  obtain ⟨hread, hlive⟩ := IndexedTree.heldNote_eq_some.mp hheld
  exact readLiveNote_eq_ok.mpr ⟨hread, hlive⟩

theorem rows_inBands : InBands Db.placements (rows 1) := by
  intro item hitem
  obtain ⟨found, hheld, rfl⟩ := (Db.shows_placements _ item).mp hitem
  obtain ⟨row, hrow, hfound⟩ := Db.readNote_ok_iff.mp (Db.heldNote_eq_some.mp hheld).1
  rw [rows_notes] at hrow
  obtain ⟨-, hrow⟩ := Option.ite_none_right_eq_some.mp hrow
  obtain rfl := Option.some.inj hrow
  rw [← hfound]
  exact (banded_inbox rfl).mpr ⟨rfl, le_refl 1⟩

theorem files_inBands : InBands IndexedTree.placements (files 1) := by
  intro item hitem
  obtain ⟨found, hheld, rfl⟩ := ((files_notes 1).1.shows_placements item).mp hitem
  rw [IndexedTree.heldNote, (files_notes 1).2] at hheld
  obtain ⟨-, hheld⟩ := Option.ite_none_right_eq_some.mp hheld
  rw [← Option.some.inj hheld]
  exact (banded_inbox rfl).mpr ⟨rfl, le_refl 1⟩

/-- An update of the title. -/
def retitled : CallClock × PlacementCall := (clock, .updateNote 0 { note 0 with title := "a" })

/-- An update that pins a note of the Inbox. -/
def pinned : Note := { note 0 with isPinned := true }

theorem inBands_retitled :
    (∀ front, front <+: [retitled] → ∀ reached,
        runAll ((Db.noteStore noServer).placementStep 1) (rows 1) front = some reached →
          InBands Db.placements reached) ∧
      ∀ front, front <+: [retitled] → ∀ reached,
        runAll ((IndexedTree.noteStore place).placementStep 1) (files 1) front = some reached →
          InBands IndexedTree.placements reached := by
  have hsends : (note 0).placement.Banded := (banded_inbox rfl).mpr ⟨rfl, le_refl 1⟩
  constructor
  · refine ((inBands_iff_sendsBand 1).1 noServer (rows 1) [retitled] rows_inBands).mpr ?_
    exact ⟨fun _ _ _ _ _ => hsends, fun _ _ => trivial⟩
  · refine ((inBands_iff_sendsBand 1).2 place (files 1) [retitled] (files_notes 1).1
      files_inBands).mpr ?_
    exact ⟨fun _ _ _ _ _ => hsends, fun _ _ => trivial⟩

/-- The update leaves a pinned note in the Inbox. -/
theorem not_inBands_pinned :
    (∃ reached, runAll ((Db.noteStore noServer).placementStep 1) (rows 1)
        [(clock, .updateNote 0 pinned)] = some reached ∧
      InBands Db.placements (rows 1) ∧ ¬ InBands Db.placements reached) ∧
      ∃ reached, runAll ((IndexedTree.noteStore place).placementStep 1) (files 1)
          [(clock, .updateNote 0 pinned)] = some reached ∧
        InBands IndexedTree.placements (files 1) ∧ ¬ InBands IndexedTree.placements reached := by
  have hbody : checkBody pinned.body = .ok () := rfl
  have hnot : ¬ pinned.placement.Banded := fun hbanded => by
    cases ((banded_inbox rfl).mp hbanded).1
  constructor
  · obtain ⟨reached, hrun, hbands⟩ := (Db.keepsPlacements noServer).not_inBands_updateNote 1 clock
      trivial rows_read hbody rfl rfl hnot
    exact ⟨reached, hrun, rows_inBands, hbands⟩
  · obtain ⟨reached, hrun, hbands⟩ := (IndexedTree.keepsPlacements place).not_inBands_updateNote 1
      clock (files_notes 1).1 files_read hbody rfl rfl hnot
    exact ⟨reached, hrun, files_inBands, hbands⟩

end BandWitness

end Keeplin
