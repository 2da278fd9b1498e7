/-
One call that pins, unpins or moves a note within its notebook, as a whole: what it
decides by the note and the keys of its notebook, and what the store shows of it.
-/
import Keeplin.PlacementBands

namespace Keeplin

section Keys

variable {keys : List Nat} {key : Nat}

/-- The keys below the first free one are taken, from the candidate on. -/
theorem firstFree_spec {candidate : Nat} {used : List Nat}
    (hsorted : used.Pairwise (· ≤ ·)) :
    firstFree candidate used ∉ used ∧
      ∀ key, candidate ≤ key → key < firstFree candidate used → key ∈ used := by
  induction used generalizing candidate with
  | nil =>
      refine ⟨List.not_mem_nil, fun key hle hlt => ?_⟩
      exact absurd hlt (Nat.not_lt.mpr hle)
  | cons head rest ih =>
      obtain ⟨hhead, hrest⟩ := List.pairwise_cons.mp hsorted
      simp only [firstFree]
      split
      · next hbelow =>
          refine ⟨fun hmem => ?_, fun key hle hlt => absurd hlt (Nat.not_lt.mpr hle)⟩
          rcases List.mem_cons.mp hmem with rfl | hlater
          · exact Nat.lt_irrefl _ hbelow
          · exact absurd (hhead candidate hlater) (Nat.not_le.mpr hbelow)
      · next hreached =>
          generalize hfrom : (if head = candidate then candidate + 1 else candidate) = next
          have hnext := le_firstFree next rest
          have hcandidate : candidate ≤ next ∧ (head = candidate → next = candidate + 1) := by
            split at hfrom <;> omega
          obtain ⟨hfree, htaken⟩ := ih hrest
          constructor
          · intro hmem
            rcases List.mem_cons.mp hmem with heq | hlater
            · omega
            · exact hfree hlater
          · intro key hle hlt
            by_cases hsame : key = head
            · exact hsame ▸ List.mem_cons_self
            · refine List.mem_cons_of_mem head (htaken key ?_ hlt)
              split at hfrom <;> omega

/-- A key of the pinned band is among those of a profile if it is one of the
notebook's. -/
theorem mem_pinnedKeys :
    key ∈ (NotebookSortProfile.fromEffectiveKeys keys).pinnedKeys ↔
      key ∈ keys ∧ 1 ≤ key ∧ key ≤ PIN_MAX := by
  simp only [NotebookSortProfile.fromEffectiveKeys, List.mem_insertionSort, List.mem_filter,
    decide_eq_true_eq, PIN_MAX, Nat.lt_succ_iff]

theorem sorted_pinnedKeys :
    (NotebookSortProfile.fromEffectiveKeys keys).pinnedKeys.Pairwise (· ≤ ·) :=
  List.pairwise_insertionSort _ _

/-- The lowest free key: it is free, and those below it are taken. -/
theorem lowestFree_eq_some :
    lowestFreePinnedKey (NotebookSortProfile.fromEffectiveKeys keys).pinnedKeys = some key ↔
      1 ≤ key ∧ key ≤ PIN_MAX ∧ key ∉ keys ∧
        ∀ below, 1 ≤ below → below < key → below ∈ keys := by
  have hspec : firstFree 1 (NotebookSortProfile.fromEffectiveKeys keys).pinnedKeys ∉ _ ∧ _ :=
    firstFree_spec sorted_pinnedKeys
  obtain ⟨hfree, htaken⟩ := hspec
  have hone := le_firstFree 1 (NotebookSortProfile.fromEffectiveKeys keys).pinnedKeys
  simp only [lowestFreePinnedKey, Option.ite_none_right_eq_some, Option.some.injEq]
  constructor
  · rintro ⟨hmax, rfl⟩
    refine ⟨hone, hmax, fun hmem => hfree (mem_pinnedKeys.mpr ⟨hmem, hone, hmax⟩), ?_⟩
    exact fun below hpositive hbelow => (mem_pinnedKeys.mp (htaken below hpositive hbelow)).1
  · rintro ⟨hpositive, hmax, hnot, hbelow⟩
    have hle : firstFree 1 (NotebookSortProfile.fromEffectiveKeys keys).pinnedKeys ≤ key := by
      by_contra hlt
      exact hnot (mem_pinnedKeys.mp (htaken key hpositive (Nat.not_le.mp hlt))).1
    have hge : key ≤ firstFree 1 (NotebookSortProfile.fromEffectiveKeys keys).pinnedKeys := by
      by_contra hlt
      refine hfree (mem_pinnedKeys.mpr ⟨hbelow _ hone (Nat.not_le.mp hlt), hone, ?_⟩)
      omega
    have heq := Nat.le_antisymm hle hge
    exact ⟨heq ▸ hmax, heq⟩

/-- There is no free key exactly if the keys of the band are all taken. -/
theorem lowestFree_eq_none :
    lowestFreePinnedKey (NotebookSortProfile.fromEffectiveKeys keys).pinnedKeys = none ↔
      ∀ key, 1 ≤ key → key ≤ PIN_MAX → key ∈ keys := by
  constructor
  · intro hnone key
    induction key using Nat.strong_induction_on with
    | h key ih =>
        intro hpositive hmax
        by_contra hfree
        have hsome := lowestFree_eq_some.mpr ⟨hpositive, hmax, hfree, fun below hlow hbelow =>
          ih below hbelow hlow (by omega)⟩
        rw [hnone] at hsome
        cases hsome
  · intro hall
    rw [Option.eq_none_iff_forall_ne_some]
    intro key hkey
    obtain ⟨hpositive, hmax, hfree, -⟩ := lowestFree_eq_some.mp hkey
    exact hfree (hall key hpositive hmax)

/-- The lowest free key is one of the keys' membership alone. -/
theorem lowestFree_congr {others : List Nat} (hsame : ∀ key, key ∈ keys ↔ key ∈ others) :
    lowestFreePinnedKey (NotebookSortProfile.fromEffectiveKeys keys).pinnedKeys =
      lowestFreePinnedKey (NotebookSortProfile.fromEffectiveKeys others).pinnedKeys := by
  apply Option.ext
  intro key
  simp only [lowestFree_eq_some, hsame]

theorem nextNormalKey_le : nextNormalKey (.fromEffectiveKeys keys) ≤ SORT_KEY_MAX := by
  simp only [nextNormalKey, NotebookSortProfile.fromEffectiveKeys]
  cases (keys.filter fun key => !decide (1 ≤ key ∧ key < 1000)).max? with
  | none => decide
  | some max => exact Nat.min_le_right _ _

/-- The next key of the normal band is above each key but the last there is. -/
theorem lt_nextNormalKey (hkeys : ∀ key ∈ keys, 0 < key) (hkey : key ∈ keys) :
    key < nextNormalKey (.fromEffectiveKeys keys) ↔ key < SORT_KEY_MAX := by
  refine ⟨fun hlt => Nat.lt_of_lt_of_le hlt nextNormalKey_le, fun hlt => ?_⟩
  have hnormal : ∀ key, key ∈ keys.filter (fun key => !decide (1 ≤ key ∧ key < 1000)) ↔
      key ∈ keys ∧ 1000 ≤ key := by
    intro key
    rw [List.mem_filter]
    refine and_congr_right fun hkey => ?_
    have hpositive := hkeys key hkey
    simp only [Bool.not_eq_true', decide_eq_false_iff_not]
    omega
  simp only [nextNormalKey, NotebookSortProfile.fromEffectiveKeys]
  cases hmax : (keys.filter fun key => !decide (1 ≤ key ∧ key < 1000)).max? with
  | none =>
      rw [List.max?_eq_none_iff] at hmax
      have hbelow : key < 1000 := by
        by_contra hle
        have hmem := (hnormal key).mpr ⟨hkey, Nat.not_lt.mp hle⟩
        rw [hmax] at hmem
        cases hmem
      exact hbelow
  | some max =>
      obtain ⟨hmem, hle⟩ := List.max?_eq_some_iff.mp hmax
      have hlarge := ((hnormal max).mp hmem).2
      have hbound : key ≤ max := by
        by_cases hin : 1000 ≤ key
        · exact hle key ((hnormal key).mpr ⟨hkey, hin⟩)
        · omega
      simp only [Option.map_some, Option.getD_some]
      omega

end Keys

namespace NoteEdit

/-- Where an edit ends that finds the keys of the note's notebook. -/
def outcome (keys : List Nat) (stored : Note) (edit : NoteEdit) : NoteEditStage :=
  match edit.checked stored with
  | .places note => edit.placed (.fromEffectiveKeys keys) (.ok ()) note
  | stage => stage

variable {keys : List Nat} {stored note : Note} {edit : NoteEdit}

/-- An edit that asks for the keys of the notebook goes on with the note as it was
read. -/
theorem eq_of_places (hedit : edit.orders) (hchecked : edit.checked stored = .places note) :
    note = stored := by
  cases edit with
  | pinNote =>
      simp only [checked] at hchecked
      split at hchecked
      · contradiction
      · split at hchecked
        · contradiction
        · cases hchecked
          rfl
  | unpinNote =>
      simp only [checked] at hchecked
      split at hchecked
      · cases hchecked
        rfl
      · contradiction
  | setStarred starred =>
      simp only [checked] at hchecked
      split at hchecked <;> contradiction
  | reorderNote newSortKey =>
      simp only [checked] at hchecked
      split at hchecked
      · contradiction
      · split at hchecked <;> contradiction
  | _ => contradiction

theorem outcome_pinNote (keys : List Nat) (stored : Note) :
    outcome keys stored .pinNote =
      if isInbox stored.notebookId then
        .returns (.error (.invalidInput
          "Inbox notes cannot be pinned (the Inbox is a single manually ordered list)"))
      else if stored.isPinned then .returns (.ok stored)
      else
        match lowestFreePinnedKey (NotebookSortProfile.fromEffectiveKeys keys).pinnedKeys with
        | none =>
            .returns (.error (.conflict "cannot pin: the notebook already has 999 pinned notes"))
        | some key => .writes { stored with isPinned := true, sortKey := key } := by
  by_cases hinbox : isInbox stored.notebookId = true
  · simp only [outcome, checked, if_pos hinbox]
  by_cases hpinned : stored.isPinned = true
  · simp only [outcome, checked, if_neg hinbox, if_pos hpinned]
  · simp only [outcome, checked, if_neg hinbox, if_neg hpinned]
    rfl

theorem outcome_unpinNote (keys : List Nat) (stored : Note) :
    outcome keys stored .unpinNote =
      if stored.isPinned then
        .writes { stored with
          isPinned := false, sortKey := nextNormalKey (.fromEffectiveKeys keys) }
      else .returns (.ok stored) := by
  by_cases hpinned : stored.isPinned = true
  · simp only [outcome, checked, if_pos hpinned]
    rfl
  · simp only [outcome, checked, if_neg hpinned]

theorem outcome_setStarred (keys : List Nat) (stored : Note) (starred : Bool) :
    outcome keys stored (.setStarred starred) =
      if stored.isStarred = starred then .returns (.ok stored)
      else .writes { stored with isStarred := starred } := by
  by_cases hsame : stored.isStarred = starred
  · simp only [outcome, checked, if_pos hsame]
  · simp only [outcome, checked, if_neg hsame]

theorem outcome_reorderNote (keys : List Nat) (stored : Note) (newSortKey : Nat) :
    outcome keys stored (.reorderNote newSortKey) =
      if (sortKeyBand stored newSortKey).1 then
        if stored.sortKey = newSortKey then .returns (.ok stored)
        else .writes { stored with sortKey := newSortKey }
      else
        .returns (.error (.invalidInput ("sort_key " ++ toString newSortKey ++
          " is outside the note's band " ++ (sortKeyBand stored newSortKey).2))) := by
  by_cases hband : (sortKeyBand stored newSortKey).1 = true
  · by_cases hsame : stored.sortKey = newSortKey
    · simp [outcome, checked, hband, hsame]
    · simp [outcome, checked, hband, hsame]
  · simp [outcome, checked, hband]

/-- An edit that orders leaves a note in its notebook and alive. -/
theorem kept_of_outcome (hedit : edit.orders)
    (houtcome : (edit.outcome keys stored).note? = some note) :
    note.id = stored.id ∧ note.notebookId = stored.notebookId ∧
      note.deletedAt = stored.deletedAt := by
  cases edit with
  | pinNote =>
      rw [outcome_pinNote] at houtcome
      split at houtcome
      · cases houtcome
      split at houtcome
      · cases houtcome
      split at houtcome
      · cases houtcome
      · cases houtcome
        exact ⟨rfl, rfl, rfl⟩
  | unpinNote =>
      rw [outcome_unpinNote] at houtcome
      split at houtcome <;> cases houtcome
      exact ⟨rfl, rfl, rfl⟩
  | setStarred starred =>
      rw [outcome_setStarred] at houtcome
      split at houtcome <;> cases houtcome
      exact ⟨rfl, rfl, rfl⟩
  | reorderNote newSortKey =>
      rw [outcome_reorderNote] at houtcome
      split at houtcome
      · split at houtcome <;> cases houtcome
        exact ⟨rfl, rfl, rfl⟩
      · cases houtcome
  | _ => contradiction

/-- Only a pin pins a note. -/
theorem isPinned_of_outcome (hedit : edit.orders) (hpin : edit ≠ .pinNote)
    (houtcome : (edit.outcome keys stored).note? = some note) (hpinned : note.isPinned = true) :
    stored.isPinned = true := by
  cases edit with
  | pinNote => exact absurd rfl hpin
  | unpinNote =>
      rw [outcome_unpinNote] at houtcome
      split at houtcome <;> cases houtcome
      cases hpinned
  | setStarred starred =>
      rw [outcome_setStarred] at houtcome
      split at houtcome <;> cases houtcome
      exact hpinned
  | reorderNote newSortKey =>
      rw [outcome_reorderNote] at houtcome
      split at houtcome
      · split at houtcome <;> cases houtcome
        exact hpinned
      · cases houtcome
  | _ => contradiction

end NoteEdit

/-- The keys of a notebook as the store shows them. -/
def keysIn {S : Type} (live : S → List Placement) (notebookId : Uuid) (store : S) : List Nat :=
  ((live store).filter fun item => item.notebookId = notebookId).map Placement.sortKey

section Calls

variable {S : Type} {live : S → List Placement} {ready : S → Prop} {backend : NoteStore S}
  {store : S} {id : Uuid} {stored : Note} {edit : NoteEdit}

theorem mem_keysIn {notebookId : Uuid} {key : Nat} :
    key ∈ keysIn live notebookId store ↔
      ∃ item ∈ live store, item.notebookId = notebookId ∧ item.sortKey = key := by
  simp only [keysIn, List.mem_map, List.mem_filter, decide_eq_true_eq, and_assoc]

variable (live ready) in
/-- How an edit that came to a stage leaves the store. -/
def EndsAs (store : S) (done : S × Except StorageError Note) : NoteEditStage → Prop
  | .returns result => done.2 = result ∧ ready done.1 ∧ Stays live store done.1
  | .places note | .writes note =>
      (∃ updated, done.2 = .ok updated) ∧ ready done.1 ∧ Places live note store done.1

/-- A backend that reads the notes that it shows. -/
structure ReadsPlacements (live : S → List Placement) (backend : NoteStore S)
    (ready : S → Prop) : Prop where
  found : ∀ store item, ready store → item ∈ live store →
    ∃ note, backend.readLiveNote item.id store = .ok note ∧ note.placement = item

/-- A note that is there and live is written. -/
theorem KeepsPlacements.updateNote_of_live (hkeeps : KeepsPlacements live backend ready)
    {written : Note} (now : DateTime) (hready : ready store)
    (hstored : backend.readLiveNote written.id store = .ok stored) :
    EndsAs live ready store (backend.updateNote written now store) (.writes written) := by
  obtain ⟨hread, hlive⟩ := readLiveNote_eq_ok.mp hstored
  obtain ⟨after, updated, hupdate⟩ := hkeeps.updates store written now stored hready hread hlive
  have hdone := hkeeps.update store written now hready
  rw [hupdate] at hdone ⊢
  exact ⟨⟨updated, rfl⟩, hdone⟩

theorem EndsAs.of_stays {middle : S} {done : S × Except StorageError Note}
    {stage : NoteEditStage} (hstays : Stays live store middle)
    (hends : EndsAs live ready middle done stage) : EndsAs live ready store done stage := by
  cases stage with
  | returns result => exact hends.imp id (.imp id hstays.trans)
  | places note | writes note =>
      refine hends.imp id (.imp id fun hplaces item => (hplaces item).trans ?_)
      exact or_congr_right (and_congr_right fun _ => hstays item)

/-- An edit that ended has written the note of its stage, or left the store. -/
theorem EndsAs.cases {done : S × Except StorageError Note} {stage : NoteEditStage}
    (hends : EndsAs live ready store done stage) :
    ready done.1 ∧ (Stays live store done.1 ∨
      ∃ written, stage.note? = some written ∧ Places live written store done.1) := by
  cases stage with
  | returns result => exact ⟨hends.2.1, .inl hends.2.2⟩
  | places note | writes note => exact ⟨hends.2.1, .inr ⟨note, rfl, hends.2.2⟩⟩

theorem editNote_of_error {failure : StorageError} (now : DateTime)
    (hstored : backend.readLiveNote id store = .error failure) :
    backend.editNote now id edit store = (store, .error failure) := by
  simp only [NoteStore.editNote, hstored]

/-- An edit of a live note ends as its outcome says, by the keys that the store
shows in the notebook. -/
theorem KeepsPlacements.editNote_ends (hkeeps : KeepsPlacements live backend ready)
    (hreads : ReadsPlacements live backend ready) (hedit : edit.orders) (now : DateTime)
    (hready : ready store) (hstored : backend.readLiveNote id store = .ok stored) :
    ∃ keys, keys.Perm (keysIn live stored.notebookId store) ∧
      EndsAs live ready store (backend.editNote now id edit store)
        (edit.outcome keys stored) := by
  obtain ⟨hread, hlive⟩ := readLiveNote_eq_ok.mp hstored
  obtain ⟨rfl, hheld⟩ := hkeeps.read store id stored hready hread
  simp only [NoteStore.editNote, hstored, NoteEdit.outcome]
  cases hchecked : edit.checked stored with
  | returns result =>
      exact ⟨_, List.Perm.refl _, rfl, hready, Stays.refl store⟩
  | writes note =>
      have hid : note.id = stored.id := NoteEdit.id_checked (by rw [hchecked]; rfl)
      exact ⟨_, List.Perm.refl _, hkeeps.updateNote_of_live now hready (hid ▸ hstored)⟩
  | places note =>
      obtain rfl := NoteEdit.eq_of_places hedit hchecked
      obtain ⟨middle, keys, hprofile, hmiddle, hstays, hperm⟩ :=
        hkeeps.profile store note.notebookId hready
      obtain ⟨found, hfound, -⟩ :=
        hreads.found middle note.placement hmiddle ((hstays _).mpr (hheld hlive))
      refine ⟨keys, hperm, EndsAs.of_stays hstays ?_⟩
      simp only [hprofile]
      have hwrites : ∀ written,
          (edit.placed (.fromEffectiveKeys keys) (.ok ()) note).note? = some written →
            EndsAs live ready middle (backend.updateNote written now middle)
              (.writes written) := by
        intro written hwritten
        have hid : written.id = note.placement.id := NoteEdit.id_placed hwritten
        exact hkeeps.updateNote_of_live now hmiddle (hid ▸ hfound)
      cases hplaced : edit.placed (.fromEffectiveKeys keys) (.ok ()) note with
      | returns result => exact ⟨rfl, hmiddle, Stays.refl middle⟩
      | writes written => exact hwrites written (by rw [hplaced]; rfl)
      | places written => exact hwrites written (by rw [hplaced]; rfl)

end Calls

theorem Db.readsPlacements (serverHistory : Uuid → Nat → Option (List (EntityVersion Note))) :
    ReadsPlacements Db.placements (Db.noteStore serverHistory) fun _ => True where
  found db item _ hitem := by
    obtain ⟨note, hheld, rfl⟩ := (Db.shows_placements db item).mp hitem
    exact ⟨note, readLiveNote_eq_ok.mpr (Db.heldNote_eq_some.mp hheld), rfl⟩

/-- The first notes of a supply, by id. -/
def rowsOf (supply : Uuid → Note) : Nat → Db
  | 0 => ⟨"A", ∅, ∅, ∅, ∅, ∅, [], [], none⟩
  | count + 1 =>
      { rowsOf supply count with
        notes := (rowsOf supply count).notes.insert count (NoteRow.ofNote (supply count)) }

section RowsOf

variable {supply : Uuid → Note} {count : Nat}

theorem notes_rowsOf (supply : Uuid → Note) (count : Nat) (id : Uuid) :
    (rowsOf supply count).notes[id]? =
      if id < count then some (NoteRow.ofNote (supply id)) else none := by
  induction count with
  | zero => simp [rowsOf]
  | succ count ih =>
      by_cases hsame : count = id
      · subst hsame
        simp [rowsOf]
      · have hlt : id < count + 1 ↔ id < count :=
          Nat.lt_succ_iff_lt_or_eq.trans (or_iff_left (Ne.symm hsame))
        simp [rowsOf, Std.ExtTreeMap.getElem?_insert, hsame, ih, hlt]

theorem rowToNote_supply (hids : ∀ id, (supply id).id = id) (id : Uuid) :
    rowToNote id (NoteRow.ofNote (supply id)) = supply id := by
  have hrow := rowToNote_ofNote (supply id)
  rwa [hids] at hrow

theorem readLiveNote_rowsOf (serverHistory : Uuid → Nat → Option (List (EntityVersion Note)))
    (hids : ∀ id, (supply id).id = id) (hlive : ∀ id, (supply id).deletedAt = none) {id : Uuid}
    (hlt : id < count) :
    (Db.noteStore serverHistory).readLiveNote id (rowsOf supply count) = .ok (supply id) :=
  readLiveNote_eq_ok.mpr ⟨Db.readNote_ok_iff.mpr ⟨_,
    (notes_rowsOf supply count id).trans (if_pos hlt), rowToNote_supply hids id⟩, hlive id⟩

/-- The store shows just these notes. -/
theorem mem_placements_rowsOf (hids : ∀ id, (supply id).id = id)
    (hlive : ∀ id, (supply id).deletedAt = none) {item : Placement} :
    item ∈ (rowsOf supply count).placements ↔
      ∃ id, id < count ∧ (supply id).placement = item := by
  rw [Db.shows_placements]
  constructor
  · rintro ⟨note, hheld, hplacement⟩
    obtain ⟨row, hrow, rfl⟩ := Db.readNote_ok_iff.mp (Db.heldNote_eq_some.mp hheld).1
    rw [notes_rowsOf] at hrow
    obtain ⟨hlt, heq⟩ := Option.ite_none_right_eq_some.mp hrow
    obtain rfl := Option.some.inj heq
    rw [rowToNote_supply hids] at hplacement
    exact ⟨item.id, hlt, hplacement⟩
  · rintro ⟨id, hlt, rfl⟩
    have hid : (supply id).placement.id = id := hids id
    rw [hid]
    refine ⟨supply id, Db.heldNote_eq_some.mpr ⟨Db.readNote_ok_iff.mpr ?_, hlive id⟩, rfl⟩
    exact ⟨_, (notes_rowsOf supply count id).trans (if_pos hlt), rowToNote_supply hids id⟩

end RowsOf

theorem IndexedTree.readsPlacements (place : Uuid → Nat) :
    ReadsPlacements IndexedTree.placements (IndexedTree.noteStore place) IndexedTree.Current where
  found store item hcurrent hitem := by
    obtain ⟨note, hheld, rfl⟩ := (hcurrent.shows_placements item).mp hitem
    exact ⟨note, readLiveNote_eq_ok.mpr (IndexedTree.heldNote_eq_some.mp hheld), rfl⟩

end Keeplin
