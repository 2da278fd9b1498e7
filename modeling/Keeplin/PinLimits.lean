/-
The pinned notes of a notebook: how many there can be, which follows from their keys
only while these differ, and which keys two pins get that run side by side.
-/
import Keeplin.OrderEdits

namespace Keeplin

def MAX_PINNED : Nat := PIN_MAX

section Pinned

variable {S : Type} (live : S → List Placement)

/-- The live pinned notes of a notebook. -/
def pinnedIn (notebookId : Uuid) (store : S) : List Placement :=
  (live store).filter fun item => item.isPinned ∧ item.notebookId = notebookId

def WithinPinLimit (store : S) : Prop :=
  ∀ notebookId, (pinnedIn live notebookId store).length ≤ MAX_PINNED

/-- A notebook with as many pinned notes as it may have has no free key in its band
for one more, and no update pins a note of it in place. -/
def NoteStore.FullRefuses (backend : NoteStore S) (store : S)
    (action : CallClock × PlacementCall) : Prop :=
  match action.2 with
  | .pinNote id => ∀ stored, backend.readLiveNote id store = .ok stored →
      isInbox stored.notebookId = false → stored.isPinned = false →
        (pinnedIn live stored.notebookId store).length = MAX_PINNED →
          ∀ key, 1 ≤ key → key ≤ PIN_MAX → key ∈ keysIn live stored.notebookId store
  | .updateNote id note => ∀ stored, backend.readLiveNote id store = .ok stored →
      checkBody note.body = .ok () → note.notebookId = stored.notebookId →
        note.deletedAt = none → note.isPinned = true → stored.isPinned = false →
          (pinnedIn live stored.notebookId store).length ≠ MAX_PINNED
  | _ => True

variable {live} {ready : S → Prop} {backend : NoteStore S} {store middle after : S}
  {note : Note} {notebookId : Uuid} {cap : Nat}

theorem mem_pinnedIn {item : Placement} :
    item ∈ pinnedIn live notebookId store ↔
      item ∈ live store ∧ item.isPinned = true ∧ item.notebookId = notebookId := by
  simp [pinnedIn]

theorem KeepsPlacements.nodup_pinnedIn (hkeeps : KeepsPlacements live backend ready)
    (hready : ready store) (notebookId : Uuid) :
    ((pinnedIn live notebookId store).map Placement.id).Nodup :=
  (hkeeps.ids store hready).sublist (List.filter_sublist.map _)

/-- Notes that were all pinned before are no more than those. -/
theorem KeepsPlacements.length_pinnedIn_le (hkeeps : KeepsPlacements live backend ready)
    (hready : ready after) {ids : List Uuid}
    (hsubset : ∀ item ∈ pinnedIn live notebookId after, item.id ∈ ids) :
    (pinnedIn live notebookId after).length ≤ ids.length := by
  have hids : ∀ id ∈ (pinnedIn live notebookId after).map Placement.id, id ∈ ids := by
    intro id hid
    obtain ⟨item, hitem, rfl⟩ := List.mem_map.mp hid
    exact hsubset item hitem
  have hle := (List.subperm_of_subset (hkeeps.nodup_pinnedIn hready notebookId) hids).length_le
  rwa [List.length_map] at hle

theorem WithinPinLimit.of_subset (hwithin : WithinPinLimit live store)
    (hkeeps : KeepsPlacements live backend ready) (hready : ready after)
    (hsubset : ∀ item ∈ live after, item.isPinned = true → ∃ before ∈ live store,
      before.id = item.id ∧ before.isPinned = true ∧ before.notebookId = item.notebookId) :
    WithinPinLimit live after := by
  intro notebookId
  have hsame : ∀ item ∈ pinnedIn live notebookId after,
      item.id ∈ (pinnedIn live notebookId store).map Placement.id := by
    intro item hitem
    obtain ⟨hlive, hpinned, hnotebook⟩ := mem_pinnedIn.mp hitem
    obtain ⟨before, hbefore, hid, hbeforePinned, hsame⟩ := hsubset item hlive hpinned
    rw [← hid]
    exact List.mem_map_of_mem
      (mem_pinnedIn.mpr ⟨hbefore, hbeforePinned, hsame.trans hnotebook⟩)
  have hle := hkeeps.length_pinnedIn_le hready hsame
  rw [List.length_map] at hle
  exact hle.trans (hwithin notebookId)

theorem WithinPinLimit.stays (hwithin : WithinPinLimit live store)
    (hkeeps : KeepsPlacements live backend ready) (hready : ready after)
    (hstays : Stays live store after) : WithinPinLimit live after :=
  hwithin.of_subset hkeeps hready fun item hitem hpinned =>
    ⟨item, (hstays item).mp hitem, rfl, hpinned, rfl⟩

theorem WithinPinLimit.shifts (hwithin : WithinPinLimit live store)
    (hkeeps : KeepsPlacements live backend ready) (hready : ready after)
    (hshifts : Shifts live store after) : WithinPinLimit live after := by
  refine hwithin.of_subset hkeeps hready fun item hitem hpinned => ?_
  obtain ⟨before, hbefore, hid, hnotebook, hsame, -⟩ := hshifts.came item hitem
  exact ⟨before, hbefore, hid, hsame.trans hpinned, hnotebook⟩

/-- A note that is written unpinned, or was pinned in its notebook, takes no room. -/
theorem WithinPinLimit.places (hwithin : WithinPinLimit live store)
    (hkeeps : KeepsPlacements live backend ready) (hready : ready after)
    (hplaces : Places live note store after)
    (hnote : note.deletedAt = none → note.isPinned = true → ∃ before ∈ live store,
      before.id = note.id ∧ before.isPinned = true ∧ before.notebookId = note.notebookId) :
    WithinPinLimit live after := by
  refine hwithin.of_subset hkeeps hready fun item hitem hpinned => ?_
  rcases (hplaces item).mp hitem with ⟨rfl, hlive⟩ | ⟨-, hold⟩
  · exact hnote hlive hpinned
  · exact ⟨item, hold, rfl, hpinned, rfl⟩

/-- A note that is newly pinned takes one place of its notebook. -/
theorem WithinPinLimit.places_iff (hwithin : WithinPinLimit live store)
    (hkeeps : KeepsPlacements live backend ready) (hready : ready store) (hafter : ready after)
    (hplaces : Places live note store after) (hlive : note.deletedAt = none)
    (hpinned : note.isPinned = true)
    (hnew : ∀ item ∈ live store, item.id = note.id → item.isPinned = false) :
    WithinPinLimit live after ↔
      (pinnedIn live note.notebookId store).length < MAX_PINNED := by
  have hlength : (pinnedIn live note.notebookId after).length =
      (pinnedIn live note.notebookId store).length + 1 := by
    have hperm : (pinnedIn live note.notebookId after).Perm
        (note.placement :: pinnedIn live note.notebookId store) := by
      have hnodup : (pinnedIn live note.notebookId store).Nodup :=
        List.Nodup.of_map _ (hkeeps.nodup_pinnedIn hready _)
      have hfresh : note.placement ∉ pinnedIn live note.notebookId store := by
        intro hmem
        obtain ⟨hheld, hheldPinned, -⟩ := mem_pinnedIn.mp hmem
        rw [hnew _ hheld rfl] at hheldPinned
        cases hheldPinned
      refine (List.perm_ext_iff_of_nodup (List.Nodup.of_map _ (hkeeps.nodup_pinnedIn hafter _))
        (List.nodup_cons.mpr ⟨hfresh, hnodup⟩)).mpr fun item => ?_
      rw [List.mem_cons, mem_pinnedIn, mem_pinnedIn, hplaces]
      constructor
      · rintro ⟨⟨rfl, -⟩ | ⟨-, hold⟩, hitemPinned, hnotebook⟩
        · exact .inl rfl
        · exact .inr ⟨hold, hitemPinned, hnotebook⟩
      · rintro (rfl | ⟨hold, hitemPinned, hnotebook⟩)
        · exact ⟨.inl ⟨rfl, hlive⟩, hpinned, rfl⟩
        · refine ⟨.inr ⟨fun hid => ?_, hold⟩, hitemPinned, hnotebook⟩
          rw [hnew item hold hid] at hitemPinned
          cases hitemPinned
    exact hperm.length_eq
  constructor
  · intro hkept
    have hbound := hkept note.notebookId
    omega
  · intro hroom notebookId
    by_cases hsame : notebookId = note.notebookId
    · rw [hsame]
      omega
    · have hothers : ∀ item ∈ pinnedIn live notebookId after,
          item.id ∈ (pinnedIn live notebookId store).map Placement.id := by
        intro item hitem
        obtain ⟨hheld, hitemPinned, hnotebook⟩ := mem_pinnedIn.mp hitem
        rcases (hplaces item).mp hheld with ⟨rfl, -⟩ | ⟨-, hold⟩
        · exact absurd hnotebook.symm hsame
        · exact List.mem_map_of_mem (mem_pinnedIn.mpr ⟨hold, hitemPinned, hnotebook⟩)
      have hle := hkeeps.length_pinnedIn_le hafter hothers
      rw [List.length_map] at hle
      exact hle.trans (hwithin notebookId)

theorem KeepsPlacements.withinPinLimit_editNote (hkeeps : KeepsPlacements live backend ready)
    (hreads : ReadsPlacements live backend ready) {edit : NoteEdit} (hedit : edit.orders)
    (hpin : edit ≠ .pinNote) (hready : ready store) (hwithin : WithinPinLimit live store)
    (now : DateTime) (id : Uuid) :
    ready (backend.editNote now id edit store).1 ∧
      WithinPinLimit live (backend.editNote now id edit store).1 := by
  cases hstored : backend.readLiveNote id store with
  | error failure =>
      rw [editNote_of_error now hstored]
      exact ⟨hready, hwithin⟩
  | ok stored =>
      obtain ⟨keys, -, hends⟩ := hkeeps.editNote_ends hreads hedit now hready hstored
      obtain ⟨hafter, hstays | ⟨written, hwritten, hplaces⟩⟩ := hends.cases
      · exact ⟨hafter, hwithin.stays hkeeps hafter hstays⟩
      · obtain ⟨hid, hnotebook, -⟩ := NoteEdit.kept_of_outcome hedit hwritten
        obtain ⟨hread, hlive⟩ := readLiveNote_eq_ok.mp hstored
        have hheld := (hkeeps.read store id stored hready hread).2 hlive
        refine ⟨hafter, hwithin.places hkeeps hafter hplaces fun _ hpinned => ?_⟩
        exact ⟨stored.placement, hheld, hid.symm,
          NoteEdit.isPinned_of_outcome hedit hpin hwritten hpinned, hnotebook.symm⟩

/-- A pin keeps the limit exactly if a full notebook has no key for it. -/
theorem KeepsPlacements.withinPinLimit_pinNote (hkeeps : KeepsPlacements live backend ready)
    (hreads : ReadsPlacements live backend ready) (hready : ready store)
    (hwithin : WithinPinLimit live store) (clock : CallClock) (id : Uuid) :
    ready (backend.editNote clock.now id .pinNote store).1 ∧
      (WithinPinLimit live (backend.editNote clock.now id .pinNote store).1 ↔
        backend.FullRefuses live store (clock, .pinNote id)) := by
  cases hstored : backend.readLiveNote id store with
  | error failure =>
      rw [editNote_of_error clock.now hstored]
      refine ⟨hready, iff_of_true hwithin fun stored heq => ?_⟩
      rw [hstored] at heq
      cases heq
  | ok stored =>
      have hfinds : backend.FullRefuses live store (clock, .pinNote id) ↔
          (isInbox stored.notebookId = false → stored.isPinned = false →
            (pinnedIn live stored.notebookId store).length = MAX_PINNED →
              ∀ key, 1 ≤ key → key ≤ PIN_MAX →
                key ∈ keysIn live stored.notebookId store) := by
        simp only [NoteStore.FullRefuses, hstored, Except.ok.injEq, forall_eq']
      obtain ⟨hread, hlive⟩ := readLiveNote_eq_ok.mp hstored
      obtain ⟨rfl, hheld⟩ := hkeeps.read store id stored hready hread
      obtain ⟨keys, hperm, hends⟩ :=
        hkeeps.editNote_ends hreads (show NoteEdit.pinNote.orders from trivial) clock.now hready
          hstored
      rw [NoteEdit.outcome_pinNote] at hends
      rw [hfinds]
      split at hends
      · next hinbox =>
          refine ⟨hends.2.1, iff_of_true (hwithin.stays hkeeps hends.2.1 hends.2.2) ?_⟩
          intro hnormal
          rw [hinbox] at hnormal
          cases hnormal
      next hnormal =>
      split at hends
      · next hpinned =>
          refine ⟨hends.2.1, iff_of_true (hwithin.stays hkeeps hends.2.1 hends.2.2) ?_⟩
          intro _ hunpinned
          rw [hpinned] at hunpinned
          cases hunpinned
      next hunpinned =>
      split at hends
      · next hnone =>
          refine ⟨hends.2.1, iff_of_true (hwithin.stays hkeeps hends.2.1 hends.2.2) ?_⟩
          intro _ _ _ key hpositive hmax
          exact hperm.mem_iff.mp (lowestFree_eq_none.mp hnone key hpositive hmax)
      · next key hkey =>
          obtain ⟨hpositive, hmax, hnot, -⟩ := lowestFree_eq_some.mp hkey
          have hfree : key ∉ keysIn live stored.notebookId store := fun hmem =>
            hnot (hperm.mem_iff.mpr hmem)
          refine ⟨hends.2.1, ?_⟩
          rw [hwithin.places_iff hkeeps hready hends.2.1 hends.2.2 hlive rfl]
          · constructor
            · exact fun hroom _ _ hfull => absurd hfull (Nat.ne_of_lt hroom)
            · intro hrefuses
              refine Nat.lt_of_le_of_ne (hwithin stored.notebookId) fun hfull => hfree ?_
              exact hrefuses (Bool.eq_false_iff.mpr hnormal) (Bool.eq_false_iff.mpr hunpinned)
                hfull key hpositive hmax
          · intro item hitem hid
            obtain rfl := List.inj_on_of_nodup_map (hkeeps.ids store hready) hitem
              (hheld hlive) hid
            exact Bool.eq_false_iff.mpr hunpinned

/-- A call keeps the limit exactly if full notebooks refuse the pins it asks for. -/
theorem KeepsPlacements.withinPinLimit_step_iff (hkeeps : KeepsPlacements live backend ready)
    (hreads : ReadsPlacements live backend ready) {action : CallClock × PlacementCall}
    (hready : ready store) (hwithin : WithinPinLimit live store)
    (hstep : backend.placementStep cap store action = some after) :
    ready after ∧ (WithinPinLimit live after ↔ backend.FullRefuses live store action) := by
  obtain ⟨clock, call⟩ := action
  have hedits : ∀ (id : Uuid) (edit : NoteEdit), edit.orders → edit ≠ .pinNote →
      some (backend.editNote clock.now id edit store).1 = some after →
        ready after ∧ (WithinPinLimit live after ↔ True) := by
    rintro id edit hedit hpin heq
    obtain rfl := Option.some.inj heq
    obtain ⟨hafter, hkept⟩ :=
      hkeeps.withinPinLimit_editNote hreads hedit hpin hready hwithin clock.now id
    exact ⟨hafter, iff_true_intro hkept⟩
  cases call with
  | createNote note =>
      simp only [NoteStore.placementStep] at hstep
      obtain ⟨⟨-, hpinned⟩, hcreate⟩ := Option.ite_none_right_eq_some.mp hstep
      obtain ⟨⟨done, result⟩, hcreated, rfl⟩ := Option.map_eq_some_iff.mp hcreate
      obtain ⟨hafter, middle, hmiddle, hshifts, hdone⟩ := hkeeps.createPlaced hready hcreated
      refine ⟨hafter, iff_true_intro ?_⟩
      have hkept := hwithin.shifts hkeeps hmiddle hshifts
      rcases hdone with hstays | ⟨key, hplaces, -⟩
      · exact hkept.stays hkeeps hafter hstays
      · refine hkept.places hkeeps hafter hplaces fun _ hnew => ?_
        exact absurd hnew (Bool.eq_false_iff.mp hpinned)
  | pinNote id =>
      obtain rfl := Option.some.inj hstep
      exact hkeeps.withinPinLimit_pinNote hreads hready hwithin clock id
  | unpinNote id => exact hedits id .unpinNote trivial (by simp) hstep
  | reorderNote id newSortKey =>
      exact hedits id (.reorderNote newSortKey) trivial (by simp) hstep
  | starNote id => exact hedits id (.setStarred true) trivial (by simp) hstep
  | unstarNote id => exact hedits id (.setStarred false) trivial (by simp) hstep
  | deleteNote id =>
      obtain rfl := Option.some.inj hstep
      have hdone := hkeeps.delete store id clock.ts clock.now hready
      refine ⟨hdone.ready, iff_true_intro ?_⟩
      rcases hdone.cases with hremoves | hstays
      · exact hwithin.of_subset hkeeps hdone.ready fun item hitem hpinned =>
          ⟨item, ((hremoves item).mp hitem).2, rfl, hpinned, rfl⟩
      · exact hwithin.stays hkeeps hdone.ready hstays
  | updateNote id note =>
      obtain ⟨⟨done, result⟩, hupdate, rfl⟩ := Option.map_eq_some_iff.mp hstep
      obtain ⟨hafter, hcases⟩ := hkeeps.updatePlaced_cases hready hupdate
      refine ⟨hafter, ?_⟩
      rcases hcases with ⟨stored, rfl, hstored, hbody, hnotebook, hheld, hplaces⟩ |
        ⟨hmoved, middle, hmiddle, hshifts, hdone⟩
      · have hfinds : backend.FullRefuses live store (clock, .updateNote stored.id note) ↔
            (note.deletedAt = none → note.isPinned = true → stored.isPinned = false →
              (pinnedIn live stored.notebookId store).length ≠ MAX_PINNED) := by
          simp only [NoteStore.FullRefuses, hstored, Except.ok.injEq, forall_eq', hbody,
            hnotebook, forall_true_left]
        rw [hfinds]
        by_cases hnew : note.deletedAt = none ∧ note.isPinned = true ∧ stored.isPinned = false
        · obtain ⟨hnoteLive, hpinned, hunpinned⟩ := hnew
          have hiff := hwithin.places_iff hkeeps hready hafter hplaces hnoteLive hpinned
            fun item hitem hid => by
              obtain rfl := List.inj_on_of_nodup_map (hkeeps.ids store hready) hitem
                hheld hid
              exact hunpinned
          rw [hiff, hnotebook]
          exact ⟨fun hroom _ _ _ => Nat.ne_of_lt hroom, fun hrefuses =>
            Nat.lt_of_le_of_ne (hwithin _) (hrefuses hnoteLive hpinned hunpinned)⟩
        · refine iff_of_true ?_ fun hnoteLive hpinned hunpinned =>
            absurd ⟨hnoteLive, hpinned, hunpinned⟩ hnew
          refine hwithin.places hkeeps hafter hplaces fun hnoteLive hpinned => ?_
          refine ⟨stored.placement, hheld, rfl, ?_, hnotebook.symm⟩
          by_contra hunpinned
          exact hnew ⟨hnoteLive, hpinned, Bool.eq_false_iff.mpr hunpinned⟩
      · refine iff_of_true ?_ fun stored hstored hbody hnotebook =>
          absurd hnotebook (hmoved stored hstored hbody)
        have hkept := hwithin.shifts hkeeps hmiddle hshifts
        rcases hdone with hstays | ⟨key, hplaces, -⟩
        · exact hkept.stays hkeeps hafter hstays
        · exact hkept.places hkeeps hafter hplaces fun _ hpinned => by cases hpinned

/-- A call that does not return was resequencing. -/
theorem KeepsPlacements.fullRefuses_of_none (hkeeps : KeepsPlacements live backend ready)
    {action : CallClock × PlacementCall} (hready : ready store)
    (hstep : backend.placementStep cap store action = none) :
    backend.FullRefuses live store action := by
  obtain ⟨clock, call⟩ := action
  cases call with
  | updateNote id note =>
      have hupdate := Option.map_eq_none_iff.mp hstep
      intro stored hstored hbody hnotebook
      exact absurd hnotebook (hkeeps.moves_of_none hready hupdate hstored hbody)
  | pinNote id => cases hstep
  | _ => trivial

/-- Where the notes are in their bands, the keys of a full notebook are all taken
exactly if no two of its pinned notes share one. -/
theorem band_taken_iff (hbands : InBands live store) (hnormal : isInbox notebookId = false)
    (hfull : (pinnedIn live notebookId store).length = MAX_PINNED) :
    (∀ key, 1 ≤ key → key ≤ PIN_MAX → key ∈ keysIn live notebookId store) ↔
      ((pinnedIn live notebookId store).map Placement.sortKey).Nodup := by
  have hbanded : ∀ item ∈ live store, item.notebookId = notebookId →
      (item.isPinned = true ↔ 1 ≤ item.sortKey ∧ item.sortKey ≤ PIN_MAX) := by
    intro item hitem hnotebook
    have hband := hbands item hitem
    rwa [Placement.Banded, hnotebook, hnormal, if_neg Bool.false_ne_true] at hband
  have hlength : ((pinnedIn live notebookId store).map Placement.sortKey).length =
      (List.range' 1 PIN_MAX).length := by
    rw [List.length_map, List.length_range', hfull, MAX_PINNED]
  constructor
  · intro htaken
    have hsubset : List.range' 1 PIN_MAX ⊆
        (pinnedIn live notebookId store).map Placement.sortKey := by
      intro key hkey
      obtain ⟨hlow, hhigh⟩ := List.mem_range'_1.mp hkey
      have hmax : key ≤ PIN_MAX := by omega
      obtain ⟨item, hitem, hnotebook, rfl⟩ := mem_keysIn.mp (htaken key hlow hmax)
      exact List.mem_map_of_mem
        (mem_pinnedIn.mpr ⟨hitem, (hbanded item hitem hnotebook).mpr ⟨hlow, hmax⟩, hnotebook⟩)
    have hsubperm := List.subperm_of_subset List.nodup_range' hsubset
    exact (hsubperm.perm_of_length_le (Nat.le_of_eq hlength)).nodup_iff.mp List.nodup_range'
  · intro hdistinct key hlow hhigh
    have hsubset : (pinnedIn live notebookId store).map Placement.sortKey ⊆
        List.range' 1 PIN_MAX := by
      intro taken htaken
      obtain ⟨item, hitem, rfl⟩ := List.mem_map.mp htaken
      obtain ⟨hheld, hpinned, hnotebook⟩ := mem_pinnedIn.mp hitem
      obtain ⟨hleast, hmost⟩ := (hbanded item hheld hnotebook).mp hpinned
      exact List.mem_range'_1.mpr ⟨hleast, by omega⟩
    have hsubperm := List.subperm_of_subset hdistinct hsubset
    have hkey : key ∈ List.range' 1 PIN_MAX := List.mem_range'_1.mpr ⟨hlow, by omega⟩
    have htaken :=
      (hsubperm.perm_of_length_le (Nat.le_of_eq hlength.symm)).mem_iff.mpr hkey
    obtain ⟨item, hitem, rfl⟩ := List.mem_map.mp htaken
    obtain ⟨hheld, -, hnotebook⟩ := mem_pinnedIn.mp hitem
    exact mem_keysIn.mpr ⟨item, hheld, hnotebook, rfl⟩

/-- So a full notebook refuses a pin exactly if its pinned keys differ. -/
theorem fullRefuses_pinNote_iff (hbands : InBands live store) (clock : CallClock) (id : Uuid) :
    backend.FullRefuses live store (clock, .pinNote id) ↔
      ∀ stored, backend.readLiveNote id store = .ok stored →
        isInbox stored.notebookId = false → stored.isPinned = false →
          (pinnedIn live stored.notebookId store).length = MAX_PINNED →
            ((pinnedIn live stored.notebookId store).map Placement.sortKey).Nodup := by
  refine forall_congr' fun stored => forall_congr' fun _ => forall_congr' fun hnormal =>
    forall_congr' fun _ => forall_congr' fun hfull => ?_
  exact band_taken_iff hbands hnormal hfull

end Pinned

end Keeplin
