/-
Two pins that run side by side.  Each reads its note, reads the keys of the notebook
and writes; they get one key exactly where both have read the keys before either
writes.
-/
import Mathlib.Data.List.Infix
import Keeplin.PinLimits

namespace Keeplin

/-- Two calls on one store, each somewhere between its steps. -/
structure PinRace (S : Type) where
  store : S
  phases : Bool → EditPhase

/-- At some moment both calls have taken two of their three steps. -/
def Overlaps (schedule : List Bool) : Prop :=
  ∃ front, front <+: schedule ∧ ∀ caller, front.count caller = 2

namespace NoteStore

variable {S : Type} (backend : NoteStore S)

/-- The next step of an edit: the check of the note, the keys of its notebook, or
the write. -/
def stepPhase (now : DateTime) (store : S) : EditPhase → Option (S × EditPhase)
  | .begun id edit =>
      match backend.readLiveNote id store with
      | .error failure => some (store, .returned edit (.error failure))
      | .ok note => some (store, (edit.checked note).phase edit note)
  | .placing edit read note =>
      match backend.notebookSortProfile note.notebookId store with
      | (store, .error failure) => some (store, .returned edit (.error failure))
      | (store, .ok profile) => some (store, (edit.placed profile (.ok ()) note).phase edit read)
  | .writing edit _ note =>
      let written := backend.updateNote note now store
      some (written.1, .returned edit written.2)
  | .returned _ _ => none

def raceStep (now : DateTime) (race : PinRace S) (caller : Bool) : Option (PinRace S) :=
  (backend.stepPhase now race.store (race.phases caller)).map fun stepped =>
    ⟨stepped.1, Function.update race.phases caller stepped.2⟩

/-- Two pins that have yet to begin. -/
def pinRace (ids : Bool → Uuid) (store : S) : PinRace S :=
  ⟨store, fun caller => .begun (ids caller) .pinNote⟩

end NoteStore

section Overlaps

variable {front : List Bool} {caller : Bool}

theorem overlaps_append_iff :
    Overlaps (front ++ [caller]) ↔ Overlaps front ∨
      ∀ other, (front ++ [caller]).count other = 2 := by
  constructor
  · rintro ⟨early, hprefix, hcounts⟩
    rcases List.prefix_concat_iff.mp hprefix with rfl | hearly
    · exact .inr hcounts
    · exact .inl ⟨early, hearly, hcounts⟩
  · rintro (⟨early, hearly, hcounts⟩ | hcounts)
    · exact ⟨early, hearly.trans (List.prefix_append _ _), hcounts⟩
    · exact ⟨_, List.prefix_refl _, hcounts⟩

theorem not_overlaps_of_count (hcount : front.count caller < 2) : ¬ Overlaps front := by
  rintro ⟨early, hearly, hcounts⟩
  have hle := hearly.sublist.count_le caller
  have htwo := hcounts caller
  omega

instance (schedule : List Bool) : Decidable (Overlaps schedule) :=
  decidable_of_iff (∃ front ∈ schedule.inits, ∀ caller, front.count caller = 2)
    (exists_congr fun front => and_congr_left' (List.mem_inits front schedule))

end Overlaps

/-- Two calls that pin get different keys unless they overlap, and two notes that
are pinned already keep the keys they have. -/
def PinsApart (start : Bool → Placement) (schedule : List Bool) : Prop :=
  ((∀ caller, (start caller).isPinned = false) → ¬ Overlaps schedule) ∧
    ((∀ caller, (start caller).isPinned = true) →
      (start true).sortKey ≠ (start false).sortKey)

section Standing

variable {S : Type} (live : S → List Placement)

/-- Where a pin of a note stands after so many steps, and the key it has drawn. -/
inductive Standing (start : Placement) (store : S) : EditPhase → Nat → Option Nat → Prop
  | begun (hheld : start ∈ live store) : Standing start store (.begun start.id .pinNote) 0 none
  | kept (result : Note) (hheld : start ∈ live store) (hpinned : start.isPinned = true) :
      Standing start store (.returned .pinNote (.ok result)) 1 none
  | placing (read note : Note) (hheld : start ∈ live store) (hplacement : note.placement = start)
      (hlive : note.deletedAt = none) (hunpinned : start.isPinned = false) :
      Standing start store (.placing .pinNote read note) 1 none
  | writing (read note : Note) (key : Nat) (hheld : start ∈ live store)
      (hplacement : note.placement = { start with isPinned := true, sortKey := key })
      (hlive : note.deletedAt = none) (hunpinned : start.isPinned = false) :
      Standing start store (.writing .pinNote read note) 2 (some key)
  | pinned (result : Note) (key : Nat)
      (hheld : { start with isPinned := true, sortKey := key } ∈ live store)
      (hunpinned : start.isPinned = false) :
      Standing start store (.returned .pinNote (.ok result)) 3 (some key)
  | refused (failure : StorageError) (count : Nat) (hheld : start ∈ live store) :
      Standing start store (.returned .pinNote (.error failure)) count none

variable {live} {ready : S → Prop} {backend : NoteStore S} {start : Placement}
  {store after : S} {phase next : EditPhase} {count : Nat} {drawn : Option Nat} {now : DateTime}

/-- A call stands where it stood if its note does. -/
theorem Standing.of_held (hstanding : Standing live start store phase count drawn)
    (hsame : ∀ item, item.id = start.id → item ∈ live store → item ∈ live after) :
    Standing live start after phase count drawn := by
  cases hstanding with
  | begun hheld => exact .begun (hsame _ rfl hheld)
  | kept result hheld hpinned => exact .kept result (hsame _ rfl hheld) hpinned
  | placing read note hheld hplacement hlive hunpinned =>
      exact .placing read note (hsame _ rfl hheld) hplacement hlive hunpinned
  | writing read note key hheld hplacement hlive hunpinned =>
      exact .writing read note key (hsame _ rfl hheld) hplacement hlive hunpinned
  | pinned result key hheld hunpinned =>
      exact .pinned result key (hsame _ rfl hheld) hunpinned
  | refused failure count hheld => exact .refused failure count (hsame _ rfl hheld)

/-- What one step of a pin does: it leaves the notes, maybe drawing the first free
key, or it writes its note with the key that it has drawn. -/
inductive Steps (live : S → List Placement) (start : Placement) (store after : S) :
    Nat → Option Nat → Option Nat → Prop
  | stays (count : Nat) (hstays : Stays live store after) :
      Steps live start store after count none none
  | draws (key : Nat) (hstays : Stays live store after) (hheld : start ∈ live store)
      (hfirst : lowestFreePinnedKey
        (NotebookSortProfile.fromEffectiveKeys (keysIn live start.notebookId store)).pinnedKeys =
          some key) : Steps live start store after 1 none (some key)
  | writes (key : Nat) (hheld : start ∈ live store) (hunpinned : start.isPinned = false)
      (hwritten : { start with isPinned := true, sortKey := key } ∈ live after)
      (hother : ∀ item, item.id ≠ start.id → (item ∈ live after ↔ item ∈ live store)) :
      Steps live start store after 2 (some key) (some key)

theorem KeepsPlacements.steps_pin (hkeeps : KeepsPlacements live backend ready)
    (hreads : ReadsPlacements live backend ready) (hready : ready store)
    (hstanding : Standing live start store phase count drawn)
    (hstep : backend.stepPhase now store phase = some (after, next)) :
    ready after ∧ ∃ redrawn, Standing live start after next (count + 1) redrawn ∧
      Steps live start store after count drawn redrawn := by
  cases hstanding with
  | kept result hheld hpinned => cases hstep
  | pinned result key hheld hunpinned => cases hstep
  | refused failure count hheld => cases hstep
  | begun hheld =>
      obtain ⟨note, hnote, hplacement⟩ := hreads.found store start hready hheld
      obtain ⟨hread, hlive⟩ := readLiveNote_eq_ok.mp hnote
      simp only [NoteStore.stepPhase, hnote, Option.some.injEq, Prod.mk.injEq] at hstep
      obtain ⟨rfl, rfl⟩ := hstep
      refine ⟨hready, none, ?_, .stays 0 (Stays.refl store)⟩
      by_cases hinbox : isInbox note.notebookId = true
      · simp only [NoteEdit.checked, if_pos hinbox]
        exact .refused _ _ hheld
      by_cases hpinned : note.isPinned = true
      · simp only [NoteEdit.checked, if_neg hinbox, if_pos hpinned]
        exact .kept _ hheld (hplacement ▸ hpinned)
      · simp only [NoteEdit.checked, if_neg hinbox, if_neg hpinned]
        refine .placing _ _ hheld hplacement hlive ?_
        rw [← hplacement]
        exact Bool.eq_false_iff.mpr hpinned
  | placing read note hheld hplacement hlive hunpinned =>
      obtain ⟨middle, keys, hprofile, hmiddle, hstays, hperm⟩ :=
        hkeeps.profile store note.notebookId hready
      simp only [NoteStore.stepPhase, hprofile, Option.some.injEq, Prod.mk.injEq] at hstep
      obtain ⟨rfl, rfl⟩ := hstep
      refine ⟨hmiddle, ?_⟩
      have hheldMiddle := (hstays start).mpr hheld
      cases hfree : lowestFreePinnedKey
          (NotebookSortProfile.fromEffectiveKeys keys).pinnedKeys with
      | none =>
          simp only [NoteEdit.placed, hfree]
          exact ⟨none, .refused _ _ hheldMiddle, .stays 1 hstays⟩
      | some key =>
          simp only [NoteEdit.placed, hfree]
          obtain ⟨hpositive, -⟩ := lowestFree_eq_some.mp hfree
          refine ⟨some key, .writing _ _ key hheldMiddle ?_ hlive hunpinned, ?_⟩
          · have hkey : ({ note with isPinned := true, sortKey := key } :
                Note).effectiveSortKey = key := if_neg (Nat.pos_iff_ne_zero.mp hpositive)
            rw [← hplacement]
            simp only [Note.placement, hkey]
          · refine .draws key hstays hheld ?_
            have hkeys : keys.Perm (keysIn live start.notebookId store) := hplacement ▸ hperm
            rw [← lowestFree_congr fun key => hkeys.mem_iff]
            exact hfree
  | writing read note key hheld hplacement hlive hunpinned =>
      have hid : start.id = note.id := congrArg Placement.id hplacement.symm
      obtain ⟨found, hfound, -⟩ := hreads.found store start hready hheld
      obtain ⟨⟨updated, hupdated⟩, hafter, hplaces⟩ :=
        hkeeps.updateNote_of_live now hready (hid ▸ hfound)
      simp only [NoteStore.stepPhase, Option.some.injEq, Prod.mk.injEq, hupdated] at hstep
      obtain ⟨rfl, rfl⟩ := hstep
      have hwritten := (hplaces _).mpr (.inl ⟨hplacement.symm, hlive⟩)
      refine ⟨hafter, some key, .pinned updated key hwritten hunpinned, ?_⟩
      · refine .writes key hheld hunpinned hwritten fun item hne => ?_
        rw [hplaces]
        constructor
        · rintro (⟨rfl, -⟩ | ⟨-, hold⟩)
          · exact absurd hid.symm hne
          · exact hold
        · exact fun hold => .inr ⟨hid ▸ hne, hold⟩

end Standing

section Race

variable {S : Type} (live : S → List Placement) (ready : S → Prop)

/-- What holds of a race after a part of its schedule: the other notes stand as they
stood, a key drawn before the other call has written is the first free one at the
start, and two drawn keys are the same if the calls overlapped. -/
structure RaceStands (start : Bool → Placement) (notebookId : Uuid) (store : S)
    (front : List Bool) (race : PinRace S) (drawn : Bool → Option Nat) : Prop where
  ready : ready race.store
  others : ∀ item, (∀ caller, item.id ≠ (start caller).id) →
    (item ∈ live race.store ↔ item ∈ live store)
  standing : ∀ caller, Standing live (start caller) race.store (race.phases caller)
    (front.count caller) (drawn caller)
  first : ∀ caller key, drawn caller = some key → start (!caller) ∈ live race.store →
    lowestFreePinnedKey (NotebookSortProfile.fromEffectiveKeys
      (keysIn live notebookId store)).pinnedKeys = some key
  same : ∀ caller key other, drawn caller = some key → drawn (!caller) = some other →
    (key = other ↔ Overlaps front)

variable {live ready} {backend : NoteStore S} {start : Bool → Placement} {notebookId : Uuid}
  {store : S} {front schedule : List Bool} {race after final : PinRace S}
  {drawn : Bool → Option Nat} {caller : Bool} {now : DateTime}

/-- Where both notes are as at the start, so is the store. -/
theorem RaceStands.stays (hkeeps : KeepsPlacements live backend ready)
    (hstore : ready store) (hstart : ∀ caller, start caller ∈ live store)
    (hrace : RaceStands live ready start notebookId store front race drawn)
    (hheld : ∀ caller, start caller ∈ live race.store) : Stays live store race.store := by
  intro item
  by_cases hid : ∃ caller, item.id = (start caller).id
  · obtain ⟨caller, hid⟩ := hid
    have hone : ∀ {store : S}, ready store → start caller ∈ live store →
        item ∈ live store → item = start caller := fun hready hcaller hitem =>
      List.inj_on_of_nodup_map (hkeeps.ids _ hready) hitem hcaller hid
    constructor
    · exact fun hitem => hone hrace.ready (hheld caller) hitem ▸ hstart caller
    · exact fun hitem => hone hstore (hstart caller) hitem ▸ hheld caller
  · exact hrace.others item fun caller heq => hid ⟨caller, heq⟩

theorem Stays.keysIn {after : S} (hstays : Stays live store after) (key : Nat) :
    key ∈ keysIn live notebookId after ↔ key ∈ Keeplin.keysIn live notebookId store := by
  rw [mem_keysIn, mem_keysIn]
  exact exists_congr fun item => and_congr_left' (hstays item)

theorem count_append_self (front : List Bool) (caller : Bool) :
    (front ++ [caller]).count caller = front.count caller + 1 := by
  rw [List.count_append, List.count_singleton_self]

theorem count_append_not (front : List Bool) (caller : Bool) :
    (front ++ [caller]).count (!caller) = front.count (!caller) := by
  have hnot : (!caller) ∉ [caller] := by cases caller <;> decide
  rw [List.count_append, List.count_eq_zero_of_not_mem hnot, Nat.add_zero]

/-- A step leaves the other call's note where it stands. -/
theorem Steps.other {count : Nat} {before redrawn : Option Nat} {first : Placement}
    {stored stepped : S} (hsteps : Steps live first stored stepped count before redrawn)
    {item : Placement} (hne : item.id ≠ first.id) :
    item ∈ live stepped ↔ item ∈ live stored := by
  cases hsteps with
  | stays count hstays => exact hstays item
  | draws key hstays hheld hfirst => exact hstays item
  | writes key hheld hunpinned hwritten hother => exact hother item hne

/-- The key that is drawn while the other note stands as at the start. -/
theorem RaceStands.first_of_draws (hkeeps : KeepsPlacements live backend ready)
    (hnotebook : ∀ caller, (start caller).notebookId = notebookId)
    (hstore : ready store) (hstart : ∀ caller, start caller ∈ live store)
    (hrace : RaceStands live ready start notebookId store front race drawn)
    (hheld : start caller ∈ live race.store) (hother : start (!caller) ∈ live race.store)
    {key : Nat} (hfirst : lowestFreePinnedKey (NotebookSortProfile.fromEffectiveKeys
      (keysIn live (start caller).notebookId race.store)).pinnedKeys = some key) :
    lowestFreePinnedKey (NotebookSortProfile.fromEffectiveKeys
      (keysIn live notebookId store)).pinnedKeys = some key := by
  have hstays := hrace.stays hkeeps hstore hstart fun which => by
    by_cases hwhich : which = caller
    · exact hwhich ▸ hheld
    · obtain rfl : which = !caller := Bool.eq_not_of_ne hwhich
      exact hother
  rw [hnotebook, lowestFree_congr fun key => hstays.keysIn key] at hfirst
  exact hfirst

/-- The two keys after a step of one call. -/
theorem RaceStands.same_of_steps (hkeeps : KeepsPlacements live backend ready)
    (hnotebook : ∀ caller, (start caller).notebookId = notebookId)
    (hstore : ready store) (hstart : ∀ caller, start caller ∈ live store)
    (hrace : RaceStands live ready start notebookId store front race drawn)
    {stepped : S} {redrawn : Option Nat}
    (hsteps : Steps live (start caller) race.store stepped (front.count caller) (drawn caller)
      redrawn) {key other : Nat} (hkey : redrawn = some key)
    (hotherKey : drawn (!caller) = some other) :
    key = other ↔ Overlaps (front ++ [caller]) := by
  have hcount := count_append_self front caller
  have hcountNot := count_append_not front caller
  generalize hbefore : drawn caller = before at hsteps
  generalize hfront : front.count caller = count at hsteps
  cases hsteps with
  | stays count hstays => cases hkey
  | writes drawnKey hheld hunpinned hwritten hothers =>
      obtain rfl := Option.some.inj hkey
      rw [hrace.same caller _ other hbefore hotherKey, overlaps_append_iff]
      refine (or_iff_left fun hcounts => ?_).symm
      have htwo := hcounts caller
      omega
  | draws drawnKey hstays hheld hfirst =>
      obtain rfl := Option.some.inj hkey
      have hstanding := hrace.standing (!caller)
      rw [hotherKey] at hstanding
      generalize hphase : race.phases (!caller) = phase at hstanding
      generalize hfrontNot : front.count (!caller) = countNot at hstanding
      cases hstanding with
      | writing read note other hheldOther hplacement hlive hunpinned =>
          -- Neither has written, so both drew the first free key of the start.
          have hfirstNow :=
            hrace.first_of_draws hkeeps hnotebook hstore hstart hheld hheldOther hfirst
          have hfirstOther := hrace.first (!caller) other hotherKey (by rwa [Bool.not_not])
          have hboth : ∀ which, (front ++ [caller]).count which = 2 := by
            intro which
            by_cases hwhich : which = caller
            · subst hwhich
              omega
            · obtain rfl : which = !caller := Bool.eq_not_of_ne hwhich
              omega
          refine iff_of_true ?_ (overlaps_append_iff.mpr (.inr hboth))
          exact Option.some.inj (hfirstNow.symm.trans hfirstOther)
      | pinned result other hheldOther hunpinned =>
          -- The other has written its key, which is then not free.
          refine iff_of_false ?_ fun hoverlaps => ?_
          · rintro rfl
            obtain ⟨-, -, hfree, -⟩ := lowestFree_eq_some.mp hfirst
            refine hfree (mem_keysIn.mpr ⟨_, hheldOther, ?_, rfl⟩)
            exact (hnotebook _).trans (hnotebook caller).symm
          · rcases overlaps_append_iff.mp hoverlaps with hearlier | hcounts
            · exact not_overlaps_of_count (by omega : front.count caller < 2) hearlier
            · have htwo := hcounts (!caller)
              omega

theorem RaceStands.step (hkeeps : KeepsPlacements live backend ready)
    (hreads : ReadsPlacements live backend ready)
    (hids : ∀ caller, (start caller).id ≠ (start (!caller)).id)
    (hnotebook : ∀ caller, (start caller).notebookId = notebookId)
    (hstore : ready store) (hstart : ∀ caller, start caller ∈ live store)
    (hrace : RaceStands live ready start notebookId store front race drawn)
    (hstep : backend.raceStep now race caller = some after) :
    ∃ redrawn, RaceStands live ready start notebookId store (front ++ [caller]) after redrawn := by
  obtain ⟨⟨stepped, next⟩, hphase, rfl⟩ := Option.map_eq_some_iff.mp hstep
  obtain ⟨hready, drawnNow, hstanding, hsteps⟩ :=
    hkeeps.steps_pin hreads hrace.ready (hrace.standing caller) hphase
  have hcount := count_append_self front caller
  have hcountNot := count_append_not front caller
  have hother : ∀ item, item.id = (start (!caller)).id →
      (item ∈ live stepped ↔ item ∈ live race.store) := fun item hid =>
    hsteps.other (hid ▸ (hids caller).symm)
  have hne : (!caller) ≠ caller := Bool.not_ne_self caller
  have hsame : ∀ key other, drawnNow = some key → drawn (!caller) = some other →
      (key = other ↔ Overlaps (front ++ [caller])) := fun key other hkey hotherKey =>
    hrace.same_of_steps hkeeps hnotebook hstore hstart hsteps hkey hotherKey
  generalize hbefore : drawn caller = before at hsteps
  generalize hfront : front.count caller = count at hsteps
  refine ⟨Function.update drawn caller drawnNow, hready, ?_, ?_, ?_, ?_⟩
  · exact fun item hitem => (hsteps.other (hitem caller)).trans (hrace.others item hitem)
  · intro which
    by_cases hwhich : which = caller
    · subst hwhich
      simp only [Function.update_self]
      rw [hcount]
      exact hstanding
    · obtain rfl : which = !caller := Bool.eq_not_of_ne hwhich
      simp only [Function.update_of_ne hne]
      rw [hcountNot]
      exact (hrace.standing _).of_held fun item hid => (hother item hid).mpr
  · intro which key hkey hlater
    by_cases hwhich : which = caller
    · subst hwhich
      rw [Function.update_self] at hkey
      have hheldOther := (hother _ rfl).mp hlater
      cases hsteps with
      | stays count hstays => cases hkey
      | draws drawnKey hstays hheld hfirst =>
          exact hrace.first_of_draws hkeeps hnotebook hstore hstart hheld hheldOther
            (hkey ▸ hfirst)
      | writes drawnKey hheld hunpinned hwritten hothers =>
          exact hrace.first which key (hbefore.trans hkey) hheldOther
    · obtain rfl : which = !caller := Bool.eq_not_of_ne hwhich
      rw [Function.update_of_ne hne] at hkey
      rw [Bool.not_not] at hlater
      refine hrace.first _ key hkey ?_
      rw [Bool.not_not]
      cases hsteps with
      | stays count hstays => exact (hstays _).mp hlater
      | draws drawnKey hstays hheld hfirst => exact hheld
      | writes drawnKey hheld hunpinned hwritten hothers => exact hheld
  · intro which key other hkey hotherKey
    by_cases hwhich : which = caller
    · subst hwhich
      rw [Function.update_self] at hkey
      rw [Function.update_of_ne hne] at hotherKey
      exact hsame key other hkey hotherKey
    · obtain rfl : which = !caller := Bool.eq_not_of_ne hwhich
      rw [Function.update_of_ne hne] at hkey
      rw [Bool.not_not, Function.update_self] at hotherKey
      rw [eq_comm]
      exact hsame other key hotherKey hkey

theorem RaceStands.run (hkeeps : KeepsPlacements live backend ready)
    (hreads : ReadsPlacements live backend ready)
    (hids : ∀ caller, (start caller).id ≠ (start (!caller)).id)
    (hnotebook : ∀ caller, (start caller).notebookId = notebookId)
    (hstore : ready store) (hstart : ∀ caller, start caller ∈ live store)
    (hrace : RaceStands live ready start notebookId store front race drawn)
    (hrun : runAll (backend.raceStep now) race schedule = some final) :
    ∃ redrawn,
      RaceStands live ready start notebookId store (front ++ schedule) final redrawn := by
  induction schedule generalizing front race drawn with
  | nil =>
      rw [runAll_nil, Option.some.injEq] at hrun
      rw [List.append_nil]
      exact ⟨drawn, hrun ▸ hrace⟩
  | cons caller rest ih =>
      obtain ⟨after, hstep, hrest⟩ := (runAll_cons_eq_some _).mp hrun
      obtain ⟨redrawn, hafter⟩ := hrace.step hkeeps hreads hids hnotebook hstore hstart hstep
      rw [← List.singleton_append, ← List.append_assoc]
      exact ih hafter hrest

/-- A pin that has succeeded either found its note pinned or has written the key that
it drew. -/
theorem RaceStands.placed (hrace : RaceStands live ready start notebookId store front race drawn)
    (hdone : ∃ result, race.phases caller = .returned .pinNote (.ok result)) :
    (start caller ∈ live race.store ∧ (start caller).isPinned = true) ∨
      ∃ key, drawn caller = some key ∧ (start caller).isPinned = false ∧
        { start caller with isPinned := true, sortKey := key } ∈ live race.store := by
  obtain ⟨result, hphase⟩ := hdone
  have hstanding := hrace.standing caller
  rw [hphase] at hstanding
  generalize hkey : drawn caller = key at hstanding
  generalize front.count caller = count at hstanding
  cases hstanding with
  | kept result hheld hpinned => exact .inl ⟨hheld, hpinned⟩
  | pinned result key hheld hunpinned => exact .inr ⟨key, rfl, hunpinned, hheld⟩

/-- A key drawn beside a note that was pinned already is not the note's. -/
theorem RaceStands.key_ne_of_kept
    (hnotebook : ∀ caller, (start caller).notebookId = notebookId)
    (hstart : ∀ caller, start caller ∈ live store)
    (hrace : RaceStands live ready start notebookId store front race drawn) {key : Nat}
    (hkey : drawn caller = some key) (hheld : start (!caller) ∈ live race.store) :
    key ≠ (start (!caller)).sortKey := by
  rintro rfl
  obtain ⟨-, -, hfree, -⟩ := lowestFree_eq_some.mp (hrace.first caller _ hkey hheld)
  exact hfree (mem_keysIn.mpr ⟨_, hstart _, hnotebook _, rfl⟩)

/-- Two pins that both succeed leave their notes on different keys exactly if they
do not overlap, where both notes were not pinned before. -/
theorem KeepsPlacements.pinRace_apart_iff (hkeeps : KeepsPlacements live backend ready)
    (hreads : ReadsPlacements live backend ready)
    (hids : (start true).id ≠ (start false).id)
    (hnotebook : (start true).notebookId = (start false).notebookId)
    (hstore : ready store) (hstart : ∀ caller, start caller ∈ live store)
    (hrun : runAll (backend.raceStep now)
      (NoteStore.pinRace (fun caller => (start caller).id) store)
      schedule = some final)
    (hdone : ∀ caller, ∃ result, final.phases caller = .returned .pinNote (.ok result)) :
    ∃ first second, first ∈ live final.store ∧ first.id = (start true).id ∧
      second ∈ live final.store ∧ second.id = (start false).id ∧
        (first.sortKey ≠ second.sortKey ↔ PinsApart start schedule) := by
  have hidsNot : ∀ caller, (start caller).id ≠ (start (!caller)).id := by
    intro caller
    cases caller
    · exact hids.symm
    · exact hids
  have hbook : ∀ caller, (start caller).notebookId = (start false).notebookId := by
    intro caller
    cases caller
    · rfl
    · exact hnotebook
  have hbegun : RaceStands live ready start (start false).notebookId store []
      (NoteStore.pinRace (fun caller => (start caller).id) store) fun _ => none := by
    refine ⟨hstore, fun _ _ => Iff.rfl, fun caller => .begun (hstart caller), ?_, ?_⟩
    · exact fun _ _ hkey => by cases hkey
    · exact fun _ _ _ hkey => by cases hkey
  obtain ⟨drawn, hfinal⟩ := hbegun.run hkeeps hreads hidsNot hbook hstore hstart hrun
  rw [List.nil_append] at hfinal
  rcases hfinal.placed (hdone true) with
    ⟨htrue, htruePinned⟩ | ⟨keyTrue, htrueKey, htrueNew, htrue⟩
  · rcases hfinal.placed (hdone false) with
      ⟨hfalse, hfalsePinned⟩ | ⟨keyFalse, hfalseKey, hfalseNew, hfalse⟩
    · refine ⟨_, _, htrue, rfl, hfalse, rfl, ?_⟩
      have hpinned : ∀ caller, (start caller).isPinned = true :=
        Bool.forall_bool.mpr ⟨hfalsePinned, htruePinned⟩
      constructor
      · intro hne
        refine ⟨fun hnew => ?_, fun _ => hne⟩
        rw [hnew true] at htruePinned
        cases htruePinned
      · exact fun hapart => hapart.2 hpinned
    · refine ⟨_, _, htrue, rfl, hfalse, rfl, iff_of_true ?_ ⟨fun hnew => ?_, fun hpinned => ?_⟩⟩
      · exact (hfinal.key_ne_of_kept hbook hstart hfalseKey htrue).symm
      · rw [hnew true] at htruePinned
        cases htruePinned
      · rw [hpinned false] at hfalseNew
        cases hfalseNew
  · rcases hfinal.placed (hdone false) with
      ⟨hfalse, hfalsePinned⟩ | ⟨keyFalse, hfalseKey, hfalseNew, hfalse⟩
    · refine ⟨_, _, htrue, rfl, hfalse, rfl, iff_of_true ?_ ⟨fun hnew => ?_, fun hpinned => ?_⟩⟩
      · exact hfinal.key_ne_of_kept hbook hstart htrueKey hfalse
      · rw [hnew false] at hfalsePinned
        cases hfalsePinned
      · rw [hpinned true] at htrueNew
        cases htrueNew
    · refine ⟨_, _, htrue, rfl, hfalse, rfl, ?_⟩
      have hsame := hfinal.same true keyTrue keyFalse htrueKey hfalseKey
      have hnew : ∀ caller, (start caller).isPinned = false :=
        Bool.forall_bool.mpr ⟨hfalseNew, htrueNew⟩
      constructor
      · intro hne
        refine ⟨fun _ hoverlaps => hne (hsame.mpr hoverlaps), fun hpinned => ?_⟩
        rw [hpinned true] at htrueNew
        cases htrueNew
      · exact fun hapart heq => hapart.1 hnew (hsame.mp heq)

end Race

/-- A run keeps the limit exactly if full notebooks refuse its pins, which they do
exactly while their pinned keys differ; and two pins side by side get different keys
exactly if they do not overlap. -/
structure PinsKept {S : Type} (live : S → List Placement) (backend : NoteStore S)
    (ready : S → Prop) (cap : Nat) : Prop where
  limit : ∀ store actions, ready store → WithinPinLimit live store →
    ((∀ front, front <+: actions → ∀ reached,
        runAll (backend.placementStep cap) store front = some reached →
          WithinPinLimit live reached) ↔
      MeetsAll (backend.placementStep cap) (backend.FullRefuses live) store actions)
  refuses : ∀ store clock id, InBands live store →
    (backend.FullRefuses live store (clock, .pinNote id) ↔
      ∀ stored, backend.readLiveNote id store = .ok stored →
        isInbox stored.notebookId = false → stored.isPinned = false →
          (pinnedIn live stored.notebookId store).length = MAX_PINNED →
            ((pinnedIn live stored.notebookId store).map Placement.sortKey).Nodup)
  keys : ∀ store now (start : Bool → Placement) schedule final, ready store →
    (∀ caller, start caller ∈ live store) → (start true).id ≠ (start false).id →
    (start true).notebookId = (start false).notebookId →
    runAll (backend.raceStep now)
      (NoteStore.pinRace (fun caller => (start caller).id) store) schedule = some final →
    (∀ caller, ∃ result, final.phases caller = .returned .pinNote (.ok result)) →
      ∃ first second, first ∈ live final.store ∧ first.id = (start true).id ∧
        second ∈ live final.store ∧ second.id = (start false).id ∧
          (first.sortKey ≠ second.sortKey ↔ PinsApart start schedule)

theorem KeepsPlacements.pinsKept {S : Type} {live : S → List Placement} {backend : NoteStore S}
    {ready : S → Prop} (hkeeps : KeepsPlacements live backend ready)
    (hreads : ReadsPlacements live backend ready) (cap : Nat) :
    PinsKept live backend ready cap where
  limit store actions hready hwithin := by
    refine forall_reached_iff_meetsAll_of_ready _ ?_ ?_ hready hwithin
    · exact fun _ _ hready hstep => hkeeps.fullRefuses_of_none hready hstep
    · exact fun _ _ _ _ hready hwithin hstep =>
        hkeeps.withinPinLimit_step_iff hreads hready hwithin hstep
  refuses _ clock id hbands := fullRefuses_pinNote_iff hbands clock id
  keys _ _ _ _ _ hready hstart hids hnotebook hrun hdone :=
    hkeeps.pinRace_apart_iff hreads hids hnotebook hready hstart hrun hdone

/-- In either store, and for any cap of notes. -/
theorem pins_kept (cap : Nat) :
    (∀ serverHistory, PinsKept Db.placements (Db.noteStore serverHistory) (fun _ => True) cap) ∧
      ∀ place, PinsKept IndexedTree.placements (IndexedTree.noteStore place)
        IndexedTree.Current cap := by
  constructor
  · intro serverHistory
    exact (Db.keepsPlacements serverHistory).pinsKept (Db.readsPlacements serverHistory) cap
  · intro place
    exact (IndexedTree.keepsPlacements place).pinsKept (IndexedTree.readsPlacements place) cap

namespace PinRaceWitness

def noServer : Uuid → Nat → Option (List (EntityVersion Note)) := fun _ _ => none

/-- A note of a normal notebook, the first unpinned and the others pinned on the keys
of their ids. -/
def shown (id : Uuid) : Note :=
  { id := id, title := "", body := "", notebookId := 1, isTodo := false
    todoDue := none, todoCompleted := none, createdAt := 0, updatedAt := 0
    deletedAt := none, «alias» := none, bookmarks := [], links := []
    vv := ∅, lastWriter := "", isPinned := decide (0 < id), isStarred := false
    sortKey := if id = 0 then 1000 else id }

def unpinned (id : Uuid) : Note := { shown id with isPinned := false, sortKey := 1000 }

def succeeded : EditPhase → Bool
  | .returned .pinNote (.ok _) => true
  | _ => false

def places (caller : Bool) : Placement := (unpinned (if caller then 0 else 1)).placement

theorem exists_of_succeeded {phase : EditPhase} (hdone : succeeded phase = true) :
    ∃ result, phase = .returned .pinNote (.ok result) := by
  unfold succeeded at hdone
  split at hdone
  · exact ⟨_, rfl⟩
  · cases hdone

theorem places_held (caller : Bool) : places caller ∈ (rowsOf unpinned 2).placements := by
  refine (mem_placements_rowsOf (fun _ => rfl) fun _ => rfl).mpr ⟨if caller then 0 else 1, ?_, rfl⟩
  split <;> decide

/-- Each call runs as a whole. -/
def inTurn : List Bool := [true, true, true, false, false, false]

/-- Both read the keys before either writes. -/
def together : List Bool := [true, true, false, false, true, false]

theorem exists_run (schedule : List Bool)
    (hrun : (runAll ((Db.noteStore noServer).raceStep 0)
      (NoteStore.pinRace (fun caller => (places caller).id) (rowsOf unpinned 2)) schedule).any
        (fun final => succeeded (final.phases true) && succeeded (final.phases false)) = true) :
    ∃ final, runAll ((Db.noteStore noServer).raceStep 0)
        (NoteStore.pinRace (fun caller => (places caller).id) (rowsOf unpinned 2)) schedule =
          some final ∧
      ∀ caller, ∃ result, final.phases caller = .returned .pinNote (.ok result) := by
  obtain ⟨final, hfinal, hdone⟩ := (Option.any_eq_true _ _).mp hrun
  obtain ⟨htrue, hfalse⟩ := Bool.and_eq_true_iff.mp hdone
  refine ⟨final, hfinal, Bool.forall_bool.mpr ⟨?_, ?_⟩⟩
  · exact exists_of_succeeded hfalse
  · exact exists_of_succeeded htrue

theorem pins_kept_in_turn : ∃ final : PinRace Db, ∃ first ∈ final.store.placements,
    ∃ second ∈ final.store.placements,
      first.id = 0 ∧ second.id = 1 ∧ first.sortKey ≠ second.sortKey := by
  obtain ⟨final, hrun, hdone⟩ := exists_run inTurn (by decide +kernel)
  obtain ⟨first, second, hfirst, hfirstId, hsecond, hsecondId, hiff⟩ :=
    ((pins_kept 1).1 noServer).keys _ _ places _ _ trivial places_held (by decide) rfl hrun hdone
  refine ⟨final, first, hfirst, second, hsecond, hfirstId, hsecondId, hiff.mpr ⟨?_, ?_⟩⟩
  · exact fun _ => by decide
  · exact fun hpinned => by cases hpinned true

theorem shown_held {item : Placement} :
    item ∈ (rowsOf shown 1000).placements ↔ ∃ id, id < 1000 ∧ (shown id).placement = item :=
  mem_placements_rowsOf (fun _ => rfl) fun _ => rfl

theorem key_shown {id : Uuid} (hpositive : 0 < id) : (shown id).effectiveSortKey = id := by
  have hne : id ≠ 0 := Nat.pos_iff_ne_zero.mp hpositive
  simp [Note.effectiveSortKey, shown, hne]

theorem shown_inBands : InBands Db.placements (rowsOf shown 1000) := by
  intro item hitem
  obtain ⟨id, hlt, rfl⟩ := shown_held.mp hitem
  rcases Nat.eq_zero_or_pos id with rfl | hpositive
  · decide
  · refine (banded_normal (show ¬ isInbox 1 = true by decide)).mpr ?_
    rw [key_shown hpositive]
    exact iff_of_true (decide_eq_true hpositive) ⟨hpositive, Nat.le_of_lt_succ hlt⟩

theorem shown_withinPinLimit : WithinPinLimit Db.placements (rowsOf shown 1000) := by
  intro notebookId
  have hids : ∀ item ∈ pinnedIn Db.placements notebookId (rowsOf shown 1000),
      item.id ∈ List.range' 1 MAX_PINNED := by
    intro item hitem
    obtain ⟨hheld, hpinned, -⟩ := mem_pinnedIn.mp hitem
    obtain ⟨id, hlt, rfl⟩ := shown_held.mp hheld
    have hpositive : 0 < id := of_decide_eq_true hpinned
    rw [List.mem_range'_1]
    exact ⟨hpositive, hlt⟩
  have hle := (Db.keepsPlacements noServer).length_pinnedIn_le trivial hids
  rwa [List.length_range'] at hle

def clock : CallClock := ⟨0, 0, fun _ => 0, 1⟩

/-- The second note goes to the key of the third, and the first is pinned. -/
def crowded : List (CallClock × PlacementCall) :=
  [(clock, .reorderNote 1 2), (clock, .pinNote 0)]

/-- After the first of the two calls the second and the third note share a key. -/
theorem exists_shared : ∃ middle,
    (Db.noteStore noServer).placementStep 1 (rowsOf shown 1000) (clock, .reorderNote 1 2) =
      some middle ∧
    WithinPinLimit Db.placements middle ∧
      Places Db.placements { shown 1 with sortKey := 2 } (rowsOf shown 1000) middle := by
  have hstored := readLiveNote_rowsOf noServer (fun id => (rfl : (shown id).id = id))
    (fun _ => rfl) (by decide : 1 < 1000)
  obtain ⟨keys, -, -, -, hplaces⟩ := (Db.keepsPlacements noServer).editNote_ends
    (Db.readsPlacements noServer) (show (NoteEdit.reorderNote 2).orders from trivial) clock.now
    trivial hstored
  refine ⟨_, rfl, ?_, hplaces⟩
  exact ((Db.keepsPlacements noServer).withinPinLimit_editNote (Db.readsPlacements noServer)
    (show (NoteEdit.reorderNote 2).orders from trivial) (by simp) trivial shown_withinPinLimit
    clock.now 1).2

theorem crowded_exceeds : ∃ reached,
    runAll ((Db.noteStore noServer).placementStep 1) (rowsOf shown 1000) crowded = some reached ∧
      ¬ WithinPinLimit Db.placements reached := by
  obtain ⟨middle, hstep, hwithin, hplaces⟩ := exists_shared
  have hheld : ∀ id, id < 1000 → id ≠ 1 → (shown id).placement ∈ middle.placements :=
    fun id hlt hne => (hplaces _).mpr (.inr ⟨hne, shown_held.mpr ⟨id, hlt, rfl⟩⟩)
  obtain ⟨stored, hstored, hplacement⟩ :=
    (Db.readsPlacements noServer).found middle _ trivial (hheld 0 (by decide) (by decide))
  have hpin := ((Db.keepsPlacements noServer).withinPinLimit_pinNote
    (Db.readsPlacements noServer) trivial hwithin clock 0).2
  refine ⟨((Db.noteStore noServer).editNote clock.now 0 .pinNote middle).1, ?_, fun hkept => ?_⟩
  · simp only [crowded, runAll, hstep, Option.bind_some]
    rfl
  have hnotebook : stored.notebookId = 1 := congrArg Placement.notebookId hplacement
  have hunpinned : stored.isPinned = false := congrArg Placement.isPinned hplacement
  have hfree : (1 : Nat) ∉ keysIn Db.placements stored.notebookId middle := by
    intro hmem
    obtain ⟨item, hitem, -, hkey⟩ := mem_keysIn.mp hmem
    rcases (hplaces item).mp hitem with ⟨rfl, -⟩ | ⟨hne, hold⟩
    · exact absurd hkey (by decide)
    · obtain ⟨id, -, rfl⟩ := shown_held.mp hold
      rcases Nat.eq_zero_or_pos id with rfl | hpositive
      · exact absurd hkey (by decide)
      · exact hne ((key_shown hpositive).symm.trans hkey)
  have hall : ∀ id ∈ List.range' 1 MAX_PINNED,
      id ∈ (pinnedIn Db.placements stored.notebookId middle).map Placement.id := by
    intro id hid
    obtain ⟨hpositive, hlt⟩ := List.mem_range'_1.mp hid
    by_cases hone : id = 1
    · exact List.mem_map.mpr ⟨{ shown 1 with sortKey := 2 }.placement,
        mem_pinnedIn.mpr ⟨(hplaces _).mpr (.inl ⟨rfl, rfl⟩), rfl, hnotebook.symm⟩, hone.symm⟩
    · exact List.mem_map.mpr ⟨(shown id).placement, mem_pinnedIn.mpr
        ⟨hheld id hlt hone, decide_eq_true hpositive, hnotebook.symm⟩, rfl⟩
  have hle := (List.subperm_of_subset List.nodup_range' hall).length_le
  rw [List.length_range', List.length_map] at hle
  have hfull := Nat.le_antisymm (hwithin stored.notebookId) hle
  exact hfree (hpin.mp hkept stored hstored (by rw [hnotebook]; decide) hunpinned hfull 1
    (by decide) (by decide))

/-- A run passes the limit, and two overlapping pins give two notes one key. -/
theorem pins_exceed_and_collide :
    (¬ ∀ (db reached : Db) (actions : List (CallClock × PlacementCall)),
      InBands Db.placements db → WithinPinLimit Db.placements db →
        runAll ((Db.noteStore noServer).placementStep 1) db actions = some reached →
          WithinPinLimit Db.placements reached) ∧
    ¬ ∀ (db : Db) (start : Bool → Placement) (schedule : List Bool) (final : PinRace Db),
      (∀ caller, start caller ∈ db.placements) → (start true).id ≠ (start false).id →
      (start true).notebookId = (start false).notebookId →
      (∀ caller, (start caller).isPinned = false) →
      runAll ((Db.noteStore noServer).raceStep 0)
        (NoteStore.pinRace (fun caller => (start caller).id) db) schedule = some final →
      (∀ caller, ∃ result, final.phases caller = .returned .pinNote (.ok result)) →
        ∀ first ∈ final.store.placements, ∀ second ∈ final.store.placements,
          first.id = (start true).id → second.id = (start false).id →
            first.sortKey ≠ second.sortKey := by
  constructor
  · intro hclaim
    obtain ⟨reached, hrun, hexceeds⟩ := crowded_exceeds
    exact hexceeds (hclaim _ reached crowded shown_inBands shown_withinPinLimit hrun)
  · intro hclaim
    obtain ⟨final, hrun, hdone⟩ := exists_run together (by decide +kernel)
    obtain ⟨first, second, hfirst, hfirstId, hsecond, hsecondId, hiff⟩ :=
      (Db.keepsPlacements noServer).pinRace_apart_iff (Db.readsPlacements noServer)
        (by decide : (places true).id ≠ (places false).id) rfl trivial places_held hrun hdone
    have hne := hclaim _ places together final places_held (by decide) rfl (fun _ => rfl) hrun
      hdone first hfirst second hsecond hfirstId hsecondId
    exact absurd (by decide : Overlaps together) ((hiff.mp hne).1 fun _ => rfl)

end PinRaceWitness

end Keeplin
