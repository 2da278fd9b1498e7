/-
The cap on the live notes of a notebook and the calls of clients that bring a note
into one: a new note, an update or a move, an import of to-dos and a revert.
-/
import Keeplin.PlacementCalls
import Mathlib.Data.List.Dedup

namespace Keeplin

def REVERT_SCAN_LIMIT : Nat := 10000

def Note.new (id : Uuid) (title body : String) (ts : DateTime) : Note :=
  { id, title, body
    notebookId := Uuid.nil, isTodo := false, todoDue := none, todoCompleted := none
    createdAt := ts, updatedAt := ts, deletedAt := none
    «alias» := none, bookmarks := [], links := [], vv := ∅, lastWriter := ""
    isPinned := false, isStarred := false, sortKey := 0 }

/-- What a to-do of a calendar gives its note. -/
structure CalendarTodo where
  summary : String
  description : Option String
  due : Option DateTime
  completed : Option DateTime

def CalendarTodo.applyToNote (todo : CalendarTodo) (note : Note) : Note :=
  { note with
    title := todo.summary, body := todo.description.getD "", isTodo := true
    todoDue := todo.due, todoCompleted := todo.completed }

/-- The calls of clients that bring notes into a notebook.  An import draws an id
for each to-do it reads. -/
inductive CapacityCall where
  | createNote (note : Note)
  | updateNote (id : Uuid) (note : Note)
  | importTodos (todos : List (Uuid × CalendarTodo))
  | revertNotesTo (ids : List Uuid) (at_ : DateTime)

namespace NoteStore

variable {S : Type} (backend : NoteStore S) (cap : Nat)

/-- The notes of the to-dos, created one after another up to a failure. -/
def createTodos (now : DateTime) :
    List (Uuid × CalendarTodo) → S → S × Except StorageError (List Note)
  | [], store => (store, .ok [])
  | (id, todo) :: rest, store =>
      match backend.createNote (todo.applyToNote (Note.new id "" "" now)) now store with
      | (store, .error failure) => (store, .error failure)
      | (store, .ok note) =>
          let done := createTodos now rest store
          (done.1, done.2.map fun notes => note :: notes)

def importTodos (now : DateTime) (todos : List (Uuid × CalendarTodo)) (store : S) :
    S × Except StorageError (List Note) :=
  if todos.isEmpty then (store, .error (.invalidInput "no VTODO in input"))
  else backend.createTodos now todos store

/-- The version a revert goes back to. -/
def revertTarget (id : Uuid) (at_ : DateTime) (store : S) :
    Except StorageError (EntityVersion Note) :=
  match backend.noteHistory id REVERT_SCAN_LIMIT store with
  | .error failure => .error failure
  | .ok versions =>
      match stateAt versions at_ with
      | none => .error (.notFound id)
      | some target => .ok target

def revertNote (clock : CallClock) (id : Uuid) (at_ : DateTime) (store : S) :
    S × Except StorageError Note :=
  match backend.revertTarget id at_ store with
  | .error failure => (store, .error failure)
  | .ok target =>
      match target.entity with
      | some note =>
          backend.updateNote { note with updatedAt := clock.now, deletedAt := none } clock.now store
      | none =>
          match backend.deleteNote id clock.ts clock.now store with
          | (store, .ok ()) => (store, backend.readNote id store)
          | (store, .error (.notFound _)) => (store, backend.readNote id store)
          | (store, .error failure) => (store, .error failure)

def revertNotesTo (clock : CallClock) (at_ : DateTime) :
    List Uuid → S → S × Except StorageError (List Note)
  | [], store => (store, .ok [])
  | id :: rest, store =>
      match backend.revertNote clock id at_ store with
      | (store, .error failure) => (store, .error failure)
      | (store, .ok note) =>
          let done := revertNotesTo clock at_ rest store
          (done.1, done.2.map fun notes => note :: notes)

/-- The store after a call, if it returns. -/
def capacityStep (store : S) (action : CallClock × CapacityCall) : Option S :=
  let clock := action.1
  match action.2 with
  | .createNote note => (backend.createPlaced cap clock note store).map Prod.fst
  | .updateNote id note => (backend.updatePlaced cap clock id note store).map Prod.fst
  | .importTodos todos => some (backend.importTodos clock.now todos store).1
  | .revertNotesTo ids at_ => some (backend.revertNotesTo clock at_ ids store).1

variable (live : S → List Placement)

/-- A note that is live in its notebook already, or a notebook with room for it. -/
def HasRoom (note : Note) (store : S) : Prop :=
  note.id ∈ occupants live note.notebookId store ∨
    (occupants live note.notebookId store).length < cap

/-- Every note that the reverts bring back, up to a failure, has room where it was. -/
def RevertsWithRoom (clock : CallClock) (at_ : DateTime) : List Uuid → S → Prop
  | [], _ => True
  | id :: rest, store =>
      (∀ target note, backend.revertTarget id at_ store = .ok target →
        target.entity = some note → HasRoom cap live note store) ∧
      match backend.revertNote clock id at_ store with
      | (_, .error _) => True
      | (store, .ok _) => RevertsWithRoom clock at_ rest store

/-- The routes into a notebook that do not check its cap find room in it: a new
note that brings its own key, an import into the Inbox and a revert. -/
def FindsRoom (store : S) (action : CallClock × CapacityCall) : Prop :=
  match action.2 with
  | .createNote note =>
      note.sortKey ≠ 0 → note.deletedAt = none → HasRoom cap live note store
  | .updateNote _ _ => True
  | .importTodos todos =>
      (todos.map Prod.fst ++ occupants live INBOX_ID store).dedup.length ≤ cap
  | .revertNotesTo ids at_ => backend.RevertsWithRoom cap live action.1 at_ ids store

end NoteStore

section Capacity

variable {S : Type} {live : S → List Placement} {ready : S → Prop} {backend : NoteStore S}
  {store middle after : S} {note : Note} {cap : Nat}

variable (live cap) in
/-- No notebook holds more live notes than the cap. -/
def WithinCap (store : S) : Prop :=
  ∀ notebookId, (occupants live notebookId store).length ≤ cap

theorem mem_occupants_iff {id notebookId : Uuid} :
    id ∈ occupants live notebookId store ↔
      ∃ item ∈ live store, item.notebookId = notebookId ∧ item.id = id := by
  simp [occupants, and_assoc]

theorem KeepsPlacements.nodup_occupants (hkeeps : KeepsPlacements live backend ready)
    (hready : ready store) (notebookId : Uuid) : (occupants live notebookId store).Nodup :=
  (hkeeps.ids store hready).sublist (List.filter_sublist.map _)

/-- Notes that are all in a list are no more than it has. -/
theorem KeepsPlacements.length_occupants_le (hkeeps : KeepsPlacements live backend ready)
    (hready : ready store) {notebookId : Uuid} {ids : List Uuid}
    (hsubset : ∀ id ∈ occupants live notebookId store, id ∈ ids) :
    (occupants live notebookId store).length ≤ ids.length :=
  (List.subperm_of_subset (hkeeps.nodup_occupants hready notebookId) hsubset).length_le

theorem Shifts.mem_occupants (hshifts : Shifts live store after) {id notebookId : Uuid}
    (hid : id ∈ occupants live notebookId after) : id ∈ occupants live notebookId store := by
  obtain ⟨item, hitem, rfl, rfl⟩ := mem_occupants_iff.mp hid
  obtain ⟨before, hbefore, hsame, hnotebook, -⟩ := hshifts.came item hitem
  exact mem_occupants_iff.mpr ⟨before, hbefore, hnotebook, hsame⟩

theorem Places.mem_occupants (hplaces : Places live note store after) {id notebookId : Uuid}
    (hid : id ∈ occupants live notebookId after) :
    (id = note.id ∧ notebookId = note.notebookId ∧ note.deletedAt = none) ∨
      id ∈ occupants live notebookId store := by
  obtain ⟨item, hitem, rfl, rfl⟩ := mem_occupants_iff.mp hid
  rcases (hplaces item).mp hitem with ⟨rfl, hlive⟩ | ⟨-, hold⟩
  · exact .inl ⟨rfl, rfl, hlive⟩
  · exact .inr (mem_occupants_iff.mpr ⟨item, hold, rfl, rfl⟩)

theorem Removes.mem_occupants {removed : Uuid} (hremoves : Removes live removed store after)
    {id notebookId : Uuid} (hid : id ∈ occupants live notebookId after) :
    id ∈ occupants live notebookId store := by
  obtain ⟨item, hitem, rfl, rfl⟩ := mem_occupants_iff.mp hid
  exact mem_occupants_iff.mpr ⟨item, ((hremoves item).mp hitem).2, rfl, rfl⟩

theorem WithinCap.of_subset (hkeeps : KeepsPlacements live backend ready) (hready : ready after)
    (hwithin : WithinCap live cap store)
    (hsubset : ∀ id notebookId, id ∈ occupants live notebookId after →
      id ∈ occupants live notebookId store) : WithinCap live cap after :=
  fun notebookId => (hkeeps.length_occupants_le hready fun id => hsubset id notebookId).trans
    (hwithin notebookId)

theorem WithinCap.shifts (hkeeps : KeepsPlacements live backend ready) (hready : ready after)
    (hwithin : WithinCap live cap store) (hshifts : Shifts live store after) :
    WithinCap live cap after :=
  hwithin.of_subset hkeeps hready fun _ _ => hshifts.mem_occupants

/-- A note is written where there is room for it. -/
theorem WithinCap.places (hkeeps : KeepsPlacements live backend ready) (hready : ready after)
    (hwithin : WithinCap live cap store) (hplaces : Places live note store after)
    (hroom : note.deletedAt = none → NoteStore.HasRoom cap live note store) :
    WithinCap live cap after := by
  intro notebookId
  by_cases hinto : notebookId = note.notebookId ∧ note.deletedAt = none
  · obtain ⟨rfl, hlive⟩ := hinto
    rcases hroom hlive with hthere | hbelow
    · refine (hkeeps.length_occupants_le hready fun id hid => ?_).trans (hwithin note.notebookId)
      rcases hplaces.mem_occupants hid with ⟨rfl, -⟩ | hold
      · exact hthere
      · exact hold
    · refine (hkeeps.length_occupants_le hready fun id hid => ?_).trans
        (show (note.id :: occupants live note.notebookId store).length ≤ cap from hbelow)
      rcases hplaces.mem_occupants hid with ⟨rfl, -⟩ | hold
      · exact List.mem_cons_self
      · exact List.mem_cons_of_mem _ hold
  · refine (hkeeps.length_occupants_le hready fun id hid => ?_).trans (hwithin notebookId)
    rcases hplaces.mem_occupants hid with ⟨-, hnotebook⟩ | hold
    · exact absurd hnotebook hinto
    · exact hold

theorem Shifts.hasRoom (hkeeps : KeepsPlacements live backend ready) (hready : ready after)
    (hshifts : Shifts live store after) (hroom : NoteStore.HasRoom cap live note store) :
    NoteStore.HasRoom cap live note after := by
  rcases hroom with hthere | hbelow
  · obtain ⟨before, hbefore, hnotebook, hid⟩ := mem_occupants_iff.mp hthere
    obtain ⟨item, hitem, hsame, hkept⟩ := hshifts.kept before hbefore
    exact .inl (mem_occupants_iff.mpr ⟨item, hitem, hkept.trans hnotebook, hsame.trans hid⟩)
  · exact .inr (lt_of_le_of_lt
      (hkeeps.length_occupants_le hready fun _ => hshifts.mem_occupants) hbelow)

theorem KeepsPlacements.withinCap_createPlaced (hkeeps : KeepsPlacements live backend ready)
    {clock : CallClock} {result : Except StorageError Note} (hready : ready store)
    (hwithin : WithinCap live cap store)
    (hroom : note.sortKey ≠ 0 → note.deletedAt = none → NoteStore.HasRoom cap live note store)
    (hcreate : backend.createPlaced cap clock note store = some (after, result)) :
    WithinCap live cap after := by
  obtain ⟨hafter, middle, hmiddle, hshifts, hdone⟩ := hkeeps.createPlaced hready hcreate
  have hkept := hwithin.shifts hkeeps hmiddle hshifts
  rcases hdone with hstays | ⟨key, hplaces, hgiven⟩
  · exact hkept.shifts hkeeps hafter hstays.shifts
  · refine hkept.places hkeeps hafter hplaces fun hlive => ?_
    rcases hgiven with ⟨hset, -⟩ | ⟨hbelow, -⟩
    · exact hshifts.hasRoom hkeeps hmiddle (hroom hset hlive)
    · exact hshifts.hasRoom hkeeps hmiddle (.inr hbelow)

theorem KeepsPlacements.withinCap_updatePlaced (hkeeps : KeepsPlacements live backend ready)
    {clock : CallClock} {id : Uuid} {result : Except StorageError Note} (hready : ready store)
    (hwithin : WithinCap live cap store)
    (hupdate : backend.updatePlaced cap clock id note store = some (after, result)) :
    ready after ∧ WithinCap live cap after := by
  obtain ⟨hafter, hcases⟩ := hkeeps.updatePlaced_cases hready hupdate
  refine ⟨hafter, ?_⟩
  rcases hcases with ⟨stored, rfl, -, -, hnotebook, hheld, hplaces⟩ |
    ⟨-, middle, hmiddle, hshifts, hdone⟩
  · refine hwithin.places hkeeps hafter hplaces fun _ => .inl ?_
    exact mem_occupants_iff.mpr ⟨_, hheld, hnotebook.symm, rfl⟩
  · have hkept := hwithin.shifts hkeeps hmiddle hshifts
    rcases hdone with hstays | ⟨key, hplaces, hbelow, -⟩
    · exact hkept.shifts hkeeps hafter hstays.shifts
    · refine hkept.places hkeeps hafter hplaces fun _ => .inr ?_
      exact lt_of_le_of_lt
        (hkeeps.length_occupants_le hmiddle fun _ => hshifts.mem_occupants) hbelow

/-- The notes an import creates, whether or not it completes, are in the Inbox. -/
theorem KeepsPlacements.createTodos (hkeeps : KeepsPlacements live backend ready)
    (now : DateTime) (todos : List (Uuid × CalendarTodo)) (hready : ready store) :
    ready (backend.createTodos now todos store).1 ∧
      ∀ id notebookId, id ∈ occupants live notebookId (backend.createTodos now todos store).1 →
        (notebookId = INBOX_ID ∧ id ∈ todos.map Prod.fst) ∨
          id ∈ occupants live notebookId store := by
  induction todos generalizing store with
  | nil => exact ⟨hready, fun _ _ hid => .inr hid⟩
  | cons todo rest ih =>
      obtain ⟨drawn, todo⟩ := todo
      have hdone := hkeeps.create store (todo.applyToNote (Note.new drawn "" "" now)) now hready
      have hcreated : ∀ id notebookId,
          id ∈ occupants live notebookId
            (backend.createNote (todo.applyToNote (Note.new drawn "" "" now)) now store).1 →
          (notebookId = INBOX_ID ∧ id ∈ ((drawn, todo) :: rest).map Prod.fst) ∨
            id ∈ occupants live notebookId store := by
        intro id notebookId hid
        rcases hdone.cases with hplaces | hstays
        · refine (hplaces.mem_occupants hid).imp_left ?_
          rintro ⟨rfl, rfl, -⟩
          exact ⟨rfl, List.mem_cons_self⟩
        · exact .inr (hstays.shifts.mem_occupants hid)
      simp only [NoteStore.createTodos]
      split
      · next middle failure heq =>
          rw [heq] at hdone hcreated
          exact ⟨hdone.ready, hcreated⟩
      · next middle created heq =>
          rw [heq] at hdone hcreated
          obtain ⟨hafter, hlater⟩ := ih hdone.ready
          refine ⟨hafter, fun id notebookId hid => ?_⟩
          rcases hlater id notebookId hid with ⟨hinbox, hmem⟩ | hmiddle
          · exact .inl ⟨hinbox, List.mem_cons_of_mem _ hmem⟩
          · exact hcreated id notebookId hmiddle

theorem KeepsPlacements.withinCap_importTodos (hkeeps : KeepsPlacements live backend ready)
    (now : DateTime) {todos : List (Uuid × CalendarTodo)} (hready : ready store)
    (hwithin : WithinCap live cap store)
    (hroom : (todos.map Prod.fst ++ occupants live INBOX_ID store).dedup.length ≤ cap) :
    ready (backend.importTodos now todos store).1 ∧
      WithinCap live cap (backend.importTodos now todos store).1 := by
  simp only [NoteStore.importTodos]
  split
  · exact ⟨hready, hwithin⟩
  obtain ⟨hafter, hcreated⟩ := hkeeps.createTodos now todos hready
  refine ⟨hafter, fun notebookId => ?_⟩
  by_cases hinbox : notebookId = INBOX_ID
  · subst hinbox
    refine (hkeeps.length_occupants_le hafter fun id hid => ?_).trans hroom
    rw [List.mem_dedup, List.mem_append]
    exact (hcreated id INBOX_ID hid).imp_left And.right
  · refine (hkeeps.length_occupants_le hafter fun id hid => ?_).trans (hwithin notebookId)
    exact (hcreated id notebookId hid).resolve_left fun hin => hinbox hin.1

theorem KeepsPlacements.withinCap_revertNote (hkeeps : KeepsPlacements live backend ready)
    (clock : CallClock) {id : Uuid} {at_ : DateTime} (hready : ready store)
    (hwithin : WithinCap live cap store)
    (hroom : ∀ target note, backend.revertTarget id at_ store = .ok target →
      target.entity = some note → NoteStore.HasRoom cap live note store) :
    ready (backend.revertNote clock id at_ store).1 ∧
      WithinCap live cap (backend.revertNote clock id at_ store).1 := by
  simp only [NoteStore.revertNote]
  split
  · exact ⟨hready, hwithin⟩
  next target htarget =>
  split
  · next note hentity =>
      have hdone := hkeeps.update store
        { note with updatedAt := clock.now, deletedAt := none } clock.now hready
      refine ⟨hdone.ready, ?_⟩
      rcases hdone.cases with hplaces | hstays
      · exact hwithin.places hkeeps hdone.ready hplaces fun _ =>
          hroom target note htarget hentity
      · exact hwithin.shifts hkeeps hdone.ready hstays.shifts
  · have hdone := hkeeps.delete store id clock.ts clock.now hready
    have hkept : WithinCap live cap (backend.deleteNote id clock.ts clock.now store).1 := by
      rcases hdone.cases with hremoves | hstays
      · exact hwithin.of_subset hkeeps hdone.ready fun _ _ => hremoves.mem_occupants
      · exact hwithin.shifts hkeeps hdone.ready hstays.shifts
    have hdeleted := And.intro hdone.ready hkept
    split
    · next heq => rwa [heq] at hdeleted
    · next heq => rwa [heq] at hdeleted
    · next heq => rwa [heq] at hdeleted

theorem KeepsPlacements.withinCap_revertNotesTo (hkeeps : KeepsPlacements live backend ready)
    (clock : CallClock) (at_ : DateTime) {ids : List Uuid} (hready : ready store)
    (hwithin : WithinCap live cap store)
    (hroom : backend.RevertsWithRoom cap live clock at_ ids store) :
    ready (backend.revertNotesTo clock at_ ids store).1 ∧
      WithinCap live cap (backend.revertNotesTo clock at_ ids store).1 := by
  induction ids generalizing store with
  | nil => exact ⟨hready, hwithin⟩
  | cons id rest ih =>
      obtain ⟨hfirst, hrest⟩ := hroom
      have hdone := hkeeps.withinCap_revertNote clock hready hwithin hfirst
      simp only [NoteStore.revertNotesTo]
      split
      · next heq => rwa [heq] at hdone
      · next heq =>
          rw [heq] at hdone hrest
          exact ih hdone.1 hdone.2 hrest

theorem KeepsPlacements.withinCap_step (hkeeps : KeepsPlacements live backend ready)
    {action : CallClock × CapacityCall} (hheld : ready store ∧ WithinCap live cap store)
    (hroom : backend.FindsRoom cap live store action)
    (hstep : backend.capacityStep cap store action = some after) :
    ready after ∧ WithinCap live cap after := by
  obtain ⟨clock, call⟩ := action
  obtain ⟨hready, hwithin⟩ := hheld
  cases call with
  | createNote note =>
      obtain ⟨⟨done, result⟩, hcreate, rfl⟩ := Option.map_eq_some_iff.mp hstep
      exact ⟨(hkeeps.createPlaced hready hcreate).1,
        hkeeps.withinCap_createPlaced hready hwithin hroom hcreate⟩
  | updateNote id note =>
      obtain ⟨⟨done, result⟩, hupdate, rfl⟩ := Option.map_eq_some_iff.mp hstep
      exact hkeeps.withinCap_updatePlaced hready hwithin hupdate
  | importTodos todos =>
      obtain rfl := Option.some.inj hstep
      exact hkeeps.withinCap_importTodos clock.now hready hwithin hroom
  | revertNotesTo ids at_ =>
      obtain rfl := Option.some.inj hstep
      exact hkeeps.withinCap_revertNotesTo clock at_ hready hwithin hroom

/-- An import that completes has a note in the Inbox for each id it drew. -/
theorem KeepsPlacements.mem_occupants_createTodos (hkeeps : KeepsPlacements live backend ready)
    (now : DateTime) {todos : List (Uuid × CalendarTodo)} {notes : List Note}
    (hready : ready store) (hdrawn : (todos.map Prod.fst).Nodup)
    (hdone : (backend.createTodos now todos store).2 = .ok notes) :
    ∀ id, id ∈ todos.map Prod.fst ∨
        (id ∈ occupants live INBOX_ID store ∧ id ∉ todos.map Prod.fst) →
      id ∈ occupants live INBOX_ID (backend.createTodos now todos store).1 := by
  induction todos generalizing store notes with
  | nil => exact fun id hid => (hid.resolve_left List.not_mem_nil).1
  | cons todo rest ih =>
      obtain ⟨drawn, todo⟩ := todo
      obtain ⟨hfresh, hrest⟩ := List.nodup_cons.mp hdrawn
      have hcreate := hkeeps.create store (todo.applyToNote (Note.new drawn "" "" now)) now hready
      simp only [NoteStore.createTodos] at hdone ⊢
      split at hdone
      · contradiction
      · next middle created heq =>
          rw [heq] at hcreate
          obtain ⟨hmiddle, hplaces⟩ := hcreate
          obtain ⟨later, hlater, -⟩ := exists_of_map_ok hdone
          have hkept := ih hmiddle hrest hlater
          intro id hid
          by_cases hlaterId : id ∈ rest.map Prod.fst
          · exact hkept id (.inl hlaterId)
          · refine hkept id (.inr ⟨?_, hlaterId⟩)
            rcases hid with hdrawnId | ⟨hold, hother⟩
            · obtain rfl := (List.mem_cons.mp hdrawnId).resolve_right hlaterId
              exact mem_occupants_iff.mpr ⟨_, (hplaces _).mpr (.inl ⟨rfl, rfl⟩), rfl, rfl⟩
            · obtain ⟨item, hitem, hinbox, rfl⟩ := mem_occupants_iff.mp hold
              have hne : item.id ≠ drawn := fun heq => hother (heq ▸ List.mem_cons_self)
              exact mem_occupants_iff.mpr
                ⟨item, (hplaces item).mpr (.inr ⟨hne, hitem⟩), hinbox, rfl⟩

/-- An import of more to-dos than the cap fills the Inbox past it. -/
theorem KeepsPlacements.not_withinCap_importTodos (hkeeps : KeepsPlacements live backend ready)
    (clock : CallClock) {todos : List (Uuid × CalendarTodo)} {notes : List Note}
    (hready : ready store) (hdrawn : (todos.map Prod.fst).Nodup) (hmany : cap < todos.length)
    (hdone : (backend.createTodos clock.now todos store).2 = .ok notes) :
    ∃ reached, runAll (backend.capacityStep cap) store [(clock, .importTodos todos)] =
      some reached ∧ ¬ WithinCap live cap reached := by
  have hnonempty : todos.isEmpty = false := by
    cases todos with
    | nil => cases hmany
    | cons todo rest => rfl
  have himport : backend.importTodos clock.now todos store =
      backend.createTodos clock.now todos store := by
    simp [NoteStore.importTodos, hnonempty]
  refine ⟨(backend.createTodos clock.now todos store).1, ?_, fun hwithin => ?_⟩
  · simp [runAll, NoteStore.capacityStep, himport]
  · have hinbox := hkeeps.mem_occupants_createTodos clock.now hready hdrawn hdone
    have hlength := (List.subperm_of_subset hdrawn fun id hid => hinbox id (.inl hid)).length_le
    rw [List.length_map] at hlength
    exact absurd (hwithin INBOX_ID) (by omega)

/-- A revert that brings a note back into a full notebook fills it past the cap. -/
theorem KeepsPlacements.not_withinCap_revertNote (hkeeps : KeepsPlacements live backend ready)
    (clock : CallClock) {id : Uuid} {at_ : DateTime} {target : EntityVersion Note}
    {updated : Note} (hready : ready store)
    (htarget : backend.revertTarget id at_ store = .ok target)
    (hentity : target.entity = some note)
    (hdone : backend.updateNote { note with updatedAt := clock.now, deletedAt := none } clock.now
      store = (after, .ok updated))
    (habsent : note.id ∉ occupants live note.notebookId store)
    (hfull : (occupants live note.notebookId store).length = cap) :
    ¬ WithinCap live cap (backend.revertNote clock id at_ store).1 := by
  intro hwithin
  have hwritten := hkeeps.update store
    { note with updatedAt := clock.now, deletedAt := none } clock.now hready
  simp only [NoteStore.revertNote, htarget, hentity, hdone] at hwithin
  rw [hdone] at hwritten
  obtain ⟨-, hplaces⟩ := hwritten
  have hnodup : (note.id :: occupants live note.notebookId store).Nodup :=
    List.nodup_cons.mpr ⟨habsent, hkeeps.nodup_occupants hready note.notebookId⟩
  have hlength := (List.subperm_of_subset hnodup fun other hother => ?_).length_le.trans
    (hwithin note.notebookId)
  · rw [List.length_cons, hfull] at hlength
    omega
  · rcases List.mem_cons.mp hother with rfl | hold
    · exact mem_occupants_iff.mpr ⟨_, (hplaces _).mpr (.inl ⟨rfl, rfl⟩), rfl, rfl⟩
    · obtain ⟨item, hitem, hnotebook, rfl⟩ := mem_occupants_iff.mp hold
      have hne : item.id ≠ note.id := fun heq => habsent (heq ▸ hold)
      exact mem_occupants_iff.mpr ⟨item, (hplaces item).mpr (.inr ⟨hne, hitem⟩), hnotebook, rfl⟩

end Capacity

/-- An import into the files completes. -/
theorem IndexedTree.Current.createTodos_ok {store : IndexedTree} (hcurrent : store.Current)
    (place : Uuid → Nat) (now : DateTime) (todos : List (Uuid × CalendarTodo)) :
    ∃ notes, ((IndexedTree.noteStore place).createTodos now todos store).2 = .ok notes := by
  induction todos generalizing store with
  | nil => exact ⟨[], rfl⟩
  | cons todo rest ih =>
      obtain ⟨drawn, todo⟩ := todo
      obtain ⟨hresult, hafter, -⟩ :=
        hcurrent.upsert place (todo.applyToNote (Note.new drawn "" "" now)) now rfl
      obtain ⟨notes, hrest⟩ := ih hafter
      have hcreate : (IndexedTree.noteStore place).createNote
          (todo.applyToNote (Note.new drawn "" "" now)) now store =
            (_, .ok (todo.applyToNote (Note.new drawn "" "" now))) := Prod.ext rfl hresult
      refine ⟨todo.applyToNote (Note.new drawn "" "" now) :: notes, ?_⟩
      rw [NoteStore.createTodos, hcreate]
      exact congrArg (Except.map _) hrest

/-- In either store and for any cap, a run whose calls find room where they do not
check the cap leaves every notebook within it. -/
theorem withinCap_of_findsRoom (cap : Nat) :
    (∀ (serverHistory : Uuid → Nat → Option (List (EntityVersion Note))) (db reached : Db)
      (actions : List (CallClock × CapacityCall)), WithinCap Db.placements cap db →
      MeetsAll ((Db.noteStore serverHistory).capacityStep cap)
        ((Db.noteStore serverHistory).FindsRoom cap Db.placements) db actions →
      runAll ((Db.noteStore serverHistory).capacityStep cap) db actions = some reached →
      WithinCap Db.placements cap reached) ∧
    ∀ (place : Uuid → Nat) (store reached : IndexedTree)
      (actions : List (CallClock × CapacityCall)), store.Current →
      WithinCap IndexedTree.placements cap store →
      MeetsAll ((IndexedTree.noteStore place).capacityStep cap)
        ((IndexedTree.noteStore place).FindsRoom cap IndexedTree.placements) store actions →
      runAll ((IndexedTree.noteStore place).capacityStep cap) store actions = some reached →
      WithinCap IndexedTree.placements cap reached := by
  constructor
  · intro serverHistory db reached actions hwithin hmeets hrun
    have hkeeps := Db.keepsPlacements serverHistory
    exact (runAll_invariant_of_meetsAll _
      (fun _ _ _ hheld hroom hstep => hkeeps.withinCap_step hheld hroom hstep)
      ⟨trivial, hwithin⟩ hmeets hrun).2
  · intro place store reached actions hcurrent hwithin hmeets hrun
    have hkeeps := IndexedTree.keepsPlacements place
    exact (runAll_invariant_of_meetsAll _
      (fun _ _ _ hheld hroom hstep => hkeeps.withinCap_step hheld hroom hstep)
      ⟨hcurrent, hwithin⟩ hmeets hrun).2

namespace CapacityWitness

open InboxWitness

def clock : CallClock := ⟨0, 0, fun _ => 0, 1⟩

def noServer : Uuid → Nat → Option (List (EntityVersion Note)) := fun _ _ => none

def todo : CalendarTodo := ⟨"a", none, none, none⟩

theorem rows_occupants (notebookId : Uuid) :
    occupants Db.placements notebookId (rows 0) = [] := by
  rw [List.eq_nil_iff_forall_not_mem]
  intro id hid
  obtain ⟨item, hitem, -⟩ := mem_occupants_iff.mp hid
  obtain ⟨found, hheld, -⟩ := (Db.shows_placements _ item).mp hitem
  obtain ⟨row, hrow, -⟩ := Db.readNote_ok_iff.mp (Db.heldNote_eq_some.mp hheld).1
  rw [rows_notes] at hrow
  contradiction

theorem files_occupants (notebookId : Uuid) :
    occupants IndexedTree.placements notebookId (files 0) = [] := rfl

theorem withinCap_import_one :
    (∀ reached, runAll ((Db.noteStore noServer).capacityStep 1) (rows 0)
        [(clock, .importTodos [(7, todo)])] = some reached →
      WithinCap Db.placements 1 reached) ∧
    ∀ reached, runAll ((IndexedTree.noteStore place).capacityStep 1) (files 0)
        [(clock, .importTodos [(7, todo)])] = some reached →
      WithinCap IndexedTree.placements 1 reached := by
  constructor
  · intro reached hrun
    refine (withinCap_of_findsRoom 1).1 noServer (rows 0) reached
      [(clock, .importTodos [(7, todo)])] (fun notebookId => by simp [rows_occupants])
      ⟨?_, fun _ _ => trivial⟩ hrun
    simp [NoteStore.FindsRoom, rows_occupants]
  · intro reached hrun
    refine (withinCap_of_findsRoom 1).2 place (files 0) reached
      [(clock, .importTodos [(7, todo)])] (files_notes 0).1
      (fun notebookId => by simp [files_occupants]) ⟨?_, fun _ _ => trivial⟩ hrun
    simp [NoteStore.FindsRoom, files_occupants]

/-- Two to-dos go into an empty Inbox that may hold one note. -/
theorem not_withinCap_import_two :
    (WithinCap Db.placements 1 (rows 0) ∧
      ∃ reached, runAll ((Db.noteStore noServer).capacityStep 1) (rows 0)
          [(clock, .importTodos [(7, todo), (8, todo)])] = some reached ∧
        ¬ WithinCap Db.placements 1 reached) ∧
      WithinCap IndexedTree.placements 1 (files 0) ∧
        ∃ reached, runAll ((IndexedTree.noteStore place).capacityStep 1) (files 0)
            [(clock, .importTodos [(7, todo), (8, todo)])] = some reached ∧
          ¬ WithinCap IndexedTree.placements 1 reached := by
  refine ⟨⟨fun notebookId => by simp [rows_occupants], ?_⟩,
    fun notebookId => by simp [files_occupants], ?_⟩
  · have hdone : ∃ notes, ((Db.noteStore noServer).createTodos clock.now
        [(7, todo), (8, todo)] (rows 0)).2 = .ok notes := by
      simp [NoteStore.createTodos, Db.noteStore, Db.createNote, rows, Db.recordChange,
        Db.refreshNoteLinks, CalendarTodo.applyToNote, Note.new, Except.map]
    obtain ⟨notes, hdone⟩ := hdone
    exact (Db.keepsPlacements noServer).not_withinCap_importTodos clock trivial (by decide)
      (by decide) hdone
  · obtain ⟨notes, hdone⟩ := (files_notes 0).1.createTodos_ok place clock.now
      [(7, todo), (8, todo)]
    exact (IndexedTree.keepsPlacements place).not_withinCap_importTodos clock (files_notes 0).1
      (by decide) (by decide) hdone

end CapacityWitness

end Keeplin
