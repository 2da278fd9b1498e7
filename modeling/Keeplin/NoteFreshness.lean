/-
A filesystem store among other devices that write the same notes.  Copies of
their logs arrive whole, old or new, at any moment.  The projections are brought
up to date when changes are received, which sees a new log by the joined vector
alone; a log that leaves the vector as it is may still have a later upsert
beneath a tombstone.
-/
import Keeplin.NoteProjections

namespace Keeplin

open VersionVector EventClock

/-- The files a call writes. -/
def NoteCall.writes (place : Uuid → Nat) (tree : FsTree) : NoteCall → List TreeWrite
  | .create note timestamp => (tree.createNote place note timestamp).writes
  | .update note timestamp => (tree.updateNote place note timestamp).writes
  | .delete id ts timestamp => (tree.deleteNote place id ts timestamp).writes
  | .list _ _ _ => []

/-- The operation a call appends. -/
def NoteCall.appends (tree : FsTree) : NoteCall → Option (Uuid × DateTime × NoteOp)
  | .create note timestamp => some (note.id, timestamp, .upsert note)
  | .update note timestamp =>
      if tree.noteLogs note.id = [] then none else some (note.id, timestamp, .upsert note)
  | .delete id ts timestamp =>
      if tree.noteLogs id = [] then none else some (id, timestamp, .tombstone ts)
  | .list _ _ _ => none

namespace TracedStore

def noteCall (place : Uuid → Nat) (store : TracedStore) : NoteCall → TracedStore
  | .list notebookId pageSize token =>
      { store with
        toIndexedTree := (store.toIndexedTree.listNotesInNotebook notebookId pageSize token).1 }
  | call => store.performAll place (call.writes place store.tree)

variable {store : TracedStore} {place : Uuid → Nat} {histories : Uuid → History NoteLogEntry}
  {id : Uuid}

/-- Writes of resources. -/
def OfResources (writes : List TreeWrite) : Prop :=
  ∀ write ∈ writes, ∃ noteId id stored, write = .resource noteId id stored

theorem ofResources_cascade {noteId : Uuid} {change : StoredResource → Option StoredResource}
    {files : List (Uuid × Sidecar StoredResource)} :
    OfResources (FsTree.cascadeResources noteId change files).writes := by
  intro write hwrite
  obtain ⟨resourceId, stored, _, _, _, rfl⟩ := FsTree.mem_cascadeResources hwrite
  exact ⟨_, _, _, rfl⟩

/-- What follows an append in a call. -/
theorem writes_bind {A B : Type} (plan : Plan A) {next : A → Plan B}
    (hnext : ∀ value, OfResources (next value).writes) :
    ∃ later, (plan.bind next).writes = plan.writes ++ later ∧ OfResources later := by
  rw [Plan.bind]
  cases plan.result with
  | error failure => exact ⟨[], (List.append_nil _).symm, fun _ hwrite => by cases hwrite⟩
  | ok value => exact ⟨(next value).writes, rfl, hnext value⟩

/-- A call appends an operation and may write resources afterwards. -/
theorem writes_of_appends (place : Uuid → Nat) {tree : FsTree}
    (hmerges : ∀ id, ∃ found, tree.mergeNote id = .ok found)
    {call : NoteCall} {timestamp : DateTime} {op : NoteOp}
    (happends : call.appends tree = some (id, timestamp, op)) :
    (∀ note, op = .upsert note → note.id = id) ∧
      ∃ later, call.writes place tree =
        (tree.appendNoteOp place id timestamp op).writes ++ later ∧ OfResources later := by
  cases call with
  | list notebookId pageSize token => cases happends
  | create note now =>
      cases happends
      refine ⟨?_, [], (List.append_nil _).symm, fun _ hwrite => by cases hwrite⟩
      rintro source ⟨⟩
      rfl
  | update note now =>
      obtain ⟨hlogs, hop⟩ := Option.ite_none_left_eq_some.mp happends
      cases hop
      refine ⟨?_, ?_⟩
      · rintro source ⟨⟩
        rfl
      obtain ⟨prior, hprior⟩ := hmerges note.id
      simp only [NoteCall.writes, FsTree.updateNote, if_neg hlogs, hprior, Plan.reading]
      refine writes_bind _ fun merged => ?_
      split
      · exact Plan.writes_bind ofResources_cascade fun _ _ => Plan.writes_done _
      · exact Plan.writes_done _
  | delete noteId ts now =>
      obtain ⟨hlogs, hop⟩ := Option.ite_none_left_eq_some.mp happends
      cases hop
      refine ⟨by rintro note ⟨⟩, ?_⟩
      simp only [NoteCall.writes, FsTree.deleteNote, if_neg hlogs]
      exact writes_bind _ fun _ => ofResources_cascade

/-- A call that appends nothing writes nothing. -/
theorem noteCall_of_not_appends {call : NoteCall} (hnone : call.appends store.tree = none) :
    store.noteCall place call = store ∨
      ∃ notebookId pageSize token, call = .list notebookId pageSize token := by
  cases call with
  | list notebookId pageSize token => exact .inr ⟨_, _, _, rfl⟩
  | create note now => cases hnone
  | update note now =>
      by_cases hlogs : store.tree.noteLogs note.id = []
      · left
        simp only [noteCall, NoteCall.writes, FsTree.updateNote, if_pos hlogs]
        rfl
      · rw [NoteCall.appends, if_neg hlogs] at hnone
        cases hnone
  | delete id ts now =>
      by_cases hlogs : store.tree.noteLogs id = []
      · left
        simp only [noteCall, NoteCall.writes, FsTree.deleteNote, if_pos hlogs]
        rfl
      · rw [NoteCall.appends, if_neg hlogs] at hnone
        cases hnone

theorem Sound.ofResources (hsound : store.Sound histories) {writes : List TreeWrite}
    (hwrites : OfResources writes) :
    (store.performAll place writes).Sound histories ∧
      ∀ other, ((store.performAll place writes).tree.noteFolder other).logs =
        (store.tree.noteFolder other).logs := by
  induction writes generalizing store with
  | nil => exact ⟨hsound, fun _ => rfl⟩
  | cons write rest ih =>
      obtain ⟨noteId, resourceId, stored, rfl⟩ := hwrites write List.mem_cons_self
      obtain ⟨hafter, hlogs⟩ :=
        ih (hsound.resource place noteId resourceId stored) fun later hlater =>
        hwrites later (List.mem_cons_of_mem _ hlater)
      refine ⟨hafter, fun other => (hlogs other).trans ?_⟩
      exact store.tree.logs_perform_other (by simp) other

/-- An append whose log is recorded keeps the store sound. -/
theorem Sound.appendNoteOp (hsound : store.Sound histories) (place : Uuid → Nat)
    {timestamp : DateTime} {op : NoteOp} {later : List TreeWrite} (hlater : OfResources later)
    {entry : NoteLogEntry} {dir : NoteDir}
    (happend : Keeplin.appendNoteOp store.tree.deviceId timestamp op
      (store.tree.noteFolder id).logs = some (entry, dir))
    (hlogs : RecordedLogs (histories id) (readNoteLogs dir)) {after : TracedStore}
    (hafter : after = store.performAll place
      ((store.tree.appendNoteOp place id timestamp op).writes ++ later)) :
    after.Sound histories ∧
      ∀ other, (after.tree.noteFolder other).logs =
        if id = other then dir else (store.tree.noteFolder other).logs := by
  obtain ⟨prior, hprior⟩ := hsound.toIndexedTree.merges id
  obtain ⟨log, merged, hmerge, hwrites, -, -, made, hmade⟩ :=
    FsTree.appendNoteOp_writes place timestamp op hprior
  obtain ⟨rfl, rfl⟩ := Prod.mk.inj (Option.some.inj (happend.symm.trans hmade))
  have hwritten := hsound.noteLog place hlogs
  have hwrittenLogs : ∀ other, ((store.perform place
      (.noteLog id store.tree.deviceId log)).tree.noteFolder other).logs =
        if id = other then writeNoteLog (store.tree.noteFolder id).logs store.tree.deviceId log
        else (store.tree.noteFolder other).logs := by
    intro other
    have hfolder : (store.perform place
        (.noteLog id store.tree.deviceId log)).tree.noteFolder other = _ :=
      FsTree.noteFolder_modifyNote _ _ _ _ _
    rw [hfolder]
    split <;> rfl
  have hmergeWritten : merge ((store.perform place
      (.noteLog id store.tree.deviceId log)).tree.noteLogs id) = some merged :=
    mergeLogs_eq_ok.mp hmerge
  rw [hwrites] at hafter
  have hsplit := hafter.trans List.foldl_append
  cases hnote : merged.note with
  | none =>
      rw [hnote] at hsplit
      obtain ⟨hresources, hkept⟩ := hwritten.ofResources hlater
      rw [hsplit]
      exact ⟨hresources, fun other => (hkept other).trans (hwrittenLogs other)⟩
  | some note =>
      rw [hnote] at hsplit
      obtain ⟨hprojected, -, hprojectedLogs, -⟩ := hwritten.project place hmergeWritten hnote rfl
      obtain ⟨hresources, hkept⟩ := hprojected.ofResources hlater
      rw [hsplit]
      exact ⟨hresources, fun other => (hkept other).trans
        ((hprojectedLogs other).trans (hwrittenLogs other))⟩

/-- A listing only builds the index. -/
theorem Sound.list (hsound : store.Sound histories) (place : Uuid → Nat) (notebookId : Uuid)
    (pageSize : Nat) (token : Option (Keyed Uuid)) :
    (store.noteCall place (.list notebookId pageSize token)).Sound histories ∧
      (store.noteCall place (.list notebookId pageSize token)).tree = store.tree := by
  obtain ⟨idx, hidx, hentries⟩ := hsound.toIndexedTree.withNoteIndex
  simp only [noteCall, IndexedTree.listNotesInNotebook, hidx]
  exact ⟨hsound.withIndex hentries, trivial⟩

end TracedStore

/-- The store, and for each note the devices that write it, this one too. -/
structure SharedNotes where
  store : TracedStore
  notes : Uuid → NoteWorld

inductive ShareStep where
  | call (call : NoteCall)
  | peer (id : Uuid) (step : NoteStep)
  | replicate (id : Uuid) (source : String) (snapshot : NoteLog)
  | receive

/-- The content of the operation is of the note. -/
def NoteOp.FiledUnder (id : Uuid) : NoteOp → Prop
  | .upsert note => note.id = id
  | .tombstone _ => True

/-- A step of another device, which files its content under the note. -/
def NoteStep.ByPeer (device : String) (id : Uuid) : NoteStep → Prop
  | .append peer _ op => peer ≠ device ∧ op.FiledUnder id
  | .compact peer => peer ≠ device
  | .replicate _ target _ => target ≠ device
  | .relist peer _ => peer ≠ device

instance (id : Uuid) : ∀ op : NoteOp, Decidable (op.FiledUnder id)
  | .upsert note => inferInstanceAs (Decidable (note.id = id))
  | .tombstone _ => inferInstanceAs (Decidable True)

instance (device : String) (id : Uuid) : ∀ step : NoteStep, Decidable (step.ByPeer device id)
  | .append peer _ op => inferInstanceAs (Decidable (peer ≠ device ∧ op.FiledUnder id))
  | .compact peer => inferInstanceAs (Decidable (peer ≠ device))
  | .replicate _ target _ => inferInstanceAs (Decidable (target ≠ device))
  | .relist peer _ => inferInstanceAs (Decidable (peer ≠ device))

namespace SharedNotes

def initial (deviceId : String) : SharedNotes :=
  ⟨⟨IndexedTree.empty deviceId, fun _ => none⟩, fun _ => .initial⟩

/-- The devices after this one has appended an operation. -/
def appended (world : SharedNotes) : Option (Uuid × DateTime × NoteOp) → Uuid → NoteWorld
  | none => world.notes
  | some (id, timestamp, op) =>
      match noteStep (world.notes id) (.append world.store.tree.deviceId timestamp op) with
      | none => world.notes
      | some next => Function.update world.notes id next

def step (place : Uuid → Nat) (world : SharedNotes) : ShareStep → Option SharedNotes
  | .call call =>
      some ⟨world.store.noteCall place call, world.appended (call.appends world.store.tree)⟩
  | .peer id step =>
      if step.ByPeer world.store.tree.deviceId id then
        (noteStep (world.notes id) step).map fun next =>
          { world with notes := Function.update world.notes id next }
      else none
  | .replicate id source snapshot =>
      (noteStep (world.notes id) (.replicate source world.store.tree.deviceId snapshot)).map
        fun next =>
          ⟨world.store.perform place (.noteLog id source snapshot),
            Function.update world.notes id next⟩
  | .receive => some { world with store := (world.store.receiveChanges place).1 }

/-- The store has the logs that the devices' world says. -/
structure Sound (world : SharedNotes) : Prop where
  notes : ∀ id, (world.notes id).Sound
  filed : ∀ id entry, Recorded (world.notes id).history entry → entry.op.FiledUnder id
  store : world.store.Sound fun id => (world.notes id).history
  logs : ∀ id, (world.notes id).dirs world.store.tree.deviceId =
    (world.store.tree.noteFolder id).logs

variable {world next : SharedNotes} {place : Uuid → Nat} {id : Uuid}

theorem initial_sound (deviceId : String) : (initial deviceId).Sound where
  notes _ := NoteWorld.initial_sound
  filed _ _ hentry := by
    obtain ⟨held, hheld⟩ := hentry
    exact absurd hheld List.not_mem_nil
  store :=
    { exact := fun _ => .nil
      filed := fun _ _ hentry => by
        obtain ⟨held, hheld⟩ := hentry
        exact absurd hheld List.not_mem_nil
      folders := List.nodup_nil
      names := fun _ => List.nodup_nil
      logs := fun _ => .nil
      seen := fun _ => ⟨rfl, rfl⟩
      entries := fun _ hindex => by cases hindex }
  logs _ := rfl

/-- A step records no entry but the one it appends. -/
theorem recorded_noteStep {before after : NoteWorld} {step : NoteStep}
    (hstep : noteStep before step = some after) :
    (∀ entry, Recorded before.history entry → Recorded after.history entry) ∧
      ∀ entry, Recorded after.history entry → Recorded before.history entry ∨
        ∃ device timestamp, step = .append device timestamp entry.op := by
  cases step with
  | append device timestamp op =>
      obtain ⟨⟨made, dir⟩, happend, rfl⟩ := Option.map_eq_some_iff.mp hstep
      obtain ⟨-, -, -, hop, -⟩ := ownLog_of_append happend
      refine ⟨fun entry hentry => recorded_append_left hentry, fun entry hentry => ?_⟩
      rcases recorded_snoc.mp hentry with hold | rfl
      · exact .inl hold
      · exact .inr ⟨device, timestamp, by rw [hop]⟩
  | compact device =>
      obtain ⟨-, heq⟩ := Option.ite_none_right_eq_some.mp hstep
      cases heq
      exact ⟨fun _ hentry => hentry, fun _ hentry => .inl hentry⟩
  | replicate source target snapshot =>
      obtain ⟨-, heq⟩ := Option.ite_none_right_eq_some.mp hstep
      cases heq
      exact ⟨fun _ hentry => hentry, fun _ hentry => .inl hentry⟩
  | relist device dir =>
      obtain ⟨-, heq⟩ := Option.ite_none_right_eq_some.mp hstep
      cases heq
      exact ⟨fun _ hentry => hentry, fun _ hentry => .inl hentry⟩

/-- What a step of the devices of one note leaves to show of the store. -/
theorem Sound.grow (hsound : world.Sound) {step : NoteStep} {grown : NoteWorld}
    (hstep : noteStep (world.notes id) step = some grown)
    (hop : ∀ device timestamp op, step = .append device timestamp op → op.FiledUnder id) :
    (∀ other, (Function.update world.notes id grown other).Sound) ∧
      (∀ other entry, Recorded (Function.update world.notes id grown other).history entry →
        entry.op.FiledUnder other) ∧
      world.store.Sound fun other => (Function.update world.notes id grown other).history := by
  obtain ⟨hkeeps, hnew⟩ := recorded_noteStep hstep
  have hsounds : ∀ other, (Function.update world.notes id grown other).Sound := by
    intro other
    by_cases hother : other = id
    · subst hother
      rw [Function.update_self]
      exact noteStep_sound (hsound.notes other) hstep
    · rw [Function.update_of_ne hother]
      exact hsound.notes other
  have hfiled : ∀ other entry,
      Recorded (Function.update world.notes id grown other).history entry →
        entry.op.FiledUnder other := by
    intro other entry hentry
    by_cases hother : other = id
    · subst hother
      rw [Function.update_self] at hentry
      rcases hnew entry hentry with hold | ⟨device, timestamp, heq⟩
      · exact hsound.filed other entry hold
      · exact hop device timestamp entry.op heq
    · rw [Function.update_of_ne hother] at hentry
      exact hsound.filed other entry hentry
  refine ⟨hsounds, hfiled, hsound.store.mono (fun other => (hsounds other).exact) ?_ ?_⟩
  · intro other entry hentry note hnote
    have hop := hfiled other entry hentry
    rw [hnote] at hop
    exact hop
  · intro other entry hentry
    by_cases hother : other = id
    · subst hother
      rw [Function.update_self]
      exact hkeeps entry hentry
    · rw [Function.update_of_ne hother]
      exact hentry

theorem deviceId_perform (store : TracedStore) (write : TreeWrite) :
    (store.perform place write).tree.deviceId = store.tree.deviceId :=
  store.tree.deviceId_perform place write

/-- The logs the device holds are recorded. -/
theorem recordedLogs_dir {note : NoteWorld} (hnote : note.Sound) {device : String} {dir : NoteDir}
    (hdir : note.dirs device = dir) (hnames : (dir.map Prod.fst).Nodup) :
    RecordedLogs note.history (readNoteLogs dir) :=
  recordedLogs_of_files hnames fun file hfile => hnote.files device file (hdir ▸ hfile)

theorem noteStep_append {note : NoteWorld} {device : String} {timestamp : DateTime} {op : NoteOp}
    {entry : NoteLogEntry} {dir : NoteDir}
    (happend : appendNoteOp device timestamp op (note.dirs device) = some (entry, dir)) :
    ∃ grown, noteStep note (.append device timestamp op) = some grown ∧
      grown.dirs device = dir := by
  refine ⟨_, congrArg (Option.map _) happend, ?_⟩
  exact Function.update_self device dir note.dirs

/-- The device can always append. -/
theorem Sound.exists_append (hsound : world.Sound) (id : Uuid) (timestamp : DateTime)
    (op : NoteOp) :
    ∃ entry dir, appendNoteOp world.store.tree.deviceId timestamp op
      (world.store.tree.noteFolder id).logs = some (entry, dir) := by
  obtain ⟨merged, hmerge⟩ := hsound.store.exists_merge id
  exact ⟨_, _, congrArg (Option.map _) hmerge⟩

/-- A call keeps the store and the devices together. -/
theorem Sound.call (hsound : world.Sound) (call : NoteCall) :
    ({ store := world.store.noteCall place call
       notes := world.appended (call.appends world.store.tree) } : SharedNotes).Sound := by
  cases happends : call.appends world.store.tree with
  | none =>
      rcases TracedStore.noteCall_of_not_appends happends with
        hsame | ⟨notebookId, pageSize, token, rfl⟩
      · rw [hsame]
        exact hsound
      · obtain ⟨hafter, htree⟩ := hsound.store.list place notebookId pageSize token
        refine ⟨hsound.notes, hsound.filed, hafter, fun id => ?_⟩
        rw [htree]
        exact hsound.logs id
  | some appended =>
      obtain ⟨id, timestamp, op⟩ := appended
      obtain ⟨hfiled, later, hwrites, hlater⟩ := TracedStore.writes_of_appends place
        hsound.store.toIndexedTree.mergeNote_ok happends
      obtain ⟨entry, dir, happend⟩ := hsound.exists_append id timestamp op
      obtain ⟨grown, hstep, hdir⟩ := noteStep_append ((hsound.logs id).symm ▸ happend)
      obtain ⟨hnotes, hall, hstore⟩ := hsound.grow hstep fun _ _ _ heq => by
        cases heq
        cases op with
        | upsert note => exact hfiled note rfl
        | tombstone deletedAt => trivial
      have hnames : (dir.map Prod.fst).Nodup := by
        obtain ⟨-, -, log, rfl, -⟩ := appendNoteOp_cases happend
        exact Directory.nodup_put (hsound.store.names id)
      have hrecorded :=
        recordedLogs_dir (hnotes id) (by rw [Function.update_self]; exact hdir) hnames
      have hafter : world.store.noteCall place call = world.store.performAll place
          ((world.store.tree.appendNoteOp place id timestamp op).writes ++ later) := by
        rw [← hwrites]
        cases call with
        | list notebookId pageSize token => cases happends
        | create note now => rfl
        | update note now => rfl
        | delete id ts now => rfl
      obtain ⟨hsoundAfter, hlogs⟩ := hstore.appendNoteOp place hlater happend hrecorded hafter
      have hdevice : (world.store.noteCall place call).tree.deviceId =
          world.store.tree.deviceId := by
        rw [hafter, TracedStore.tree_performAll, FsTree.deviceId_performAll]
      simp only [SharedNotes.appended, hstep]
      refine ⟨hnotes, hall, hsoundAfter, fun other => ?_⟩
      rw [hdevice, hlogs]
      change (Function.update world.notes id grown other).dirs world.store.tree.deviceId = _
      by_cases hother : id = other
      · subst hother
        rw [Function.update_self, hdir, if_pos rfl]
      · rw [Function.update_of_ne (Ne.symm hother), hsound.logs, if_neg hother]

/-- A step of another device leaves this device's files. -/
theorem dirs_of_byPeer {before after : NoteWorld} {step : NoteStep} {device : String}
    (hpeer : step.ByPeer device id) (hstep : noteStep before step = some after) :
    after.dirs device = before.dirs device ∧
      ∀ author timestamp op, step = .append author timestamp op → op.FiledUnder id := by
  cases step with
  | append peer timestamp op =>
      obtain ⟨hne, hfiled⟩ := hpeer
      obtain ⟨made, -, rfl⟩ := Option.map_eq_some_iff.mp hstep
      refine ⟨Function.update_of_ne (Ne.symm hne) _ _, ?_⟩
      rintro _ _ _ ⟨⟩
      exact hfiled
  | compact peer =>
      obtain ⟨-, heq⟩ := Option.ite_none_right_eq_some.mp hstep
      cases heq
      exact ⟨Function.update_of_ne (Ne.symm hpeer) _ _, by rintro _ _ _ ⟨⟩⟩
  | replicate source target snapshot =>
      obtain ⟨-, heq⟩ := Option.ite_none_right_eq_some.mp hstep
      cases heq
      exact ⟨Function.update_of_ne (Ne.symm hpeer) _ _, by rintro _ _ _ ⟨⟩⟩
  | relist peer dir =>
      obtain ⟨-, heq⟩ := Option.ite_none_right_eq_some.mp hstep
      cases heq
      exact ⟨Function.update_of_ne (Ne.symm hpeer) _ _, by rintro _ _ _ ⟨⟩⟩

theorem Sound.peer (hsound : world.Sound) {step : NoteStep} {grown : NoteWorld}
    (hpeer : step.ByPeer world.store.tree.deviceId id)
    (hstep : noteStep (world.notes id) step = some grown) :
    ({ world with notes := Function.update world.notes id grown } : SharedNotes).Sound := by
  obtain ⟨hdirs, hop⟩ := dirs_of_byPeer hpeer hstep
  obtain ⟨hnotes, hfiled, hstore⟩ := hsound.grow hstep hop
  refine ⟨hnotes, hfiled, hstore, fun other => ?_⟩
  change (Function.update world.notes id grown other).dirs world.store.tree.deviceId = _
  by_cases hother : other = id
  · subst hother
    rw [Function.update_self, hdirs]
    exact hsound.logs other
  · rw [Function.update_of_ne hother]
    exact hsound.logs other

/-- The copy of a log that arrives is one that its owner has had. -/
theorem Sound.replicate (hsound : world.Sound) {source : String} {snapshot : NoteLog}
    {grown : NoteWorld} (hstep : noteStep (world.notes id)
      (.replicate source world.store.tree.deviceId snapshot) = some grown) :
    ({ store := world.store.perform place (.noteLog id source snapshot)
       notes := Function.update world.notes id grown } : SharedNotes).Sound := by
  obtain ⟨hnotes, hfiled, hstore⟩ := hsound.grow hstep (by rintro _ _ _ ⟨⟩)
  have hdirs : grown.dirs world.store.tree.deviceId =
      writeNoteLog (world.store.tree.noteFolder id).logs source snapshot := by
    obtain ⟨-, heq⟩ := Option.ite_none_right_eq_some.mp hstep
    cases heq
    rw [← hsound.logs id]
    exact Function.update_self _ _ _
  have hrecorded := recordedLogs_dir (hnotes id) (by rw [Function.update_self]; exact hdirs)
    (Directory.nodup_put (hsound.store.names id))
  refine ⟨hnotes, hfiled, hstore.noteLog place hrecorded, fun other => ?_⟩
  have hfolder : (world.store.perform place (.noteLog id source snapshot)).tree.noteFolder other =
      if id = other then
        { world.store.tree.noteFolder id with
          logs := writeNoteLog (world.store.tree.noteFolder id).logs source snapshot }
      else world.store.tree.noteFolder other :=
    FsTree.noteFolder_modifyNote _ _ _ _ _
  change (Function.update world.notes id grown other).dirs
    (world.store.perform place (.noteLog id source snapshot)).tree.deviceId = _
  rw [deviceId_perform, hfolder]
  by_cases hother : id = other
  · subst hother
    rw [Function.update_self, if_pos rfl, hdirs]
  · rw [Function.update_of_ne (Ne.symm hother), if_neg hother]
    exact hsound.logs other

theorem deviceId_collectNotes (place : Uuid → Nat) (store : TracedStore) (ids : List Uuid) :
    (store.collectNotes place ids).1.tree.deviceId = store.tree.deviceId := by
  induction ids generalizing store with
  | nil => rfl
  | cons id rest ih =>
      have hmoved : (store.performAll place (store.tree.collectNote id).writes).tree.deviceId =
          store.tree.deviceId := by
        rw [TracedStore.tree_performAll, FsTree.deviceId_performAll]
      simp only [TracedStore.collectNotes]
      split
      · exact hmoved
      · exact (ih _).trans hmoved

theorem Sound.receive (hsound : world.Sound) :
    ({ world with store := (world.store.receiveChanges place).1 } : SharedNotes).Sound := by
  obtain ⟨-, hafter, hcollected⟩ := hsound.store.collectNotes place hsound.store.folders
  refine ⟨hsound.notes, hsound.filed, hafter, fun id => ?_⟩
  change (world.notes id).dirs (world.store.receiveChanges place).1.tree.deviceId = _
  rw [TracedStore.receiveChanges, deviceId_collectNotes, (hcollected id).logs]
  exact hsound.logs id

theorem step_sound (hsound : world.Sound) {action : ShareStep}
    (hstep : step place world action = some next) : next.Sound := by
  cases action with
  | call call =>
      obtain rfl := Option.some.inj hstep
      exact hsound.call call
  | peer id step =>
      obtain ⟨hpeer, hmapped⟩ := Option.ite_none_right_eq_some.mp hstep
      obtain ⟨grown, hgrown, rfl⟩ := Option.map_eq_some_iff.mp hmapped
      exact hsound.peer hpeer hgrown
  | replicate id source snapshot =>
      obtain ⟨grown, hgrown, rfl⟩ := Option.map_eq_some_iff.mp hstep
      exact hsound.replicate hgrown
  | receive =>
      obtain rfl := Option.some.inj hstep
      exact hsound.receive

/-- Whatever the devices have done, receiving changes leaves the projections and
the index fresh exactly if every note is steady. -/
theorem receive_fresh_iff (deviceId : String) (place : Uuid → Nat) {steps : List ShareStep}
    (hrun : runAll (step place) (initial deviceId) steps = some world) :
    (∃ changes, (world.store.receiveChanges place).2 = .ok changes) ∧
      (TracedStore.Fresh (world.store.receiveChanges place).1.toIndexedTree ↔
        ∀ id, world.store.Steady id) := by
  have hsound : world.Sound := runAll_invariant (step place)
    (fun _ _ _ hbefore hstep => step_sound hbefore hstep) (initial_sound deviceId) hrun
  exact hsound.store.fresh_receiveChanges_iff place

end SharedNotes

namespace LateUpsert

/-- A note as a device wrote it. -/
def written (body : String) (now : DateTime) : Note where
  id := 1
  title := "n"
  body := body
  notebookId := 0
  isTodo := false
  todoDue := none
  todoCompleted := none
  createdAt := 1
  updatedAt := now
  deletedAt := none
  «alias» := none
  bookmarks := []
  links := []
  vv := ∅
  lastWriter := ""
  isPinned := false
  isStarred := false
  sortKey := 0

def first : NoteLogEntry := ⟨.ofList [("A", 1)], 1, "A", .upsert (written "old" 1)⟩

def second : NoteLogEntry := ⟨.ofList [("A", 2)], 2, "A", .upsert (written "new" 2)⟩

def deletion : NoteLogEntry := ⟨.ofList [("A", 2), ("B", 1)], 3, "B", .tombstone 3⟩

/-- B deletes what A has written twice; C gets A's log of the first write, and
B's, before A's log of the second. -/
def steps : List ShareStep :=
  [.peer 1 (.append "A" 1 (.upsert (written "old" 1))),
    .peer 1 (.append "A" 2 (.upsert (written "new" 2))),
    .peer 1 (.replicate "A" "B" [first, second]),
    .peer 1 (.append "B" 3 (.tombstone 3)),
    .replicate 1 "A" [first], .replicate 1 "B" [deletion], .receive,
    .replicate 1 "A" [first, second]]

theorem receive_fresh_iff_late :
    ∃ world, runAll (SharedNotes.step fun _ => 0) (SharedNotes.initial "C") steps = some world ∧
      (∃ changes, (world.store.receiveChanges fun _ => 0).2 = .ok changes) ∧
        (TracedStore.Fresh (world.store.receiveChanges fun _ => 0).1.toIndexedTree ↔
          ∀ id, world.store.Steady id) := by
  have hrun : (runAll (SharedNotes.step fun _ => 0) (SharedNotes.initial "C") steps).isSome =
      true := by decide
  obtain ⟨world, hworld⟩ := Option.isSome_iff_exists.mp hrun
  exact ⟨world, hworld, SharedNotes.receive_fresh_iff "C" (fun _ => 0) hworld⟩

/-- The note's projection keeps the first body where the merge has the second. -/
theorem late_upsert_not_fresh :
    ¬ ∀ (deviceId : String) (place : Uuid → Nat) (steps : List ShareStep) (world : SharedNotes),
      runAll (SharedNotes.step place) (SharedNotes.initial deviceId) steps = some world →
        TracedStore.Fresh (world.store.receiveChanges place).1.toIndexedTree := by
  intro hclaim
  have hrun : (runAll (SharedNotes.step fun _ => 0) (SharedNotes.initial "C") steps).any
      (fun world =>
        let received := (world.store.receiveChanges fun _ => 0).1.tree
        decide ((received.noteFolder 1).md = some "old" ∧
          (merge (received.noteLogs 1)).any fun merged =>
            decide (merged.note.map Note.body = some "new"))) = true := by decide
  obtain ⟨world, hworld, hstale⟩ := (Option.any_eq_true _ _).mp hrun
  obtain ⟨hmd, hmerged⟩ := of_decide_eq_true hstale
  obtain ⟨merged, hmerge, hbody⟩ := (Option.any_eq_true _ _).mp hmerged
  obtain ⟨found, hfound, hprojection⟩ :=
    (hclaim "C" (fun _ => 0) steps world hworld).projections 1
  obtain rfl := Option.some.inj (hmerge.symm.trans hfound)
  have hshown := md_of_projectionOf hprojection
  rw [hmd, of_decide_eq_true hbody, Option.some.injEq] at hshown
  exact absurd hshown (by decide)

end LateUpsert

end Keeplin
