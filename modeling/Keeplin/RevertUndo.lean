/-
Whether a revert of a note can be undone by another one, in a store that only this device
writes.
-/
import Keeplin.BatchReverts
import Keeplin.TimedLogs

namespace Keeplin

open TracedStore (OfResources)

/-- What a call reads of the clock for its log entry. -/
def NoteCall.instant? : NoteCall → Option DateTime
  | .create _ timestamp | .update _ timestamp | .delete _ _ timestamp => some timestamp
  | .list _ _ _ => none

/-- The stores of a device that alone writes its notes, each call at a later instant than
the ones before it. -/
inductive ReachedAt (place : Uuid → Nat) (device : String) : DateTime → IndexedTree → Prop
  | initial (latest : DateTime) : ReachedAt place device latest (.empty device)
  | call {latest : DateTime} {store : IndexedTree} (call : NoteCall)
      (hreached : ReachedAt place device latest store)
      (hclock : ∀ instant ∈ call.instant?, latest < instant) :
      ReachedAt place device (call.instant?.getD latest) (store.noteCall place call)
  | beside {latest : DateTime} {store : IndexedTree} (write : TreeWrite)
      (hreached : ReachedAt place device latest store) (hbeside : IndexedTree.Beside write) :
      ReachedAt place device latest (store.perform place write)

section Append

variable {device : String} {latest timestamp : DateTime} {op : NoteOp} {dir after : NoteDir}
  {entry : NoteLogEntry}

theorem OwnDir.writeNoteLog (hdir : OwnDir device latest dir) (log : NoteLog) :
    writeNoteLog dir device log = [(device, log)] := by
  rcases hdir with rfl | ⟨old, rfl, -⟩
  · simp [Keeplin.writeNoteLog, Directory.put, Directory.holds]
  · simp [Keeplin.writeNoteLog, Directory.put, Directory.holds]

/-- An append to the folder of a note that only this device writes. -/
structure AppendsOwn (device : String) (timestamp : DateTime) (op : NoteOp) (dir : NoteDir)
    (entry : NoteLogEntry) (after : NoteDir) : Prop where
  appended : entry.op = op
  instant : entry.timestamp = timestamp
  author : entry.deviceId = device
  log : after = [(device, appendedLog (ownNoteLog dir device) entry)]
  own : OwnHistory device timestamp (appendedLog (ownNoteLog dir device) entry)

theorem OwnDir.append (hdir : OwnDir device latest dir)
    (happend : appendNoteOp device timestamp op dir = some (entry, after))
    (hclock : latest < timestamp) (hop : dir = [] → ∃ note, op = .upsert note) :
    AppendsOwn device timestamp op dir entry after := by
  have hown : ∀ made : NoteLogEntry, made.op = op → made.timestamp = timestamp →
      made.deviceId = device →
        OwnHistory device timestamp (appendedLog (ownNoteLog dir device) made) := by
    rintro made hmade rfl hauthor
    rcases hdir with rfl | ⟨log, rfl, hlog⟩
    · obtain ⟨note, rfl⟩ := hop rfl
      refine ownHistory_singleton hauthor ?_
      rw [NoteLogEntry.isUpsert, hmade]
    · have hheld : ownNoteLog [(device, log)] device = log := by
        simp [ownNoteLog, Directory.file?]
      rw [hheld]
      exact hlog.append hauthor hclock
  obtain ⟨merged, -, heq⟩ := Option.map_eq_some_iff.mp happend
  obtain ⟨rfl, rfl⟩ := Prod.mk.inj heq
  exact ⟨rfl, rfl, rfl, hdir.writeNoteLog _, hown _ rfl rfl rfl⟩

end Append

namespace IndexedTree

variable {place : Uuid → Nat} {device : String} {latest timestamp : DateTime}
  {store : IndexedTree} {id : Uuid} {op : NoteOp}

theorem tree_noteCall (place : Uuid → Nat) (call : NoteCall) :
    (store.noteCall place call).tree =
      store.tree.performAll place (call.writes place store.tree) := by
  cases call with
  | create note timestamp => exact tree_performAll _
  | update note timestamp => exact tree_performAll _
  | delete id ts timestamp => exact tree_performAll _
  | list notebookId pageSize token => exact store.tree_listNotesInNotebook notebookId pageSize token

theorem writes_of_not_appends {tree : FsTree} {call : NoteCall}
    (hnone : call.appends tree = none) : call.writes place tree = [] := by
  cases call with
  | create note timestamp => contradiction
  | update note timestamp =>
      have hlogs := Option.ite_none_left_eq_some.not.mp (Option.eq_none_iff_forall_ne_some.mp hnone
        (note.id, timestamp, .upsert note))
      have hempty : tree.noteLogs note.id = [] := by
        by_contra hlogs'
        exact hlogs ⟨hlogs', rfl⟩
      rw [NoteCall.writes, FsTree.updateNote, if_pos hempty]
      rfl
  | delete id ts timestamp =>
      have hlogs := Option.ite_none_left_eq_some.not.mp (Option.eq_none_iff_forall_ne_some.mp hnone
        (id, timestamp, .tombstone ts))
      have hempty : tree.noteLogs id = [] := by
        by_contra hlogs'
        exact hlogs ⟨hlogs', rfl⟩
      rw [NoteCall.writes, FsTree.deleteNote, if_pos hempty]
      rfl
  | list notebookId pageSize token => rfl

/-- The folder a call appends to has the appended log, and the other folders keep theirs. -/
theorem Current.logs_of_appends (hcurrent : store.Current) (place : Uuid → Nat) {call : NoteCall}
    (happends : call.appends store.tree = some (id, timestamp, op)) :
    ∃ entry dir, appendNoteOp store.tree.deviceId timestamp op (store.tree.noteFolder id).logs =
        some (entry, dir) ∧
      ∀ other, ((store.noteCall place call).tree.noteFolder other).logs =
        if id = other then dir else (store.tree.noteFolder other).logs := by
  obtain ⟨-, later, hwrites, hlater⟩ :=
    TracedStore.writes_of_appends place hcurrent.mergeNote_ok happends
  obtain ⟨prior, hprior⟩ := hcurrent.merges id
  obtain ⟨log, merged, -, happendWrites, -, -, entry, happend⟩ :=
    FsTree.appendNoteOp_writes place timestamp op hprior
  refine ⟨entry, _, happend, fun other => ?_⟩
  rw [tree_noteCall, hwrites, happendWrites, List.cons_append]
  change (((store.tree.perform place (.noteLog id store.tree.deviceId log)).performAll place
    _).noteFolder other).logs = _
  refine (FsTree.logs_performAll ?_ other).trans ?_
  · intro write hwrite noteId device log heq
    subst heq
    rcases List.mem_append.mp hwrite with hprojection | hresource
    · split at hprojection
      · exact absurd hprojection List.not_mem_nil
      · simp [FsTree.projectionWrites] at hprojection
    · obtain ⟨_, _, _, hresource⟩ := hlater _ hresource
      contradiction
  · simp only [FsTree.perform, FsTree.noteFolder_modifyNote]
    split <;> rfl

theorem upsert_of_appends {tree : FsTree} {call : NoteCall}
    (happends : call.appends tree = some (id, timestamp, op))
    (hempty : (tree.noteFolder id).logs = []) : ∃ note, op = .upsert note := by
  cases call with
  | create note now =>
      cases happends
      exact ⟨note, rfl⟩
  | update note now =>
      obtain ⟨-, hop⟩ := Option.ite_none_left_eq_some.mp happends
      cases hop
      exact ⟨note, rfl⟩
  | delete noteId ts now =>
      obtain ⟨hlogs, hop⟩ := Option.ite_none_left_eq_some.mp happends
      cases hop
      rw [FsTree.noteLogs, hempty] at hlogs
      contradiction
  | list notebookId pageSize token => contradiction

theorem instant?_of_appends {tree : FsTree} {call : NoteCall}
    (happends : call.appends tree = some (id, timestamp, op)) :
    call.instant? = some timestamp := by
  cases call with
  | create note now =>
      cases happends
      rfl
  | update note now =>
      obtain ⟨-, hop⟩ := Option.ite_none_left_eq_some.mp happends
      cases hop
      rfl
  | delete noteId ts now =>
      obtain ⟨-, hop⟩ := Option.ite_none_left_eq_some.mp happends
      cases hop
      rfl
  | list notebookId pageSize token => contradiction

/-- A store that only this device writes, up to an instant. -/
structure OwnStore (device : String) (latest : DateTime) (store : IndexedTree) : Prop where
  current : store.Current
  tidy : store.tree.Tidy
  deviceId : store.tree.deviceId = device
  own : ∀ id, OwnDir device latest (store.tree.noteFolder id).logs

theorem OwnStore.noteCall (hstore : OwnStore device latest store) (place : Uuid → Nat)
    {call : NoteCall} (hclock : ∀ instant ∈ call.instant?, latest < instant) :
    OwnStore device (call.instant?.getD latest) (store.noteCall place call) := by
  refine ⟨hstore.current.noteCall place call, ?_, ?_, fun other => ?_⟩
  · rw [tree_noteCall]
    exact hstore.tidy.performAll _
  · rw [tree_noteCall, FsTree.deviceId_performAll, hstore.deviceId]
  have hlater : latest ≤ call.instant?.getD latest := by
    cases hinstant : call.instant? with
    | none => exact le_refl latest
    | some instant => exact le_of_lt (hclock instant hinstant)
  have hkept : OwnDir device (call.instant?.getD latest) (store.tree.noteFolder other).logs :=
    (hstore.own other).imp_right fun ⟨log, hlog, hown⟩ => ⟨log, hlog, hown.mono hlater⟩
  cases happends : call.appends store.tree with
  | none =>
      rw [tree_noteCall, writes_of_not_appends happends]
      exact hkept
  | some appended =>
      obtain ⟨id, timestamp, op⟩ := appended
      obtain ⟨entry, dir, happend, hlogs⟩ := hstore.current.logs_of_appends place happends
      rw [hlogs other]
      split
      · have hinstant := instant?_of_appends happends
        rw [hstore.deviceId] at happend
        obtain ⟨-, -, -, hdir, hown⟩ := (hstore.own id).append happend
          (hclock timestamp hinstant) (upsert_of_appends happends)
        rw [hinstant]
        exact .inr ⟨_, hdir, hown⟩
      · exact hkept

theorem ownStore_of_reachedAt (hreached : ReachedAt place device latest store) :
    OwnStore device latest store := by
  induction hreached with
  | initial latest =>
      exact ⟨current_empty device, ⟨fun _ => List.nodup_nil, fun _ => List.nodup_nil,
        fun _ _ hfile => absurd hfile List.not_mem_nil⟩, rfl, fun _ => .inl rfl⟩
  | call call hreached hclock ih => exact ih.noteCall place hclock
  | @beside latest store write hreached hbeside ih =>
      refine ⟨ih.current.perform_beside hbeside, ih.tidy.perform write, ?_, fun id => ?_⟩
      · exact (FsTree.deviceId_perform _ place write).trans ih.deviceId
      · have hlogs : ((store.perform place write).tree.noteFolder id).logs = _ :=
          store.tree.logs_perform_other hbeside.1 id
        rw [hlogs]
        exact ih.own id

/-- The call a revert comes to. -/
def revertCall (clock : CallClock) (id : Uuid) : Option Note → NoteCall
  | some note => .update { note with updatedAt := clock.now, deletedAt := none } clock.now
  | none => .delete id clock.ts clock.now

/-- The operation it appends. -/
def revertOp (clock : CallClock) : Option Note → NoteOp
  | some note => .upsert { note with updatedAt := clock.now, deletedAt := none }
  | none => .tombstone clock.ts

theorem revertNote_fst {clock : CallClock} {at_ : DateTime} {target : EntityVersion Note}
    (htarget : (noteStore place).revertTarget id at_ store = .ok target) :
    ((noteStore place).revertNote clock id at_ store).1 =
      store.noteCall place (revertCall clock id target.entity) := by
  cases hentity : target.entity with
  | some note =>
      rw [NoteStore.revertNote_live htarget hentity]
      rfl
  | none =>
      rw [NoteStore.revertNote_deleted htarget hentity, NoteStore.afterDelete_fst]
      rfl

theorem appends_revertCall {tree : FsTree} {clock : CallClock} {entity : Option Note}
    (hid : ∀ note ∈ entity, note.id = id) (hlogs : tree.noteLogs id ≠ []) :
    (revertCall clock id entity).appends tree = some (id, clock.now, revertOp clock entity) := by
  cases entity with
  | none => exact if_neg hlogs
  | some note =>
      obtain rfl := hid note rfl
      exact if_neg hlogs

theorem Current.note_id_of_target (hcurrent : store.Current) {at_ : DateTime}
    {target : EntityVersion Note}
    (htarget : (noteStore place).revertTarget id at_ store = .ok target) :
    ∀ note ∈ target.entity, note.id = id :=
  fun note hentity => (revertLaws place).target store id at_ target note hcurrent htarget hentity

section Own

variable {log : NoteLog} {head : NoteLogEntry} {at_ : DateTime} {clock : CallClock}
  {target : EntityVersion Note}

theorem noteLogs_of_dir (hdir : (store.tree.noteFolder id).logs = [(device, log)]) :
    store.tree.noteLogs id = [log] := by
  rw [FsTree.noteLogs, hdir]
  rfl

/-- A note with a history has a log of this device. -/
theorem OwnStore.log_of_target (hstore : OwnStore device latest store)
    (htarget : (noteStore place).revertTarget id at_ store = .ok target) :
    ∃ log, (store.tree.noteFolder id).logs = [(device, log)] ∧ OwnHistory device latest log := by
  rcases hstore.own id with hempty | hlog
  · have hlogs : store.tree.noteLogs id = [] := by
      rw [FsTree.noteLogs, hempty]
      rfl
    simp [NoteStore.revertTarget, noteStore, FsTree.noteHistory, hlogs, sortAndCap,
      stateAt] at htarget
  · exact hlog

/-- The note of an own log is there, as its head says. -/
theorem readNote_of_log (hdir : (store.tree.noteFolder id).logs = [(device, log)])
    (hcontent : (newestUpsert log).isSome) (hhead : log.getLast? = some head) :
    ∃ note, store.tree.readNote id = .ok note ∧ resolvedNote [log] head = some note := by
  have hsome : (resolvedNote [log] head).isSome := by
    rw [resolvedNote]
    split
    · rfl
    · rw [Option.isSome_map, latestUpsert_singleton, Option.isSome_map]
      exact hcontent
  obtain ⟨note, hnote⟩ := Option.isSome_iff_exists.mp hsome
  refine ⟨note, ?_, hnote⟩
  rw [FsTree.readNote, FsTree.mergeNote_of_log (noteLogs_of_dir hdir) hhead, hnote]

theorem OwnStore.result_cascade (hstore : OwnStore device latest store) (noteId : Uuid)
    (change : StoredResource → Option StoredResource) :
    (FsTree.cascadeResources noteId change (store.tree.noteFolder noteId).resources).result =
      .ok () :=
  (FsTree.resourceFile_cascade (fun _ => 0) noteId change (hstore.tidy.readable noteId)
    (hstore.tidy.resources noteId)).1

theorem OwnStore.result_updateNote (hstore : OwnStore device latest store) (place : Uuid → Nat)
    (note : Note) (hlogs : store.tree.noteLogs note.id ≠ []) (now : DateTime) :
    (store.tree.updateNote place note now).result = .ok note := by
  obtain ⟨hresult, -⟩ := hstore.current.upsert place note now rfl
  obtain ⟨prior, hprior⟩ := hstore.current.mergeNote_ok note.id
  simp only [FsTree.updateNote, if_neg hlogs, hprior, Plan.reading, Plan.bind, hresult]
  split
  · simp only [FsTree.cascadeUnstampResources, hstore.result_cascade]
    rfl
  · rfl

theorem OwnStore.result_deleteNote (hstore : OwnStore device latest store) (place : Uuid → Nat)
    (hlogs : store.tree.noteLogs id ≠ []) (ts now : DateTime) {note : Note}
    (hread : (store.noteCall place (.delete id ts now)).tree.readNote id = .ok note) :
    (store.tree.deleteNote place id ts now).result = .ok () := by
  have hop : ∀ note, NoteOp.tombstone ts = .upsert note → note.id = id := by simp
  obtain ⟨found, happended, hresult, -⟩ := hstore.current.append place now hop rfl
  have hmerge := hstore.current.mergeNote_deleteNote place id ts now hlogs id
  rw [happended.merged] at hmerge
  simp only [IndexedTree.noteCall, FsTree.readNote, hmerge] at hread
  cases found with
  | none => contradiction
  | some found =>
      simp only [FsTree.deleteNote, if_neg hlogs, Plan.bind, hresult,
        FsTree.cascadeStampResources, hstore.result_cascade]

/-- A revert that finds a version writes it down, as one more entry of the log. -/
structure Reverts (place : Uuid → Nat) (device : String) (clock : CallClock) (id : Uuid)
    (log : NoteLog) (entity : Option Note) (done : IndexedTree × Except StorageError Note)
    (entry : NoteLogEntry) : Prop where
  store : OwnStore device clock.now done.1
  appended : entry.op = revertOp clock entity
  author : entry.deviceId = device
  instant : entry.timestamp = clock.now
  file : (done.1.tree.noteFolder id).logs = [(device, appendedLog log entry)]
  own : OwnHistory device clock.now (appendedLog log entry)
  read : ∃ note, done.2 = .ok note ∧ done.1.tree.readNote id = .ok note ∧
    resolvedNote [appendedLog log entry] entry = some note

theorem OwnStore.revertNote (hstore : OwnStore device latest store)
    (hdir : (store.tree.noteFolder id).logs = [(device, log)])
    (hown : OwnHistory device latest log) (hnow : latest < clock.now)
    (htarget : (noteStore place).revertTarget id at_ store = .ok target) :
    ∃ entry, Reverts place device clock id log target.entity
      ((noteStore place).revertNote clock id at_ store) entry := by
  have hid := hstore.current.note_id_of_target htarget
  have hlogs : store.tree.noteLogs id ≠ [] := by
    rw [noteLogs_of_dir hdir]
    exact List.cons_ne_nil _ _
  have happends : (revertCall clock id target.entity).appends store.tree = _ :=
    appends_revertCall hid hlogs
  have hinstant := instant?_of_appends happends
  have hafter := hstore.noteCall place fun instant hread => by
    rw [hinstant] at hread
    rw [← Option.some.inj hread]
    exact hnow
  rw [hinstant, Option.getD_some, ← revertNote_fst htarget] at hafter
  obtain ⟨entry, dir, happend, hfolders⟩ := hstore.current.logs_of_appends place happends
  rw [hstore.deviceId] at happend
  obtain ⟨hop, htime, hauthor, hlog, hlonger⟩ :=
    (hstore.own id).append happend hnow (upsert_of_appends happends)
  have hheld : ownNoteLog (store.tree.noteFolder id).logs device = log := by
    rw [hdir]
    simp [ownNoteLog, Directory.file?]
  rw [hheld] at hlog hlonger
  have hdone := hfolders id
  rw [if_pos rfl, hlog, ← revertNote_fst htarget] at hdone
  obtain ⟨front, hfront, -, -⟩ := hown.appendedLog_eq hauthor (htime ▸ hnow)
  have hlast : (appendedLog log entry).getLast? = some entry := by
    rw [hfront, List.getLast?_concat]
  obtain ⟨note, hread, hresolved⟩ := readNote_of_log hdone hlonger.content hlast
  refine ⟨entry, hafter, hop, hauthor, htime, hdone, hlonger, note, ?_, hread, hresolved⟩
  cases hentity : target.entity with
  | some source =>
      obtain rfl := hid source hentity
      rw [NoteStore.revertNote_live htarget hentity]
      rw [resolvedNote, hop, hentity] at hresolved
      obtain rfl := Option.some.inj hresolved
      exact hstore.result_updateNote place
        { source with updatedAt := clock.now, deletedAt := none } hlogs clock.now
  | none =>
      have hfound := hread
      rw [revertNote_fst htarget, hentity] at hread
      have hdeleted := hstore.result_deleteNote place hlogs clock.ts clock.now hread
      rw [NoteStore.revertNote_deleted htarget hentity] at hfound ⊢
      rw [NoteStore.afterDelete_fst] at hfound
      have hdone : (noteStore place).deleteNote id clock.ts clock.now store =
          (((noteStore place).deleteNote id clock.ts clock.now store).1, .ok ()) :=
        Prod.ext rfl hdeleted
      rw [hdone]
      exact hfound

end Own

end IndexedTree

/-- All of a note but when and by whom it was written and whether it is deleted. -/
def Note.restorable (note : Note) : Note :=
  { note with updatedAt := epochStart, deletedAt := none, vv := ∅, lastWriter := "" }

def Note.state (note : Note) : Note × Bool :=
  (note.restorable, note.deletedAt.isSome)

/-- A revert to the instant gives the note the content and the deletion status that it had
in the first store. -/
def NoteStore.Undoes {S : Type} (backend : NoteStore S) (again : CallClock) (id : Uuid)
    (instant : DateTime) (store after : S) : Prop :=
  ∃ held last restored found, backend.readNote id store = .ok held ∧
    backend.revertNote again id instant after = (last, .ok restored) ∧
    backend.readNote id last = .ok found ∧ found.state = held.state

/-- When the revert of a note with this log can be undone.  The head is a live upsert, which
the revert must not compact away, or a tombstone, and then the revert must leave the content
that it deletes. -/
def Undoable (log : NoteLog) (entity : Option Note) : Prop :=
  ∀ head ∈ log.getLast?,
    match head.op with
    | .upsert note =>
        note.deletedAt = none ∧ (log.length < NOTE_LOG_COMPACT_THRESHOLD ∨ entity = none)
    | .tombstone _ =>
        log.length < NOTE_LOG_COMPACT_THRESHOLD ∧
          ∀ note ∈ entity, ∀ last ∈ latestUpsert [log], note.restorable = last.restorable

/-- The content and the deletion status of a note whose log ends with an operation. -/
def opState (log : NoteLog) : NoteOp → Option (Note × Bool)
  | .upsert note => some note.state
  | .tombstone _ => (newestUpsert log).map fun found => (found.2.restorable, true)

theorem state_resolvedNote (log : NoteLog) (entry : NoteLogEntry) :
    (resolvedNote [log] entry).map Note.state = opState log entry.op := by
  rw [resolvedNote]
  cases entry.op with
  | upsert note => rfl
  | tombstone deletedAt =>
      rw [latestUpsert_singleton, Option.map_map, Option.map_map]
      rfl

namespace IndexedTree

section Own

variable {place : Uuid → Nat} {device : String} {latest at_ instant : DateTime}
  {store : IndexedTree} {id : Uuid} {log front : NoteLog} {head last entry : NoteLogEntry}
  {clock again : CallClock} {target : EntityVersion Note}
  {done : IndexedTree × Except StorageError Note} {entity : Option Note}

/-- Just before the revert the entry in front of it was in force. -/
theorem Reverts.revertTarget (hreverts : Reverts place device clock id log entity done entry)
    (hfront : appendedLog log entry = front ++ [entry])
    (hbefore : ∀ old ∈ front, old.timestamp ≤ instant) (hinstant : instant < clock.now) :
    (noteStore place).revertTarget id instant done.1 =
      match front.getLast? with
      | none => .error (.notFound id)
      | some last => .ok last.version := by
  have hlogs := noteLogs_of_dir hreverts.file
  have hown := hreverts.own
  rw [hfront] at hlogs hown
  have hstate := FsTree.stateAt_of_log hlogs hown hbefore fun later hlater => by
    rw [List.mem_singleton.mp hlater, hreverts.instant]
    exact hinstant
  simp only [NoteStore.revertTarget, noteStore, hstate]
  cases front.getLast? <;> rfl

/-- What the second revert comes to, if the first one left an entry before its own. -/
theorem Reverts.undoes_iff_state (hreverts : Reverts place device clock id log entity done entry)
    (hdir : (store.tree.noteFolder id).logs = [(device, log)])
    (hown : OwnHistory device latest log) (hhead : log.getLast? = some head)
    (hnow : latest < clock.now) (hagain : clock.now < again.now)
    (htarget : (noteStore place).revertTarget id instant done.1 = .ok last.version) :
    (noteStore place).Undoes again id instant store done.1 ↔
      (match last.upsert? with
        | some found => some (found.2.restorable, false)
        | none => (entry.upsert?.or (newestUpsert log)).map fun found =>
            (found.2.restorable, true)) = opState log head.op := by
  obtain ⟨held, hheld, hheldNote⟩ := readNote_of_log hdir hown.content hhead
  obtain ⟨next, hnext⟩ := hreverts.store.revertNote hreverts.file hreverts.own hagain htarget
  obtain ⟨found, hdone, hfound, hfoundNote⟩ := hnext.read
  have hheldState := state_resolvedNote log head
  rw [hheldNote] at hheldState
  have hfoundState := state_resolvedNote (appendedLog (appendedLog log entry) next) next
  rw [hfoundNote, hnext.appended] at hfoundState
  have hnewest := hreverts.own.newestUpsert_appendedLog hnext.author (hnext.instant ▸ hagain)
  rw [hown.newestUpsert_appendedLog hreverts.author (hreverts.instant ▸ hnow)] at hnewest
  have hagainState : opState (appendedLog (appendedLog log entry) next)
      (revertOp again last.version.entity) =
        match last.upsert? with
        | some found => some (found.2.restorable, false)
        | none => (entry.upsert?.or (newestUpsert log)).map fun found =>
            (found.2.restorable, true) := by
    have hnextOp := hnext.appended
    simp only [NoteLogEntry.version] at hnextOp ⊢
    cases hlast : last.upsert? with
    | some stamped => rfl
    | none =>
        rw [hlast] at hnextOp
        have hnone : next.upsert? = none := by
          rw [NoteLogEntry.upsert?, hnextOp]
          rfl
        rw [hnone, Option.none_or] at hnewest
        simp only [Option.map_none, revertOp, opState, hnewest]
  rw [← hagainState, ← hfoundState, ← hheldState, Option.map_some, Option.map_some,
    Option.some.injEq]
  constructor
  · rintro ⟨before, final, restored, after, hbefore, hrevert, hafter, hstate⟩
    obtain rfl := Except.ok.inj (hheld.symm.trans hbefore)
    rw [hrevert] at hfound
    obtain rfl := Except.ok.inj (hfound.symm.trans hafter)
    exact hstate
  · intro hstate
    exact ⟨held, _, found, found, hheld, Prod.ext rfl hdone, hfound, hstate⟩

theorem upsert?_of_revertOp (hop : entry.op = revertOp clock entity) :
    entry.upsert? = entity.map fun note =>
      (entry.timestamp, { note with updatedAt := clock.now, deletedAt := none }) := by
  rw [NoteLogEntry.upsert?, hop]
  cases entity <;> rfl

/-- Without an entry before its own the revert cannot be undone. -/
theorem not_undoes_of_missing {failure : StorageError} {after : IndexedTree}
    (htarget : (noteStore place).revertTarget id instant after = .error failure) :
    ¬ (noteStore place).Undoes again id instant store after := by
  rintro ⟨held, last, restored, found, -, hrevert, -⟩
  rw [NoteStore.revertNote_missing htarget] at hrevert
  cases hrevert

theorem OwnStore.undoes_iff (hstore : OwnStore device latest store) (hnow : latest < clock.now)
    (hagain : clock.now < again.now) (hbefore : latest ≤ instant) (hinstant : instant < clock.now)
    (htarget : (noteStore place).revertTarget id at_ store = .ok target) :
    (noteStore place).Undoes again id instant store
        ((noteStore place).revertNote clock id at_ store).1 ↔
      Undoable (ownNoteLog (store.tree.noteFolder id).logs device) target.entity := by
  obtain ⟨log, hdir, hown⟩ := hstore.log_of_target htarget
  have hheld : ownNoteLog (store.tree.noteFolder id).logs device = log := by
    rw [hdir]
    simp [ownNoteLog, Directory.file?]
  obtain ⟨stamped, hstamped⟩ := Option.isSome_iff_exists.mp hown.content
  obtain ⟨head, hhead⟩ : ∃ head, log.getLast? = some head := by
    refine Option.ne_none_iff_exists'.mp fun hnone => ?_
    rw [List.getLast?_eq_none_iff.mp hnone] at hstamped
    cases hstamped
  obtain ⟨entry, hreverts⟩ := hstore.revertNote hdir hown hnow htarget
  obtain ⟨front, hfront, hmem, hkept⟩ :=
    hown.appendedLog_eq hreverts.author (hreverts.instant ▸ hnow)
  have hfind := hreverts.revertTarget hfront
    (fun old hold => (hown.past old (hmem old hold)).trans hbefore) hinstant
  have hentry := upsert?_of_revertOp hreverts.appended
  rw [hheld]
  simp only [Undoable, hhead, Option.mem_some_iff, forall_eq', latestUpsert_singleton, hstamped,
    Option.map_some]
  by_cases hroom : log.length < NOTE_LOG_COMPACT_THRESHOLD
  · -- The whole log is still there, and its head is in force again.
    rw [if_pos hroom] at hkept
    rw [hkept, hhead] at hfind
    rw [hreverts.undoes_iff_state hdir hown hhead hnow hagain hfind]
    cases hop : head.op with
    | upsert note =>
        have hupsert : head.upsert? = some (head.timestamp, note) := by
          rw [NoteLogEntry.upsert?, hop]
        simp [hupsert, opState, Note.state, hroom]
    | tombstone deletedAt =>
        have hupsert : head.upsert? = none := by rw [NoteLogEntry.upsert?, hop]
        simp only [hupsert, opState, hstamped, hentry, hroom]
        cases target.entity with
        | none => simp
        | some note => simp [Note.restorable]
  · rw [if_neg hroom] at hkept
    cases hentity : target.entity with
    | some note =>
        -- The revert compacts everything before it away.
        have hupsert : entry.isUpsert = true := by
          rw [← upsert?_isSome, hentry, hentity]
          rfl
        rw [if_pos hupsert] at hkept
        rw [hkept] at hfind
        refine iff_of_false (not_undoes_of_missing hfind) ?_
        cases head.op <;> simp [hroom]
    | none =>
        -- Only the newest upsert is left before the tombstone.
        have hupsert : ¬ entry.isUpsert = true := by
          rw [← upsert?_isSome, hentry, hentity]
          simp
        rw [if_neg hupsert] at hkept
        obtain ⟨newest, -, hnewest, rfl⟩ := hkept
        rw [List.getLast?_singleton] at hfind
        rw [hreverts.undoes_iff_state hdir hown hhead hnow hagain hfind, hnewest, hstamped]
        cases hop : head.op with
        | upsert note =>
            have hhead' : head.upsert? = some (head.timestamp, note) := by
              rw [NoteLogEntry.upsert?, hop]
            have hsame := hown.newestUpsert_of_head hhead hhead'
            rw [hstamped] at hsame
            obtain rfl := Option.some.inj hsame
            simp [opState, Note.state]
        | tombstone deletedAt => simp [opState, hstamped, hroom]

end Own

end IndexedTree

open IndexedTree (noteStore)

/-- In every store of a device that alone writes its notes, a revert that succeeds is undone
by a revert to the instant before it just when the log allows it. -/
theorem revert_undone_iff {place : Uuid → Nat} {device : String} {latest at_ instant : DateTime}
    {store : IndexedTree} {id : Uuid} {clock again : CallClock} {note : Note}
    (hreached : ReachedAt place device latest store)
    (hrevert : ((noteStore place).revertNote clock id at_ store).2 = .ok note)
    (hnow : latest < clock.now) (hagain : clock.now < again.now) (hbefore : latest ≤ instant)
    (hinstant : instant < clock.now) :
    ∃ target, (noteStore place).revertTarget id at_ store = .ok target ∧
      ((noteStore place).Undoes again id instant store
          ((noteStore place).revertNote clock id at_ store).1 ↔
        Undoable (ownNoteLog (store.tree.noteFolder id).logs device) target.entity) := by
  cases htarget : (noteStore place).revertTarget id at_ store with
  | error failure =>
      rw [NoteStore.revertNote_missing htarget] at hrevert
      cases hrevert
  | ok target =>
      have hstore := IndexedTree.ownStore_of_reachedAt hreached
      exact ⟨target, rfl, hstore.undoes_iff hnow hagain hbefore hinstant htarget⟩

namespace UndoWitness

def place : Uuid → Nat := fun _ => 0

def clock (now : DateTime) : CallClock := ⟨now, now, fun _ => 0, 1⟩

def old : Note := Note.new 1 "old" "" 1

def new : Note := Note.new 1 "new" "" 3

/-- A note that was edited. -/
def edited : IndexedTree :=
  ((IndexedTree.empty "A").noteCall place (.create old 1)).noteCall place (.update new 3)

def deleted : IndexedTree := edited.noteCall place (.delete 1 5 5)

def entries (store : IndexedTree) : List (DateTime × NoteOp) :=
  (ownNoteLog (store.tree.noteFolder 1).logs "A").map fun entry => (entry.timestamp, entry.op)

theorem reached_edited : ReachedAt place "A" 3 edited := by
  have hempty : ReachedAt place "A" 0 (.empty "A") := .initial 0
  exact (hempty.call (.create old 1) (by decide)).call (.update new 3) (by decide)

theorem reached_deleted : ReachedAt place "A" 5 deleted :=
  reached_edited.call (.delete 1 5 5) (by decide)

/-- A revert to the instant after the first entry goes back to it. -/
theorem revertTarget_old {store : IndexedTree} {latest : DateTime}
    (hreached : ReachedAt place "A" latest store) {later : List (DateTime × NoteOp)}
    (hentries : entries store = (1, .upsert old) :: later) (hlater : ∀ entry ∈ later, 2 < entry.1) :
    ∃ target, (noteStore place).revertTarget 1 2 store = .ok target ∧ target.entity = some old := by
  obtain ⟨first, rest, hlog, hfirst, rfl⟩ := List.map_eq_cons_iff.mp hentries
  obtain ⟨htime, hop⟩ := Prod.mk.inj hfirst
  rcases (IndexedTree.ownStore_of_reachedAt hreached).own 1 with hempty | ⟨log, hdir, hown⟩
  · rw [hempty] at hlog
    contradiction
  have hheld : ownNoteLog (store.tree.noteFolder 1).logs "A" = log := by
    rw [hdir]
    simp [ownNoteLog, Directory.file?]
  obtain rfl : log = [first] ++ rest := hheld.symm.trans hlog
  have hstate := FsTree.stateAt_of_log (IndexedTree.noteLogs_of_dir hdir) hown
    (fun entry hentry => by rw [List.mem_singleton.mp hentry, htime]; decide)
    fun entry hentry => hlater _ (List.mem_map_of_mem hentry)
  rw [List.getLast?_singleton, Option.map_some] at hstate
  refine ⟨first.version, ?_, ?_⟩
  · simp only [NoteStore.revertTarget, noteStore, hstate]
  · rw [NoteLogEntry.version, NoteLogEntry.upsert?, hop]
    rfl

theorem op_of_head {store : IndexedTree} {ops : List (DateTime × NoteOp)}
    (hentries : entries store = ops) {head : NoteLogEntry}
    (hhead : head ∈ (ownNoteLog (store.tree.noteFolder 1).logs "A").getLast?) :
    ops.getLast? = some (head.timestamp, head.op) := by
  rw [← hentries, entries, List.getLast?_map, hhead]
  rfl

/-- The edit is back after its revert is undone. -/
theorem undoes_edited :
    (noteStore place).Undoes (clock 9) 1 6 edited
      ((noteStore place).revertNote (clock 7) 1 2 edited).1 := by
  have hentries : entries edited = [(1, .upsert old), (3, .upsert new)] := rfl
  have hnow : 3 < (clock 7).now := by decide
  have hagain : (clock 7).now < (clock 9).now := by decide
  have hbefore : (3 : DateTime) ≤ 6 := by decide
  have hinstant : 6 < (clock 7).now := by decide
  obtain ⟨target, htarget, -⟩ := revertTarget_old reached_edited hentries (by decide)
  have hstore := IndexedTree.ownStore_of_reachedAt reached_edited
  obtain ⟨log, hdir, hown⟩ := hstore.log_of_target htarget
  obtain ⟨entry, hreverts⟩ := hstore.revertNote hdir hown hnow htarget
  obtain ⟨note, hrevert, -⟩ := hreverts.read
  obtain ⟨found, -, hundoes⟩ :=
    revert_undone_iff reached_edited hrevert hnow hagain hbefore hinstant
  refine hundoes.mpr fun head hhead => ?_
  have hlast := op_of_head hentries hhead
  have hop : head.op = .upsert new := (Prod.mk.inj (Option.some.inj hlast)).2.symm
  have hlength : (ownNoteLog (edited.tree.noteFolder 1).logs "A").length = 2 := rfl
  rw [hop, hlength]
  exact ⟨rfl, .inl (by decide)⟩

/-- The note is deleted again with the content that was reverted to. -/
theorem not_undoes_deleted :
    (∃ note, ((noteStore place).revertNote (clock 7) 1 2 deleted).2 = .ok note) ∧
      ¬ (noteStore place).Undoes (clock 9) 1 6 deleted
        ((noteStore place).revertNote (clock 7) 1 2 deleted).1 := by
  have hentries : entries deleted = [(1, .upsert old), (3, .upsert new), (5, .tombstone 5)] := rfl
  have hnow : 5 < (clock 7).now := by decide
  have hagain : (clock 7).now < (clock 9).now := by decide
  have hbefore : (5 : DateTime) ≤ 6 := by decide
  have hinstant : 6 < (clock 7).now := by decide
  obtain ⟨target, htarget, hentity⟩ := revertTarget_old reached_deleted hentries (by decide)
  have hstore := IndexedTree.ownStore_of_reachedAt reached_deleted
  obtain ⟨log, hdir, hown⟩ := hstore.log_of_target htarget
  obtain ⟨entry, hreverts⟩ := hstore.revertNote hdir hown hnow htarget
  obtain ⟨note, hrevert, -⟩ := hreverts.read
  refine ⟨⟨note, hrevert⟩, ?_⟩
  rw [hstore.undoes_iff hnow hagain hbefore hinstant htarget, hentity]
  intro hundoable
  obtain ⟨head, hhead⟩ : ∃ head,
      (ownNoteLog (deleted.tree.noteFolder 1).logs "A").getLast? = some head := ⟨_, rfl⟩
  have hop : head.op = .tombstone 5 :=
    (Prod.mk.inj (Option.some.inj (op_of_head hentries hhead))).2.symm
  have hsame := hundoable head hhead
  rw [hop] at hsame
  have hcontent : old.restorable = new.restorable := hsame.2 old rfl new rfl
  exact absurd (congrArg Note.title hcontent) (by decide)

end UndoWitness

end Keeplin
