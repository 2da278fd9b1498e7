/-
Compaction of a device's own journal beside the mutators that write to it.  A
mutator writes its sidecar first and its journal entry later, and a compaction
reads one sidecar after the other; only appends and compactions wait for each
other.  As in the journal itself, no epoch reaches the largest of 64 bits.
-/
import Keeplin.LabelledRun
import Keeplin.RunningMutator

namespace Keeplin

open VersionVector

/-- A compaction under way: the listed sidecars it has not read yet, and what it
got from those it has. -/
structure SnapshotScan where
  ts : DateTime
  pending : List SidecarPath
  entries : List LogEntry
  unreadable : Nat
deriving DecidableEq

/-- A device with its journal.  `past` are the journals of earlier epochs as
they were when a compaction replaced them; `calls` are the mutators under way,
at most one of an entity. -/
structure JournalWorld where
  tree : FsTree
  log : GlobalLog
  past : List GlobalLog
  calls : Entity → Option Mutation
  scan : Option SnapshotScan

inductive JournalStep where
  /-- A mutator reads the store and prepares its writes. -/
  | call (write : LocalWrite) (ts : DateTime)
  /-- A mutator makes its next write. -/
  | write (entity : Entity) (place : Uuid → Nat)
  /-- A mutator that has made its writes appends to the journal and returns. -/
  | appendLog (entity : Entity) (now : DateTime)
  /-- A mutator fails. -/
  | abandon (entity : Entity)
  /-- A file that is no sidecar is written. -/
  | writeOther (write : TreeWrite) (place : Uuid → Nat)
  /-- A compaction lists the sidecars. -/
  | compact (ts : DateTime)
  /-- A compaction reads a sidecar. -/
  | read (path : SidecarPath)
  /-- A compaction that has read what it listed replaces the journal. -/
  | replace
  /-- The process stops. -/
  | crash

namespace SnapshotScan

/-- Read a file.  One that turned up after the listing may be read as well. -/
def read (scan : SnapshotScan) (tree : FsTree) (path : SidecarPath) : SnapshotScan :=
  let scan := { scan with pending := scan.pending.filter fun other => other ≠ path }
  match tree.snapshotFile scan.ts path with
  | none => scan
  | some none => { scan with unreadable := scan.unreadable + 1 }
  | some (some entry) => { scan with entries := scan.entries ++ [entry] }

variable (scan : SnapshotScan) (tree : FsTree) (path : SidecarPath)

theorem pending_read :
    (scan.read tree path).pending = scan.pending.filter fun other => other ≠ path := by
  simp only [read]
  split <;> rfl

theorem entries_read :
    (scan.read tree path).entries =
      scan.entries ++ ((tree.snapshotFile scan.ts path).bind id).toList := by
  simp only [read]
  split
  · next hfile => simp [hfile]
  · next hfile => simp [hfile]
  · next entry hfile => simp [hfile]

theorem ts_read : (scan.read tree path).ts = scan.ts := by
  simp only [read]
  split <;> rfl

theorem unreadable_read :
    (scan.read tree path).unreadable = scan.unreadable +
      ((tree.snapshotFile scan.ts path).toList.countP Option.isNone) := by
  simp only [read]
  split
  · next hfile => simp [hfile]
  · next hfile => simp [hfile]
  · next entry hfile => simp [hfile]

/-- Reading path after path collects what a snapshot of the paths would. -/
theorem foldl_read (paths : List SidecarPath) :
    paths.foldl (fun scan path => scan.read tree path) scan =
      ⟨scan.ts, scan.pending.filter fun path => path ∉ paths,
        scan.entries ++ (paths.filterMap (tree.snapshotFile scan.ts)).filterMap id,
        scan.unreadable +
          (paths.filterMap (tree.snapshotFile scan.ts)).countP Option.isNone⟩ := by
  induction paths generalizing scan with
  | nil => simp
  | cons path rest ih =>
      rw [List.foldl_cons, ih, scan.ts_read, scan.pending_read, scan.entries_read,
        scan.unreadable_read, List.filter_filter]
      have hpending : (scan.pending.filter fun other =>
          decide (other ∉ rest) && decide (other ≠ path)) =
          scan.pending.filter fun other => other ∉ path :: rest := by
        apply List.filter_congr
        intro other _
        by_cases hrest : other ∈ rest <;> by_cases hpath : other = path <;>
          simp [hrest, hpath]
      rw [hpending, List.filterMap_cons]
      cases tree.snapshotFile scan.ts path with
      | none => simp
      | some file =>
          cases file with
          | none => simp [Nat.add_assoc, Nat.add_comm 1]
          | some entry => simp

/-- Reading everything that was listed makes the snapshot. -/
theorem foldl_read_sidecarPaths (ts : DateTime) :
    tree.sidecarPaths.foldl (fun scan path => scan.read tree path)
        (⟨ts, tree.sidecarPaths, [], 0⟩ : SnapshotScan) =
      ⟨ts, [], (tree.buildGlobalSnapshot ts).1, (tree.buildGlobalSnapshot ts).2⟩ := by
  rw [foldl_read]
  simp [FsTree.buildGlobalSnapshot]

end SnapshotScan

namespace JournalWorld

def step (contentHash : List UInt8 → String) (world : JournalWorld) :
    JournalStep → Option JournalWorld
  | .call write ts =>
      match world.calls write.entity, world.tree.localWrite contentHash ts write with
      | none, some (.ok mutation) =>
          some { world with
            calls := Function.update world.calls write.entity (some mutation) }
      | none, some (.error _) => some world
      | _, _ => none
  | .write entity place =>
      match world.calls entity with
      | some ⟨next :: rest, record⟩ =>
          some { world with
            tree := world.tree.perform place next
            calls := Function.update world.calls entity (some ⟨rest, record⟩) }
      | _ => none
  | .appendLog entity now =>
      match world.scan, world.calls entity with
      | none, some ⟨[], record⟩ =>
          some { world with
            log := { world.log with entries := world.log.entries ++ [record.at now] }
            calls := Function.update world.calls entity none }
      | _, _ => none
  | .abandon entity =>
      some { world with calls := Function.update world.calls entity none }
  | .writeOther write place =>
      if write.sidecar? = none then
        some { world with tree := world.tree.perform place write }
      else none
  | .compact ts =>
      match world.scan with
      | none => some { world with scan := some ⟨ts, world.tree.sidecarPaths, [], 0⟩ }
      | some _ => none
  | .read path =>
      world.scan.map fun scan => { world with scan := some (scan.read world.tree path) }
  | .replace =>
      match world.scan with
      | some ⟨_, [], entries, unreadable⟩ =>
          if 0 < unreadable then some { world with scan := none }
          else
            some { world with
              log := ⟨world.log.epoch + 1, entries⟩
              past := world.past ++ [world.log]
              scan := none }
      | _ => none
  | .crash => some { world with calls := fun _ => none, scan := none }

/-- What a reader with this cursor has not read: of the epoch of its cursor what
is behind it, and of the epochs after that everything. -/
def unread (world : JournalWorld) (cursor : LogCursor) : List LogEntry :=
  (world.past ++ [world.log]).flatMap fun log => log.unread cursor

/-- What a compaction under way has read so far. -/
def scanned (world : JournalWorld) : List LogEntry :=
  (world.scan.map SnapshotScan.entries).getD []

end JournalWorld

/-- A device that has not written to its journal, whatever its store holds. -/
structure JournalWorld.Fresh (world : JournalWorld) : Prop where
  named : world.tree.Named
  single : world.tree.SingleFiled
  entries : world.log.entries = []
  past : world.past = []
  calls : world.calls = fun _ => none
  scan : world.scan = none

/-- Some entry tells a version of the entity that counts what `vv` counts. -/
def Superseded (entries : List LogEntry) (entity : Entity) (vv : VersionVector) : Prop :=
  ∃ entry ∈ entries, ∃ later, entry.Tells entity later ∧ dominates later vv = true

section Told

variable {entry : LogEntry} {entity : Entity} {vv : VersionVector}

theorem LogEntry.Tells.unique {other : Entity} {vector : VersionVector}
    (htells : entry.Tells entity vv) (hother : entry.Tells other vector) :
    other = entity ∧ vector = vv := by
  obtain ⟨change, hchange, rfl, rfl⟩ := htells
  obtain ⟨same, hsame, rfl, rfl⟩ := hother
  obtain rfl := Option.some.inj (hchange.symm.trans hsame)
  exact ⟨rfl, rfl⟩

theorem Superseded.of_mem {entries : List LogEntry} (hmem : entry ∈ entries)
    (htells : entry.Tells entity vv) : Superseded entries entity vv :=
  ⟨entry, hmem, vv, htells, dominates_refl vv⟩

theorem Superseded.mono {entries others : List LogEntry}
    (hsuperseded : Superseded entries entity vv) (hsub : entries ⊆ others) :
    Superseded others entity vv := by
  obtain ⟨entry, hentry, hlater⟩ := hsuperseded
  exact ⟨entry, hsub hentry, hlater⟩

/-- What entries supersede that are superseded themselves is superseded. -/
theorem Superseded.trans {entries others : List LogEntry}
    (hsuperseded : Superseded entries entity vv)
    (hothers : ∀ entry ∈ entries, ∀ vector, entry.Tells entity vector →
      Superseded others entity vector) : Superseded others entity vv := by
  obtain ⟨entry, hentry, later, htells, hdom⟩ := hsuperseded
  obtain ⟨other, hother, last, hlast, hmore⟩ := hothers entry hentry later htells
  exact ⟨other, hother, last, hlast, dominates_trans hmore hdom⟩

end Told

namespace JournalWorld

/-- What holds in every reachable world.  Everything the journal or a compaction
tells is covered by some file, and whatever was told in an earlier epoch by the
journal. -/
structure Sound (world : JournalWorld) : Prop where
  named : world.tree.Named
  leveled : world.tree.Leveled
  calls : ∀ entity call, world.calls entity = some call → world.tree.Running entity call
  covered : ∀ entry ∈ world.log.entries ++ world.scanned, ∀ entity vv,
    entry.Tells entity vv → world.tree.Covers entity vv
  scan : ∀ scan, world.scan = some scan → ∀ entry ∈ world.log.entries, ∀ entity vv,
    entry.Tells entity vv → (∃ path ∈ scan.pending, world.tree.CoversAt path entity vv) ∨
      Superseded scan.entries entity vv
  past : ∀ old ∈ world.past, old.epoch < world.log.epoch ∧ ∀ entry ∈ old.entries,
    ∀ entity vv, entry.Tells entity vv → Superseded world.log.entries entity vv

/-- The mutator of an entity after the call of one entity has changed. -/
theorem calls_update {calls : Entity → Option Mutation} {entity other : Entity}
    {value : Option Mutation} {call : Mutation}
    (hcall : Function.update calls entity value other = some call) :
    other = entity ∧ value = some call ∨ other ≠ entity ∧ calls other = some call := by
  by_cases hentity : other = entity
  · subst hentity
    rw [Function.update_self] at hcall
    exact Or.inl ⟨rfl, hcall⟩
  · rw [Function.update_of_ne hentity] at hcall
    exact Or.inr ⟨hentity, hcall⟩

variable {world : JournalWorld}

theorem Fresh.sound (hfresh : world.Fresh) : world.Sound where
  named := hfresh.named
  leveled := hfresh.single.leveled
  calls := by
    intro entity call hcall
    rw [hfresh.calls] at hcall
    contradiction
  covered := by
    intro entry hentry
    rw [scanned, hfresh.scan, hfresh.entries] at hentry
    exact absurd hentry List.not_mem_nil
  scan := by
    intro scan hscan
    rw [hfresh.scan] at hscan
    contradiction
  past := by
    intro old hold
    rw [hfresh.past] at hold
    exact absurd hold List.not_mem_nil

namespace Sound

variable (hsound : world.Sound)
include hsound

theorem call {contentHash : List UInt8 → String} {write : LocalWrite} {ts : DateTime}
    {mutation : Mutation}
    (hwrite : world.tree.localWrite contentHash ts write = some (.ok mutation)) :
    Sound { world with
      calls := Function.update world.calls write.entity (some mutation) } where
  named := hsound.named
  leveled := hsound.leveled
  calls := by
    intro entity call hcall
    rcases calls_update hcall with ⟨rfl, hnew⟩ | ⟨-, hold⟩
    · obtain rfl := Option.some.inj hnew
      exact FsTree.localWrite_running hsound.leveled hwrite
    · exact hsound.calls entity call hold
  covered := hsound.covered
  scan := hsound.scan
  past := hsound.past

theorem abandon (entity : Entity) :
    Sound { world with calls := Function.update world.calls entity none } where
  named := hsound.named
  leveled := hsound.leveled
  calls := by
    intro other call hcall
    rcases calls_update hcall with ⟨-, hnew⟩ | ⟨-, hold⟩
    · contradiction
    · exact hsound.calls other call hold
  covered := hsound.covered
  scan := hsound.scan
  past := hsound.past

/-- The next write of a mutator. -/
theorem write {entity : Entity} {place : Uuid → Nat} {next : TreeWrite}
    {rest : List TreeWrite} {record : LogRecord}
    (hcall : world.calls entity = some ⟨next :: rest, record⟩) :
    Sound { world with
      tree := world.tree.perform place next
      calls := Function.update world.calls entity (some ⟨rest, record⟩) } := by
  have hrunning := hsound.calls entity _ hcall
  exact {
    named := hrunning.named place hsound.named
    leveled := hrunning.leveled place hsound.leveled
    calls := by
      intro other call hother
      rcases calls_update hother with ⟨rfl, hnew⟩ | ⟨hne, hold⟩
      · obtain rfl := Option.some.inj hnew
        exact hrunning.perform place
      · exact (hsound.calls other call hold).frame
          (world.tree.deviceId_perform place next) (hrunning.slot_of_ne place hne)
          fun path hpath => hrunning.vvAt_of_ne place (hpath ▸ hne)
    covered := fun entry hentry target vv htells =>
      hrunning.covers place (hsound.covered entry hentry target vv htells)
    scan := fun scan hscan entry hentry target vv htells =>
      (hsound.scan scan hscan entry hentry target vv htells).imp_left
        fun ⟨path, hpath, hcovers⟩ => ⟨path, hpath, hrunning.coversAt place hcovers⟩
    past := hsound.past }

/-- A write beside the mutators that is no sidecar's. -/
theorem writeOther {place : Uuid → Nat} {other : TreeWrite}
    (hnone : other.sidecar? = none) :
    Sound { world with tree := world.tree.perform place other } := by
  have hvv := world.tree.vvAt_perform_none place hnone
  have hcovers : ∀ path entity vv, world.tree.CoversAt path entity vv →
      (world.tree.perform place other).CoversAt path entity vv :=
    fun path entity vv ⟨hentity, held, hheld, hdom⟩ =>
      ⟨hentity, held, (hvv path).trans hheld, hdom⟩
  exact {
    named := hsound.named.perform place fun path change hsome => by
      rw [hnone] at hsome
      contradiction
    leveled := hsound.leveled.perform_none place hnone
    calls := fun entity call hcall => (hsound.calls entity call hcall).frame
      (world.tree.deviceId_perform place other)
      (world.tree.slot_perform_of_ne place fun path vv hsome => by
        rw [hnone] at hsome
        contradiction)
      fun path _ => hvv path
    covered := fun entry hentry entity vv htells => by
      obtain ⟨path, hpath⟩ := hsound.covered entry hentry entity vv htells
      exact ⟨path, hcovers path entity vv hpath⟩
    scan := fun scan hscan entry hentry entity vv htells =>
      (hsound.scan scan hscan entry hentry entity vv htells).imp_left
        fun ⟨path, hpath, hat⟩ => ⟨path, hpath, hcovers path entity vv hat⟩
    past := hsound.past }

/-- A mutator whose writes are made appends its entry. -/
theorem appendLog {entity : Entity} {record : LogRecord} (now : DateTime)
    (hscan : world.scan = none) (hcall : world.calls entity = some ⟨[], record⟩) :
    Sound { world with
      log := { world.log with entries := world.log.entries ++ [record.at now] }
      calls := Function.update world.calls entity none } := by
  have hrunning := hsound.calls entity _ hcall
  have hstored : world.tree.Covers entity record.data.vv := by
    rcases hrunning.stores with ⟨write, hwrite, _⟩ | hcovers
    · exact absurd hwrite List.not_mem_nil
    · exact hcovers
  have hfree := hsound.abandon entity
  exact {
    named := hsound.named
    leveled := hsound.leveled
    calls := hfree.calls
    covered := by
      intro entry hentry target vv htells
      rw [scanned, hscan] at hentry
      rcases List.mem_append.mp (List.mem_append.mp hentry |>.resolve_right List.not_mem_nil)
        with hold | hnew
      · exact hsound.covered entry (List.mem_append_left _ hold) target vv htells
      · rw [List.mem_singleton.mp hnew] at htells
        obtain ⟨rfl, rfl⟩ := (hrunning.told now).unique htells
        exact hstored
    scan := by
      intro scan hsome
      rw [hscan] at hsome
      contradiction
    past := fun old hold => ⟨(hsound.past old hold).1, fun entry hentry target vv htells =>
      ((hsound.past old hold).2 entry hentry target vv htells).mono
        (List.subset_append_left _ _)⟩ }

/-- A compaction begins: whatever the journal tells is in a listed file. -/
theorem compact (ts : DateTime) :
    Sound { world with scan := some ⟨ts, world.tree.sidecarPaths, [], 0⟩ } where
  named := hsound.named
  leveled := hsound.leveled
  calls := hsound.calls
  covered := by
    intro entry hentry entity vv htells
    exact hsound.covered entry
      (List.mem_append_left _ (by simpa [scanned] using hentry)) entity vv htells
  scan := by
    intro scan hsome entry hentry entity vv htells
    obtain rfl := Option.some.inj hsome
    obtain ⟨path, hentity, held, hheld, hdom⟩ :=
      hsound.covered entry (List.mem_append_left _ hentry) entity vv htells
    obtain ⟨change, hchange, _⟩ := Option.map_eq_some_iff.mp hheld
    exact Or.inl ⟨path, FsTree.mem_sidecarPaths_of_changeAt hchange, hentity, held, hheld,
      hdom⟩
  past := hsound.past

/-- A compaction reads a file: what the file covers it has now told. -/
theorem read {scan : SnapshotScan} (hscan : world.scan = some scan) (path : SidecarPath) :
    Sound { world with scan := some (scan.read world.tree path) } where
  named := hsound.named
  leveled := hsound.leveled
  calls := hsound.calls
  covered := by
    intro entry hentry entity vv htells
    have hcases : entry ∈ world.log.entries ++ scan.entries ∨
        (world.tree.snapshotFile scan.ts path).bind id = some entry := by
      simp only [scanned, Option.map_some, Option.getD_some, scan.entries_read,
        ← List.append_assoc] at hentry
      exact (List.mem_append.mp hentry).imp_right Option.mem_toList.mp
    rcases hcases with hold | hnew
    · exact hsound.covered entry (by simpa [scanned, hscan] using hold) entity vv htells
    · obtain ⟨file, hfile, rfl⟩ := Option.bind_eq_some_iff.mp hnew
      obtain ⟨change, hchange, rfl, rfl⟩ := htells
      rw [← FsTree.changeAt_of_snapshotFile scan.ts hfile] at hchange
      exact ⟨path, (hsound.named path change hchange).symm, _,
        congrArg (Option.map _) hchange, dominates_refl _⟩
  scan := by
    intro after hafter entry hentry entity vv htells
    obtain rfl := Option.some.inj hafter
    rw [scan.pending_read, scan.entries_read]
    rcases hsound.scan scan hscan entry hentry entity vv htells with
      ⟨other, hother, hcovers⟩ | hsuperseded
    · by_cases hpath : other = path
      · subst hpath
        obtain ⟨rfl, held, hheld, hdom⟩ := hcovers
        obtain ⟨change, hchange, rfl⟩ := Option.map_eq_some_iff.mp hheld
        obtain ⟨told, hfile, htold⟩ := FsTree.snapshotFile_of_changeAt scan.ts hchange
        exact Or.inr ⟨told, by simp [hfile], _,
          ⟨change, htold, hsound.named other change hchange, rfl⟩, hdom⟩
      · exact Or.inl ⟨other, by simpa [hpath] using hother, hcovers⟩
    · exact Or.inr (hsuperseded.mono (List.subset_append_left _ _))
  past := hsound.past

/-- A compaction is given up. -/
theorem unscanned : Sound { world with scan := none } where
  named := hsound.named
  leveled := hsound.leveled
  calls := hsound.calls
  covered := fun entry hentry =>
    hsound.covered entry (List.mem_append_left _ (by simpa [scanned] using hentry))
  scan := by
    intro scan hscan
    contradiction
  past := hsound.past

/-- A compaction replaces the journal by what it has read. -/
theorem replace {scan : SnapshotScan} (hscan : world.scan = some scan)
    (hdone : scan.pending = []) :
    Sound { world with
      log := ⟨world.log.epoch + 1, scan.entries⟩
      past := world.past ++ [world.log]
      scan := none } := by
  have htold : ∀ entry ∈ world.log.entries, ∀ vv entity, entry.Tells entity vv →
      Superseded scan.entries entity vv := by
    intro entry hentry vv entity htells
    rcases hsound.scan scan hscan entry hentry entity vv htells with ⟨path, hpath, _⟩ | hsup
    · rw [hdone] at hpath
      exact absurd hpath List.not_mem_nil
    · exact hsup
  exact {
    named := hsound.named
    leveled := hsound.leveled
    calls := hsound.calls
    covered := fun entry hentry => hsound.covered entry
      (List.mem_append_right _ (by simpa [scanned, hscan] using hentry))
    scan := by
      intro other hother
      contradiction
    past := by
      intro old hold
      rcases List.mem_append.mp hold with hpast | hlast
      · obtain ⟨hepoch, hentries⟩ := hsound.past old hpast
        refine ⟨Nat.lt_succ_of_lt hepoch, fun entry hentry entity vv htells => ?_⟩
        exact (hentries entry hentry entity vv htells).trans
          fun later hlater vector hvector => htold later hlater vector entity hvector
      · rw [List.mem_singleton.mp hlast]
        exact ⟨Nat.lt_succ_self _, fun entry hentry entity vv =>
          htold entry hentry vv entity⟩ }

theorem crash : Sound { world with calls := fun _ => none, scan := none } where
  named := hsound.named
  leveled := hsound.leveled
  calls := by
    intro entity call hcall
    contradiction
  covered := hsound.unscanned.covered
  scan := by
    intro scan hscan
    contradiction
  past := hsound.past

/-- What a reader has not read, the journal supersedes in what it reads next. -/
theorem superseded_of_unread {cursor : LogCursor} {entry : LogEntry}
    (hentry : entry ∈ world.unread cursor) {entity : Entity} {vv : VersionVector}
    (htells : entry.Tells entity vv) :
    Superseded (world.log.readFrom cursor) entity vv := by
  obtain ⟨log, hlog, hunread⟩ := List.mem_flatMap.mp hentry
  rw [GlobalLog.unread] at hunread
  split at hunread
  · exact absurd hunread List.not_mem_nil
  · next hepoch =>
      rcases List.mem_append.mp hlog with hpast | hlast
      · -- The cursor is of an earlier epoch, so all of the journal is read.
        obtain ⟨hlt, hentries⟩ := hsound.past log hpast
        have hother : world.log.epoch ≠ cursor.epoch := by omega
        have hmem : entry ∈ log.entries := by
          rw [GlobalLog.readFrom] at hunread
          split at hunread
          · exact hunread
          · exact List.mem_of_mem_drop hunread
        rw [GlobalLog.readFrom, if_pos hother]
        exact hentries entry hmem entity vv htells
      · rw [List.mem_singleton.mp hlast] at hunread
        exact .of_mem hunread htells

end Sound

section Run

variable {contentHash : List UInt8 → String}

/-- Every step keeps what the journal needs. -/
theorem Sound.step (hsound : world.Sound) {action : JournalStep} {next : JournalWorld}
    (hstep : world.step contentHash action = some next) : next.Sound := by
  cases action with
  | call write ts =>
      simp only [JournalWorld.step] at hstep
      split at hstep
      · next mutation hfree hwrite =>
          obtain rfl := Option.some.inj hstep
          exact hsound.call hwrite
      · obtain rfl := Option.some.inj hstep
        exact hsound
      · contradiction
  | write entity place =>
      simp only [JournalWorld.step] at hstep
      split at hstep
      · next write rest record hcall =>
          obtain rfl := Option.some.inj hstep
          exact hsound.write hcall
      · contradiction
  | appendLog entity now =>
      simp only [JournalWorld.step] at hstep
      split at hstep
      · next record hscan hcall =>
          obtain rfl := Option.some.inj hstep
          exact hsound.appendLog now hscan hcall
      · contradiction
  | abandon entity =>
      obtain rfl := Option.some.inj hstep
      exact hsound.abandon entity
  | writeOther write place =>
      simp only [JournalWorld.step] at hstep
      split at hstep
      · next hnone =>
          obtain rfl := Option.some.inj hstep
          exact hsound.writeOther hnone
      · contradiction
  | compact ts =>
      simp only [JournalWorld.step] at hstep
      split at hstep
      · obtain rfl := Option.some.inj hstep
        exact hsound.compact ts
      · contradiction
  | read path =>
      obtain ⟨scan, hscan, rfl⟩ := Option.map_eq_some_iff.mp hstep
      exact hsound.read hscan path
  | replace =>
      simp only [JournalWorld.step] at hstep
      split at hstep
      · next ts entries unreadable hscan =>
          split at hstep
          · obtain rfl := Option.some.inj hstep
            exact hsound.unscanned
          · obtain rfl := Option.some.inj hstep
            exact hsound.replace hscan rfl
      · contradiction
  | crash =>
      obtain rfl := Option.some.inj hstep
      exact hsound.crash

theorem sound_of_run {start final : JournalWorld} {actions : List JournalStep}
    (hfresh : start.Fresh)
    (hrun : runAll (step contentHash) start actions = some final) : final.Sound :=
  runAll_invariant (step contentHash) (fun _ _ _ hsound hstep => hsound.step hstep)
    hfresh.sound hrun

end Run

end JournalWorld

section Atomic

variable {contentHash : List UInt8 → String} {world : JournalWorld}

theorem runAll_read {scan : SnapshotScan} (hscan : world.scan = some scan)
    (paths : List SidecarPath) :
    runAll (JournalWorld.step contentHash) world (paths.map .read) =
      some { world with
        scan := some (paths.foldl (fun scan path => scan.read world.tree path) scan) } := by
  induction paths generalizing world scan with
  | nil =>
      rw [List.map_nil, runAll_nil, List.foldl_nil, ← hscan]
  | cons path rest ih =>
      have hstep : JournalWorld.step contentHash world (.read path) =
          some { world with scan := some (scan.read world.tree path) } := by
        simp only [JournalWorld.step, hscan, Option.map_some]
      rw [List.map_cons, runAll, hstep, Option.bind_some, ih rfl]
      rfl

/-- A compaction that nothing interrupts replaces the journal by the snapshot. -/
theorem runAll_compact (hscan : world.scan = none) (ts : DateTime) :
    ∃ past, runAll (JournalWorld.step contentHash) world
        (.compact ts :: world.tree.sidecarPaths.map .read ++ [.replace]) =
      some { world with
        log := world.tree.compactGlobalLogLocked ts world.log, past } := by
  have hstep : JournalWorld.step contentHash world (.compact ts) =
      some { world with scan := some ⟨ts, world.tree.sidecarPaths, [], 0⟩ } := by
    simp only [JournalWorld.step, hscan]
  rw [List.cons_append, runAll, hstep, Option.bind_some, runAll_append, runAll_read rfl,
    Option.bind_some]
  simp only [SnapshotScan.foldl_read_sidecarPaths, runAll, JournalWorld.step,
    FsTree.compactGlobalLogLocked, hscan]
  by_cases hunreadable : 0 < (world.tree.buildGlobalSnapshot ts).2
  · exact ⟨world.past, by rw [if_pos hunreadable, if_pos hunreadable, Option.bind_some]⟩
  · exact ⟨world.past ++ [world.log], by
      rw [if_neg hunreadable, if_neg hunreadable, Option.bind_some]⟩

end Atomic

/-- However mutators, compactions and crashes interleave, what a reader reads of
the journal next tells, for every entry it has not read, a version of the same
entity that counts all that entry's version counts. -/
theorem journalRun_supersedes_unread {contentHash : List UInt8 → String}
    {start final : JournalWorld} {actions : List JournalStep} (hfresh : start.Fresh)
    (hrun : runAll (JournalWorld.step contentHash) start actions = some final)
    (cursor : LogCursor) :
    ∀ entry ∈ final.unread cursor, ∀ change, logEntryToChange entry = some change →
      ∃ told ∈ final.log.readFrom cursor, ∃ later, logEntryToChange told = some later ∧
        later.entity = change.entity ∧
        dominates later.version.vv change.version.vv = true := by
  intro entry hentry change hchange
  have hsound := JournalWorld.sound_of_run hfresh hrun
  obtain ⟨told, htold, vv, ⟨later, hlater, hentity, rfl⟩, hdom⟩ :=
    hsound.superseded_of_unread hentry ⟨change, hchange, rfl, rfl⟩
  exact ⟨told, htold, later, hlater, hentity, hdom⟩

namespace JournalCompactionWitness

def start : JournalWorld where
  tree := ⟨"A", [], [], [], [], []⟩
  log := ⟨0, []⟩
  past := []
  calls := fun _ => none
  scan := none

theorem start_fresh : start.Fresh where
  named := by
    intro path change hchange
    cases path <;> contradiction
  single := by
    intro id noteId other hfile
    contradiction
  entries := rfl
  past := rfl
  calls := rfl
  scan := rfl

def notebook : Notebook := ⟨7, "", 1, 1, none, none, ∅, ""⟩

def place : Uuid → Nat := fun _ => 0

/-- A notebook is updated while a compaction reads it; the update is appended to
the new epoch. -/
def actions : List JournalStep :=
  [.call (.createNotebook notebook) 1, .write (.notebook 7) place,
    .appendLog (.notebook 7) 2, .call (.updateNotebook notebook) 3, .compact 4,
    .read (.notebook 7), .write (.notebook 7) place, .replace, .appendLog (.notebook 7) 5]

theorem journalRun_supersedes_unread_update :
    ∃ final, runAll (JournalWorld.step fun _ => "") start actions = some final ∧
      (final.unread .start).length = 3 ∧
      ∀ entry ∈ final.unread .start, ∀ change, logEntryToChange entry = some change →
        ∃ told ∈ final.log.readFrom .start, ∃ later, logEntryToChange told = some later ∧
          later.entity = change.entity ∧
          dominates later.version.vv change.version.vv = true := by
  have hrun : (runAll (JournalWorld.step fun _ => "") start actions).any (fun final =>
      (final.unread .start).length = 3) = true := by
    decide
  obtain ⟨final, hfinal, hlength⟩ := (Option.any_eq_true _ _).mp hrun
  exact ⟨final, hfinal, of_decide_eq_true hlength,
    journalRun_supersedes_unread start_fresh hfinal .start⟩

end JournalCompactionWitness

end Keeplin
