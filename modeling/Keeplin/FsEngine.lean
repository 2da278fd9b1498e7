/-
A sync cycle of the filesystem store.  What the peers changed is received with
the cursors already moved past it, and then applied one change at a time; the
first change that cannot be applied ends the cycle.
-/
import Keeplin.FsSync
import Keeplin.JournalTail

namespace Keeplin

open Lines

/-- The store with what it keeps for syncing: a cursor for each peer's journal,
and the file with the instant of the last cycle. -/
structure FsStore where
  tree : FsTree
  cursors : String → LogCursor
  syncState : Option (Sidecar DateTime)

/-- Where the application of a batch breaks off: at which change, and after how
many of its writes. -/
structure ApplyFault where
  position : Nat
  made : Nat
deriving DecidableEq, Repr

/-- What came of applying a batch: the tree, and the changes that were applied. -/
structure Applied where
  tree : FsTree
  applied : List Change
  result : Except StorageError Unit

/-- What came of a cycle: the store, the batch it received, the changes of it
that were applied, and what it returned. -/
structure SyncRun where
  store : FsStore
  received : List Change
  applied : List Change
  result : Except StorageError (List Change)

section Engine

variable (format : LineFormat) (contentHash : List UInt8 → String) (place : Uuid → Nat)
  (listing : LogListing)

def readOtherLogsSince (own : String) (since : DateTime) :
    LogListing → Except StorageError (List LogEntry)
  | [] => .ok []
  | (device, bytes) :: rest =>
      if device = own then readOtherLogsSince own since rest
      else
        match (lines newline bytes).mapM decode with
        | .error failure => .error failure
        | .ok texts =>
            let entries := texts.filterMap (lineEntry format)
            (readOtherLogsSince own since rest).map fun more =>
              (entries.filter fun entry => since < entry.timestamp) ++ more

namespace FsStore

variable (store : FsStore)

def getLastSyncTime : Except StorageError DateTime :=
  match store.syncState with
  | none => .ok epochStart
  | some .unreadable => .error .corruptedData
  | some (.readable lastSync) => .ok lastSync

def getChangesSince (since : DateTime) : Except StorageError (List Change) :=
  (readOtherLogsSince format store.tree.deviceId since listing).map
    (List.filterMap logEntryToChange)

/-- The new entries of the peers' journals, then the notes whose logs advanced. -/
def receiveChanges : FsStore × Except StorageError (List Change) :=
  let read := readNewEntries format store.tree.deviceId store.cursors listing
  match read.2 with
  | .error failure => ({ store with cursors := read.1 }, .error failure)
  | .ok entries =>
      let collected := store.tree.collectAdvancedNotes place
      ({ store with cursors := read.1, tree := collected.1 },
        collected.2.map fun notes =>
          (entries.filterMap fun entry => logEntryToChange entry.2) ++ notes)

end FsStore

/-- Apply a batch in order, up to a fault or the first change that fails. -/
def applyChanges : Option ApplyFault → FsTree → List Change → Applied
  | _, tree, [] => ⟨tree, [], .ok ()⟩
  | fault, tree, change :: rest =>
      let plan := tree.applyChange contentHash change
      match fault with
      | some ⟨0, made⟩ =>
          ⟨tree.performAll place (plan.writes.take made), [], .error .io⟩
      | _ =>
          let moved := tree.performAll place plan.writes
          match plan.result with
          | .error failure => ⟨moved, [], .error failure⟩
          | .ok () =>
              let fault := fault.map fun fault =>
                { fault with position := fault.position - 1 }
              let later := applyChanges fault moved rest
              { later with applied := change :: later.applied }

/-- One cycle.  Nothing is sent: the peers read this device's files. -/
def runSync (fault : Option ApplyFault) (now : DateTime) (store : FsStore) : SyncRun :=
  match store.getLastSyncTime with
  | .error failure => ⟨store, [], [], .error failure⟩
  | .ok lastSync =>
      match store.getChangesSince format listing lastSync with
      | .error failure => ⟨store, [], [], .error failure⟩
      | .ok _ =>
          let received := store.receiveChanges format place listing
          match received.2 with
          | .error failure => ⟨received.1, [], [], .error failure⟩
          | .ok changes =>
              let done := applyChanges contentHash place fault received.1.tree changes
              let store := { received.1 with tree := done.tree }
              match done.result with
              | .error failure => ⟨store, changes, done.applied, .error failure⟩
              | .ok () =>
                  ⟨{ store with syncState := some (.readable now) }, changes, done.applied,
                    .ok changes⟩

end Engine

section Journals

variable {format : LineFormat}

/-- A journal that was read is not read again. -/
theorem readTail_again {bytes : List UInt8} {cursor : LogCursor} {entries : List LogEntry}
    {saved : Option LogCursor} (hread : readTail format bytes cursor = .ok (entries, saved)) :
    readTail format bytes (saved.getD cursor) = .ok ([], none) := by
  simp only [readTail] at hread
  split at hread
  · contradiction
  · next writerEpoch headerLen hheader =>
      split at hread
      · contradiction
      · next texts hmap =>
          obtain ⟨-, rfl⟩ := Prod.mk.inj (Except.ok.inj hread)
          simp only [foldl_length_lines, List.length_drop]
          generalize hstart :
            (if writerEpoch ≠ cursor.epoch then headerLen else cursor.offset) = start
          split
          · have hend : bytes.drop (start + (bytes.length - start)) = [] :=
              List.drop_eq_nil_of_le (by omega)
            simp [readTail, hheader, hend]
            rfl
          · next hkept =>
              rw [not_or, not_not] at hkept
              rw [if_neg (by simp [hkept.1])] at hstart
              have hend : bytes.drop cursor.offset = [] :=
                List.drop_eq_nil_of_le (by omega)
              simp [readTail, hheader, hkept.1, hend]
              rfl

theorem readNewEntries_others {own : String} {listing : LogListing}
    {cursors : String → LogCursor} {device : String}
    (hmissing : device ∉ listing.map Prod.fst) :
    (readNewEntries format own cursors listing).1 device = cursors device := by
  induction listing generalizing cursors with
  | nil => rfl
  | cons file rest ih =>
      obtain ⟨name, bytes⟩ := file
      rw [List.map_cons, List.mem_cons, not_or] at hmissing
      simp only [readNewEntries]
      split
      · exact ih hmissing.2
      · split
        · rfl
        · rw [ih hmissing.2, Function.update_of_ne hmissing.1]

/-- Nor is any journal of a listing, from cursors left where a call put them. -/
theorem readNewEntries_again {own : String} {listing : LogListing}
    {cursors now : String → LogCursor} {entries : List (String × LogEntry)}
    (hnames : (listing.map Prod.fst).Nodup)
    (hread : (readNewEntries format own cursors listing).2 = .ok entries)
    (hnow : ∀ device ∈ listing.map Prod.fst,
      now device = (readNewEntries format own cursors listing).1 device) :
    readNewEntries format own now listing = (now, .ok []) := by
  induction listing generalizing cursors entries with
  | nil => rfl
  | cons file rest ih =>
      obtain ⟨name, bytes⟩ := file
      rw [List.map_cons, List.nodup_cons] at hnames
      by_cases hown : name = own
      · simp only [readNewEntries, hown, ↓reduceIte] at hread hnow ⊢
        exact ih hnames.2 hread fun device hdevice =>
          hnow device (List.mem_cons_of_mem own hdevice)
      · simp only [readNewEntries, hown, ↓reduceIte] at hread hnow ⊢
        split at hread
        · contradiction
        · next found saved htail =>
            simp only [htail] at hnow
            have hrest : ∃ more, (readNewEntries format own
                (Function.update cursors name (saved.getD (cursors name))) rest).2 =
                  .ok more := by
              cases hlater : (readNewEntries format own
                  (Function.update cursors name (saved.getD (cursors name))) rest).2 with
              | error failure =>
                  rw [hlater] at hread
                  contradiction
              | ok more => exact ⟨more, rfl⟩
            obtain ⟨more, hmore⟩ := hrest
            have hname : now name = saved.getD (cursors name) := by
              rw [hnow name List.mem_cons_self, readNewEntries_others hnames.1,
                Function.update_self]
            rw [hname, readTail_again htail]
            simp only [Option.getD_none, ← hname, Function.update_eq_self]
            rw [ih hnames.2 hmore fun device hdevice =>
              hnow device (List.mem_cons_of_mem name hdevice)]
            rfl

end Journals

end Keeplin
