/-
The folder of one note on one device: a log file per device that has written
the note, in the order the folder lists them.
-/
import Keeplin.NoteLog
import Keeplin.Directory

namespace Keeplin

open VersionVector

abbrev NoteDir := Directory String NoteLog

/-- A device's own log is compacted when an append takes it past this. -/
def NOTE_LOG_COMPACT_THRESHOLD : Nat := 256

def readNoteLogs (dir : NoteDir) : List NoteLog :=
  dir.map Prod.snd

/-- The log a device appends to; a missing file is an empty log. -/
def ownNoteLog (dir : NoteDir) (device : String) : NoteLog :=
  (dir.file? device).getD []

def writeNoteLog (dir : NoteDir) (device : String) (log : NoteLog) : NoteDir :=
  dir.put dir.length device log

/-- Append one operation to the own log: its vector joins every log of the
folder and counts one more operation of this device. -/
def appendNoteOp (device : String) (timestamp : DateTime) (op : NoteOp)
    (dir : NoteDir) : Option (NoteLogEntry × NoteDir) :=
  (merge (readNoteLogs dir)).map fun merged =>
    let entry : NoteLogEntry := ⟨merged.vv.increment device, timestamp, device, op⟩
    let log := ownNoteLog dir device ++ [entry]
    let log := if NOTE_LOG_COMPACT_THRESHOLD < log.length then compactOwnLog log else log
    (entry, writeNoteLog dir device log)

theorem mem_readNoteLogs {dir : NoteDir} {file : String × NoteLog} (hfile : file ∈ dir) :
    file.2 ∈ readNoteLogs dir :=
  List.mem_map_of_mem hfile

theorem ownNoteLog_mem {dir : NoteDir} {device : String}
    (hexists : ∃ log, (device, log) ∈ dir) :
    (device, ownNoteLog dir device) ∈ dir := by
  cases hentry : dir.file? device with
  | none =>
      obtain ⟨log, hlog⟩ := hexists
      exact absurd hlog (Directory.file?_eq_none_iff.mp hentry log)
  | some log =>
      rw [ownNoteLog, hentry]
      exact Directory.file?_mem hentry

/-- An entry of the own log is in a log of the folder. -/
theorem mem_ownNoteLog {dir : NoteDir} {device : String} {entry : NoteLogEntry}
    (hentry : entry ∈ ownNoteLog dir device) : ∃ log ∈ readNoteLogs dir, entry ∈ log := by
  cases hlookup : dir.file? device with
  | none =>
      rw [ownNoteLog, hlookup] at hentry
      exact absurd hentry List.not_mem_nil
  | some log =>
      rw [ownNoteLog, hlookup] at hentry
      exact ⟨log, mem_readNoteLogs (Directory.file?_mem hlookup), hentry⟩

theorem ownNoteLog_of_missing {dir : NoteDir} {device : String}
    (hmissing : ∀ log, (device, log) ∉ dir) : ownNoteLog dir device = [] := by
  rw [ownNoteLog, Directory.file?_eq_none_iff.mpr hmissing]
  rfl

@[simp] theorem ownNoteLog_writeNoteLog (dir : NoteDir) (device : String)
    (log : NoteLog) : ownNoteLog (writeNoteLog dir device log) device = log := by
  simp [ownNoteLog, writeNoteLog]

end Keeplin
