/-
A device's own journal as the entries it holds.  A compaction starts a new
epoch; a reader's cursor counts the entries it has read of one epoch.  Epochs are
unbounded here: it is assumed that none reaches the largest of 64 bits, from where a
compaction would keep the old one.
-/
import Keeplin.JournalTail

namespace Keeplin

open Lines

structure GlobalLog where
  epoch : Nat
  entries : List LogEntry
deriving DecidableEq

namespace GlobalLog

/-- What a reader gets: the journal from its cursor on, or all of it when the
cursor is of another epoch. -/
def readFrom (log : GlobalLog) (cursor : LogCursor) : List LogEntry :=
  if log.epoch ≠ cursor.epoch then log.entries else log.entries.drop cursor.offset

/-- What a reader has not read of the journal while it was in this epoch.  A
cursor of a later epoch is past all of it. -/
def unread (log : GlobalLog) (cursor : LogCursor) : List LogEntry :=
  if log.epoch < cursor.epoch then [] else log.readFrom cursor

end GlobalLog

/-- A journal file: a header line or nothing, and the lines of the entries. -/
structure LogFile where
  header : List UInt8
  entryLines : List (List UInt8)

def LogFile.bytes (file : LogFile) : List UInt8 :=
  file.header ++ file.entryLines.flatten

/-- The offset of a reader that has read the first `count` entries. -/
def LogFile.offset (file : LogFile) (count : Nat) : Nat :=
  (file.header ++ (file.entryLines.take count).flatten).length

/-- The file holds the journal: its header is read as the epoch, and each of its
lines, which all have their terminator, as one entry. -/
structure LogFile.Holds (format : LineFormat) (file : LogFile) (log : GlobalLog) : Prop where
  header : readLogHeader format file.bytes = .ok (log.epoch, file.header.length)
  single : ∀ line ∈ file.entryLines, lines newline line = [line] ∧ Whole newline line
  readable : ∀ line ∈ file.entryLines, (decode line).isOk = true
  entries : file.entryLines.map (decodedEntry format) = log.entries.map some

section Read

variable {format : LineFormat} {file : LogFile} {log : GlobalLog}

theorem lines_flatten {pieces : List (List UInt8)}
    (hsingle : ∀ line ∈ pieces, lines newline line = [line] ∧ Whole newline line) :
    lines newline pieces.flatten = pieces := by
  induction pieces with
  | nil => rfl
  | cons piece rest ih =>
      have hpiece := hsingle piece List.mem_cons_self
      rw [List.flatten_cons, lines_append hpiece.2, hpiece.1, List.singleton_append,
        ih fun line hline => hsingle line (List.mem_cons_of_mem piece hline)]

/-- The lines from the entry number `count` on are read as the entries from
there on. -/
theorem LogFile.Holds.entries_drop (hholds : file.Holds format log) (count : Nat) :
    (file.entryLines.drop count).filterMap (decodedEntry format) =
      log.entries.drop count := by
  have hmap : (file.entryLines.drop count).map (decodedEntry format) =
      (log.entries.drop count).map some := by
    rw [List.map_drop, hholds.entries, ← List.map_drop]
  calc (file.entryLines.drop count).filterMap (decodedEntry format)
      = ((file.entryLines.drop count).map (decodedEntry format)).filterMap id := by
        rw [List.filterMap_map]
        rfl
    _ = ((log.entries.drop count).map some).filterMap id := by rw [hmap]
    _ = log.entries.drop count := by
        rw [List.filterMap_map]
        exact List.filterMap_some

theorem LogFile.drop_offset (file : LogFile) (count : Nat) :
    file.bytes.drop (file.offset count) = (file.entryLines.drop count).flatten := by
  have hsplit : file.bytes = (file.header ++ (file.entryLines.take count).flatten) ++
      (file.entryLines.drop count).flatten := by
    rw [LogFile.bytes, List.append_assoc, ← List.flatten_append, List.take_append_drop]
  rw [hsplit, LogFile.offset, List.drop_left]

/-- Reading the file from a cursor that counts bytes gives what reading the
journal from the cursor that counts entries does. -/
theorem readTail_of_holds (hholds : file.Holds format log) (epoch count : Nat) :
    ∃ saved, readTail format file.bytes ⟨epoch, file.offset count⟩ =
      .ok (log.readFrom ⟨epoch, count⟩, saved) := by
  have hread : ∀ start from_, file.bytes.drop start = (file.entryLines.drop from_).flatten →
      (if log.epoch ≠ epoch then file.header.length else file.offset count) = start →
      ∃ saved, readTail format file.bytes ⟨epoch, file.offset count⟩ =
        .ok (log.entries.drop from_, saved) := by
    intro start from_ hdrop hstart
    have hlines : lines newline (file.bytes.drop start) = file.entryLines.drop from_ := by
      rw [hdrop]
      exact lines_flatten fun line hline => hholds.single line (List.mem_of_mem_drop hline)
    have hreadable : Readable (file.bytes.drop start) := by
      intro line hline
      rw [hlines] at hline
      exact hholds.readable line (List.mem_of_mem_drop hline)
    have htail := readTail_of_start ⟨epoch, file.offset count⟩ hholds.header start
      hstart.symm hreadable
    rw [hlines, hholds.entries_drop] at htail
    exact ⟨_, htail⟩
  rw [GlobalLog.readFrom]
  by_cases hepoch : log.epoch = epoch
  · rw [if_neg (by simp [hepoch])]
    exact hread (file.offset count) count (file.drop_offset count) (if_neg (by simp [hepoch]))
  · rw [if_pos hepoch]
    have hall := file.drop_offset 0
    have hzero : file.offset 0 = file.header.length := by simp [LogFile.offset]
    rw [hzero] at hall
    exact hread file.header.length 0 hall (if_pos hepoch)

end Read

end Keeplin
