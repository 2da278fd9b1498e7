/-
Appends to a device's own journal file, some of which stop part of the way.  A
line goes behind whatever the file ends with, and a reader skips what it cannot
parse, so the next entry may be read as the end of a torn line.
-/
import Keeplin.JournalCompaction

namespace Keeplin

open Lines VersionVector

/-- How epoch headers and entries are written, without the end of the line. -/
structure LineWriter where
  epochHeader : Nat → List UInt8
  logEntry : LogEntry → List UInt8

namespace LineWriter

variable (writer : LineWriter)

def headerLine (epoch : Nat) : List UInt8 :=
  writer.epochHeader epoch ++ [newline]

def entryLine (entry : LogEntry) : List UInt8 :=
  writer.logEntry entry ++ [newline]

/-- The file a compaction writes. -/
def snapshot (epoch : Nat) (entries : List LogEntry) : List UInt8 :=
  writer.headerLine epoch ++ (entries.map writer.entryLine).flatten

/-- The entry is written to one line, which is read as the entry. -/
def Rereads (format : LineFormat) (entry : LogEntry) : Prop :=
  newline ∉ writer.logEntry entry ∧ decodedEntry format (writer.entryLine entry) = some entry

/-- The entry is read from a text that ends with a part of what is written for it
only if that is all of it, with nothing but blanks before it. -/
structure Delimits (format : LineFormat) (entry : LogEntry) : Prop where
  rereads : writer.Rereads format entry
  cut : ∀ front part : Text, part ≠ [] → utf8 part <+: writer.logEntry entry →
    (utf8 part = writer.logEntry entry → ∃ c ∈ front, isWhiteSpace c = false) →
    lineEntry format (front ++ part) = none

/-- The header is written to one line, which is a text. -/
def HeaderReads (epoch : Nat) : Prop :=
  newline ∉ writer.epochHeader epoch ∧ (decode (writer.headerLine epoch)).isOk = true

end LineWriter

/-- A device and the bytes of its journal. -/
structure JournalFile where
  world : JournalWorld
  bytes : List UInt8

inductive AppendStep where
  | journal (action : JournalStep)
  /-- An append that fails, or a process that stops, with this many bytes of the
  line written. -/
  | torn (entity : Entity) (now : DateTime) (written : Nat)

/-- Every entry the journal has held, in any of its epochs. -/
def JournalWorld.told (world : JournalWorld) : List LogEntry :=
  (world.past ++ [world.log]).flatMap GlobalLog.entries

namespace JournalFile

variable (format : LineFormat) (writer : LineWriter) (contentHash : List UInt8 → String)

def bytesAfter (file : JournalFile) : JournalStep → List UInt8
  | .appendLog entity now =>
      match file.world.calls entity with
      | some call => file.bytes ++ writer.entryLine (call.record.at now)
      | none => file.bytes
  | .replace =>
      match file.world.scan with
      | some ⟨_, [], entries, 0⟩ => writer.snapshot (file.world.log.epoch + 1) entries
      | _ => file.bytes
  | _ => file.bytes

/-- A compaction first reads the epoch of the file. -/
def allows (file : JournalFile) : JournalStep → Bool
  | .compact _ => (readLogHeader format file.bytes).isOk
  | _ => true

def step (file : JournalFile) : AppendStep → Option JournalFile
  | .journal action =>
      if file.allows format action then
        (file.world.step contentHash action).map fun world =>
          ⟨world, file.bytesAfter writer action⟩
      else none
  | .torn entity now written =>
      match file.world.scan, file.world.calls entity with
      | none, some ⟨[], record⟩ =>
          some ⟨{ file.world with calls := Function.update file.world.calls entity none },
            file.bytes ++ (writer.entryLine (record.at now)).take written⟩
      | _, _ => none

/-- The steps that cost no entry: an append that succeeds is to a file that ends
with a whole line, and one that fails leaves texts. -/
def Spared (file : JournalFile) : AppendStep → Prop
  | .journal (.appendLog _ _) => Whole newline file.bytes
  | .torn entity now written =>
      match file.world.calls entity with
      | some call =>
          Readable (file.bytes ++ (writer.entryLine (call.record.at now)).take written)
      | none => True
  | _ => True

instance (file : JournalFile) (action : AppendStep) : Decidable (file.Spared writer action) :=
  match action with
  | .journal (.appendLog _ _) => inferInstanceAs (Decidable (Whole newline file.bytes))
  | .torn entity now written =>
      match hcall : file.world.calls entity with
      | some call => decidable_of_iff
          (Readable (file.bytes ++ (writer.entryLine (call.record.at now)).take written))
          (by simp only [Spared, hcall])
      | none => isTrue (by simp only [Spared, hcall])
  | .journal (.call _ _) | .journal (.write _ _) | .journal (.abandon _)
  | .journal (.writeOther _ _) | .journal (.compact _) | .journal (.read _)
  | .journal .replace | .journal .crash => isTrue trivial

/-- What the parsers and printers of the lines do with what the journal has
held. -/
def Serialized (world : JournalWorld) : Prop :=
  (∀ entry ∈ world.told, writer.Rereads format entry) ∧
    ∀ epoch, 0 < epoch → epoch ≤ world.log.epoch → writer.HeaderReads epoch

/-- The file can be read, and every entry of the journal is one of its complete
lines. -/
structure Keeps (file : JournalFile) : Prop where
  sound : file.world.Sound
  readable : Readable file.bytes
  held : ∀ entry ∈ file.world.log.entries, entry ∈ completeEntries format file.bytes

variable {format writer contentHash}

theorem mem_told {world : JournalWorld} {entry : LogEntry} :
    entry ∈ world.told ↔
      (∃ old ∈ world.past, entry ∈ old.entries) ∨ entry ∈ world.log.entries := by
  simp [JournalWorld.told, or_comm]

/-- What a step does to the journal and to its file. -/
inductive Effect (writer : LineWriter) (file next : JournalFile) : AppendStep → Prop
  | appended (entity : Entity) (now : DateTime) (entry : LogEntry)
      (hlog : next.world.log = ⟨file.world.log.epoch, file.world.log.entries ++ [entry]⟩)
      (hpast : next.world.past = file.world.past)
      (hbytes : next.bytes = file.bytes ++ writer.entryLine entry) :
      Effect writer file next (.journal (.appendLog entity now))
  | replaced (action : AppendStep) (entries : List LogEntry)
      (hlog : next.world.log = ⟨file.world.log.epoch + 1, entries⟩)
      (hpast : next.world.past = file.world.past ++ [file.world.log])
      (hbytes : next.bytes = writer.snapshot (file.world.log.epoch + 1) entries) :
      Effect writer file next action
  | torn (entity : Entity) (now : DateTime) (written : Nat) (call : Mutation)
      (hcall : file.world.calls entity = some call) (hlog : next.world.log = file.world.log)
      (hpast : next.world.past = file.world.past)
      (hbytes : next.bytes =
        file.bytes ++ (writer.entryLine (call.record.at now)).take written) :
      Effect writer file next (.torn entity now written)
  | other (action : AppendStep) (hlog : next.world.log = file.world.log)
      (hpast : next.world.past = file.world.past) (hbytes : next.bytes = file.bytes) :
      Effect writer file next action

theorem effect_of_journal {file : JournalFile} {action : JournalStep} {world : JournalWorld}
    (hstep : file.world.step contentHash action = some world) :
    Effect writer file ⟨world, file.bytesAfter writer action⟩ (.journal action) := by
  cases action with
  | call write ts =>
      simp only [JournalWorld.step] at hstep
      split at hstep
      · obtain rfl := Option.some.inj hstep
        exact .other _ rfl rfl rfl
      · obtain rfl := Option.some.inj hstep
        exact .other _ rfl rfl rfl
      · contradiction
  | write entity place =>
      simp only [JournalWorld.step] at hstep
      split at hstep
      · obtain rfl := Option.some.inj hstep
        exact .other _ rfl rfl rfl
      · contradiction
  | appendLog entity now =>
      simp only [JournalWorld.step] at hstep
      split at hstep
      · next record hscan hcall =>
          obtain rfl := Option.some.inj hstep
          refine .appended entity now (record.at now) rfl rfl ?_
          simp only [bytesAfter, hcall]
      · contradiction
  | abandon entity =>
      obtain rfl := Option.some.inj hstep
      exact .other _ rfl rfl rfl
  | writeOther write place =>
      simp only [JournalWorld.step] at hstep
      split at hstep
      · obtain rfl := Option.some.inj hstep
        exact .other _ rfl rfl rfl
      · contradiction
  | compact ts =>
      simp only [JournalWorld.step] at hstep
      split at hstep
      · obtain rfl := Option.some.inj hstep
        exact .other _ rfl rfl rfl
      · contradiction
  | read path =>
      obtain ⟨scan, hscan, rfl⟩ := Option.map_eq_some_iff.mp hstep
      exact .other _ rfl rfl rfl
  | replace =>
      simp only [JournalWorld.step] at hstep
      split at hstep
      · next ts entries unreadable hscan =>
          split at hstep
          · next hunreadable =>
              obtain rfl := Option.some.inj hstep
              obtain ⟨count, rfl⟩ := Nat.exists_eq_add_of_lt hunreadable
              refine .other _ rfl rfl ?_
              simp only [bytesAfter, hscan]
          · next hreadable =>
              obtain rfl := Option.some.inj hstep
              obtain rfl := Nat.eq_zero_of_not_pos hreadable
              refine .replaced _ entries rfl rfl ?_
              simp only [bytesAfter, hscan]
      · contradiction
  | crash =>
      obtain rfl := Option.some.inj hstep
      exact .other _ rfl rfl rfl

theorem effect_of_step {file next : JournalFile} {action : AppendStep}
    (hstep : file.step format writer contentHash action = some next) :
    Effect writer file next action := by
  cases action with
  | journal action =>
      simp only [step] at hstep
      split at hstep
      · obtain ⟨world, hworld, rfl⟩ := Option.map_eq_some_iff.mp hstep
        exact effect_of_journal hworld
      · contradiction
  | torn entity now written =>
      simp only [step] at hstep
      split at hstep
      · next record hscan hcall =>
          obtain rfl := Option.some.inj hstep
          exact .torn entity now written _ hcall rfl rfl rfl
      · contradiction

theorem sound_of_step {file next : JournalFile} {action : AppendStep}
    (hsound : file.world.Sound)
    (hstep : file.step format writer contentHash action = some next) : next.world.Sound := by
  cases action with
  | journal action =>
      simp only [step] at hstep
      split at hstep
      · obtain ⟨world, hworld, rfl⟩ := Option.map_eq_some_iff.mp hstep
        exact hsound.step hworld
      · contradiction
  | torn entity now written =>
      simp only [step] at hstep
      split at hstep
      · obtain rfl := Option.some.inj hstep
        exact hsound.abandon entity
      · contradiction

/-- What the journal has held it has held for good. -/
theorem Serialized.before {file next : JournalFile} {action : AppendStep}
    (heffect : Effect writer file next action) (hafter : Serialized format writer next.world) :
    Serialized format writer file.world := by
  have hmono : file.world.told ⊆ next.world.told ∧
      file.world.log.epoch ≤ next.world.log.epoch := by
    cases heffect with
    | appended entity now entry hlog hpast hbytes =>
        refine ⟨fun held hheld => ?_, by rw [hlog]⟩
        rw [mem_told, hpast, hlog]
        rcases mem_told.mp hheld with hold | hnow
        · exact .inl hold
        · exact .inr (List.mem_append_left _ hnow)
    | replaced _ entries hlog hpast hbytes =>
        refine ⟨fun held hheld => ?_, by rw [hlog]; exact Nat.le_succ _⟩
        rw [mem_told, hpast]
        left
        rcases mem_told.mp hheld with ⟨old, hold, hentry⟩ | hnow
        · exact ⟨old, List.mem_append_left _ hold, hentry⟩
        · exact ⟨file.world.log, by simp, hnow⟩
    | torn entity now written call hcall hlog hpast hbytes =>
        exact ⟨fun held hheld => by rwa [mem_told, hpast, hlog, ← mem_told], by rw [hlog]⟩
    | other _ hlog hpast hbytes =>
        exact ⟨fun held hheld => by rwa [mem_told, hpast, hlog, ← mem_told], by rw [hlog]⟩
  exact ⟨fun entry hentry => hafter.1 entry (hmono.1 hentry),
    fun epoch hpos hle => hafter.2 epoch hpos (Nat.le_trans hle hmono.2)⟩

end JournalFile

section Bytes

variable {format : LineFormat} {writer : LineWriter} {bytes : List UInt8} {entry : LogEntry}

theorem completeEntries_append_subset (more : List UInt8) :
    completeEntries format bytes ⊆ completeEntries format (bytes ++ more) := by
  intro found hfound
  obtain ⟨line, hline, hentry⟩ := List.mem_filterMap.mp hfound
  exact List.mem_filterMap.mpr ⟨line, completeLines_append_subset bytes more hline, hentry⟩

theorem utf8_line (text : Text) : utf8 text ++ [newline] = utf8 (text ++ ['\n']) := by
  rw [utf8_append]
  rfl

theorem decode_ok_of_entry {line : List UInt8} (hentry : decodedEntry format line = some entry) :
    (decode line).isOk = true := by
  simp only [decodedEntry] at hentry
  split at hentry
  · next text hdecode => rw [hdecode]; rfl
  · contradiction

theorem LineWriter.whole_entryLine (writer : LineWriter) (entry : LogEntry) :
    Whole newline (writer.entryLine entry) :=
  whole_terminated _

theorem LineWriter.Rereads.lines (hrereads : writer.Rereads format entry) :
    Lines.lines newline (writer.entryLine entry) = [writer.entryLine entry] :=
  lines_terminated hrereads.1

theorem LineWriter.Rereads.readable (hrereads : writer.Rereads format entry)
    (hwhole : Whole newline bytes) (hreadable : Readable bytes) :
    Readable (bytes ++ writer.entryLine entry) := by
  intro line hline
  rw [lines_append hwhole, hrereads.lines] at hline
  rcases List.mem_append.mp hline with hold | hnew
  · exact hreadable line hold
  · rw [List.mem_singleton.mp hnew]
    exact decode_ok_of_entry hrereads.2

theorem LineWriter.Rereads.mem_completeEntries (hrereads : writer.Rereads format entry)
    (hwhole : Whole newline bytes) :
    entry ∈ completeEntries format (bytes ++ writer.entryLine entry) := by
  refine List.mem_filterMap.mpr ⟨writer.entryLine entry, ?_, hrereads.2⟩
  rw [completeLines, lines_append hwhole, hrereads.lines]
  simp [LineWriter.entryLine]

/-- The lines of a file that a compaction has written. -/
theorem lines_snapshot {epoch : Nat} {entries : List LogEntry}
    (hheader : writer.HeaderReads epoch)
    (hentries : ∀ entry ∈ entries, writer.Rereads format entry) :
    lines newline (writer.snapshot epoch entries) =
      writer.headerLine epoch :: entries.map writer.entryLine := by
  have hwhole : Whole newline (writer.headerLine epoch) := whole_terminated _
  have hsingle : lines newline (writer.headerLine epoch) = [writer.headerLine epoch] :=
    lines_terminated hheader.1
  rw [LineWriter.snapshot, lines_append hwhole, hsingle, lines_flatten, List.singleton_append]
  intro line hline
  obtain ⟨entry, hentry, rfl⟩ := List.mem_map.mp hline
  exact ⟨(hentries entry hentry).lines, writer.whole_entryLine entry⟩

theorem readable_snapshot {epoch : Nat} {entries : List LogEntry}
    (hheader : writer.HeaderReads epoch)
    (hentries : ∀ entry ∈ entries, writer.Rereads format entry) :
    Readable (writer.snapshot epoch entries) := by
  intro line hline
  rw [lines_snapshot hheader hentries] at hline
  rcases List.mem_cons.mp hline with rfl | hmem
  · exact hheader.2
  · obtain ⟨entry, hentry, rfl⟩ := List.mem_map.mp hmem
    exact decode_ok_of_entry (hentries entry hentry).2

theorem mem_completeEntries_snapshot {epoch : Nat} {entries : List LogEntry}
    (hheader : writer.HeaderReads epoch)
    (hentries : ∀ entry ∈ entries, writer.Rereads format entry) (hmem : entry ∈ entries) :
    entry ∈ completeEntries format (writer.snapshot epoch entries) := by
  refine List.mem_filterMap.mpr ⟨writer.entryLine entry, ?_, (hentries entry hmem).2⟩
  rw [completeLines, lines_snapshot hheader hentries]
  simp only [List.mem_filter, List.mem_cons, decide_eq_true_eq]
  exact ⟨.inr (List.mem_map_of_mem hmem), by simp [LineWriter.entryLine]⟩

/-- A reader that starts at the beginning of a file of texts gets the entries of
all its lines. -/
theorem readTail_start (format : LineFormat) (hreadable : Readable bytes) :
    ∃ saved, readTail format bytes .start =
      .ok ((lines newline bytes).filterMap (decodedEntry format), saved) := by
  by_cases hne : bytes = []
  · obtain ⟨epoch, hheader⟩ := exists_header_nil format
    have hread := readTail_of_start .start hheader _ rfl (by simp [Readable])
    subst hne
    exact ⟨_, by simpa using hread⟩
  · obtain ⟨header, hheader⟩ := exists_header format hne hreadable
    obtain ⟨-, hdrop, hentries⟩ := drop_header hne hheader
    by_cases hepoch : header.1 = 0
    · have hread := readTail_of_start .start hheader 0 (by simp [LogCursor.start, hepoch])
        (by simpa using hreadable)
      exact ⟨_, by simpa using hread⟩
    · have hread := readTail_of_start .start hheader header.2
        (by simp [LogCursor.start, hepoch]) (hdrop.mpr hreadable)
      rw [hentries] at hread
      exact ⟨_, hread⟩

/-- A reader that starts at the beginning fails at a line that is no text. -/
theorem readable_of_readTail_start {read : List LogEntry × Option LogCursor}
    (hread : readTail format bytes .start = .ok read) : Readable bytes := by
  by_cases hne : bytes = []
  · rw [hne]
    exact List.forall_mem_nil _
  · simp only [readTail] at hread
    split at hread
    · contradiction
    · next epoch headerLen hheader =>
        split at hread
        · contradiction
        · next texts htexts =>
            obtain ⟨-, hdrop, -⟩ := drop_header hne hheader
            have hread := isOk_of_mapM_decode htexts
            split at hread
            · exact hdrop.mp hread
            · exact hread

theorem completeEntries_subset_lines :
    completeEntries format bytes ⊆ (lines newline bytes).filterMap (decodedEntry format) := by
  intro found hfound
  obtain ⟨line, hline, hentry⟩ := List.mem_filterMap.mp hfound
  exact List.mem_filterMap.mpr ⟨line, (List.mem_filter.mp hline).1, hentry⟩

end Bytes

namespace JournalFile

variable {format : LineFormat} {writer : LineWriter} {contentHash : List UInt8 → String}

/-- A spared step keeps every entry of the journal in its file. -/
theorem Keeps.step {file next : JournalFile} {action : AppendStep} (hkeeps : file.Keeps format)
    (hspared : file.Spared writer action)
    (hstep : file.step format writer contentHash action = some next)
    (hserialized : Serialized format writer next.world) : next.Keeps format := by
  have hsound := sound_of_step hkeeps.sound hstep
  cases effect_of_step hstep with
  | appended entity now entry hlog hpast hbytes =>
      have hrereads : writer.Rereads format entry := by
        apply hserialized.1
        rw [mem_told, hlog]
        exact .inr (by simp)
      refine ⟨hsound, ?_, ?_⟩
      · rw [hbytes]
        exact hrereads.readable hspared hkeeps.readable
      · intro held hheld
        rw [hlog] at hheld
        rw [hbytes]
        rcases List.mem_append.mp hheld with hold | hnew
        · exact completeEntries_append_subset _ (hkeeps.held held hold)
        · rw [List.mem_singleton.mp hnew]
          exact hrereads.mem_completeEntries hspared
  | replaced action entries hlog hpast hbytes =>
      have hheader : writer.HeaderReads (file.world.log.epoch + 1) :=
        hserialized.2 _ (Nat.succ_pos _) (by rw [hlog])
      have hentries : ∀ entry ∈ entries, writer.Rereads format entry := by
        intro entry hentry
        apply hserialized.1
        rw [mem_told, hlog]
        exact .inr hentry
      refine ⟨hsound, ?_, ?_⟩
      · rw [hbytes]
        exact readable_snapshot hheader hentries
      · intro held hheld
        rw [hlog] at hheld
        rw [hbytes]
        exact mem_completeEntries_snapshot hheader hentries hheld
  | torn entity now written call hcall hlog hpast hbytes =>
      refine ⟨hsound, ?_, ?_⟩
      · simp only [Spared, hcall] at hspared
        rw [hbytes]
        exact hspared
      · intro held hheld
        rw [hlog] at hheld
        rw [hbytes]
        exact completeEntries_append_subset _ (hkeeps.held held hheld)
  | other action hlog hpast hbytes =>
      refine ⟨hsound, ?_, ?_⟩
      · rw [hbytes]
        exact hkeeps.readable
      · rw [hlog, hbytes]
        exact hkeeps.held

theorem keeps_of_run {start final : JournalFile} {actions : List AppendStep}
    (hfresh : start.world.Fresh) (hempty : start.bytes = [])
    (hspared : MeetsAll (fun file => file.step format writer contentHash)
      (fun file => file.Spared writer) start actions)
    (hrun : runAll (fun file => file.step format writer contentHash) start actions = some final)
    (hserialized : Serialized format writer final.world) : final.Keeps format := by
  have hstart : Serialized format writer start.world → start.Keeps format := fun _ =>
    { sound := hfresh.sound
      readable := by simp [hempty, Readable]
      held := by simp [hfresh.entries] }
  have hnext : ∀ (file : JournalFile) action next,
      (Serialized format writer file.world → file.Keeps format) → file.Spared writer action →
      file.step format writer contentHash action = some next →
      Serialized format writer next.world → next.Keeps format :=
    fun _ _ _ hkeeps hcondition hstep hafter =>
      (hkeeps (hafter.before (effect_of_step hstep))).step hcondition hstep hafter
  exact runAll_invariant_of_meetsAll _ hnext hstart hspared hrun hserialized

end JournalFile

/-- When every append that succeeds finds a journal that ends with a whole line
and every one that fails leaves a text, a reader that starts at the beginning
gets each entry the journal holds, and for each that a compaction has replaced
a change of the same entity that counts all that entry's counts. -/
theorem appendRun_delivers {format : LineFormat} {writer : LineWriter}
    {contentHash : List UInt8 → String} {start final : JournalFile} {actions : List AppendStep}
    (hfresh : start.world.Fresh) (hempty : start.bytes = [])
    (hspared : MeetsAll (fun file => file.step format writer contentHash)
      (fun file => file.Spared writer) start actions)
    (hrun : runAll (fun file => file.step format writer contentHash) start actions = some final)
    (hserialized : JournalFile.Serialized format writer final.world) :
    ∃ entries saved, readTail format final.bytes .start = .ok (entries, saved) ∧
      (∀ entry ∈ final.world.log.entries, entry ∈ entries) ∧
      ∀ old ∈ final.world.past, ∀ entry ∈ old.entries, ∀ change,
        logEntryToChange entry = some change →
        ∃ told ∈ entries, ∃ later, logEntryToChange told = some later ∧
          later.entity = change.entity ∧
          dominates later.version.vv change.version.vv = true := by
  have hkeeps := JournalFile.keeps_of_run hfresh hempty hspared hrun hserialized
  obtain ⟨saved, hread⟩ := readTail_start format hkeeps.readable
  have hheld : ∀ entry ∈ final.world.log.entries,
      entry ∈ (lines newline final.bytes).filterMap (decodedEntry format) :=
    fun entry hentry => completeEntries_subset_lines (hkeeps.held entry hentry)
  refine ⟨_, saved, hread, hheld, ?_⟩
  intro old hold entry hentry change hchange
  obtain ⟨told, htold, vv, ⟨later, hlater, hentity, rfl⟩, hdom⟩ :=
    (hkeeps.sound.past old hold).2 entry hentry change.entity change.version.vv
      ⟨change, hchange, rfl, rfl⟩
  exact ⟨told, hheld told htold, later, hlater, hentity, hdom⟩

namespace JournalAppendWitness

/-- Detaching a tag from the note 5, as an entry of the device A. -/
def entry (tagId : Uuid) (now : DateTime) : LogEntry :=
  ⟨now, .noteTag, 5, .remove, .assoc tagId 1 ((∅ : VersionVector).increment "A") "A"⟩

def pieces (strings : List String) : Text :=
  strings.flatMap String.toList

def zeros (count : Nat) : Text :=
  List.replicate count '0'

def uuidText (digit : Char) : Text :=
  zeros 8 ++ '-' :: zeros 4 ++ '-' :: zeros 4 ++ '-' :: zeros 4 ++ '-' :: zeros 11 ++ [digit]

def instantText (digit : Char) : Text :=
  pieces ["1970-01-01T", "00:00:00."] ++ zeros 8 ++ [digit, 'Z']

def entryText (tagId now : Char) : Text :=
  pieces ["\x7b\"timestamp", "\":\""] ++ instantText now ++
    pieces ["\",\"entity_", "type\":\"note_", "tag\",\"entity", "_id\":\""] ++ uuidText '5' ++
    pieces ["\",\"operation", "\":\"remove\",", "\"data\":\x7b\"last", "_writer\":\"A\"",
      ",\"tag_id\":\""] ++
    uuidText tagId ++ pieces ["\",\"updated", "_at\":\""] ++ instantText '1' ++
    pieces ["\",\"vv\":\x7b\"A\"", ":1\x7d\x7d\x7d"]

def texts : List (LogEntry × Text) :=
  [(entry 7 2, entryText '7' '2'), (entry 8 4, entryText '8' '4'),
    (entry 9 6, entryText '9' '6')]

/-- The parsers on the lines of the journals below. -/
def format : LineFormat where
  epochHeader := fun _ => none
  logEntry := fun text => (texts.find? fun pair => pair.2 = text).map Prod.fst

def writer : LineWriter where
  epochHeader := fun epoch =>
    utf8 ("\x7b\"__keeplin_epoch__\":" ++ toString epoch ++ "\x7d").toList
  logEntry := fun found => utf8 (((texts.find? fun pair => pair.1 = found).map Prod.snd).getD [])

def start : JournalFile :=
  ⟨⟨⟨"A", [], [], [], [], []⟩, ⟨0, []⟩, [], fun _ => none, none⟩, []⟩

theorem start_fresh : start.world.Fresh where
  named := by
    intro path change hchange
    cases path <;> contradiction
  single := by
    intro id noteId other hfile
    contradiction
  entries := rfl
  past := rfl
  calls := rfl
  scan := rfl

def detach (tagId : Uuid) : List AppendStep :=
  [.journal (.call (.removeNoteTag 5 tagId) 1),
    .journal (.write (.noteTag 5 tagId) fun _ => 0)]

def append (tagId : Uuid) (now : DateTime) : AppendStep :=
  .journal (.appendLog (.noteTag 5 tagId) now)

theorem rereads {found : LogEntry} {text : Text} (hwritten : writer.logEntry found = utf8 text)
    (honeLine : newline ∉ utf8 text) (hread : lineEntry format (text ++ ['\n']) = some found) :
    writer.Rereads format found := by
  refine ⟨hwritten ▸ honeLine, ?_⟩
  rw [LineWriter.entryLine, hwritten, utf8_line, decodedEntry_utf8, hread]

theorem rereads_7 : writer.Rereads format (entry 7 2) :=
  @rereads _ (entryText '7' '2') rfl (by decide +kernel) (by decide +kernel)

theorem rereads_9 : writer.Rereads format (entry 9 6) :=
  @rereads _ (entryText '9' '6') rfl (by decide +kernel) (by decide +kernel)

theorem serialized {world : JournalWorld} (htold : world.told = [entry 7 2, entry 9 6])
    (hepoch : world.log.epoch = 0) : JournalFile.Serialized format writer world := by
  refine ⟨fun found hfound => ?_, fun epoch hpos hle => by omega⟩
  rw [htold] at hfound
  simp only [List.mem_cons, List.not_mem_nil, or_false] at hfound
  rcases hfound with rfl | rfl
  · exact rereads_7
  · exact rereads_9

/-- An append that fails before its first byte. -/
def spared : List AppendStep :=
  detach 8 ++ [.torn (.noteTag 5 8) 4 0] ++ detach 7 ++ [append 7 2] ++ detach 9 ++ [append 9 6]

theorem appendRun_delivers_spared :
    ∃ final, runAll (fun file => file.step format writer fun _ => "") start spared = some final ∧
      final.world.told = [entry 7 2, entry 9 6] ∧
      ∃ entries saved, readTail format final.bytes .start = .ok (entries, saved) ∧
        (∀ entry ∈ final.world.log.entries, entry ∈ entries) ∧
        ∀ old ∈ final.world.past, ∀ entry ∈ old.entries, ∀ change,
          logEntryToChange entry = some change →
          ∃ told ∈ entries, ∃ later, logEntryToChange told = some later ∧
            later.entity = change.entity ∧
            dominates later.version.vv change.version.vv = true := by
  have hrun : (runAll (fun file => file.step format writer fun _ => "") start spared).any
      (fun final => final.world.told = [entry 7 2, entry 9 6] ∧
        final.world.log.epoch = 0) = true := by
    decide +kernel
  obtain ⟨final, hfinal, hend⟩ := (Option.any_eq_true _ _).mp hrun
  obtain ⟨htold, hepoch⟩ := of_decide_eq_true hend
  have hspared : MeetsAll (fun file => file.step format writer fun _ => "")
      (fun file => file.Spared writer) start spared := by
    decide +kernel
  exact ⟨final, hfinal, htold,
    appendRun_delivers start_fresh rfl hspared hfinal (serialized htold hepoch)⟩

/-- An append that fails behind its fifth byte. -/
def cut : List AppendStep :=
  detach 7 ++ [append 7 2] ++ detach 8 ++ [.torn (.noteTag 5 8) 4 5] ++ detach 9 ++ [append 9 6]

/-- The entry of the next append ends the torn line and is not read. -/
theorem cut_append_costs_next :
    ¬∀ (format : LineFormat) (writer : LineWriter) (contentHash : List UInt8 → String)
      (start final : JournalFile) (actions : List AppendStep),
      start.world.Fresh → start.bytes = [] →
      runAll (fun file => file.step format writer contentHash) start actions = some final →
      JournalFile.Serialized format writer final.world →
      ∃ entries saved, readTail format final.bytes .start = .ok (entries, saved) ∧
        ∀ entry ∈ final.world.log.entries, entry ∈ entries := by
  intro hdelivers
  let torn := (entryText '8' '4').take 5 ++ entryText '9' '6'
  have hrun : (runAll (fun file => file.step format writer fun _ => "") start cut).any
      (fun final => final.world.told = [entry 7 2, entry 9 6] ∧
        final.world.log.epoch = 0 ∧ final.world.log.entries = [entry 7 2, entry 9 6] ∧
        final.bytes = writer.entryLine (entry 7 2) ++ (utf8 torn ++ [newline])) = true := by
    decide +kernel
  obtain ⟨final, hfinal, hend⟩ := (Option.any_eq_true _ _).mp hrun
  obtain ⟨htold, hepoch, hentries, hbytes⟩ := of_decide_eq_true hend
  have honeLine : newline ∉ utf8 torn := by decide +kernel
  have hunread : lineEntry format (torn ++ ['\n']) = none := by decide +kernel
  have hlines : lines newline final.bytes =
      [writer.entryLine (entry 7 2), utf8 torn ++ [newline]] := by
    rw [hbytes, lines_append (writer.whole_entryLine _), rereads_7.lines, lines_terminated honeLine]
    rfl
  have hreadable : Readable final.bytes := by
    intro line hline
    rw [hlines] at hline
    simp only [List.mem_cons, List.not_mem_nil, or_false] at hline
    rcases hline with rfl | rfl
    · exact decode_ok_of_entry rereads_7.2
    · rw [utf8_line, decode_utf8]
      rfl
  obtain ⟨entries, saved, hread, hall⟩ := hdelivers format writer (fun _ => "") start final cut
    start_fresh rfl hfinal (serialized htold hepoch)
  obtain ⟨other, hother⟩ := readTail_start format hreadable
  rw [hother, hlines, List.filterMap_cons, rereads_7.2, List.filterMap_cons, utf8_line,
    decodedEntry_utf8, hunread] at hread
  obtain ⟨rfl, -⟩ := Prod.mk.inj (Except.ok.inj hread)
  have hlast := hall (entry 9 6) (by simp [hentries])
  revert hlast
  decide

end JournalAppendWitness

end Keeplin
