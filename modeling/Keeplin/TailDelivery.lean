/-
What successive reads of the peers' journals deliver.  Each call sees some first
part of every journal; as long as no such part ends inside a line, the entries
delivered are those of the lines seen, each once and in order.
-/
import Keeplin.JournalTail

namespace Keeplin

open Lines

/-- The entries delivered from one peer's journal. -/
def entriesBy (peer : String) (delivered : List (String × LogEntry)) : List LogEntry :=
  (delivered.filter fun entry => entry.1 = peer).map Prod.snd

/-- What has been seen of each journal after a listing. -/
def seenAfter (seen : String → List UInt8) (listing : LogListing) :
    String → List UInt8 :=
  fun peer => (listing.file? peer).getD (seen peer)

/-- A listing has each peer once, with a first part of its journal that is not
shorter than what was seen before. -/
def Observes (own : String) (files seen : String → List UInt8) (listing : LogListing) :
    Prop :=
  (listing.map Prod.fst).Nodup ∧
    ∀ file ∈ listing, file.1 ≠ own → seen file.1 <+: file.2 ∧ file.2 <+: files file.1

/-- No journal of the listing ends inside a line or a character. -/
def WholeListing (own : String) (listing : LogListing) : Prop :=
  ∀ file ∈ listing, file.1 ≠ own → Whole newline file.2 ∧ Readable file.2

instance (own : String) (files seen : String → List UInt8) (listing : LogListing) :
    Decidable (Observes own files seen listing) :=
  inferInstanceAs (Decidable (_ ∧ ∀ _ ∈ _, _))

instance (own : String) (listing : LogListing) : Decidable (WholeListing own listing) :=
  inferInstanceAs (Decidable (∀ _ ∈ _, _))

section Entries

variable {peer device : String}

@[simp] theorem entriesBy_nil : entriesBy peer [] = [] := rfl

theorem entriesBy_append (first second : List (String × LogEntry)) :
    entriesBy peer (first ++ second) = entriesBy peer first ++ entriesBy peer second := by
  simp [entriesBy]

theorem entriesBy_map (entries : List LogEntry) :
    entriesBy peer (entries.map (Prod.mk device)) =
      if device = peer then entries else [] := by
  simp only [entriesBy, List.filter_map, List.map_map]
  split
  · next heq =>
      have hall : entries.filter ((fun entry : String × LogEntry => entry.1 = peer) ∘
          Prod.mk device) = entries := List.filter_eq_self.mpr fun _ _ => by simp [heq]
      rw [hall]
      exact List.map_id entries
  · next hne => simp [Function.comp_def, hne]

theorem seenAfter_cons (seen : String → List UInt8) (bytes : List UInt8)
    {rest : LogListing} (hmissing : device ∉ rest.map Prod.fst) :
    seenAfter seen ((device, bytes) :: rest) =
      seenAfter (Function.update seen device bytes) rest := by
  funext other
  simp only [seenAfter, Directory.file?, List.find?_cons]
  by_cases hdevice : device = other
  · subst hdevice
    have hnone : List.find? (fun file : String × List UInt8 => file.1 = device) rest = none := by
      rw [List.find?_eq_none]
      intro file hfile
      have hother : file.1 ≠ device := by
        rintro rfl
        exact hmissing (List.mem_map_of_mem hfile)
      simpa using hother
    simp [hnone]
  · simp [hdevice, Function.update_of_ne (Ne.symm hdevice)]

end Entries

section Call

variable {format : LineFormat} {own : String} {files : String → List UInt8}

/-- One call over a listing of whole journals delivers what was not seen of each. -/
theorem readNewEntries_reads {listing : LogListing} {cursors : String → LogCursor}
    {seen : String → List UInt8} (hobserves : Observes own files seen listing)
    (hwhole : WholeListing own listing)
    (hseen : ∀ peer, peer ≠ own → Whole newline (seen peer))
    (hreads : ∀ peer, peer ≠ own → Reads format (cursors peer) (seen peer) (files peer)) :
    ∃ delivered, (readNewEntries format own cursors listing).2 = .ok delivered ∧
      ∀ peer, peer ≠ own →
        (lines newline (seen peer)).filterMap (decodedEntry format) ++
            entriesBy peer delivered =
          (lines newline (seenAfter seen listing peer)).filterMap (decodedEntry format) ∧
        Whole newline (seenAfter seen listing peer) ∧
        Reads format ((readNewEntries format own cursors listing).1 peer)
          (seenAfter seen listing peer) (files peer) := by
  induction listing generalizing cursors seen with
  | nil =>
      refine ⟨[], rfl, fun peer hpeer => ⟨?_, hseen peer hpeer, hreads peer hpeer⟩⟩
      rw [entriesBy_nil, List.append_nil]
      rfl
  | cons file rest ih =>
      obtain ⟨device, bytes⟩ := file
      obtain ⟨hnames, hgrown⟩ := hobserves
      rw [List.map_cons, List.nodup_cons] at hnames
      have hrestGrown := fun file hfile => hgrown file (List.mem_cons_of_mem _ hfile)
      have hrestWhole : WholeListing own rest :=
        fun file hfile => hwhole file (List.mem_cons_of_mem _ hfile)
      by_cases hown : device = own
      · -- The own journal is passed over.
        obtain ⟨delivered, hok, hpeers⟩ := ih ⟨hnames.2, hrestGrown⟩ hrestWhole hseen hreads
        have hread : readNewEntries format own cursors ((device, bytes) :: rest) =
            readNewEntries format own cursors rest := by
          simp only [readNewEntries, hown, ↓reduceIte]
        rw [hread]
        refine ⟨delivered, hok, fun peer hpeer => ?_⟩
        have hafter : seenAfter seen ((device, bytes) :: rest) peer =
            seenAfter seen rest peer := by
          have hne : device ≠ peer := fun heq => hpeer (heq.symm.trans hown)
          simp [seenAfter, Directory.file?, hne]
        rw [hafter]
        exact hpeers peer hpeer
      · obtain ⟨hfront, hfile⟩ := hgrown _ List.mem_cons_self hown
        obtain ⟨hbytes, hreadable⟩ := hwhole _ List.mem_cons_self hown
        obtain ⟨entries, saved, hread, hentries, hafter⟩ :=
          readTail_reads (hreads device hown) (hseen device hown) hfront hfile hbytes hreadable
        have hothers : ∀ file ∈ rest, Function.update seen device bytes file.1 = seen file.1 := by
          intro file hmem
          apply Function.update_of_ne
          intro heq
          have hname : file.1 ∈ rest.map Prod.fst := List.mem_map_of_mem hmem
          exact hnames.1 (heq ▸ hname)
        obtain ⟨delivered, hok, hpeers⟩ := @ih
          (Function.update cursors device (saved.getD (cursors device)))
          (Function.update seen device bytes)
          ⟨hnames.2, fun file hmem hpeer => by
            rw [hothers file hmem]
            exact hrestGrown file hmem hpeer⟩ hrestWhole
          (fun peer hpeer => by
            by_cases heq : peer = device
            · rw [heq, Function.update_self]
              exact hbytes
            · rw [Function.update_of_ne heq]
              exact hseen peer hpeer)
          (fun peer hpeer => by
            by_cases heq : peer = device
            · rw [heq, Function.update_self, Function.update_self]
              exact hafter
            · rw [Function.update_of_ne heq, Function.update_of_ne heq]
              exact hreads peer hpeer)
        refine ⟨entries.map (Prod.mk device) ++ delivered, ?_, fun peer hpeer => ?_⟩
        · simp only [readNewEntries, hown, ↓reduceIte, hread, hok]
          rfl
        · obtain ⟨hmore, hpeerWhole, hpeerReads⟩ := hpeers peer hpeer
          rw [seenAfter_cons seen bytes hnames.1]
          refine ⟨?_, hpeerWhole, ?_⟩
          · rw [entriesBy_append, entriesBy_map, ← hmore]
            by_cases heq : device = peer
            · subst heq
              rw [if_pos rfl, Function.update_self, ← hentries, List.append_assoc]
            · rw [if_neg heq, Function.update_of_ne (Ne.symm heq), List.nil_append]
          · simp only [readNewEntries, hown, ↓reduceIte, hread]
            exact hpeerReads

end Call

/-- The cursors of a device, each peer's journal of the current epoch with the
part of it that was seen, the entries of earlier epochs that were seen, and
everything the calls have returned. -/
structure TailWorld where
  cursors : String → LogCursor
  files : String → List UInt8
  seen : String → List UInt8
  past : String → List LogEntry
  delivered : List (String × LogEntry)

/-- The device reads a listing, or a peer starts another epoch of its journal. -/
inductive TailStep where
  | read (listing : LogListing)
  | renew (peer : String) (file : List UInt8)

section Run

variable (format : LineFormat) (own : String)

/-- A journal is of another epoch when that differs from the cursor's, or the
cursor has not moved in it. -/
def startsAnother (cursor : LogCursor) (file : List UInt8) : Bool :=
  match readLogHeader format file with
  | .ok header => decide (cursor.offset = 0 ∨ cursor.epoch ≠ header.1)
  | .error _ => true

/-- A call over a listing that fails returns no entries. -/
def tailStep (world : TailWorld) : TailStep → Option TailWorld
  | .read listing =>
      if Observes own world.files world.seen listing then
        let read := readNewEntries format own world.cursors listing
        some
          { world with
            cursors := read.1
            seen := seenAfter world.seen listing
            delivered := world.delivered ++
              match read.2 with
              | .ok entries => entries
              | .error _ => [] }
      else none
  | .renew peer file =>
      if startsAnother format (world.cursors peer) file then
        some
          { world with
            files := Function.update world.files peer file
            seen := Function.update world.seen peer []
            past := Function.update world.past peer
              (world.past peer ++ completeEntries format (world.seen peer)) }
      else none

/-- The journals of a listing are whole. -/
def ReadsWhole (_ : TailWorld) : TailStep → Prop
  | .read listing => WholeListing own listing
  | .renew _ _ => True

instance (world : TailWorld) : ∀ step, Decidable (ReadsWhole own world step)
  | .read listing => inferInstanceAs (Decidable (WholeListing own listing))
  | .renew _ _ => inferInstanceAs (Decidable True)

/-- Nothing was read of any journal, whatever the cursors were left at by other
epochs. -/
structure TailWorld.Begun (world : TailWorld) : Prop where
  seen : ∀ peer, world.seen peer = []
  past : ∀ peer, world.past peer = []
  delivered : world.delivered = []
  reads : ∀ peer, peer ≠ own → Reads format (world.cursors peer) [] (world.files peer)

structure TailWorld.Sound (world : TailWorld) : Prop where
  whole : ∀ peer, peer ≠ own → Whole newline (world.seen peer)
  reads : ∀ peer, peer ≠ own →
    Reads format (world.cursors peer) (world.seen peer) (world.files peer)
  delivered : ∀ peer, peer ≠ own →
    entriesBy peer world.delivered =
      world.past peer ++ completeEntries format (world.seen peer)

variable {format own} {start world next : TailWorld}

theorem TailWorld.Begun.sound (hbegun : start.Begun format own) :
    start.Sound format own where
  whole := fun peer _ => Or.inl (hbegun.seen peer)
  reads := fun peer hpeer => (hbegun.seen peer).symm ▸ hbegun.reads peer hpeer
  delivered := fun peer _ => by
    rw [hbegun.delivered, hbegun.past, hbegun.seen]
    rfl

theorem completeEntries_of_whole {bytes : List UInt8} (hwhole : Whole newline bytes) :
    completeEntries format bytes =
      (lines newline bytes).filterMap (decodedEntry format) := by
  rw [completeEntries, completeLines_of_whole hwhole]

theorem TailWorld.Sound.read (hsound : world.Sound format own) {listing : LogListing}
    (hwhole : WholeListing own listing)
    (hstep : tailStep format own world (.read listing) = some next) :
    next.Sound format own := by
  simp only [tailStep] at hstep
  split at hstep
  · next hobserves =>
      obtain ⟨delivered, hok, hpeers⟩ :=
        readNewEntries_reads hobserves hwhole hsound.whole hsound.reads
      rw [hok] at hstep
      cases hstep
      refine ⟨fun peer hpeer => (hpeers peer hpeer).2.1,
        fun peer hpeer => (hpeers peer hpeer).2.2, fun peer hpeer => ?_⟩
      obtain ⟨hentries, hafter, -⟩ := hpeers peer hpeer
      rw [entriesBy_append, hsound.delivered peer hpeer, List.append_assoc,
        completeEntries_of_whole (hsound.whole peer hpeer), hentries,
        completeEntries_of_whole hafter]
  · contradiction

theorem reads_of_startsAnother {cursor : LogCursor} {file : List UInt8}
    (hanother : startsAnother format cursor file = true) : Reads format cursor [] file := by
  refine Or.inr ⟨rfl, ?_⟩
  simp only [startsAnother] at hanother
  split at hanother
  · next header hheader =>
      refine (of_decide_eq_true hanother).imp id fun hne other hother => ?_
      exact Except.ok.inj (hheader.symm.trans hother) ▸ hne
  · next failure hheader =>
      refine Or.inr fun other hother => ?_
      rw [hheader] at hother
      contradiction

theorem TailWorld.Sound.renew (hsound : world.Sound format own) {peer : String}
    {file : List UInt8} (hstep : tailStep format own world (.renew peer file) = some next) :
    next.Sound format own := by
  simp only [tailStep] at hstep
  split at hstep
  · next hanother =>
      cases hstep
      constructor
      · intro other hother
        simp only [Function.update_apply]
        split
        · exact Or.inl rfl
        · exact hsound.whole other hother
      · intro other hother
        simp only [Function.update_apply]
        split
        · next heq =>
            subst heq
            exact reads_of_startsAnother hanother
        · exact hsound.reads other hother
      · intro other hother
        simp only [Function.update_apply]
        split
        · next heq =>
            rw [heq, hsound.delivered peer (heq ▸ hother)]
            exact (List.append_nil _).symm
        · exact hsound.delivered other hother
  · contradiction

theorem tailStep_sound {step : TailStep} (hsound : world.Sound format own)
    (hwhole : ReadsWhole own world step)
    (hstep : tailStep format own world step = some next) : next.Sound format own := by
  cases step with
  | read listing => exact hsound.read hwhole hstep
  | renew peer file => exact hsound.renew hstep

/-- Over a run whose calls see no journal that ends inside a line, every peer's
entries are delivered exactly once and in order: those of the complete lines seen
of each epoch, one epoch after the other. -/
theorem tailRun_delivers_once {steps : List TailStep} (hbegun : start.Begun format own)
    (hwhole : MeetsAll (tailStep format own) (ReadsWhole own) start steps)
    (hrun : runAll (tailStep format own) start steps = some world) :
    ∀ peer, peer ≠ own →
      entriesBy peer world.delivered =
        world.past peer ++ completeEntries format (world.seen peer) :=
  (runAll_invariant_of_meetsAll (tailStep format own)
    (fun _ _ _ hsound hwhole hstep => tailStep_sound hsound hwhole hstep)
    hbegun.sound hwhole hrun).delivered

end Run

namespace TailDeliveryWitness

def headerText : Text := "\x7b\"__keeplin_epoch__\":1\x7d".toList

def entryText : Text :=
  ("\x7b\"timestamp\":\"2024-01-01T00:00:00Z\",\"entity_type\":\"tag\"," ++
    "\"entity_id\":\"00000000000000000000000000000007\",\"operation\":\"delete\"," ++
    "\"data\":\x7b\"deleted_at\":\"2024-01-01T00:00:00Z\"\x7d\x7d").toList

def entry : LogEntry :=
  ⟨1704067200000000000, .tag, 7, .delete, .tombstone 1704067200000000000 ∅ ""⟩

/-- The parsers on the lines of the journal below and on their first parts. -/
def format : LineFormat where
  epochHeader := fun text => if text = headerText then some 1 else none
  logEntry := fun text => if text = entryText then some entry else none

def bytesOf (text : Text) : List UInt8 :=
  text.map fun c => UInt8.ofNat c.toNat

def journal : List UInt8 :=
  bytesOf headerText ++ newline :: bytesOf entryText ++ [newline]

/-- The journal with the last two bytes not yet replicated. -/
def torn : List UInt8 := journal.take (journal.length - 2)

def start : TailWorld where
  cursors := fun _ => ⟨0, 5⟩
  files := fun _ => journal
  seen := fun _ => []
  past := fun _ => []
  delivered := []

def headerLine : Text := headerText ++ ['\n']

def entryLine : Text := entryText ++ ['\n']

/-- What is computed of the bytes of the journal, line by line, and of the texts of its lines.
The literals are written out as characters first. -/
theorem written :
    ((readLine newline torn).1 = utf8 headerLine ∧
      (readLine newline journal).1 = utf8 headerLine ∧
      lines newline (torn.drop (utf8 headerLine).length) = [entryText.dropLast].map utf8 ∧
      lines newline (journal.drop torn.length) = [['}', '
']].map utf8 ∧
      lines newline journal = [headerLine, entryLine].map utf8 ∧
      completeLines newline journal = [headerLine, entryLine].map utf8 ∧
      Whole newline journal ∧ torn <+: journal ∧ (utf8 headerLine).length ≤ torn.length) ∧
    format.epochHeader (trim headerLine) = some 1 ∧
      lineEntry format headerLine = none ∧ lineEntry format entryLine = some entry ∧
      lineEntry format entryText.dropLast = none ∧ lineEntry format ['}', '
'] = none := by
  have hheader : headerText = _ := String.toList_ofList
  have hentry : entryText = _ := String.toList_append.trans (congrArg₂ (· ++ ·)
    (String.toList_append.trans (congrArg₂ (· ++ ·) String.toList_ofList String.toList_ofList))
    String.toList_ofList)
  rw [format, torn, journal, headerLine, entryLine, hheader, hentry]
  decide +kernel

theorem readLogHeader_line {bytes : List UInt8}
    (hline : (readLine newline bytes).1 = utf8 headerLine) :
    readLogHeader format bytes = .ok (1, (utf8 headerLine).length) := by
  obtain ⟨-, hepoch, -⟩ := written
  simp only [readLogHeader, hline, decode_utf8, Except.map, hepoch]

theorem filterMap_utf8 (texts : List Text) :
    (texts.map utf8).filterMap (decodedEntry format) = texts.filterMap (lineEntry format) := by
  rw [List.filterMap_map]
  exact congrArg (texts.filterMap ·) (funext fun text => decodedEntry_utf8 text)

theorem readable_of_lines {bytes : List UInt8} {texts : List Text}
    (hlines : lines newline bytes = texts.map utf8) : Readable bytes := by
  rw [Readable, hlines, List.forall_mem_map]
  exact fun text _ => isOk_decode.mpr ⟨text, rfl⟩

theorem seenAfter_singleton (seen : String → List UInt8) (peer : String) (bytes : List UInt8) :
    seenAfter seen [(peer, bytes)] peer = bytes := by
  simp [seenAfter, Directory.file?]

theorem completeEntries_journal : completeEntries format journal = [entry] := by
  obtain ⟨⟨-, -, -, -, -, hcomplete, -⟩, -, hheader, hentry, -⟩ := written
  rw [completeEntries, hcomplete, filterMap_utf8, List.filterMap_cons_none hheader,
    List.filterMap_cons_some hentry, List.filterMap_nil]

/-- A read of the first part moves the cursor to its end. -/
theorem readTail_torn : readTail format torn ⟨0, 5⟩ = .ok ([], some ⟨1, torn.length⟩) := by
  obtain ⟨⟨hline, -, hlines, -, -, -, -, -, hlength⟩, -, -, -, hentry, -⟩ := written
  have hread := readTail_of_start ⟨0, 5⟩ (readLogHeader_line hline) (utf8 headerLine).length
    (if_pos Nat.one_ne_zero).symm (readable_of_lines hlines)
  rw [hlines, filterMap_utf8, List.filterMap_cons_none hentry, List.filterMap_nil,
    if_pos (.inl Nat.one_ne_zero), Nat.add_sub_cancel' hlength] at hread
  exact hread

theorem readTail_rest :
    ∃ saved, readTail format journal ⟨1, torn.length⟩ = .ok ([], saved) := by
  obtain ⟨⟨-, hline, -, hlines, -⟩, -, -, -, -, hentry⟩ := written
  generalize torn.length = offset at hlines ⊢
  have hread := readTail_of_start ⟨1, offset⟩ (readLogHeader_line hline) offset
    (if_neg fun hne => hne rfl).symm (readable_of_lines hlines)
  rw [hlines, filterMap_utf8, List.filterMap_cons_none hentry, List.filterMap_nil] at hread
  exact ⟨_, hread⟩

theorem start_another : startsAnother format ⟨0, 5⟩ journal = true := by
  obtain ⟨⟨-, hline, -⟩, -⟩ := written
  rw [startsAnother, readLogHeader_line hline]
  exact decide_eq_true (.inr Nat.zero_ne_one)

theorem start_begun : start.Begun format "B" where
  seen := fun _ => rfl
  past := fun _ => rfl
  delivered := rfl
  reads := fun _ _ => reads_of_startsAnother start_another

theorem readsWhole_journal : MeetsAll (tailStep format "B") (ReadsWhole "B") start
    [.read [("B", []), ("A", journal)]] := by
  obtain ⟨⟨-, -, -, -, hlines, -, hwhole, -⟩, -⟩ := written
  refine ⟨?_, fun _ _ => trivial⟩
  intro file hfile hother
  rcases List.mem_cons.mp hfile with rfl | hjournal
  · exact absurd rfl hother
  · obtain rfl := List.mem_singleton.mp hjournal
    exact ⟨hwhole, readable_of_lines hlines⟩

theorem tailRun_delivers_once_journal :
    ∃ world, runAll (tailStep format "B") start [.read [("B", []), ("A", journal)]] =
        some world ∧ ∀ peer, peer ≠ "B" → entriesBy peer world.delivered =
          world.past peer ++ completeEntries format (world.seen peer) := by
  have hobserves : Observes "B" start.files start.seen [("B", []), ("A", journal)] := by
    refine ⟨by decide, fun file hfile hother => ⟨List.nil_prefix, ?_⟩⟩
    rcases List.mem_cons.mp hfile with rfl | hjournal
    · exact absurd rfl hother
    · exact List.mem_singleton.mp hjournal ▸ List.prefix_refl journal
  have hrun : (runAll (tailStep format "B") start
      [.read [("B", []), ("A", journal)]]).isSome = true := by
    simp only [runAll, tailStep, if_pos hobserves, Option.bind_some, Option.isSome_some]
  obtain ⟨world, hworld⟩ := Option.isSome_iff_exists.mp hrun
  exact ⟨world, hworld, tailRun_delivers_once start_begun readsWhole_journal hworld⟩

/-- A call that sees the journal end inside a line moves the cursor past that
part of the line, and the entry is never delivered. -/
theorem tailRun_loses_torn_line :
    ∃ world, runAll (tailStep format "B") start
        [.read [("A", torn)], .read [("A", journal)]] = some world ∧
      completeEntries format (world.seen "A") = [entry] ∧
      entriesBy "A" world.delivered = [] := by
  obtain ⟨⟨-, -, -, -, -, -, -, hprefix, -⟩, -⟩ := written
  obtain ⟨saved, hrest⟩ := readTail_rest
  have hread : ∀ (world : TailWorld) (bytes : List UInt8) (saved : Option LogCursor),
      world.seen "A" <+: bytes → bytes <+: world.files "A" →
      readTail format bytes (world.cursors "A") = .ok ([], saved) →
      tailStep format "B" world (.read [("A", bytes)]) = some { world with
        cursors := Function.update world.cursors "A" (saved.getD (world.cursors "A"))
        seen := seenAfter world.seen [("A", bytes)] } := by
    intro world bytes saved hseen hbytes hread
    have hobserves : Observes "B" world.files world.seen [("A", bytes)] := by
      refine ⟨List.nodup_singleton _, fun file hfile _ => ?_⟩
      obtain rfl := List.mem_singleton.mp hfile
      exact ⟨hseen, hbytes⟩
    have hother : ¬ "A" = "B" := by decide
    rw [tailStep, if_pos hobserves]
    simp only [readNewEntries, if_neg hother, hread, Except.map, List.map_nil, List.append_nil]
  let moved : TailWorld := { start with
    cursors := Function.update start.cursors "A" ⟨1, torn.length⟩
    seen := seenAfter start.seen [("A", torn)] }
  have hfirst : tailStep format "B" start (.read [("A", torn)]) = some moved :=
    hread start torn _ (start_begun.seen "A" ▸ List.nil_prefix) hprefix readTail_torn
  have hseen : moved.seen "A" = torn := by simp only [moved, seenAfter_singleton]
  have hmoved : moved.cursors "A" = ⟨1, torn.length⟩ := by simp only [moved, Function.update_self]
  have hfile : journal <+: moved.files "A" := by
    simp only [moved, start, List.prefix_refl]
  have hsecond := hread moved journal saved (hseen ▸ hprefix) hfile (hmoved ▸ hrest)
  have hrun : runAll (tailStep format "B") start [.read [("A", torn)], .read [("A", journal)]] =
      tailStep format "B" moved (.read [("A", journal)]) := by
    rw [runAll, hfirst, Option.bind_some, runAll, hsecond, Option.bind_some, runAll]
  refine ⟨_, hrun.trans hsecond, ?_, rfl⟩
  simp only [seenAfter_singleton, completeEntries_journal]

end TailDeliveryWitness

end Keeplin
