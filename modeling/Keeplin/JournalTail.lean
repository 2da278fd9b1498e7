/-
Reading the peers' journals byte by byte.  A cursor for each peer says which
epoch of its journal was read and how far; a call reads every line after it.
-/
import Keeplin.Journal
import Keeplin.Lines
import Keeplin.LabelledRun
import Mathlib.Data.List.TakeWhile
import Mathlib.Logic.Function.Basic

namespace Keeplin

open Lines

abbrev Text := List Char

/-- The byte that ends a line. -/
def newline : UInt8 := 10

def isWhiteSpace (c : Char) : Bool :=
  (9 ≤ c.toNat && c.toNat ≤ 13) || (0x2000 ≤ c.toNat && c.toNat ≤ 0x200A) ||
    c.toNat ∈ [0x20, 0x85, 0xA0, 0x1680, 0x2028, 0x2029, 0x202F, 0x205F, 0x3000]

def trim (text : Text) : Text :=
  ((text.dropWhile isWhiteSpace).reverse.dropWhile isWhiteSpace).reverse

theorem trim_append_of_blank {front text : Text} (hfront : ∀ c ∈ front, isWhiteSpace c = true) :
    trim (front ++ text) = trim text := by
  rw [trim, List.dropWhile_append_of_pos hfront, trim]

theorem trim_append_blank {text back : Text} (hback : ∀ c ∈ back, isWhiteSpace c = true) :
    trim (text ++ back) = trim text := by
  have hreverse : ∀ c ∈ back.reverse, isWhiteSpace c = true :=
    fun c hc => hback c (List.mem_reverse.mp hc)
  rw [trim, trim, List.dropWhile_append]
  split
  · next hblank =>
      rw [List.isEmpty_iff.mp hblank, List.dropWhile_eq_nil_iff.mpr hback]
  · rw [List.reverse_append, List.dropWhile_append_of_pos hreverse]

/-- The text of a line that was read.  Reading one that is not UTF-8 fails. -/
def decode (line : List UInt8) : Except StorageError Text :=
  match String.fromUTF8? ⟨line.toArray⟩ with
  | some text => .ok text.toList
  | none => .error .io

def utf8 (text : Text) : List UInt8 :=
  text.flatMap String.utf8EncodeChar

@[simp] theorem utf8_append (first second : Text) :
    utf8 (first ++ second) = utf8 first ++ utf8 second :=
  List.flatMap_append

theorem utf8_toByteArray (text : Text) : (⟨(utf8 text).toArray⟩ : ByteArray) = text.utf8Encode := by
  apply ByteArray.ext
  rw [List.utf8Encode, List.data_toByteArray]
  rfl

theorem decode_utf8 (text : Text) : decode (utf8 text) = .ok text := by
  have hbytes := utf8_toByteArray text
  have hvalid : ByteArray.IsValidUTF8 ⟨(utf8 text).toArray⟩ := ⟨text, hbytes⟩
  have htext : String.fromUTF8 ⟨(utf8 text).toArray⟩ hvalid = String.ofList text := by
    apply String.toByteArray_inj.mp
    rw [String.toByteArray_ofList]
    exact hbytes
  simp only [decode, String.fromUTF8?, dif_pos hvalid, htext, String.toList_ofList]

/-- The bytes of a text are read as it and as no other. -/
theorem decode_eq_ok_iff {bytes : List UInt8} {text : Text} :
    decode bytes = .ok text ↔ bytes = utf8 text := by
  constructor
  · intro hdecode
    rw [decode, String.fromUTF8?] at hdecode
    split at hdecode
    · next found hfound =>
        obtain rfl := Except.ok.inj hdecode
        split at hfound
        · next hvalid =>
            obtain rfl := Option.some.inj hfound
            have hbytes := (utf8_toByteArray (String.fromUTF8 ⟨bytes.toArray⟩ hvalid).toList).trans
              String.utf8Encode_toList
            exact (congrArg (fun found : ByteArray => found.data.toList) hbytes).symm
        · contradiction
    · contradiction
  · rintro rfl
    exact decode_utf8 text

theorem utf8_inj {first second : Text} : utf8 first = utf8 second ↔ first = second := by
  constructor
  · intro hsame
    have hdecode := decode_utf8 first
    rw [hsame, decode_utf8] at hdecode
    exact (Except.ok.inj hdecode).symm
  · exact congrArg utf8

/-- A text begins with the first byte of a character. -/
theorem isUTF8FirstByte_of_head? {text : Text} {byte : UInt8}
    (hhead : (utf8 text).head? = some byte) : byte.IsUTF8FirstByte := by
  cases text with
  | nil => contradiction
  | cons c text =>
      cases hchar : String.utf8EncodeChar c with
      | nil => exact absurd hchar String.utf8EncodeChar_ne_nil
      | cons first more =>
          have hpos : 0 < (String.utf8EncodeChar c).length := by simp [hchar]
          have hfirst : (String.utf8EncodeChar c)[0] = first := by
            simp only [hchar, List.getElem_cons_zero]
          rw [utf8, List.flatMap_cons, hchar, List.cons_append, List.head?_cons] at hhead
          rw [← Option.some.inj hhead, ← hfirst]
          exact UInt8.isUTF8FirstByte_getElem_utf8EncodeChar.mpr rfl

/-- The bytes of a text that are parted before a character are two texts. -/
theorem exists_utf8_append {text : Text} {front back : List UInt8}
    (htext : front ++ back = utf8 text)
    (hback : ∀ byte, back.head? = some byte → byte.IsUTF8FirstByte) :
    ∃ first second, front = utf8 first ∧ back = utf8 second ∧ first ++ second = text := by
  induction text generalizing front with
  | nil =>
      obtain ⟨rfl, rfl⟩ := List.append_eq_nil_iff.mp htext
      exact ⟨[], [], rfl, rfl, rfl⟩
  | cons c text ih =>
      rw [utf8, List.flatMap_cons] at htext
      rcases List.append_eq_append_iff.mp htext with
        ⟨inside, hchar, hrest⟩ | ⟨more, rfl, hmore⟩
      · by_cases hfront : front = []
        · subst hfront
          rw [List.nil_append] at hchar
          exact ⟨[], c :: text, rfl, by rw [hrest, ← hchar]; rfl, rfl⟩
        · cases inside with
          | nil =>
              refine ⟨[c], text, ?_, hrest, rfl⟩
              rw [List.append_nil] at hchar
              rw [← hchar]
              simp [utf8]
          | cons byte inside =>
              have hbyte : byte.IsUTF8FirstByte := hback byte (by rw [hrest]; rfl)
              have hlt : front.length < (String.utf8EncodeChar c).length := by
                rw [hchar]
                simp
              have hget : (String.utf8EncodeChar c)[front.length] = byte := by
                simp [hchar]
              rw [← hget, UInt8.isUTF8FirstByte_getElem_utf8EncodeChar] at hbyte
              exact absurd (List.eq_nil_of_length_eq_zero hbyte) hfront
      · obtain ⟨first, second, rfl, hsecond, rfl⟩ := ih hmore.symm
        exact ⟨c :: first, second, rfl, hsecond, rfl⟩

theorem utf8_prefix_iff {first second : Text} : utf8 first <+: utf8 second ↔ first <+: second := by
  constructor
  · intro hprefix
    induction first generalizing second with
    | nil => exact List.nil_prefix
    | cons c first ih =>
        obtain ⟨rest, hrest⟩ := hprefix
        cases second with
        | nil =>
            obtain ⟨hnil, -⟩ := List.append_eq_nil_iff.mp hrest
            exact absurd (List.append_eq_nil_iff.mp hnil).1 String.utf8EncodeChar_ne_nil
        | cons d second =>
            rw [utf8, utf8, List.flatMap_cons, List.flatMap_cons, List.append_assoc] at hrest
            -- A character is what its bytes are read as, whatever follows them.
            have hread : ∀ (c : Char) (more : List UInt8),
                (String.utf8EncodeChar c ++ more).toByteArray.utf8DecodeChar? 0 = some c := by
              intro c more
              rw [List.toByteArray_append]
              exact ByteArray.utf8DecodeChar?_utf8EncodeChar_append
            have hsame := hread c (utf8 first ++ rest)
            have hother := hread d (utf8 second)
            rw [utf8, hrest, ← utf8, hother] at hsame
            obtain rfl := Option.some.inj hsame
            exact List.prefix_cons_inj _ |>.mpr
              (ih ⟨rest, List.append_cancel_left hrest⟩)
  · rintro ⟨rest, rfl⟩
    exact ⟨utf8 rest, (utf8_append first rest).symm⟩

theorem isOk_decode {bytes : List UInt8} :
    (decode bytes).isOk = true ↔ ∃ text, bytes = utf8 text := by
  cases hdecode : decode bytes with
  | ok text => exact iff_of_true rfl ⟨text, decode_eq_ok_iff.mp hdecode⟩
  | error failure =>
      refine iff_of_false Bool.false_ne_true ?_
      rintro ⟨text, rfl⟩
      rw [decode_utf8] at hdecode
      contradiction

/-- A text in front of bytes that begin with a character is one by itself. -/
theorem isOk_decode_append {text : Text} {front part : List UInt8} (hpart : part <+: utf8 text) :
    (decode (front ++ part)).isOk = true ↔
      (decode front).isOk = true ∧ (decode part).isOk = true := by
  rw [isOk_decode, isOk_decode, isOk_decode]
  constructor
  · rintro ⟨whole, hwhole⟩
    have hhead : ∀ byte, part.head? = some byte → byte.IsUTF8FirstByte := by
      intro byte hbyte
      obtain ⟨rest, hrest⟩ := hpart
      have htext : (utf8 text).head? = some byte := by
        rw [← hrest, List.head?_append, hbyte]
        rfl
      exact isUTF8FirstByte_of_head? htext
    obtain ⟨first, second, hfirst, hsecond, -⟩ := exists_utf8_append hwhole hhead
    exact ⟨⟨first, hfirst⟩, ⟨second, hsecond⟩⟩
  · rintro ⟨⟨first, rfl⟩, ⟨second, rfl⟩⟩
    exact ⟨first ++ second, (utf8_append first second).symm⟩

/-- How the text of a line is parsed: as an epoch header, and as an entry. -/
structure LineFormat where
  epochHeader : Text → Option Nat
  logEntry : Text → Option LogEntry

structure LogCursor where
  epoch : Nat
  offset : Nat
deriving DecidableEq, Repr

/-- What a device without a cursor file starts from. -/
def LogCursor.start : LogCursor := ⟨0, 0⟩

/-- The journals of a listing by the devices they are named after. -/
abbrev LogListing := Directory String (List UInt8)

section Read

variable (format : LineFormat)

/-- The epoch of a journal and the length of its header line; without a header
both are zero. -/
def readLogHeader (bytes : List UInt8) : Except StorageError (Nat × Nat) :=
  let line := (readLine newline bytes).1
  (decode line).map fun text =>
    match format.epochHeader (trim text) with
    | some epoch => (epoch, line.length)
    | none => (0, 0)

/-- The entry of one line.  Blank lines, headers and malformed lines have none. -/
def lineEntry (text : Text) : Option LogEntry :=
  let trimmed := trim text
  if trimmed = [] ∨ (format.epochHeader trimmed).isSome then none
  else format.logEntry trimmed

/-- Read one journal from its cursor: the entries, and the cursor to save. -/
def readTail (bytes : List UInt8) (stored : LogCursor) :
    Except StorageError (List LogEntry × Option LogCursor) :=
  match readLogHeader format bytes with
  | .error failure => .error failure
  | .ok (writerEpoch, headerLen) =>
      let start := if writerEpoch ≠ stored.epoch then headerLen else stored.offset
      let tail := lines newline (bytes.drop start)
      match tail.mapM decode with
      | .error failure => .error failure
      | .ok texts =>
          let newOffset := tail.foldl (fun offset line => offset + line.length) start
          .ok (texts.filterMap (lineEntry format),
            if writerEpoch ≠ stored.epoch ∨ newOffset > stored.offset then
              some ⟨writerEpoch, newOffset⟩
            else none)

/-- Read every peer's journal of a listing, saving the cursors on the way.  Each
entry is kept with the device whose journal it is from. -/
def readNewEntries (own : String) (cursors : String → LogCursor) :
    LogListing → (String → LogCursor) × Except StorageError (List (String × LogEntry))
  | [] => (cursors, .ok [])
  | (device, bytes) :: rest =>
      if device = own then readNewEntries own cursors rest
      else
        match readTail format bytes (cursors device) with
        | .error failure => (cursors, .error failure)
        | .ok (entries, saved) =>
            let later := readNewEntries own
              (Function.update cursors device (saved.getD (cursors device))) rest
            (later.1, later.2.map fun more => entries.map (Prod.mk device) ++ more)

end Read

section Tail

variable {format : LineFormat}

/-- Every line is UTF-8. -/
def Readable (bytes : List UInt8) : Prop :=
  ∀ line ∈ lines newline bytes, (decode line).isOk = true

instance (bytes : List UInt8) : Decidable (Readable bytes) :=
  inferInstanceAs (Decidable (∀ _ ∈ _, _))

def decodedEntry (format : LineFormat) (line : List UInt8) : Option LogEntry :=
  match decode line with
  | .ok text => lineEntry format text
  | .error _ => none

theorem lineEntry_congr {text other : Text} (htrim : trim text = trim other) :
    lineEntry format text = lineEntry format other := by
  simp only [lineEntry, htrim]

theorem decodedEntry_utf8 (text : Text) :
    decodedEntry format (utf8 text) = lineEntry format text := by
  simp only [decodedEntry, decode_utf8]

/-- The entries of a journal's complete lines, in order. -/
def completeEntries (format : LineFormat) (bytes : List UInt8) : List LogEntry :=
  (completeLines newline bytes).filterMap (decodedEntry format)

theorem exists_mapM_decode (format : LineFormat) {list : List (List UInt8)}
    (hreadable : ∀ line ∈ list, (decode line).isOk = true) :
    ∃ texts, list.mapM decode = .ok texts ∧
      texts.filterMap (lineEntry format) = list.filterMap (decodedEntry format) := by
  induction list with
  | nil => exact ⟨[], rfl, rfl⟩
  | cons line rest ih =>
      obtain ⟨texts, hrest, hentries⟩ :=
        ih fun other hother => hreadable other (List.mem_cons_of_mem line hother)
      cases hdecode : decode line with
      | error failure =>
          have hline := hreadable line List.mem_cons_self
          rw [hdecode] at hline
          contradiction
      | ok text =>
          refine ⟨text :: texts, ?_, ?_⟩
          · rw [List.mapM_cons, hdecode, hrest]
            rfl
          · have hone : decodedEntry format line = lineEntry format text := by
              simp only [decodedEntry, hdecode]
            rw [List.filterMap_cons, List.filterMap_cons, hone, hentries]

/-- Lines that are all decoded are texts. -/
theorem isOk_of_mapM_decode {list : List (List UInt8)} {texts : List Text}
    (htexts : list.mapM decode = .ok texts) : ∀ line ∈ list, (decode line).isOk = true := by
  induction list generalizing texts with
  | nil => exact List.forall_mem_nil _
  | cons line rest ih =>
      rw [List.mapM_cons] at htexts
      cases hdecode : decode line with
      | error failure =>
          rw [hdecode] at htexts
          contradiction
      | ok text =>
          rw [hdecode] at htexts
          cases hrest : rest.mapM decode with
          | error failure =>
              rw [hrest] at htexts
              contradiction
          | ok more =>
              refine List.forall_mem_cons.mpr ⟨?_, ih hrest⟩
              rw [hdecode]
              rfl

/-- What a read that starts somewhere in a journal returns. -/
theorem readTail_of_start {bytes : List UInt8} (stored : LogCursor) {header : Nat × Nat}
    (hheader : readLogHeader format bytes = .ok header) (start : Nat)
    (hstart : start = if header.1 ≠ stored.epoch then header.2 else stored.offset)
    (hreadable : Readable (bytes.drop start)) :
    readTail format bytes stored =
      .ok ((lines newline (bytes.drop start)).filterMap (decodedEntry format),
        if header.1 ≠ stored.epoch ∨ start + (bytes.length - start) > stored.offset then
          some ⟨header.1, start + (bytes.length - start)⟩
        else none) := by
  obtain ⟨texts, hmap, hentries⟩ := exists_mapM_decode format hreadable
  simp only [readTail, hheader, ← hstart, hmap, hentries, foldl_length_lines, List.length_drop]

theorem exists_header_nil (format : LineFormat) :
    ∃ epoch, readLogHeader format [] = .ok (epoch, 0) := by
  have hdecode : decode [] = .ok [] := by decide
  simp only [readLogHeader, readLine, hdecode, Except.map]
  cases format.epochHeader (trim []) with
  | none => exact ⟨0, rfl⟩
  | some epoch => exact ⟨epoch, rfl⟩

section Header

variable {bytes file : List UInt8}

/-- The header of a journal that begins with a whole part is that part's. -/
theorem readLogHeader_append (hwhole : Whole newline bytes) (hne : bytes ≠ [])
    (hfile : bytes <+: file) : readLogHeader format file = readLogHeader format bytes := by
  obtain ⟨rest, rfl⟩ := hfile
  simp only [readLogHeader, readLine_append hwhole hne]

theorem exists_header (format : LineFormat) (hne : bytes ≠ []) (hreadable : Readable bytes) :
    ∃ header, readLogHeader format bytes = .ok header := by
  have hfirst := hreadable (readLine newline bytes).1 (by rw [lines_of_ne_nil hne]; simp)
  simp only [readLogHeader]
  cases hdecode : decode (readLine newline bytes).1 with
  | error failure =>
      rw [hdecode] at hfirst
      contradiction
  | ok text => exact ⟨_, rfl⟩

/-- A header line has no entry, so skipping it loses none. -/
theorem drop_header {header : Nat × Nat} (hne : bytes ≠ [])
    (hheader : readLogHeader format bytes = .ok header) :
    header.2 ≤ bytes.length ∧
      (Readable (bytes.drop header.2) ↔ Readable bytes) ∧
      (lines newline (bytes.drop header.2)).filterMap (decodedEntry format) =
        (lines newline bytes).filterMap (decodedEntry format) := by
  simp only [readLogHeader] at hheader
  cases hdecode : decode (readLine newline bytes).1 with
  | error failure =>
      rw [hdecode] at hheader
      contradiction
  | ok text =>
      rw [hdecode] at hheader
      cases hepoch : format.epochHeader (trim text) with
      | none =>
          simp only [Except.map, hepoch, Except.ok.injEq] at hheader
          rw [← hheader]
          exact ⟨Nat.zero_le _, .rfl, rfl⟩
      | some epoch =>
          simp only [Except.map, hepoch, Except.ok.injEq] at hheader
          have hnone : decodedEntry format (readLine newline bytes).1 = none := by
            simp [decodedEntry, hdecode, lineEntry, hepoch]
          rw [← hheader]
          have hfirst : (decode (readLine newline bytes).1).isOk = true := by
            rw [hdecode]
            rfl
          refine ⟨?_, ?_, ?_⟩
          · have hsplit := congrArg List.length (readLine_split newline bytes)
            rw [List.length_append] at hsplit
            exact hsplit ▸ Nat.le_add_right _ _
          · rw [drop_readLine, Readable, Readable, lines_of_ne_nil hne, List.forall_mem_cons]
            exact ⟨fun hrest => ⟨hfirst, hrest⟩, And.right⟩
          · rw [drop_readLine, lines_of_ne_nil hne, List.filterMap_cons, hnone]

end Header

/-- The cursor has been moved past `seen` of the journal: it is at that place of
its epoch, or nothing was seen and it has not moved or is of another epoch. -/
def Reads (format : LineFormat) (cursor : LogCursor) (seen file : List UInt8) : Prop :=
  (∃ header, readLogHeader format file = .ok header ∧ cursor = ⟨header.1, seen.length⟩) ∨
    seen = [] ∧ (cursor.offset = 0 ∨
      ∀ header, readLogHeader format file = .ok header → cursor.epoch ≠ header.1)

theorem Reads.of_nil {cursor : LogCursor} {file : List UInt8}
    (hreads : Reads format cursor [] file) : cursor.offset = 0 ∨
      ∀ header, readLogHeader format file = .ok header → cursor.epoch ≠ header.1 := by
  rcases hreads with ⟨header, _, rfl⟩ | ⟨_, hfresh⟩
  · exact Or.inl rfl
  · exact hfresh

/-- A read of an empty part moves nothing along. -/
theorem readTail_nil {cursor : LogCursor} {file : List UInt8}
    (hreads : Reads format cursor [] file) :
    ∃ saved, readTail format [] cursor = .ok ([], saved) ∧
      Reads format (saved.getD cursor) [] file := by
  obtain ⟨epoch, hheader⟩ := exists_header_nil format
  have hread := readTail_of_start cursor hheader _ rfl (by simp [Readable])
  refine ⟨_, by simpa using hread, ?_⟩
  by_cases hepoch : epoch = cursor.epoch
  · rw [if_neg (by simp [hepoch])]
    exact Or.inr ⟨rfl, hreads.of_nil⟩
  · rw [if_pos (Or.inl hepoch)]
    exact Or.inr ⟨rfl, Or.inl (by simp [hepoch])⟩

/-- A read of a whole, grown part of the journal delivers what was not seen. -/
theorem readTail_reads {cursor : LogCursor} {seen bytes file : List UInt8}
    (hreads : Reads format cursor seen file) (hseen : Whole newline seen)
    (hgrown : seen <+: bytes) (hfile : bytes <+: file) (hwhole : Whole newline bytes)
    (hreadable : Readable bytes) :
    ∃ entries saved, readTail format bytes cursor = .ok (entries, saved) ∧
      (lines newline seen).filterMap (decodedEntry format) ++ entries =
        (lines newline bytes).filterMap (decodedEntry format) ∧
      Reads format (saved.getD cursor) bytes file := by
  by_cases hne : bytes = []
  · subst hne
    obtain rfl := List.prefix_nil.mp hgrown
    obtain ⟨saved, hread, hafter⟩ := readTail_nil hreads
    exact ⟨[], saved, hread, rfl, hafter⟩
  · obtain ⟨header, hheader⟩ := exists_header format hne hreadable
    have hsame : readLogHeader format file = .ok header :=
      (readLogHeader_append hwhole hne hfile).trans hheader
    rcases hreads with ⟨other, hother, rfl⟩ | ⟨rfl, hfresh⟩
    · -- The cursor stands behind what was seen of this epoch.
      obtain rfl := Except.ok.inj (hother.symm.trans hsame)
      obtain ⟨rest, rfl⟩ := hgrown
      have hrest : Readable rest := fun line hline =>
        hreadable line (by rw [lines_append hseen]; exact List.mem_append_right _ hline)
      have hread := readTail_of_start ⟨other.1, seen.length⟩ hheader seen.length
        (by simp) (by simpa using hrest)
      refine ⟨_, _, hread, ?_, Or.inl ⟨other, hother, ?_⟩⟩
      · rw [List.drop_left, lines_append hseen, List.filterMap_append]
      · split
        · simp
        · next hnot =>
            have hnil : rest = [] := by
              by_contra hrest
              have hpos := List.length_pos_iff.mpr hrest
              simp only [List.length_append] at hnot
              omega
            simp [hnil]
    · obtain ⟨hlen, hdrop, hentries⟩ := drop_header hne hheader
      by_cases hepoch : header.1 = cursor.epoch
      · -- The cursor has not moved in this epoch.
        have hzero : cursor.offset = 0 :=
          hfresh.resolve_right fun hother => hother header hsame hepoch.symm
        have hread := readTail_of_start cursor hheader 0
          (by rw [if_neg (by simp [hepoch]), hzero]) (by simpa using hreadable)
        refine ⟨_, _, hread, by simp, Or.inl ⟨header, hsame, ?_⟩⟩
        have hpos := List.length_pos_iff.mpr hne
        rw [if_pos (Or.inr (by omega))]
        simp
      · have hread := readTail_of_start cursor hheader header.2
          (by rw [if_pos hepoch]) (hdrop.mpr hreadable)
        refine ⟨_, _, hread, hentries, Or.inl ⟨header, hsame, ?_⟩⟩
        rw [if_pos (Or.inl hepoch), Option.getD_some, Nat.add_sub_of_le hlen]

end Tail

end Keeplin
