/-
The file writes of a sidecar mutator cut at any of its steps.  The payload and
the sidecar come first and the journal entry last, so a mutator that fails in
between has stored a version that no peer will learn of.
-/
import Keeplin.JournalAppend
import Mathlib.Data.List.Infix
import Mathlib.Data.List.TakeDrop

namespace Keeplin

open Lines VersionVector

/-- The files of a device and the bytes of its journal. -/
structure JournalledTree where
  tree : FsTree
  bytes : List UInt8

/-- The step at which a mutator fails. -/
inductive Cut where
  /-- A file cannot be read, or the call is refused. -/
  | reading
  /-- A file cannot be written, and is as it was. -/
  | write (position : Nat)
  /-- A payload, which is written in place, is written in part. -/
  | payload (position written : Nat)
  | openLog
  /-- The line is written or flushed in part. -/
  | appendLog (written : Nat)
  /-- The line is written, and the compaction that follows fails. -/
  | compaction
deriving DecidableEq, Repr

namespace Cut

/-- The writes that were made, if the mutator has such a step. -/
def writes (mutation : Mutation) : Cut → Option (List TreeWrite)
  | .reading => some []
  | .write position =>
      if position < mutation.writes.length then some (mutation.writes.take position) else none
  | .payload position written =>
      match mutation.writes[position]? with
      | some (.blob noteId hash data) =>
          some (mutation.writes.take position ++ [.blob noteId hash (data.take written)])
      | _ => none
  | .openLog | .appendLog _ | .compaction => some mutation.writes

/-- What was written of the journal's line. -/
def line (line : List UInt8) : Cut → List UInt8
  | .appendLog written => line.take written
  | .compaction => line
  | _ => []

/-- All of the entry's text is written, and the end of its line or not. -/
def Completes (text : List UInt8) : Cut → Prop
  | .appendLog written => text.length ≤ written
  | .compaction => True
  | _ => False

instance (text : List UInt8) (cut : Cut) : Decidable (cut.Completes text) :=
  match cut with
  | .appendLog written => inferInstanceAs (Decidable (text.length ≤ written))
  | .compaction => isTrue trivial
  | .reading | .write _ | .payload _ _ | .openLog => isFalse id

end Cut

namespace FsTree

/-- The stored bytes of the resource that is read, and where they lie. -/
def payloadKey (tree : FsTree) (id : Uuid) : Option (Uuid × String) :=
  match tree.readResourceSidecar id with
  | .ok (some (noteId, stored)) => some (noteId, stored.blobHash)
  | _ => none

def payload (tree : FsTree) (id : Uuid) : Option (List UInt8) :=
  (tree.payloadKey id).bind tree.blobs.file?

/-- Reads of the entity find the same in both trees. -/
def SameSeen (before after : FsTree) : Entity → Prop
  | .note id => after.mergeNote id = before.mergeNote id
  | .notebook id => after.notebooks.file? id = before.notebooks.file? id
  | .tag id => after.tags.file? id = before.tags.file? id
  | .noteTag noteId tagId => after.readAssocState noteId tagId = before.readAssocState noteId tagId
  | .resource id => after.readResourceSidecar id = before.readResourceSidecar id ∧
      after.payload id = before.payload id

/-- A write that reads of the entity notice: any of its sidecar, but for a
resource's that lies in a folder behind the one that is read, and one of other
bytes over the payload. -/
def Noticed (tree : FsTree) (place : Uuid → Nat) (entity : Entity) : TreeWrite → Prop
  | .resource noteId id _ => tree.listedFirst place noteId id = true
  | .blob noteId hash data => ∃ id, entity = .resource id ∧
      tree.payloadKey id = some (noteId, hash) ∧ tree.blobs.file? (noteId, hash) ≠ some data
  | _ => True

end FsTree

/-- A peer that reads the journal from its start is told of this version. -/
def TellsPeers (format : LineFormat) (bytes : List UInt8) (entity : Entity)
    (vv : VersionVector) : Prop :=
  ∃ entries saved, readTail format bytes .start = .ok (entries, saved) ∧
    ∃ entry ∈ entries, entry.Tells entity vv

def isBlank (bytes : List UInt8) : Bool :=
  match decode bytes with
  | .ok text => text.all isWhiteSpace
  | .error _ => false

/-- The lines of a journal that stay as they are behind what is appended. -/
def keptLines (bytes part : List UInt8) : List (List UInt8) :=
  if part = [] then lines newline bytes else completeLines newline bytes

/-- The journal before an append that is cut: it is a text, and the line is not cut
within a character; and a line that stays told the version before, or the entry is
written to its end behind nothing but blanks. -/
def Announces (format : LineFormat) (writer : LineWriter) (bytes : List UInt8)
    (entry : LogEntry) (entity : Entity) (vv : VersionVector) (cut : Cut) : Prop :=
  Readable bytes ∧ (decode (cut.line (writer.entryLine entry))).isOk = true ∧
    ((∃ line ∈ keptLines bytes (cut.line (writer.entryLine entry)), ∃ held,
        decodedEntry format line = some held ∧ held.Tells entity vv) ∨
      cut.Completes (writer.logEntry entry) ∧ isBlank (fragment newline bytes) = true)

section Cut

variable (format : LineFormat) (writer : LineWriter) (contentHash : List UInt8 → String)
  (place : Uuid → Nat) (ts now : DateTime)

/-- What a mutator that fails leaves, if it has the step it is to fail at. -/
def failedWrite (store : JournalledTree) (write : LocalWrite) (cut : Cut) :
    Option JournalledTree :=
  match store.tree.localWrite contentHash ts write with
  | some (.ok mutation) => (cut.writes mutation).map fun writes =>
      ⟨store.tree.performAll place writes,
        store.bytes ++ cut.line (writer.entryLine (mutation.record.at now))⟩
  | some (.error _) => if cut = .reading then some store else none
  | none => none

/-- Reads do not notice the failed write, or the journal tells the version it
was to store. -/
def WriteAccounted (store after : JournalledTree) (write : LocalWrite) : Prop :=
  store.tree.SameSeen after.tree write.entity ∨
    ∃ mutation, store.tree.localWrite contentHash ts write = some (.ok mutation) ∧
      TellsPeers format after.bytes write.entity mutation.record.data.vv

/-- The failure comes after a write that reads notice, and neither did the journal
tell the next version before nor is the entry's line complete. -/
def Untold (store : JournalledTree) (write : LocalWrite) (cut : Cut) : Prop :=
  ∃ mutation writes, store.tree.localWrite contentHash ts write = some (.ok mutation) ∧
    cut.writes mutation = some writes ∧
    (∃ made ∈ writes, store.tree.Noticed place write.entity made) ∧
    ¬Announces format writer store.bytes (mutation.record.at now) write.entity
      ((store.tree.slot write.entity).vv.increment store.tree.deviceId) cut

end Cut

namespace FsTree

variable {tree : FsTree} {place : Uuid → Nat}

theorem SameSeen.refl (tree : FsTree) (entity : Entity) : tree.SameSeen tree entity := by
  cases entity with
  | resource id => exact ⟨rfl, rfl⟩
  | note id | notebook id | tag id | noteTag noteId tagId => rfl

/-- The version of an entity is among what reads find. -/
theorem SameSeen.slot_eq {before after : FsTree} {entity : Entity}
    (hsame : before.SameSeen after entity) : after.slot entity = before.slot entity := by
  cases entity with
  | note id => rfl
  | notebook id => exact congrArg (sidecarSlot Notebook.version) hsame
  | tag id => exact congrArg (sidecarSlot Tag.version) hsame
  | noteTag noteId tagId => exact congrArg assocSlot hsame
  | resource id => simp only [slot, hsame.1]

theorem vv_ne_of_localVersion {entity : Entity} {before after : Slot} {device : String}
    {change : Change} (hversion : LocalVersion entity before after device change) :
    after ≠ before := by
  rintro rfl
  have hvv := hversion.vv
  rw [hversion.stored] at hvv
  have hdom := not_dominates_increment change.version.vv device
  simp only [Slot.vv] at hvv
  rw [← hvv, dominates_refl] at hdom
  contradiction

variable {mutation : Mutation} {cut : Cut} {writes : List TreeWrite}

/-- Of a single write that is no payload's, all is made or nothing. -/
theorem writes_single {write : TreeWrite} (hsingle : mutation.writes = [write])
    (hblob : ∀ noteId hash data, write ≠ .blob noteId hash data)
    (hcut : cut.writes mutation = some writes) : writes = [] ∨ writes = [write] := by
  cases cut with
  | reading => exact .inl (Option.some.inj hcut).symm
  | write position =>
      simp only [Cut.writes, hsingle] at hcut
      split at hcut
      · next hlt =>
          simp only [List.length_singleton, Nat.lt_one_iff] at hlt
          subst hlt
          exact .inl (Option.some.inj hcut).symm
      · contradiction
  | payload position written =>
      simp only [Cut.writes, hsingle] at hcut
      split at hcut
      · next noteId hash data hget =>
          rw [List.getElem?_singleton] at hget
          split at hget
          · exact absurd (Option.some.inj hget) (hblob noteId hash data)
          · contradiction
      · contradiction
  | openLog | appendLog written | compaction =>
      exact .inr ((Option.some.inj hcut).symm.trans hsingle)

theorem writes_payload {noteId : Uuid} {hash : String} {data : List UInt8} {write : TreeWrite}
    (hpair : mutation.writes = [.blob noteId hash data, write])
    (hblob : ∀ noteId hash data, write ≠ .blob noteId hash data)
    (hcut : cut.writes mutation = some writes) :
    writes = [] ∨ (∃ part, writes = [.blob noteId hash part]) ∨
      writes = [.blob noteId hash data, write] := by
  cases cut with
  | reading => exact .inl (Option.some.inj hcut).symm
  | write position =>
      simp only [Cut.writes, hpair] at hcut
      split at hcut
      · next hlt =>
          simp only [List.length_cons, List.length_nil, Nat.zero_add, Nat.reduceAdd] at hlt
          rcases Nat.lt_or_ge position 1 with hzero | hone
          · obtain rfl : position = 0 := by omega
            exact .inl (Option.some.inj hcut).symm
          · obtain rfl : position = 1 := by omega
            exact .inr (.inl ⟨data, (Option.some.inj hcut).symm⟩)
      · contradiction
  | payload position written =>
      simp only [Cut.writes, hpair] at hcut
      split at hcut
      · next blobNote blobHash blobData hget =>
          match position with
          | 0 =>
              simp only [List.getElem?_cons_zero, Option.some.injEq, TreeWrite.blob.injEq] at hget
              obtain ⟨rfl, rfl, rfl⟩ := hget
              exact .inr (.inl ⟨_, (Option.some.inj hcut).symm⟩)
          | 1 =>
              simp only [List.getElem?_cons_succ, List.getElem?_cons_zero] at hget
              exact absurd (Option.some.inj hget) (hblob blobNote blobHash blobData)
          | more + 2 => simp at hget
      · contradiction
  | openLog | appendLog written | compaction =>
      exact .inr (.inr ((Option.some.inj hcut).symm.trans hpair))

/-- A mutator of a sidecar with one place writes that sidecar and nothing else. -/
theorem localWrite_single {contentHash : List UInt8 → String} {ts : DateTime}
    {write : LocalWrite} (hsidecar : write.entity.hasSidecar = true)
    (hwrite : tree.localWrite contentHash ts write = some (.ok mutation)) :
    ∃ made, mutation.writes = [made] ∧ (∀ noteId hash data, made ≠ .blob noteId hash data) ∧
      ∀ place entity, tree.Noticed place entity made := by
  cases write with
  | createNotebook notebook =>
      obtain ⟨vv, -, rfl⟩ := exists_of_map_ok (Option.some.inj hwrite)
      exact ⟨_, rfl, by simp, fun _ _ => trivial⟩
  | updateNotebook notebook =>
      have hupdate : tree.updateNotebook notebook = .ok mutation := Option.some.inj hwrite
      simp only [updateNotebook] at hupdate
      split at hupdate
      · obtain ⟨vv, -, rfl⟩ := exists_of_map_ok hupdate
        exact ⟨_, rfl, by simp, fun _ _ => trivial⟩
      · contradiction
  | deleteNotebook id =>
      have hdelete : tree.deleteNotebook id ts = .ok mutation := Option.some.inj hwrite
      simp only [deleteNotebook] at hdelete
      split at hdelete
      · contradiction
      · contradiction
      · cases hdelete
        exact ⟨_, rfl, by simp, fun _ _ => trivial⟩
  | createTag tag =>
      obtain ⟨vv, -, rfl⟩ := exists_of_map_ok (Option.some.inj hwrite)
      exact ⟨_, rfl, by simp, fun _ _ => trivial⟩
  | updateTag tag =>
      have hupdate : tree.updateTag tag = .ok mutation := Option.some.inj hwrite
      simp only [updateTag] at hupdate
      split at hupdate
      · obtain ⟨vv, -, rfl⟩ := exists_of_map_ok hupdate
        exact ⟨_, rfl, by simp, fun _ _ => trivial⟩
      · contradiction
  | deleteTag id =>
      have hdelete : tree.deleteTag id ts = .ok mutation := Option.some.inj hwrite
      simp only [deleteTag] at hdelete
      split at hdelete
      · contradiction
      · contradiction
      · cases hdelete
        exact ⟨_, rfl, by simp, fun _ _ => trivial⟩
  | addNoteTag noteTag =>
      have hadd : tree.addNoteTag noteTag ts = .ok mutation := Option.some.inj hwrite
      simp only [addNoteTag] at hadd
      repeat' split at hadd
      all_goals first | contradiction | skip
      cases hadd
      exact ⟨_, rfl, by simp, fun _ _ => trivial⟩
  | removeNoteTag noteId tagId =>
      cases hwrite
      exact ⟨_, rfl, by simp, fun _ _ => trivial⟩
  | createNote note | updateNote note | deleteNote id | createResource resource data
  | deleteResource id => contradiction

theorem createResource_writes {contentHash : List UInt8 → String} {resource : Resource}
    {data : List UInt8} (hwrite : tree.createResource contentHash resource data = .ok mutation) :
    ∃ stored : StoredResource, mutation.writes =
        [.blob resource.noteId (contentHash data) data,
          .resource resource.noteId resource.id stored] ∧
      mutation.record.data.vv = stored.resource.vv ∧
      stored.resource.vv = (tree.slot (.resource resource.id)).vv.increment tree.deviceId := by
  obtain ⟨vv, hnext, rfl⟩ := exists_of_map_ok hwrite
  exact ⟨_, rfl, rfl, nextResourceVv_ok hnext⟩

theorem deleteResource_writes {id : Uuid} {ts : DateTime}
    (hwrite : tree.deleteResource id ts = .ok mutation) :
    ∃ noteId stored, mutation.writes = [.resource noteId id stored] ∧
      (∀ place, tree.listedFirst place noteId id = true) ∧
      stored.resource.vv = (tree.slot (.resource id)).vv.increment tree.deviceId := by
  simp only [deleteResource] at hwrite
  split at hwrite
  · contradiction
  · contradiction
  · next noteId stored hread =>
      cases hwrite
      refine ⟨noteId, _, rfl, fun place => ?_, ?_⟩
      · exact tree.listedFirst_of_locate place noteId id (tree.locate_of_read_some hread)
      · simp only [slot, hread]
        rfl

/-- A resource write that is read stores a version that was not there. -/
theorem not_sameSeen_resource {noteId id : Uuid} {stored : StoredResource} {after : FsTree}
    (hfirst : after.listedFirst place noteId id = true)
    (hvv : stored.resource.vv = (tree.slot (.resource id)).vv.increment tree.deviceId) :
    ¬tree.SameSeen (after.perform place (.resource noteId id stored)) (.resource id) := by
  intro hsame
  have hslot := hsame.slot_eq
  rw [after.slot_of_resourceWrite place noteId id stored, if_pos hfirst] at hslot
  have hdom := not_dominates_increment (tree.slot (.resource id)).vv tree.deviceId
  rw [← hvv, ← hslot] at hdom
  simp only [Slot.vv, Resource.version, dominates_refl] at hdom
  contradiction

/-- A payload of another folder is not the one that is read. -/
theorem payloadKey_ne_of_not_listedFirst {noteId id : Uuid}
    (hlater : tree.listedFirst place noteId id = false) (hash : String) :
    tree.payloadKey id ≠ some (noteId, hash) := by
  intro hkey
  simp only [payloadKey] at hkey
  split at hkey
  · next located stored hread =>
      obtain ⟨rfl, -⟩ := Prod.mk.inj (Option.some.inj hkey)
      rw [tree.listedFirst_of_locate place located id (tree.locate_of_read_some hread)] at hlater
      contradiction
  · contradiction

/-- Reads notice other bytes over the payload they find, and nothing else that
is done to a payload. -/
theorem sameSeen_blob_iff (place : Uuid → Nat) {noteId id : Uuid} {hash : String}
    {data : List UInt8} :
    tree.SameSeen (tree.perform place (.blob noteId hash data)) (.resource id) ↔
      ¬(tree.payloadKey id = some (noteId, hash) ∧
        tree.blobs.file? (noteId, hash) ≠ some data) := by
  have hread : (tree.perform place (.blob noteId hash data)).readResourceSidecar id =
      tree.readResourceSidecar id := rfl
  have hkey : (tree.perform place (.blob noteId hash data)).payloadKey id =
      tree.payloadKey id := rfl
  have hblobs : (tree.perform place (.blob noteId hash data)).blobs =
      tree.blobs.put tree.blobs.length (noteId, hash) data := rfl
  simp only [SameSeen, hread, true_and, payload, hkey, hblobs]
  cases hfound : tree.payloadKey id with
  | none => simp
  | some key =>
      simp only [Option.bind_some, Directory.file?_put, Option.some.injEq]
      by_cases hsame : (noteId, hash) = key
      · subst hsame
        simp [eq_comm]
      · simp [hsame, Ne.symm hsame]

/-- A resource written to a folder behind the one that is read is not seen. -/
theorem sameSeen_behind {noteId id : Uuid}
    (hlater : tree.listedFirst place noteId id = false) (hash : String) (data : List UInt8)
    (stored : StoredResource) :
    tree.SameSeen (tree.performAll place [.blob noteId hash data, .resource noteId id stored])
      (.resource id) := by
  let middle := tree.perform place (.blob noteId hash data)
  have hread : (middle.perform place (.resource noteId id stored)).readResourceSidecar id =
      tree.readResourceSidecar id :=
    middle.readResourceSidecar_of_not_listedFirst place noteId id stored hlater
  have hkey : (middle.perform place (.resource noteId id stored)).payloadKey id =
      tree.payloadKey id := by
    simp only [payloadKey, hread]
  have hblobs : (middle.perform place (.resource noteId id stored)).blobs =
      tree.blobs.put tree.blobs.length (noteId, hash) data := rfl
  have hpayload : (middle.perform place (.resource noteId id stored)).payload id =
      tree.payload id := by
    rw [payload, payload, hkey, hblobs]
    cases hfound : tree.payloadKey id with
    | none => rfl
    | some key =>
        have hne : (noteId, hash) ≠ key := by
          rintro rfl
          exact payloadKey_ne_of_not_listedFirst hlater hash hfound
        rw [Option.bind_some, Option.bind_some, Directory.file?_put, if_neg hne]
  exact ⟨hread, hpayload⟩

/-- Reads of an entity notice a failed write of it exactly when one of the files
that were written is noticed. -/
theorem sameSeen_iff {contentHash : List UInt8 → String} {ts : DateTime} {write : LocalWrite}
    (hwrite : tree.localWrite contentHash ts write = some (.ok mutation))
    (hcut : cut.writes mutation = some writes) :
    tree.SameSeen (tree.performAll place writes) write.entity ↔
      ¬∃ made ∈ writes, tree.Noticed place write.entity made := by
  by_cases hsidecar : write.entity.hasSidecar = true
  · obtain ⟨made, hsingle, hblob, hnoticed⟩ := localWrite_single hsidecar hwrite
    rcases writes_single hsingle hblob hcut with rfl | rfl
    · exact iff_of_true (SameSeen.refl tree _) (by simp)
    · obtain ⟨change, hwrote⟩ := localWrite_wrote place ts hsidecar hwrite
      have hversion := hwrote.version
      rw [hsingle] at hversion
      exact iff_of_false (fun hsame => vv_ne_of_localVersion hversion hsame.slot_eq)
        (fun hnone => hnone ⟨made, by simp, hnoticed place _⟩)
  · cases write with
    | createResource resource data =>
        obtain ⟨stored, hpair, -, hvv⟩ := createResource_writes (Option.some.inj hwrite)
        rcases writes_payload hpair (by simp) hcut with rfl | ⟨part, rfl⟩ | rfl
        · exact iff_of_true (SameSeen.refl tree _) (by simp)
        · simp only [List.mem_singleton, exists_eq_left, Noticed, LocalWrite.entity,
            Entity.resource.injEq, exists_eq_left']
          exact sameSeen_blob_iff place
        · cases hfirst : tree.listedFirst place resource.noteId resource.id with
          | true =>
              exact iff_of_false (not_sameSeen_resource hfirst hvv) (fun hnone =>
                hnone ⟨.resource resource.noteId resource.id stored, by simp, hfirst⟩)
          | false =>
              refine iff_of_true (sameSeen_behind hfirst _ data stored) ?_
              rintro ⟨made, hmade, hnoticed⟩
              simp only [List.mem_cons, List.not_mem_nil, or_false] at hmade
              rcases hmade with rfl | rfl
              · obtain ⟨id, hid, hkey, -⟩ := hnoticed
                obtain rfl := Entity.resource.inj hid
                exact payloadKey_ne_of_not_listedFirst hfirst _ hkey
              · simp only [Noticed, hfirst] at hnoticed
                contradiction
    | deleteResource id =>
        obtain ⟨noteId, stored, hsingle, hfirst, hvv⟩ :=
          deleteResource_writes (Option.some.inj hwrite)
        rcases writes_single hsingle (by simp) hcut with rfl | rfl
        · exact iff_of_true (SameSeen.refl tree _) (by simp)
        · exact iff_of_false (not_sameSeen_resource (hfirst place) hvv)
            (fun hnone => hnone ⟨.resource noteId id stored, by simp, hfirst place⟩)
    | createNote note | updateNote note | deleteNote id => contradiction
    | createNotebook notebook | updateNotebook notebook | deleteNotebook id | createTag tag
    | updateTag tag | deleteTag id | addNoteTag noteTag | removeNoteTag noteId tagId =>
        exact absurd rfl hsidecar

end FsTree

section Told

variable {format : LineFormat} {writer : LineWriter} {bytes : List UInt8} {entry : LogEntry}

/-- A peer is told of what a line of a journal of texts tells. -/
theorem tellsPeers_iff {entity : Entity} {vv : VersionVector} :
    TellsPeers format bytes entity vv ↔
      Readable bytes ∧ ∃ line ∈ lines newline bytes, ∃ held,
        decodedEntry format line = some held ∧ held.Tells entity vv := by
  constructor
  · rintro ⟨entries, saved, hread, held, hheld, htells⟩
    have hreadable := readable_of_readTail_start hread
    obtain ⟨other, hother⟩ := readTail_start format hreadable
    obtain ⟨rfl, -⟩ := Prod.mk.inj (Except.ok.inj (hread.symm.trans hother))
    obtain ⟨line, hline, hentry⟩ := List.mem_filterMap.mp hheld
    exact ⟨hreadable, line, hline, held, hentry, htells⟩
  · rintro ⟨hreadable, line, hline, held, hentry, htells⟩
    obtain ⟨saved, hread⟩ := readTail_start format hreadable
    exact ⟨_, saved, hread, held, List.mem_filterMap.mpr ⟨line, hline, hentry⟩, htells⟩

/-- Nothing is written of the line, or a part of its text that is all of it where
its end is written. -/
theorem Cut.line_cases {text : List UInt8} (hne : text ≠ []) (cut : Cut) :
    (cut.line (text ++ [newline]) = [] ∧ ¬cut.Completes text) ∨
      ∃ part ending, part ≠ [] ∧ part <+: text ∧ (ending = [] ∨ ending = [newline]) ∧
        cut.line (text ++ [newline]) = part ++ ending ∧
        (cut.Completes text ↔ part = text) := by
  cases cut with
  | reading | write position | payload position written | openLog => exact .inl ⟨rfl, id⟩
  | compaction =>
      exact .inr ⟨text, [newline], hne, List.prefix_rfl, .inr rfl, rfl,
        iff_of_true trivial rfl⟩
  | appendLog written =>
      simp only [line, Completes]
      by_cases hzero : written = 0
      · have hlength := List.length_pos_iff.mpr hne
        exact .inl ⟨by rw [hzero, List.take_zero], by omega⟩
      · right
        by_cases hwritten : text.length < written
        · refine ⟨text, [newline], hne, List.prefix_rfl, .inr rfl, ?_,
            iff_of_true (Nat.le_of_lt hwritten) rfl⟩
          exact List.take_of_length_le (by simpa using Nat.succ_le_of_lt hwritten)
        · refine ⟨text.take written, [], ?_, List.take_prefix _ _, .inl rfl, ?_, ?_⟩
          · simp [hne, hzero]
          · rw [List.append_nil, List.take_append_of_le_length (Nat.le_of_not_lt hwritten)]
          · rw [List.take_eq_self_iff]

/-- What is written of a line is a part of a text. -/
theorem Cut.line_prefix (line : List UInt8) (cut : Cut) : cut.line line <+: line := by
  cases cut with
  | reading | write position | payload position written | openLog => exact List.nil_prefix
  | compaction => exact List.prefix_rfl
  | appendLog written => exact List.take_prefix _ _

theorem forall_mem_fragment_iff :
    (∀ line ∈ lines newline (fragment newline bytes), (decode line).isOk = true) ↔
      (decode (fragment newline bytes)).isOk = true := by
  by_cases hnil : fragment newline bytes = []
  · rw [hnil]
    exact iff_of_true (List.forall_mem_nil _) rfl
  · rw [lines_of_notMem (notMem_fragment newline bytes) hnil, List.forall_mem_singleton]

theorem isOk_decode_fragment (hreadable : Readable bytes) :
    (decode (fragment newline bytes)).isOk = true := by
  rw [Readable, lines_eq_wholePart, List.forall_mem_append] at hreadable
  exact forall_mem_fragment_iff.mp hreadable.2

theorem Readable.append_iff {part ending : List UInt8} {text : Text} (hpart : newline ∉ part)
    (hne : part ≠ []) (hending : ending = [] ∨ ending = [newline])
    (htext : part ++ ending <+: utf8 text) :
    Readable (bytes ++ (part ++ ending)) ↔
      Readable bytes ∧ (decode (part ++ ending)).isOk = true := by
  rw [Readable, Readable, lines_append_fragment hpart hne hending, List.forall_mem_append,
    List.forall_mem_singleton, isOk_decode_append htext, lines_eq_wholePart, List.forall_mem_append,
    forall_mem_fragment_iff, completeLines_eq_wholePart, and_assoc]

/-- A part of a line and what follows it are texts if both together are one. -/
theorem exists_utf8_ending {part ending : List UInt8} (hending : ending = [] ∨ ending = [newline])
    (hread : (decode (part ++ ending)).isOk = true) :
    ∃ text back, part = utf8 text ∧ ending = utf8 back ∧ ∀ c ∈ back, isWhiteSpace c = true := by
  obtain ⟨whole, hwhole⟩ := isOk_decode.mp hread
  rcases hending with rfl | rfl
  · rw [List.append_nil] at hwhole
    exact ⟨whole, [], hwhole, rfl, List.forall_mem_nil _⟩
  · have hfirst : ∀ byte, [newline].head? = some byte → byte.IsUTF8FirstByte := by
      intro byte hbyte
      obtain rfl := Option.some.inj hbyte
      decide
    obtain ⟨text, back, htext, hback, -⟩ := exists_utf8_append hwhole hfirst
    have hsame : back = ['\n'] := utf8_inj.mp (hback.symm.trans rfl)
    exact ⟨text, back, htext, hback, hsame ▸ List.forall_mem_singleton.mpr rfl⟩

theorem LineWriter.Rereads.ne_nil (hrereads : writer.Rereads format entry) :
    writer.logEntry entry ≠ [] := by
  intro hnil
  have hline : writer.entryLine entry = utf8 ['\n'] := by
    rw [LineWriter.entryLine, hnil]
    rfl
  have hentry := hrereads.2
  have hblank : trim ['\n'] = [] := by decide
  rw [hline, decodedEntry_utf8, lineEntry, hblank, if_pos (.inl rfl)] at hentry
  contradiction

/-- The line that is begun is read as the entry if it is the whole entry and has
nothing but blanks before it, and as none otherwise. -/
theorem LineWriter.Delimits.decodedEntry_eq (hdelimits : writer.Delimits format entry)
    {front part ending : List UInt8} (hne : part ≠ []) (hpart : part <+: writer.logEntry entry)
    (hending : ending = [] ∨ ending = [newline]) (hfront : (decode front).isOk = true)
    (hread : (decode (part ++ ending)).isOk = true) :
    decodedEntry format (front ++ (part ++ ending)) =
      if part = writer.logEntry entry ∧ isBlank front = true then some entry else none := by
  obtain ⟨before, rfl⟩ := isOk_decode.mp hfront
  obtain ⟨text, back, rfl, rfl, hback⟩ := exists_utf8_ending hending hread
  have hline : decodedEntry format (utf8 before ++ (utf8 text ++ utf8 back)) =
      lineEntry format (before ++ text) := by
    rw [← utf8_append, ← utf8_append, decodedEntry_utf8, ← List.append_assoc]
    exact lineEntry_congr (trim_append_blank hback)
  have hblank : isBlank (utf8 before) = true ↔ ∀ c ∈ before, isWhiteSpace c = true := by
    rw [isBlank, decode_utf8, List.all_eq_true]
  rw [hline]
  split
  · next hwhole =>
      obtain ⟨hfull, hbefore⟩ := hwhole
      rw [hblank] at hbefore
      have hentry := hdelimits.rereads.2
      rw [LineWriter.entryLine, ← hfull, utf8_line, decodedEntry_utf8] at hentry
      have hend : ∀ c ∈ ['\n'], isWhiteSpace c = true := List.forall_mem_singleton.mpr rfl
      rw [lineEntry_congr (trim_append_of_blank hbefore), ← hentry]
      exact lineEntry_congr (trim_append_blank hend).symm
  · next hpartial =>
      refine hdelimits.cut before text (fun hnil => hne (hnil ▸ rfl)) hpart fun hfull => ?_
      by_contra hnone
      push Not at hnone
      exact hpartial ⟨hfull, hblank.mpr fun c hc => Bool.eq_true_of_not_eq_false (hnone c hc)⟩

/-- What was written of the line tells the peers exactly where the journal before
and the cut announce it. -/
theorem tellsPeers_iff_announces {entity : Entity} {vv : VersionVector} {cut : Cut}
    (hdelimits : writer.Delimits format entry) (htells : entry.Tells entity vv) :
    TellsPeers format (bytes ++ cut.line (writer.entryLine entry)) entity vv ↔
      Announces format writer bytes entry entity vv cut := by
  obtain ⟨text, htext⟩ : ∃ text, writer.entryLine entry = utf8 text :=
    isOk_decode.mp (decode_ok_of_entry hdelimits.rereads.2)
  have hprefix : cut.line (writer.entryLine entry) <+: utf8 text :=
    htext ▸ cut.line_prefix (writer.entryLine entry)
  rw [tellsPeers_iff, Announces]
  rcases cut.line_cases hdelimits.rereads.ne_nil with
    ⟨hnil, hcut⟩ | ⟨part, ending, hpart, hpre, hending, hline, hcut⟩
  · have hdecode : (decode []).isOk = true := rfl
    simp only [LineWriter.entryLine, hnil, List.append_nil, keptLines, if_true, hdecode, hcut,
      false_and, or_false, true_and]
  · have hline : cut.line (writer.entryLine entry) = part ++ ending := hline
    have hsome : part ++ ending ≠ [] := List.append_ne_nil_of_left_ne_nil hpart _
    have honeLine : newline ∉ part := fun hmem => hdelimits.rereads.1 (hpre.subset hmem)
    rw [hline] at hprefix ⊢
    rw [Readable.append_iff honeLine hpart hending hprefix, and_assoc, keptLines, if_neg hsome,
      lines_append_fragment honeLine hpart hending, hcut]
    refine and_congr_right fun hreadable => and_congr_right fun hread => ?_
    have hfront := isOk_decode_fragment hreadable
    have hentry := hdelimits.decodedEntry_eq hpart hpre hending hfront hread
    simp only [List.mem_append, List.mem_singleton, or_and_right, exists_or, exists_eq_left, hentry]
    refine or_congr_right ?_
    split
    · next hwhole => exact iff_of_true ⟨entry, rfl, htells⟩ hwhole
    · next hpartial => exact iff_of_false (by simp) hpartial

end Told

/-- A mutator that fails leaves what reads find as it was, or tells the peers,
exactly when it does not fail behind a noticed write with its version neither in the
journal before nor in a complete line. -/
theorem accounted_iff {format : LineFormat} {writer : LineWriter}
    {contentHash : List UInt8 → String} {place : Uuid → Nat} {ts now : DateTime}
    {store after : JournalledTree} {write : LocalWrite} {cut : Cut}
    (hdelimits : ∀ mutation, store.tree.localWrite contentHash ts write = some (.ok mutation) →
      writer.Delimits format (mutation.record.at now))
    (hfailed : failedWrite writer contentHash place ts now store write cut = some after) :
    WriteAccounted format contentHash ts store after write ↔
      ¬Untold format writer contentHash place ts now store write cut := by
  simp only [failedWrite] at hfailed
  split at hfailed
  · next mutation hwrite =>
      obtain ⟨writes, hcut, rfl⟩ := Option.map_eq_some_iff.mp hfailed
      have hprepared := FsTree.localWrite_prepared hwrite
      have htells : TellsPeers format _ _ _ ↔
          Announces format writer store.bytes (mutation.record.at now) _ _ cut :=
        tellsPeers_iff_announces (hdelimits mutation hwrite) (hprepared.told now)
      simp only [WriteAccounted, Untold, hwrite, hcut, FsTree.sameSeen_iff hwrite hcut,
        Option.some.injEq, Except.ok.injEq, exists_eq_left', exists_and_left,
        ← hprepared.next, htells]
      rw [not_and, not_not, imp_iff_not_or]
  · next failure hwrite =>
      split at hfailed
      · obtain rfl := Option.some.inj hfailed
        refine iff_of_true (.inl (FsTree.SameSeen.refl _ _)) ?_
        rintro ⟨mutation, writes, hother, -⟩
        rw [hwrite, Option.some.injEq] at hother
        contradiction
      · contradiction
  · contradiction

namespace JournalledWritesWitness

open JournalAppendWitness

def store : JournalledTree := ⟨start.world.tree, []⟩

theorem dropWhile_append_solid {part rest : Text} (hne : part ≠ [])
    (hsolid : ∀ c ∈ part, isWhiteSpace c = false) :
    (part ++ rest).dropWhile isWhiteSpace = part ++ rest := by
  cases part with
  | nil => contradiction
  | cons c more => exact List.dropWhile_cons_of_neg (by simp [hsolid c List.mem_cons_self])

/-- Behind a front, a text without blanks is trimmed only there. -/
theorem trim_append_solid {front part : Text} (hne : part ≠ [])
    (hsolid : ∀ c ∈ part, isWhiteSpace c = false) :
    trim (front ++ part) = front.dropWhile isWhiteSpace ++ part := by
  have hpart : (part ++ []).dropWhile isWhiteSpace = part ++ [] :=
    dropWhile_append_solid hne hsolid
  rw [List.append_nil] at hpart
  have hdrop : (front ++ part).dropWhile isWhiteSpace = front.dropWhile isWhiteSpace ++ part := by
    rw [List.dropWhile_append]
    split
    · next hblank => rw [List.isEmpty_iff.mp hblank, hpart, List.nil_append]
    · rfl
  have hback : ∀ c ∈ part.reverse, isWhiteSpace c = false :=
    fun c hc => hsolid c (List.mem_reverse.mp hc)
  rw [trim, hdrop, List.reverse_append,
    dropWhile_append_solid (List.reverse_ne_nil_iff.mpr hne) hback, ← List.reverse_append,
    List.reverse_reverse]

/-- No end of a written entry but the whole of the first begins the first. -/
theorem tails_of_texts : ∀ pair ∈ texts, ∀ tail ∈ pair.2.tails, tail ≠ [] →
    tail <+: entryText '7' '2' → tail = pair.2 ∧ pair.2 = entryText '7' '2' := by
  decide +kernel

theorem delimits_7 : writer.Delimits format (entry 7 2) where
  rereads := rereads_7
  cut front part hne hpart hfront := by
    have hwritten : writer.logEntry (entry 7 2) = utf8 (entryText '7' '2') := rfl
    rw [hwritten] at hpart hfront
    have hbegins := utf8_prefix_iff.mp hpart
    have hsolid : ∀ c ∈ part, isWhiteSpace c = false := by
      have hall : (entryText '7' '2').all (fun c => !isWhiteSpace c) = true := by decide +kernel
      exact fun c hc => by simpa using List.all_eq_true.mp hall c (hbegins.subset hc)
    have hother : ∀ pair ∈ texts, ¬pair.2 = front.dropWhile isWhiteSpace ++ part := by
      intro pair hpair hsame
      have htail : part ∈ pair.2.tails := by
        rw [List.mem_tails, hsame]
        exact List.suffix_append _ _
      obtain ⟨hwhole, hfirst⟩ := tails_of_texts pair hpair part htail hne hbegins
      obtain ⟨c, hc, hsolid⟩ := hfront (congrArg utf8 (hwhole.trans hfirst))
      rw [← hwhole, List.self_eq_append_left] at hsame
      exact absurd (List.dropWhile_eq_nil_iff.mp hsame c hc) (Bool.eq_false_iff.mp hsolid)
    have hnone : texts.find? (fun pair => pair.2 = front.dropWhile isWhiteSpace ++ part) = none :=
      List.find?_eq_none.mpr (by simpa using hother)
    simp only [lineEntry, trim_append_solid hne hsolid, format, hnone, Option.map_none, ite_self]

theorem delimits (mutation : Mutation)
    (hwrite : store.tree.localWrite (fun _ => "") 1 (.removeNoteTag 5 7) = some (.ok mutation)) :
    writer.Delimits format (mutation.record.at 2) := by
  obtain rfl := Except.ok.inj (Option.some.inj hwrite)
  exact delimits_7

theorem not_untold_compaction :
    ¬Untold format writer (fun _ => "") (fun _ => 0) 1 2 store (.removeNoteTag 5 7)
      .compaction := by
  rintro ⟨mutation, writes, hwrite, -, -, hannounces⟩
  obtain rfl := Except.ok.inj (Option.some.inj hwrite)
  exact hannounces ⟨List.forall_mem_nil _, decode_ok_of_entry rereads_7.2,
    .inr ⟨trivial, by decide⟩⟩

/-- A tag is detached, and the journal cannot be opened, or cannot be compacted once
the entry is in it. -/
theorem accounted_iff_openLog :
    (∃ after, failedWrite writer (fun _ => "") (fun _ => 0) 1 2 store (.removeNoteTag 5 7)
        .openLog = some after ∧
      (WriteAccounted format (fun _ => "") 1 store after (.removeNoteTag 5 7) ↔
        ¬Untold format writer (fun _ => "") (fun _ => 0) 1 2 store (.removeNoteTag 5 7)
          .openLog)) ∧
      ∃ after, failedWrite writer (fun _ => "") (fun _ => 0) 1 2 store (.removeNoteTag 5 7)
        .compaction = some after ∧
      WriteAccounted format (fun _ => "") 1 store after (.removeNoteTag 5 7) :=
  ⟨⟨_, rfl, accounted_iff delimits rfl⟩,
    ⟨_, rfl, (accounted_iff delimits rfl).mpr not_untold_compaction⟩⟩

/-- The tag is seen to be detached, and the journal tells nobody. -/
theorem openLog_not_accounted :
    ¬∀ (format : LineFormat) (writer : LineWriter) (contentHash : List UInt8 → String)
      (place : Uuid → Nat) (ts now : DateTime) (store after : JournalledTree)
      (write : LocalWrite) (cut : Cut),
      (∀ mutation, store.tree.localWrite contentHash ts write = some (.ok mutation) →
        writer.Delimits format (mutation.record.at now)) →
      failedWrite writer contentHash place ts now store write cut = some after →
      WriteAccounted format contentHash ts store after write := by
  intro haccounted
  rcases haccounted format writer (fun _ => "") (fun _ => 0) 1 2 store _ (.removeNoteTag 5 7)
    .openLog delimits rfl with hsame | ⟨mutation, -, entries, saved, hread, entry, hentry, -⟩
  · have hstate : store.tree.readAssocState 5 7 =
        some ⟨1, some 1, (∅ : VersionVector).increment "A", "A"⟩ := Eq.symm hsame
    revert hstate
    decide
  · obtain ⟨rfl, -⟩ := Prod.mk.inj (Except.ok.inj hread)
    exact List.not_mem_nil hentry

end JournalledWritesWitness

end Keeplin
