/-
The mutators of notes in the filesystem store.  Each appends one operation to
the device's own log, which then wins the merge, projects the merge and carries
the note's resources along.
-/
import Keeplin.NoteCausality
import Keeplin.LostChanges
import Keeplin.Snapshot

namespace Keeplin

open VersionVector

/-- Some log of the note has content for it. -/
def hasUpsert (logs : List NoteLog) : Prop :=
  ∃ log ∈ logs, ∃ entry ∈ log, NoteLogEntry.isUpsert entry = true

section Append

variable {device : String} {timestamp : DateTime} {op : NoteOp} {before dir : NoteDir}
  {entry : NoteLogEntry} {logs : List NoteLog} {log : NoteLog}

theorem getLast?_compactOwnLog (log : NoteLog) :
    (compactOwnLog log).getLast? = log.getLast? := by
  unfold compactOwnLog
  split
  · rfl
  cases hhead : log.getLast? with
  | none => exact hhead
  | some head =>
      simp only
      split
      · rfl
      · split <;> rfl

/-- Compaction keeps an upsert if there is one. -/
theorem exists_upsert_compactOwnLog (hupsert : ∃ entry ∈ log, entry.isUpsert = true) :
    ∃ entry ∈ compactOwnLog log, entry.isUpsert = true := by
  unfold compactOwnLog
  split
  · exact hupsert
  cases hhead : log.getLast? with
  | none => exact hupsert
  | some head =>
      simp only
      split
      · next hmax =>
          -- Without a newest upsert the log has none.
          obtain ⟨entry, hentry, hop⟩ := hupsert
          obtain ⟨position, hplace⟩ := List.mem_iff_getElem?.mp hentry
          have hnone := (maxBy_eq_none_iff _).mp hmax
          rw [List.filter_eq_nil_iff] at hnone
          exact absurd hop (hnone (entry, position)
            (List.mk_mem_zipIdx_iff_getElem?.mpr hplace))
      · next newest position hmax =>
          obtain ⟨hplace, hop⟩ := List.mem_filter.mp (maxBy_mem _ hmax)
          split
          · next hlast =>
              have hfound := List.mk_mem_zipIdx_iff_getElem?.mp hplace
              rw [hlast, ← List.getLast?_eq_getElem?, hhead, Option.some.injEq] at hfound
              exact ⟨head, List.mem_singleton_self head, hfound ▸ hop⟩
          · exact ⟨newest, List.mem_cons_self, hop⟩

theorem latestUpsert_isSome_iff : (latestUpsert logs).isSome = true ↔ hasUpsert logs := by
  unfold latestUpsert hasUpsert
  rw [Option.isSome_map, Option.isSome_iff_ne_none, Ne, maxBy_eq_none_iff,
    List.filterMap_eq_nil_iff]
  push Not
  constructor
  · rintro ⟨entry, hentry, hne⟩
    obtain ⟨log, hlog, hmem⟩ := List.mem_flatten.mp hentry
    refine ⟨log, hlog, entry, hmem, ?_⟩
    cases hop : entry.op with
    | upsert note => simp [NoteLogEntry.isUpsert, hop]
    | tombstone deletedAt => simp [NoteLogEntry.upsert?, hop] at hne
  · rintro ⟨log, hlog, entry, hmem, hop⟩
    refine ⟨entry, List.mem_flatten.mpr ⟨log, hlog, hmem⟩, ?_⟩
    cases hop' : entry.op with
    | upsert note => simp [NoteLogEntry.upsert?, hop']
    | tombstone deletedAt => simp [NoteLogEntry.isUpsert, hop'] at hop

/-- A merge has a note exactly if some log has content for it. -/
theorem merge_note_isSome {merged : Merged} (hmerge : merge logs = some merged) :
    merged.note.isSome = true ↔ hasUpsert logs := by
  unfold merge at hmerge
  split at hmerge
  · next hempty =>
      obtain rfl := Option.some.inj hmerge
      rw [List.isEmpty_iff] at hempty
      constructor
      · intro hsome
        cases hsome
      · rintro ⟨log, hlog, entry, hentry, _⟩
        have hnone := List.filterMap_eq_nil_iff.mp hempty log hlog
        rw [List.getLast?_eq_none_iff] at hnone
        rw [hnone] at hentry
        exact absurd hentry List.not_mem_nil
  · obtain ⟨winner, hwinner, rfl⟩ := Option.map_eq_some_iff.mp hmerge
    simp only [resolvedNote]
    cases hop : winner.op with
    | upsert note =>
        have hhead := (mem_frontier_iff.mp (maxBy_mem _ hwinner)).1
        obtain ⟨log, hlog, hlast⟩ := List.mem_filterMap.mp hhead
        have hupsert : hasUpsert logs :=
          ⟨log, hlog, winner, List.mem_of_getLast? hlast, by simp [NoteLogEntry.isUpsert, hop]⟩
        simp [hupsert]
    | tombstone deletedAt => rw [Option.isSome_map, latestUpsert_isSome_iff]

theorem ownLog_of_append (happend : appendNoteOp device timestamp op before = some (entry, dir)) :
    ∃ log, dir = writeNoteLog before device log ∧ log.getLast? = some entry ∧ entry.op = op ∧
      ((∃ old ∈ ownNoteLog before device, old.isUpsert = true) →
        ∃ kept ∈ log, kept.isUpsert = true) := by
  obtain ⟨merged, hmerged, heq⟩ := Option.map_eq_some_iff.mp happend
  obtain ⟨rfl, rfl⟩ := Prod.mk.inj heq
  refine ⟨_, rfl, ?_, rfl, ?_⟩
  · split
    · rw [getLast?_compactOwnLog, List.getLast?_concat]
    · rw [List.getLast?_concat]
  · rintro ⟨old, hold, hop⟩
    have hmem : ∀ last : NoteLogEntry,
        ∃ entry ∈ ownNoteLog before device ++ [last], entry.isUpsert = true :=
      fun last => ⟨old, List.mem_append_left _ hold, hop⟩
    split
    · exact exists_upsert_compactOwnLog (hmem _)
    · exact hmem _

/-- The head of each log is the appended entry, in the own log, or one it counts
more than. -/
theorem heads_of_append
    (happend : appendNoteOp device timestamp op before = some (entry, dir)) :
    entry ∈ heads (readNoteLogs dir) ∧
      ∀ file ∈ dir, ∀ head, file.2.getLast? = some head →
        (file.1 = device ∧ head = entry) ∨
          (head ∈ heads (readNoteLogs before) ∧ dominates entry.vv head.vv = true ∧
            count head.vv device < count entry.vv device) := by
  obtain ⟨_, hvv, _⟩ := appendNoteOp_cases happend
  obtain ⟨log, hdir, hlast, _, _⟩ := ownLog_of_append happend
  have hown : (device, log) ∈ dir := hdir ▸ Directory.mem_put_self before _ device log
  refine ⟨List.mem_filterMap.mpr ⟨log, mem_readNoteLogs hown, hlast⟩, ?_⟩
  intro file hfile head hhead
  rcases Directory.eq_or_mem_of_mem_put (hdir ▸ hfile) with rfl | ⟨hold, _⟩
  · exact Or.inl ⟨rfl, Option.some.inj (hhead.symm.trans hlast)⟩
  · have hmem : head ∈ heads (readNoteLogs before) :=
      List.mem_filterMap.mpr ⟨file.2, mem_readNoteLogs hold, hhead⟩
    refine Or.inr ⟨hmem, ?_, ?_⟩
    · rw [dominates_iff]
      intro other
      have hle := le_count_mergedVv hmem other
      rw [hvv, count_increment]
      split
      · next heq =>
          subst heq
          omega
      · exact hle
    · have hle := le_count_mergedVv hmem device
      rw [hvv, count_increment, if_pos rfl]
      omega

/-- The appended entry dominates every head, so it alone is the frontier. -/
theorem mem_frontier_of_append
    (happend : appendNoteOp device timestamp op before = some (entry, dir))
    {head : NoteLogEntry} : head ∈ frontier (heads (readNoteLogs dir)) ↔ head = entry := by
  obtain ⟨hentry, hheads⟩ := heads_of_append happend
  have hcases : ∀ head ∈ heads (readNoteLogs dir), head = entry ∨
      (dominates entry.vv head.vv = true ∧ count head.vv device < count entry.vv device) := by
    intro head hmem
    obtain ⟨found, hfound, hlast⟩ := List.mem_filterMap.mp hmem
    obtain ⟨file, hfile, rfl⟩ := List.mem_map.mp hfound
    rcases hheads file hfile head hlast with ⟨_, heq⟩ | ⟨_, hbelow⟩
    · exact Or.inl heq
    · exact Or.inr hbelow
  constructor
  · intro hmem
    obtain ⟨hmem, hundominated⟩ := mem_frontier_iff.mp hmem
    rcases hcases head hmem with heq | ⟨hdominates, hlt⟩
    · exact heq
    · rw [hundominated entry hentry hdominates] at hlt
      exact absurd hlt (Nat.lt_irrefl _)
  · rintro rfl
    refine mem_frontier_iff.mpr ⟨hentry, fun other hother hdom => ?_⟩
    rcases hcases other hother with rfl | ⟨_, hlt⟩
    · rfl
    · have hle := dominates_iff.mp hdom device
      omega

/-- The merge after an append is by the appended entry. -/
theorem merge_eq_of_append
    (happend : appendNoteOp device timestamp op before = some (entry, dir)) :
    merge (readNoteLogs dir) = some
      { note := resolvedNote (readNoteLogs dir) entry
        vv := mergedVv (heads (readNoteLogs dir))
        winnerVv := entry.vv
        winnerDevice := entry.deviceId
        conflict := decide (1 < (frontier (heads (readNoteLogs dir))).length) } := by
  have hentry := (mem_frontier_of_append happend).mpr rfl
  have hnonempty : (heads (readNoteLogs dir)).isEmpty = false := by
    rw [List.isEmpty_eq_false_iff]
    exact List.ne_nil_of_mem (heads_of_append happend).1
  cases hmax : maxBy NoteLogEntry.compareStamp (frontier (heads (readNoteLogs dir))) with
  | none =>
      rw [(maxBy_eq_none_iff _).mp hmax] at hentry
      exact absurd hentry List.not_mem_nil
  | some winner =>
      obtain rfl := (mem_frontier_of_append happend).mp (maxBy_mem _ hmax)
      rw [merge, hnonempty, hmax]
      rfl

theorem merge_of_append
    (happend : appendNoteOp device timestamp op before = some (entry, dir)) :
    ∃ merged, merge (readNoteLogs dir) = some merged ∧
      merged.note = resolvedNote (readNoteLogs dir) entry :=
  ⟨_, merge_eq_of_append happend, rfl⟩

/-- A tombstone keeps the content there is. -/
theorem hasUpsert_of_append (hnodup : (before.map Prod.fst).Nodup)
    (happend : appendNoteOp device timestamp op before = some (entry, dir))
    (hupsert : hasUpsert (readNoteLogs before)) : hasUpsert (readNoteLogs dir) := by
  obtain ⟨log, rfl, _, _, hkept⟩ := ownLog_of_append happend
  obtain ⟨found, hfound, old, hold, hop⟩ := hupsert
  obtain ⟨file, hfile, rfl⟩ := List.mem_map.mp hfound
  by_cases hkey : file.1 = device
  · have hlookup : ownNoteLog before device = file.2 := by
      rw [ownNoteLog, Directory.file?_of_nodup hnodup (hkey ▸ hfile : (device, file.2) ∈ before)]
      rfl
    obtain ⟨kept, hmem, hkeptOp⟩ := hkept ⟨old, hlookup ▸ hold, hop⟩
    exact ⟨log, mem_readNoteLogs (Directory.mem_put_self before _ device log), kept, hmem,
      hkeptOp⟩
  · exact ⟨file.2, mem_readNoteLogs (Directory.mem_put_of_ne hfile hkey), old, hold, hop⟩

/-- A tombstone makes no content. -/
theorem hasUpsert_of_tombstone {deletedAt : DateTime}
    (happend : appendNoteOp device timestamp (.tombstone deletedAt) before = some (entry, dir))
    (hupsert : hasUpsert (readNoteLogs dir)) : hasUpsert (readNoteLogs before) := by
  obtain ⟨_, _, log, rfl, hlog⟩ := appendNoteOp_cases happend
  obtain ⟨_, _, _, hentry, _⟩ := ownLog_of_append happend
  obtain ⟨found, hfound, kept, hkept, hop⟩ := hupsert
  obtain ⟨file, hfile, rfl⟩ := List.mem_map.mp hfound
  rcases Directory.eq_or_mem_of_mem_put hfile with rfl | ⟨hold, _⟩
  · have hmem : kept ∈ ownNoteLog before device ++ [entry] := by
      rcases hlog with rfl | rfl
      · exact hkept
      · exact compactOwnLog_mem hkept
    rcases List.mem_append.mp hmem with hown | hlast
    · obtain ⟨own, hlog, hentryOwn⟩ := mem_ownNoteLog hown
      exact ⟨own, hlog, kept, hentryOwn, hop⟩
    · rw [List.mem_singleton.mp hlast, NoteLogEntry.isUpsert, hentry] at hop
      cases hop
  · exact ⟨file.2, mem_readNoteLogs hold, kept, hkept, hop⟩

end Append

namespace FsTree

variable (tree : FsTree) (place : Uuid → Nat)

/-- Append an operation of this device and project the merge. -/
def appendNoteOp (id : Uuid) (timestamp : DateTime) (op : NoteOp) : Plan Note :=
  match Keeplin.appendNoteOp tree.deviceId timestamp op (tree.noteFolder id).logs with
  | none => .fail .panic
  | some (_, logs) =>
      let write := TreeWrite.noteLog id tree.deviceId (ownNoteLog logs tree.deviceId)
      Plan.bind ⟨[write], .ok ()⟩ fun _ =>
        ((tree.perform place write).materialize id).bind fun
          | none => .fail (.notFound id)
          | some note => .done note

def createNote (note : Note) (timestamp : DateTime) : Plan Note :=
  tree.appendNoteOp place note.id timestamp (.upsert note)

def updateNote (note : Note) (timestamp : DateTime) : Plan Note :=
  if tree.noteLogs note.id = [] then .fail (.notFound note.id)
  else
    .reading (tree.mergeNote note.id) fun prior =>
      (tree.appendNoteOp place note.id timestamp (.upsert note)).bind fun merged =>
        match merged.deletedAt, prior.bind Note.deletedAt with
        | none, some oldTs =>
            (tree.cascadeUnstampResources note.id oldTs).bind fun _ => .done merged
        | _, _ => .done merged

/-- `ts` is the clock where the call reads it and `timestamp` where the log
does. -/
def deleteNote (id : Uuid) (ts timestamp : DateTime) : Plan Unit :=
  if tree.noteLogs id = [] then .fail (.notFound id)
  else
    (tree.appendNoteOp place id timestamp (.tombstone ts)).bind fun _ =>
      tree.cascadeStampResources id ts

/-- A listing shows every log and every resource once, and every resource can be
read. -/
structure Tidy (tree : FsTree) : Prop where
  logs : ∀ noteId, ((tree.noteFolder noteId).logs.map Prod.fst).Nodup
  resources : ∀ noteId, ((tree.noteFolder noteId).resources.map Prod.fst).Nodup
  readable : ∀ noteId, ∀ file ∈ (tree.noteFolder noteId).resources,
    ∃ stored, file.2 = .readable stored

variable {tree} {place}

theorem nodup_logs_perform
    (hlogs : ∀ noteId, ((tree.noteFolder noteId).logs.map Prod.fst).Nodup)
    (write : TreeWrite) (noteId : Uuid) :
    (((tree.perform place write).noteFolder noteId).logs.map Prod.fst).Nodup := by
  by_cases hlog : ∃ id device log, write = .noteLog id device log
  · obtain ⟨id, device, log, rfl⟩ := hlog
    simp only [FsTree.perform, noteFolder_modifyNote]
    split
    · exact Directory.nodup_put (hlogs id)
    · exact hlogs noteId
  · rw [logs_perform_other tree fun id device log heq => hlog ⟨id, device, log, heq⟩]
    exact hlogs noteId

theorem Tidy.perform (htidy : tree.Tidy) (write : TreeWrite) :
    (tree.perform place write).Tidy := by
  refine ⟨nodup_logs_perform htidy.logs write, fun noteId => ?_, fun noteId => ?_⟩
  · by_cases hresource : ∃ id resourceId stored, write = .resource id resourceId stored
    · obtain ⟨id, resourceId, stored, rfl⟩ := hresource
      simp only [FsTree.perform, noteFolder_modifyNote]
      split
      · exact Directory.nodup_put (htidy.resources id)
      · exact htidy.resources noteId
    · rw [resources_perform_other tree fun id resourceId stored heq =>
        hresource ⟨id, resourceId, stored, heq⟩]
      exact htidy.resources noteId
  · by_cases hresource : ∃ id resourceId stored, write = .resource id resourceId stored
    · obtain ⟨id, resourceId, stored, rfl⟩ := hresource
      simp only [FsTree.perform, noteFolder_modifyNote]
      split
      · intro file hfile
        rcases Directory.eq_or_mem_of_mem_put hfile with rfl | ⟨hold, _⟩
        · exact ⟨stored, rfl⟩
        · exact htidy.readable id file hold
      · exact htidy.readable noteId
    · rw [resources_perform_other tree fun id resourceId stored heq =>
        hresource ⟨id, resourceId, stored, heq⟩]
      exact htidy.readable noteId

theorem Tidy.performAll (htidy : tree.Tidy) (writes : List TreeWrite) :
    (tree.performAll place writes).Tidy :=
  performAll_keeps (fun _ write hkept => hkept.perform write) htidy writes

theorem performAll_append (first second : List TreeWrite) :
    tree.performAll place (first ++ second) =
      (tree.performAll place first).performAll place second :=
  List.foldl_append

theorem mergeNote_of_logs {other : FsTree} {id : Uuid}
    (hlogs : (other.noteFolder id).logs = (tree.noteFolder id).logs) :
    other.mergeNote id = tree.mergeNote id := by
  simp only [mergeNote, mergeLogs, noteLogs, hlogs]

theorem logs_performAll {writes : List TreeWrite}
    (hother : ∀ write ∈ writes, ∀ id device log, write ≠ .noteLog id device log)
    (noteId : Uuid) :
    ((tree.performAll place writes).noteFolder noteId).logs =
      (tree.noteFolder noteId).logs := by
  induction writes generalizing tree with
  | nil => rfl
  | cons write rest ih =>
      change (((tree.perform place write).performAll place rest).noteFolder noteId).logs = _
      rw [ih fun later hlater => hother later (List.mem_cons_of_mem _ hlater)]
      exact logs_perform_other tree (hother write List.mem_cons_self) noteId

theorem resources_performAll {writes : List TreeWrite}
    (hother : ∀ write ∈ writes, ∀ id resourceId stored,
      write ≠ .resource id resourceId stored) (noteId : Uuid) :
    ((tree.performAll place writes).noteFolder noteId).resources =
      (tree.noteFolder noteId).resources := by
  induction writes generalizing tree with
  | nil => rfl
  | cons write rest ih =>
      change (((tree.perform place write).performAll place rest).noteFolder noteId).resources = _
      rw [ih fun later hlater => hother later (List.mem_cons_of_mem _ hlater)]
      exact resources_perform_other tree (hother write List.mem_cons_self) noteId

section Cascade

variable {noteId : Uuid} {change : StoredResource → Option StoredResource}
  {files : List (Uuid × Sidecar StoredResource)}

/-- Each write of a cascade rewrites a file of its folder. -/
theorem mem_cascadeResources {write : TreeWrite}
    (hwrite : write ∈ (cascadeResources noteId change files).writes) :
    ∃ id stored rewritten, (id, .readable stored) ∈ files ∧ change stored = some rewritten ∧
      write = .resource noteId id rewritten := by
  induction files with
  | nil => exact absurd hwrite List.not_mem_nil
  | cons file rest ih =>
      obtain ⟨id, sidecar⟩ := file
      have hrest (hlater : write ∈ (cascadeResources noteId change rest).writes) :
          ∃ found stored rewritten, (found, .readable stored) ∈ (id, sidecar) :: rest ∧
            change stored = some rewritten ∧ write = .resource noteId found rewritten := by
        obtain ⟨found, stored, rewritten, hfile, heffect⟩ := ih hlater
        exact ⟨found, stored, rewritten, List.mem_cons_of_mem _ hfile, heffect⟩
      cases sidecar with
      | unreadable => exact absurd hwrite List.not_mem_nil
      | readable stored =>
          simp only [cascadeResources] at hwrite
          split at hwrite
          · next rewritten hchange =>
              rcases List.mem_cons.mp hwrite with rfl | hlater
              · exact ⟨id, stored, rewritten, List.mem_cons_self, hchange, rfl⟩
              · exact hrest hlater
          · exact hrest hwrite

theorem mergeNote_cascade (other : Uuid) :
    (tree.performAll place (cascadeResources noteId change files).writes).mergeNote other =
      tree.mergeNote other :=
  mergeNote_of_logs (logs_performAll (fun write hwrite id device log heq => by
    obtain ⟨_, _, _, _, _, rfl⟩ := mem_cascadeResources hwrite
    cases heq) other)

/-- A cascade rewrites the files of its folder that it has a change for. -/
theorem resourceFile_cascade (place : Uuid → Nat) (noteId : Uuid)
    (change : StoredResource → Option StoredResource)
    (hreadable : ∀ file ∈ files, ∃ stored, file.2 = .readable stored)
    (hnodup : (files.map Prod.fst).Nodup) :
    (cascadeResources noteId change files).result = .ok () ∧
      ∀ (tree : FsTree) (other id : Uuid),
        (tree.performAll place (cascadeResources noteId change files).writes).resourceFile
            other id =
          if noteId = other then
            match Directory.file? files id with
            | some (.readable stored) =>
                match change stored with
                | some rewritten => some (.readable rewritten)
                | none => tree.resourceFile other id
            | _ => tree.resourceFile other id
          else tree.resourceFile other id := by
  induction files with
  | nil =>
      refine ⟨rfl, fun tree other id => ?_⟩
      split <;> rfl
  | cons file rest ih =>
      obtain ⟨key, sidecar⟩ := file
      obtain ⟨stored, rfl⟩ := hreadable (key, sidecar) List.mem_cons_self
      obtain ⟨hkey, hrest⟩ := List.nodup_cons.mp hnodup
      obtain ⟨hok, hfiles⟩ := ih (fun file hfile =>
        hreadable file (List.mem_cons_of_mem _ hfile)) hrest
      have hmissing : Directory.file? rest key = none := by
        rw [Directory.file?_eq_none_iff]
        exact fun value hmem => hkey (List.mem_map.mpr ⟨(key, value), hmem, rfl⟩)
      have hlookup : ∀ id, Directory.file? ((key, Sidecar.readable stored) :: rest) id =
          if key = id then some (.readable stored) else Directory.file? rest id := by
        intro id
        simp only [Directory.file?, List.find?_cons]
        by_cases hid : key = id <;> simp [hid]
      simp only [cascadeResources]
      split
      · next rewritten hchange =>
          refine ⟨hok, fun tree other id => ?_⟩
          change ((tree.perform place (.resource noteId key rewritten)).performAll place
            _).resourceFile other id = _
          rw [hfiles, hlookup, resourceFile_perform_resource]
          by_cases hfolder : noteId = other
          · by_cases hid : key = id
            · subst hid
              simp [hfolder, hmissing, hchange]
            · simp [hfolder, hid]
          · simp [hfolder]
      · next hchange =>
          refine ⟨hok, fun tree other id => ?_⟩
          rw [hfiles, hlookup]
          by_cases hid : key = id
          · subst hid
            simp [hmissing, hchange]
          · simp [hid]

end Cascade

section Effect

variable {id : Uuid} {timestamp : DateTime} {op : NoteOp}

/-- An append writes a log and the projection. -/
theorem mem_appendNoteOp {write : TreeWrite}
    (hwrite : write ∈ (tree.appendNoteOp place id timestamp op).writes) :
    (∃ device log, write = .noteLog id device log) ∨
      (∃ noteId body, write = .noteMd noteId body) ∨
      ∃ noteId value, write = .noteMeta noteId value := by
  unfold appendNoteOp at hwrite
  split at hwrite
  · exact absurd hwrite List.not_mem_nil
  · next entry logs happend =>
      simp only [Plan.bind, List.singleton_append, List.mem_cons] at hwrite
      rcases hwrite with rfl | hprojected
      · exact Or.inl ⟨_, _, rfl⟩
      · right
        have hproject : ∀ {merged : FsTree},
            write ∈ ((merged.materialize id).bind fun
              | none => Plan.fail (.notFound id)
              | some note => Plan.done note).writes →
            (∃ noteId body, write = .noteMd noteId body) ∨
              ∃ noteId value, write = .noteMeta noteId value := by
          intro merged hmem
          simp only [materialize] at hmem
          cases hmerge : merged.mergeLogs id with
          | error failure =>
              rw [hmerge] at hmem
              exact absurd hmem List.not_mem_nil
          | ok found =>
              rw [hmerge] at hmem
              cases hnote : found.note with
              | none =>
                  simp [Plan.reading, Plan.bind, hnote, Plan.done, Plan.fail] at hmem
              | some note =>
                  simp only [Plan.reading, Plan.bind, hnote, Plan.done, List.append_nil,
                    projectionWrites, List.mem_cons, List.not_mem_nil, or_false] at hmem
                  rcases hmem with rfl | rfl
                  · exact Or.inl ⟨_, _, rfl⟩
                  · exact Or.inr ⟨_, _, rfl⟩
        exact hproject hprojected

/-- The writes of an append to logs that merge.  The log written has nothing but
the operation and what logs of the note had. -/
theorem appendNoteOp_writes (place : Uuid → Nat) (timestamp : DateTime) (op : NoteOp)
    {prior : Merged} (hprior : tree.mergeLogs id = .ok prior) :
    ∃ (log : NoteLog) (merged : Merged),
      (tree.perform place (.noteLog id tree.deviceId log)).mergeLogs id = .ok merged ∧
        (tree.appendNoteOp place id timestamp op).writes =
          .noteLog id tree.deviceId log :: (match merged.note with
            | none => []
            | some note => projectionWrites note merged.vv) ∧
        (tree.appendNoteOp place id timestamp op).result =
          (match merged.note with
          | some note => .ok note
          | none => .error (.notFound id)) ∧
        (∀ entry ∈ log, entry.op = op ∨ ∃ held ∈ tree.noteLogs id, entry ∈ held) ∧
        ∃ entry, Keeplin.appendNoteOp tree.deviceId timestamp op (tree.noteFolder id).logs =
          some (entry, writeNoteLog (tree.noteFolder id).logs tree.deviceId log) := by
  have hmerge : merge (readNoteLogs (tree.noteFolder id).logs) = some prior := by
    simp only [mergeLogs, noteLogs] at hprior
    split at hprior
    · next found hfound => rw [hfound, Except.ok.inj hprior]
    · contradiction
  unfold appendNoteOp
  cases happend : Keeplin.appendNoteOp tree.deviceId timestamp op (tree.noteFolder id).logs with
  | none =>
      rw [Keeplin.appendNoteOp, hmerge] at happend
      contradiction
  | some appended =>
      obtain ⟨entry, logs⟩ := appended
      obtain ⟨-, -, log, hdir, hlog⟩ := appendNoteOp_cases happend
      obtain ⟨-, -, -, hop, -⟩ := ownLog_of_append happend
      obtain ⟨merged, hmerged, -⟩ := merge_of_append happend
      have hown : ownNoteLog logs tree.deviceId = log := by
        rw [hdir, ownNoteLog_writeNoteLog]
      have hentries : ∀ kept ∈ log,
          kept.op = op ∨ ∃ held ∈ tree.noteLogs id, kept ∈ held := by
        intro kept hkept
        have hmem : kept ∈ ownNoteLog (tree.noteFolder id).logs tree.deviceId ++ [entry] := by
          rcases hlog with rfl | rfl
          · exact hkept
          · exact compactOwnLog_mem hkept
        rcases List.mem_append.mp hmem with hheld | hlast
        · exact .inr (mem_ownNoteLog hheld)
        · exact .inl (List.mem_singleton.mp hlast ▸ hop)
      have hmergeLogs :
          (tree.perform place (.noteLog id tree.deviceId log)).mergeLogs id = .ok merged := by
        simp only [mergeLogs, noteLogs, FsTree.perform, noteFolder_modifyNote, ↓reduceIte,
          ← hdir, hmerged]
      refine ⟨log, merged, hmergeLogs, ?_⟩
      simp only [hown, materialize, hmergeLogs, Plan.reading, Plan.bind]
      cases merged.note with
      | none => exact ⟨rfl, rfl, hentries, entry, by rw [hdir]⟩
      | some note => exact ⟨by simp [Plan.done], rfl, hentries, entry, by rw [hdir]⟩

/-- What an append comes to: its operation wins the merge of the note, and no
other note and no resource changes. -/
structure Appended (tree after : FsTree) (id : Uuid) (op : NoteOp) (note : Option Note) :
    Prop where
  merged : after.mergeNote id = .ok note
  resolved : ∃ entry : NoteLogEntry, entry.op = op ∧
    note = resolvedNote (after.noteLogs id) entry
  existed : (∃ deletedAt, op = .tombstone deletedAt) →
    (note.isSome = true ↔ ∃ before, tree.mergeNote id = .ok (some before))
  others : ∀ other, other ≠ id → after.mergeNote other = tree.mergeNote other
  resources : ∀ noteId,
    (after.noteFolder noteId).resources = (tree.noteFolder noteId).resources

theorem appendNoteOp_effect {id : Uuid}
    (hlogs : ((tree.noteFolder id).logs.map Prod.fst).Nodup) (place : Uuid → Nat)
    (timestamp : DateTime) (op : NoteOp) :
    (tree.appendNoteOp place id timestamp op).writes = [] ∧
        (tree.appendNoteOp place id timestamp op).result = .error .panic ∨
      ∃ note, Appended tree
          (tree.performAll place (tree.appendNoteOp place id timestamp op).writes) id op note ∧
        (tree.appendNoteOp place id timestamp op).result =
          match note with
          | some note => .ok note
          | none => .error (.notFound id) := by
  unfold appendNoteOp
  cases happend : Keeplin.appendNoteOp tree.deviceId timestamp op (tree.noteFolder id).logs with
  | none => exact Or.inl ⟨rfl, rfl⟩
  | some appended =>
      right
      obtain ⟨entry, logs⟩ := appended
      obtain ⟨log, hdir, _, hop, _⟩ := ownLog_of_append happend
      obtain ⟨merged, hmerge, hnote⟩ := merge_of_append happend
      have hown : ownNoteLog logs tree.deviceId = log := by
        rw [hdir, ownNoteLog_writeNoteLog]
      simp only [hown]
      generalize hwritten : tree.perform place (.noteLog id tree.deviceId log) = written
      have hfolder : ∀ other, (written.noteFolder other).logs =
          if id = other then logs else (tree.noteFolder other).logs := by
        intro other
        rw [← hwritten]
        simp only [FsTree.perform, noteFolder_modifyNote]
        split
        · exact hdir.symm
        · rfl
      have hmergeLogs : written.mergeLogs id = .ok merged := by
        simp only [mergeLogs, noteLogs, hfolder, ↓reduceIte, hmerge]
      -- The projection touches neither logs nor resources.
      have hafter : ∀ writes : List TreeWrite,
          (∀ write ∈ writes, ∀ noteId device log, write ≠ .noteLog noteId device log) →
          (∀ write ∈ writes, ∀ noteId resourceId stored,
            write ≠ .resource noteId resourceId stored) →
          Appended tree (tree.performAll place
            (.noteLog id tree.deviceId log :: writes)) id op merged.note := by
        intro writes hlog hresource
        have hperform : tree.performAll place (.noteLog id tree.deviceId log :: writes) =
            written.performAll place writes := by
          rw [← hwritten]
          rfl
        have hlogsAfter : ∀ other,
            ((written.performAll place writes).noteFolder other).logs =
              (written.noteFolder other).logs := logs_performAll hlog
        rw [hperform]
        refine ⟨?_, ⟨entry, hop, ?_⟩, fun htombstone => ?_, fun other hother => ?_,
          fun noteId => ?_⟩
        · rw [mergeNote_of_logs (hlogsAfter id), mergeNote, hmergeLogs]
          rfl
        · rw [noteLogs, hlogsAfter, hfolder, if_pos rfl]
          exact hnote
        · obtain ⟨deletedAt, rfl⟩ := htombstone
          obtain ⟨prior, hprior, _⟩ := Option.map_eq_some_iff.mp happend
          have hmergeBefore : tree.mergeNote id = .ok prior.note := by
            simp only [mergeNote, mergeLogs, noteLogs, hprior]
            rfl
          simp only [hmergeBefore, Except.ok.injEq]
          rw [merge_note_isSome hmerge, ← Option.isSome_iff_exists, merge_note_isSome hprior]
          exact ⟨hasUpsert_of_tombstone happend,
            hasUpsert_of_append hlogs happend⟩
        · rw [mergeNote_of_logs (hlogsAfter other)]
          exact mergeNote_of_logs (by rw [hfolder, if_neg (Ne.symm hother)])
        · rw [resources_performAll hresource, ← hwritten]
          exact resources_perform_other tree (by simp) noteId
      refine ⟨merged.note, ?_, ?_⟩
      · simp only [materialize, hmergeLogs, Plan.reading, Plan.bind]
        generalize merged.note = found at hafter ⊢
        cases found with
        | none => exact hafter [] (by simp) (by simp)
        | some note =>
            exact hafter (projectionWrites note merged.vv ++ [])
              (by simp [projectionWrites]) (by simp [projectionWrites])
      · simp only [materialize, hmergeLogs, Plan.reading, Plan.bind]
        cases merged.note <;> rfl

end Effect

end FsTree

end Keeplin
