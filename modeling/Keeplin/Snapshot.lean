/-
The snapshot a compaction makes of the sidecars: one entry for each file that
can be read, and a count of those that cannot.
-/
import Keeplin.FsResources
import Keeplin.GlobalLog
import Keeplin.LocalWrite

namespace Keeplin

open VersionVector

/-- The file of one sidecar.  A resource is filed in the folder of a note. -/
inductive SidecarPath where
  | notebook (id : Uuid)
  | tag (id : Uuid)
  | noteTag (noteId tagId : Uuid)
  | resource (noteId id : Uuid)
deriving DecidableEq

def SidecarPath.entity : SidecarPath → Entity
  | notebook id => .notebook id
  | tag id => .tag id
  | noteTag noteId tagId => .noteTag noteId tagId
  | resource _ id => .resource id

/-- The snapshot of a file, unless it does not parse. -/
def snapshotEntryFromSidecar {A : Type} (data : A → LogData) (entityType : EntityType)
    (id : Uuid) (ts : DateTime) : Sidecar A → Option LogEntry
  | .unreadable => none
  | .readable value => some (snapshotEntryFromValue entityType id ts (data value))

/-- The snapshot of an association: its state as the operation that made it. -/
def assocEntry (noteId tagId : Uuid) (ts : DateTime) (state : NoteTagState) : LogEntry where
  timestamp := ts
  entityType := .noteTag
  entityId := noteId
  operation := if state.deletedAt.isSome then .remove else .add
  data := .assoc tagId state.updatedAt state.vv state.lastWriter

/-- A snapshot tells a create of what is live and a delete of what is not, under the
identifier of the file. -/
def Notebook.told (id : Uuid) (value : Notebook) : Change :=
  match value.deletedAt with
  | some deletedAt => .notebookDelete id deletedAt value.vv value.lastWriter
  | none => .notebookCreate value

def Tag.told (id : Uuid) (value : Tag) : Change :=
  match value.deletedAt with
  | some deletedAt => .tagDelete id deletedAt value.vv value.lastWriter
  | none => .tagCreate value

def NoteTagState.told (noteId tagId : Uuid) (state : NoteTagState) : Change :=
  match state.deletedAt with
  | some _ => .noteTagRemove noteId tagId state.updatedAt state.vv state.lastWriter
  | none => .noteTagAdd noteId tagId state.updatedAt state.vv state.lastWriter

def Resource.told (id : Uuid) (value : Resource) : Change :=
  match value.deletedAt with
  | some deletedAt => .resourceDelete id deletedAt value.vv value.lastWriter
  | none => .resourceCreate value none

@[simp] theorem Notebook.vv_told (id : Uuid) (value : Notebook) :
    (value.told id).version.vv = value.vv := by
  simp only [told]
  split <;> rfl

@[simp] theorem Tag.vv_told (id : Uuid) (value : Tag) :
    (value.told id).version.vv = value.vv := by
  simp only [told]
  split <;> rfl

@[simp] theorem NoteTagState.vv_told (noteId tagId : Uuid) (state : NoteTagState) :
    (state.told noteId tagId).version.vv = state.vv := by
  simp only [told]
  split <;> rfl

@[simp] theorem Resource.vv_told (id : Uuid) (value : Resource) :
    (value.told id).version.vv = value.vv := by
  simp only [told]
  split <;> rfl

theorem Notebook.entity_told {id : Uuid} {value : Notebook} (hid : value.id = id) :
    (value.told id).entity = .notebook id := by
  simp only [told]
  split
  · rfl
  · exact congrArg Entity.notebook hid

theorem Tag.entity_told {id : Uuid} {value : Tag} (hid : value.id = id) :
    (value.told id).entity = .tag id := by
  simp only [told]
  split
  · rfl
  · exact congrArg Entity.tag hid

@[simp] theorem NoteTagState.entity_told (noteId tagId : Uuid) (state : NoteTagState) :
    (state.told noteId tagId).entity = .noteTag noteId tagId := by
  simp only [told]
  split <;> rfl

theorem Resource.entity_told {id : Uuid} {value : Resource} (hid : value.id = id) :
    (value.told id).entity = .resource id := by
  simp only [told]
  split
  · rfl
  · exact congrArg Entity.resource hid

section Entry

variable (id : Uuid) (ts : DateTime)

theorem logEntryToChange_notebook (value : Notebook) :
    logEntryToChange (snapshotEntryFromValue .notebook id ts (.notebook value)) =
      some (value.told id) := by
  simp only [snapshotEntryFromValue, LogData.deletedAt, Notebook.told]
  cases value.deletedAt <;> rfl

theorem logEntryToChange_tag (value : Tag) :
    logEntryToChange (snapshotEntryFromValue .tag id ts (.tag value)) =
      some (value.told id) := by
  simp only [snapshotEntryFromValue, LogData.deletedAt, Tag.told]
  cases value.deletedAt <;> rfl

theorem logEntryToChange_resource (value : Resource) :
    logEntryToChange (snapshotEntryFromValue .resource id ts (.resource value)) =
      some (value.told id) := by
  simp only [snapshotEntryFromValue, LogData.deletedAt, Resource.told]
  cases value.deletedAt <;> rfl

theorem logEntryToChange_assoc (noteId tagId : Uuid) (state : NoteTagState) :
    logEntryToChange (assocEntry noteId tagId ts state) = some (state.told noteId tagId) := by
  simp only [assocEntry, NoteTagState.told]
  cases state.deletedAt <;> rfl

end Entry

/-- A record of the journal tells one version of an entity. -/
def LogEntry.Tells (entry : LogEntry) (entity : Entity) (vv : VersionVector) : Prop :=
  ∃ change, logEntryToChange entry = some change ∧ change.entity = entity ∧
    change.version.vv = vv

namespace FsTree

variable (tree : FsTree)

/-- What a compaction reads from one path: nothing when there is no file, and
no entry when the file does not parse. -/
def snapshotFile (ts : DateTime) : SidecarPath → Option (Option LogEntry)
  | .notebook id =>
      (tree.notebooks.file? id).map (snapshotEntryFromSidecar .notebook .notebook id ts)
  | .tag id => (tree.tags.file? id).map (snapshotEntryFromSidecar .tag .tag id ts)
  | .noteTag noteId tagId =>
      (tree.readAssocState noteId tagId).map fun state =>
        some (assocEntry noteId tagId ts state)
  | .resource noteId id =>
      (tree.resourceFile noteId id).map
        (snapshotEntryFromSidecar (fun stored => .resource stored.resource) .resource id ts)

def resourcePaths : List SidecarPath :=
  tree.allNoteIds.flatMap fun noteId =>
    (tree.noteResourceIds noteId).map (.resource noteId)

def assocPaths : List SidecarPath :=
  tree.noteTags.flatMap fun folder => folder.2.map fun file => .noteTag folder.1 file.1

/-- The sidecars in the order a compaction lists them. -/
def sidecarPaths : List SidecarPath :=
  tree.notebooks.map (fun file => .notebook file.1) ++
    tree.tags.map (fun file => .tag file.1) ++ tree.resourcePaths ++ tree.assocPaths

/-- The entries of a snapshot and the number of unreadable files. -/
def buildGlobalSnapshot (ts : DateTime) : List LogEntry × Nat :=
  let files := tree.sidecarPaths.filterMap (tree.snapshotFile ts)
  (files.filterMap id, files.countP Option.isNone)

/-- A compaction with nothing in between: the snapshot in a new epoch, unless
some file of it is unreadable. -/
def compactGlobalLogLocked (ts : DateTime) (log : GlobalLog) : GlobalLog :=
  let snapshot := tree.buildGlobalSnapshot ts
  if 0 < snapshot.2 then log else ⟨log.epoch + 1, snapshot.1⟩

/-- What a snapshot tells of the file at a path, if it can be read. -/
def changeAt : SidecarPath → Option Change
  | .notebook id =>
      match tree.notebooks.file? id with
      | some (.readable value) => some (value.told id)
      | _ => none
  | .tag id =>
      match tree.tags.file? id with
      | some (.readable value) => some (value.told id)
      | _ => none
  | .noteTag noteId tagId =>
      (tree.readAssocState noteId tagId).map (NoteTagState.told noteId tagId)
  | .resource noteId id =>
      match tree.resourceFile noteId id with
      | some (.readable stored) => some (stored.resource.told id)
      | _ => none

/-- The vector of the version a path holds. -/
def vvAt (path : SidecarPath) : Option VersionVector :=
  (tree.changeAt path).map fun change => change.version.vv

/-- Every live sidecar is filed under its own identifier. -/
def Named : Prop :=
  ∀ path change, tree.changeAt path = some change → change.entity = path.entity

variable {tree}

theorem snapshotFile_isSome_mem {ts : DateTime} {path : SidecarPath}
    (hfile : (tree.snapshotFile ts path).isSome = true) : path ∈ tree.sidecarPaths := by
  simp only [sidecarPaths, List.mem_append]
  cases path with
  | notebook id =>
      refine Or.inl (Or.inl (Or.inl ?_))
      rw [snapshotFile, Option.isSome_map, ← Directory.holds_eq_isSome,
        Directory.holds_iff] at hfile
      obtain ⟨file, hmem⟩ := hfile
      exact List.mem_map.mpr ⟨_, hmem, rfl⟩
  | tag id =>
      refine Or.inl (Or.inl (Or.inr ?_))
      rw [snapshotFile, Option.isSome_map, ← Directory.holds_eq_isSome,
        Directory.holds_iff] at hfile
      obtain ⟨file, hmem⟩ := hfile
      exact List.mem_map.mpr ⟨_, hmem, rfl⟩
  | noteTag noteId tagId =>
      refine Or.inr ?_
      rw [snapshotFile, Option.isSome_map, readAssocState] at hfile
      cases hfolder : tree.noteTags.file? noteId with
      | none =>
          rw [hfolder] at hfile
          contradiction
      | some tags =>
          cases hstate : tags.file? tagId with
          | none =>
              rw [hfolder, Option.bind_some, hstate] at hfile
              contradiction
          | some state =>
              exact List.mem_flatMap.mpr ⟨_, Directory.file?_mem hfolder,
                List.mem_map.mpr ⟨_, Directory.file?_mem hstate, rfl⟩⟩
  | resource noteId id =>
      refine Or.inl (Or.inr ?_)
      rw [snapshotFile, Option.isSome_map, resourceFile, ← Directory.holds_eq_isSome,
        Directory.holds_iff] at hfile
      obtain ⟨file, hmem⟩ := hfile
      refine List.mem_flatMap.mpr ⟨noteId, ?_, List.mem_map.mpr ⟨id,
        List.mem_map.mpr ⟨_, hmem, rfl⟩, rfl⟩⟩
      rw [mem_allNoteIds_iff, Directory.holds_eq_isSome]
      cases hfolder : tree.notes.file? noteId with
      | none =>
          rw [noteFolder, hfolder] at hmem
          exact absurd hmem List.not_mem_nil
      | some folder => rfl

section Told

variable (ts : DateTime)

/-- The entry of a path tells what the file at the path holds. -/
theorem bind_snapshotFile (path : SidecarPath) :
    ((tree.snapshotFile ts path).bind id).bind logEntryToChange = tree.changeAt path := by
  cases path with
  | notebook id =>
      simp only [snapshotFile, changeAt]
      cases tree.notebooks.file? id with
      | none => rfl
      | some file =>
          cases file with
          | unreadable => rfl
          | readable value => exact logEntryToChange_notebook id ts value
  | tag id =>
      simp only [snapshotFile, changeAt]
      cases tree.tags.file? id with
      | none => rfl
      | some file =>
          cases file with
          | unreadable => rfl
          | readable value => exact logEntryToChange_tag id ts value
  | noteTag noteId tagId =>
      simp only [snapshotFile, changeAt]
      cases tree.readAssocState noteId tagId with
      | none => rfl
      | some state => exact logEntryToChange_assoc ts noteId tagId state
  | resource noteId id =>
      simp only [snapshotFile, changeAt]
      cases tree.resourceFile noteId id with
      | none => rfl
      | some file =>
          cases file with
          | unreadable => rfl
          | readable stored => exact logEntryToChange_resource id ts stored.resource

theorem changeAt_of_snapshotFile {path : SidecarPath} {entry : LogEntry}
    (hfile : tree.snapshotFile ts path = some (some entry)) :
    tree.changeAt path = logEntryToChange entry := by
  rw [← bind_snapshotFile ts, hfile]
  rfl

/-- A path that holds a version has an entry in every snapshot. -/
theorem snapshotFile_of_changeAt {path : SidecarPath} {change : Change}
    (hchange : tree.changeAt path = some change) :
    ∃ entry, tree.snapshotFile ts path = some (some entry) ∧
      logEntryToChange entry = some change := by
  rw [← bind_snapshotFile ts] at hchange
  obtain ⟨entry, hentry, htold⟩ := Option.bind_eq_some_iff.mp hchange
  obtain ⟨file, hfile, rfl⟩ := Option.bind_eq_some_iff.mp hentry
  exact ⟨entry, hfile, htold⟩

theorem mem_sidecarPaths_of_changeAt {path : SidecarPath} {change : Change}
    (hchange : tree.changeAt path = some change) : path ∈ tree.sidecarPaths := by
  obtain ⟨entry, hfile, _⟩ := snapshotFile_of_changeAt 0 hchange
  apply snapshotFile_isSome_mem
  rw [hfile]
  rfl

end Told

end FsTree

/-- The sidecar a write replaces, and what a snapshot tells of it afterwards. -/
def TreeWrite.sidecar? : TreeWrite → Option (SidecarPath × Change)
  | .notebook id value => some (.notebook id, value.told id)
  | .tag id value => some (.tag id, value.told id)
  | .noteTag noteId tagId state => some (.noteTag noteId tagId, state.told noteId tagId)
  | .resource noteId id stored => some (.resource noteId id, stored.resource.told id)
  | _ => none

namespace FsTree

variable (tree : FsTree)

section Perform

variable (place : Uuid → Nat)

theorem resourceFile_perform_resource (noteId id : Uuid) (stored : StoredResource)
    (other target : Uuid) :
    (tree.perform place (.resource noteId id stored)).resourceFile other target =
      if noteId = other ∧ id = target then some (.readable stored)
      else tree.resourceFile other target := by
  simp only [resourceFile, noteFolder, perform, modifyNote, Directory.file?_put]
  by_cases hfolder : noteId = other
  · subst hfolder
    simp only [↓reduceIte, Option.getD_some, true_and, Directory.file?_put]
  · simp only [hfolder, ↓reduceIte, false_and]

theorem readAssocState_perform (noteId tagId : Uuid) (state : NoteTagState)
    (other target : Uuid) :
    (tree.perform place (.noteTag noteId tagId state)).readAssocState other target =
      if noteId = other ∧ tagId = target then some state
      else tree.readAssocState other target := by
  simp only [readAssocState, perform, Directory.file?_put]
  by_cases hfolder : noteId = other
  · subst hfolder
    simp only [↓reduceIte, Option.bind_some, true_and, Directory.file?_put]
    by_cases htag : tagId = target
    · simp only [htag, ↓reduceIte]
    · simp only [htag, ↓reduceIte]
      cases tree.noteTags.file? noteId <;> rfl
  · simp only [hfolder, ↓reduceIte, false_and]

/-- A write that is not a resource's sidecar leaves every resource file. -/
theorem resourceFile_perform_other {write : TreeWrite}
    (hother : ∀ noteId id stored, write ≠ .resource noteId id stored) (noteId id : Uuid) :
    (tree.perform place write).resourceFile noteId id = tree.resourceFile noteId id := by
  rw [resourceFile, resources_perform_other tree hother, resourceFile]

/-- A write that is no sidecar's leaves every sidecar. -/
theorem changeAt_perform_none {write : TreeWrite} (hnone : write.sidecar? = none)
    (path : SidecarPath) : (tree.perform place write).changeAt path = tree.changeAt path := by
  cases path with
  | resource noteId id =>
      have hother : ∀ target rid stored, write ≠ .resource target rid stored := by
        rintro target rid stored rfl
        contradiction
      simp only [changeAt, tree.resourceFile_perform_other place hother]
  | notebook id => cases write <;> first | rfl | contradiction
  | tag id => cases write <;> first | rfl | contradiction
  | noteTag noteId tagId => cases write <;> first | rfl | contradiction

/-- A write replaces its own sidecar and no other. -/
theorem changeAt_perform {write : TreeWrite} {target : SidecarPath} {change : Change}
    (hwrite : write.sidecar? = some (target, change)) (path : SidecarPath) :
    (tree.perform place write).changeAt path =
      if target = path then some change else tree.changeAt path := by
  cases write with
  | notebook id value =>
      obtain ⟨rfl, rfl⟩ := Prod.mk.inj (Option.some.inj hwrite)
      cases path with
      | notebook other =>
          simp only [changeAt, perform, Directory.file?_put, SidecarPath.notebook.injEq]
          by_cases heq : id = other
          · simp only [heq, ↓reduceIte]
          · simp only [heq, ↓reduceIte]
      | tag other => rfl
      | noteTag noteId tagId => rfl
      | resource noteId other => rfl
  | tag id value =>
      obtain ⟨rfl, rfl⟩ := Prod.mk.inj (Option.some.inj hwrite)
      cases path with
      | tag other =>
          simp only [changeAt, perform, Directory.file?_put, SidecarPath.tag.injEq]
          by_cases heq : id = other
          · simp only [heq, ↓reduceIte]
          · simp only [heq, ↓reduceIte]
      | notebook other => rfl
      | noteTag noteId tagId => rfl
      | resource noteId other => rfl
  | noteTag noteId tagId state =>
      obtain ⟨rfl, rfl⟩ := Prod.mk.inj (Option.some.inj hwrite)
      cases path with
      | noteTag other tag =>
          simp only [changeAt, readAssocState_perform, SidecarPath.noteTag.injEq]
          by_cases heq : noteId = other ∧ tagId = tag
          · simp only [heq, and_self, ↓reduceIte, Option.map_some]
          · simp only [heq, ↓reduceIte]
      | notebook other => rfl
      | tag other => rfl
      | resource other id => rfl
  | resource noteId id stored =>
      obtain ⟨rfl, rfl⟩ := Prod.mk.inj (Option.some.inj hwrite)
      cases path with
      | resource other rid =>
          simp only [changeAt, resourceFile_perform_resource, SidecarPath.resource.injEq]
          by_cases heq : noteId = other ∧ id = rid
          · simp only [heq, and_self, ↓reduceIte]
          · simp only [heq, ↓reduceIte]
      | notebook other => rfl
      | tag other => rfl
      | noteTag other tagId => rfl
  | noteLog id device log => contradiction
  | noteMd id body => contradiction
  | noteMeta id value => contradiction
  | blob noteId hash data => contradiction

theorem vvAt_perform_none {write : TreeWrite} (hnone : write.sidecar? = none)
    (path : SidecarPath) : (tree.perform place write).vvAt path = tree.vvAt path := by
  rw [vvAt, changeAt_perform_none tree place hnone, vvAt]

theorem vvAt_perform {write : TreeWrite} {target : SidecarPath} {change : Change}
    (hwrite : write.sidecar? = some (target, change)) (path : SidecarPath) :
    (tree.perform place write).vvAt path =
      if target = path then some change.version.vv else tree.vvAt path := by
  rw [vvAt, changeAt_perform tree place hwrite, vvAt]
  split <;> rfl

/-- A write of a named value keeps the sidecars named. -/
theorem Named.perform {tree : FsTree} (hnamed : tree.Named) {write : TreeWrite}
    (hwrite : ∀ path change, write.sidecar? = some (path, change) →
      change.entity = path.entity) : (tree.perform place write).Named := by
  intro path change hchange
  cases hsidecar : write.sidecar? with
  | none =>
      rw [tree.changeAt_perform_none place hsidecar] at hchange
      exact hnamed path change hchange
  | some target =>
      rw [tree.changeAt_perform place hsidecar] at hchange
      split at hchange
      · next heq =>
          rw [← Option.some.inj hchange, ← heq]
          exact hwrite target.1 target.2 hsidecar
      · exact hnamed path change hchange

end Perform

section Slot

variable (place : Uuid → Nat)

/-- Changing a note's folder does not change where another resource is found. -/
theorem readResourceSidecar_modifyNote {noteId id : Uuid}
    {change : NoteFolder → NoteFolder}
    (hkeep : ∀ other, (tree.modifyNote place noteId change).resourceFile other id =
      tree.resourceFile other id) :
    (tree.modifyNote place noteId change).readResourceSidecar id =
      tree.readResourceSidecar id := by
  have hlocate : (tree.modifyNote place noteId change).locateResourceNote id =
      tree.locateResourceNote id := by
    simp only [locateResourceNote, hkeep, allNoteIds_modifyNote, listingWith]
    split
    · rfl
    · next hmissing =>
        -- A new folder has no file for the resource.
        have hfolder : tree.notes.file? noteId = none := by
          rw [Directory.holds_eq_isSome] at hmissing
          simpa using hmissing
        have hnone : (tree.resourceFile noteId id).isSome = false := by
          simp only [resourceFile, noteFolder, hfolder]
          rfl
        rw [List.find?_append, List.find?_cons, hnone, ← List.find?_append,
          List.take_append_drop]
  simp only [readResourceSidecar, hlocate, hkeep]

theorem readResourceSidecar_perform {write : TreeWrite} {id : Uuid}
    (hkeep : ∀ other, (tree.perform place write).resourceFile other id =
      tree.resourceFile other id) :
    (tree.perform place write).readResourceSidecar id = tree.readResourceSidecar id := by
  cases write with
  | noteLog target device log => exact tree.readResourceSidecar_modifyNote place hkeep
  | noteMd target body => exact tree.readResourceSidecar_modifyNote place hkeep
  | noteMeta target value => exact tree.readResourceSidecar_modifyNote place hkeep
  | resource target rid stored => exact tree.readResourceSidecar_modifyNote place hkeep
  | notebook target value => rfl
  | tag target value => rfl
  | noteTag target tagId state => rfl
  | blob target hash data => rfl

/-- A write of another entity leaves the slot of an entity. -/
theorem slot_perform_of_ne {write : TreeWrite} {entity : Entity}
    (hne : ∀ path change, write.sidecar? = some (path, change) → path.entity ≠ entity) :
    (tree.perform place write).slot entity = tree.slot entity := by
  cases entity with
  | note id => rfl
  | notebook id =>
      cases write with
      | notebook target value =>
          have htarget : target ≠ id := fun heq =>
            hne _ _ rfl (congrArg Entity.notebook heq)
          simp only [slot, perform, Directory.file?_put_of_ne htarget]
      | _ => rfl
  | tag id =>
      cases write with
      | tag target value =>
          have htarget : target ≠ id := fun heq => hne _ _ rfl (congrArg Entity.tag heq)
          simp only [slot, perform, Directory.file?_put_of_ne htarget]
      | _ => rfl
  | noteTag noteId tagId =>
      cases write with
      | noteTag target tag state =>
          have htarget : ¬ (target = noteId ∧ tag = tagId) := by
            rintro ⟨rfl, rfl⟩
            exact hne _ _ rfl rfl
          simp only [slot, readAssocState_perform, htarget, ↓reduceIte]
      | _ => rfl
  | resource id =>
      have hread : (tree.perform place write).readResourceSidecar id =
          tree.readResourceSidecar id := by
        apply readResourceSidecar_perform
        intro other
        cases write with
        | resource target rid stored =>
            have htarget : rid ≠ id := fun heq =>
              hne _ _ rfl (congrArg Entity.resource heq)
            rw [resourceFile_perform_resource, if_neg fun heq => htarget heq.2]
        | _ => exact tree.resourceFile_perform_other place (by simp) other id
      simp only [slot, hread]

/-- A write of a sidecar stores its vector in the slot of the entity, unless the
entity is a resource that is found in another folder. -/
theorem slot_perform_self {write : TreeWrite} {path : SidecarPath} {change : Change}
    (hwrite : write.sidecar? = some (path, change)) :
    (∃ version : Version, version.vv = change.version.vv ∧
      (tree.perform place write).slot path.entity = .stored version) ∨
    (tree.perform place write).slot path.entity = tree.slot path.entity := by
  cases write with
  | notebook target value =>
      obtain ⟨rfl, rfl⟩ := Prod.mk.inj (Option.some.inj hwrite)
      refine Or.inl ⟨value.version, (value.vv_told target).symm, ?_⟩
      simp [slot, SidecarPath.entity, perform, sidecarSlot]
  | tag target value =>
      obtain ⟨rfl, rfl⟩ := Prod.mk.inj (Option.some.inj hwrite)
      refine Or.inl ⟨value.version, (value.vv_told target).symm, ?_⟩
      simp [slot, SidecarPath.entity, perform, sidecarSlot]
  | noteTag target tag state =>
      obtain ⟨rfl, rfl⟩ := Prod.mk.inj (Option.some.inj hwrite)
      refine Or.inl ⟨⟨state.vv, state.updatedAt, state.lastWriter, state.deletedAt.isNone⟩,
        (state.vv_told target tag).symm, ?_⟩
      simp only [slot, SidecarPath.entity, readAssocState_perform, and_self, ↓reduceIte,
        assocSlot]
  | resource target rid stored =>
      obtain ⟨rfl, rfl⟩ := Prod.mk.inj (Option.some.inj hwrite)
      have hslot := tree.slot_of_resourceWrite place target rid stored
      split at hslot
      · exact Or.inl ⟨stored.resource.version, (stored.resource.vv_told rid).symm, hslot⟩
      · exact Or.inr hslot
  | noteLog target device log => contradiction
  | noteMd target body => contradiction
  | noteMeta target value => contradiction
  | blob target hash data => contradiction

end Slot

end FsTree

end Keeplin
