/-
Where the filesystem store finds a resource: in the first note folder of the
listing that has a file for it.  A write to another folder only takes effect
when no folder listed before that one has a file for the resource.
-/
import Keeplin.FsSync
import Mathlib.Data.List.Find

namespace Keeplin

open VersionVector

namespace FsTree

variable (tree : FsTree)

/-- The note folders in listing order once the folder `noteId` exists. -/
def listingWith (place : Uuid → Nat) (noteId : Uuid) : List Uuid :=
  if tree.notes.holds noteId then tree.allNoteIds
  else tree.allNoteIds.take (place noteId) ++ noteId :: tree.allNoteIds.drop (place noteId)

/-- No folder listed before `noteId` has a file for the resource. -/
def listedFirst (place : Uuid → Nat) (noteId id : Uuid) : Bool :=
  ((tree.listingWith place noteId).takeWhile fun other => other ≠ noteId).all fun other =>
    (tree.resourceFile other id).isNone

/-- Does the version of a change, once written, become the one that is read? -/
def lands (place : Uuid → Nat) : Change → Bool
  | .resourceCreate resource _ => tree.listedFirst place resource.noteId resource.id
  | _ => true

section Listing

variable (place : Uuid → Nat) (noteId : Uuid)

theorem mem_allNoteIds_iff : noteId ∈ tree.allNoteIds ↔ tree.notes.holds noteId = true := by
  rw [Directory.holds_iff]
  constructor
  · intro hmem
    obtain ⟨file, hfile, rfl⟩ := List.mem_map.mp hmem
    exact ⟨file.2, hfile⟩
  · rintro ⟨folder, hfile⟩
    exact List.mem_map.mpr ⟨(noteId, folder), hfile, rfl⟩

theorem allNoteIds_modifyNote (change : NoteFolder → NoteFolder) :
    (tree.modifyNote place noteId change).allNoteIds = tree.listingWith place noteId := by
  simp only [allNoteIds, modifyNote, Directory.put, listingWith]
  split
  · rw [List.map_map]
    apply List.map_congr_left
    intro file _
    simp only [Function.comp]
    split
    · next heq => exact heq.symm
    · rfl
  · rw [List.map_append, List.map_cons, List.map_take, List.map_drop]

/-- The folders listed before `noteId` are the first of the old listing. -/
theorem exists_listing_split :
    ∃ front back tail, tree.listingWith place noteId = front ++ noteId :: back ∧
      tree.allNoteIds = front ++ tail ∧ noteId ∉ front := by
  simp only [listingWith]
  split
  · next hholds =>
      obtain ⟨front, back, hsplit, hfront⟩ :=
        List.eq_append_cons_of_mem ((tree.mem_allNoteIds_iff noteId).mpr hholds)
      exact ⟨front, back, noteId :: back, hsplit, hsplit, hfront⟩
  · next hmissing =>
      refine ⟨tree.allNoteIds.take (place noteId), tree.allNoteIds.drop (place noteId),
        tree.allNoteIds.drop (place noteId), rfl, (List.take_append_drop _ _).symm, ?_⟩
      intro hmem
      exact hmissing ((tree.mem_allNoteIds_iff noteId).mp (List.mem_of_mem_take hmem))

theorem takeWhile_ne_append {front back : List Uuid} (hfront : noteId ∉ front) :
    (front ++ noteId :: back).takeWhile (fun other => other ≠ noteId) = front := by
  induction front with
  | nil => simp
  | cons other rest ih =>
      have hne : other ≠ noteId := fun heq => hfront (heq ▸ List.mem_cons_self)
      have hrest := ih fun hmem => hfront (List.mem_cons_of_mem other hmem)
      simpa [List.takeWhile_cons, hne] using hrest

end Listing

section Located

variable {tree}

theorem mem_allNoteIds_of_resourceFile {noteId id : Uuid}
    (hfile : (tree.resourceFile noteId id).isSome = true) : noteId ∈ tree.allNoteIds := by
  rw [mem_allNoteIds_iff, Directory.holds_eq_isSome]
  cases hfolder : tree.notes.file? noteId with
  | none =>
      rw [resourceFile, noteFolder, hfolder] at hfile
      contradiction
  | some folder => rfl

/-- The folder that alone has a file for a resource is where it is found. -/
theorem locateResourceNote_of_only {noteId id : Uuid}
    (hfile : (tree.resourceFile noteId id).isSome = true)
    (honly : ∀ other, (tree.resourceFile other id).isSome = true → other = noteId) :
    tree.locateResourceNote id = some noteId := by
  cases hlocate : tree.locateResourceNote id with
  | none =>
      have hnone := List.find?_eq_none.mp hlocate noteId (mem_allNoteIds_of_resourceFile hfile)
      exact absurd hfile hnone
  | some other =>
      have hother := List.find?_some hlocate
      rw [honly other hother]

end Located

section Write

variable (place : Uuid → Nat) (noteId id : Uuid) (stored : StoredResource)

theorem resourceFile_perform (other : Uuid) :
    (tree.perform place (.resource noteId id stored)).resourceFile other id =
      if noteId = other then some (.readable stored) else tree.resourceFile other id := by
  simp only [resourceFile, noteFolder, perform, modifyNote, Directory.file?_put]
  split
  · simp
  · rfl

/-- A write to a folder listed first is the one that is read. -/
theorem readResourceSidecar_of_listedFirst
    (hfirst : tree.listedFirst place noteId id = true) :
    (tree.perform place (.resource noteId id stored)).readResourceSidecar id =
      .ok (some (noteId, stored)) := by
  obtain ⟨front, back, tail, hlisting, -, hfront⟩ := tree.exists_listing_split place noteId
  have hlocate : (tree.perform place (.resource noteId id stored)).locateResourceNote id =
      some noteId := by
    simp only [locateResourceNote, resourceFile_perform]
    simp only [perform, allNoteIds_modifyNote, hlisting]
    rw [List.find?_eq_some_iff_append]
    refine ⟨by simp, front, back, rfl, fun other hother => ?_⟩
    have hne : noteId ≠ other := fun heq => hfront (heq ▸ hother)
    rw [listedFirst, hlisting, takeWhile_ne_append noteId hfront, List.all_eq_true] at hfirst
    have hnone := hfirst other hother
    rw [Option.isNone_iff_eq_none] at hnone
    simp [hne, hnone]
  simp only [readResourceSidecar, hlocate, resourceFile_perform, ↓reduceIte]

/-- A write to a folder listed after one that has the resource is not read. -/
theorem readResourceSidecar_of_not_listedFirst
    (hlater : tree.listedFirst place noteId id = false) :
    (tree.perform place (.resource noteId id stored)).readResourceSidecar id =
      tree.readResourceSidecar id := by
  obtain ⟨front, back, tail, hlisting, hids, hfront⟩ :=
    tree.exists_listing_split place noteId
  rw [listedFirst, hlisting, takeWhile_ne_append noteId hfront, List.all_eq_false] at hlater
  obtain ⟨holder, hholder, hsome⟩ := hlater
  have hfile : (tree.resourceFile holder id).isSome = true := by
    simpa [Option.isSome_iff_ne_none] using hsome
  have hother : ∀ other ∈ front,
      (tree.perform place (.resource noteId id stored)).resourceFile other id =
        tree.resourceFile other id := by
    intro other hmem
    have hne : noteId ≠ other := fun heq => hfront (heq ▸ hmem)
    rw [resourceFile_perform, if_neg hne]
  cases hfind : front.find? fun other => (tree.resourceFile other id).isSome with
  | none => exact absurd hfile (List.find?_eq_none.mp hfind holder hholder)
  | some located =>
      have hmem := List.mem_of_find?_eq_some hfind
      have hsame : front.find? (fun other => ((tree.perform place
          (.resource noteId id stored)).resourceFile other id).isSome) = some located := by
        rw [← hfind]
        apply List.find?_congr
        intro other hin
        rw [hother other hin]
      have hafter : (tree.perform place (.resource noteId id stored)).locateResourceNote id =
          some located := by
        have hnames : (tree.perform place (.resource noteId id stored)).allNoteIds =
            front ++ noteId :: back :=
          (tree.allNoteIds_modifyNote place noteId _).trans hlisting
        rw [locateResourceNote, hnames, List.find?_append, hsame]
        rfl
      have hbefore : tree.locateResourceNote id = some located := by
        rw [locateResourceNote, hids, List.find?_append, hfind]
        rfl
      simp only [readResourceSidecar, hafter, hbefore, hother located hmem]

/-- The folder a resource is read from is listed first. -/
theorem listedFirst_of_locate (hlocate : tree.locateResourceNote id = some noteId) :
    tree.listedFirst place noteId id = true := by
  obtain ⟨hfile, front, back, hids, hfront⟩ := List.find?_eq_some_iff_append.mp hlocate
  have hmissing : noteId ∉ front := by
    intro hmem
    have hnot := hfront noteId hmem
    rw [hfile] at hnot
    contradiction
  have hholds : tree.notes.holds noteId = true :=
    (tree.mem_allNoteIds_iff noteId).mp (hids ▸ by simp)
  rw [listedFirst, listingWith, if_pos hholds, hids, takeWhile_ne_append noteId hmissing,
    List.all_eq_true]
  intro other hother
  simpa using hfront other hother

/-- Every folder is listed first for a resource no folder has. -/
theorem listedFirst_of_missing (hlocate : tree.locateResourceNote id = none) :
    tree.listedFirst place noteId id = true := by
  obtain ⟨front, back, tail, hlisting, hids, hfront⟩ :=
    tree.exists_listing_split place noteId
  rw [listedFirst, hlisting, takeWhile_ne_append noteId hfront, List.all_eq_true]
  intro other hother
  have hnone := List.find?_eq_none.mp hlocate other (hids ▸ by simp [hother])
  simpa using hnone

end Write

section Slot

variable (contentHash : List UInt8 → String) (place : Uuid → Nat)

/-- What a resource change writes when it wins: maybe its blob, and one sidecar. -/
theorem slot_of_resourceWrite (noteId id : Uuid) (stored : StoredResource) :
    (tree.perform place (.resource noteId id stored)).slot (.resource id) =
      if tree.listedFirst place noteId id then .stored stored.resource.version
      else tree.slot (.resource id) := by
  split
  · next hfirst =>
      simp only [slot, tree.readResourceSidecar_of_listedFirst place noteId id stored hfirst]
  · next hlater =>
      simp only [slot, tree.readResourceSidecar_of_not_listedFirst place noteId id stored
        (Bool.eq_false_iff.mpr hlater)]

theorem resourceIncomingWins_eq (id : Uuid) (incoming : Version) :
    tree.resourceIncomingWins id incoming.vv incoming.timestamp incoming.writer =
      match tree.readResourceSidecar id with
      | .error failure => .error failure
      | .ok _ => .ok (incoming.beats (tree.slot (.resource id))) := by
  simp only [resourceIncomingWins, slot]
  cases tree.readResourceSidecar id with
  | error failure => rfl
  | ok found => cases found <;> rfl

theorem locate_of_read_some {id : Uuid} {located : Uuid × StoredResource}
    (hread : tree.readResourceSidecar id = .ok (some located)) :
    tree.locateResourceNote id = some located.1 := by
  simp only [readResourceSidecar] at hread
  split at hread
  · simp at hread
  · next noteId hlocate =>
      split at hread
      · simp at hread
      · contradiction
      · simp only [Except.ok.injEq, Option.some.injEq] at hread
        rw [hlocate, ← hread]

theorem resourceFile_of_read {id : Uuid} {located : Uuid × StoredResource}
    (hread : tree.readResourceSidecar id = .ok (some located)) :
    tree.resourceFile located.1 id = some (.readable located.2) := by
  simp only [readResourceSidecar] at hread
  split at hread
  · simp at hread
  · next noteId hlocate =>
      split at hread
      · simp at hread
      · contradiction
      · next stored hfile =>
          simp only [Except.ok.injEq, Option.some.injEq] at hread
          rw [← hread, hfile]

theorem locate_of_read_none {id : Uuid} (hread : tree.readResourceSidecar id = .ok none) :
    tree.locateResourceNote id = none := by
  simp only [readResourceSidecar] at hread
  split at hread
  · next hlocate => exact hlocate
  · next noteId hlocate =>
      have hfile := List.find?_some hlocate
      split at hread
      · next hmissing => simp [hmissing] at hfile
      · contradiction
      · simp at hread

/-- A resource that some version beats can be read. -/
theorem readResourceSidecar_of_beats {id : Uuid} {version : Version}
    (hbeats : version.beats (tree.slot (.resource id)) = true) :
    ∃ found, tree.readResourceSidecar id = .ok found := by
  cases hread : tree.readResourceSidecar id with
  | ok found => exact ⟨found, rfl⟩
  | error failure =>
      simp only [slot, hread] at hbeats
      contradiction

/-- The sidecar a winning resource change writes, and where. -/
theorem applyChange_resource_cases (change : Change) {id : Uuid}
    (hentity : change.entity = .resource id)
    (hbeats : change.version.beats (tree.slot (.resource id)) = true) :
    ∃ noteId stored, stored.resource.version = change.version ∧
      tree.lands place change = tree.listedFirst place noteId id ∧
      (tree.afterChange contentHash place change).slot (.resource id) =
        (tree.perform place (.resource noteId id stored)).slot (.resource id) := by
  obtain ⟨found, hread⟩ := tree.readResourceSidecar_of_beats hbeats
  have hwins := tree.resourceIncomingWins_eq id change.version
  rw [hread, hbeats] at hwins
  cases change with
  | resourceCreate resource data =>
      obtain rfl : resource.id = id := Entity.resource.inj hentity
      change tree.resourceIncomingWins resource.id resource.vv
        (resource.deletedAt.getD resource.createdAt) resource.lastWriter = .ok true at hwins
      cases data with
      | some bytes =>
          refine ⟨resource.noteId, ⟨resource, contentHash bytes⟩, rfl, rfl, ?_⟩
          simp only [afterChange, applyChange, applyResource, hwins, Plan.reading]
          rfl
      | none =>
          cases found with
          | none =>
              refine ⟨resource.noteId, ⟨resource, ""⟩, rfl, rfl, ?_⟩
              simp only [afterChange, applyChange, applyResource, hwins, hread, Plan.reading]
              rfl
          | some located =>
              refine ⟨resource.noteId, ⟨resource, located.2.blobHash⟩, rfl, rfl, ?_⟩
              simp only [afterChange, applyChange, applyResource, hwins, hread, Plan.reading]
              rfl
  | resourceDelete target deletedAt vv lastWriter =>
      obtain rfl : target = id := Entity.resource.inj hentity
      change tree.resourceIncomingWins target vv deletedAt lastWriter = .ok true at hwins
      cases found with
      | none =>
          refine ⟨SYSTEM_RESOURCE_NOTE_ID,
            tombstoned (resourcePlaceholder target deletedAt) deletedAt vv lastWriter, rfl,
            (tree.listedFirst_of_missing place _ _ (tree.locate_of_read_none hread)).symm, ?_⟩
          simp only [afterChange, applyChange, applyResourceDelete, hwins, hread, Plan.reading]
          rfl
      | some located =>
          refine ⟨located.1, tombstoned located.2 deletedAt vv lastWriter, rfl,
            (tree.listedFirst_of_locate place _ _ (tree.locate_of_read_some hread)).symm, ?_⟩
          simp only [afterChange, applyChange, applyResourceDelete, hwins, hread, Plan.reading]
          rfl
  | noteCreate note => contradiction
  | noteUpdate note => contradiction
  | noteDelete target deletedAt vv lastWriter => contradiction
  | notebookCreate notebook => contradiction
  | notebookUpdate notebook => contradiction
  | notebookDelete target deletedAt vv lastWriter => contradiction
  | tagCreate tag => contradiction
  | tagUpdate tag => contradiction
  | tagDelete target deletedAt vv lastWriter => contradiction
  | noteTagAdd noteId tagId updatedAt vv lastWriter => contradiction
  | noteTagRemove noteId tagId updatedAt vv lastWriter => contradiction

end Slot

end FsTree

end Keeplin
