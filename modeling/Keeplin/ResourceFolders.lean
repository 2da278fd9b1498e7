/-
The note folder a resource is filed in.  It is part of the path of the resource's
sidecar and not of its identity, so a resource that is filed twice is found where
the listing happens to come first.
-/
import Keeplin.JournalledWrites

namespace Keeplin

open VersionVector

inductive ResourceAction where
  | createResource (resource : Resource) (data : List UInt8)
  | deleteResource (id : Uuid) (ts : DateTime)
  | applyResourceCreate (resource : Resource) (data : Option (List UInt8))
  | applyResourceDelete (id : Uuid) (deletedAt : DateTime) (vv : VersionVector)
      (lastWriter : String)

/-- What the call writes; one that is refused writes nothing. -/
def ResourceAction.writes (contentHash : List UInt8 → String) (tree : FsTree) :
    ResourceAction → List TreeWrite
  | createResource resource data =>
      match tree.createResource contentHash resource data with
      | .ok mutation => mutation.writes
      | .error _ => []
  | deleteResource id ts =>
      match tree.deleteResource id ts with
      | .ok mutation => mutation.writes
      | .error _ => []
  | applyResourceCreate resource data =>
      (tree.applyChange contentHash (.resourceCreate resource data)).writes
  | applyResourceDelete id deletedAt vv lastWriter =>
      (tree.applyChange contentHash (.resourceDelete id deletedAt vv lastWriter)).writes

def resourceStep (contentHash : List UInt8 → String) (place : Uuid → Nat) (tree : FsTree)
    (action : ResourceAction) : Option FsTree :=
  some (tree.performAll place (action.writes contentHash tree))

namespace FsTree

variable (tree : FsTree)

/-- No other folder has a file for the resource. -/
def FiledOnlyIn (noteId id : Uuid) : Prop :=
  ∀ other, (tree.resourceFile other id).isSome = true → other = noteId

/-- Every resource has one file at most, and is found in the same folder
whatever the order the folders are listed in. -/
def FoundAlike : Prop :=
  tree.SingleFiled ∧ ∀ notes : Directory Uuid NoteFolder, notes.Perm tree.notes →
    ∀ id, FsTree.locateResourceNote { tree with notes } id = tree.locateResourceNote id

/-- A create that goes through, local or a peer's, files the resource where it
is filed already. -/
def KeepsFolder : ResourceAction → Prop
  | .createResource resource _ => (tree.readResourceSidecar resource.id).isOk = true →
      tree.FiledOnlyIn resource.noteId resource.id
  | .applyResourceCreate resource _ =>
      tree.resourceIncomingWins resource.id resource.vv
          (resource.deletedAt.getD resource.createdAt) resource.lastWriter = .ok true →
        tree.FiledOnlyIn resource.noteId resource.id
  | _ => True

variable {tree} {place : Uuid → Nat} {contentHash : List UInt8 → String}

theorem filedOnlyIn_of_locate_none {id : Uuid} (hlocate : tree.locateResourceNote id = none)
    (noteId : Uuid) : tree.FiledOnlyIn noteId id := by
  intro other hother
  have hnone := List.find?_eq_none.mp hlocate other (mem_allNoteIds_of_resourceFile hother)
  exact absurd hother hnone

/-- Filing a resource keeps one file of each exactly when it goes where the
resource is. -/
theorem singleFiled_perform_iff (hsingle : tree.SingleFiled) (noteId id : Uuid)
    (stored : StoredResource) :
    (tree.perform place (.resource noteId id stored)).SingleFiled ↔
      tree.FiledOnlyIn noteId id := by
  constructor
  · intro hafter other hother
    refine hafter id other noteId ?_ ?_
    · rw [resourceFile_perform_resource]
      split
      · rfl
      · exact hother
    · rw [resourceFile_perform_resource, if_pos ⟨rfl, rfl⟩]
      rfl
  · intro honly target one other hone hother
    rw [resourceFile_perform_resource] at hone hother
    by_cases htarget : id = target
    · subst htarget
      have hin : ∀ folder, (if noteId = folder ∧ id = id then some (Sidecar.readable stored)
          else tree.resourceFile folder id).isSome = true → folder = noteId := by
        intro folder hfolder
        by_cases hsame : noteId = folder
        · exact hsame.symm
        · rw [if_neg fun hboth => hsame hboth.1] at hfolder
          exact honly folder hfolder
      exact (hin one hone).trans (hin other hother).symm
    · rw [if_neg fun hboth => htarget hboth.2] at hone hother
      exact hsingle target one other hone hother

/-- A payload beside it does not matter. -/
theorem singleFiled_payload_iff (hsingle : tree.SingleFiled) (noteId id : Uuid) (hash : String)
    (data : List UInt8) (stored : StoredResource) :
    (tree.performAll place [.blob noteId hash data, .resource noteId id stored]).SingleFiled ↔
      tree.FiledOnlyIn noteId id := by
  have hpayload : (tree.perform place (.blob noteId hash data)).SingleFiled := hsingle
  exact singleFiled_perform_iff hpayload noteId id stored

theorem filedOnlyIn_of_read (hsingle : tree.SingleFiled) {id : Uuid}
    {located : Uuid × StoredResource} (hread : tree.readResourceSidecar id = .ok (some located)) :
    tree.FiledOnlyIn located.1 id := by
  intro other hother
  refine hsingle id other located.1 hother ?_
  rw [tree.resourceFile_of_read hread]
  rfl

/-- A call keeps one file of each resource exactly when it keeps the folder of the
resource it files. -/
theorem singleFiled_step_iff (hsingle : tree.SingleFiled) (action : ResourceAction) :
    (tree.performAll place (action.writes contentHash tree)).SingleFiled ↔
      tree.KeepsFolder action := by
  cases action with
  | createResource resource data =>
      simp only [ResourceAction.writes, createResource, nextResourceVv, KeepsFolder]
      cases hread : tree.readResourceSidecar resource.id with
      | error failure =>
          refine iff_of_true hsingle fun hok => ?_
          contradiction
      | ok found =>
          exact (singleFiled_payload_iff hsingle _ _ _ _ _).trans
            ⟨fun honly _ => honly, fun honly => honly rfl⟩
  | deleteResource id ts =>
      simp only [ResourceAction.writes, deleteResource, KeepsFolder, iff_true]
      cases hread : tree.readResourceSidecar id with
      | error failure => exact hsingle
      | ok found =>
          cases found with
          | none => exact hsingle
          | some located =>
              exact (singleFiled_perform_iff hsingle _ _ _).mpr (filedOnlyIn_of_read hsingle hread)
  | applyResourceCreate resource data =>
      simp only [ResourceAction.writes, applyChange, applyResource, KeepsFolder]
      cases hwins : tree.resourceIncomingWins resource.id resource.vv
          (resource.deletedAt.getD resource.createdAt) resource.lastWriter with
      | error failure =>
          refine iff_of_true hsingle fun hok => ?_
          contradiction
      | ok wins =>
          cases wins with
          | false =>
              refine iff_of_true hsingle fun hok => ?_
              contradiction
          | true =>
              refine Iff.trans ?_ (forall_prop_of_true rfl).symm
              cases data with
              | some bytes => exact singleFiled_payload_iff hsingle _ _ _ _ _
              | none =>
                  obtain ⟨found, hread, -⟩ := exists_of_map_ok hwins
                  simp only [Plan.reading, hread]
                  cases found with
                  | none => exact singleFiled_perform_iff hsingle _ _ _
                  | some located => exact singleFiled_perform_iff hsingle _ _ _
  | applyResourceDelete id deletedAt vv lastWriter =>
      simp only [ResourceAction.writes, applyChange, applyResourceDelete, KeepsFolder, iff_true]
      cases hwins : tree.resourceIncomingWins id vv deletedAt lastWriter with
      | error failure => exact hsingle
      | ok wins =>
          cases wins with
          | false => exact hsingle
          | true =>
              obtain ⟨found, hread, -⟩ := exists_of_map_ok hwins
              simp only [Plan.reading, hread]
              refine (singleFiled_perform_iff hsingle _ _ _).mpr ?_
              cases found with
              | none => exact filedOnlyIn_of_locate_none (tree.locate_of_read_none hread) _
              | some located => exact filedOnlyIn_of_read hsingle hread

theorem nodup_perform (hlisted : (tree.notes.map Prod.fst).Nodup) (write : TreeWrite) :
    ((tree.perform place write).notes.map Prod.fst).Nodup := by
  cases write with
  | noteLog | noteMd | noteMeta | resource => exact Directory.nodup_put hlisted
  | notebook | tag | noteTag | blob => exact hlisted

theorem nodup_performAll (hlisted : (tree.notes.map Prod.fst).Nodup) (writes : List TreeWrite) :
    ((tree.performAll place writes).notes.map Prod.fst).Nodup := by
  induction writes generalizing tree with
  | nil => exact hlisted
  | cons write rest ih => exact ih (nodup_perform hlisted write)

/-- The folder that is found is the one that has a file. -/
theorem locateResourceNote_eq_some_iff (hsingle : tree.SingleFiled) {noteId id : Uuid} :
    tree.locateResourceNote id = some noteId ↔ (tree.resourceFile noteId id).isSome = true := by
  constructor
  · intro hlocate
    simpa using List.find?_some hlocate
  · intro hfile
    exact locateResourceNote_of_only hfile fun other hother =>
      hsingle id other noteId hother hfile

theorem foundAlike_of_singleFiled (hsingle : tree.SingleFiled)
    (hlisted : (tree.notes.map Prod.fst).Nodup) : tree.FoundAlike := by
  refine ⟨hsingle, fun notes hperm id => ?_⟩
  let relisted : FsTree := { tree with notes }
  have hfile : ∀ noteId target, relisted.resourceFile noteId target =
      tree.resourceFile noteId target := by
    intro noteId target
    simp only [resourceFile, noteFolder, relisted, Directory.file?_perm hperm hlisted]
  have hrelisted : relisted.SingleFiled := by
    intro target one other hone hother
    rw [hfile] at hone hother
    exact hsingle target one other hone hother
  ext noteId
  change relisted.locateResourceNote id = some noteId ↔ _
  rw [locateResourceNote_eq_some_iff hrelisted, locateResourceNote_eq_some_iff hsingle, hfile]

end FsTree

/-- A store in which every resource has one file has it in every state that is
reached exactly when each create that goes through keeps the folder. -/
theorem resourceRun_foundAlike_iff (contentHash : List UInt8 → String) (place : Uuid → Nat)
    {start : FsTree} (hsingle : start.SingleFiled) (hlisted : (start.notes.map Prod.fst).Nodup)
    (actions : List ResourceAction) :
    (∀ front, front <+: actions → ∀ tree,
      runAll (resourceStep contentHash place) start front = some tree → tree.FoundAlike) ↔
      MeetsAll (resourceStep contentHash place) FsTree.KeepsFolder start actions := by
  have hnodup : ∀ front tree, runAll (resourceStep contentHash place) start front = some tree →
      (tree.notes.map Prod.fst).Nodup := fun front tree hrun =>
    runAll_invariant (resourceStep contentHash place)
      (fun tree action next hkept hstep =>
        Option.some.inj hstep ▸ FsTree.nodup_performAll hkept _) hlisted hrun
  have hiff : (∀ front, front <+: actions → ∀ tree,
      runAll (resourceStep contentHash place) start front = some tree → tree.SingleFiled) ↔
      MeetsAll (resourceStep contentHash place) FsTree.KeepsFolder start actions :=
    forall_reached_iff_meetsAll (resourceStep contentHash place) (fun tree action => nofun)
      (fun tree action _ next hkept hstep =>
        Option.some.inj hstep ▸ FsTree.singleFiled_step_iff hkept action) hsingle
  rw [← hiff]
  constructor
  · exact fun halike front hfront tree hrun => (halike front hfront tree hrun).1
  · exact fun hsingled front hfront tree hrun =>
      FsTree.foundAlike_of_singleFiled (hsingled front hfront tree hrun) (hnodup front tree hrun)

namespace ResourceFoldersWitness

def empty : FsTree := ⟨"B", [], [], [], [], []⟩

theorem empty_singleFiled : empty.SingleFiled := by
  intro id noteId other hfile
  contradiction

def place : Uuid → Nat := fun _ => 0

def vv (count : Nat) : VersionVector := (∅ : VersionVector).insert "A" count

def resource (count : Nat) : Resource :=
  { id := 9, noteId := 5, title := "photo", mimeType := "image/png", fileName := "p.png"
    size := 1, durationMs := none, dimensions := none, createdAt := 1, deletedAt := none
    vv := vv count, lastWriter := "A" }

/-- A delete that comes first files the resource, and the create that is older
loses to it. -/
def stale : List ResourceAction :=
  [.applyResourceDelete 9 3 (vv 2) "A", .applyResourceCreate (resource 1) none]

theorem resourceRun_foundAlike_stale :
    (∀ front, front <+: stale → ∀ tree,
      runAll (resourceStep (fun _ => "") place) empty front = some tree → tree.FoundAlike) ↔
      MeetsAll (resourceStep (fun _ => "") place) FsTree.KeepsFolder empty stale :=
  resourceRun_foundAlike_iff (fun _ => "") place empty_singleFiled List.nodup_nil stale

/-- A create that is newer than the delete files the resource again. -/
def recreated : List ResourceAction :=
  [.applyResourceDelete 9 3 (vv 2) "A", .applyResourceCreate (resource 3) none]

theorem recreated_resource_filed_twice :
    ¬∀ (contentHash : List UInt8 → String) (place : Uuid → Nat) (deviceId : String)
      (actions : List ResourceAction) (tree : FsTree),
      runAll (resourceStep contentHash place) ⟨deviceId, [], [], [], [], []⟩ actions = some tree →
        tree.FoundAlike := by
  intro halike
  have hsingle := (halike (fun _ => "") place "B" recreated _ rfl).1
  have hsame := hsingle 9 SYSTEM_RESOURCE_NOTE_ID 5 (by decide) (by decide)
  contradiction

end ResourceFoldersWitness

end Keeplin
