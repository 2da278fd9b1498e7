/-
The resources of a note when its deletion and its restore come from a peer.  A
cycle stamps the live resources of a deleted note; the change that brings the note
back is applied when the logs already merge to the restored note.
-/
import Keeplin.FsNotes
import Mathlib.Data.List.TakeWhile

namespace Keeplin

open VersionVector

namespace FsTree

variable (tree : FsTree)

/-- Each folder lists a resource once. -/
def ListsOnce : Prop :=
  ∀ noteId, ((tree.noteFolder noteId).resources.map Prod.fst).Nodup

/-- Do the logs of the note merge to a live one? -/
def noteLive (id : Uuid) : Bool :=
  match tree.mergeNote id with
  | .ok (some note) => note.deletedAt.isNone
  | _ => false

def resourceLive (noteId id : Uuid) : Bool :=
  match tree.resourceFile noteId id with
  | some (.readable stored) => stored.resource.deletedAt.isNone
  | _ => false

/-- The resource carries a deletion of this instant. -/
def StampedAt (noteId id : Uuid) (instant : DateTime) : Prop :=
  ∃ stored, tree.resourceFile noteId id = some (.readable stored) ∧
    stored.resource.deletedAt = some instant

/-- Neither a log nor the file of the resource. -/
def Spares (noteId id : Uuid) (write : TreeWrite) : Prop :=
  (∀ other device log, write ≠ .noteLog other device log) ∧
    ∀ stored, write ≠ .resource noteId id stored

section Spare

variable {tree} {place : Uuid → Nat} {noteId id : Uuid} {instant : DateTime}

theorem ListsOnce.perform (hlists : tree.ListsOnce) (write : TreeWrite) :
    (tree.perform place write).ListsOnce := by
  intro other
  by_cases hresource : ∃ target found stored, write = .resource target found stored
  · obtain ⟨target, found, stored, rfl⟩ := hresource
    simp only [FsTree.perform, noteFolder_modifyNote]
    split
    · exact Directory.nodup_put (hlists target)
    · exact hlists other
  · rw [resources_perform_other tree fun target found stored heq =>
      hresource ⟨target, found, stored, heq⟩]
    exact hlists other

theorem ListsOnce.performAll (hlists : tree.ListsOnce) (writes : List TreeWrite) :
    (tree.performAll place writes).ListsOnce := by
  induction writes generalizing tree with
  | nil => exact hlists
  | cons write rest ih => exact ih (hlists.perform write)

theorem resourceFile_performAll {writes : List TreeWrite}
    (hother : ∀ write ∈ writes, ∀ stored, write ≠ .resource noteId id stored) :
    (tree.performAll place writes).resourceFile noteId id = tree.resourceFile noteId id := by
  induction writes generalizing tree with
  | nil => rfl
  | cons write rest ih =>
      have hrest : ((tree.perform place write).performAll place rest).resourceFile noteId id =
          (tree.perform place write).resourceFile noteId id :=
        ih fun later hlater => hother later (List.mem_cons_of_mem _ hlater)
      have hwrite := hother write List.mem_cons_self
      refine hrest.trans ?_
      by_cases hresource : ∃ target found stored, write = .resource target found stored
      · obtain ⟨target, found, stored, rfl⟩ := hresource
        rw [resourceFile_perform_resource, if_neg]
        rintro ⟨rfl, rfl⟩
        exact hwrite stored rfl
      · simp only [resourceFile, resources_perform_other tree fun target found stored heq =>
          hresource ⟨target, found, stored, heq⟩]

/-- The cascade of a deletion spares a resource that is deleted already. -/
theorem spares_stamp (hlists : tree.ListsOnce) (hstamped : tree.StampedAt noteId id instant)
    (target : Uuid) (deletedAt : DateTime) :
    (tree.cascadeStampResources target deletedAt).Writes (Spares noteId id) := by
  intro write hwrite
  obtain ⟨found, stored, rewritten, hfile, hchange, rfl⟩ := mem_cascadeResources hwrite
  refine ⟨fun _ _ _ heq => (by cases heq), fun other heq => ?_⟩
  cases heq
  obtain ⟨held, hheld, hdead⟩ := hstamped
  have hsame : tree.resourceFile noteId id = some (.readable stored) :=
    Directory.file?_of_nodup (hlists noteId) hfile
  rw [hsame, Option.some.injEq, Sidecar.readable.injEq] at hheld
  subst hheld
  rw [hdead] at hchange
  simp at hchange

theorem spares_materialize (target : Uuid) :
    (tree.materialize target).Writes (Spares noteId id) :=
  Plan.writes_reading fun merged _ => by
    cases merged.note with
    | none => exact Plan.writes_done none
    | some note => simp [Plan.Writes, projectionWrites, Spares]

/-- A change that finds the note live has found it live before, so it restores
nothing. -/
theorem spares_applyNote (note : Note) : (tree.applyNote note).Writes (Spares noteId id) := by
  refine Plan.writes_reading fun prior hprior =>
    Plan.writes_bind (spares_materialize note.id) fun materialized hmaterialized => ?_
  have hsame : materialized = prior := by
    obtain ⟨merged, hmerge, rfl⟩ := exists_of_map_ok hprior
    simp only [materialize, hmerge, Plan.reading] at hmaterialized
    cases hnote : merged.note with
    | none =>
        rw [hnote] at hmaterialized
        exact (Except.ok.inj hmaterialized).symm
    | some found =>
        rw [hnote] at hmaterialized
        exact (Except.ok.inj hmaterialized).symm
  subst hsame
  split
  · next found oldTs hdeleted =>
      split
      · next hlive =>
          rw [Option.bind_some, hlive] at hdeleted
          contradiction
      · exact Plan.writes_done ()
  · exact Plan.writes_done ()

theorem spares_writeIfWins {wins : Except StorageError Bool} {writes : List TreeWrite}
    (hwrites : ∀ write ∈ writes, Spares noteId id write) :
    (writeIfWins wins writes).Writes (Spares noteId id) :=
  Plan.writes_reading fun value _ => by
    cases value with
    | true => exact hwrites
    | false => exact Plan.writes_done ()

/-- Applying a change leaves the logs, and a deleted resource that the change is
not about. -/
theorem spares_applyChange (contentHash : List UInt8 → String) (hlists : tree.ListsOnce)
    (hstamped : tree.StampedAt noteId id instant) {change : Change}
    (hother : change.entity ≠ .resource id) :
    (tree.applyChange contentHash change).Writes (Spares noteId id) := by
  cases change with
  | noteCreate note => exact spares_applyNote note
  | noteUpdate note => exact spares_applyNote note
  | noteDelete target deletedAt vv lastWriter =>
      exact Plan.writes_bind (spares_materialize target) fun _ _ =>
        spares_stamp hlists hstamped target deletedAt
  | notebookCreate notebook => exact spares_writeIfWins (by simp [Spares])
  | notebookUpdate notebook => exact spares_writeIfWins (by simp [Spares])
  | notebookDelete target deletedAt vv lastWriter =>
      exact spares_writeIfWins (by simp [Spares])
  | tagCreate tag => exact spares_writeIfWins (by simp [Spares])
  | tagUpdate tag => exact spares_writeIfWins (by simp [Spares])
  | tagDelete target deletedAt vv lastWriter => exact spares_writeIfWins (by simp [Spares])
  | noteTagAdd target tagId updatedAt vv lastWriter =>
      exact spares_writeIfWins (by simp [Spares])
  | noteTagRemove target tagId updatedAt vv lastWriter =>
      exact spares_writeIfWins (by simp [Spares])
  | resourceCreate resource data =>
      have hne : resource.id ≠ id := fun heq => hother (congrArg Entity.resource heq)
      refine Plan.writes_reading fun value _ => ?_
      cases value with
      | false => exact Plan.writes_done ()
      | true =>
          cases data with
          | some bytes => simp [Plan.Writes, Spares, hne]
          | none =>
              refine Plan.writes_reading fun found _ => ?_
              cases found <;> simp [Plan.Writes, Spares, hne]
  | resourceDelete target deletedAt vv lastWriter =>
      have hne : target ≠ id := fun heq => hother (congrArg Entity.resource heq)
      refine Plan.writes_reading fun value _ => ?_
      cases value with
      | false => exact Plan.writes_done ()
      | true => exact Plan.writes_reading fun found _ => by simp [Plan.Writes, Spares, hne]

theorem spares_collectNote (tree : FsTree) (noteId id target : Uuid) :
    (tree.collectNote target).Writes (Spares noteId id) := by
  refine Plan.writes_reading fun oldVv _ => Plan.writes_reading fun merged _ => ?_
  split
  · exact Plan.writes_done none
  · split
    · exact Plan.writes_done none
    · simp [Plan.Writes, projectionWrites, Spares]

/-- What a spared resource and the merges look like after the writes. -/
structure Spared (tree after : FsTree) (noteId id : Uuid) : Prop where
  resource : after.resourceFile noteId id = tree.resourceFile noteId id
  merges : ∀ other, after.mergeNote other = tree.mergeNote other
  lists : tree.ListsOnce → after.ListsOnce

theorem spared_performAll (tree : FsTree) (place : Uuid → Nat) {writes : List TreeWrite}
    (hspares : ∀ write ∈ writes, Spares noteId id write) :
    Spared tree (tree.performAll place writes) noteId id where
  resource := resourceFile_performAll fun write hwrite => (hspares write hwrite).2
  merges := fun other => mergeNote_of_logs
    (logs_performAll (fun write hwrite => (hspares write hwrite).1) other)
  lists := fun hlists => hlists.performAll writes

theorem Spared.trans {middle after : FsTree} (hfirst : Spared tree middle noteId id)
    (hsecond : Spared middle after noteId id) : Spared tree after noteId id where
  resource := hsecond.resource.trans hfirst.resource
  merges := fun other => (hsecond.merges other).trans (hfirst.merges other)
  lists := fun hlists => hsecond.lists (hfirst.lists hlists)

theorem Spared.stampedAt {after : FsTree} (hspared : Spared tree after noteId id)
    (hstamped : tree.StampedAt noteId id instant) : after.StampedAt noteId id instant := by
  obtain ⟨stored, hfile, hdead⟩ := hstamped
  exact ⟨stored, hspared.resource.trans hfile, hdead⟩

theorem spared_collectNotes (tree : FsTree) (place : Uuid → Nat) (noteId id : Uuid)
    (ids : List Uuid) :
    Spared tree (collectNotes place tree ids).1 noteId id := by
  induction ids generalizing tree with
  | nil => exact ⟨rfl, fun _ => rfl, fun hlists => hlists⟩
  | cons target rest ih =>
      have hmoved := tree.spared_performAll place (tree.spares_collectNote noteId id target)
      simp only [collectNotes]
      split
      · exact hmoved
      · exact hmoved.trans (ih _)

end Spare

end FsTree

theorem spared_applyChanges {contentHash : List UInt8 → String} {place : Uuid → Nat}
    {noteId id : Uuid} {instant : DateTime} {tree : FsTree} {changes : List Change}
    (hlists : tree.ListsOnce) (hstamped : tree.StampedAt noteId id instant)
    (hother : ∀ change ∈ changes, change.entity ≠ .resource id) :
    tree.Spared (applyChanges contentHash place none tree changes).tree noteId id := by
  induction changes generalizing tree with
  | nil => exact ⟨rfl, fun _ => rfl, fun hlists => hlists⟩
  | cons change rest ih =>
      have hmoved := tree.spared_performAll place
        (FsTree.spares_applyChange contentHash hlists hstamped
          (hother change List.mem_cons_self))
      simp only [applyChanges]
      split
      · exact hmoved
      · exact hmoved.trans (ih (hmoved.lists hlists) (hmoved.stampedAt hstamped)
          fun later hlater => hother later (List.mem_cons_of_mem _ hlater))

section Cycle

variable {format : LineFormat} {contentHash : List UInt8 → String} {place : Uuid → Nat}
  {listing : LogListing} {now : DateTime} {store : FsStore} {changes : List Change}

/-- A cycle that succeeds applies what it received to what the collection left. -/
theorem tree_of_runSync
    (hok : (runSync format contentHash place listing none now store).result = .ok changes) :
    (runSync format contentHash place listing none now store).store.tree =
      (applyChanges contentHash place none (store.tree.collectAdvancedNotes place).1
        changes).tree := by
  simp only [runSync] at hok ⊢
  cases hlast : store.getLastSyncTime with
  | error failure =>
      rw [hlast] at hok
      contradiction
  | ok lastSync =>
      cases hsent : store.getChangesSince format listing lastSync with
      | error failure =>
          rw [hlast] at hok
          simp only [hsent] at hok
          contradiction
      | ok sent =>
          cases hreceived : (store.receiveChanges format place listing).2 with
          | error failure =>
              rw [hlast] at hok
              simp only [hsent, hreceived] at hok
              contradiction
          | ok received =>
              rw [hlast] at hok
              simp only [hsent, hreceived] at hok ⊢
              have htree : (store.receiveChanges format place listing).1.tree =
                  (store.tree.collectAdvancedNotes place).1 := by
                simp only [FsStore.receiveChanges] at hreceived ⊢
                split
                · next failure hread =>
                    rw [hread] at hreceived
                    contradiction
                · rfl
              rw [htree] at hok ⊢
              split at hok
              · contradiction
              · obtain rfl := Except.ok.inj hok
                rfl

theorem spared_runSync {noteId id : Uuid} {instant : DateTime} (hlists : store.tree.ListsOnce)
    (hstamped : store.tree.StampedAt noteId id instant)
    (hother : ∀ change ∈ changes, change.entity ≠ .resource id)
    (hok : (runSync format contentHash place listing none now store).result = .ok changes) :
    store.tree.Spared (runSync format contentHash place listing none now store).store.tree
      noteId id := by
  rw [tree_of_runSync hok]
  have hcollected := store.tree.spared_collectNotes place noteId id store.tree.allNoteIds
  exact hcollected.trans (spared_applyChanges (hcollected.lists hlists)
    (hcollected.stampedAt hstamped) hother)

end Cycle

namespace FsTree

variable (tree : FsTree)

/-- The resources of a folder up to the first that cannot be read. -/
def readableFiles (noteId : Uuid) : List (Uuid × Sidecar StoredResource) :=
  (tree.noteFolder noteId).resources.takeWhile fun file => file.2 ≠ .unreadable

/-- Does the cascade of a deletion come to a live resource? -/
def reachesLive (noteId : Uuid) : Bool :=
  (tree.readableFiles noteId).any fun file =>
    match file.2 with
    | .readable stored => stored.resource.deletedAt.isNone
    | .unreadable => false

section Stamp

variable {tree} {place : Uuid → Nat} {noteId : Uuid}

/-- A cascade gets to the first resource that cannot be read. -/
theorem cascadeResources_takeWhile {change : StoredResource → Option StoredResource}
    (files : List (Uuid × Sidecar StoredResource)) :
    (cascadeResources noteId change files).writes =
      (cascadeResources noteId change
        (files.takeWhile fun file => file.2 ≠ .unreadable)).writes := by
  induction files with
  | nil => rfl
  | cons file rest ih =>
      obtain ⟨id, sidecar⟩ := file
      cases sidecar with
      | unreadable => rfl
      | readable stored =>
          simp only [ne_eq, reduceCtorEq, not_false_eq_true, decide_true,
            List.takeWhile_cons_of_pos, cascadeResources]
          split
          · exact congrArg (TreeWrite.resource noteId id _ :: ·) ih
          · exact ih

theorem readable_of_readableFiles {file : Uuid × Sidecar StoredResource}
    (hfile : file ∈ tree.readableFiles noteId) : ∃ stored, file.2 = .readable stored := by
  have hreadable := List.mem_takeWhile_imp hfile
  cases hsidecar : file.2 with
  | unreadable => simp [hsidecar] at hreadable
  | readable stored => exact ⟨stored, rfl⟩

theorem mem_of_readableFiles {file : Uuid × Sidecar StoredResource}
    (hfile : file ∈ tree.readableFiles noteId) : file ∈ (tree.noteFolder noteId).resources :=
  (List.takeWhile_sublist _).subset hfile

theorem nodup_readableFiles (hlists : tree.ListsOnce) (noteId : Uuid) :
    ((tree.readableFiles noteId).map Prod.fst).Nodup :=
  (hlists noteId).sublist ((List.takeWhile_sublist _).map Prod.fst)

theorem mergeLogs_of_noteLive (hlive : tree.noteLive noteId = true) :
    ∃ merged, tree.mergeLogs noteId = .ok merged := by
  unfold noteLive mergeNote at hlive
  cases hmerge : tree.mergeLogs noteId with
  | error failure =>
      rw [hmerge] at hlive
      contradiction
  | ok merged => exact ⟨merged, rfl⟩

/-- The resource files after a deletion has been applied to a note there is a
merge of. -/
theorem resourceFile_applyNoteDelete (place : Uuid → Nat) (hlists : tree.ListsOnce)
    (hlive : tree.noteLive noteId = true) (deletedAt : DateTime) (id : Uuid) :
    (tree.performAll place (tree.applyNoteDelete noteId deletedAt).writes).resourceFile
        noteId id =
      match Directory.file? (tree.readableFiles noteId) id with
      | some (.readable stored) =>
          if stored.resource.deletedAt = none then
            some (.readable (StoredResource.withDeletedAt stored (some deletedAt)))
          else tree.resourceFile noteId id
      | _ => tree.resourceFile noteId id := by
  obtain ⟨merged, hmerge⟩ := mergeLogs_of_noteLive hlive
  have hresult : ∃ note, (tree.materialize noteId).result = .ok note := by
    simp only [materialize, hmerge, Plan.reading]
    cases merged.note with
    | none => exact ⟨none, rfl⟩
    | some note => exact ⟨some note, rfl⟩
  obtain ⟨note, hnote⟩ := hresult
  have hprojected : (tree.performAll place (tree.materialize noteId).writes).resourceFile
      noteId id = tree.resourceFile noteId id :=
    resourceFile_performAll fun write hwrite => (spares_materialize noteId write hwrite).2
  obtain ⟨_, hfiles⟩ := resourceFile_cascade place noteId _
    (fun file => readable_of_readableFiles) (nodup_readableFiles hlists noteId)
  simp only [applyNoteDelete, Plan.bind, hnote, performAll_append, cascadeStampResources]
  rw [cascadeResources_takeWhile]
  refine (hfiles _ noteId id).trans ?_
  rw [if_pos rfl, hprojected]
  cases Directory.file? (tree.readableFiles noteId) id with
  | none => rfl
  | some file =>
      cases file with
      | unreadable => rfl
      | readable stored =>
          by_cases hdead : stored.resource.deletedAt = none
          · simp only [hdead, ↓reduceIte]
          · simp only [hdead, ↓reduceIte]

/-- A deletion applied to a live note keeps its resources live exactly if there is
none that the cascade comes to. -/
theorem resourcesLive_applyNoteDelete_iff (hlists : tree.ListsOnce)
    (hlive : tree.noteLive noteId = true) (deletedAt : DateTime) :
    (∀ id, tree.resourceLive noteId id = true →
      (tree.performAll place (tree.applyNoteDelete noteId deletedAt).writes).resourceLive
        noteId id = true) ↔ tree.reachesLive noteId = false := by
  have hafter := resourceFile_applyNoteDelete place hlists hlive deletedAt
  constructor
  · intro hkeeps
    by_contra hreaches
    rw [Bool.not_eq_false, reachesLive, List.any_eq_true] at hreaches
    obtain ⟨⟨id, sidecar⟩, hfile, hstored⟩ := hreaches
    obtain ⟨stored, rfl⟩ : ∃ stored, sidecar = .readable stored :=
      readable_of_readableFiles hfile
    have hread : tree.resourceFile noteId id = some (.readable stored) :=
      Directory.file?_of_nodup (hlists noteId) (mem_of_readableFiles hfile)
    have hkept := hkeeps id (by simpa only [resourceLive, hread] using hstored)
    have hlisted : Directory.file? (tree.readableFiles noteId) id = some (.readable stored) :=
      Directory.file?_of_nodup (nodup_readableFiles hlists noteId) hfile
    rw [resourceLive, hafter, hlisted] at hkept
    simp only [Option.isNone_iff_eq_none] at hstored
    simp [hstored, StoredResource.withDeletedAt] at hkept
  · intro hnone id hbefore
    rw [resourceLive, hafter]
    cases hlisted : Directory.file? (tree.readableFiles noteId) id with
    | none => exact hbefore
    | some file =>
        cases file with
        | unreadable => exact hbefore
        | readable stored =>
            have hdead := List.any_eq_false.mp hnone _ (Directory.file?_mem hlisted)
            simp only [Option.isNone_iff_eq_none] at hdead
            simp only [hdead, ↓reduceIte]
            exact hbefore

end Stamp

end FsTree

/-- Whatever logs have come in before a cycle, a resource stamped for a deletion, and
that no change of the batch is about itself, follows its note through the cycle
exactly if the note is not live; and a deletion applied to a live note spares its
resources exactly if it comes to none. -/
theorem attachments_follow_sync {tree : FsTree} (hlists : tree.ListsOnce) (noteId : Uuid)
    (instant : DateTime) :
    (∀ format contentHash place listing now (store : FsStore) changes id, store.tree = tree →
      (runSync format contentHash place listing none now store).result = .ok changes →
      tree.StampedAt noteId id instant → (∀ change ∈ changes, change.entity ≠ .resource id) →
      (((runSync format contentHash place listing none now store).store.tree.resourceLive
            noteId id = true ↔
          (runSync format contentHash place listing none now store).store.tree.noteLive
            noteId = true) ↔
        tree.noteLive noteId = false)) ∧
    ∀ contentHash place vv lastWriter,
      ((tree.noteLive noteId = true → ∀ id, tree.resourceLive noteId id = true →
          (tree.afterChange contentHash place
            (.noteDelete noteId instant vv lastWriter)).resourceLive noteId id = true) ↔
        tree.noteLive noteId = false ∨ tree.reachesLive noteId = false) := by
  constructor
  · rintro format contentHash place listing now store changes id rfl hok hstamped hother
    have hspared := spared_runSync hlists hstamped hother hok
    obtain ⟨stored, hfile, hdead⟩ := hspared.stampedAt hstamped
    have hresource : (runSync format contentHash place listing none now
        store).store.tree.resourceLive noteId id = false := by
      simp [FsTree.resourceLive, hfile, hdead]
    have hnote : (runSync format contentHash place listing none now
        store).store.tree.noteLive noteId = store.tree.noteLive noteId := by
      simp only [FsTree.noteLive, hspared.merges noteId]
    rw [hresource, hnote]
    cases store.tree.noteLive noteId <;> simp
  · intro contentHash place vv lastWriter
    cases hlive : tree.noteLive noteId with
    | false => simp
    | true =>
        simp only [forall_const, Bool.true_eq_false, false_or]
        exact FsTree.resourcesLive_applyNoteDelete_iff hlists hlive instant

namespace AttachmentSyncWitness

open LostChangesWitness

/-- The log of the peer with as many of the note's creation, deletion and restore. -/
def peerLog (entries : Nat) : NoteLog :=
  let first := (∅ : VersionVector).increment "A"
  let second := first.increment "A"
  [⟨first, 1, "A", .upsert note⟩, ⟨second, 5, "A", .tombstone 5⟩,
    ⟨second.increment "A", 7, "A", .upsert note⟩].take entries

/-- The store once the peer's log has come in that far. -/
def replicated (store : FsStore) (entries : Nat) : FsStore :=
  { store with
    tree := store.tree.modifyNote (fun _ => 0) 7 fun folder =>
      { folder with logs := writeNoteLog folder.logs "A" (peerLog entries) } }

def cycle (now : DateTime) (store : FsStore) : SyncRun :=
  runSync format (fun _ => "") (fun _ => 0) [] none now store

def start : FsStore where
  tree :=
    { deviceId := "B"
      notes := [(7, ⟨[], none, none, [(9, .readable ⟨resource, "h"⟩)]⟩)]
      notebooks := [], tags := [], noteTags := [], blobs := [] }
  cursors := fun _ => .start
  syncState := none

/-- The deletion comes in with one cycle. -/
def deleted : FsStore := (cycle 10 (replicated start 2)).store

/-- The restore comes in after it. -/
def pending : FsStore := replicated deleted 3

/-- The peer's restore leaves the resource deleted that its deletion had deleted, and
a deletion that is applied to the restored note deletes a live resource. -/
theorem resource_not_restored :
    (replicated start 2).tree.resourceLive 7 9 = true ∧
      deleted.tree.resourceLive 7 9 = false ∧
      (cycle 20 pending).result.isOk = true ∧
      (cycle 20 pending).store.tree.noteLive 7 = true ∧
      (cycle 20 pending).store.tree.resourceLive 7 9 = false ∧
      (replicated start 3).tree.noteLive 7 = true ∧
      (replicated start 3).tree.resourceLive 7 9 = true ∧
      ((replicated start 3).tree.afterChange (fun _ => "") (fun _ => 0)
        (.noteDelete 7 5 ∅ "A")).resourceLive 7 9 = false := by
  decide

theorem listsOnce_of_all {tree : FsTree}
    (hall : (tree.notes.all fun file => (file.2.resources.map Prod.fst).Nodup) = true) :
    tree.ListsOnce := by
  intro noteId
  rw [FsTree.noteFolder]
  cases hfile : tree.notes.file? noteId with
  | none => exact List.nodup_nil
  | some folder =>
      exact of_decide_eq_true (List.all_eq_true.mp hall _ (Directory.file?_mem hfile))

theorem attachments_follow_sync_pending :
    (((cycle 20 pending).store.tree.resourceLive 7 9 = true ↔
        (cycle 20 pending).store.tree.noteLive 7 = true) ↔
      pending.tree.noteLive 7 = false) ∧
    ((pending.tree.noteLive 7 = true → ∀ id, pending.tree.resourceLive 7 id = true →
        (pending.tree.afterChange (fun _ => "") (fun _ => 0)
          (.noteDelete 7 5 ∅ "A")).resourceLive 7 id = true) ↔
      pending.tree.noteLive 7 = false ∨ pending.tree.reachesLive 7 = false) := by
  have hlists : pending.tree.ListsOnce := listsOnce_of_all (by decide)
  have hstamped : pending.tree.StampedAt 7 9 5 :=
    ⟨⟨{ resource with deletedAt := some 5 }, "h"⟩, by decide, rfl⟩
  have hok : (cycle 20 pending).result = .ok [.noteUpdate note] := by decide
  obtain ⟨hcycle, hdelete⟩ := attachments_follow_sync hlists 7 5
  exact ⟨hcycle _ _ _ _ _ pending _ 9 rfl hok hstamped (by simp [Change.entity]),
    hdelete _ _ ∅ "A"⟩

end AttachmentSyncWitness

end Keeplin
