/-
The resources of a note under the local calls that delete and restore them.  In
both stores a note's deletion instant marks the resources that went with it; the
rows and the folders are two views of one cascade.
-/
import Keeplin.DeletionCascade
import Keeplin.FsNotes

namespace Keeplin

/-- A local call on resources or their notes.  The update is one that leaves the
note live. -/
inductive AttachmentCall where
  | createResource (resource : Resource) (data : List UInt8)
  | deleteResource (id : Uuid)
  | deleteNote (id : Uuid)
  | updateNote (note : Note) (hlive : note.deletedAt = none)
  | purgeDeletedResources (olderThan : DateTime)

/-- A call with the clock where the mutator reads it and where the journal or the
note log does. -/
structure AttachmentStep where
  call : AttachmentCall
  ts : DateTime
  recordedAt : DateTime

abbrev AttachmentView := DeletionCascade Uuid Uuid DateTime

namespace Db

variable (db : Db)

/-- The bytes of resources deleted before the cutoff go; their rows stay. -/
def purgeDeletedResources (olderThan : DateTime) : Db × Nat :=
  let purges (row : ResourceRow) : Bool :=
    row.deletedAt.any (fun deletedAt => deletedAt < olderThan) && row.data.isSome
  ({ db with
    resources := db.resources.map fun _ row =>
      if purges row then { row with data := none } else row },
    db.resources.toList.countP fun entry => purges entry.2)

def attachmentCall (step : AttachmentStep) : Except StorageError Db :=
  match step.call with
  | .createResource resource data =>
      (db.createResource resource data step.recordedAt).map Prod.fst
  | .deleteResource id => db.deleteResource id step.ts step.recordedAt
  | .deleteNote id => db.deleteNote id step.ts step.recordedAt
  | .updateNote note _ => (db.updateNote note step.recordedAt).map Prod.fst
  | .purgeDeletedResources olderThan => .ok (db.purgeDeletedResources olderThan).1

/-- A call that fails is rolled back. -/
def performCall (step : AttachmentStep) : Db × Except StorageError Unit :=
  match db.attachmentCall step with
  | .ok after => (after, .ok ())
  | .error failure => (db, .error failure)

def attachments : AttachmentView where
  owner := fun id => db.notes[id]?.map NoteRow.deletedAt
  item := fun noteId id =>
    (db.resources[id]?.filter fun row => row.noteId = noteId).map ResourceRow.deletedAt

end Db

namespace FsTree

variable (contentHash : List UInt8 → String) (place : Uuid → Nat) (tree : FsTree)

/-- The readable resources of a folder. -/
def storedResources (noteId : Uuid) : List StoredResource :=
  (tree.noteFolder noteId).resources.filterMap fun file =>
    match file.2 with
    | .readable stored => some stored
    | .unreadable => none

/-- Does a purge remove the payload?  It belongs to a resource that was deleted
before the cutoff and to no live one of the note. -/
def purges (olderThan : DateTime) (noteId : Uuid) (hash : String) : Bool :=
  (tree.storedResources noteId).any (fun stored =>
      stored.resource.deletedAt.any (fun deletedAt => deletedAt < olderThan) &&
        stored.blobHash = hash && stored.blobHash ≠ "") &&
    !(tree.storedResources noteId).any fun stored =>
      stored.resource.deletedAt.isNone && stored.blobHash = hash

def purgeDeletedResources (olderThan : DateTime) : FsTree × Nat :=
  ({ tree with
    blobs := tree.blobs.filter fun file => !tree.purges olderThan file.1.1 file.1.2 },
    tree.blobs.countP fun file => tree.purges olderThan file.1.1 file.1.2)

/-- A call that fails has made the writes before the failure. -/
def performCall (step : AttachmentStep) : FsTree × Except StorageError Unit :=
  match step.call with
  | .createResource resource data =>
      match tree.createResource contentHash resource data with
      | .ok mutation => (tree.performAll place mutation.writes, .ok ())
      | .error failure => (tree, .error failure)
  | .deleteResource id =>
      match tree.deleteResource id step.ts with
      | .ok mutation => (tree.performAll place mutation.writes, .ok ())
      | .error failure => (tree, .error failure)
  | .deleteNote id =>
      let plan := tree.deleteNote place id step.ts step.recordedAt
      (tree.performAll place plan.writes, plan.result)
  | .updateNote note _ =>
      let plan := tree.updateNote place note step.recordedAt
      (tree.performAll place plan.writes, plan.result.map fun _ => ())
  | .purgeDeletedResources olderThan => ((tree.purgeDeletedResources olderThan).1, .ok ())

def attachments : AttachmentView where
  owner := fun id =>
    match tree.mergeNote id with
    | .ok (some note) => some note.deletedAt
    | _ => none
  item := fun noteId id =>
    match tree.resourceFile noteId id with
    | some (.readable stored) => some stored.resource.deletedAt
    | _ => none

end FsTree

/-- A call that succeeds is one step of the cascade. -/
def AttachmentStep.Effect (step : AttachmentStep) (before after : AttachmentView) : Prop :=
  match step.call with
  | .createResource resource _ =>
      after = before.put resource.noteId resource.id resource.deletedAt
  | .deleteResource id =>
      ∃ noteId, before.item noteId id ≠ none ∧ after = before.put noteId id (some step.ts)
  | .deleteNote id => before.owner id ≠ none ∧ after = before.delete id step.ts
  | .updateNote note _ => after = before.restore note.id
  | .purgeDeletedResources _ => after = before

/-- The calls of a store act on its view as the steps of the cascade do, in the
states the calls keep it in. -/
structure Cascades {S : Type} (perform : S → AttachmentStep → S × Except StorageError Unit)
    (view : S → AttachmentView) (good : S → Prop) : Prop where
  keeps : ∀ store step, good store → good (perform store step).1
  ok : ∀ store step, good store → (perform store step).2 = .ok () →
    step.Effect (view store) (view (perform store step).1)
  error : ∀ store step failure, good store → (perform store step).2 = .error failure →
    view (perform store step).1 = view store

namespace Db

variable {db after : Db}

theorem attachments_createResource {resource : Resource} {data : List UInt8}
    {changedAt : DateTime} {result : Db × Resource}
    (hcall : db.createResource resource data changedAt = .ok result) :
    result.1.attachments =
      db.attachments.put resource.noteId resource.id resource.deletedAt := by
  simp only [createResource] at hcall
  split at hcall
  · contradiction
  · next hnew =>
      cases hcall
      have hnone : db.resources[resource.id]? = none := by simpa using hnew
      apply DeletionCascade.ext
      · rfl
      · funext noteId id
        simp only [attachments, recordChange, DeletionCascade.put,
          Std.ExtTreeMap.getElem?_insert, Std.LawfulEqCmp.compare_eq_iff_eq]
        by_cases hnote : noteId = resource.noteId
        · subst hnote
          by_cases hid : id = resource.id
          · subst hid
            simp [ResourceRow.ofResource]
          · simp [hid, Ne.symm hid]
        · by_cases hid : id = resource.id
          · subst hid
            simp [Function.update_of_ne hnote, hnone, ResourceRow.ofResource, Ne.symm hnote]
          · simp [Function.update_of_ne hnote, Ne.symm hid]

theorem attachments_deleteResource {id : Uuid} {ts changedAt : DateTime}
    (hcall : db.deleteResource id ts changedAt = .ok after) :
    ∃ noteId, db.attachments.item noteId id ≠ none ∧
      after.attachments = db.attachments.put noteId id (some ts) := by
  simp only [deleteResource] at hcall
  split at hcall
  · contradiction
  · next row hrow =>
      cases hcall
      refine ⟨row.noteId, by simp [attachments, hrow], ?_⟩
      apply DeletionCascade.ext
      · rfl
      · funext noteId found
        simp only [attachments, recordChange, DeletionCascade.put,
          Std.ExtTreeMap.getElem?_insert, Std.LawfulEqCmp.compare_eq_iff_eq]
        by_cases hnote : noteId = row.noteId
        · subst hnote
          by_cases hid : found = id
          · subst hid
            simp
          · simp [hid, Ne.symm hid]
        · by_cases hid : found = id
          · subst hid
            simp [Function.update_of_ne hnote, hrow, Option.filter, Ne.symm hnote]
          · simp [Function.update_of_ne hnote, Ne.symm hid]

theorem attachments_deleteNote {id : Uuid} {ts changedAt : DateTime}
    (hcall : db.deleteNote id ts changedAt = .ok after) :
    db.attachments.owner id ≠ none ∧ after.attachments = db.attachments.delete id ts := by
  simp only [deleteNote] at hcall
  split at hcall
  · contradiction
  · next row hrow =>
      cases hcall
      refine ⟨by simp [attachments, hrow], ?_⟩
      apply DeletionCascade.ext
      · funext noteId
        simp only [attachments, recordChange, cascadeStampResources, DeletionCascade.delete,
          Std.ExtTreeMap.getElem?_insert, Std.LawfulEqCmp.compare_eq_iff_eq]
        by_cases hid : noteId = id
        · subst hid
          simp
        · simp [Function.update_of_ne hid, Ne.symm hid]
      · funext noteId found
        simp only [attachments, recordChange, cascadeStampResources, DeletionCascade.delete,
          Std.ExtTreeMap.getElem?_map]
        cases hfound : db.resources[found]? with
        | none =>
            by_cases hnote : noteId = id
            · subst hnote
              simp [hfound]
            · simp [Function.update_of_ne hnote, hfound]
        | some resource =>
            by_cases hnote : noteId = id
            · subst hnote
              by_cases hown : resource.noteId = noteId
              · cases hdeleted : resource.deletedAt <;>
                  simp [Option.filter, hfound, hown, hdeleted]
              · simp [Option.filter, hfound, hown]
            · rw [Function.update_of_ne hnote]
              by_cases hown : resource.noteId = id
              · have hother : resource.noteId ≠ noteId := fun heq => hnote (heq ▸ hown)
                simp only [hfound, Option.map_some, Option.filter, hown]
                split <;> simp [Ne.symm hnote, hother]
              · simp [hfound, hown]

theorem attachments_updateNote {note : Note} (hlive : note.deletedAt = none)
    {changedAt : DateTime} {result : Db × Note}
    (hcall : db.updateNote note changedAt = .ok result) :
    result.1.attachments = db.attachments.restore note.id := by
  simp only [updateNote] at hcall
  split at hcall
  · contradiction
  · next row hrow =>
      cases hcall
      apply DeletionCascade.ext
      · funext noteId
        have hnotes : ∀ (store : Db) (prior : Option DateTime) (restored : Note),
            (store.restoreResources restored prior).notes = store.notes := by
          intro store prior restored
          unfold restoreResources
          split <;> rfl
        simp only [attachments, recordChange, refreshNoteLinks, hnotes, DeletionCascade.restore,
          Std.ExtTreeMap.getElem?_insert, Std.LawfulEqCmp.compare_eq_iff_eq]
        by_cases hid : noteId = note.id
        · subst hid
          simp [NoteRow.ofNote, hlive]
        · simp [Function.update_of_ne hid, Ne.symm hid]
      · funext noteId found
        simp only [attachments, recordChange, refreshNoteLinks, restoreResources, hlive,
          DeletionCascade.restore]
        cases hdeleted : row.deletedAt with
        | none =>
            by_cases hnote : noteId = note.id
            · subst hnote
              simp only [Function.update_self, hrow, Option.map_some, hdeleted]
              split <;> simp_all
            · simp [Function.update_of_ne hnote]
        | some deletedAt =>
            simp only [cascadeUnstampResources, Std.ExtTreeMap.getElem?_map]
            cases hfound : db.resources[found]? with
            | none =>
                by_cases hnote : noteId = note.id
                · subst hnote
                  simp [hfound]
                · simp [Function.update_of_ne hnote, hfound]
            | some resource =>
                by_cases hnote : noteId = note.id
                · subst hnote
                  by_cases hown : resource.noteId = note.id
                  · cases hstamp : resource.deletedAt with
                    | none => simp [Option.filter, hfound, hown, hstamp]
                    | some stamp =>
                        by_cases hcarries : stamp = deletedAt
                        · simp [Option.filter, hfound, hown, hstamp, hcarries, hrow, hdeleted]
                        · simp [Option.filter, hfound, hown, hstamp, hcarries, hrow, hdeleted,
                            Ne.symm hcarries]
                  · simp [Option.filter, hfound, hown]
                · rw [Function.update_of_ne hnote]
                  by_cases hown : resource.noteId = note.id
                  · simp only [hfound, Option.map_some, Option.filter, hown]
                    split <;> simp [Ne.symm hnote, hown]
                  · simp [hfound, hown]

theorem attachments_purgeDeletedResources (olderThan : DateTime) :
    (db.purgeDeletedResources olderThan).1.attachments = db.attachments := by
  apply DeletionCascade.ext
  · rfl
  · funext noteId found
    simp only [attachments, purgeDeletedResources, Std.ExtTreeMap.getElem?_map]
    cases db.resources[found]? with
    | none => rfl
    | some row =>
        by_cases hown : row.noteId = noteId
        · simp only [Option.map_some, Option.filter]
          split <;> simp [hown]
        · simp only [Option.map_some, Option.filter]
          split <;> simp [hown]

/-- The database's calls are steps of the cascade. -/
theorem cascades : Cascades performCall attachments fun _ => True where
  keeps := fun _ _ _ => trivial
  ok := by
    intro db step _ hok
    obtain ⟨call, ts, recordedAt⟩ := step
    simp only [performCall] at hok ⊢
    split at hok
    · next after hcall =>
        cases call with
        | createResource resource data =>
            obtain ⟨result, hresult, rfl⟩ := exists_of_map_ok hcall
            exact attachments_createResource hresult
        | deleteResource id => exact attachments_deleteResource hcall
        | deleteNote id => exact attachments_deleteNote hcall
        | updateNote note hlive =>
            obtain ⟨result, hresult, rfl⟩ := exists_of_map_ok hcall
            exact attachments_updateNote hlive hresult
        | purgeDeletedResources olderThan =>
            obtain rfl := Except.ok.inj hcall
            exact attachments_purgeDeletedResources olderThan
    · contradiction
  error := by
    intro db step failure _ herror
    simp only [performCall] at herror ⊢
    split at herror
    · contradiction
    · rfl

end Db

namespace FsTree

variable {contentHash : List UInt8 → String} {place : Uuid → Nat} {tree after : FsTree}

theorem attachments_perform_resource {noteId id : Uuid} {stored : StoredResource} :
    (tree.perform place (.resource noteId id stored)).attachments =
      tree.attachments.put noteId id stored.resource.deletedAt := by
  have hmerge : ∀ other, (tree.perform place (.resource noteId id stored)).mergeNote other =
      tree.mergeNote other :=
    fun other => mergeNote_of_logs (logs_perform_other tree (by simp) other)
  apply DeletionCascade.ext
  · simp only [attachments, hmerge, DeletionCascade.put]
  · funext other found
    simp only [attachments, resourceFile_perform_resource, DeletionCascade.put]
    by_cases hother : other = noteId
    · subst hother
      by_cases hfound : found = id
      · subst hfound
        simp
      · simp [hfound, Ne.symm hfound]
    · simp [Function.update_of_ne hother, Ne.symm hother]

theorem attachments_createResource {resource : Resource} {data : List UInt8}
    {mutation : Mutation} (hcall : tree.createResource contentHash resource data = .ok mutation) :
    (tree.performAll place mutation.writes).attachments =
      tree.attachments.put resource.noteId resource.id resource.deletedAt := by
  obtain ⟨vv, _, rfl⟩ := exists_of_map_ok hcall
  simp only [performAll, List.foldl_cons, List.foldl_nil, attachments_perform_resource]
  rfl

theorem attachments_deleteResource {id : Uuid} {ts : DateTime} {mutation : Mutation}
    (hcall : tree.deleteResource id ts = .ok mutation) :
    ∃ noteId, tree.attachments.item noteId id ≠ none ∧
      (tree.performAll place mutation.writes).attachments =
        tree.attachments.put noteId id (some ts) := by
  simp only [deleteResource] at hcall
  split at hcall
  · contradiction
  · contradiction
  · next noteId stored hread =>
      cases hcall
      refine ⟨noteId, ?_, ?_⟩
      · have hfile := tree.resourceFile_of_read hread
        simp [attachments, hfile]
      · simp only [performAll, List.foldl_cons, List.foldl_nil, attachments_perform_resource,
          tombstoned]

/-- An appended operation is what the view reads of the note, if it has any
content. -/
theorem Appended.owner {id : Uuid} {op : NoteOp} {note : Option Note}
    (happended : Appended tree after id op note) :
    after.attachments.owner = Function.update tree.attachments.owner id
      (note.map Note.deletedAt) := by
  funext other
  by_cases hother : other = id
  · subst hother
    simp only [attachments, happended.merged, Function.update_self]
    cases note <;> rfl
  · simp only [attachments, happended.others other hother, Function.update_of_ne hother]

theorem Appended.item {id : Uuid} {op : NoteOp} {note : Option Note}
    (happended : Appended tree after id op note) :
    after.attachments.item = tree.attachments.item := by
  funext noteId found
  simp only [attachments, resourceFile, happended.resources noteId]

section Cascade

variable {noteId : Uuid} {change : StoredResource → Option StoredResource}

/-- A cascade over the resources a folder has been read to have. -/
theorem attachments_cascade (htidy : tree.Tidy)
    (hsame : (after.noteFolder noteId).resources = (tree.noteFolder noteId).resources) :
    (after.performAll place (cascadeResources noteId change
        (tree.noteFolder noteId).resources).writes).attachments =
      { owner := after.attachments.owner
        item := Function.update after.attachments.item noteId fun id =>
          match tree.resourceFile noteId id with
          | some (.readable stored) =>
              some ((change stored).getD stored).resource.deletedAt
          | _ => none } := by
  obtain ⟨_, hfiles⟩ := resourceFile_cascade place noteId change
    (htidy.readable noteId) (htidy.resources noteId)
  apply DeletionCascade.ext
  · simp only [attachments, mergeNote_cascade]
  · funext other id
    simp only [attachments, hfiles]
    by_cases hother : noteId = other
    · subst hother
      simp only [↓reduceIte, Function.update_self, resourceFile, hsame]
      cases Directory.file? (tree.noteFolder noteId).resources id with
      | none => rfl
      | some file =>
          cases file with
          | unreadable => rfl
          | readable stored => cases hchange : change stored <;> simp [hchange]
    · simp only [hother, ↓reduceIte, Function.update_of_ne (Ne.symm hother)]

end Cascade

theorem owner_eq_none_iff {id : Uuid} :
    tree.attachments.owner id = none ↔ ¬∃ note, tree.mergeNote id = .ok (some note) := by
  simp only [attachments]
  split
  · next note hmerge => simp [hmerge]
  · next hother =>
      simp only [true_iff, not_exists]
      exact hother

/-- A deletion that fails has found no content to delete. -/
theorem attachments_deleteNote (htidy : tree.Tidy) {id : Uuid} {ts timestamp : DateTime}
    {plan : Plan Unit} (hplan : plan = tree.deleteNote place id ts timestamp) :
    (plan.result = .ok () ∧ tree.attachments.owner id ≠ none ∧
        (tree.performAll place plan.writes).attachments = tree.attachments.delete id ts) ∨
      (plan.result ≠ .ok () ∧
        (tree.performAll place plan.writes).attachments = tree.attachments) := by
  subst hplan
  unfold deleteNote
  split
  · exact Or.inr ⟨by simp [Plan.fail], rfl⟩
  rcases appendNoteOp_effect (htidy.logs id) place timestamp (.tombstone ts) with
    ⟨hwrites, hpanic⟩ | ⟨note, happended, hresult⟩
  · right
    simp [Plan.bind, hpanic, hwrites, performAll]
  · have hexisted := happended.existed ⟨ts, rfl⟩
    obtain ⟨entry, hop, hnote⟩ := happended.resolved
    cases note with
    | none =>
        right
        have howner : tree.attachments.owner id = none := by
          rw [owner_eq_none_iff, ← hexisted]
          simp
        refine ⟨by simp [Plan.bind, hresult], ?_⟩
        simp only [Plan.bind, hresult]
        apply DeletionCascade.ext
        · rw [happended.owner, Option.map_none, ← howner, Function.update_eq_self]
        · exact happended.item
    | some note =>
        left
        have hdeleted : note.deletedAt = some ts := by
          rw [resolvedNote, hop] at hnote
          obtain ⟨content, _, rfl⟩ := Option.map_eq_some_iff.mp hnote.symm
          rfl
        obtain ⟨hok, _⟩ := resourceFile_cascade place id _
          (htidy.readable id) (htidy.resources id)
        refine ⟨?_, ?_, ?_⟩
        · simp only [Plan.bind, hresult]
          exact hok
        · rw [Ne, owner_eq_none_iff, not_not, ← hexisted]
          rfl
        · simp only [Plan.bind, hresult, performAll_append, cascadeStampResources]
          rw [attachments_cascade htidy (happended.resources id)]
          apply DeletionCascade.ext
          · simp only [happended.owner, DeletionCascade.delete, Option.map_some, hdeleted]
          · simp only [happended.item, DeletionCascade.delete]
            congr 1
            funext found
            simp only [attachments]
            cases hfile : tree.resourceFile id found with
            | none => rfl
            | some file =>
                cases file with
                | unreadable => rfl
                | readable stored =>
                    cases hstamp : stored.resource.deletedAt with
                    | none => simp [hstamp, StoredResource.withDeletedAt]
                    | some stamp => simp [hstamp]

theorem attachments_updateNote (htidy : tree.Tidy) {note : Note} {timestamp : DateTime}
    (hlive : note.deletedAt = none) {plan : Plan Note}
    (hplan : plan = tree.updateNote place note timestamp) :
    ((∃ merged, plan.result = .ok merged) ∧
        (tree.performAll place plan.writes).attachments = tree.attachments.restore note.id) ∨
      ((∃ failure, plan.result = .error failure) ∧
        (tree.performAll place plan.writes).attachments = tree.attachments) := by
  subst hplan
  unfold updateNote
  split
  · exact Or.inr ⟨⟨_, rfl⟩, rfl⟩
  cases hprior : tree.mergeNote note.id with
  | error failure => exact Or.inr ⟨⟨failure, rfl⟩, rfl⟩
  | ok prior =>
      rcases appendNoteOp_effect (htidy.logs note.id) place timestamp (.upsert note) with
        ⟨hwrites, hpanic⟩ | ⟨merged, happended, hresult⟩
      · right
        simp [Plan.reading, Plan.bind, hpanic, hwrites, performAll]
      · left
        obtain ⟨entry, hop, hmerged⟩ := happended.resolved
        rw [resolvedNote, hop] at hmerged
        subst hmerged
        have howner : tree.attachments.owner note.id = prior.map Note.deletedAt := by
          simp only [attachments, hprior]
          cases prior <;> rfl
        simp only [Plan.reading, Plan.bind, hresult, hlive]
        cases hdeleted : prior.bind Note.deletedAt with
        | none =>
            refine ⟨⟨_, rfl⟩, ?_⟩
            simp only [Plan.done, List.append_nil]
            apply DeletionCascade.ext
            · rw [happended.owner, Option.map_some, hlive, DeletionCascade.restore]
            · rw [happended.item, DeletionCascade.item_restore_of_not_deleted]
              intro instant hcarries
              rw [howner] at hcarries
              obtain ⟨held, rfl, hheld⟩ := Option.map_eq_some_iff.mp hcarries
              rw [Option.bind_some, hheld] at hdeleted
              contradiction
        | some oldTs =>
            obtain ⟨hok, _⟩ := resourceFile_cascade place note.id
              (fun stored : StoredResource =>
                if stored.resource.deletedAt = some oldTs then
                  some (StoredResource.withDeletedAt stored none)
                else none)
              (htidy.readable note.id) (htidy.resources note.id)
            have hcarries : tree.attachments.owner note.id = some (some oldTs) := by
              obtain ⟨held, rfl, hheld⟩ := Option.bind_eq_some_iff.mp hdeleted
              rw [howner, Option.map_some, hheld]
            refine ⟨⟨note, by simp [cascadeUnstampResources, hok, Plan.done]⟩, ?_⟩
            simp only [cascadeUnstampResources, hok, Plan.done, List.append_nil,
              performAll_append]
            rw [attachments_cascade htidy (happended.resources note.id)]
            apply DeletionCascade.ext
            · simp only [happended.owner, DeletionCascade.restore, Option.map_some, hlive]
            · simp only [happended.item, DeletionCascade.restore, hcarries]
              congr 1
              funext found
              simp only [attachments]
              cases hfile : tree.resourceFile note.id found with
              | none => rfl
              | some file =>
                  cases file with
                  | unreadable => rfl
                  | readable stored =>
                      cases hstamp : stored.resource.deletedAt with
                      | none => simp [hstamp]
                      | some stamp =>
                          by_cases hsame : stamp = oldTs
                          · simp [hstamp, hsame, StoredResource.withDeletedAt]
                          · simp [hstamp, hsame, Ne.symm hsame]

theorem attachments_purgeDeletedResources (olderThan : DateTime) :
    (tree.purgeDeletedResources olderThan).1.attachments = tree.attachments :=
  rfl

/-- The filesystem store's calls are steps of the cascade while its folders are
tidy, and they keep them so. -/
theorem cascades : Cascades (performCall contentHash place) attachments Tidy where
  keeps := by
    intro tree step htidy
    obtain ⟨call, ts, recordedAt⟩ := step
    simp only [performCall]
    cases call with
    | createResource resource data =>
        simp only
        split
        · exact htidy.performAll _
        · exact htidy
    | deleteResource id =>
        simp only
        split
        · exact htidy.performAll _
        · exact htidy
    | deleteNote id => exact htidy.performAll _
    | updateNote note hlive => exact htidy.performAll _
    | purgeDeletedResources olderThan =>
        exact ⟨htidy.logs, htidy.resources, htidy.readable⟩
  ok := by
    intro tree step htidy hok
    obtain ⟨call, ts, recordedAt⟩ := step
    cases call with
    | createResource resource data =>
        simp only [performCall] at hok ⊢
        split at hok
        · next mutation hcall => exact attachments_createResource hcall
        · contradiction
    | deleteResource id =>
        simp only [performCall] at hok ⊢
        split at hok
        · next mutation hcall => exact attachments_deleteResource hcall
        · contradiction
    | deleteNote id =>
        rcases attachments_deleteNote htidy
            (rfl : tree.deleteNote place id ts recordedAt = _) with ⟨_, heffect⟩ | ⟨hfail, _⟩
        · exact heffect
        · exact absurd hok hfail
    | updateNote note hlive =>
        rcases attachments_updateNote htidy hlive
            (rfl : tree.updateNote place note recordedAt = _) with
          ⟨_, heffect⟩ | ⟨⟨failure, hfail⟩, _⟩
        · exact heffect
        · simp only [performCall, hfail] at hok
          contradiction
    | purgeDeletedResources olderThan => exact attachments_purgeDeletedResources olderThan
  error := by
    intro tree step failure htidy herror
    obtain ⟨call, ts, recordedAt⟩ := step
    cases call with
    | createResource resource data =>
        simp only [performCall] at herror ⊢
        split at herror
        · contradiction
        · rfl
    | deleteResource id =>
        simp only [performCall] at herror ⊢
        split at herror
        · contradiction
        · rfl
    | deleteNote id =>
        rcases attachments_deleteNote htidy
            (rfl : tree.deleteNote place id ts recordedAt = _) with ⟨hok, _⟩ | ⟨_, heffect⟩
        · exact absurd (hok.symm.trans herror) (by simp)
        · exact heffect
    | updateNote note hlive =>
        rcases attachments_updateNote htidy hlive
            (rfl : tree.updateNote place note recordedAt = _) with
          ⟨⟨merged, hok⟩, _⟩ | ⟨_, heffect⟩
        · simp only [performCall, hok] at herror
          contradiction
        · exact heffect
    | purgeDeletedResources olderThan => contradiction

end FsTree

end Keeplin
