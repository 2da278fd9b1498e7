/-
Runs of the local calls on notes and their resources.  A note's resources follow
it in both stores as long as its deletion instant and theirs keep telling which
of them went with it.
-/
import Keeplin.Attachments
import Keeplin.LabelledRun

namespace Keeplin

/-- A store with what its calls have been asked for: the resources that were
created for a note and not deleted themselves, and the payload each was last
created with. -/
structure Tracked (S : Type) where
  store : S
  kept : List (Uuid × Uuid)
  payload : Uuid → Option (List UInt8)

namespace Tracked

variable {S : Type}

def record (tracked : Tracked S) (call : AttachmentCall) : Tracked S :=
  match call with
  | .createResource resource data =>
      { tracked with
        kept := (resource.noteId, resource.id) :: tracked.kept
        payload := Function.update tracked.payload resource.id (some data) }
  | .deleteResource id =>
      { tracked with kept := tracked.kept.filter fun pair => pair.2 ≠ id }
  | _ => tracked

/-- A call that fails leaves nothing to record. -/
def step (perform : S → AttachmentStep → S × Except StorageError Unit) (tracked : Tracked S)
    (step : AttachmentStep) : Option (Tracked S) :=
  let done := perform tracked.store step
  let tracked := { tracked with store := done.1 }
  match done.2 with
  | .ok () => some (tracked.record step.call)
  | .error _ => some tracked

@[simp] theorem record_store (tracked : Tracked S) (call : AttachmentCall) :
    (tracked.record call).store = tracked.store := by
  cases call <;> rfl

theorem step_cases {perform : S → AttachmentStep → S × Except StorageError Unit}
    {tracked next : Tracked S} {step : AttachmentStep}
    (hstep : tracked.step perform step = some next) :
    ((perform tracked.store step).2 = .ok () ∧
        next = { tracked with store := (perform tracked.store step).1 }.record step.call) ∨
      ((∃ failure, (perform tracked.store step).2 = .error failure) ∧
        next = { tracked with store := (perform tracked.store step).1 }) := by
  simp only [Tracked.step] at hstep
  split at hstep
  · next hok => exact Or.inl ⟨hok, (Option.some.inj hstep).symm⟩
  · next failure herror => exact Or.inr ⟨⟨failure, herror⟩, (Option.some.inj hstep).symm⟩

end Tracked

/-- The instants tell which resources went with a note if a resource is not
created with another's instant, a resource is only found under one note and is
not deleted at the instant its note was, and a note is not deleted anew over
resources that carry its present instant, nor at the instant of some that do not. -/
def AttachmentStep.Clear (cascade : AttachmentView) (step : AttachmentStep) : Prop :=
  match step.call with
  | .createResource resource _ =>
      resource.deletedAt = none ∨ cascade.owner resource.noteId = some resource.deletedAt
  | .deleteResource id =>
      ∀ noteId, cascade.item noteId id ≠ none →
        cascade.owner noteId ≠ some (some step.ts) ∧
          ∀ other, cascade.item other id ≠ none → other = noteId
  | .deleteNote id =>
      cascade.owner id ≠ none → ∀ item deleted, cascade.item id item = some (some deleted) →
        (deleted = step.ts ↔ cascade.owner id = some (some deleted))
  | _ => True

section Run

variable {S : Type} {perform : S → AttachmentStep → S × Except StorageError Unit}
  {view : S → AttachmentView} {good : S → Prop}

/-- The cascade of the store follows what its calls were asked for. -/
def Tracked.Follows (view : S → AttachmentView) (tracked : Tracked S) : Prop :=
  (view tracked.store).Follows fun noteId id => (noteId, id) ∈ tracked.kept

/-- A step of the cascade keeps following, whichever call it is. -/
theorem Tracked.follows_record {tracked : Tracked S} {after : S} {step : AttachmentStep}
    (hfollows : tracked.Follows view) (hclear : step.Clear (view tracked.store))
    (heffect : step.Effect (view tracked.store) (view after)) :
    ({ tracked with store := after }.record step.call).Follows view := by
  obtain ⟨call, ts, recordedAt⟩ := step
  cases call with
  | createResource resource data =>
      obtain heffect : view after = _ := heffect
      change (view after).Follows _
      rw [heffect]
      apply (DeletionCascade.Follows.create hfollows hclear).congr
      intro noteId id
      rw [Tracked.record, List.mem_cons, Prod.mk.injEq]
  | deleteResource id =>
      obtain ⟨noteId, hitem, heffect⟩ := heffect
      obtain ⟨howner, honly⟩ := hclear noteId hitem
      change (view after).Follows _
      rw [heffect]
      apply (DeletionCascade.Follows.remove hfollows howner honly).congr
      intro other found
      rw [Tracked.record, List.mem_filter, decide_eq_true_eq]
  | deleteNote id =>
      obtain ⟨howner, heffect⟩ := heffect
      change (view after).Follows _
      rw [heffect]
      exact DeletionCascade.Follows.delete hfollows (hclear howner)
  | updateNote note hlive =>
      obtain heffect : view after = _ := heffect
      change (view after).Follows _
      rw [heffect]
      exact DeletionCascade.Follows.restore hfollows
  | purgeDeletedResources olderThan =>
      obtain heffect : view after = _ := heffect
      change (view after).Follows _
      rw [heffect]
      exact hfollows

theorem Cascades.follows_step (hcascades : Cascades perform view good)
    {tracked next : Tracked S} {step : AttachmentStep} (hgood : good tracked.store)
    (hfollows : tracked.Follows view) (hclear : step.Clear (view tracked.store))
    (hstep : tracked.step perform step = some next) :
    good next.store ∧ next.Follows view := by
  have hkeeps := hcascades.keeps tracked.store step hgood
  rcases Tracked.step_cases hstep with ⟨hok, rfl⟩ | ⟨⟨failure, herror⟩, rfl⟩
  · refine ⟨by rwa [Tracked.record_store], ?_⟩
    exact Tracked.follows_record hfollows hclear (hcascades.ok tracked.store step hgood hok)
  · refine ⟨hkeeps, ?_⟩
    have hsame := hcascades.error tracked.store step failure hgood herror
    intro noteId id
    simp only [hsame]
    exact hfollows noteId id

/-- At the end of a run of clear steps the live resources of a live note are the
ones created for it and not deleted themselves. -/
theorem Cascades.live_iff_kept (hcascades : Cascades perform view good)
    {start final : Tracked S} {steps : List AttachmentStep} (hgood : good start.store)
    (hnone : ∀ noteId id, (view start.store).item noteId id = none) (hkept : start.kept = [])
    (hclear : MeetsAll (Tracked.step perform) (fun tracked => AttachmentStep.Clear
      (view tracked.store)) start steps)
    (hrun : runAll (Tracked.step perform) start steps = some final) {noteId id : Uuid}
    (hlive : (view final.store).owner noteId = some none) :
    (view final.store).item noteId id = some none ↔ (noteId, id) ∈ final.kept := by
  have hstart : start.Follows view := by
    intro noteId id
    simp [hnone, hkept]
  obtain ⟨-, hfollows⟩ := runAll_invariant_of_meetsAll (Tracked.step perform)
    (fun tracked step next hholds hclear hnext =>
      hcascades.follows_step hholds.1 hholds.2 hclear hnext)
    ⟨hgood, hstart⟩ hclear hrun
  exact hfollows.live hlive

end Run

theorem FsTree.tidy_of_no_resources {tree : FsTree}
    (hlogs : ∀ noteId, ((tree.noteFolder noteId).logs.map Prod.fst).Nodup)
    (hnone : ∀ noteId, (tree.noteFolder noteId).resources = []) : tree.Tidy := by
  refine ⟨hlogs, fun noteId => ?_, fun noteId file hfile => ?_⟩
  · rw [hnone noteId]
    exact List.nodup_nil
  · rw [hnone noteId] at hfile
    exact absurd hfile List.not_mem_nil

/-- The live resources of every live note are those created for it and not deleted
themselves. -/
def Tracked.LiveKept {S : Type} (view : S → AttachmentView) (tracked : Tracked S) : Prop :=
  ∀ noteId id, (view tracked.store).owner noteId = some none →
    ((view tracked.store).item noteId id = some none ↔ (noteId, id) ∈ tracked.kept)

/-- In both stores, whatever calls follow each other. -/
theorem resources_follow_note (contentHash : List UInt8 → String) (place : Uuid → Nat)
    (steps : List AttachmentStep) :
    (∀ start final : Tracked Db,
      start.store.resources = ∅ → start.kept = [] →
      MeetsAll (Tracked.step Db.performCall)
        (fun tracked => AttachmentStep.Clear tracked.store.attachments) start steps →
      runAll (Tracked.step Db.performCall) start steps = some final →
      final.LiveKept Db.attachments) ∧
    ∀ start final : Tracked FsTree,
      (∀ noteId, ((start.store.noteFolder noteId).logs.map Prod.fst).Nodup) →
      (∀ noteId, (start.store.noteFolder noteId).resources = []) → start.kept = [] →
      MeetsAll (Tracked.step (FsTree.performCall contentHash place))
        (fun tracked => AttachmentStep.Clear tracked.store.attachments) start steps →
      runAll (Tracked.step (FsTree.performCall contentHash place)) start steps = some final →
      final.LiveKept FsTree.attachments := by
  constructor
  · intro start final hnone hkept hclear hrun noteId id hlive
    refine Db.cascades.live_iff_kept trivial (fun other found => ?_) hkept hclear hrun hlive
    simp [Db.attachments, hnone]
  · intro start final hlogs hnone hkept hclear hrun noteId id hlive
    refine (FsTree.cascades).live_iff_kept
      (FsTree.tidy_of_no_resources hlogs hnone) (fun other found => ?_) hkept hclear hrun hlive
    simp [FsTree.attachments, FsTree.resourceFile, hnone, Directory.file?]

namespace AttachmentsWitness

def note : Note :=
  { id := 1, title := "", body := "", notebookId := Uuid.nil, isTodo := false
    todoDue := none, todoCompleted := none, createdAt := 0, updatedAt := 0
    deletedAt := none, «alias» := none, bookmarks := [], links := []
    vv := ∅, lastWriter := "", isPinned := false, isStarred := false, sortKey := 0 }

def resource : Resource :=
  { id := 2, noteId := 1, title := "", mimeType := "", fileName := "", size := 0
    durationMs := none, dimensions := none, createdAt := 0, deletedAt := none
    vv := ∅, lastWriter := "" }

def rows : Tracked Db :=
  ⟨⟨"A", (∅ : Table NoteRow).insert 1 (NoteRow.ofNote note), ∅, ∅, ∅, ∅, [], [], none⟩, [],
    fun _ => none⟩

def files : Tracked FsTree :=
  ⟨⟨"A", [(1, ⟨[("A", [⟨(∅ : VersionVector).increment "A", 0, "A", .upsert note⟩])],
      none, none, []⟩)], [], [], [], []⟩, [], fun _ => none⟩

theorem files_folder (noteId : Uuid) : files.store.noteFolder noteId = .empty ∨
    files.store.noteFolder noteId =
      ⟨[("A", [⟨(∅ : VersionVector).increment "A", 0, "A", .upsert note⟩])], none, none, []⟩ := by
  by_cases hnote : noteId = 1
  · exact Or.inr (by rw [hnote]; rfl)
  · exact Or.inl (by simp [FsTree.noteFolder, files, Directory.file?, Ne.symm hnote])

theorem files_resources (noteId : Uuid) : (files.store.noteFolder noteId).resources = [] := by
  rcases files_folder noteId with hempty | hnote
  · rw [hempty]; rfl
  · rw [hnote]

theorem files_logs (noteId : Uuid) :
    ((files.store.noteFolder noteId).logs.map Prod.fst).Nodup := by
  rcases files_folder noteId with hempty | hnote
  · rw [hempty]; exact List.nodup_nil
  · rw [hnote]; exact List.nodup_singleton "A"

def callAt (instant : DateTime) (call : AttachmentCall) : AttachmentStep :=
  ⟨call, instant, instant⟩

def create : AttachmentStep := callAt 1 (.createResource resource [3])

def delete (instant : DateTime) : AttachmentStep := callAt instant (.deleteNote 1)

def restore (instant : DateTime) : AttachmentStep := callAt instant (.updateNote note rfl)

theorem not_liveKept {S : Type} {view : S → AttachmentView} {run : Option (Tracked S)}
    (hdead : (run.any fun final => (view final.store).owner 1 = some none ∧
      (1, 2) ∈ final.kept ∧ (view final.store).item 1 2 = some (some 5)) = true) :
    ∃ final, run = some final ∧ ¬ final.LiveKept view := by
  obtain ⟨final, hfinal, hdead⟩ := (Option.any_eq_true _ _).mp hdead
  obtain ⟨howner, hkept, hitem⟩ := of_decide_eq_true hdead
  refine ⟨final, hfinal, fun hlive => ?_⟩
  have hitem' := (hlive 1 2 howner).mpr hkept
  rw [hitem] at hitem'
  contradiction

/-- The second deletion moves the note's instant and not the resource's, so the
restore does not find it. -/
theorem resources_left_behind :
    (∃ final, runAll (Tracked.step Db.performCall) rows
        [create, delete 5, delete 7, restore 9] = some final ∧
      ¬ final.LiveKept Db.attachments) ∧
    ∃ final, runAll (Tracked.step (FsTree.performCall (fun _ => "h") fun _ => 0)) files
        [create, delete 5, delete 7, restore 9] = some final ∧
      ¬ final.LiveKept FsTree.attachments := by
  constructor
  · apply not_liveKept
    decide
  · apply not_liveKept
    decide

/-- The resource made in a store without resources is live. -/
theorem created_live {S : Type} {perform : S → AttachmentStep → S × Except StorageError Unit}
    {view : S → AttachmentView} {good : S → Prop} (hcascades : Cascades perform view good)
    {start created : Tracked S} (hgood : good start.store)
    (hnone : ∀ noteId id, (view start.store).item noteId id = none)
    (hcreated : start.step perform create = some created) {noteId id : Uuid}
    (hitem : (view created.store).item noteId id ≠ none) :
    (view created.store).item noteId id = some none := by
  rcases Tracked.step_cases hcreated with ⟨hok, rfl⟩ | ⟨⟨failure, herror⟩, rfl⟩
  · have heffect := hcascades.ok start.store create hgood hok
    change view (perform start.store create).1 = _ at heffect
    simp only [Tracked.record_store, heffect] at hitem ⊢
    by_cases hsame : noteId = resource.noteId ∧ id = resource.id
    · obtain ⟨rfl, rfl⟩ := hsame
      exact DeletionCascade.item_put_self none
    · rw [DeletionCascade.item_put_of_ne hsame, hnone] at hitem
      exact absurd rfl hitem
  · simp only [hcascades.error start.store create failure hgood herror, hnone] at hitem
    exact absurd rfl hitem

/-- One deletion of a note that only has live resources is clear. -/
theorem deletion_clear {S : Type} {perform : S → AttachmentStep → S × Except StorageError Unit}
    {view : S → AttachmentView} {good : S → Prop} (hcascades : Cascades perform view good)
    (start : Tracked S) (hgood : good start.store)
    (hnone : ∀ noteId id, (view start.store).item noteId id = none) (instant later : DateTime) :
    MeetsAll (Tracked.step perform) (fun tracked => AttachmentStep.Clear (view tracked.store))
      start [create, delete instant, restore later] := by
  refine ⟨Or.inl rfl, fun created hcreated => ⟨fun _ item deleted hitem => ?_, fun deleted _ =>
    ⟨trivial, fun _ _ => trivial⟩⟩⟩
  have hlive := created_live hcascades hgood hnone hcreated (hitem ▸ Option.some_ne_none _)
  rw [hitem] at hlive
  simp at hlive

theorem resources_follow_note_restored :
    (∀ final, runAll (Tracked.step Db.performCall) rows [create, delete 5, restore 7] =
        some final → final.LiveKept Db.attachments) ∧
    ∀ final, runAll (Tracked.step (FsTree.performCall (fun _ => "h") fun _ => 0)) files
        [create, delete 5, restore 7] = some final → final.LiveKept FsTree.attachments := by
  constructor
  · intro final hrun
    have hclear := deletion_clear Db.cascades rows trivial
      (fun noteId id => by simp [Db.attachments, rows]) 5 7
    exact (resources_follow_note (fun _ => "h") (fun _ => 0) _).1 rows final
      (by simp only [rows]) rfl hclear hrun
  · intro final hrun
    have hclear := deletion_clear
      (@FsTree.cascades (fun _ => "h") fun _ => 0) files
      (FsTree.tidy_of_no_resources files_logs files_resources)
      (fun noteId id => by
        simp [FsTree.attachments, FsTree.resourceFile, files_resources, Directory.file?]) 5 7
    exact (resources_follow_note (fun _ => "h") (fun _ => 0) _).2 files final
      files_logs files_resources rfl hclear hrun

end AttachmentsWitness

end Keeplin
