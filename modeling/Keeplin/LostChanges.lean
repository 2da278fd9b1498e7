/-
What a failed cycle of the filesystem store leaves for the next one.  The
cursors of the journals and the projections of the notes have both moved past
the batch before any of it was applied, so the next cycle receives nothing.
-/
import Keeplin.FsEngine

namespace Keeplin

open VersionVector

/-- The note a merge yields is one of its logs' upserts, maybe marked deleted. -/
theorem exists_upsert_of_merge {logs : List NoteLog} {merged : Merged} {note : Note}
    (hmerge : merge logs = some merged) (hnote : merged.note = some note) :
    ∃ log ∈ logs, ∃ entry ∈ log, ∃ source, entry.op = .upsert source ∧ note.id = source.id := by
  simp only [merge] at hmerge
  split at hmerge
  · rw [Option.some.injEq] at hmerge
    rw [← hmerge] at hnote
    contradiction
  · obtain ⟨winner, hwinner, rfl⟩ := Option.map_eq_some_iff.mp hmerge
    have hhead := (List.mem_filter.mp (maxBy_mem _ hwinner)).1
    obtain ⟨log, hlog, hlast⟩ := List.mem_filterMap.mp hhead
    simp only [resolvedNote] at hnote
    split at hnote
    · next source hop =>
        exact ⟨log, hlog, winner, List.mem_of_getLast? hlast, source, hop,
          congrArg Note.id (Option.some.inj hnote).symm⟩
    · next deletedAt hop =>
        obtain ⟨latest, hlatest, rfl⟩ := Option.map_eq_some_iff.mp hnote
        obtain ⟨stamped, hstamped, rfl⟩ := Option.map_eq_some_iff.mp hlatest
        obtain ⟨entry, hentry, hupsert⟩ := List.mem_filterMap.mp (maxBy_mem _ hstamped)
        obtain ⟨owner, howner, hmem⟩ := List.mem_flatten.mp hentry
        refine ⟨owner, howner, entry, hmem, stamped.2, ?_, rfl⟩
        simp only [NoteLogEntry.upsert?] at hupsert
        split at hupsert
        · next source hsource => rw [hsource, ← Option.some.inj hupsert]
        · contradiction

namespace FsTree

/-- Every upsert is in the folder of its note. -/
def WellFiled (tree : FsTree) : Prop :=
  ∀ id, ∀ log ∈ tree.noteLogs id, ∀ entry ∈ log, ∀ note,
    entry.op = .upsert note → note.id = id

theorem WellFiled.note_id {tree : FsTree} (hfiled : tree.WellFiled) {id : Uuid}
    {merged : Merged} {note : Note} (hmerge : tree.mergeLogs id = .ok merged)
    (hnote : merged.note = some note) : note.id = id := by
  simp only [mergeLogs] at hmerge
  split at hmerge
  · next found hfound =>
      obtain rfl := Except.ok.inj hmerge
      obtain ⟨log, hlog, entry, hentry, source, hop, hsame⟩ :=
        exists_upsert_of_merge hfound hnote
      exact hsame.trans (hfiled id log hlog entry hentry source hop)
  · contradiction

/-- The logs of a note and what its projection was made from are the same. -/
def SameNote (tree other : FsTree) (id : Uuid) : Prop :=
  (other.noteFolder id).logs = (tree.noteFolder id).logs ∧
    (other.noteFolder id).meta = (tree.noteFolder id).meta

/-- The collection has nothing to report about the note. -/
def SettledAt (tree : FsTree) (id : Uuid) : Prop :=
  tree.collectNote id = .done none

/-- A write that leaves the logs alone and moves a projection only to the merge
of the note's logs. -/
def Projects (tree : FsTree) : TreeWrite → Prop
  | .noteLog _ _ _ => False
  | .noteMeta id value => ∃ merged, tree.mergeLogs id = .ok merged ∧ value.vv = merged.vv
  | _ => True

section Write

variable {tree : FsTree} {place : Uuid → Nat} {write : TreeWrite} {id : Uuid}

/-- A write that is not of a log keeps every log. -/
theorem logs_perform (hprojects : tree.Projects write) (other : Uuid) :
    ((tree.perform place write).noteFolder other).logs = (tree.noteFolder other).logs := by
  apply logs_perform_other
  rintro id device log rfl
  exact hprojects.elim

theorem mergeLogs_perform (hprojects : tree.Projects write) (other : Uuid) :
    (tree.perform place write).mergeLogs other = tree.mergeLogs other := by
  simp only [mergeLogs, noteLogs, logs_perform hprojects]

/-- Only a projection write moves a projection. -/
theorem sameNote_perform (hprojects : tree.Projects write)
    (hother : ∀ value, write ≠ .noteMeta id value) :
    tree.SameNote (tree.perform place write) id := by
  refine ⟨logs_perform hprojects id, ?_⟩
  cases write with
  | noteLog noteId device log => exact hprojects.elim
  | noteMd noteId body =>
      simp only [perform, noteFolder_modifyNote]
      split
      · next heq => rw [heq]
      · rfl
  | noteMeta noteId value =>
      simp only [perform, noteFolder_modifyNote]
      split
      · next heq => exact absurd (congrArg (TreeWrite.noteMeta · value) heq) (hother value)
      · rfl
  | resource noteId resourceId stored =>
      simp only [perform, noteFolder_modifyNote]
      split
      · next heq => rw [heq]
      · rfl
  | notebook notebookId value => rfl
  | tag tagId value => rfl
  | noteTag noteId tagId state => rfl
  | blob noteId hash data => rfl

theorem settledAt_of_same {other : FsTree} (hsame : tree.SameNote other id)
    (hsettled : tree.SettledAt id) : other.SettledAt id := by
  simp only [SettledAt, collectNote, noteVv, mergeLogs, noteLogs, hsame.1, hsame.2] at *
  exact hsettled

/-- A projection that was just made has nothing left to report. -/
theorem settledAt_noteMeta {value : NoteMeta} (hprojects : tree.Projects (.noteMeta id value)) :
    (tree.perform place (.noteMeta id value)).SettledAt id := by
  have hkept : (tree.perform place (.noteMeta id value)).mergeLogs id = tree.mergeLogs id :=
    mergeLogs_perform hprojects id
  obtain ⟨merged, hmerge, hvv⟩ := hprojects
  have hmerged : (tree.perform place (.noteMeta id value)).mergeLogs id = .ok merged :=
    hkept.trans hmerge
  have hfolder : (tree.perform place (.noteMeta id value)).noteVv id = .ok merged.vv := by
    simp only [noteVv, perform, noteFolder_modifyNote, ↓reduceIte, hvv]
  simp only [SettledAt, collectNote, hmerged, hfolder, Plan.reading, ↓reduceIte]

theorem settledAt_perform (hprojects : tree.Projects write) (hsettled : tree.SettledAt id) :
    (tree.perform place write).SettledAt id := by
  by_cases hmeta : ∃ value, write = .noteMeta id value
  · obtain ⟨value, rfl⟩ := hmeta
    exact settledAt_noteMeta hprojects
  · exact settledAt_of_same
      (sameNote_perform hprojects fun value heq => hmeta ⟨value, heq⟩) hsettled

theorem projects_perform {other : TreeWrite} (hprojects : tree.Projects write)
    (hother : tree.Projects other) : (tree.perform place write).Projects other := by
  cases other with
  | noteMeta noteId value =>
      obtain ⟨merged, hmerge, hvv⟩ := hother
      exact ⟨merged, (mergeLogs_perform hprojects noteId).trans hmerge, hvv⟩
  | noteLog noteId device log => exact hother
  | noteMd noteId body => trivial
  | resource noteId resourceId stored => trivial
  | notebook notebookId value => trivial
  | tag tagId value => trivial
  | noteTag noteId tagId state => trivial
  | blob noteId hash data => trivial

theorem wellFiled_perform (hprojects : tree.Projects write) (hfiled : tree.WellFiled) :
    (tree.perform place write).WellFiled := by
  intro noteId log hlog
  rw [noteLogs, logs_perform hprojects] at hlog
  exact hfiled noteId log hlog

end Write

section Writes

variable {tree : FsTree}

/-- The writes of a call, or the first few of them, keep what is settled. -/
theorem performAll_settled (place : Uuid → Nat) {writes : List TreeWrite}
    (hprojects : ∀ write ∈ writes, tree.Projects write) :
    (∀ id, tree.SettledAt id → (tree.performAll place writes).SettledAt id) ∧
      (tree.WellFiled → (tree.performAll place writes).WellFiled) := by
  induction writes generalizing tree with
  | nil => exact ⟨fun _ hsettled => hsettled, id⟩
  | cons write rest ih =>
      have hwrite := hprojects write List.mem_cons_self
      obtain ⟨hsettled, hfiled⟩ := @ih (tree.perform place write) fun other hother =>
        projects_perform hwrite (hprojects other (List.mem_cons_of_mem write hother))
      exact ⟨fun id hid => hsettled id (settledAt_perform hwrite hid),
        fun htree => hfiled (wellFiled_perform hwrite htree)⟩

/-- The projection of a well-filed note is that note's. -/
theorem projects_projectionWrites (hfiled : tree.WellFiled) {id : Uuid} {merged : Merged}
    {note : Note} (hmerge : tree.mergeLogs id = .ok merged) (hnote : merged.note = some note) :
    ∀ write ∈ projectionWrites note merged.vv, tree.Projects write := by
  intro write hwrite
  simp only [projectionWrites, hfiled.note_id hmerge hnote, List.mem_cons, List.not_mem_nil,
    or_false] at hwrite
  rcases hwrite with rfl | rfl
  · trivial
  · exact ⟨merged, hmerge, rfl⟩

end Writes

section Collect

variable {tree : FsTree} (place : Uuid → Nat)

/-- A note that could be collected is settled afterwards. -/
theorem collectNote_settles (hfiled : tree.WellFiled) {id : Uuid} {reported : Option Change}
    (hresult : (tree.collectNote id).result = .ok reported) :
    (∀ write ∈ (tree.collectNote id).writes, tree.Projects write) ∧
      (tree.performAll place (tree.collectNote id).writes).SettledAt id := by
  have hread : ∃ oldVv merged, tree.noteVv id = .ok oldVv ∧ tree.mergeLogs id = .ok merged := by
    simp only [collectNote] at hresult
    cases hvv : tree.noteVv id with
    | error failure =>
        rw [hvv] at hresult
        contradiction
    | ok oldVv =>
        cases hmerge : tree.mergeLogs id with
        | error failure =>
            rw [hvv, hmerge] at hresult
            contradiction
        | ok merged => exact ⟨oldVv, merged, rfl, rfl⟩
  obtain ⟨oldVv, merged, hvv, hmerge⟩ := hread
  by_cases hsame : merged.vv = oldVv
  · have hsettled : tree.collectNote id = .done none := by
      simp only [collectNote, hvv, hmerge, Plan.reading, hsame, ↓reduceIte]
    rw [hsettled]
    exact ⟨fun write hwrite => absurd hwrite List.not_mem_nil, hsettled⟩
  · cases hnote : merged.note with
    | none =>
        have hsettled : tree.collectNote id = .done none := by
          simp only [collectNote, hvv, hmerge, Plan.reading, hsame, hnote, ↓reduceIte]
        rw [hsettled]
        exact ⟨fun write hwrite => absurd hwrite List.not_mem_nil, hsettled⟩
    | some note =>
        have hwrites : (tree.collectNote id).writes = projectionWrites note merged.vv := by
          simp only [collectNote, hvv, hmerge, Plan.reading, hsame, hnote, ↓reduceIte]
        have hprojects := projects_projectionWrites hfiled hmerge hnote
        rw [hwrites]
        refine ⟨hprojects, ?_⟩
        simp only [projectionWrites, hfiled.note_id hmerge hnote] at hprojects ⊢
        exact settledAt_noteMeta (projects_perform (hprojects _ List.mem_cons_self)
          (hprojects _ (List.mem_cons_of_mem _ List.mem_cons_self)))

/-- Collected notes are settled, and so stay the ones that were. -/
theorem collectNotes_settles {ids : List Uuid} {changes : List Change}
    (hfiled : tree.WellFiled) (hresult : (collectNotes place tree ids).2 = .ok changes) :
    (∀ id, (id ∈ ids ∨ tree.SettledAt id) → (collectNotes place tree ids).1.SettledAt id) ∧
      (collectNotes place tree ids).1.WellFiled ∧
      (collectNotes place tree ids).1.deviceId = tree.deviceId := by
  induction ids generalizing tree changes with
  | nil =>
      exact ⟨fun id hid => hid.resolve_left List.not_mem_nil, hfiled, rfl⟩
  | cons id rest ih =>
      simp only [collectNotes] at hresult ⊢
      cases hplan : (tree.collectNote id).result with
      | error failure =>
          rw [hplan] at hresult
          contradiction
      | ok reported =>
          simp only [hplan] at hresult ⊢
          obtain ⟨hprojects, hhere⟩ := collectNote_settles place hfiled hplan
          obtain ⟨hkeeps, hfiles⟩ := performAll_settled place hprojects
          obtain ⟨more, hmore, -⟩ := exists_of_map_ok hresult
          obtain ⟨hsettled, hwell, hdevice⟩ := ih (hfiles hfiled) hmore
          refine ⟨fun other hother => hsettled other ?_, hwell,
            hdevice.trans (tree.deviceId_performAll place _)⟩
          rcases hother with hmem | hother
          · rcases List.mem_cons.mp hmem with rfl | hrest
            · exact Or.inr hhere
            · exact Or.inl hrest
          · exact Or.inr (hkeeps other hother)

theorem settledAt_of_unlisted {id : Uuid} (hmissing : id ∉ tree.allNoteIds) :
    tree.SettledAt id := by
  have hnone : tree.notes.file? id = none := Directory.file?_eq_none_iff.mpr fun folder hmem =>
    hmissing (List.mem_map.mpr ⟨(id, folder), hmem, rfl⟩)
  simp only [SettledAt, collectNote, noteVv, mergeLogs, noteLogs, noteFolder, hnone]
  rfl

/-- A collection that succeeds leaves nothing to report. -/
theorem collectAdvancedNotes_settles {changes : List Change} (hfiled : tree.WellFiled)
    (hresult : (tree.collectAdvancedNotes place).2 = .ok changes) :
    (∀ id, (tree.collectAdvancedNotes place).1.SettledAt id) ∧
      (tree.collectAdvancedNotes place).1.WellFiled ∧
      (tree.collectAdvancedNotes place).1.deviceId = tree.deviceId := by
  obtain ⟨hsettled, hrest⟩ := collectNotes_settles place hfiled hresult
  refine ⟨fun id => hsettled id ?_, hrest⟩
  by_cases hlisted : id ∈ tree.allNoteIds
  · exact Or.inl hlisted
  · exact Or.inr (settledAt_of_unlisted hlisted)

theorem collectNotes_of_settled (ids : List Uuid) (hsettled : ∀ id, tree.SettledAt id) :
    collectNotes place tree ids = (tree, .ok []) := by
  induction ids with
  | nil => rfl
  | cons id rest ih =>
      have hid : tree.collectNote id = .done none := hsettled id
      simp only [collectNotes, hid, Plan.done, performAll, List.foldl_nil, ih]
      rfl

end Collect

section Apply

variable {tree : FsTree} {A B : Type}

def PlanProjects (tree : FsTree) (plan : Plan A) : Prop :=
  plan.Writes tree.Projects

theorem planProjects_materialize (hfiled : tree.WellFiled) (id : Uuid) :
    tree.PlanProjects (tree.materialize id) :=
  Plan.writes_reading fun merged hmerge => by
    cases hnote : merged.note with
    | none => exact Plan.writes_done none
    | some note => exact projects_projectionWrites hfiled hmerge hnote

theorem planProjects_cascade (noteId : Uuid)
    (change : StoredResource → Option StoredResource)
    (files : List (Uuid × Sidecar StoredResource)) :
    tree.PlanProjects (cascadeResources noteId change files) := by
  induction files with
  | nil => exact Plan.writes_done ()
  | cons file rest ih =>
      obtain ⟨id, sidecar⟩ := file
      cases sidecar with
      | unreadable => exact fun write hwrite => absurd hwrite List.not_mem_nil
      | readable stored =>
          intro write hwrite
          simp only [cascadeResources] at hwrite
          split at hwrite
          · rcases List.mem_cons.mp hwrite with rfl | hrest
            · trivial
            · exact ih write hrest
          · exact ih write hwrite

/-- A guarded write of files other than notes' keeps the notes as they are. -/
theorem planProjects_writeIfWins {wins : Except StorageError Bool} {writes : List TreeWrite}
    (hwrites : ∀ write ∈ writes, tree.Projects write) :
    tree.PlanProjects (writeIfWins wins writes) :=
  Plan.writes_reading fun value _ => by
    cases value with
    | true => exact hwrites
    | false => exact Plan.writes_done ()

/-- Applying a change writes no log, and no projection but of what the logs of
the note merge to. -/
theorem planProjects_applyChange (hfiled : tree.WellFiled)
    (contentHash : List UInt8 → String) (change : Change) :
    tree.PlanProjects (tree.applyChange contentHash change) := by
  have hnote : ∀ note, tree.PlanProjects (tree.applyNote note) := by
    intro note
    refine Plan.writes_reading fun prior _ =>
      Plan.writes_bind (planProjects_materialize hfiled note.id) fun materialized _ => ?_
    split
    · split
      · exact planProjects_cascade _ _ _
      · exact Plan.writes_done ()
    · exact Plan.writes_done ()
  cases change with
  | noteCreate note => exact hnote note
  | noteUpdate note => exact hnote note
  | noteDelete id deletedAt vv lastWriter =>
      exact Plan.writes_bind (planProjects_materialize hfiled id) fun _ _ =>
        planProjects_cascade _ _ _
  | notebookCreate notebook =>
      exact planProjects_writeIfWins (by simp [Projects])
  | notebookUpdate notebook =>
      exact planProjects_writeIfWins (by simp [Projects])
  | notebookDelete id deletedAt vv lastWriter =>
      exact planProjects_writeIfWins (by simp [Projects])
  | tagCreate tag => exact planProjects_writeIfWins (by simp [Projects])
  | tagUpdate tag => exact planProjects_writeIfWins (by simp [Projects])
  | tagDelete id deletedAt vv lastWriter =>
      exact planProjects_writeIfWins (by simp [Projects])
  | noteTagAdd noteId tagId updatedAt vv lastWriter =>
      exact planProjects_writeIfWins (by simp [Projects])
  | noteTagRemove noteId tagId updatedAt vv lastWriter =>
      exact planProjects_writeIfWins (by simp [Projects])
  | resourceCreate resource data =>
      refine Plan.writes_reading fun value _ => ?_
      cases value with
      | false => exact Plan.writes_done ()
      | true =>
          cases data with
          | some bytes => simp [Plan.Writes, Projects]
          | none =>
              refine Plan.writes_reading fun found _ => ?_
              cases found <;> simp [Plan.Writes, Projects]
  | resourceDelete id deletedAt vv lastWriter =>
      refine Plan.writes_reading fun value _ => ?_
      cases value with
      | false => exact Plan.writes_done ()
      | true => exact Plan.writes_reading fun found _ => by simp [Plan.Writes, Projects]

end Apply

end FsTree

section Cycle

variable {format : LineFormat} {contentHash : List UInt8 → String} {place : Uuid → Nat}
  {listing : LogListing}

/-- What is settled stays so however far the application of a batch gets. -/
theorem applyChanges_settled (contentHash : List UInt8 → String) (place : Uuid → Nat)
    (fault : Option ApplyFault) {tree : FsTree} (changes : List Change) (hfiled : tree.WellFiled)
    (hsettled : ∀ id, tree.SettledAt id) :
    (∀ id, (applyChanges contentHash place fault tree changes).tree.SettledAt id) ∧
      (applyChanges contentHash place fault tree changes).tree.deviceId = tree.deviceId := by
  induction changes generalizing fault tree with
  | nil => simpa only [applyChanges] using ⟨hsettled, trivial⟩
  | cons change rest ih =>
      have hprojects := FsTree.planProjects_applyChange hfiled contentHash change
      have hwhole := FsTree.performAll_settled place hprojects
      have hcontinue : ∀ fault : Option ApplyFault,
          (∀ id, (applyChanges contentHash place fault (tree.performAll place
            (tree.applyChange contentHash change).writes) rest).tree.SettledAt id) ∧
          (applyChanges contentHash place fault (tree.performAll place
            (tree.applyChange contentHash change).writes) rest).tree.deviceId =
              tree.deviceId := by
        intro fault
        obtain ⟨hkept, hdevice⟩ := ih fault (hwhole.2 hfiled)
          fun id => hwhole.1 id (hsettled id)
        exact ⟨hkept, hdevice.trans (tree.deviceId_performAll place _)⟩
      simp only [applyChanges]
      split
      · next made =>
          have htaken := FsTree.performAll_settled place fun write hwrite =>
            hprojects write (List.mem_of_mem_take (i := made) hwrite)
          exact ⟨fun id => htaken.1 id (hsettled id), tree.deviceId_performAll place _⟩
      · split
        · exact ⟨fun id => hwhole.1 id (hsettled id), tree.deviceId_performAll place _⟩
        · exact hcontinue _

/-- The applied changes are the first ones of the batch, and all of it when the
application succeeds. -/
theorem applyChanges_applied (contentHash : List UInt8 → String) (place : Uuid → Nat)
    (fault : Option ApplyFault) (tree : FsTree)
    (changes : List Change) :
    (applyChanges contentHash place fault tree changes).applied <+: changes ∧
      ((applyChanges contentHash place fault tree changes).result = .ok () →
        (applyChanges contentHash place fault tree changes).applied = changes) := by
  induction changes generalizing fault tree with
  | nil => exact ⟨List.prefix_rfl, fun _ => rfl⟩
  | cons change rest ih =>
      simp only [applyChanges]
      split
      · exact ⟨List.nil_prefix, fun hok => by contradiction⟩
      · split
        · exact ⟨List.nil_prefix, fun hok => by contradiction⟩
        · obtain ⟨hfront, hall⟩ := ih _ _
          exact ⟨(List.prefix_cons_inj change).mpr hfront,
            fun hok => congrArg (change :: ·) (hall hok)⟩

/-- A cycle that did not apply all it received ended in the application. -/
theorem runSync_cases {store : FsStore} {fault : Option ApplyFault} {now : DateTime}
    (hfailed : (runSync format contentHash place listing fault now store).applied ≠
      (runSync format contentHash place listing fault now store).received) :
    ∃ lastSync sent entries notes,
      store.getLastSyncTime = .ok lastSync ∧
      store.getChangesSince format listing lastSync = .ok sent ∧
      (readNewEntries format store.tree.deviceId store.cursors listing).2 = .ok entries ∧
      (store.tree.collectAdvancedNotes place).2 = .ok notes ∧
      (runSync format contentHash place listing fault now store).store =
        { store with
          cursors := (readNewEntries format store.tree.deviceId store.cursors listing).1
          tree := (applyChanges contentHash place fault
            (store.tree.collectAdvancedNotes place).1
            (runSync format contentHash place listing fault now store).received).tree } ∧
      (runSync format contentHash place listing fault now store).applied <+:
        (runSync format contentHash place listing fault now store).received := by
  revert hfailed
  simp only [runSync]
  split
  · exact fun hfailed => absurd rfl hfailed
  next lastSync hlast =>
  split
  · exact fun hfailed => absurd rfl hfailed
  next sent hsent =>
  split
  · exact fun hfailed => absurd rfl hfailed
  next changes hreceive =>
  simp only [FsStore.receiveChanges] at hreceive ⊢
  split at hreceive
  · contradiction
  next entries hentries =>
  obtain ⟨notes, hnotes, -⟩ := exists_of_map_ok hreceive
  obtain ⟨hfront, hall⟩ := applyChanges_applied contentHash place fault
    (store.tree.collectAdvancedNotes place).1 changes
  split
  · intro _
    refine ⟨lastSync, sent, entries, notes, hlast, hsent, hentries, hnotes, ?_, ?_⟩
    · rfl
    · exact hfront
  · next hok => exact fun hfailed => absurd (hall hok) hfailed

/-- A cycle of a store that has read everything receives nothing. -/
theorem runSync_of_caughtUp {store : FsStore} {now lastSync : DateTime} {sent : List Change}
    (hlast : store.getLastSyncTime = .ok lastSync)
    (hsent : store.getChangesSince format listing lastSync = .ok sent)
    (hread : readNewEntries format store.tree.deviceId store.cursors listing =
      (store.cursors, .ok []))
    (hsettled : ∀ id, store.tree.SettledAt id) :
    runSync format contentHash place listing none now store =
      ⟨{ store with syncState := some (.readable now) }, [], [], .ok []⟩ := by
  have hcollect : store.tree.collectAdvancedNotes place = (store.tree, .ok []) :=
    FsTree.collectNotes_of_settled place store.tree.allNoteIds hsettled
  have hreceive : store.receiveChanges format place listing = (store, .ok []) := by
    simp only [FsStore.receiveChanges, hread, hcollect]
    rfl
  simp only [runSync, hlast, hsent, hreceive, applyChanges]

/-- After a cycle that failed in the application of its batch, a cycle over the
same files in which nothing fails receives and applies nothing, while a change of
the failed batch is still missing. -/
theorem failedSync_loses_pending {store : FsStore} (hfiled : store.tree.WellFiled)
    (hnames : (listing.map Prod.fst).Nodup) (fault : Option ApplyFault)
    (now later : DateTime)
    (hfailed : (runSync format contentHash place listing fault now store).applied ≠
      (runSync format contentHash place listing fault now store).received) :
    (runSync format contentHash place listing none later
        (runSync format contentHash place listing fault now store).store).result = .ok [] ∧
      ¬ ∀ change ∈ (runSync format contentHash place listing fault now store).received.drop
          (runSync format contentHash place listing fault now store).applied.length,
        change ∈ (runSync format contentHash place listing none later
          (runSync format contentHash place listing fault now store).store).applied := by
  obtain ⟨lastSync, sent, entries, notes, hlast, hsent, hentries, hnotes, hstore, hfront⟩ :=
    runSync_cases hfailed
  have hcollected := FsTree.collectAdvancedNotes_settles place hfiled hnotes
  obtain ⟨hsettled, hdevice⟩ := applyChanges_settled contentHash place fault
    (runSync format contentHash place listing fault now store).received
    hcollected.2.1 hcollected.1
  have hagain := readNewEntries_again hnames hentries fun _ _ => rfl
  have hown := hdevice.trans hcollected.2.2
  have hsecond : runSync format contentHash place listing none later
      (runSync format contentHash place listing fault now store).store =
        ⟨{ (runSync format contentHash place listing fault now store).store with
            syncState := some (.readable later) }, [], [], .ok []⟩ := by
    apply runSync_of_caughtUp
    · rw [hstore]
      exact hlast
    · rw [hstore]
      simp only [FsStore.getChangesSince, hown]
      exact hsent
    · rw [hstore]
      simp only [hown]
      exact hagain
    · rw [hstore]
      exact hsettled
  rw [hsecond]
  refine ⟨rfl, fun hall => ?_⟩
  obtain ⟨pending, hpending⟩ := hfront
  cases pending with
  | nil => exact hfailed (by rw [← hpending, List.append_nil])
  | cons change rest =>
      have hmissing : change ∈ (runSync format contentHash place listing fault now
          store).received.drop
            (runSync format contentHash place listing fault now store).applied.length := by
        rw [← hpending, List.drop_left]
        exact List.mem_cons_self
      exact List.not_mem_nil (hall change hmissing)

end Cycle

namespace LostChangesWitness

def note : Note :=
  { id := 7, title := "", body := "", notebookId := Uuid.nil, isTodo := false
    todoDue := none, todoCompleted := none, createdAt := 1, updatedAt := 1
    deletedAt := none, «alias» := none, bookmarks := [], links := []
    vv := ∅, lastWriter := "", isPinned := false, isStarred := false, sortKey := 0 }

def resource : Resource :=
  { id := 9, noteId := 7, title := "", mimeType := "", fileName := "", size := 0
    durationMs := none, dimensions := none, createdAt := 1, deletedAt := none
    vv := (∅ : VersionVector).increment "B", lastWriter := "B" }

/-- A peer's log of a note that was deleted there; the note's resource is still
live here. -/
def store : FsStore where
  tree :=
    { deviceId := "B"
      notes := [(7,
        { logs := [("A",
            [⟨increment ∅ "A", 1, "A", .upsert note⟩,
              ⟨increment (increment ∅ "A") "A", 5, "A", .tombstone 5⟩])]
          md := none
          «meta» := none
          resources := [(9, .readable ⟨resource, "h"⟩)] })]
      notebooks := [], tags := [], noteTags := [], blobs := [] }
  cursors := fun _ => .start
  syncState := none

def format : LineFormat := ⟨fun _ => none, fun _ => none⟩

def failed : SyncRun :=
  runSync format (fun _ => "") (fun _ => 0) [] (some ⟨0, 2⟩) 10 store

def next : SyncRun :=
  runSync format (fun _ => "") (fun _ => 0) [] none 20 failed.store

theorem store_wellFiled : store.tree.WellFiled := by
  intro id log hlog entry hentry note hop
  by_cases hid : id = 7
  · subst hid
    simp [store, FsTree.noteLogs, FsTree.noteFolder, Directory.file?, readNoteLogs] at hlog
    subst hlog
    simp only [List.mem_cons, List.not_mem_nil, or_false] at hentry
    rcases hentry with rfl | rfl
    · exact congrArg Note.id (NoteOp.upsert.inj hop).symm
    · contradiction
  · have hnone : (7 : Nat) ≠ id := fun heq => hid heq.symm
    simp [store, FsTree.noteLogs, FsTree.noteFolder, Directory.file?, hnone, NoteFolder.empty,
      readNoteLogs] at hlog

theorem failedSync_loses_pending_delete :
    failed.applied ≠ failed.received ∧ next.result = .ok [] ∧
      ¬ ∀ change ∈ failed.received.drop failed.applied.length, change ∈ next.applied :=
  ⟨by decide, failedSync_loses_pending store_wellFiled (by decide) (some ⟨0, 2⟩) 10 20
    (by decide)⟩

/-- The delete of the note broke off after the projection was written.  No later
cycle deletes the resource. -/
theorem failedSync_keeps_resource :
    failed.received = [.noteDelete 7 5 (increment (increment ∅ "A") "A") "A"] ∧
      failed.applied = [] ∧ failed.result = .error .io ∧
      next.result = .ok [] ∧ next.applied = [] ∧
      next.store.tree.slot (.resource 9) = .stored resource.version := by
  decide

end LostChangesWitness

end Keeplin
