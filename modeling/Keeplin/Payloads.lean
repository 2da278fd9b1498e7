/-
The payloads behind the resources.  A purge takes the bytes of deleted resources,
also of those that only went with their note, and a restore brings the resource
back whether or not its bytes are still there.
-/
import Keeplin.AttachmentRuns
import Keeplin.DbRows

namespace Keeplin

/-- What the runs see of a store's payloads: the bytes held for a resource of a
note, and the resources whose bytes a payload written under a note would be. -/
structure PayloadReads (S : Type) where
  view : S → AttachmentView
  held : S → Uuid → Uuid → Option (List UInt8)
  shares : S → List UInt8 → Uuid → Uuid → Prop

/-- A call that succeeds keeps what is held, but for the payload a creation writes
and those a purge takes from resources that are not live. -/
def AttachmentStep.HeldEffect {S : Type} (reads : PayloadReads S) (step : AttachmentStep)
    (before after : S) : Prop :=
  match step.call with
  | .createResource resource data =>
      reads.held after resource.noteId resource.id = some data ∧
        ∀ noteId id, ¬(noteId = resource.noteId ∧ id = resource.id) →
          reads.held after noteId id = reads.held before noteId id ∨
            noteId = resource.noteId ∧ reads.shares before data noteId id ∧
              reads.held after noteId id = some data
  | .purgeDeletedResources _ =>
      ∀ noteId id, reads.held after noteId id = reads.held before noteId id ∨
        (reads.view before).item noteId id ≠ some none ∧ reads.held after noteId id = none
  | _ => ∀ noteId id, reads.held after noteId id = reads.held before noteId id

/-- The payloads of a store under its calls, in the states they keep it in. -/
structure KeepsPayloads {S : Type} (perform : S → AttachmentStep → S × Except StorageError Unit)
    (reads : PayloadReads S) (good : S → Prop) : Prop where
  cascades : Cascades perform reads.view good
  ok : ∀ store step, good store → (perform store step).2 = .ok () →
    step.HeldEffect reads store (perform store step).1
  error : ∀ store step failure, good store → (perform store step).2 = .error failure →
    ∀ noteId id, reads.held (perform store step).1 noteId id = reads.held store noteId id

/-- No note but its own has a resource of the created id, a resource that would
share the created payload was created with the same, and a note is restored while
the payloads of the resources it brings back are held. -/
def AttachmentStep.Backed {S : Type} (reads : PayloadReads S) (tracked : Tracked S)
    (step : AttachmentStep) : Prop :=
  match step.call with
  | .createResource resource data =>
      (∀ noteId, (reads.view tracked.store).item noteId resource.id ≠ none →
        noteId = resource.noteId) ∧
      ∀ id, id ≠ resource.id → reads.shares tracked.store data resource.noteId id →
        tracked.payload id = some data
  | .updateNote note _ =>
      ∀ id instant, (reads.view tracked.store).owner note.id = some (some instant) →
        (reads.view tracked.store).item note.id id = some (some instant) →
          reads.held tracked.store note.id id ≠ none
  | _ => True

section Run

variable {S : Type} {perform : S → AttachmentStep → S × Except StorageError Unit}
  {reads : PayloadReads S} {good : S → Prop}

/-- Each resource is under one note; what is held for it is the payload it was
created with, and as long as it is live that is held. -/
structure Tracked.Held (reads : PayloadReads S) (tracked : Tracked S) : Prop where
  unique : ∀ id first second, (reads.view tracked.store).item first id ≠ none →
    (reads.view tracked.store).item second id ≠ none → first = second
  created : ∀ noteId id, (reads.view tracked.store).item noteId id ≠ none →
    ∃ data, tracked.payload id = some data ∧
      (reads.held tracked.store noteId id = none ∨
        reads.held tracked.store noteId id = some data)
  live : ∀ noteId id, (reads.view tracked.store).item noteId id = some none →
    reads.held tracked.store noteId id ≠ none

theorem Tracked.Held.payload_of_live {tracked : Tracked S} (hheld : tracked.Held reads)
    {noteId id : Uuid} (hlive : (reads.view tracked.store).item noteId id = some none) :
    ∃ data, tracked.payload id = some data ∧
      reads.held tracked.store noteId id = some data := by
  obtain ⟨data, hdata, hnone | hbytes⟩ :=
    hheld.created noteId id (hlive ▸ Option.some_ne_none none)
  · exact absurd hnone (hheld.live noteId id hlive)
  · exact ⟨data, hdata, hbytes⟩

/-- A step that makes no resource and writes no payload keeps the payloads held,
if those of the resources live after it are. -/
theorem Tracked.Held.of_same_items {tracked next : Tracked S} {after : S}
    (hheld : tracked.Held reads) (hstore : next.store = after)
    (hpayload : next.payload = tracked.payload)
    (hitems : ∀ noteId id, (reads.view after).item noteId id ≠ none →
      (reads.view tracked.store).item noteId id ≠ none)
    (hkept : ∀ noteId id, reads.held after noteId id = reads.held tracked.store noteId id ∨
      reads.held after noteId id = none)
    (hlive : ∀ noteId id, (reads.view after).item noteId id = some none →
      reads.held after noteId id ≠ none) : next.Held reads := by
  subst hstore
  refine ⟨fun id first second hfirst hsecond => ?_, fun noteId id hitem => ?_, hlive⟩
  · exact hheld.unique id first second (hitems first id hfirst) (hitems second id hsecond)
  · obtain ⟨data, hdata, hbytes⟩ := hheld.created noteId id (hitems noteId id hitem)
    refine ⟨data, by rw [hpayload, hdata], ?_⟩
    rcases hkept noteId id with hsame | hnone
    · rw [hsame]
      exact hbytes
    · exact Or.inl hnone

/-- A creation makes its resource with its payload. -/
theorem Tracked.Held.create {tracked next : Tracked S} (hheld : tracked.Held reads)
    {resource : Resource} {data : List UInt8}
    (hview : reads.view next.store = (reads.view tracked.store).put resource.noteId
      resource.id resource.deletedAt)
    (hpayload : next.payload = Function.update tracked.payload resource.id (some data))
    (hwritten : reads.held next.store resource.noteId resource.id = some data)
    (hothers : ∀ noteId id, ¬(noteId = resource.noteId ∧ id = resource.id) →
      reads.held next.store noteId id = reads.held tracked.store noteId id ∨
        noteId = resource.noteId ∧ reads.shares tracked.store data noteId id ∧
          reads.held next.store noteId id = some data)
    (honly : ∀ noteId, (reads.view tracked.store).item noteId resource.id ≠ none →
      noteId = resource.noteId)
    (hshares : ∀ id, id ≠ resource.id → reads.shares tracked.store data resource.noteId id →
      tracked.payload id = some data) : next.Held reads where
  unique := by
    intro id first second hfirst hsecond
    rw [hview] at hfirst hsecond
    by_cases hid : id = resource.id
    · subst hid
      have hnote : ∀ noteId, ((reads.view tracked.store).put resource.noteId resource.id
          resource.deletedAt).item noteId resource.id ≠ none → noteId = resource.noteId := by
        intro noteId hitem
        by_contra hother
        rw [DeletionCascade.item_put_of_ne fun hsame => hother hsame.1] at hitem
        exact hother (honly noteId hitem)
      rw [hnote first hfirst, hnote second hsecond]
    · have hother : ∀ noteId, ¬(noteId = resource.noteId ∧ id = resource.id) :=
        fun noteId hsame => hid hsame.2
      rw [DeletionCascade.item_put_of_ne (hother first)] at hfirst
      rw [DeletionCascade.item_put_of_ne (hother second)] at hsecond
      exact hheld.unique id first second hfirst hsecond
  created := by
    intro noteId id hitem
    by_cases hsame : noteId = resource.noteId ∧ id = resource.id
    · obtain ⟨rfl, rfl⟩ := hsame
      exact ⟨data, by rw [hpayload, Function.update_self], Or.inr hwritten⟩
    · rw [hview, DeletionCascade.item_put_of_ne hsame] at hitem
      have hid : id ≠ resource.id := by
        rintro rfl
        exact hsame ⟨honly noteId hitem, rfl⟩
      obtain ⟨old, hold, hbytes⟩ := hheld.created noteId id hitem
      refine ⟨old, by rw [hpayload, Function.update_of_ne hid, hold], ?_⟩
      rcases hothers noteId id hsame with hkept | ⟨rfl, hshare, hnew⟩
      · rw [hkept]
        exact hbytes
      · rw [hnew, ← hold, hshares id hid hshare]
        exact Or.inr rfl
  live := by
    intro noteId id hlive
    by_cases hsame : noteId = resource.noteId ∧ id = resource.id
    · obtain ⟨rfl, rfl⟩ := hsame
      rw [hwritten]
      exact Option.some_ne_none data
    · rw [hview, DeletionCascade.item_put_of_ne hsame] at hlive
      rcases hothers noteId id hsame with hkept | ⟨_, _, hnew⟩
      · rw [hkept]
        exact hheld.live noteId id hlive
      · rw [hnew]
        exact Option.some_ne_none data

theorem Tracked.held_record {tracked : Tracked S} {after : S} {step : AttachmentStep}
    (hheld : tracked.Held reads) (hbacked : step.Backed reads tracked)
    (heffect : step.Effect (reads.view tracked.store) (reads.view after))
    (hbytes : step.HeldEffect reads tracked.store after) :
    ({ tracked with store := after }.record step.call).Held reads := by
  obtain ⟨call, ts, recordedAt⟩ := step
  cases call with
  | createResource resource data =>
      exact hheld.create heffect rfl hbytes.1 hbytes.2 hbacked.1 hbacked.2
  | deleteResource id =>
      obtain ⟨owner, hitem, heffect⟩ := heffect
      refine hheld.of_same_items (Tracked.record_store _ _) rfl (fun noteId found hfound => ?_)
        (fun noteId found => Or.inl (hbytes noteId found)) fun noteId found hlive => ?_
      · by_cases hsame : noteId = owner ∧ found = id
        · obtain ⟨rfl, rfl⟩ := hsame
          exact hitem
        · rwa [heffect, DeletionCascade.item_put_of_ne hsame] at hfound
      · by_cases hsame : noteId = owner ∧ found = id
        · obtain ⟨rfl, rfl⟩ := hsame
          rw [heffect, DeletionCascade.item_put_self] at hlive
          simp at hlive
        · rw [heffect, DeletionCascade.item_put_of_ne hsame] at hlive
          rw [hbytes noteId found]
          exact hheld.live noteId found hlive
  | deleteNote id =>
      obtain ⟨-, heffect⟩ := heffect
      refine hheld.of_same_items (Tracked.record_store _ _) rfl (fun noteId found hfound => ?_)
        (fun noteId found => Or.inl (hbytes noteId found)) fun noteId found hlive => ?_
      · rw [heffect] at hfound
        exact DeletionCascade.item_of_delete hfound
      · rw [heffect] at hlive
        rw [hbytes noteId found]
        exact hheld.live noteId found (DeletionCascade.item_of_delete_live hlive)
  | updateNote note hnote =>
      obtain heffect : reads.view after = _ := heffect
      refine hheld.of_same_items (Tracked.record_store _ _) rfl (fun noteId found hfound => ?_)
        (fun noteId found => Or.inl (hbytes noteId found)) fun noteId found hlive => ?_
      · rw [heffect] at hfound
        exact DeletionCascade.item_of_restore hfound
      · rw [heffect] at hlive
        rw [hbytes noteId found]
        rcases DeletionCascade.item_of_restore_live hlive with
          hbefore | ⟨rfl, instant, howner, hdead⟩
        · exact hheld.live noteId found hbefore
        · exact hbacked found instant howner hdead
  | purgeDeletedResources olderThan =>
      obtain heffect : reads.view after = _ := heffect
      refine hheld.of_same_items (Tracked.record_store _ _) rfl (fun noteId found hfound => ?_)
        (fun noteId found => (hbytes noteId found).imp id And.right)
        fun noteId found hlive => ?_
      · rwa [heffect] at hfound
      · rw [heffect] at hlive
        rcases hbytes noteId found with hsame | ⟨hdead, _⟩
        · rw [hsame]
          exact hheld.live noteId found hlive
        · exact absurd hlive hdead

theorem KeepsPayloads.held_step (hkeeps : KeepsPayloads perform reads good)
    {tracked next : Tracked S} {step : AttachmentStep} (hgood : good tracked.store)
    (hheld : tracked.Held reads) (hbacked : step.Backed reads tracked)
    (hstep : tracked.step perform step = some next) :
    good next.store ∧ next.Held reads := by
  have hgood' := hkeeps.cascades.keeps tracked.store step hgood
  rcases Tracked.step_cases hstep with ⟨hok, rfl⟩ | ⟨⟨failure, herror⟩, rfl⟩
  · refine ⟨by rwa [Tracked.record_store], ?_⟩
    exact Tracked.held_record hheld hbacked (hkeeps.cascades.ok tracked.store step hgood hok)
      (hkeeps.ok tracked.store step hgood hok)
  · refine ⟨hgood', ?_⟩
    have hview := hkeeps.cascades.error tracked.store step failure hgood herror
    have hbytes := hkeeps.error tracked.store step failure hgood herror
    refine hheld.of_same_items rfl rfl (fun noteId id hitem => ?_)
      (fun noteId id => Or.inl (hbytes noteId id)) fun noteId id hlive => ?_
    · rwa [hview] at hitem
    · rw [hview] at hlive
      rw [hbytes noteId id]
      exact hheld.live noteId id hlive

/-- At the end of a run of backed steps the payload of every live resource is the
one it was created with. -/
theorem KeepsPayloads.held_of_run (hkeeps : KeepsPayloads perform reads good)
    {start final : Tracked S} {steps : List AttachmentStep} (hgood : good start.store)
    (hnone : ∀ noteId id, (reads.view start.store).item noteId id = none)
    (hbacked : MeetsAll (Tracked.step perform) (fun tracked => AttachmentStep.Backed reads tracked)
      start steps)
    (hrun : runAll (Tracked.step perform) start steps = some final) :
    good final.store ∧ final.Held reads := by
  have hstart : start.Held reads := by
    refine ⟨fun id first second hfirst => ?_, fun noteId id hitem => ?_, fun noteId id hlive => ?_⟩
    · exact absurd (hnone first id) hfirst
    · exact absurd (hnone noteId id) hitem
    · rw [hnone noteId id] at hlive
      contradiction
  exact runAll_invariant_of_meetsAll (Tracked.step perform)
    (fun tracked step next hholds hbacked hnext =>
      hkeeps.held_step hholds.1 hholds.2 hbacked hnext)
    ⟨hgood, hstart⟩ hbacked hrun

end Run

/-- What the payload of a row hangs on. -/
def ResourceRow.filed (row : ResourceRow) : Uuid × Option (List UInt8) :=
  (row.noteId, row.data)

namespace Db

variable {db after : Db}

def heldBytes (db : Db) (noteId id : Uuid) : Option (List UInt8) :=
  (db.resources[id]?.filter fun row => row.noteId = noteId).bind ResourceRow.data

/-- A payload written to a row is only that row's. -/
def payloadReads : PayloadReads Db where
  view := attachments
  held := heldBytes
  shares := fun _ _ _ _ => False

/-- Rows that keep their note and their bytes keep what is held. -/
theorem heldBytes_eq
    (hrows : ∀ id : Uuid, after.resources[id]?.map ResourceRow.filed =
      db.resources[id]?.map ResourceRow.filed) (noteId id : Uuid) :
    after.heldBytes noteId id = db.heldBytes noteId id := by
  have hread : ∀ found : Option ResourceRow,
      (found.filter fun row => row.noteId = noteId).bind ResourceRow.data =
        ((found.map ResourceRow.filed).filter fun pair => pair.1 = noteId).bind
          Prod.snd := by
    intro found
    cases found with
    | none => rfl
    | some row =>
        by_cases hown : row.noteId = noteId <;> simp [Option.filter, ResourceRow.filed, hown]
  rw [heldBytes, heldBytes, hread, hread, hrows]

theorem heldBytes_createResource {resource : Resource} {data : List UInt8}
    {changedAt : DateTime} {result : Db × Resource}
    (hcall : db.createResource resource data changedAt = .ok result) :
    result.1.heldBytes resource.noteId resource.id = some data ∧
      ∀ noteId id, ¬(noteId = resource.noteId ∧ id = resource.id) →
        result.1.heldBytes noteId id = db.heldBytes noteId id := by
  simp only [createResource] at hcall
  split at hcall
  · contradiction
  · next hnew =>
      cases hcall
      have hnone : db.resources[resource.id]? = none := by simpa using hnew
      constructor
      · simp [heldBytes, recordChange, ResourceRow.ofResource, Option.filter]
      · intro noteId id hother
        simp only [heldBytes, recordChange, Std.ExtTreeMap.getElem?_insert,
          Std.LawfulEqCmp.compare_eq_iff_eq]
        by_cases hid : resource.id = id
        · subst hid
          have hnote : resource.noteId ≠ noteId := fun heq => hother ⟨heq.symm, rfl⟩
          simp [hnone, ResourceRow.ofResource, Option.filter, hnote]
        · simp [hid]

theorem heldBytes_deleteResource {id : Uuid} {ts changedAt : DateTime}
    (hcall : db.deleteResource id ts changedAt = .ok after) (noteId found : Uuid) :
    after.heldBytes noteId found = db.heldBytes noteId found := by
  apply heldBytes_eq
  intro other
  simp only [deleteResource] at hcall
  split at hcall
  · contradiction
  · next row hrow =>
      cases hcall
      simp only [recordChange, Std.ExtTreeMap.getElem?_insert,
        Std.LawfulEqCmp.compare_eq_iff_eq]
      by_cases hid : id = other
      · subst hid
        simp [hrow, ResourceRow.filed]
      · simp [hid]

/-- A cascade over the rows changes deletion instants only. -/
theorem resources_map_deletedAt (resources : Table ResourceRow)
    {change : Uuid → ResourceRow → ResourceRow}
    (hchange : ∀ id row, (change id row).noteId = row.noteId ∧ (change id row).data = row.data)
    (id : Uuid) :
    ((resources.map change)[id]?).map ResourceRow.filed =
      resources[id]?.map ResourceRow.filed := by
  rw [Std.ExtTreeMap.getElem?_map, Option.map_map]
  congr 1
  funext row
  simp only [Function.comp, ResourceRow.filed, hchange]

theorem heldBytes_deleteNote {id : Uuid} {ts changedAt : DateTime}
    (hcall : db.deleteNote id ts changedAt = .ok after) (noteId found : Uuid) :
    after.heldBytes noteId found = db.heldBytes noteId found := by
  apply heldBytes_eq
  simp only [deleteNote] at hcall
  split at hcall
  · contradiction
  · cases hcall
    apply resources_map_deletedAt
    intro other row
    split <;> exact ⟨rfl, rfl⟩

theorem heldBytes_updateNote {note : Note} {changedAt : DateTime} {result : Db × Note}
    (hcall : db.updateNote note changedAt = .ok result) (noteId found : Uuid) :
    result.1.heldBytes noteId found = db.heldBytes noteId found := by
  apply heldBytes_eq
  simp only [updateNote] at hcall
  split at hcall
  · contradiction
  · cases hcall
    simp only [recordChange, refreshNoteLinks, restoreResources]
    split
    · apply resources_map_deletedAt
      intro other row
      split <;> exact ⟨rfl, rfl⟩
    · exact fun _ => rfl

theorem heldBytes_purge (olderThan : DateTime) (noteId id : Uuid) :
    (db.purgeDeletedResources olderThan).1.heldBytes noteId id = db.heldBytes noteId id ∨
      db.attachments.item noteId id ≠ some none ∧
        (db.purgeDeletedResources olderThan).1.heldBytes noteId id = none := by
  simp only [heldBytes, purgeDeletedResources, attachments, Std.ExtTreeMap.getElem?_map]
  cases db.resources[id]? with
  | none => exact Or.inl rfl
  | some row =>
      by_cases hown : row.noteId = noteId
      · simp only [Option.map_some]
        split
        · next hpurges =>
            right
            rw [Bool.and_eq_true] at hpurges
            obtain ⟨deletedAt, hdeleted, _⟩ := (Option.any_eq_true _ _).mp hpurges.1
            simp [Option.filter, hown, hdeleted]
        · exact Or.inl rfl
      · left
        simp only [Option.map_some]
        split <;> simp [Option.filter, hown]

theorem keepsPayloads : KeepsPayloads performCall payloadReads fun _ => True where
  cascades := cascades
  ok := by
    intro db step _ hok
    obtain ⟨call, ts, recordedAt⟩ := step
    simp only [performCall] at hok ⊢
    split at hok
    · next after hcall =>
        cases call with
        | createResource resource data =>
            obtain ⟨result, hresult, rfl⟩ := exists_of_map_ok hcall
            obtain ⟨hwritten, hothers⟩ := heldBytes_createResource hresult
            exact ⟨hwritten, fun noteId id hother => Or.inl (hothers noteId id hother)⟩
        | deleteResource id => exact heldBytes_deleteResource hcall
        | deleteNote id => exact heldBytes_deleteNote hcall
        | updateNote note hlive =>
            obtain ⟨result, hresult, rfl⟩ := exists_of_map_ok hcall
            exact heldBytes_updateNote hresult
        | purgeDeletedResources olderThan =>
            obtain rfl := Except.ok.inj hcall
            exact heldBytes_purge olderThan
    · contradiction
  error := by
    intro db step failure _ herror noteId id
    simp only [performCall] at herror ⊢
    split at herror
    · contradiction
    · rfl

/-- A live row whose bytes are held is read with them. -/
theorem readResource_of_held {noteId id : Uuid} {data : List UInt8}
    (hlive : db.attachments.item noteId id = some none)
    (hheld : db.heldBytes noteId id = some data) :
    ∃ resource, db.readResource id = .ok (resource, data) := by
  simp only [attachments, heldBytes] at hlive hheld
  cases hrow : db.resources[id]? with
  | none =>
      rw [hrow] at hlive
      contradiction
  | some row =>
      by_cases hown : row.noteId = noteId
      · simp only [hrow, Option.filter, hown, decide_true, ↓reduceIte, Option.map_some,
          Option.some.injEq, Option.bind_some] at hlive hheld
        exact ⟨rowToResource id row, by simp [readResource, hrow, hlive, hheld]⟩
      · simp [hrow, Option.filter, hown] at hlive

end Db

namespace FsTree

variable (contentHash : List UInt8 → String) (place : Uuid → Nat) (tree : FsTree)

def readResource (id : Uuid) : Except StorageError (Resource × List UInt8) :=
  match tree.readResourceSidecar id with
  | .error failure => .error failure
  | .ok none => .error (.notFound id)
  | .ok (some (noteId, stored)) =>
      if stored.resource.deletedAt ≠ none then .error (.notFound id)
      else
        match tree.blobs.file? (noteId, stored.blobHash) with
        | some data => .ok (stored.resource, data)
        | none => .error .io

/-- The content hash a resource file points to. -/
def blobHash? (noteId id : Uuid) : Option String :=
  match tree.resourceFile noteId id with
  | some (.readable stored) => some stored.blobHash
  | _ => none

def heldBytes (noteId id : Uuid) : Option (List UInt8) :=
  (tree.blobHash? noteId id).bind fun hash => tree.blobs.file? (noteId, hash)

/-- A payload written to a folder is every resource's there that has its hash. -/
def payloadReads : PayloadReads FsTree where
  view := attachments
  held := heldBytes
  shares := fun tree data noteId id => tree.blobHash? noteId id = some (contentHash data)

/-- A write that keeps the payloads and which of them a resource has. -/
def KeepsHash (write : TreeWrite) : Prop :=
  match write with
  | .blob _ _ _ => False
  | .resource noteId id stored => tree.blobHash? noteId id = some stored.blobHash
  | _ => True

variable {contentHash} {place} {tree} {after : FsTree}

theorem blobHash?_perform_resource (noteId id other found : Uuid) (stored : StoredResource) :
    (tree.perform place (.resource noteId id stored)).blobHash? other found =
      if noteId = other ∧ id = found then some stored.blobHash
      else tree.blobHash? other found := by
  simp only [blobHash?, resourceFile_perform_resource]
  by_cases hsame : noteId = other ∧ id = found
  · simp [hsame]
  · simp [hsame]

theorem keepsHash_perform (place : Uuid → Nat) {write : TreeWrite} (hkeeps : tree.KeepsHash write) :
    (tree.perform place write).blobs = tree.blobs ∧
      (tree.perform place write).blobHash? = tree.blobHash? := by
  by_cases hresource : ∃ noteId id stored, write = .resource noteId id stored
  · obtain ⟨noteId, id, stored, rfl⟩ := hresource
    refine ⟨rfl, ?_⟩
    funext other found
    rw [blobHash?_perform_resource]
    split
    · next hsame =>
        obtain ⟨rfl, rfl⟩ := hsame
        exact hkeeps.symm
    · rfl
  · have hfiles : ∀ other, ((tree.perform place write).noteFolder other).resources =
        (tree.noteFolder other).resources :=
      resources_perform_other tree fun noteId id stored heq =>
        hresource ⟨noteId, id, stored, heq⟩
    refine ⟨?_, ?_⟩
    · cases write with
      | blob noteId hash data => exact absurd hkeeps not_false
      | noteLog id device log => rfl
      | noteMd id body => rfl
      | noteMeta id value => rfl
      | notebook id value => rfl
      | tag id value => rfl
      | noteTag noteId tagId state => rfl
      | resource noteId id stored => rfl
    · funext other found
      simp only [blobHash?, resourceFile, hfiles]

/-- Writes that keep the payloads keep what is held. -/
theorem heldBytes_performAll {writes : List TreeWrite}
    (hkeeps : ∀ write ∈ writes, tree.KeepsHash write) :
    (tree.performAll place writes).heldBytes = tree.heldBytes := by
  have hsame : (tree.performAll place writes).blobs = tree.blobs ∧
      (tree.performAll place writes).blobHash? = tree.blobHash? := by
    induction writes generalizing tree with
    | nil => exact ⟨rfl, rfl⟩
    | cons write rest ih =>
        obtain ⟨hblobs, hhash⟩ := keepsHash_perform place (hkeeps write List.mem_cons_self)
        have hrest : ∀ later ∈ rest, (tree.perform place write).KeepsHash later := by
          intro later hlater
          have hlaterKeeps := hkeeps later (List.mem_cons_of_mem _ hlater)
          cases later with
          | resource noteId id stored => simpa only [KeepsHash, hhash] using hlaterKeeps
          | blob noteId hash data => exact hlaterKeeps
          | noteLog id device log => trivial
          | noteMd id body => trivial
          | noteMeta id value => trivial
          | notebook id value => trivial
          | tag id value => trivial
          | noteTag noteId tagId state => trivial
        obtain ⟨hblobsRest, hhashRest⟩ := ih hrest
        exact ⟨hblobsRest.trans hblobs, hhashRest.trans hhash⟩
  funext noteId id
  rw [heldBytes, heldBytes, hsame.1, hsame.2]

theorem keepsHash_of_append {id : Uuid} {timestamp : DateTime} {op : NoteOp} {write : TreeWrite}
    (hwrite : write ∈ (tree.appendNoteOp place id timestamp op).writes) :
    tree.KeepsHash write := by
  rcases mem_appendNoteOp hwrite with ⟨_, _, rfl⟩ | ⟨_, _, rfl⟩ | ⟨_, _, rfl⟩
  · trivial
  · trivial
  · trivial

/-- A cascade only moves deletion instants. -/
theorem keepsHash_of_cascade (htidy : tree.Tidy) {noteId : Uuid}
    {change : StoredResource → Option StoredResource}
    (hchange : ∀ stored rewritten, change stored = some rewritten →
      rewritten.blobHash = stored.blobHash) {write : TreeWrite}
    (hwrite : write ∈ (cascadeResources noteId change (tree.noteFolder noteId).resources).writes) :
    tree.KeepsHash write := by
  obtain ⟨id, stored, rewritten, hfile, heffect, rfl⟩ := mem_cascadeResources hwrite
  have hread : tree.resourceFile noteId id = some (.readable stored) :=
    Directory.file?_of_nodup (htidy.resources noteId) hfile
  simp only [KeepsHash, blobHash?, hread, hchange stored rewritten heffect]

theorem withDeletedAt_blobHash {condition : Prop} [Decidable condition]
    {deletedAt : Option DateTime} {stored rewritten : StoredResource}
    (hchange : (if condition then some (StoredResource.withDeletedAt stored deletedAt) else none) =
      some rewritten) : rewritten.blobHash = stored.blobHash := by
  split at hchange
  · obtain rfl := Option.some.inj hchange
    rfl
  · contradiction

theorem heldBytes_deleteNote (htidy : tree.Tidy) {id : Uuid} {ts timestamp : DateTime} :
    (tree.performAll place (tree.deleteNote place id ts timestamp).writes).heldBytes =
      tree.heldBytes := by
  apply heldBytes_performAll
  intro write hwrite
  unfold deleteNote at hwrite
  split at hwrite
  · exact absurd hwrite List.not_mem_nil
  · simp only [Plan.bind] at hwrite
    split at hwrite
    · exact keepsHash_of_append hwrite
    · rcases List.mem_append.mp hwrite with happended | hcascade
      · exact keepsHash_of_append happended
      · exact keepsHash_of_cascade htidy (fun _ _ hchange => withDeletedAt_blobHash hchange)
          hcascade

theorem heldBytes_updateNote (htidy : tree.Tidy) {note : Note} {timestamp : DateTime} :
    (tree.performAll place (tree.updateNote place note timestamp).writes).heldBytes =
      tree.heldBytes := by
  apply heldBytes_performAll
  intro write hwrite
  unfold updateNote at hwrite
  split at hwrite
  · exact absurd hwrite List.not_mem_nil
  · cases hprior : tree.mergeNote note.id with
    | error failure =>
        rw [hprior] at hwrite
        exact absurd hwrite List.not_mem_nil
    | ok prior =>
        simp only [hprior, Plan.reading, Plan.bind] at hwrite
        split at hwrite
        · exact keepsHash_of_append hwrite
        · rcases List.mem_append.mp hwrite with happended | hcascade
          · exact keepsHash_of_append happended
          · split at hcascade
            · split at hcascade
              · exact keepsHash_of_cascade htidy (fun _ _ hchange => withDeletedAt_blobHash hchange)
                  hcascade
              · rw [Plan.done, List.append_nil] at hcascade
                exact keepsHash_of_cascade htidy (fun _ _ hchange => withDeletedAt_blobHash hchange)
                  hcascade
            · exact absurd hcascade List.not_mem_nil

theorem heldBytes_deleteResource {id : Uuid} {ts : DateTime} {mutation : Mutation}
    (hcall : tree.deleteResource id ts = .ok mutation) :
    (tree.performAll place mutation.writes).heldBytes = tree.heldBytes := by
  simp only [deleteResource] at hcall
  split at hcall
  · contradiction
  · contradiction
  · next noteId stored hread =>
      cases hcall
      apply heldBytes_performAll
      intro write hwrite
      rw [List.mem_singleton.mp hwrite]
      simp only [KeepsHash, blobHash?, tree.resourceFile_of_read hread, tombstoned]

theorem heldBytes_createResource {resource : Resource} {data : List UInt8}
    {mutation : Mutation} (hcall : tree.createResource contentHash resource data = .ok mutation) :
    (tree.performAll place mutation.writes).heldBytes resource.noteId resource.id = some data ∧
      ∀ noteId id, ¬(noteId = resource.noteId ∧ id = resource.id) →
        (tree.performAll place mutation.writes).heldBytes noteId id = tree.heldBytes noteId id ∨
          noteId = resource.noteId ∧ tree.blobHash? noteId id = some (contentHash data) ∧
            (tree.performAll place mutation.writes).heldBytes noteId id = some data := by
  obtain ⟨vv, _, rfl⟩ := exists_of_map_ok hcall
  simp only [performAll, List.foldl_cons, List.foldl_nil]
  have hhash : ∀ noteId id, (tree.perform place
      (.blob resource.noteId (contentHash data) data)).blobHash? noteId id =
        tree.blobHash? noteId id := fun _ _ => rfl
  have hblobs : ∀ stored : StoredResource, ((tree.perform place
      (.blob resource.noteId (contentHash data) data)).perform place
        (.resource resource.noteId resource.id stored)).blobs =
      tree.blobs.put tree.blobs.length (resource.noteId, contentHash data) data := fun _ => rfl
  constructor
  · rw [heldBytes, blobHash?_perform_resource, if_pos ⟨rfl, rfl⟩, hblobs]
    exact Directory.file?_put_self _ _ _ _
  · intro noteId id hother
    have hne : ¬(resource.noteId = noteId ∧ resource.id = id) :=
      fun hsame => hother ⟨hsame.1.symm, hsame.2.symm⟩
    rw [heldBytes, blobHash?_perform_resource, if_neg hne, hblobs, hhash, heldBytes]
    cases hfound : tree.blobHash? noteId id with
    | none => exact Or.inl rfl
    | some hash =>
        simp only [Option.bind_some, Directory.file?_put]
        by_cases hkey : (resource.noteId, contentHash data) = (noteId, hash)
        · obtain ⟨rfl, rfl⟩ := Prod.mk.inj hkey
          exact Or.inr ⟨rfl, rfl, if_pos rfl⟩
        · exact Or.inl (if_neg hkey)

/-- A purge spares the payload of a live resource. -/
theorem not_purges_of_live {olderThan : DateTime} {noteId id : Uuid} {stored : StoredResource}
    (hfile : tree.resourceFile noteId id = some (.readable stored))
    (hlive : stored.resource.deletedAt = none) :
    tree.purges olderThan noteId stored.blobHash = false := by
  have hstored : stored ∈ tree.storedResources noteId :=
    List.mem_filterMap.mpr ⟨(id, .readable stored), Directory.file?_mem hfile, rfl⟩
  have hshared : (tree.storedResources noteId).any (fun other =>
      other.resource.deletedAt.isNone && other.blobHash = stored.blobHash) = true :=
    List.any_eq_true.mpr ⟨stored, hstored, by simp [hlive]⟩
  rw [purges, hshared]
  exact Bool.and_false _

theorem heldBytes_purge (olderThan : DateTime) (noteId id : Uuid) :
    (tree.purgeDeletedResources olderThan).1.heldBytes noteId id = tree.heldBytes noteId id ∨
      tree.attachments.item noteId id ≠ some none ∧
        (tree.purgeDeletedResources olderThan).1.heldBytes noteId id = none := by
  have hhash : (tree.purgeDeletedResources olderThan).1.blobHash? = tree.blobHash? := rfl
  have hblobs : ∀ hash, Directory.file? (tree.purgeDeletedResources olderThan).1.blobs
      (noteId, hash) =
        if !tree.purges olderThan noteId hash then tree.blobs.file? (noteId, hash) else none :=
    fun hash => Directory.file?_filter tree.blobs
      (fun key => !tree.purges olderThan key.1 key.2) (noteId, hash)
  rw [heldBytes, hhash, heldBytes]
  cases hfile : tree.resourceFile noteId id with
  | none => simp [blobHash?, hfile]
  | some file =>
      cases file with
      | unreadable => simp [blobHash?, hfile]
      | readable stored =>
          simp only [blobHash?, hfile, Option.bind_some, hblobs]
          by_cases hpurges : tree.purges olderThan noteId stored.blobHash = true
          · right
            refine ⟨fun hlive => ?_, by simp [hpurges]⟩
            simp only [attachments, hfile, Option.some.injEq] at hlive
            rw [not_purges_of_live hfile hlive] at hpurges
            contradiction
          · exact Or.inl (by simp [hpurges])

theorem keepsPayloads :
    KeepsPayloads (performCall contentHash place) (payloadReads contentHash) Tidy where
  cascades := cascades
  ok := by
    intro tree step htidy hok
    obtain ⟨call, ts, recordedAt⟩ := step
    cases call with
    | createResource resource data =>
        simp only [performCall] at hok ⊢
        split at hok
        · next mutation hcall => exact heldBytes_createResource hcall
        · contradiction
    | deleteResource id =>
        simp only [performCall] at hok ⊢
        split at hok
        · next mutation hcall =>
            exact fun noteId found => congrFun₂ (heldBytes_deleteResource hcall) noteId found
        · contradiction
    | deleteNote id => exact fun noteId found => congrFun₂ (heldBytes_deleteNote htidy) noteId found
    | updateNote note hlive =>
        exact fun noteId found => congrFun₂ (heldBytes_updateNote htidy) noteId found
    | purgeDeletedResources olderThan => exact heldBytes_purge olderThan
  error := by
    intro tree step failure htidy herror noteId found
    obtain ⟨call, ts, recordedAt⟩ := step
    cases call with
    | createResource resource data =>
        simp only [performCall] at herror ⊢
        split at herror
        · contradiction
        · rfl
    | deleteResource id =>
        simp only [performCall] at herror ⊢
        split at herror
        · contradiction
        · rfl
    | deleteNote id => exact congrFun₂ (heldBytes_deleteNote htidy) noteId found
    | updateNote note hlive => exact congrFun₂ (heldBytes_updateNote htidy) noteId found
    | purgeDeletedResources olderThan => contradiction

/-- The folder that alone has a resource is where it is found. -/
theorem locateResourceNote_of_unique (htidy : tree.Tidy) {noteId id : Uuid}
    (hitem : tree.attachments.item noteId id ≠ none)
    (honly : ∀ other, tree.attachments.item other id ≠ none → other = noteId) :
    tree.locateResourceNote id = some noteId := by
  have hfile : tree.resourceFile noteId id ≠ none := by
    intro hnone
    simp [attachments, hnone] at hitem
  refine locateResourceNote_of_only (Option.isSome_iff_ne_none.mpr hfile) ?_
  intro other hother
  obtain ⟨file, hfound⟩ := Option.isSome_iff_exists.mp hother
  obtain ⟨stored, hstored⟩ := htidy.readable other (id, file) (Directory.file?_mem hfound)
  obtain rfl : file = .readable stored := hstored
  exact honly other (by simp [attachments, hfound])

/-- A live resource that only one folder has is read with the bytes held for it. -/
theorem readResource_of_held (htidy : tree.Tidy) {noteId id : Uuid} {data : List UInt8}
    (honly : ∀ other, tree.attachments.item other id ≠ none → other = noteId)
    (hlive : tree.attachments.item noteId id = some none)
    (hheld : tree.heldBytes noteId id = some data) :
    ∃ resource, tree.readResource id = .ok (resource, data) := by
  have hlocate := locateResourceNote_of_unique htidy (hlive ▸ Option.some_ne_none none) honly
  cases hfile : tree.resourceFile noteId id with
  | none => simp [attachments, hfile] at hlive
  | some file =>
      cases file with
      | unreadable => simp [attachments, hfile] at hlive
      | readable stored =>
          simp only [attachments, hfile, Option.some.injEq] at hlive
          simp only [heldBytes, blobHash?, hfile, Option.bind_some] at hheld
          refine ⟨stored.resource, ?_⟩
          simp [readResource, readResourceSidecar, hlocate, hfile, hlive, hheld]

end FsTree

/-- Every live resource is read with the payload it was last created with. -/
def Tracked.LiveReadable {S : Type} (view : S → AttachmentView)
    (readResource : S → Uuid → Except StorageError (Resource × List UInt8))
    (tracked : Tracked S) : Prop :=
  ∀ noteId id, (view tracked.store).item noteId id = some none →
    ∃ resource data, readResource tracked.store id = .ok (resource, data) ∧
      tracked.payload id = some data

/-- In both stores, whatever calls follow each other and whatever is purged. -/
theorem live_resources_readable (contentHash : List UInt8 → String) (place : Uuid → Nat)
    (steps : List AttachmentStep) :
    (∀ start final : Tracked Db,
      start.store.resources = ∅ →
      MeetsAll (Tracked.step Db.performCall)
        (fun tracked => AttachmentStep.Backed Db.payloadReads tracked) start steps →
      runAll (Tracked.step Db.performCall) start steps = some final →
      final.LiveReadable Db.attachments Db.readResource) ∧
    ∀ start final : Tracked FsTree,
      (∀ noteId, ((start.store.noteFolder noteId).logs.map Prod.fst).Nodup) →
      (∀ noteId, (start.store.noteFolder noteId).resources = []) →
      MeetsAll (Tracked.step (FsTree.performCall contentHash place))
        (fun tracked => AttachmentStep.Backed (FsTree.payloadReads contentHash) tracked)
        start steps →
      runAll (Tracked.step (FsTree.performCall contentHash place)) start steps = some final →
      final.LiveReadable FsTree.attachments FsTree.readResource := by
  constructor
  · intro start final hnone hbacked hrun noteId id hlive
    obtain ⟨-, hheld⟩ := Db.keepsPayloads.held_of_run trivial
      (fun other found => by simp [Db.payloadReads, Db.attachments, hnone]) hbacked hrun
    obtain ⟨data, hdata, hbytes⟩ := hheld.payload_of_live hlive
    obtain ⟨resource, hread⟩ := Db.readResource_of_held hlive hbytes
    exact ⟨resource, data, hread, hdata⟩
  · intro start final hlogs hnone hbacked hrun noteId id hlive
    have htidy := FsTree.tidy_of_no_resources hlogs hnone
    obtain ⟨hfinal, hheld⟩ := FsTree.keepsPayloads.held_of_run htidy
        (fun other found => by
          simp [FsTree.payloadReads, FsTree.attachments, FsTree.resourceFile, hnone,
            Directory.file?]) hbacked hrun
    obtain ⟨data, hdata, hbytes⟩ := hheld.payload_of_live hlive
    have honly : ∀ other, final.store.attachments.item other id ≠ none → other = noteId :=
      fun other hother => hheld.unique id other noteId hother (hlive ▸ Option.some_ne_none none)
    obtain ⟨resource, hread⟩ := FsTree.readResource_of_held hfinal honly hlive hbytes
    exact ⟨resource, data, hread, hdata⟩

namespace PayloadsWitness

open AttachmentsWitness

def purge (cutoff : DateTime) : AttachmentStep := callAt cutoff (.purgeDeletedResources cutoff)

theorem not_liveReadable {S : Type} {view : S → AttachmentView}
    {readResource : S → Uuid → Except StorageError (Resource × List UInt8)}
    {run : Option (Tracked S)}
    (hlost : (run.any fun final => (view final.store).item 1 2 = some none ∧
      ((readResource final.store 2).toOption.isNone = true)) = true) :
    ∃ final, run = some final ∧ ¬ final.LiveReadable view readResource := by
  obtain ⟨final, hfinal, hlost⟩ := (Option.any_eq_true _ _).mp hlost
  obtain ⟨hlive, hunread⟩ := of_decide_eq_true hlost
  refine ⟨final, hfinal, fun hreadable => ?_⟩
  obtain ⟨resource, data, hread, -⟩ := hreadable 1 2 hlive
  rw [hread] at hunread
  contradiction

/-- The note is restored after the payload of its resource was purged. -/
theorem restored_without_payload :
    (∃ final, runAll (Tracked.step Db.performCall) rows
        [create, delete 5, purge 6, restore 7] = some final ∧
      ¬ final.LiveReadable Db.attachments Db.readResource) ∧
    ∃ final, runAll (Tracked.step (FsTree.performCall (fun _ => "h") fun _ => 0)) files
        [create, delete 5, purge 6, restore 7] = some final ∧
      ¬ final.LiveReadable FsTree.attachments FsTree.readResource := by
  constructor
  · apply not_liveReadable
    decide
  · apply not_liveReadable
    decide

/-- Nothing is purged between the deletion and the restore. -/
theorem deletion_backed {S : Type} {perform : S → AttachmentStep → S × Except StorageError Unit}
    {reads : PayloadReads S} {good : S → Prop} (hkeeps : KeepsPayloads perform reads good)
    (start : Tracked S) (hgood : good start.store)
    (hnone : ∀ noteId id, (reads.view start.store).item noteId id = none)
    (hshares : ∀ data noteId id, ¬ reads.shares start.store data noteId id)
    (instant later : DateTime) :
    MeetsAll (Tracked.step perform) (fun tracked => AttachmentStep.Backed reads tracked)
      start [create, delete instant, restore later] := by
  have hcreate : create.Backed reads start :=
    ⟨fun noteId hitem => absurd (hnone noteId _) hitem,
      fun id _ hshare => absurd hshare (hshares _ _ _)⟩
  refine ⟨hcreate, fun created hcreated => ⟨trivial, fun deleted hdeleted => ⟨?_, fun _ _ =>
    trivial⟩⟩⟩
  have hlive : ∀ id, (reads.view created.store).item 1 id ≠ none →
      (reads.view created.store).item 1 id = some none :=
    fun id => created_live hkeeps.cascades hgood hnone hcreated
  have hmeets : MeetsAll (Tracked.step perform)
      (fun tracked => AttachmentStep.Backed reads tracked) start [create] :=
    ⟨hcreate, fun _ _ => trivial⟩
  obtain ⟨hgood, hheld⟩ := hkeeps.held_of_run hgood hnone hmeets (by rw [runAll, hcreated]; rfl)
  intro id stamp _ hdead
  rcases Tracked.step_cases hdeleted with ⟨hok, rfl⟩ | ⟨⟨failure, herror⟩, rfl⟩
  · obtain ⟨-, heffect⟩ := hkeeps.cascades.ok created.store (delete instant) hgood hok
    have hbytes := hkeeps.ok created.store (delete instant) hgood hok
    simp only [Tracked.record_store, heffect] at hdead
    have hitem := DeletionCascade.item_of_delete (hdead ▸ Option.some_ne_none _)
    simp only [Tracked.record_store, hbytes note.id id]
    exact hheld.live 1 id (hlive id hitem)
  · have hview := hkeeps.cascades.error created.store (delete instant) failure hgood herror
    simp only [hview] at hdead
    have hitem := hlive id (hdead ▸ Option.some_ne_none _)
    have hstamp := hdead.symm.trans hitem
    simp at hstamp

theorem live_resources_readable_restored :
    (∀ final, runAll (Tracked.step Db.performCall) rows [create, delete 5, restore 7] =
        some final → final.LiveReadable Db.attachments Db.readResource) ∧
    ∀ final, runAll (Tracked.step (FsTree.performCall (fun _ => "h") fun _ => 0)) files
        [create, delete 5, restore 7] = some final →
      final.LiveReadable FsTree.attachments FsTree.readResource := by
  constructor
  · intro final hrun
    have hbacked := deletion_backed Db.keepsPayloads rows trivial
      (fun noteId id => by simp [Db.payloadReads, Db.attachments, rows])
      (fun _ _ _ hshares => hshares) 5 7
    exact (live_resources_readable (fun _ => "h") (fun _ => 0) _).1 rows final
      (by simp only [rows]) hbacked hrun
  · intro final hrun
    have hbacked := deletion_backed
      (@FsTree.keepsPayloads (fun _ => "h") fun _ => 0) files
      (FsTree.tidy_of_no_resources files_logs files_resources)
      (fun noteId id => by
        simp [FsTree.payloadReads, FsTree.attachments, FsTree.resourceFile, files_resources,
          Directory.file?])
      (fun data noteId id => by
        simp [FsTree.payloadReads, FsTree.blobHash?, FsTree.resourceFile, files_resources,
          Directory.file?]) 5 7
    exact (live_resources_readable (fun _ => "h") (fun _ => 0) _).2 files final
      files_logs files_resources hbacked hrun

end PayloadsWitness

end Keeplin
