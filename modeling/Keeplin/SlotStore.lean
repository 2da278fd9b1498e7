/-
What the two stores have in common for one entity: a slot, and changes applied
to it that either lose and leave everything alone, or win and take the slot
over where their write is the one that is read.
-/
import Keeplin.DbSync
import Keeplin.FsResources

namespace Keeplin

open VersionVector WinnerRegister

structure SlotStore (T : Type) (entity : Entity) where
  slot : T → Slot
  apply : T → Change → T
  lands : T → Change → Bool
  kept : ∀ store change, change.entity = entity →
    change.version.beats (slot store) = false → apply store change = store
  delivered : ∀ store change, change.entity = entity →
    change.version.beats (slot store) = true →
      slot (apply store change) =
        if lands store change then .stored change.version else slot store
  edits : ∀ store vv timestamp, ∃ change : Change, change.entity = entity ∧
    change.version = ⟨vv, timestamp, "", true⟩ ∧ lands store change = true

namespace SlotStore

variable {T : Type} {entity : Entity} (S : SlotStore T entity)

def applyAll (store : T) (changes : List Change) : T :=
  changes.foldl S.apply store

theorem applyAll_concat (store : T) (changes : List Change) (change : Change) :
    S.applyAll store (changes ++ [change]) = S.apply (S.applyAll store changes) change := by
  simp [applyAll, List.foldl_append]

/-- Where every winner lands, a slot is a register of the changes applied. -/
theorem slot_apply
    (hlands : ∀ store change, change.entity = entity → S.lands store change = true)
    (store : T) {change : Change} (hentity : change.entity = entity) :
    S.slot (S.apply store change) = slotRegister.deliver (S.slot store) change := by
  by_cases hbeats : change.version.beats (S.slot store) = true
  · rw [S.delivered store change hentity hbeats, if_pos (hlands store change hentity),
      slotRegister.deliver_of_wins hbeats]
    rfl
  · have hloses : change.version.beats (S.slot store) = false := Bool.eq_false_iff.mpr hbeats
    rw [S.kept store change hentity hloses, slotRegister.deliver_of_loses hloses]

theorem slot_applyAll
    (hlands : ∀ store change, change.entity = entity → S.lands store change = true)
    {changes : List Change} (hentity : ∀ change ∈ changes, change.entity = entity)
    (store : T) :
    S.slot (S.applyAll store changes) =
      slotRegister.deliverAll (S.slot store) changes := by
  induction changes generalizing store with
  | nil => rfl
  | cons change rest ih =>
      have hhead := hentity change List.mem_cons_self
      rw [deliverAll_cons, ← S.slot_apply hlands store hhead]
      exact ih (fun other hother => hentity other (List.mem_cons_of_mem change hother))
        (S.apply store change)

end SlotStore

/-- An edit of the entity with a given vector and instant, live and without a
writer.  `noteId` is the folder of a resource. -/
def Entity.editWith (noteId : Uuid) (vv : VersionVector) (timestamp : DateTime) :
    Entity → Change
  | .note id =>
      .noteUpdate
        { id, title := "", body := "", notebookId := Uuid.nil, isTodo := false
          todoDue := none, todoCompleted := none, createdAt := timestamp
          updatedAt := timestamp, deletedAt := none, «alias» := none, bookmarks := []
          links := [], vv, lastWriter := "", isPinned := false, isStarred := false
          sortKey := 0 }
  | .notebook id =>
      .notebookUpdate ⟨id, "", timestamp, timestamp, none, none, vv, ""⟩
  | .tag id => .tagUpdate ⟨id, "", timestamp, timestamp, none, vv, "", false⟩
  | .noteTag noteId tagId => .noteTagAdd noteId tagId timestamp vv ""
  | .resource id =>
      .resourceCreate
        { id, noteId, title := "", mimeType := "", fileName := "", size := 0
          durationMs := none, dimensions := none, createdAt := timestamp
          deletedAt := none, vv, lastWriter := "" } none

theorem Entity.editWith_spec (noteId : Uuid) (vv : VersionVector) (timestamp : DateTime)
    (entity : Entity) :
    (entity.editWith noteId vv timestamp).entity = entity ∧
      (entity.editWith noteId vv timestamp).version = ⟨vv, timestamp, "", true⟩ := by
  cases entity <;> exact ⟨rfl, rfl⟩

/-- The database as a store of any entity: every row is where it is read. -/
def Db.slotStore (entity : Entity) : SlotStore Db entity where
  slot := fun db => db.slot entity
  apply := Db.applyChange
  lands := fun _ _ => true
  kept := by
    rintro db change rfl hloses
    exact db.applyChange_of_loses hloses
  delivered := by
    rintro db change rfl hbeats
    rw [db.slot_applyChange change, slotRegister.deliver_of_wins hbeats]
    rfl
  edits := fun _ vv timestamp =>
    ⟨entity.editWith Uuid.nil vv timestamp,
      (entity.editWith_spec Uuid.nil vv timestamp).1,
      (entity.editWith_spec Uuid.nil vv timestamp).2, rfl⟩

/-- The entities the filesystem store keeps a sidecar of. -/
def Entity.isPlaced : Entity → Bool
  | .note _ => false
  | _ => true

theorem Entity.isPlaced_of_hasSidecar {entity : Entity}
    (hsidecar : entity.hasSidecar = true) : entity.isPlaced = true := by
  cases entity <;> first | rfl | contradiction

namespace FsTree

variable (contentHash : List UInt8 → String) (place : Uuid → Nat)

theorem lands_of_hasSidecar {entity : Entity} (hsidecar : entity.hasSidecar = true)
    (tree : FsTree) (change : Change) (hentity : change.entity = entity) :
    tree.lands place change = true := by
  subst hentity
  cases change <;> first | rfl | contradiction

/-- The resolution of a version that loses does not allow the write. -/
theorem ne_ok_true_of_loses {wins : Except StorageError Bool} {slot : Slot}
    {incoming : Version}
    (hwins : wins = if slot = .unreadable then .error .corruptedData
      else .ok (incoming.beats slot))
    (hloses : incoming.beats slot = false) : wins ≠ .ok true := by
  rw [hwins, hloses]
  split <;> simp

theorem resourceWins_ne_ok_true_of_loses (tree : FsTree) {id : Uuid} {incoming : Version}
    (hloses : incoming.beats (tree.slot (.resource id)) = false) :
    tree.resourceIncomingWins id incoming.vv incoming.timestamp incoming.writer ≠
      .ok true := by
  rw [resourceIncomingWins_eq, hloses]
  split <;> simp

/-- A resource change that loses writes nothing. -/
theorem performAll_reading_of_loses (tree : FsTree) {wins : Except StorageError Bool}
    {next : Bool → Plan Unit} (hloses : wins ≠ .ok true) (hfalse : next false = .done ()) :
    tree.performAll place (Plan.reading wins next).writes = tree := by
  cases wins with
  | error failure => rfl
  | ok value =>
      cases value with
      | false =>
          simp only [Plan.reading, hfalse]
          rfl
      | true => contradiction

theorem afterChange_of_loses (tree : FsTree) {change : Change}
    (hplaced : change.entity.isPlaced = true)
    (hloses : change.version.beats (tree.slot change.entity) = false) :
    tree.afterChange contentHash place change = tree := by
  cases change with
  | noteCreate note => contradiction
  | noteUpdate note => contradiction
  | noteDelete id deletedAt vv lastWriter => contradiction
  | notebookCreate notebook =>
      exact tree.writeIfWins_of_loses
        (ne_ok_true_of_loses (sidecarIncomingWins_eq _ _ notebook.version) hloses) place
  | notebookUpdate notebook =>
      exact tree.writeIfWins_of_loses
        (ne_ok_true_of_loses (sidecarIncomingWins_eq _ _ notebook.version) hloses) place
  | notebookDelete id deletedAt vv lastWriter =>
      exact tree.writeIfWins_of_loses (ne_ok_true_of_loses
        (sidecarIncomingWins_eq _ _ ⟨vv, deletedAt, lastWriter, false⟩) hloses) place
  | tagCreate tag =>
      exact tree.writeIfWins_of_loses
        (ne_ok_true_of_loses (sidecarIncomingWins_eq _ _ tag.version) hloses) place
  | tagUpdate tag =>
      exact tree.writeIfWins_of_loses
        (ne_ok_true_of_loses (sidecarIncomingWins_eq _ _ tag.version) hloses) place
  | tagDelete id deletedAt vv lastWriter =>
      exact tree.writeIfWins_of_loses (ne_ok_true_of_loses
        (sidecarIncomingWins_eq _ _ ⟨vv, deletedAt, lastWriter, false⟩) hloses) place
  | noteTagAdd noteId tagId updatedAt vv lastWriter =>
      exact tree.writeIfWins_of_loses (ne_ok_true_of_loses
        (tree.assocWins_eq noteId tagId ⟨vv, updatedAt, lastWriter, true⟩) hloses) place
  | noteTagRemove noteId tagId updatedAt vv lastWriter =>
      exact tree.writeIfWins_of_loses (ne_ok_true_of_loses
        (tree.assocWins_eq noteId tagId ⟨vv, updatedAt, lastWriter, false⟩) hloses) place
  | resourceCreate resource data =>
      exact performAll_reading_of_loses place tree
        (tree.resourceWins_ne_ok_true_of_loses hloses) rfl
  | resourceDelete id deletedAt vv lastWriter =>
      exact performAll_reading_of_loses place tree
        (tree.resourceWins_ne_ok_true_of_loses hloses) rfl

theorem slot_afterChange_of_beats (tree : FsTree) {change : Change}
    (hplaced : change.entity.isPlaced = true)
    (hbeats : change.version.beats (tree.slot change.entity) = true) :
    (tree.afterChange contentHash place change).slot change.entity =
      if tree.lands place change then .stored change.version
      else tree.slot change.entity := by
  by_cases hsidecar : change.entity.hasSidecar = true
  · rw [tree.slot_afterChange contentHash place change hsidecar,
      slotRegister.deliver_of_wins hbeats,
      if_pos (lands_of_hasSidecar place hsidecar tree change rfl)]
    rfl
  · obtain ⟨id, hid⟩ : ∃ id, change.entity = .resource id := by
      cases hentity : change.entity with
      | resource id => exact ⟨id, rfl⟩
      | note id => simp [hentity, Entity.isPlaced] at hplaced
      | notebook id => simp [hentity, Entity.hasSidecar] at hsidecar
      | tag id => simp [hentity, Entity.hasSidecar] at hsidecar
      | noteTag noteId tagId => simp [hentity, Entity.hasSidecar] at hsidecar
    rw [hid] at hbeats ⊢
    obtain ⟨noteId, stored, hversion, hlands, hslot⟩ :=
      tree.applyChange_resource_cases contentHash place change hid hbeats
    rw [hslot, slot_of_resourceWrite, hversion, hlands]

/-- The folder an edit of a resource is read from, when it is written there. -/
def editFolder (tree : FsTree) : Entity → Uuid
  | .resource id => (tree.locateResourceNote id).getD SYSTEM_RESOURCE_NOTE_ID
  | _ => SYSTEM_RESOURCE_NOTE_ID

theorem lands_editWith (tree : FsTree) (entity : Entity) (vv : VersionVector)
    (timestamp : DateTime) :
    tree.lands place (entity.editWith (tree.editFolder entity) vv timestamp) = true := by
  cases entity with
  | resource id =>
      change tree.listedFirst place
        ((tree.locateResourceNote id).getD SYSTEM_RESOURCE_NOTE_ID) id = true
      cases hlocate : tree.locateResourceNote id with
      | none => exact tree.listedFirst_of_missing place _ id hlocate
      | some noteId => exact tree.listedFirst_of_locate place noteId id hlocate
  | note id => rfl
  | notebook id => rfl
  | tag id => rfl
  | noteTag noteId tagId => rfl

/-- The filesystem store as a store of any entity with a sidecar. -/
def slotStore (entity : Entity) (hplaced : entity.isPlaced = true) :
    SlotStore FsTree entity where
  slot := fun tree => tree.slot entity
  apply := fun tree change => tree.afterChange contentHash place change
  lands := fun tree change => tree.lands place change
  kept := by
    rintro tree change rfl hloses
    exact tree.afterChange_of_loses contentHash place hplaced hloses
  delivered := by
    rintro tree change rfl hbeats
    exact tree.slot_afterChange_of_beats contentHash place hplaced hbeats
  edits := fun tree vv timestamp =>
    ⟨entity.editWith (tree.editFolder entity) vv timestamp,
      (entity.editWith_spec _ vv timestamp).1, (entity.editWith_spec _ vv timestamp).2,
      tree.lands_editWith place entity vv timestamp⟩

end FsTree

def Db.applyAll (db : Db) (changes : List Change) : Db :=
  changes.foldl Db.applyChange db

def FsTree.afterAll (contentHash : List UInt8 → String) (place : Uuid → Nat)
    (tree : FsTree) (changes : List Change) : FsTree :=
  changes.foldl (fun tree change => tree.afterChange contentHash place change) tree

end Keeplin
