/-
Applying a peer's change to the filesystem store, and collecting the notes
whose logs have advanced past their projection.
-/
import Keeplin.FsTree

namespace Keeplin

open VersionVector

namespace FsTree

variable (tree : FsTree)

/-- Write the sidecar when the incoming version wins, else do nothing. -/
def writeIfWins (wins : Except StorageError Bool) (writes : List TreeWrite) : Plan Unit :=
  .reading wins fun
    | true => ⟨writes, .ok ()⟩
    | false => .done ()

def applyNote (note : Note) : Plan Unit :=
  .reading (tree.mergeNote note.id) fun prior =>
    (tree.materialize note.id).bind fun materialized =>
      match materialized, prior.bind Note.deletedAt with
      | some materialized, some oldTs =>
          if materialized.deletedAt = none then tree.cascadeUnstampResources note.id oldTs
          else .done ()
      | _, _ => .done ()

def applyNoteDelete (id : Uuid) (deletedAt : DateTime) : Plan Unit :=
  (tree.materialize id).bind fun _ => tree.cascadeStampResources id deletedAt

def applyNotebook (notebook : Notebook) : Plan Unit :=
  writeIfWins
    (sidecarIncomingWins Notebook.version (tree.notebooks.file? notebook.id)
      notebook.vv notebook.updatedAt notebook.lastWriter)
    [.notebook notebook.id notebook]

/-- The notebook a delete of an unknown one is written as. -/
def notebookPlaceholder (id : Uuid) (deletedAt : DateTime) : Notebook where
  id := id
  title := ""
  createdAt := deletedAt
  updatedAt := deletedAt
  deletedAt := none
  «alias» := none
  vv := ∅
  lastWriter := ""

def applyNotebookDelete (id : Uuid) (deletedAt : DateTime) (vv : VersionVector)
    (lastWriter : String) : Plan Unit :=
  let current :=
    match tree.notebooks.file? id with
    | some (.readable notebook) => notebook
    | _ => notebookPlaceholder id deletedAt
  writeIfWins
    (sidecarIncomingWins Notebook.version (tree.notebooks.file? id) vv deletedAt lastWriter)
    [.notebook id { current with
      deletedAt := some deletedAt, updatedAt := deletedAt, vv, lastWriter }]

def applyTag (tag : Tag) : Plan Unit :=
  writeIfWins
    (sidecarIncomingWins Tag.version (tree.tags.file? tag.id)
      tag.vv tag.updatedAt tag.lastWriter)
    [.tag tag.id tag]

def tagPlaceholder (id : Uuid) (deletedAt : DateTime) : Tag where
  id := id
  title := ""
  createdAt := deletedAt
  updatedAt := deletedAt
  deletedAt := none
  vv := ∅
  lastWriter := ""
  system := false

def applyTagDelete (id : Uuid) (deletedAt : DateTime) (vv : VersionVector)
    (lastWriter : String) : Plan Unit :=
  let current :=
    match tree.tags.file? id with
    | some (.readable tag) => tag
    | _ => tagPlaceholder id deletedAt
  writeIfWins
    (sidecarIncomingWins Tag.version (tree.tags.file? id) vv deletedAt lastWriter)
    [.tag id { current with
      deletedAt := some deletedAt, updatedAt := deletedAt, vv, lastWriter }]

def applyNoteTag (noteId tagId : Uuid) (updatedAt : DateTime)
    (deletedAt : Option DateTime) (vv : VersionVector) (lastWriter : String) : Plan Unit :=
  writeIfWins (.ok (tree.assocIncomingWins noteId tagId vv updatedAt lastWriter))
    [.noteTag noteId tagId ⟨updatedAt, deletedAt, vv, lastWriter⟩]

def applyResource (contentHash : List UInt8 → String) (resource : Resource)
    (data : Option (List UInt8)) : Plan Unit :=
  .reading
    (tree.resourceIncomingWins resource.id resource.vv
      (resource.deletedAt.getD resource.createdAt) resource.lastWriter) fun
    | false => .done ()
    | true =>
        match data with
        | some bytes =>
            ⟨[.blob resource.noteId (contentHash bytes) bytes,
              .resource resource.noteId resource.id ⟨resource, contentHash bytes⟩], .ok ()⟩
        | none =>
            .reading (tree.readResourceSidecar resource.id) fun
              | none => ⟨[.resource resource.noteId resource.id ⟨resource, ""⟩], .ok ()⟩
              | some (_, stored) =>
                  ⟨[.resource resource.noteId resource.id ⟨resource, stored.blobHash⟩],
                    .ok ()⟩

/-- The resource a delete of an unknown one is written as, in a folder of its
own. -/
def resourcePlaceholder (id : Uuid) (deletedAt : DateTime) : StoredResource where
  resource :=
    { id := id
      noteId := SYSTEM_RESOURCE_NOTE_ID
      title := ""
      mimeType := ""
      fileName := ""
      size := 0
      durationMs := none
      dimensions := none
      createdAt := deletedAt
      deletedAt := none
      vv := ∅
      lastWriter := "" }
  blobHash := ""

def tombstoned (stored : StoredResource) (deletedAt : DateTime) (vv : VersionVector)
    (lastWriter : String) : StoredResource :=
  { stored with
    resource := { stored.resource with deletedAt := some deletedAt, vv, lastWriter } }

def applyResourceDelete (id : Uuid) (deletedAt : DateTime) (vv : VersionVector)
    (lastWriter : String) : Plan Unit :=
  .reading (tree.resourceIncomingWins id vv deletedAt lastWriter) fun
    | false => .done ()
    | true =>
        .reading (tree.readResourceSidecar id) fun found =>
          let located := found.getD
            (SYSTEM_RESOURCE_NOTE_ID, resourcePlaceholder id deletedAt)
          ⟨[.resource located.1 id (tombstoned located.2 deletedAt vv lastWriter)], .ok ()⟩

def applyChange (contentHash : List UInt8 → String) : Change → Plan Unit
  | .noteCreate note => tree.applyNote note
  | .noteUpdate note => tree.applyNote note
  | .noteDelete id deletedAt _ _ => tree.applyNoteDelete id deletedAt
  | .notebookCreate notebook => tree.applyNotebook notebook
  | .notebookUpdate notebook => tree.applyNotebook notebook
  | .notebookDelete id deletedAt vv lastWriter =>
      tree.applyNotebookDelete id deletedAt vv lastWriter
  | .tagCreate tag => tree.applyTag tag
  | .tagUpdate tag => tree.applyTag tag
  | .tagDelete id deletedAt vv lastWriter => tree.applyTagDelete id deletedAt vv lastWriter
  | .noteTagAdd noteId tagId updatedAt vv lastWriter =>
      tree.applyNoteTag noteId tagId updatedAt none vv lastWriter
  | .noteTagRemove noteId tagId updatedAt vv lastWriter =>
      tree.applyNoteTag noteId tagId updatedAt (some updatedAt) vv lastWriter
  | .resourceCreate resource data => tree.applyResource contentHash resource data
  | .resourceDelete id deletedAt vv lastWriter =>
      tree.applyResourceDelete id deletedAt vv lastWriter

/-- The tree after a change has been applied as far as the call gets. -/
def afterChange (contentHash : List UInt8 → String) (place : Uuid → Nat)
    (change : Change) : FsTree :=
  tree.performAll place (tree.applyChange contentHash change).writes

/-- One note of the collection: report it when its logs have advanced past the
projection, and move the projection. -/
def collectNote (id : Uuid) : Plan (Option Change) :=
  .reading (tree.noteVv id) fun oldVv =>
    .reading (tree.mergeLogs id) fun merged =>
      if merged.vv = oldVv then .done none
      else
        match merged.note with
        | none => .done none
        | some note =>
            let change :=
              match note.deletedAt with
              | some deletedAt =>
                  .noteDelete id deletedAt merged.winnerVv merged.winnerDevice
              | none => .noteUpdate note
            ⟨projectionWrites note merged.vv, .ok (some change)⟩

/-- The collection over the listed notes.  A failure keeps the projections that
were already moved. -/
def collectNotes (place : Uuid → Nat) (tree : FsTree) :
    List Uuid → FsTree × Except StorageError (List Change)
  | [] => (tree, .ok [])
  | id :: rest =>
      let plan := tree.collectNote id
      let moved := tree.performAll place plan.writes
      match plan.result with
      | .error failure => (moved, .error failure)
      | .ok change =>
          let later := collectNotes place moved rest
          (later.1, later.2.map fun changes => change.toList ++ changes)

def collectAdvancedNotes (place : Uuid → Nat) :
    FsTree × Except StorageError (List Change) :=
  collectNotes place tree tree.allNoteIds

def sidecarSlot {A : Type} (version : A → Version) : Option (Sidecar A) → Slot
  | none => .missing
  | some .unreadable => .unreadable
  | some (.readable value) => .stored (version value)

def assocSlot : Option NoteTagState → Slot
  | none => .missing
  | some state =>
      .stored ⟨state.vv, state.updatedAt, state.lastWriter, state.deletedAt.isNone⟩

/-- What the tree has for an entity with a sidecar.  A note has none: its state
is the merge of its logs. -/
def slot : Entity → Slot
  | .note _ => .missing
  | .notebook id => sidecarSlot Notebook.version (tree.notebooks.file? id)
  | .tag id => sidecarSlot Tag.version (tree.tags.file? id)
  | .noteTag noteId tagId => assocSlot (tree.readAssocState noteId tagId)
  | .resource id =>
      match tree.readResourceSidecar id with
      | .error _ => .unreadable
      | .ok none => .missing
      | .ok (some (_, stored)) => .stored stored.resource.version

end FsTree

/-- The entities whose sidecar has one place in the tree. -/
def Entity.hasSidecar : Entity → Bool
  | .notebook _ => true
  | .tag _ => true
  | .noteTag _ _ => true
  | _ => false

namespace FsTree

variable (tree : FsTree)

theorem sidecarIncomingWins_eq {A : Type} (version : A → Version)
    (file : Option (Sidecar A)) (incoming : Version) :
    sidecarIncomingWins version file incoming.vv incoming.timestamp incoming.writer =
      if sidecarSlot version file = .unreadable then .error .corruptedData
      else .ok (incoming.beats (sidecarSlot version file)) := by
  cases file with
  | none => rfl
  | some value => cases value <;> rfl

theorem assocIncomingWins_eq (noteId tagId : Uuid) (incoming : Version) :
    tree.assocIncomingWins noteId tagId incoming.vv incoming.timestamp incoming.writer =
      incoming.beats (tree.slot (.noteTag noteId tagId)) := by
  simp only [assocIncomingWins, slot, assocSlot]
  cases tree.readAssocState noteId tagId <;> rfl

/-- A guarded write delivers its change to the slot, whether the slot is
missing, stored or cannot be read. -/
theorem slot_writeIfWins (change : Change) {place : Uuid → Nat} {entity : Entity}
    {wins : Except StorageError Bool} {writes : List TreeWrite}
    (hwins : wins = if tree.slot entity = .unreadable then .error .corruptedData
      else .ok (change.version.beats (tree.slot entity)))
    (hwritten : (tree.performAll place writes).slot entity = .stored change.version) :
    (tree.performAll place (writeIfWins wins writes).writes).slot entity =
      slotRegister.deliver (tree.slot entity) change := by
  by_cases hunreadable : tree.slot entity = .unreadable
  · have hloses : slotRegister.wins change (tree.slot entity) = false := by
      rw [hunreadable]
      rfl
    rw [if_pos hunreadable] at hwins
    rw [hwins, slotRegister.deliver_of_loses hloses]
    rfl
  · rw [if_neg hunreadable] at hwins
    by_cases hbeats : change.version.beats (tree.slot entity) = true
    · rw [hwins, hbeats, slotRegister.deliver_of_wins hbeats]
      exact hwritten
    · have hloses : slotRegister.wins change (tree.slot entity) = false :=
        Bool.eq_false_iff.mpr hbeats
      rw [hwins, slotRegister.deliver_of_loses hloses, Bool.eq_false_iff.mpr hbeats]
      rfl

/-- An association file is never unreadable: a corrupt one has the marker. -/
theorem slot_noteTag_ne_unreadable (noteId tagId : Uuid) :
    tree.slot (.noteTag noteId tagId) ≠ .unreadable := by
  simp only [slot, assocSlot]
  cases tree.readAssocState noteId tagId <;> simp

theorem assocWins_eq (noteId tagId : Uuid) (incoming : Version) :
    (.ok (tree.assocIncomingWins noteId tagId incoming.vv incoming.timestamp
      incoming.writer) : Except StorageError Bool) =
      if tree.slot (.noteTag noteId tagId) = .unreadable then .error .corruptedData
      else .ok (incoming.beats (tree.slot (.noteTag noteId tagId))) := by
  rw [if_neg (tree.slot_noteTag_ne_unreadable noteId tagId), assocIncomingWins_eq]

theorem readAssocState_perform_noteTag (place : Uuid → Nat) (noteId tagId : Uuid)
    (state : NoteTagState) :
    (tree.perform place (.noteTag noteId tagId state)).readAssocState noteId tagId =
      some state := by
  simp [readAssocState, perform]

/-- A change that does not win leaves every file alone. -/
theorem writeIfWins_of_loses {wins : Except StorageError Bool} {writes : List TreeWrite}
    (hloses : wins ≠ .ok true) (place : Uuid → Nat) :
    tree.performAll place (writeIfWins wins writes).writes = tree := by
  cases wins with
  | error failure => rfl
  | ok value =>
      cases value with
      | false => rfl
      | true => contradiction

/-- Applying a change delivers it to the sidecar of its entity. -/
theorem slot_afterChange (contentHash : List UInt8 → String) (place : Uuid → Nat)
    (change : Change) (hsidecar : change.entity.hasSidecar = true) :
    (tree.afterChange contentHash place change).slot change.entity =
      slotRegister.deliver (tree.slot change.entity) change := by
  cases change with
  | noteCreate note => contradiction
  | noteUpdate note => contradiction
  | noteDelete id deletedAt vv lastWriter => contradiction
  | notebookCreate notebook =>
      apply tree.slot_writeIfWins (.notebookCreate notebook)
      · exact sidecarIncomingWins_eq Notebook.version _ notebook.version
      · simp [performAll, perform, slot, Change.entity, sidecarSlot, Change.version]
  | notebookUpdate notebook =>
      apply tree.slot_writeIfWins (.notebookUpdate notebook)
      · exact sidecarIncomingWins_eq Notebook.version _ notebook.version
      · simp [performAll, perform, slot, Change.entity, sidecarSlot, Change.version]
  | notebookDelete id deletedAt vv lastWriter =>
      apply tree.slot_writeIfWins (.notebookDelete id deletedAt vv lastWriter)
      · exact sidecarIncomingWins_eq Notebook.version _ ⟨vv, deletedAt, lastWriter, false⟩
      · simp [performAll, perform, slot, Change.entity, sidecarSlot, Change.version,
          Notebook.version]
  | tagCreate tag =>
      apply tree.slot_writeIfWins (.tagCreate tag)
      · exact sidecarIncomingWins_eq Tag.version _ tag.version
      · simp [performAll, perform, slot, Change.entity, sidecarSlot, Change.version]
  | tagUpdate tag =>
      apply tree.slot_writeIfWins (.tagUpdate tag)
      · exact sidecarIncomingWins_eq Tag.version _ tag.version
      · simp [performAll, perform, slot, Change.entity, sidecarSlot, Change.version]
  | tagDelete id deletedAt vv lastWriter =>
      apply tree.slot_writeIfWins (.tagDelete id deletedAt vv lastWriter)
      · exact sidecarIncomingWins_eq Tag.version _ ⟨vv, deletedAt, lastWriter, false⟩
      · simp [performAll, perform, slot, Change.entity, sidecarSlot, Change.version,
          Tag.version]
  | noteTagAdd noteId tagId updatedAt vv lastWriter =>
      apply tree.slot_writeIfWins (.noteTagAdd noteId tagId updatedAt vv lastWriter)
      · exact tree.assocWins_eq noteId tagId ⟨vv, updatedAt, lastWriter, true⟩
      · simp only [performAll, List.foldl_cons, List.foldl_nil, slot, Change.entity,
          readAssocState_perform_noteTag]
        rfl
  | noteTagRemove noteId tagId updatedAt vv lastWriter =>
      apply tree.slot_writeIfWins (.noteTagRemove noteId tagId updatedAt vv lastWriter)
      · exact tree.assocWins_eq noteId tagId ⟨vv, updatedAt, lastWriter, false⟩
      · simp only [performAll, List.foldl_cons, List.foldl_nil, slot, Change.entity,
          readAssocState_perform_noteTag]
        rfl
  | resourceCreate resource data => contradiction
  | resourceDelete id deletedAt vv lastWriter => contradiction

end FsTree

end Keeplin
