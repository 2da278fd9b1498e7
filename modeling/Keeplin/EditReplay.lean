/-
What the edits of a sidecar tell the peers, and what a peer that replays a
journal with them ends with.
-/
import Keeplin.FsNotes
import Keeplin.JournalledWrites

namespace Keeplin

open VersionVector

/-- The edits of a notebook, of a tag, and of the association of a pair. -/
def LocalWrite.isEdit : LocalWrite → Bool
  | .updateNotebook _ | .updateTag _ | .addNoteTag _ | .removeNoteTag _ _ => true
  | _ => false

/-- A deleted version is stored. -/
def Slot.isDeleted : Slot → Bool
  | .stored version => !version.live
  | _ => false

/-- A snapshot of the entity tells all of it.  Of a deleted notebook or tag it
tells the deletion only. -/
def FsTree.ToldWhole (tree : FsTree) : Entity → Prop
  | .notebook id => (sidecarSlot Notebook.version (tree.notebooks.file? id)).isDeleted = false
  | .tag id => (sidecarSlot Tag.version (tree.tags.file? id)).isDeleted = false
  | _ => True

instance (tree : FsTree) (entity : Entity) : Decidable (tree.ToldWhole entity) :=
  match entity with
  | .notebook id => inferInstanceAs
      (Decidable ((FsTree.sidecarSlot Notebook.version
        (tree.notebooks.file? id)).isDeleted = false))
  | .tag id => inferInstanceAs
      (Decidable ((FsTree.sidecarSlot Tag.version (tree.tags.file? id)).isDeleted = false))
  | .note _ | .noteTag _ _ | .resource _ => isTrue trivial

/-- What a peer makes of the entries it reads. -/
def FsTree.replay (contentHash : List UInt8 → String) (place : Uuid → Nat) (peer : FsTree)
    (entries : List LogEntry) : FsTree :=
  (entries.filterMap logEntryToChange).foldl
    (fun peer change => peer.afterChange contentHash place change) peer

/-- A position in this journal, or in one that was compacted away. -/
def LogCursor.Within (cursor : LogCursor) (log : GlobalLog) : Prop :=
  cursor.epoch < log.epoch ∨ (cursor.epoch = log.epoch ∧ cursor.offset ≤ log.entries.length)

namespace FsTree

variable {tree : FsTree} {place : Uuid → Nat} {entity : Entity}

/-- The write is of no sidecar of the entity. -/
def Beside (entity : Entity) (write : TreeWrite) : Prop :=
  ∀ path change, write.sidecar? = some (path, change) → path.entity ≠ entity

theorem sameSeen_perform_of_beside (hsidecar : entity.hasSidecar = true) {write : TreeWrite}
    (hbeside : Beside entity write) : tree.SameSeen (tree.perform place write) entity := by
  cases entity with
  | notebook id =>
      cases write with
      | notebook target value =>
          exact Directory.file?_put_of_ne fun heq => hbeside _ _ rfl (congrArg Entity.notebook heq)
      | noteLog | noteMd | noteMeta | tag | noteTag | resource | blob => rfl
  | tag id =>
      cases write with
      | tag target value =>
          exact Directory.file?_put_of_ne fun heq => hbeside _ _ rfl (congrArg Entity.tag heq)
      | noteLog | noteMd | noteMeta | notebook | noteTag | resource | blob => rfl
  | noteTag noteId tagId =>
      cases write with
      | noteTag target tag state =>
          have hother : ¬(target = noteId ∧ tag = tagId) := by
            rintro ⟨rfl, rfl⟩
            exact hbeside _ _ rfl rfl
          simp only [SameSeen, readAssocState_perform, if_neg hother]
      | noteLog | noteMd | noteMeta | notebook | tag | resource | blob => rfl
  | note id | resource id => contradiction

theorem SameSeen.trans {first second third : FsTree} (hone : first.SameSeen second entity)
    (htwo : second.SameSeen third entity) : first.SameSeen third entity := by
  cases entity with
  | resource id => exact ⟨htwo.1.trans hone.1, htwo.2.trans hone.2⟩
  | note id | notebook id | tag id | noteTag noteId tagId => exact Eq.trans htwo hone

theorem sameSeen_performAll_of_beside (hsidecar : entity.hasSidecar = true)
    {writes : List TreeWrite} (hbeside : ∀ write ∈ writes, Beside entity write) :
    tree.SameSeen (tree.performAll place writes) entity := by
  induction writes generalizing tree with
  | nil => exact SameSeen.refl tree entity
  | cons write rest ih =>
      have hfirst : tree.SameSeen (tree.perform place write) entity :=
        sameSeen_perform_of_beside hsidecar (hbeside write List.mem_cons_self)
      exact hfirst.trans (ih fun later hlater => hbeside later (List.mem_cons_of_mem _ hlater))

theorem beside_cascade (hsidecar : entity.hasSidecar = true) (noteId : Uuid)
    (change : StoredResource → Option StoredResource)
    (files : List (Uuid × Sidecar StoredResource)) :
    (cascadeResources noteId change files).Writes (Beside entity) := by
  intro write hwrite
  obtain ⟨found, stored, rewritten, -, -, rfl⟩ := mem_cascadeResources hwrite
  rintro path told hpath rfl
  obtain ⟨rfl, -⟩ := Prod.mk.inj (Option.some.inj hpath)
  contradiction

theorem beside_materialize (id : Uuid) : (tree.materialize id).Writes (Beside entity) :=
  Plan.writes_reading fun merged _ => by
    cases merged.note with
    | none => exact Plan.writes_done none
    | some note => simp [Plan.Writes, projectionWrites, Beside, TreeWrite.sidecar?]

theorem beside_writeIfWins {wins : Except StorageError Bool} {writes : List TreeWrite}
    (hwrites : ∀ write ∈ writes, Beside entity write) :
    (writeIfWins wins writes).Writes (Beside entity) :=
  Plan.writes_reading fun value _ => by
    cases value with
    | true => exact hwrites
    | false => exact Plan.writes_done ()

theorem beside_applyNote (hsidecar : entity.hasSidecar = true) (note : Note) :
    (tree.applyNote note).Writes (Beside entity) := by
  refine Plan.writes_reading fun prior _ =>
    Plan.writes_bind (beside_materialize note.id) fun materialized _ => ?_
  split
  · split
    · exact beside_cascade hsidecar _ _ _
    · exact Plan.writes_done ()
  · exact Plan.writes_done ()

/-- Applying a change writes no sidecar of another entity that has one place. -/
theorem beside_applyChange (hsidecar : entity.hasSidecar = true)
    (contentHash : List UInt8 → String) {change : Change} (hother : change.entity ≠ entity) :
    (tree.applyChange contentHash change).Writes (Beside entity) := by
  have hresource : ∀ noteId id stored, Beside entity (.resource noteId id stored) := by
    rintro noteId id stored path told hpath rfl
    obtain ⟨rfl, -⟩ := Prod.mk.inj (Option.some.inj hpath)
    contradiction
  have hblob : ∀ noteId hash data, Beside entity (.blob noteId hash data) := by
    rintro noteId hash data path told hpath
    contradiction
  cases change with
  | noteCreate note | noteUpdate note => exact beside_applyNote hsidecar note
  | noteDelete id deletedAt vv lastWriter =>
      exact Plan.writes_bind (beside_materialize id) fun _ _ => beside_cascade hsidecar _ _ _
  | notebookCreate notebook | notebookUpdate notebook =>
      exact beside_writeIfWins (by simpa [Beside, TreeWrite.sidecar?, SidecarPath.entity,
        Change.entity] using hother)
  | notebookDelete id deletedAt vv lastWriter =>
      exact beside_writeIfWins (by simpa [Beside, TreeWrite.sidecar?, SidecarPath.entity,
        Change.entity] using hother)
  | tagCreate tag | tagUpdate tag =>
      exact beside_writeIfWins (by simpa [Beside, TreeWrite.sidecar?, SidecarPath.entity,
        Change.entity] using hother)
  | tagDelete id deletedAt vv lastWriter =>
      exact beside_writeIfWins (by simpa [Beside, TreeWrite.sidecar?, SidecarPath.entity,
        Change.entity] using hother)
  | noteTagAdd noteId tagId updatedAt vv lastWriter =>
      exact beside_writeIfWins (by simpa [Beside, TreeWrite.sidecar?, SidecarPath.entity,
        Change.entity] using hother)
  | noteTagRemove noteId tagId updatedAt vv lastWriter =>
      exact beside_writeIfWins (by simpa [Beside, TreeWrite.sidecar?, SidecarPath.entity,
        Change.entity] using hother)
  | resourceCreate resource data =>
      refine Plan.writes_reading fun value _ => ?_
      cases value with
      | false => exact Plan.writes_done ()
      | true =>
          cases data with
          | some bytes => simp [Plan.Writes, hresource, hblob]
          | none =>
              refine Plan.writes_reading fun found _ => ?_
              cases found <;> simp [Plan.Writes, hresource]
  | resourceDelete id deletedAt vv lastWriter =>
      refine Plan.writes_reading fun value _ => ?_
      cases value with
      | false => exact Plan.writes_done ()
      | true => exact Plan.writes_reading fun found _ => by simp [Plan.Writes, hresource]

/-- A change of another entity is not seen. -/
theorem sameSeen_afterChange_of_ne (hsidecar : entity.hasSidecar = true)
    (contentHash : List UInt8 → String) {change : Change} (hother : change.entity ≠ entity) :
    tree.SameSeen (tree.afterChange contentHash place change) entity :=
  sameSeen_performAll_of_beside hsidecar (beside_applyChange hsidecar contentHash hother)

/-- A change that a tree which it wins over takes up by making this write. -/
structure Restores (contentHash : List UInt8 → String) (entity : Entity) (made : TreeWrite)
    (change : Change) : Prop where
  about : change.entity = entity
  applied : ∀ (peer : FsTree) place, peer.slot entity ≠ .unreadable →
    change.version.beats (peer.slot entity) = true →
      peer.afterChange contentHash place change = peer.perform place made

/-- A write that takes the entity's sidecar over, whatever the tree held. -/
structure Settles (entity : Entity) (made : TreeWrite) (version : Version) : Prop where
  seen : ∀ (first second : FsTree) one other,
    (first.perform one made).SameSeen (second.perform other made) entity
  slot : ∀ (peer : FsTree) place, (peer.perform place made).slot entity = .stored version

/-- What an edit prepares: one write, and a record that restores it.  The snapshot
of the written file tells the same version, and restores it as well where the
entity is told whole. -/
structure Edited (contentHash : List UInt8 → String) (entity : Entity) (tree : FsTree)
    (mutation : Mutation) (made : TreeWrite) (change : Change) : Prop where
  writes : mutation.writes = [made]
  told : ∀ now, logEntryToChange (mutation.record.at now) = some change
  vv : change.version.vv = mutation.record.data.vv
  next : mutation.record.data.vv = (tree.slot entity).vv.increment tree.deviceId
  restores : Restores contentHash entity made change
  settles : Settles entity made change.version
  snapshot : ∃ path told, made.sidecar? = some (path, told) ∧ path.entity = entity ∧
    told.entity = entity ∧ told.version.vv = mutation.record.data.vv ∧
    ∀ (stored : FsTree) place, (stored.perform place made).ToldWhole entity →
      Restores contentHash entity made told

theorem writeIfWins_of_wins {wins : Except StorageError Bool} {writes : List TreeWrite}
    (hwins : wins = .ok true) : (writeIfWins wins writes).writes = writes := by
  rw [hwins]
  rfl

/-- A guarded write of a change that wins over what the peer has. -/
theorem afterChange_of_beats {peer : FsTree} {contentHash : List UInt8 → String}
    {change : Change} {wins : Except StorageError Bool} {made : TreeWrite} {slot : Slot}
    (happly : peer.applyChange contentHash change = writeIfWins wins [made])
    (hwins : wins = if slot = .unreadable then .error .corruptedData
      else .ok (change.version.beats slot))
    (hreadable : slot ≠ .unreadable) (hbeats : change.version.beats slot = true) :
    peer.afterChange contentHash place change = peer.perform place made := by
  rw [if_neg hreadable, hbeats] at hwins
  rw [afterChange, happly, writeIfWins_of_wins hwins]
  rfl

section Restores

variable (contentHash : List UInt8 → String)

theorem restores_notebook (notebook : Notebook) {change : Change}
    (hchange : change = .notebookCreate notebook ∨ change = .notebookUpdate notebook) :
    Restores contentHash (.notebook notebook.id) (.notebook notebook.id notebook) change := by
  rcases hchange with rfl | rfl
  · exact ⟨rfl, fun peer place hreadable hbeats => afterChange_of_beats rfl
      (sidecarIncomingWins_eq Notebook.version _ notebook.version) hreadable hbeats⟩
  · exact ⟨rfl, fun peer place hreadable hbeats => afterChange_of_beats rfl
      (sidecarIncomingWins_eq Notebook.version _ notebook.version) hreadable hbeats⟩

theorem restores_tag (tag : Tag) {change : Change}
    (hchange : change = .tagCreate tag ∨ change = .tagUpdate tag) :
    Restores contentHash (.tag tag.id) (.tag tag.id tag) change := by
  rcases hchange with rfl | rfl
  · exact ⟨rfl, fun peer place hreadable hbeats => afterChange_of_beats rfl
      (sidecarIncomingWins_eq Tag.version _ tag.version) hreadable hbeats⟩
  · exact ⟨rfl, fun peer place hreadable hbeats => afterChange_of_beats rfl
      (sidecarIncomingWins_eq Tag.version _ tag.version) hreadable hbeats⟩

theorem restores_noteTagAdd (noteId tagId : Uuid) (ts : DateTime) (vv : VersionVector)
    (lastWriter : String) :
    Restores contentHash (.noteTag noteId tagId) (.noteTag noteId tagId ⟨ts, none, vv, lastWriter⟩)
      (.noteTagAdd noteId tagId ts vv lastWriter) where
  about := rfl
  applied := fun peer _ hreadable hbeats => afterChange_of_beats rfl
    (peer.assocWins_eq noteId tagId ⟨vv, ts, lastWriter, true⟩) hreadable hbeats

theorem restores_noteTagRemove (noteId tagId : Uuid) (ts : DateTime) (vv : VersionVector)
    (lastWriter : String) :
    Restores contentHash (.noteTag noteId tagId)
      (.noteTag noteId tagId ⟨ts, some ts, vv, lastWriter⟩)
      (.noteTagRemove noteId tagId ts vv lastWriter) where
  about := rfl
  applied := fun peer _ hreadable hbeats => afterChange_of_beats rfl
    (peer.assocWins_eq noteId tagId ⟨vv, ts, lastWriter, false⟩) hreadable hbeats

theorem settles_notebook (notebook : Notebook) :
    Settles (.notebook notebook.id) (.notebook notebook.id notebook) notebook.version where
  seen := fun first second one other => by simp [SameSeen, perform]
  slot := fun peer place => by simp [slot, perform, sidecarSlot]

theorem settles_tag (tag : Tag) :
    Settles (.tag tag.id) (.tag tag.id tag) tag.version where
  seen := fun first second one other => by simp [SameSeen, perform]
  slot := fun peer place => by simp [slot, perform, sidecarSlot]

theorem settles_noteTag (noteId tagId : Uuid) (state : NoteTagState) :
    Settles (.noteTag noteId tagId) (.noteTag noteId tagId state)
      ⟨state.vv, state.updatedAt, state.lastWriter, state.deletedAt.isNone⟩ where
  seen := fun first second one other => by
    simp only [SameSeen, readAssocState_perform_noteTag]
  slot := fun peer place => by
    simp only [slot, readAssocState_perform_noteTag]
    rfl

variable {contentHash} {mutation : Mutation} {ts : DateTime}

theorem updateNotebook_edited {notebook : Notebook}
    (hwrite : tree.updateNotebook notebook = .ok mutation) :
    ∃ made change, Edited contentHash (.notebook notebook.id) tree mutation made change := by
  simp only [updateNotebook] at hwrite
  split at hwrite
  · obtain ⟨vv, hnext, rfl⟩ := exists_of_map_ok hwrite
    let stored : Notebook := { notebook with vv, lastWriter := tree.deviceId }
    refine ⟨.notebook notebook.id stored, .notebookUpdate stored, rfl, fun _ => rfl, rfl,
      nextSidecarVv_ok Notebook.version hnext, restores_notebook contentHash stored (.inr rfl),
      settles_notebook stored, _, _, rfl, rfl, Notebook.entity_told rfl,
      by simp [stored, LogData.vv], ?_⟩
    intro peer place hwhole
    have hlive : stored.deletedAt = none := by
      simpa [ToldWhole, perform, sidecarSlot, Slot.isDeleted, Notebook.version] using hwhole
    exact restores_notebook contentHash stored (.inl (by simp [Notebook.told, hlive]))
  · contradiction

theorem updateTag_edited {tag : Tag} (hwrite : tree.updateTag tag = .ok mutation) :
    ∃ made change, Edited contentHash (.tag tag.id) tree mutation made change := by
  simp only [updateTag] at hwrite
  split at hwrite
  · obtain ⟨vv, hnext, rfl⟩ := exists_of_map_ok hwrite
    let stored : Tag := { tag with vv, lastWriter := tree.deviceId }
    refine ⟨.tag tag.id stored, .tagUpdate stored, rfl, fun _ => rfl, rfl,
      nextSidecarVv_ok Tag.version hnext, restores_tag contentHash stored (.inr rfl),
      settles_tag stored, _, _, rfl, rfl, Tag.entity_told rfl, by simp [stored, LogData.vv], ?_⟩
    intro peer place hwhole
    have hlive : stored.deletedAt = none := by
      simpa [ToldWhole, perform, sidecarSlot, Slot.isDeleted, Tag.version] using hwhole
    exact restores_tag contentHash stored (.inl (by simp [Tag.told, hlive]))
  · contradiction

theorem addNoteTag_edited {noteTag : NoteTag}
    (hwrite : tree.addNoteTag noteTag ts = .ok mutation) :
    ∃ made change, Edited contentHash (.noteTag noteTag.noteId noteTag.tagId) tree mutation
      made change := by
  simp only [addNoteTag] at hwrite
  repeat' split at hwrite
  all_goals first | contradiction | skip
  cases hwrite
  exact ⟨_, _, rfl, fun _ => rfl, rfl, tree.nextAssocVv_slot _ _,
    restores_noteTagAdd contentHash _ _ ts _ _, settles_noteTag _ _ _, _, _, rfl, rfl, rfl, rfl,
    fun _ _ _ => restores_noteTagAdd contentHash _ _ ts _ _⟩

theorem removeNoteTag_edited {noteId tagId : Uuid}
    (hwrite : tree.removeNoteTag noteId tagId ts = .ok mutation) :
    ∃ made change, Edited contentHash (.noteTag noteId tagId) tree mutation made change := by
  cases hwrite
  exact ⟨_, _, rfl, fun _ => rfl, rfl, tree.nextAssocVv_slot _ _,
    restores_noteTagRemove contentHash _ _ ts _ _, settles_noteTag _ _ _, _, _, rfl, rfl, rfl,
    rfl, fun _ _ _ => restores_noteTagRemove contentHash _ _ ts _ _⟩

theorem edit_edited {write : LocalWrite} (hedit : write.isEdit = true)
    (hwrite : tree.localWrite contentHash ts write = some (.ok mutation)) :
    ∃ made change, Edited contentHash write.entity tree mutation made change := by
  cases write with
  | updateNotebook notebook => exact updateNotebook_edited (Option.some.inj hwrite)
  | updateTag tag => exact updateTag_edited (Option.some.inj hwrite)
  | addNoteTag noteTag => exact addNoteTag_edited (Option.some.inj hwrite)
  | removeNoteTag noteId tagId => exact removeNoteTag_edited (Option.some.inj hwrite)
  | createNote | updateNote | deleteNote | createNotebook | deleteNotebook | createTag
  | deleteTag | createResource | deleteResource => contradiction

end Restores

section Replay

variable (contentHash : List UInt8 → String)

theorem replay_cons (peer : FsTree) (entry : LogEntry) (rest : List LogEntry) :
    peer.replay contentHash place (entry :: rest) =
      match logEntryToChange entry with
      | none => peer.replay contentHash place rest
      | some change =>
          (peer.afterChange contentHash place change).replay contentHash place rest := by
  simp only [replay, List.filterMap_cons]
  cases logEntryToChange entry <;> rfl

/-- The entry tells the entity no version beyond this vector. -/
def TellsUpTo (entity : Entity) (held : VersionVector) (entry : LogEntry) : Prop :=
  ∀ change, logEntryToChange entry = some change → change.entity = entity →
    dominates held change.version.vv = true

/-- The entry tells the version with this vector that the write stored. -/
def Retells (entity : Entity) (made : TreeWrite) (vv : VersionVector) (entry : LogEntry) : Prop :=
  ∃ change, logEntryToChange entry = some change ∧ Restores contentHash entity made change ∧
    change.version.vv = vv

variable {contentHash}

/-- A peer that has a version sees nothing of entries that tell no later one. -/
theorem sameSeen_replay_of_stored (hsidecar : entity.hasSidecar = true) {peer : FsTree}
    {version : Version} (hslot : peer.slot entity = .stored version) {entries : List LogEntry}
    (hentries : ∀ entry ∈ entries, TellsUpTo entity version.vv entry) :
    peer.SameSeen (peer.replay contentHash place entries) entity := by
  induction entries generalizing peer with
  | nil => exact SameSeen.refl peer entity
  | cons entry rest ih =>
      have hrest : ∀ later ∈ rest, TellsUpTo entity version.vv later :=
        fun later hlater => hentries later (List.mem_cons_of_mem _ hlater)
      rw [replay_cons]
      cases htold : logEntryToChange entry with
      | none => exact ih hslot hrest
      | some change =>
          have hstep : peer.SameSeen (peer.afterChange contentHash place change) entity := by
            by_cases hentity : change.entity = entity
            · have hdom := hentries entry List.mem_cons_self change htold hentity
              have hloses : change.version.beats (peer.slot change.entity) = false := by
                rw [hentity, hslot]
                exact Version.not_beats_of_dominated hdom
              have hplaced : change.entity.isPlaced = true :=
                Entity.isPlaced_of_hasSidecar (hentity ▸ hsidecar)
              rw [afterChange_of_loses contentHash place peer hplaced hloses]
              exact SameSeen.refl peer entity
            · exact sameSeen_afterChange_of_ne hsidecar contentHash hentity
          exact hstep.trans (ih (hstep.slot_eq.trans hslot) hrest)

/-- A version that counts one more operation than all the peer has wins. -/
theorem beats_of_increment {slot : Slot} {held : VersionVector} {device : String}
    {version : Version} (hreadable : slot ≠ .unreadable) (hheld : dominates held slot.vv = true)
    (hvv : version.vv = held.increment device) : version.beats slot = true := by
  cases slot with
  | missing => rfl
  | unreadable => contradiction
  | stored current =>
      rw [Version.beats_stored_iff]
      apply resolve_of_dominates
      · rw [hvv]
        exact increment_dominates_of_dominates hheld device
      · cases hback : dominates current.vv version.vv with
        | false => rfl
        | true =>
            have hself := dominates_trans hheld (hvv ▸ hback)
            rw [not_dominates_increment held device] at hself
            contradiction

/-- A peer that is told the latest version, among others of earlier ones, ends
with what its write stored. -/
theorem sameSeen_replay_of_retold (hsidecar : entity.hasSidecar = true) {peer : FsTree}
    {held : VersionVector} {device : String} {made : TreeWrite} {version : Version}
    (hsettles : Settles entity made version) (hvv : version.vv = held.increment device)
    (hreadable : peer.slot entity ≠ .unreadable)
    (hheld : dominates held (peer.slot entity).vv = true) {entries : List LogEntry}
    (hentries : ∀ entry ∈ entries, TellsUpTo entity held entry ∨
      Retells contentHash entity made version.vv entry)
    (htold : ∃ entry ∈ entries, Retells contentHash entity made version.vv entry)
    (first : FsTree) (one : Uuid → Nat) :
    (first.perform one made).SameSeen (peer.replay contentHash place entries) entity := by
  induction entries generalizing peer with
  | nil =>
      obtain ⟨entry, hentry, -⟩ := htold
      exact absurd hentry List.not_mem_nil
  | cons entry rest ih =>
      have hrest : ∀ later ∈ rest, TellsUpTo entity held later ∨
          Retells contentHash entity made version.vv later :=
        fun later hlater => hentries later (List.mem_cons_of_mem _ hlater)
      rw [replay_cons]
      by_cases hretold : Retells contentHash entity made version.vv entry
      · obtain ⟨change, hchange, hrestores, hsame⟩ := hretold
        rw [hchange]
        have hbeats : change.version.beats (peer.slot entity) = true :=
          beats_of_increment hreadable hheld (hsame.trans hvv)
        have happlied := hrestores.applied peer place hreadable hbeats
        have hslot := hsettles.slot peer place
        simp only [happlied]
        refine (hsettles.seen first peer one place).trans
          (sameSeen_replay_of_stored hsidecar hslot fun later hlater other hother hentity => ?_)
        rcases hrest later hlater with holder | ⟨again, hagain, -, hequal⟩
        · rw [hvv]
          exact increment_dominates_of_dominates (holder other hother hentity) device
        · rw [hagain, Option.some.injEq] at hother
          rw [← hother, hequal]
          exact dominates_refl version.vv
      · have holder : TellsUpTo entity held entry :=
          (hentries entry List.mem_cons_self).resolve_right hretold
        have hlater : ∃ later ∈ rest, Retells contentHash entity made version.vv later := by
          obtain ⟨later, hlater, hretells⟩ := htold
          rcases List.mem_cons.mp hlater with rfl | hmem
          · contradiction
          · exact ⟨later, hmem, hretells⟩
        cases hchange : logEntryToChange entry with
        | none => exact ih hreadable hheld hrest hlater
        | some change =>
            by_cases hentity : change.entity = entity
            · have hdeliver := peer.slot_afterChange contentHash place change
                (hentity ▸ hsidecar)
              rw [hentity] at hdeliver
              by_cases hbeats : slotRegister.wins change (peer.slot entity) = true
              · rw [slotRegister.deliver_of_wins hbeats] at hdeliver
                apply ih _ _ hrest hlater
                · rw [hdeliver]
                  exact Slot.noConfusion
                · rw [hdeliver]
                  exact holder change hchange hentity
              · rw [slotRegister.deliver_of_loses (Bool.eq_false_iff.mpr hbeats)] at hdeliver
                exact ih (hdeliver ▸ hreadable) (hdeliver ▸ hheld) hrest hlater
            · have hsame : peer.SameSeen (peer.afterChange contentHash place change) entity :=
                sameSeen_afterChange_of_ne hsidecar contentHash hentity
              exact ih (hsame.slot_eq ▸ hreadable) (hsame.slot_eq ▸ hheld) hrest hlater

end Replay

/-- The sidecar of an entity with one place holds what its slot has. -/
theorem vv_slot_of_changeAt {path : SidecarPath} {change : Change}
    (hsidecar : path.entity.hasSidecar = true) (hchange : tree.changeAt path = some change) :
    (tree.slot path.entity).vv = change.version.vv := by
  cases path with
  | notebook id =>
      simp only [changeAt] at hchange
      split at hchange
      · next value hfile =>
          cases hchange
          simp [slot, SidecarPath.entity, hfile, sidecarSlot, Slot.vv, Notebook.version]
      · contradiction
  | tag id =>
      simp only [changeAt] at hchange
      split at hchange
      · next value hfile =>
          cases hchange
          simp [slot, SidecarPath.entity, hfile, sidecarSlot, Slot.vv, Tag.version]
      · contradiction
  | noteTag noteId tagId =>
      obtain ⟨state, hstate, rfl⟩ := Option.map_eq_some_iff.mp hchange
      simp [slot, SidecarPath.entity, hstate, assocSlot, Slot.vv]
  | resource noteId id => contradiction

theorem path_eq_of_hasSidecar {one other : SidecarPath} (hsidecar : one.entity.hasSidecar = true)
    (hentity : other.entity = one.entity) : other = one := by
  cases one <;> cases other <;> simp_all [SidecarPath.entity, Entity.hasSidecar]

/-- What a compaction leaves: the journal as it was, or the snapshot in a new
epoch. -/
theorem compactGlobalLogLocked_cases (tree : FsTree) (ts : DateTime) (log : GlobalLog) :
    tree.compactGlobalLogLocked ts log = log ∨
      tree.compactGlobalLogLocked ts log = ⟨log.epoch + 1, (tree.buildGlobalSnapshot ts).1⟩ := by
  simp only [compactGlobalLogLocked]
  split
  · exact .inl rfl
  · exact .inr rfl

theorem mem_buildGlobalSnapshot {ts : DateTime} {entry : LogEntry} :
    entry ∈ (tree.buildGlobalSnapshot ts).1 ↔
      ∃ path, tree.snapshotFile ts path = some (some entry) := by
  simp only [buildGlobalSnapshot, List.mem_filterMap, id]
  constructor
  · rintro ⟨file, ⟨path, -, hfile⟩, rfl⟩
    exact ⟨path, hfile⟩
  · rintro ⟨path, hfile⟩
    exact ⟨_, ⟨path, snapshotFile_isSome_mem (by rw [hfile]; rfl), hfile⟩, rfl⟩

/-- A snapshot of named files tells of an entity with one place what its file
tells. -/
theorem changeAt_of_mem_snapshot (hnamed : tree.Named) {path : SidecarPath}
    (hsidecar : path.entity.hasSidecar = true) {ts : DateTime} {entry : LogEntry}
    (hentry : entry ∈ (tree.buildGlobalSnapshot ts).1) {change : Change}
    (hchange : logEntryToChange entry = some change) (hentity : change.entity = path.entity) :
    tree.changeAt path = some change := by
  obtain ⟨other, hfile⟩ := mem_buildGlobalSnapshot.mp hentry
  have hother := (changeAt_of_snapshotFile ts hfile).trans hchange
  have hpath : other = path :=
    path_eq_of_hasSidecar hsidecar ((hnamed other change hother).symm.trans hentity)
  exact hpath ▸ hother

end FsTree

theorem LogCursor.readFrom_append {cursor : LogCursor} {log : GlobalLog}
    (hwithin : cursor.Within log) (entries : List LogEntry) :
    GlobalLog.readFrom ⟨log.epoch, log.entries ++ entries⟩ cursor =
      log.readFrom cursor ++ entries := by
  simp only [GlobalLog.readFrom]
  rcases hwithin with hlater | ⟨hsame, hoffset⟩
  · rw [if_pos (by omega), if_pos (by omega)]
  · rw [if_neg (by simp [hsame]), if_neg (by simp [hsame]), List.drop_append_of_le_length hoffset]

theorem LogCursor.readFrom_next {cursor : LogCursor} {log : GlobalLog}
    (hwithin : cursor.Within log) (entries : List LogEntry) :
    GlobalLog.readFrom ⟨log.epoch + 1, entries⟩ cursor = entries := by
  rw [GlobalLog.readFrom, if_pos]
  rcases hwithin with hlater | ⟨hsame, -⟩
  · exact (Nat.lt_succ_of_lt hlater).ne'
  · simp [hsame]

theorem GlobalLog.readFrom_subset (log : GlobalLog) (cursor : LogCursor) {entry : LogEntry}
    (hentry : entry ∈ log.readFrom cursor) : entry ∈ log.entries := by
  simp only [GlobalLog.readFrom] at hentry
  split at hentry
  · exact hentry
  · exact List.mem_of_mem_drop hentry

/-- A stored record is read by a peer as one version of the entity. -/
def LogRecord.Known (held : VersionVector) (record : LogRecord) : Prop :=
  dominates held record.data.vv = true ∧ ∀ now change,
    logEntryToChange (record.at now) = some change → change.version.vv = record.data.vv

namespace FsTree

variable {entity : Entity} {contentHash : List UInt8 → String}

theorem TellsUpTo.mono {held later : VersionVector} {entry : LogEntry}
    (htells : TellsUpTo entity held entry) (hlater : dominates later held = true) :
    TellsUpTo entity later entry :=
  fun change hchange hentity => dominates_trans hlater (htells change hchange hentity)

end FsTree

section Known

open FsTree

variable {entity : Entity} {contentHash : List UInt8 → String}

theorem LogRecord.Known.mono {held later : VersionVector} {record : LogRecord}
    (hknown : LogRecord.Known held record) (hlater : dominates later held = true) :
    LogRecord.Known later record :=
  ⟨dominates_trans hlater hknown.1, hknown.2⟩

theorem LogRecord.Known.tellsUpTo {held : VersionVector} {record : LogRecord}
    (hknown : LogRecord.Known held record) (now : DateTime) :
    TellsUpTo entity held (record.at now) := by
  intro change hchange _
  rw [hknown.2 now change hchange]
  exact hknown.1

theorem FsTree.Edited.known {tree : FsTree} {mutation : Mutation} {made : TreeWrite}
    {change : Change}
    (hedited : Edited contentHash entity tree mutation made change) :
    LogRecord.Known change.version.vv mutation.record := by
  refine ⟨hedited.vv ▸ dominates_refl _, fun now other hother => ?_⟩
  rw [hedited.told now, Option.some.injEq] at hother
  rw [← hother, hedited.vv]

/-- The write of an edit: the slot counts one more operation, and the files stay
named. -/
theorem FsTree.Edited.perform {tree : FsTree} {mutation : Mutation} {made : TreeWrite}
    {change : Change}
    (hedited : Edited contentHash entity tree mutation made change) (place : Uuid → Nat)
    (hnamed : tree.Named) :
    (tree.performAll place mutation.writes) = tree.perform place made ∧
      (tree.perform place made).Named ∧
      ((tree.perform place made).slot entity).vv = change.version.vv ∧
      dominates change.version.vv (tree.slot entity).vv = true := by
  refine ⟨by rw [hedited.writes]; rfl, ?_, ?_, ?_⟩
  · obtain ⟨path, told, hsidecar, hpath, htold, -⟩ := hedited.snapshot
    refine Named.perform place hnamed fun other change hother => ?_
    rw [hsidecar] at hother
    obtain ⟨rfl, rfl⟩ := Prod.mk.inj (Option.some.inj hother)
    rw [htold, hpath]
  · rw [hedited.settles.slot tree place]
    rfl
  · rw [hedited.vv, hedited.next]
    exact increment_dominates _ _

end Known

end Keeplin
