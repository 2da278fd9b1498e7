/-
A mutator between reading the store and the last of its writes.  The version it
stores counts everything the files of its entity count, and no other mutator
touches these.
-/
import Keeplin.Snapshot

namespace Keeplin

open VersionVector

namespace FsTree

/-- Each resource is filed in the folder of one note only. -/
def SingleFiled (tree : FsTree) : Prop :=
  ∀ id noteId other, (tree.resourceFile noteId id).isSome = true →
    (tree.resourceFile other id).isSome = true → noteId = other

/-- The file holds a version of the entity that counts what `vv` counts. -/
def CoversAt (tree : FsTree) (path : SidecarPath) (entity : Entity) (vv : VersionVector) :
    Prop :=
  path.entity = entity ∧ ∃ held, tree.vvAt path = some held ∧ dominates held vv = true

def Covers (tree : FsTree) (entity : Entity) (vv : VersionVector) : Prop :=
  ∃ path, tree.CoversAt path entity vv

/-- A mutator under way: the version it is about counts everything the entity's
files count, and its writes store that version. -/
structure Running (tree : FsTree) (entity : Entity) (call : Mutation) : Prop where
  told : ∀ now, (call.record.at now).Tells entity call.record.data.vv
  ahead : ∀ path held, path.entity = entity → tree.vvAt path = some held →
    dominates call.record.data.vv held = true
  level : dominates ((tree.slot entity).vv.increment tree.deviceId) call.record.data.vv = true
  writes : ∀ write ∈ call.writes, ∀ path change, write.sidecar? = some (path, change) →
    path.entity = entity ∧ change.entity = entity ∧
      change.version.vv = call.record.data.vv
  stores : (∃ write ∈ call.writes, write.sidecar? ≠ none) ∨
    tree.Covers entity call.record.data.vv

/-- A mutator as it is planned: its record tells the next version of the entity, and
its writes store that version. -/
structure Prepared (tree : FsTree) (entity : Entity) (call : Mutation) : Prop where
  told : ∀ now, (call.record.at now).Tells entity call.record.data.vv
  next : call.record.data.vv = (tree.slot entity).vv.increment tree.deviceId
  writes : ∀ write ∈ call.writes, ∀ path change, write.sidecar? = some (path, change) →
    path.entity = entity ∧ change.entity = entity ∧
      change.version.vv = call.record.data.vv
  stores : ∃ write ∈ call.writes, write.sidecar? ≠ none

/-- The next version of an entity counts what any of its files counts. -/
def Leveled (tree : FsTree) : Prop :=
  ∀ path held, tree.vvAt path = some held →
    dominates ((tree.slot path.entity).vv.increment tree.deviceId) held = true

variable {tree : FsTree}

section Start

/-- The version a file of a resource holds is the one that is found, when no
other folder has a file for it. -/
theorem slot_of_singleFiled (hsingle : tree.SingleFiled) {noteId id : Uuid}
    {stored : StoredResource}
    (hfile : tree.resourceFile noteId id = some (.readable stored)) :
    tree.slot (.resource id) = .stored stored.resource.version := by
  have hsome : (tree.resourceFile noteId id).isSome = true := by rw [hfile]; rfl
  cases hlocate : tree.locateResourceNote id with
  | none =>
      have hlisted : noteId ∈ tree.allNoteIds := by
        rw [mem_allNoteIds_iff, Directory.holds_eq_isSome]
        cases hfolder : tree.notes.file? noteId with
        | none =>
            simp only [resourceFile, noteFolder, hfolder] at hsome
            contradiction
        | some folder => rfl
      exact absurd hsome (List.find?_eq_none.mp hlocate noteId hlisted)
  | some located =>
      have hfound := List.find?_some hlocate
      obtain rfl := hsingle id located noteId hfound hsome
      simp only [slot, readResourceSidecar, hlocate, hfile]

theorem SingleFiled.leveled (hsingle : tree.SingleFiled) : tree.Leveled := by
  intro path held hheld
  obtain ⟨change, hchange, rfl⟩ := Option.map_eq_some_iff.mp hheld
  cases path with
  | notebook id =>
      simp only [changeAt] at hchange
      split at hchange
      · next value hread =>
          rw [← Option.some.inj hchange, value.vv_told]
          simp only [SidecarPath.entity, slot, hread]
          exact increment_dominates value.vv tree.deviceId
      · contradiction
  | tag id =>
      simp only [changeAt] at hchange
      split at hchange
      · next value hread =>
          rw [← Option.some.inj hchange, value.vv_told]
          simp only [SidecarPath.entity, slot, hread]
          exact increment_dominates value.vv tree.deviceId
      · contradiction
  | noteTag noteId tagId =>
      obtain ⟨state, hread, rfl⟩ := Option.map_eq_some_iff.mp hchange
      rw [state.vv_told]
      simp only [SidecarPath.entity, slot, hread]
      exact increment_dominates state.vv tree.deviceId
  | resource noteId id =>
      simp only [changeAt] at hchange
      split at hchange
      · next stored hread =>
          rw [← Option.some.inj hchange, stored.resource.vv_told]
          simp only [SidecarPath.entity, slot_of_singleFiled hsingle hread]
          exact increment_dominates stored.resource.vv tree.deviceId
      · contradiction

end Start

section Call

variable {entity : Entity} {mutation : Mutation}

/-- The next version of an entity is stored in one sidecar after files that are
none. -/
theorem Prepared.of_last {write : TreeWrite} {path : SidecarPath} {change : Change}
    {others : List TreeWrite} {record : LogRecord}
    (hnext : record.data.vv = (tree.slot entity).vv.increment tree.deviceId)
    (hwrite : write.sidecar? = some (path, change)) (hpath : path.entity = entity)
    (hentity : change.entity = entity) (hvv : change.version.vv = record.data.vv)
    (hothers : ∀ other ∈ others, other.sidecar? = none)
    (htold : ∀ now, (record.at now).Tells entity record.data.vv) :
    tree.Prepared entity ⟨others ++ [write], record⟩ where
  told := htold
  next := hnext
  writes := by
    intro other hother target written hsidecar
    rcases List.mem_append.mp hother with hmem | hmem
    · rw [hothers other hmem] at hsidecar
      contradiction
    · rw [List.mem_singleton.mp hmem, hwrite] at hsidecar
      obtain ⟨rfl, rfl⟩ := Prod.mk.inj (Option.some.inj hsidecar)
      exact ⟨hpath, hentity, hvv⟩
  stores := ⟨write, by simp, by rw [hwrite]; simp⟩

theorem Prepared.of_single {write : TreeWrite} {path : SidecarPath} {change : Change}
    {record : LogRecord}
    (hnext : record.data.vv = (tree.slot entity).vv.increment tree.deviceId)
    (hwrite : write.sidecar? = some (path, change)) (hpath : path.entity = entity)
    (hentity : change.entity = entity) (hvv : change.version.vv = record.data.vv)
    (htold : ∀ now, (record.at now).Tells entity record.data.vv) :
    tree.Prepared entity ⟨[write], record⟩ :=
  .of_last hnext hwrite hpath hentity hvv (List.forall_mem_nil _) htold

/-- A planned mutator is ahead of all files of its entity. -/
theorem Prepared.running (hprepared : tree.Prepared entity mutation) (hleveled : tree.Leveled) :
    tree.Running entity mutation where
  told := hprepared.told
  ahead := by
    intro other held hother hheld
    have hlevel := hleveled other held hheld
    rw [hother, ← hprepared.next] at hlevel
    exact hlevel
  level := by
    rw [← hprepared.next]
    exact dominates_refl _
  writes := hprepared.writes
  stores := Or.inl hprepared.stores

theorem nextResourceVv_ok {id : Uuid} {vv : VersionVector}
    (hnext : tree.nextResourceVv id = .ok vv) :
    vv = (tree.slot (.resource id)).vv.increment tree.deviceId := by
  obtain ⟨found, hread, rfl⟩ := exists_of_map_ok hnext
  simp only [slot, hread]
  cases found <;> rfl

theorem createNotebook_prepared {notebook : Notebook}
    (hwrite : tree.createNotebook notebook = .ok mutation) :
    tree.Prepared (.notebook notebook.id) mutation := by
  obtain ⟨vv, hnext, rfl⟩ := exists_of_map_ok hwrite
  exact .of_single (nextSidecarVv_ok Notebook.version hnext) rfl rfl
    (Notebook.entity_told rfl) (Notebook.vv_told _ _) fun _ => ⟨_, rfl, rfl, rfl⟩

theorem updateNotebook_prepared {notebook : Notebook}
    (hwrite : tree.updateNotebook notebook = .ok mutation) :
    tree.Prepared (.notebook notebook.id) mutation := by
  simp only [updateNotebook] at hwrite
  split at hwrite
  · obtain ⟨vv, hnext, rfl⟩ := exists_of_map_ok hwrite
    exact .of_single (nextSidecarVv_ok Notebook.version hnext) rfl rfl
      (Notebook.entity_told rfl) (Notebook.vv_told _ _) fun _ => ⟨_, rfl, rfl, rfl⟩
  · contradiction

theorem deleteNotebook_prepared {id : Uuid} {ts : DateTime}
    (hwrite : tree.deleteNotebook id ts = .ok mutation) :
    tree.Prepared (.notebook id) mutation := by
  simp only [deleteNotebook] at hwrite
  split at hwrite
  · contradiction
  · contradiction
  · next notebook hfile =>
      cases hwrite
      have hnext : notebook.vv.increment tree.deviceId =
          (tree.slot (.notebook id)).vv.increment tree.deviceId := by
        simp only [slot, hfile]
        rfl
      exact .of_single hnext rfl rfl rfl rfl fun _ => ⟨_, rfl, rfl, rfl⟩

theorem createTag_prepared {tag : Tag} (hwrite : tree.createTag tag = .ok mutation) :
    tree.Prepared (.tag tag.id) mutation := by
  obtain ⟨vv, hnext, rfl⟩ := exists_of_map_ok hwrite
  exact .of_single (nextSidecarVv_ok Tag.version hnext) rfl rfl
    (Tag.entity_told rfl) (Tag.vv_told _ _) fun _ => ⟨_, rfl, rfl, rfl⟩

theorem updateTag_prepared {tag : Tag} (hwrite : tree.updateTag tag = .ok mutation) :
    tree.Prepared (.tag tag.id) mutation := by
  simp only [updateTag] at hwrite
  split at hwrite
  · obtain ⟨vv, hnext, rfl⟩ := exists_of_map_ok hwrite
    exact .of_single (nextSidecarVv_ok Tag.version hnext) rfl rfl
      (Tag.entity_told rfl) (Tag.vv_told _ _) fun _ => ⟨_, rfl, rfl, rfl⟩
  · contradiction

theorem deleteTag_prepared {id : Uuid} {ts : DateTime}
    (hwrite : tree.deleteTag id ts = .ok mutation) : tree.Prepared (.tag id) mutation := by
  simp only [deleteTag] at hwrite
  split at hwrite
  · contradiction
  · contradiction
  · next tag hfile =>
      cases hwrite
      have hnext : tag.vv.increment tree.deviceId =
          (tree.slot (.tag id)).vv.increment tree.deviceId := by
        simp only [slot, hfile]
        rfl
      exact .of_single hnext rfl rfl rfl rfl fun _ => ⟨_, rfl, rfl, rfl⟩

/-- Attaching and detaching record the state they store. -/
theorem assocMutation_prepared {noteId tagId : Uuid} {ts : DateTime}
    {deletedAt : Option DateTime} {operation : Operation}
    (hoperation : operation = .add ∨ operation = .remove) :
    tree.Prepared (.noteTag noteId tagId)
      (tree.assocMutation noteId tagId ts deletedAt operation) := by
  refine .of_single (tree.nextAssocVv_slot noteId tagId) rfl rfl
    (NoteTagState.entity_told _ _ _) (NoteTagState.vv_told _ _ _) fun now => ?_
  rcases hoperation with rfl | rfl
  · exact ⟨_, rfl, rfl, rfl⟩
  · exact ⟨_, rfl, rfl, rfl⟩

theorem addNoteTag_prepared {noteTag : NoteTag} {ts : DateTime}
    (hwrite : tree.addNoteTag noteTag ts = .ok mutation) :
    tree.Prepared (.noteTag noteTag.noteId noteTag.tagId) mutation := by
  simp only [addNoteTag] at hwrite
  split at hwrite
  · contradiction
  · contradiction
  · split at hwrite
    · contradiction
    · split at hwrite
      · contradiction
      · contradiction
      · split at hwrite
        · contradiction
        · cases hwrite
          exact assocMutation_prepared (Or.inl rfl)

theorem removeNoteTag_prepared {noteId tagId : Uuid} {ts : DateTime}
    (hwrite : tree.removeNoteTag noteId tagId ts = .ok mutation) :
    tree.Prepared (.noteTag noteId tagId) mutation := by
  cases hwrite
  exact assocMutation_prepared (Or.inr rfl)

theorem createResource_prepared {contentHash : List UInt8 → String} {resource : Resource}
    {data : List UInt8} (hwrite : tree.createResource contentHash resource data = .ok mutation) :
    tree.Prepared (.resource resource.id) mutation := by
  obtain ⟨vv, hnext, rfl⟩ := exists_of_map_ok hwrite
  let blob := TreeWrite.blob resource.noteId (contentHash data) data
  have hblob : ∀ other ∈ [blob], other.sidecar? = none := by
    intro other hother
    rw [List.mem_singleton.mp hother]
    rfl
  change tree.Prepared (.resource resource.id)
    ⟨[blob] ++ [.resource resource.noteId resource.id
      ⟨{ resource with vv, lastWriter := tree.deviceId }, contentHash data⟩], _⟩
  exact .of_last (nextResourceVv_ok hnext) rfl rfl (Resource.entity_told rfl)
    (Resource.vv_told _ _) hblob fun _ => ⟨_, rfl, rfl, rfl⟩

theorem deleteResource_prepared {id : Uuid} {ts : DateTime}
    (hwrite : tree.deleteResource id ts = .ok mutation) :
    tree.Prepared (.resource id) mutation := by
  simp only [deleteResource] at hwrite
  split at hwrite
  · contradiction
  · contradiction
  · next noteId stored hread =>
      cases hwrite
      have hnext : stored.resource.vv.increment tree.deviceId =
          (tree.slot (.resource id)).vv.increment tree.deviceId := by
        simp only [slot, hread]
        rfl
      exact .of_single hnext rfl rfl rfl rfl fun _ => ⟨_, rfl, rfl, rfl⟩

/-- Every mutator is planned as one. -/
theorem localWrite_prepared {contentHash : List UInt8 → String}
    {ts : DateTime} {write : LocalWrite}
    (hwrite : tree.localWrite contentHash ts write = some (.ok mutation)) :
    tree.Prepared write.entity mutation := by
  cases write with
  | createNotebook notebook => exact createNotebook_prepared (Option.some.inj hwrite)
  | updateNotebook notebook => exact updateNotebook_prepared (Option.some.inj hwrite)
  | deleteNotebook id => exact deleteNotebook_prepared (Option.some.inj hwrite)
  | createTag tag => exact createTag_prepared (Option.some.inj hwrite)
  | updateTag tag => exact updateTag_prepared (Option.some.inj hwrite)
  | deleteTag id => exact deleteTag_prepared (Option.some.inj hwrite)
  | addNoteTag noteTag => exact addNoteTag_prepared (Option.some.inj hwrite)
  | removeNoteTag noteId tagId => exact removeNoteTag_prepared (Option.some.inj hwrite)
  | createResource resource data =>
      exact createResource_prepared (Option.some.inj hwrite)
  | deleteResource id => exact deleteResource_prepared (Option.some.inj hwrite)
  | createNote note => contradiction
  | updateNote note => contradiction
  | deleteNote id => contradiction

theorem localWrite_running (hleveled : tree.Leveled) {contentHash : List UInt8 → String}
    {ts : DateTime} {write : LocalWrite}
    (hwrite : tree.localWrite contentHash ts write = some (.ok mutation)) :
    tree.Running write.entity mutation :=
  (localWrite_prepared hwrite).running hleveled

end Call

section Write

variable {entity : Entity} {call : Mutation} (place : Uuid → Nat)

/-- A mutator does not notice writes that leave the sidecars of its entity. -/
theorem Running.frame {after : FsTree} (hrunning : tree.Running entity call)
    (hdevice : after.deviceId = tree.deviceId)
    (hslot : after.slot entity = tree.slot entity)
    (hvv : ∀ path, path.entity = entity → after.vvAt path = tree.vvAt path) :
    after.Running entity call where
  told := hrunning.told
  ahead := fun path held hentity hheld =>
    hrunning.ahead path held hentity ((hvv path hentity).symm.trans hheld)
  level := by
    rw [hslot, hdevice]
    exact hrunning.level
  writes := hrunning.writes
  stores := hrunning.stores.imp_right fun ⟨path, hentity, held, hheld, hdom⟩ =>
    ⟨path, hentity, held, (hvv path hentity).trans hheld, hdom⟩

/-- A write that is no sidecar's leaves what the store knows of the entities. -/
theorem Leveled.perform_none (hleveled : tree.Leveled) {write : TreeWrite}
    (hnone : write.sidecar? = none) : (tree.perform place write).Leveled := by
  intro path held hheld
  have hslot : (tree.perform place write).slot path.entity = tree.slot path.entity :=
    tree.slot_perform_of_ne place fun other vv hsome => by
      rw [hnone] at hsome
      contradiction
  rw [vvAt_perform_none tree place hnone] at hheld
  rw [hslot, deviceId_perform]
  exact hleveled path held hheld

variable {next : TreeWrite} {rest : List TreeWrite} {record : LogRecord}
  (hrunning : tree.Running entity ⟨next :: rest, record⟩)
include hrunning

/-- The next write of a mutator leaves the other entities. -/
theorem Running.slot_of_ne {other : Entity} (hother : other ≠ entity) :
    (tree.perform place next).slot other = tree.slot other := by
  apply slot_perform_of_ne
  intro path vv hsidecar heq
  exact hother (heq.symm.trans
    (hrunning.writes next List.mem_cons_self path vv hsidecar).1)

theorem Running.vvAt_of_ne {path : SidecarPath} (hother : path.entity ≠ entity) :
    (tree.perform place next).vvAt path = tree.vvAt path := by
  cases hsidecar : next.sidecar? with
  | none => exact tree.vvAt_perform_none place hsidecar path
  | some target =>
      obtain ⟨written, vv⟩ := target
      have hentity := (hrunning.writes next List.mem_cons_self written vv hsidecar).1
      rw [tree.vvAt_perform place hsidecar, if_neg]
      rintro rfl
      exact hother hentity

/-- What a file counts, it counts after the next write of a mutator as well. -/
theorem Running.vvAt_grows {path : SidecarPath} {held : VersionVector}
    (hheld : tree.vvAt path = some held) :
    ∃ later, (tree.perform place next).vvAt path = some later ∧
      dominates later held = true := by
  cases hsidecar : next.sidecar? with
  | none =>
      exact ⟨held, (tree.vvAt_perform_none place hsidecar path).trans hheld,
        dominates_refl held⟩
  | some target =>
      obtain ⟨written, change⟩ := target
      obtain ⟨hentity, -, hvv⟩ :=
        hrunning.writes next List.mem_cons_self written change hsidecar
      rw [tree.vvAt_perform place hsidecar, hvv]
      split
      · next heq =>
          exact ⟨_, rfl, hrunning.ahead path held (heq ▸ hentity) hheld⟩
      · exact ⟨held, hheld, dominates_refl held⟩

theorem Running.coversAt {path : SidecarPath} {target : Entity} {vv : VersionVector}
    (hcovers : tree.CoversAt path target vv) :
    (tree.perform place next).CoversAt path target vv := by
  obtain ⟨hentity, held, hheld, hdom⟩ := hcovers
  obtain ⟨later, hlater, hmore⟩ := hrunning.vvAt_grows place hheld
  exact ⟨hentity, later, hlater, dominates_trans hmore hdom⟩

theorem Running.covers {target : Entity} {vv : VersionVector}
    (hcovers : tree.Covers target vv) : (tree.perform place next).Covers target vv := by
  obtain ⟨path, hpath⟩ := hcovers
  exact ⟨path, hrunning.coversAt place hpath⟩

/-- The files of the entity hold what they held, or the version being written. -/
theorem Running.ahead_perform {path : SidecarPath} {held : VersionVector}
    (hentity : path.entity = entity)
    (hheld : (tree.perform place next).vvAt path = some held) :
    dominates record.data.vv held = true := by
  cases hsidecar : next.sidecar? with
  | none =>
      rw [tree.vvAt_perform_none place hsidecar] at hheld
      exact hrunning.ahead path held hentity hheld
  | some target =>
      obtain ⟨written, change⟩ := target
      obtain ⟨-, -, hvv⟩ := hrunning.writes next List.mem_cons_self written change hsidecar
      rw [tree.vvAt_perform place hsidecar, hvv] at hheld
      split at hheld
      · rw [← Option.some.inj hheld]
        exact dominates_refl _
      · exact hrunning.ahead path held hentity hheld

theorem Running.level_perform :
    dominates (((tree.perform place next).slot entity).vv.increment tree.deviceId)
      record.data.vv = true := by
  cases hsidecar : next.sidecar? with
  | none =>
      rw [tree.slot_perform_of_ne place (fun path change hsome => by
        rw [hsidecar] at hsome; contradiction)]
      exact hrunning.level
  | some target =>
      obtain ⟨written, change⟩ := target
      obtain ⟨rfl, -, hwritten⟩ :=
        hrunning.writes next List.mem_cons_self written change hsidecar
      rcases tree.slot_perform_self place hsidecar with ⟨version, hvv, hslot⟩ | hslot
      · rw [hslot]
        change dominates (version.vv.increment tree.deviceId) record.data.vv = true
        rw [hvv, hwritten]
        exact increment_dominates record.data.vv tree.deviceId
      · rw [hslot]
        exact hrunning.level

theorem Running.leveled (hleveled : tree.Leveled) :
    (tree.perform place next).Leveled := by
  intro path held hheld
  rw [deviceId_perform]
  by_cases hentity : path.entity = entity
  · rw [hentity]
    exact dominates_trans (hrunning.level_perform place)
      (hrunning.ahead_perform place hentity hheld)
  · rw [hrunning.vvAt_of_ne place hentity] at hheld
    rw [hrunning.slot_of_ne place hentity]
    exact hleveled path held hheld

theorem Running.named (hnamed : tree.Named) : (tree.perform place next).Named := by
  apply hnamed.perform
  intro path change hsidecar
  obtain ⟨hpath, hentity, -⟩ :=
    hrunning.writes next List.mem_cons_self path change hsidecar
  exact hentity.trans hpath.symm

/-- A mutator goes on running after its next write. -/
theorem Running.perform : (tree.perform place next).Running entity ⟨rest, record⟩ where
  told := hrunning.told
  ahead := fun _ _ hentity hheld => hrunning.ahead_perform place hentity hheld
  level := by
    rw [deviceId_perform]
    exact hrunning.level_perform place
  writes := fun write hwrite => hrunning.writes write (List.mem_cons_of_mem next hwrite)
  stores := by
    rcases hrunning.stores with ⟨write, hwrite, hsome⟩ | hcovers
    · rcases List.mem_cons.mp hwrite with rfl | hrest
      · obtain ⟨⟨path, change⟩, hsidecar⟩ := Option.ne_none_iff_exists'.mp hsome
        obtain ⟨hentity, -, hvv⟩ :=
          hrunning.writes write List.mem_cons_self path change hsidecar
        refine Or.inr ⟨path, hentity, _, ?_, dominates_refl _⟩
        rw [tree.vvAt_perform place hsidecar, if_pos rfl, hvv]
      · exact Or.inl ⟨write, hrest, hsome⟩
    · exact Or.inr (hrunning.covers place hcovers)

end Write

end FsTree

end Keeplin
