/-
Both stores keep the laws of resources.
-/
import Keeplin.DbListings
import Keeplin.PageWalks
import Keeplin.Payloads
import Keeplin.PlacementCalls
import Keeplin.ResourceFolders
import Keeplin.ResourceStores

namespace Keeplin

namespace Db

open ResourceStore

/-- The calls of the SQLite store; the readings of the clock go with the state. -/
def resourceStore (clock : Db → CallClock) : ResourceStore Db where
  listResources pageSize token db := .ok (db.listResources pageSize token)
  readResource id db := db.readResource id
  createResource resource data db :=
    match db.createResource resource data (clock db).now with
    | .ok (after, stored) => (after, .ok stored)
    | .error failure => (db, .error failure)
  deleteResource id db :=
    match db.deleteResource id (clock db).ts (clock db).now with
    | .ok after => (after, .ok ())
    | .error failure => (db, .error failure)

/-- The live resources with their payloads. -/
def shelved (db : Db) : List Shelved :=
  db.liveResources.map fun resource =>
    (resource, db.resources[resource.id]?.bind ResourceRow.data)

def ShelvesUuids (db : Db) : Prop := ∀ id ∈ db.resources, IsUuid id

/-- A live resource with an id that no row has. -/
structure IsNew (db : Db) (resource : Resource) (_ : List UInt8) : Prop where
  unused : resource.id ∉ db.resources
  uuid : IsUuid resource.id
  live : resource.deletedAt = none

def shelvedKey (row : Shelved) : Text ×ₗ Text :=
  createdKey Resource.createdAt Resource.id row.1

theorem mem_shelved {db : Db} {row : Shelved} : row ∈ db.shelved ↔
    ∃ found, db.resources[row.1.id]? = some found ∧ rowToResource row.1.id found = row.1 ∧
      found.deletedAt = none ∧ found.data = row.2 := by
  rw [shelved, List.mem_map]
  constructor
  · rintro ⟨resource, hlive, rfl⟩
    obtain ⟨id, found, hfound, rfl, hdeleted⟩ := mem_selectLive.mp hlive
    refine ⟨found, hfound, rfl, hdeleted, ?_⟩
    show found.data = db.resources[id]?.bind ResourceRow.data
    rw [hfound, Option.bind_some]
  · rintro ⟨found, hfound, hrow, hdeleted, hdata⟩
    refine ⟨row.1, mem_selectLive.mpr ⟨row.1.id, found, hfound, hrow, ?_⟩, ?_⟩
    · rw [← hrow]
      exact hdeleted
    · rw [hfound, Option.bind_some, hdata]

theorem shelved_map_fst (db : Db) : db.shelved.map Prod.fst = db.liveResources := by
  rw [shelved, List.map_map]
  exact List.map_id _

theorem nodup_shelved (db : Db) : (db.shelved.map fun row => row.1.id).Nodup := by
  have hids : (db.liveResources.map Resource.id).Nodup := nodup_selectLive fun _ _ => rfl
  rw [← shelved_map_fst, List.map_map] at hids
  exact hids

theorem nodup_shelvedKeys {db : Db} (hids : db.ShelvesUuids) :
    (db.shelved.map shelvedKey).Nodup := by
  have hnodup : (db.liveResources.map Resource.id).Nodup := nodup_selectLive fun _ _ => rfl
  have hkeys : (db.liveResources.map (createdKey Resource.createdAt Resource.id)).Nodup := by
    refine nodup_createdKeys hnodup fun resource hlive => ?_
    obtain ⟨id, row, hrow, rfl, -⟩ := mem_selectLive.mp hlive
    exact hids id (Std.ExtTreeMap.mem_iff_isSome_getElem?.mpr (by rw [hrow]; rfl))
  rw [← shelved_map_fst, List.map_map] at hkeys
  exact hkeys

theorem collectResources_eq (clock : Db → CallClock) {db : Db} (hids : db.ShelvesUuids) {fuel : Nat}
    (hfuel : db.shelved.length < fuel) :
    (resourceStore clock).collectResources db fuel none =
      some (.ok ((sortBy shelvedKey db.shelved).map Prod.fst)) := by
  have hkeys := nodup_shelvedKeys hids
  have hlive : (db.liveResources.map (createdKey Resource.createdAt Resource.id)).Nodup := by
    rw [← shelved_map_fst, List.map_map]
    exact hkeys
  have hlength : db.liveResources.length < fuel := by
    rwa [← shelved_map_fst, List.length_map]
  have htokens : followTokens (db.listResources 0) fuel none =
      some (sortBy (createdKey Resource.createdAt Resource.id) db.liveResources) :=
    followTokens_createdPage hlive 0 hlength
  have hsorted : sortBy (createdKey Resource.createdAt Resource.id) (db.shelved.map Prod.fst) =
      (sortBy shelvedKey db.shelved).map Prod.fst :=
    sortBy_map (fun _ => rfl) db.shelved
  rw [collectResources_of_page fun token => rfl, htokens, ← hsorted, shelved_map_fst]
  rfl

/-- The live resources after the row of one has changed. -/
theorem mem_shelved_insert (db : Db) {after : Db} (id : Uuid) (changed : ResourceRow)
    (hresources : after.resources = db.resources.insert id changed) {other : Shelved} :
    other ∈ after.shelved ↔
      if other.1.id = id then
        rowToResource id changed = other.1 ∧ changed.deletedAt = none ∧ changed.data = other.2
      else other ∈ db.shelved := by
  rw [mem_shelved, hresources]
  split
  · next hid =>
      rw [hid]
      simp
  · next hid =>
      rw [mem_shelved, Std.ExtTreeMap.getElem?_insert]
      simp only [Std.LawfulEqCmp.compare_eq_iff_eq, Ne.symm hid, if_false]

theorem mem_of_getElem? {db : Db} {id : Uuid} {row : ResourceRow}
    (hrow : db.resources[id]? = some row) : id ∈ db.resources :=
  Std.ExtTreeMap.mem_iff_isSome_getElem?.mpr (by rw [hrow]; rfl)

theorem holds_resourceStore (clock : Db → CallClock) :
    (resourceStore clock).Holds shelvedKey ShelvesUuids shelved IsNew where
  keys hgood := nodup_shelvedKeys hgood
  nodup _ := nodup_shelved _
  unused := by
    intro db resource data hgood hnew row hrow heq
    obtain ⟨found, hfound, -⟩ := mem_shelved.mp hrow
    rw [heq] at hfound
    exact hnew.unused (mem_of_getElem? hfound)
  lists hgood hfuel := collectResources_eq clock hgood hfuel
  reads := by
    intro db row hgood hrow
    obtain ⟨found, hfound, hrow, hdeleted, hdata⟩ := mem_shelved.mp hrow
    simp only [resourceStore, readResource, hfound, hdeleted, ne_eq, not_true_eq_false, if_false]
    rw [← hdata]
    cases found.data with
    | none => rfl
    | some data =>
        rw [hrow]
        rfl
  deletes := by
    intro db row hgood hrow
    obtain ⟨found, hfound, -⟩ := mem_shelved.mp hrow
    let stamped : ResourceRow := { found with
      deletedAt := some (clock db).ts, vv := db.nextResourceVv row.1.id, lastWriter := db.deviceId }
    let deleted : Db := { db with resources := db.resources.insert row.1.id stamped }
    have hkeys : ∀ id, id ∈ deleted.resources ↔ id ∈ db.resources := by
      intro id
      rw [Std.ExtTreeMap.mem_insert, Std.LawfulEqCmp.compare_eq_iff_eq]
      exact ⟨fun hmem => hmem.elim (fun hid => hid ▸ mem_of_getElem? hfound) fun hin => hin, .inr⟩
    refine ⟨deleted.recordChange (clock db).now (.resourceDelete row.1.id (clock db).ts
      (db.nextResourceVv row.1.id) db.deviceId), ?_, ?_, ?_, ?_⟩
    · simp only [resourceStore, deleteResource, hfound]
      rfl
    · exact fun id hmem => hgood id ((hkeys id).mp hmem)
    · intro other
      rw [mem_shelved_insert db row.1.id stamped rfl]
      split
      · next hid => simp [stamped, hid]
      · next hid => simp [hid]
    · exact fun resource data hnew =>
        ⟨fun hmem => hnew.unused ((hkeys _).mp hmem), hnew.uuid, hnew.live⟩
  creates := by
    intro db resource data hgood hnew
    let stored : Resource := { resource with
      vv := db.nextResourceVv resource.id, lastWriter := db.deviceId }
    let created : Db := { db with
      resources := db.resources.insert resource.id (ResourceRow.ofResource stored data) }
    have hmissing : db.resources.contains resource.id = false := by
      rw [Bool.eq_false_iff]
      exact fun hcontains => hnew.unused (Std.ExtTreeMap.contains_iff_mem.mp hcontains)
    refine ⟨created.recordChange (clock db).now (.resourceCreate stored (some data)), stored,
      ?_, ?_, ⟨rfl, rfl, rfl⟩, ?_⟩
    · simp only [resourceStore, createResource, hmissing]
      rfl
    · intro id hmem
      rcases Std.ExtTreeMap.mem_insert.mp hmem with hid | hin
      · rw [Std.LawfulEqCmp.compare_eq_iff_eq] at hid
        exact hid ▸ hnew.uuid
      · exact hgood id hin
    · intro other
      rw [mem_shelved_insert db resource.id (ResourceRow.ofResource stored data) rfl]
      have hrow : rowToResource resource.id (ResourceRow.ofResource stored data) = stored :=
        rowToResource_ofResource stored data
      have hdeleted : (ResourceRow.ofResource stored data).deletedAt = none := hnew.live
      have hdata : (ResourceRow.ofResource stored data).data = some data := rfl
      rw [hrow, hdeleted, hdata, Prod.ext_iff]
      split
      · next hid =>
          have hnot : other ∉ db.shelved := by
            intro hin
            obtain ⟨found, hfound, -⟩ := mem_shelved.mp hin
            exact hnew.unused (hid ▸ mem_of_getElem? hfound)
          simp [hnot, eq_comm]
      · next hid =>
          have hne : other.1 ≠ stored := fun heq =>
            hid (show other.1.id = stored.id from congrArg Resource.id heq)
          simp [hne]

end Db

section Sorted

variable {A : Type} {keyFn : A → PageKey} {items : List A} {limit : Nat}

theorem mem_of_pageOf {cursor : Option PageKey} {last : A}
    (hlast : (pageOf keyFn limit cursor items).2 = some last) : last ∈ items := by
  simp only [pageOf, cut] at hlast
  split at hlast
  · exact List.mem_of_mem_filter (List.mem_of_mem_take (List.mem_of_getLast? hlast))
  · contradiction

/-- Readable tokens lead from page to page as their keys do. -/
theorem followTokens_paginate (hsorted : items.Pairwise fun item later => keyFn item < keyFn later)
    (hreadable : ∀ item ∈ items, (keyFn item).Readable) (fuel : Nat) (last : Option A)
    (hlast : ∀ item ∈ last, item ∈ items) :
    followTokens (fun token => FilePages.paginate items limit token keyFn) fuel
        (last.map fun item => (keyFn item).token) =
      walk keyFn keyFn limit items fuel (last.map keyFn) := by
  induction fuel generalizing last with
  | zero => rfl
  | succ fuel ih =>
      have hcursor : readPageKey (last.map fun item => (keyFn item).token) = last.map keyFn := by
        cases last with
        | none => rfl
        | some item => exact readPageKey_token (hreadable item (hlast item rfl))
      have hpage := FilePages.paginate_eq hsorted limit (last.map fun item => (keyFn item).token)
      rw [hcursor] at hpage
      simp only [followTokens, walk, hpage]
      cases hnext : (pageOf keyFn limit (last.map keyFn) items).2 with
      | none => rfl
      | some next =>
          have hrest := ih (some next) fun item hitem => by
            rw [← Option.some.inj hitem]
            exact mem_of_pageOf hnext
          simp only [Option.map_some] at hrest ⊢
          rw [hrest]

theorem followTokens_listByInstant {createdAt : A → DateTime} {id : A → Uuid}
    (horder : InTextOrder createdAt id items) (hids : ∀ item ∈ items, IsUuid (id item))
    (pageSize : Nat) {fuel : Nat} (hfuel : items.length < fuel) :
    followTokens (listByInstant createdAt id items pageSize) fuel none =
      some (sortBy (instantKey createdAt id) items) := by
  have hreadable : ∀ item ∈ sortBy (instantKey createdAt id) items,
      (pageKey createdAt id item).Readable := fun item hitem =>
    ⟨toSortableRfc3339_ne_bar _, hids item (mem_sortBy.mp hitem)⟩
  have hwalk : followTokens (listByInstant createdAt id items pageSize) fuel none = _ :=
    followTokens_paginate horder.pairwise hreadable fuel none (by simp)
  refine hwalk.trans (walk_of_separated horder.pairwise (fun item _ => le_refl _) ?_
    (effectivePageSize_pos pageSize) afterCursor_none ?_)
  · exact horder.pairwise
  · rwa [(perm_sortBy items).length_eq]

end Sorted

namespace FsTree

open ResourceStore

/-- The calls of the filesystem store on its files. -/
def resourceStore (contentHash : List UInt8 → String) (place : Uuid → Nat)
    (clock : FsTree → CallClock) : ResourceStore FsTree where
  listResources pageSize token tree := .ok (tree.listResources pageSize token)
  readResource id tree := tree.readResource id
  createResource resource data tree :=
    match tree.createResource contentHash resource data with
    | .error failure => (tree, .error failure)
    | .ok mutation => (tree.performAll place mutation.writes,
        (tree.nextResourceVv resource.id).map fun vv =>
          { resource with vv, lastWriter := tree.deviceId })
  deleteResource id tree :=
    match tree.deleteResource id (clock tree).ts with
    | .error failure => (tree, .error failure)
    | .ok mutation => (tree.performAll place mutation.writes, .ok ())

def shelved (tree : FsTree) : List Shelved :=
  tree.liveResources.map fun resource =>
    (resource, (tree.readResource resource.id).toOption.map Prod.snd)

def shelvedKey (row : Shelved) : DateTime ×ₗ Uuid :=
  instantKey Resource.createdAt Resource.id row.1

/-- Every resource has one file, under its own id, and what is live can be listed. -/
structure Filed (tree : FsTree) : Prop where
  notes : tree.allNoteIds.Nodup
  resources : ∀ noteId, (tree.noteResourceIds noteId).Nodup
  single : tree.SingleFiled
  named : ∀ {noteId id stored}, tree.resourceFile noteId id = some (.readable stored) →
    stored.resource.id = id
  written : ∀ {noteId id stored}, tree.resourceFile noteId id = some (.readable stored) →
    stored.resource.deletedAt = none → IsUuid id ∧ FourDigitYear stored.resource.createdAt

/-- A live resource with an id that has no file, and a payload that those beside it with its
hash have too. -/
structure IsNew (contentHash : List UInt8 → String) (tree : FsTree) (resource : Resource)
    (data : List UInt8) : Prop where
  unused : ∀ noteId, tree.resourceFile noteId resource.id = none
  uuid : IsUuid resource.id
  year : FourDigitYear resource.createdAt
  live : resource.deletedAt = none
  apart : ∀ {id stored}, tree.resourceFile resource.noteId id = some (.readable stored) →
    stored.blobHash = contentHash data →
    tree.blobs.file? (resource.noteId, contentHash data) = some data

variable {tree : FsTree} {place : Uuid → Nat}

theorem locateResourceNote_of_file (hfiled : tree.Filed) {noteId id : Uuid}
    (hfile : (tree.resourceFile noteId id).isSome = true) :
    tree.locateResourceNote id = some noteId :=
  locateResourceNote_of_only hfile fun other hother => hfiled.single id other noteId hother hfile

theorem readResourceSidecar_of_file (hfiled : tree.Filed) {noteId id : Uuid}
    {stored : StoredResource} (hfile : tree.resourceFile noteId id = some (.readable stored)) :
    tree.readResourceSidecar id = .ok (some (noteId, stored)) := by
  have hlocate := locateResourceNote_of_file hfiled (by rw [hfile]; rfl)
  simp only [readResourceSidecar, hlocate, hfile]

theorem readResource_of_file (hfiled : tree.Filed) {noteId id : Uuid}
    {stored : StoredResource} (hfile : tree.resourceFile noteId id = some (.readable stored))
    (hlive : stored.resource.deletedAt = none) :
    (tree.readResource id).toOption =
      (tree.blobs.file? (noteId, stored.blobHash)).map fun data => (stored.resource, data) := by
  simp only [readResource, readResourceSidecar_of_file hfiled hfile, hlive, ne_eq,
    not_true_eq_false, if_false]
  cases tree.blobs.file? (noteId, stored.blobHash) <;> rfl

theorem mem_noteResources {noteId : Uuid} {resource : Resource} :
    resource ∈ tree.noteResources noteId ↔ ∃ id stored,
      tree.resourceFile noteId id = some (.readable stored) ∧
        stored.resource.deletedAt = none ∧ stored.resource = resource := by
  rw [noteResources, List.mem_map]
  constructor
  · rintro ⟨stored, hstored, rfl⟩
    obtain ⟨hfile, hlive⟩ := mem_liveFiles.mp hstored
    obtain ⟨id, -, hread⟩ := List.mem_filterMap.mp hfile
    exact ⟨id, stored, hread, hlive, rfl⟩
  · rintro ⟨id, stored, hfile, hlive, rfl⟩
    have hid : id ∈ tree.noteResourceIds noteId :=
      List.mem_map.mpr ⟨(id, .readable stored), Directory.file?_mem hfile, rfl⟩
    exact ⟨stored, mem_liveFiles.mpr ⟨List.mem_filterMap.mpr ⟨id, hid, hfile⟩, hlive⟩, rfl⟩

theorem mem_shelved (hfiled : tree.Filed) {row : Shelved} :
    row ∈ tree.shelved ↔ ∃ noteId stored,
      tree.resourceFile noteId row.1.id = some (.readable stored) ∧
        stored.resource.deletedAt = none ∧ stored.resource = row.1 ∧
        tree.blobs.file? (noteId, stored.blobHash) = row.2 := by
  rw [shelved, List.mem_map]
  constructor
  · rintro ⟨resource, hmem, rfl⟩
    obtain ⟨noteId, -, hresource⟩ := List.mem_flatMap.mp hmem
    obtain ⟨id, stored, hfile, hlive, rfl⟩ := mem_noteResources.mp hresource
    have hid : stored.resource.id = id := hfiled.named hfile
    refine ⟨noteId, stored, hid.symm ▸ hfile, hlive, rfl, ?_⟩
    show _ = (tree.readResource stored.resource.id).toOption.map Prod.snd
    rw [hid, readResource_of_file hfiled hfile hlive, Option.map_map]
    exact (congrFun Option.map_id _).symm
  · rintro ⟨noteId, stored, hfile, hlive, hrow, hdata⟩
    refine ⟨row.1, List.mem_flatMap.mpr ⟨noteId,
      mem_allNoteIds_of_resourceFile (by rw [hfile]; rfl),
      mem_noteResources.mpr ⟨row.1.id, stored, hfile, hlive, hrow⟩⟩, ?_⟩
    refine Prod.ext rfl ?_
    show (tree.readResource row.1.id).toOption.map Prod.snd = row.2
    rw [readResource_of_file hfiled hfile hlive, Option.map_map, ← hdata]
    exact congrFun Option.map_id _

theorem map_filterMap_sublist {A B : Type} {read : A → Option B} {name : B → A} {list : List A}
    (hread : ∀ item ∈ list, ∀ found ∈ read item, name found = item) :
    ((list.filterMap read).map name).Sublist list := by
  induction list with
  | nil => exact List.Sublist.refl _
  | cons item rest ih =>
      have hrest := ih fun other hother => hread other (List.mem_cons_of_mem item hother)
      rw [List.filterMap_cons]
      split
      · exact hrest.cons item
      · next found hfound =>
          rw [List.map_cons, hread item List.mem_cons_self found hfound]
          exact hrest.cons_cons item

def liveFile (file : Sidecar StoredResource) : Option Resource :=
  match file with
  | .unreadable => none
  | .readable stored => if stored.resource.deletedAt = none then some stored.resource else none

theorem noteResources_eq (tree : FsTree) (noteId : Uuid) :
    tree.noteResources noteId = (tree.noteResourceIds noteId).filterMap fun id =>
      (tree.resourceFile noteId id).bind liveFile := by
  rw [noteResources, liveFiles, List.filterMap_filterMap, List.map_filterMap]
  refine List.filterMap_congr fun id _ => ?_
  rw [Option.map_bind]
  refine Option.bind_congr fun file _ => ?_
  cases file with
  | unreadable => rfl
  | readable stored =>
      simp only [liveFile, Function.comp_apply]
      split <;> rfl

theorem nodup_noteResources (hfiled : tree.Filed) (noteId : Uuid) :
    ((tree.noteResources noteId).map Resource.id).Nodup := by
  rw [noteResources_eq]
  refine (hfiled.resources noteId).sublist (map_filterMap_sublist fun id _ resource hread => ?_)
  obtain ⟨file, hfile, hlive⟩ := Option.bind_eq_some_iff.mp hread
  cases file with
  | unreadable => contradiction
  | readable stored =>
      rw [liveFile, Option.ite_none_right_eq_some] at hlive
      rw [← Option.some.inj hlive.2]
      exact hfiled.named hfile

theorem nodup_liveResourceIds (hfiled : tree.Filed) :
    (tree.liveResources.map Resource.id).Nodup := by
  rw [liveResources, List.map_flatMap, List.nodup_flatMap]
  refine ⟨fun noteId _ => nodup_noteResources hfiled noteId,
    hfiled.notes.imp fun {noteId other} hne => ?_⟩
  refine List.disjoint_left.mpr ?_
  intro id hid hother
  obtain ⟨resource, hresource, rfl⟩ := List.mem_map.mp hid
  obtain ⟨found, hfound, heq⟩ := List.mem_map.mp hother
  obtain ⟨_, stored, hfile, -, rfl⟩ := mem_noteResources.mp hresource
  obtain ⟨_, beside, hbeside, -, rfl⟩ := mem_noteResources.mp hfound
  obtain rfl := hfiled.named hfile
  obtain rfl := hfiled.named hbeside
  rw [heq] at hbeside
  exact hne (hfiled.single stored.resource.id noteId other (by rw [hfile]; rfl)
    (by rw [hbeside]; rfl))

theorem inTextOrder_liveResources (hfiled : tree.Filed) :
    InTextOrder Resource.createdAt Resource.id tree.liveResources := by
  refine inTextOrder_of_fourDigitYear _ _ (nodup_liveResourceIds hfiled) fun resource hlive => ?_
  obtain ⟨noteId, -, hresource⟩ := List.mem_flatMap.mp hlive
  obtain ⟨id, stored, hfile, hdeleted, rfl⟩ := mem_noteResources.mp hresource
  exact (hfiled.written hfile hdeleted).2

theorem isUuid_liveResources (hfiled : tree.Filed) {resource : Resource}
    (hlive : resource ∈ tree.liveResources) : IsUuid resource.id := by
  obtain ⟨noteId, -, hresource⟩ := List.mem_flatMap.mp hlive
  obtain ⟨id, stored, hfile, hdeleted, rfl⟩ := mem_noteResources.mp hresource
  rw [hfiled.named hfile]
  exact (hfiled.written hfile hdeleted).1

theorem shelved_map_fst (tree : FsTree) : tree.shelved.map Prod.fst = tree.liveResources := by
  rw [shelved, List.map_map]
  exact List.map_id _

theorem nodup_shelved (hfiled : tree.Filed) : (tree.shelved.map fun row => row.1.id).Nodup := by
  have hids := nodup_liveResourceIds hfiled
  rw [← shelved_map_fst, List.map_map] at hids
  exact hids

theorem nodup_shelvedKeys (hfiled : tree.Filed) : (tree.shelved.map shelvedKey).Nodup := by
  refine List.Nodup.of_map (fun key => (ofLex key).2) ?_
  rw [List.map_map]
  exact nodup_shelved hfiled

theorem noteResourceIds_perform (hids : ∀ noteId, (tree.noteResourceIds noteId).Nodup)
    (noteId id : Uuid) (stored : StoredResource) (other : Uuid) :
    ((tree.perform place (.resource noteId id stored)).noteResourceIds other).Nodup := by
  simp only [noteResourceIds, FsTree.perform, noteFolder_modifyNote]
  split
  · exact Directory.nodup_put (hids noteId)
  · exact hids other

/-- What holds of every resource that can be read and of the one written holds after. -/
theorem readable_perform {holds : Uuid → StoredResource → Prop} {noteId id : Uuid}
    {stored : StoredResource}
    (hold : ∀ {other target found}, tree.resourceFile other target = some (.readable found) →
      holds target found)
    (hnew : holds id stored) {other target : Uuid} {found : StoredResource}
    (hfound : (tree.perform place (.resource noteId id stored)).resourceFile other target =
      some (.readable found)) : holds target found := by
  rw [resourceFile_perform_resource] at hfound
  split at hfound
  · next hsame =>
      obtain ⟨rfl, rfl⟩ := hsame
      rw [Option.some.injEq, Sidecar.readable.injEq] at hfound
      exact hfound ▸ hnew
  · exact hold hfound

/-- Filing a resource in the only folder that may have it keeps the files in order. -/
theorem Filed.perform (hfiled : tree.Filed) {noteId id : Uuid} {stored : StoredResource}
    (honly : tree.FiledOnlyIn noteId id) (hid : stored.resource.id = id)
    (hwritten : stored.resource.deletedAt = none →
      IsUuid id ∧ FourDigitYear stored.resource.createdAt) :
    (tree.perform place (.resource noteId id stored)).Filed where
  notes := IndexedTree.nodup_allNoteIds_perform hfiled.notes _
  resources := noteResourceIds_perform hfiled.resources noteId id stored
  single := (singleFiled_perform_iff hfiled.single noteId id stored).mpr honly
  named := readable_perform hfiled.named hid
  written := readable_perform hfiled.written hwritten

/-- The live resources after one has been filed. -/
theorem mem_shelved_perform (hfiled : tree.Filed) {noteId id : Uuid} {stored : StoredResource}
    (hafter : (tree.perform place (.resource noteId id stored)).Filed)
    (honly : tree.FiledOnlyIn noteId id) {other : Shelved} :
    other ∈ (tree.perform place (.resource noteId id stored)).shelved ↔
      if other.1.id = id then
        stored.resource = other.1 ∧ stored.resource.deletedAt = none ∧
          tree.blobs.file? (noteId, stored.blobHash) = other.2
      else other ∈ tree.shelved := by
  rw [mem_shelved hafter]
  simp only [resourceFile_perform_resource]
  split
  · next hid =>
      constructor
      · rintro ⟨folder, found, hfile, hlive, hrow, hdata⟩
        split at hfile
        · next hsame =>
            rw [Option.some.injEq, Sidecar.readable.injEq] at hfile
            rw [← hfile] at hrow hlive hdata
            rw [← hsame.1] at hdata
            exact ⟨hrow, hlive, hdata⟩
        · next hne =>
            have hfolder := honly folder (by rw [← hid, hfile]; rfl)
            exact absurd ⟨hfolder.symm, hid.symm⟩ hne
      · rintro ⟨hrow, hlive, hdata⟩
        exact ⟨noteId, stored, by rw [if_pos ⟨rfl, hid.symm⟩], hlive, hrow, hdata⟩
  · next hid =>
      rw [mem_shelved hfiled]
      have hne : ∀ folder, ¬ (noteId = folder ∧ id = other.1.id) := fun _ hsame =>
        hid hsame.2.symm
      simp only [if_neg (hne _)]
      exact Iff.rfl

theorem mem_shelved_of_file (hfiled : tree.Filed) {row : Shelved} (hrow : row ∈ tree.shelved) :
    ∃ noteId stored, tree.readResourceSidecar row.1.id = .ok (some (noteId, stored)) ∧
      tree.resourceFile noteId row.1.id = some (.readable stored) ∧ stored.resource = row.1 ∧
      tree.FiledOnlyIn noteId row.1.id := by
  obtain ⟨noteId, stored, hfile, hlive, hresource, -⟩ := (mem_shelved hfiled).mp hrow
  refine ⟨noteId, stored, readResourceSidecar_of_file hfiled hfile, hfile, hresource, ?_⟩
  exact fun other hother => hfiled.single _ other noteId hother (by rw [hfile]; rfl)

variable {contentHash : List UInt8 → String}

theorem IsNew.perform_tombstone {resource : Resource} {data : List UInt8}
    (hnew : tree.IsNew contentHash resource data) {noteId id : Uuid} {stored : StoredResource}
    (hfile : tree.resourceFile noteId id = some (.readable stored)) (deletedAt : DateTime)
    (vv : VersionVector) (lastWriter : String) :
    (tree.perform place (.resource noteId id
      (tombstoned stored deletedAt vv lastWriter))).IsNew contentHash resource data where
  unused := by
    intro other
    have hne : id ≠ resource.id := by
      rintro rfl
      rw [hnew.unused] at hfile
      contradiction
    rw [resourceFile_perform_resource, if_neg fun hsame => hne hsame.2]
    exact hnew.unused other
  uuid := hnew.uuid
  year := hnew.year
  live := hnew.live
  apart := by
    intro target found hfound hhash
    rw [resourceFile_perform_resource] at hfound
    split at hfound
    · next hsame =>
        rw [Option.some.injEq, Sidecar.readable.injEq] at hfound
        refine hnew.apart (hsame.1 ▸ hfile) ?_
        rw [← hhash, ← hfound]
        rfl
    · exact hnew.apart hfound hhash

/-- A payload that is put under its hash changes no live resource's. -/
theorem mem_shelved_blob (hfiled : tree.Filed) {resource : Resource} {data : List UInt8}
    (hnew : tree.IsNew contentHash resource data) {row : Shelved} :
    row ∈ (tree.perform place (.blob resource.noteId (contentHash data) data)).shelved ↔
      row ∈ tree.shelved := by
  have hafter : (tree.perform place (.blob resource.noteId (contentHash data) data)).Filed :=
    ⟨hfiled.notes, hfiled.resources, hfiled.single, hfiled.named, hfiled.written⟩
  rw [mem_shelved hfiled, mem_shelved hafter]
  have hblob : ∀ {noteId stored}, tree.resourceFile noteId row.1.id = some (.readable stored) →
      (tree.perform place (.blob resource.noteId (contentHash data) data)).blobs.file?
        (noteId, stored.blobHash) = tree.blobs.file? (noteId, stored.blobHash) := by
    intro noteId stored hfile
    rw [FsTree.perform, Directory.file?_put]
    split
    · next hsame =>
        obtain ⟨hfolder, hhash⟩ := Prod.mk.inj hsame
        rw [← hfolder, ← hhash]
        exact (hnew.apart (hfolder ▸ hfile) hhash.symm).symm
    · rfl
  constructor
  · rintro ⟨noteId, stored, hfile, hlive, hrow, hdata⟩
    exact ⟨noteId, stored, hfile, hlive, hrow, (hblob hfile).symm.trans hdata⟩
  · rintro ⟨noteId, stored, hfile, hlive, hrow, hdata⟩
    exact ⟨noteId, stored, hfile, hlive, hrow, (hblob hfile).trans hdata⟩

theorem holds_resourceStore (place : Uuid → Nat) (clock : FsTree → CallClock) :
    (resourceStore contentHash place clock).Holds shelvedKey Filed shelved
      (IsNew contentHash) where
  keys hgood := nodup_shelvedKeys hgood
  nodup hgood := nodup_shelved hgood
  unused := by
    intro tree resource data hgood hnew row hrow heq
    obtain ⟨noteId, stored, -, hfile, -⟩ := mem_shelved_of_file hgood hrow
    rw [heq, hnew.unused] at hfile
    contradiction
  lists := by
    intro tree fuel hgood hfuel
    have hlength : tree.liveResources.length < fuel := by
      rwa [← shelved_map_fst, List.length_map]
    have htokens : followTokens (tree.listResources 0) fuel none =
        some (sortBy (instantKey Resource.createdAt Resource.id) tree.liveResources) :=
      followTokens_listByInstant (inTextOrder_liveResources hgood)
        (fun resource hlive => isUuid_liveResources hgood hlive) 0 hlength
    have hsorted : sortBy (instantKey Resource.createdAt Resource.id)
        (tree.shelved.map Prod.fst) = (sortBy shelvedKey tree.shelved).map Prod.fst :=
      sortBy_map (fun _ => rfl) tree.shelved
    rw [collectResources_of_page fun token => rfl, htokens, ← hsorted, shelved_map_fst]
    rfl
  reads := by
    intro tree row hgood hrow
    obtain ⟨noteId, stored, hfile, hlive, hresource, hdata⟩ := (mem_shelved hgood).mp hrow
    have hread := readResource_of_file hgood hfile hlive
    rwa [hdata, hresource] at hread
  deletes := by
    intro tree row hgood hrow
    obtain ⟨noteId, stored, hread, hfile, hresource, honly⟩ := mem_shelved_of_file hgood hrow
    have hid : stored.resource.id = row.1.id := congrArg Resource.id hresource
    have hafter : (tree.perform place (.resource noteId row.1.id
        (tombstoned stored (clock tree).ts (stored.resource.vv.increment tree.deviceId)
          tree.deviceId))).Filed :=
      hgood.perform honly hid fun hlive => by contradiction
    refine ⟨_, ?_, hafter, ?_, fun resource data hnew => hnew.perform_tombstone hfile _ _ _⟩
    · simp only [resourceStore, deleteResource, hread]
      rfl
    · intro other
      rw [mem_shelved_perform hgood hafter honly]
      split
      · next hid => simp [tombstoned, hid]
      · next hid => simp [hid]
  creates := by
    intro tree resource data hgood hnew
    have honly : tree.FiledOnlyIn resource.noteId resource.id := by
      intro other hother
      rw [hnew.unused] at hother
      contradiction
    have hread : tree.readResourceSidecar resource.id = .ok none := by
      have hlocate : tree.locateResourceNote resource.id = none := by
        rw [locateResourceNote, List.find?_eq_none]
        intro other _
        rw [hnew.unused]
        simp
      simp only [readResourceSidecar, hlocate]
    let stored : Resource := { resource with
      vv := (∅ : VersionVector).increment tree.deviceId, lastWriter := tree.deviceId }
    let held := tree.perform place (.blob resource.noteId (contentHash data) data)
    have hheld : held.Filed :=
      ⟨hgood.notes, hgood.resources, hgood.single, hgood.named, hgood.written⟩
    have hafter : (held.perform place
        (.resource resource.noteId resource.id ⟨stored, contentHash data⟩)).Filed :=
      hheld.perform honly rfl fun _ => ⟨hnew.uuid, hnew.year⟩
    refine ⟨_, stored, ?_, hafter, ⟨rfl, rfl, rfl⟩, ?_⟩
    · simp only [resourceStore, createResource, nextResourceVv, hread]
      rfl
    · intro other
      have hblob : held.blobs.file? (resource.noteId, contentHash data) = some data :=
        Directory.file?_put_self _ _ _ _
      rw [mem_shelved_perform hheld hafter honly, mem_shelved_blob hgood hnew, hblob, Prod.ext_iff]
      split
      · next hid =>
          have hnot : other ∉ tree.shelved := by
            intro hin
            obtain ⟨noteId, found, -, hfile, -⟩ := mem_shelved_of_file hgood hin
            rw [hid, hnew.unused] at hfile
            contradiction
          have hlive : stored.deletedAt = none := hnew.live
          simp [hnot, hlive, eq_comm]
      · next hid =>
          have hne : other.1 ≠ stored := fun heq =>
            hid (show other.1.id = stored.id from congrArg Resource.id heq)
          simp [hne]

end FsTree

end Keeplin
