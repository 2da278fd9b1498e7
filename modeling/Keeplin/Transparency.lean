/-
Transparency of encryption.  Every read, listing and history gives through the
decorator what it gives of a database with the plain entities, unless it comes by
what was never sealed: a tombstone of an id that was unknown, a payload that did not
come with its resource, or a token that says one thing as a text and another as an
id.
-/
import Keeplin.TransparentReads

namespace Keeplin

open EncryptedBackend

namespace Cipher

variable {cipher : Cipher}

theorem undoes_sealVersions {A : Type} {opens : A → Except StorageError A}
    {seals : A → StateM Rng A}
    (hundoes : Undoes opens seals) : Undoes (openVersions opens) (sealVersions seals) := by
  have hversion : Undoes
      (fun version : EntityVersion A =>
        (version.entity.mapM opens).map fun entity => { version with entity })
      (fun version : EntityVersion A => do
        let entity ← version.entity.mapM seals
        return { version with entity }) := by
    intro version rng
    have hentity : (version.entity.mapM seals rng).1.mapM opens = .ok version.entity :=
      hundoes.mapM_option version.entity rng
    simp only [seal_bind, seal_pure]
    rw [hentity]
    rfl
  exact hversion.mapM

/-- The journal opens to the journal of the plain database. -/
theorem Sealed.openVersions_history {T : Type} {opens : T → Except StorageError T}
    {revealed : T → T} {version? : Change → Option (Option T)} {db : Db}
    (hsealed : cipher.Sealed db)
    (hversion : ∀ change, version? (cipher.revealChange change) =
      (version? change).map (Option.map revealed))
    (hopens : ∀ change item, cipher.ChangeSealed change → version? change = some (some item) →
      opens item = .ok (revealed item)) (limit : Nat) :
    openVersions opens (Db.entityHistory version? none limit db) =
      .ok (Db.entityHistory version? none limit (cipher.revealDb db)) := by
  have hplain : Db.entityHistory version? none limit (cipher.revealDb db) =
      (Db.entityHistory version? none limit db).map fun version =>
        { version with entity := version.entity.map revealed } := by
    simp only [Db.entityHistory, Option.getD_none, revealDb, List.filterMap_map, List.map_take,
      List.map_reverse, List.map_filterMap]
    congr 2
    refine List.filterMap_congr fun entry _ => ?_
    simp only [Function.comp_apply, hversion]
    cases version? entry.change <;> rfl
  rw [hplain, openVersions]
  refine mapM_eq_ok fun version hversion => ?_
  simp only [Db.entityHistory, Option.getD_none] at hversion
  obtain ⟨entry, hentry, hmade⟩ := List.mem_filterMap.mp
    (List.mem_reverse.mp (List.mem_of_mem_take hversion))
  obtain ⟨entity, hentity, rfl⟩ := Option.map_eq_some_iff.mp hmade
  cases entity with
  | none => rfl
  | some item =>
      have hitem := hopens entry.change item (hsealed.journal entry hentry) hentity
      simp only [Option.mapM_some, hitem]
      rfl

theorem noteVersion?_revealChange (id : Uuid) (change : Change) :
    (cipher.revealChange change).noteVersion? id =
      (change.noteVersion? id).map (Option.map cipher.revealNote) := by
  cases change with
  | noteCreate note | noteUpdate note =>
      have hid : (cipher.revealNote note).id = note.id := rfl
      simp only [revealChange, Change.noteVersion?, hid]
      split <;> rfl
  | noteDelete other deletedAt vv lastWriter =>
      simp only [revealChange, Change.noteVersion?]
      split <;> rfl
  | notebookCreate | notebookUpdate | notebookDelete | tagCreate | tagUpdate | tagDelete
  | noteTagAdd | noteTagRemove | resourceCreate | resourceDelete => rfl

theorem notebookVersion?_revealChange (id : Uuid) (change : Change) :
    (cipher.revealChange change).notebookVersion? id =
      (change.notebookVersion? id).map (Option.map cipher.revealNotebook) := by
  cases change with
  | notebookCreate notebook | notebookUpdate notebook =>
      have hid : (cipher.revealNotebook notebook).id = notebook.id := rfl
      simp only [revealChange, Change.notebookVersion?, hid]
      split <;> rfl
  | notebookDelete other deletedAt vv lastWriter =>
      simp only [revealChange, Change.notebookVersion?]
      split <;> rfl
  | noteCreate | noteUpdate | noteDelete | tagCreate | tagUpdate | tagDelete
  | noteTagAdd | noteTagRemove | resourceCreate | resourceDelete => rfl

theorem decNote_of_noteVersion {id : Uuid} {change : Change} {note : Note}
    (hchange : cipher.ChangeSealed change) (hversion : change.noteVersion? id = some (some note)) :
    cipher.decNote note = .ok (cipher.revealNote note) := by
  cases change with
  | noteCreate written | noteUpdate written =>
      simp only [Change.noteVersion?, Option.ite_none_right_eq_some, Option.some.injEq] at hversion
      obtain ⟨-, rfl⟩ := hversion
      exact decNote_of_opens hchange
  | noteDelete other deletedAt vv lastWriter =>
      simp [Change.noteVersion?] at hversion
  | notebookCreate | notebookUpdate | notebookDelete | tagCreate | tagUpdate | tagDelete
  | noteTagAdd | noteTagRemove | resourceCreate | resourceDelete => contradiction

theorem decNotebook_of_notebookVersion {id : Uuid} {change : Change} {notebook : Notebook}
    (hchange : cipher.ChangeSealed change)
    (hversion : change.notebookVersion? id = some (some notebook)) :
    cipher.decNotebook notebook = .ok (cipher.revealNotebook notebook) := by
  cases change with
  | notebookCreate written | notebookUpdate written =>
      simp only [Change.notebookVersion?, Option.ite_none_right_eq_some, Option.some.injEq]
        at hversion
      obtain ⟨-, rfl⟩ := hversion
      exact decNotebook_of_opens hchange
  | notebookDelete other deletedAt vv lastWriter =>
      simp [Change.notebookVersion?] at hversion
  | noteCreate | noteUpdate | noteDelete | tagCreate | tagUpdate | tagDelete
  | noteTagAdd | noteTagRemove | resourceCreate | resourceDelete => contradiction

/-- An answer that is opened is the plain one just if the item was sealed. -/
theorem map_bind_eq_iff {A : Type} {found plain : Except StorageError A}
    {opens : A → Except StorageError A} {answer : A → Answer} (revealed : A → A)
    (condition : A → Prop) (hplain : plain = found.map revealed)
    (hopens : ∀ item, found = .ok item → condition item → opens item = .ok (revealed item))
    (hfails : ∀ item, found = .ok item → ¬ condition item →
      ∃ failure, opens item = .error failure) :
    some ((found.bind opens).map answer) = some (plain.map answer) ↔
      ∀ item, found = .ok item → condition item := by
  subst hplain
  cases hfound : found with
  | error failure =>
      refine iff_of_true rfl fun item hitem => ?_
      contradiction
  | ok item =>
      by_cases hcondition : condition item
      · refine iff_of_true ?_ fun other hother => Except.ok.inj hother ▸ hcondition
        rw [Except.bind, hopens item hfound hcondition]
        rfl
      · refine iff_of_false (fun hsame => ?_) fun hall => hcondition (hall item rfl)
        obtain ⟨failure, hfailure⟩ := hfails item hfound hcondition
        rw [Except.bind, hfailure] at hsame
        cases hsame

section Reads

variable {db : Db} (hlawful : cipher.Lawful) (hsealed : cipher.Sealed db)
include hlawful

theorem decNote_of_title {note : Note} (htitle : note.title = "") :
    cipher.decNote note = .error .corruptedData := by
  rw [decNote_eq, openNote_of_title hlawful htitle]
  rfl

theorem decNotebook_of_title {notebook : Notebook} (htitle : notebook.title = "") :
    cipher.decNotebook notebook = .error .corruptedData := by
  rw [decNotebook_eq, openNotebook_of_title hlawful htitle]
  rfl

theorem decTag_of_title {tag : Tag} (htitle : tag.title = "") :
    cipher.decTag tag = .error .corruptedData := by
  rw [decTag_eq, htitle, decryptStr_empty hlawful]
  rfl

theorem decResource_of_title {resource : Resource} (htitle : resource.title = "") :
    cipher.decResource resource = .error .corruptedData := by
  rw [decResource_eq, openResource_of_title hlawful htitle]
  rfl

include hsealed

theorem readNote_iff (id : Uuid) :
    some (((db.readNote id).bind cipher.decNote).map Answer.note) =
        some (((cipher.revealDb db).readNote id).map .note) ↔
      ∀ note, db.readNote id = .ok note → note.title ≠ "" := by
  refine map_bind_eq_iff cipher.revealNote (fun note => note.title ≠ "") ?_ ?_ ?_
  · have hrow : (cipher.revealDb db).notes[id]? = db.notes[id]?.map cipher.revealNoteRow :=
      getElem?_mapRows id
    rw [Db.readNote, Db.readNote, hrow]
    cases db.notes[id]? <;> rfl
  · intro note hread htitle
    obtain ⟨row, hrow, rfl⟩ := Db.readNote_ok_iff.mp hread
    exact decNote_of_opens ((hsealed.notes id row hrow).resolve_right fun hempty =>
      htitle hempty.1)
  · intro note hread htitle
    exact ⟨_, decNote_of_title hlawful (not_not.mp htitle)⟩

theorem readNotebook_iff (id : Uuid) :
    some (((db.readNotebook id).bind cipher.decNotebook).map Answer.notebook) =
        some (((cipher.revealDb db).readNotebook id).map .notebook) ↔
      ∀ notebook, db.readNotebook id = .ok notebook → notebook.title ≠ "" := by
  refine map_bind_eq_iff cipher.revealNotebook (fun notebook => notebook.title ≠ "") ?_ ?_ ?_
  · have hrow : (cipher.revealDb db).notebooks[id]? =
        db.notebooks[id]?.map cipher.revealNotebookRow := getElem?_mapRows id
    rw [Db.readNotebook, Db.readNotebook, hrow]
    cases db.notebooks[id]? <;> rfl
  · intro notebook hread htitle
    obtain ⟨row, hrow, rfl⟩ := Db.readNotebook_ok_iff.mp hread
    exact decNotebook_of_opens ((hsealed.notebooks id row hrow).resolve_right fun hempty =>
      htitle hempty.1)
  · intro notebook hread htitle
    exact ⟨_, decNotebook_of_title hlawful (not_not.mp htitle)⟩

theorem readTag_iff (id : Uuid) :
    some (((db.readTag id).bind cipher.decTag).map Answer.tag) =
        some (((cipher.revealDb db).readTag id).map .tag) ↔
      ∀ tag, db.readTag id = .ok tag → tag.title ≠ "" := by
  refine map_bind_eq_iff cipher.revealTag (fun tag => tag.title ≠ "") ?_ ?_ ?_
  · have hrow : (cipher.revealDb db).tags[id]? = db.tags[id]?.map cipher.revealTagRow :=
      getElem?_mapRows id
    rw [Db.readTag, Db.readTag, hrow]
    cases db.tags[id]? <;> rfl
  · intro tag hread htitle
    rw [Db.readTag] at hread
    cases hrow : db.tags[id]? with
    | none =>
        rw [hrow] at hread
        contradiction
    | some row =>
        rw [hrow] at hread
        obtain rfl := Except.ok.inj hread
        exact decTag_of_opens ((hsealed.tags id row hrow).resolve_right fun hempty =>
          htitle hempty.1)
  · intro tag hread htitle
    exact ⟨_, decTag_of_title hlawful (not_not.mp htitle)⟩

/-- What opens of a resource and its payload. -/
def openPayload (cipher : Cipher) (item : Resource × List UInt8) :
    Except StorageError (Resource × List UInt8) := do
  let data ← cipher.decryptBytes item.2
  let resource ← cipher.decResource item.1
  return (resource, data)

omit hlawful in
theorem readResource_iff (id : Uuid) (rng : Rng) :
    some ((readResource cipher ⟨db, rng⟩ id).map Answer.resource) =
        some (((cipher.revealDb db).readResource id).map .resource) ↔
      ∀ item, db.readResource id = .ok item → item.2 ≠ [] := by
  have hbind : readResource cipher ⟨db, rng⟩ id = (db.readResource id).bind (openPayload cipher) :=
    rfl
  rw [hbind]
  refine map_bind_eq_iff
    (fun item => (cipher.revealResource item.1, reveal cipher.decryptBytes item.2))
    (fun item => item.2 ≠ []) ?_ ?_ ?_
  · have hrow : (cipher.revealDb db).resources[id]? =
        db.resources[id]?.map cipher.revealResourceRow := getElem?_mapRows id
    rw [Db.readResource, Db.readResource, hrow]
    cases db.resources[id]? with
    | none => rfl
    | some row =>
        have hdeleted : (cipher.revealResourceRow row).deletedAt = row.deletedAt := rfl
        have hdata : (cipher.revealResourceRow row).data =
            row.data.map (reveal cipher.decryptBytes) := rfl
        simp only [Option.map_some, hdeleted, hdata]
        split
        · rfl
        · cases row.data <;> rfl
  · intro item hread hdata
    simp only [Db.readResource] at hread
    split at hread
    · contradiction
    · next row hrow =>
        split at hread
        · contradiction
        · split at hread
          · next data hrowData =>
              obtain rfl := Except.ok.inj hread
              rcases (hsealed.resources id row hrow).2 with ⟨hcontent, hpayload⟩ | ⟨-, hnone⟩
              · obtain ⟨plain, hplain⟩ := (hpayload data hrowData).resolve_left hdata
                have hresource : cipher.decResource (rowToResource id row) =
                    .ok (cipher.revealResource (rowToResource id row)) :=
                  decResource_of_opens hcontent
                simp only [openPayload, hplain, hresource, reveal_of_ok hplain, open_bind]
                rfl
              · rw [hrowData] at hnone
                contradiction
          · contradiction
  · intro item hread hempty
    refine ⟨.corruptedData, ?_⟩
    rw [openPayload, not_not.mp hempty]
    rfl

omit hlawful in
theorem Sealed.decResource_of_live {resource : Resource} (hresource : resource ∈ db.liveResources)
    (htitle : resource.title ≠ "") :
    cipher.decResource resource = .ok (cipher.revealResource resource) := by
  obtain ⟨id, row, hrow, rfl, -⟩ := mem_selectLive.mp hresource
  rcases (hsealed.resources id row hrow).2 with ⟨hcontent, -⟩ | ⟨hempty, -⟩
  · exact decResource_of_opens hcontent
  · exact absurd hempty htitle

omit hlawful hsealed in
theorem listResources_revealDb (pageSize : Nat) (token : Option Text) :
    (cipher.revealDb db).listResources pageSize token =
      ((db.listResources pageSize token).1.map cipher.revealResource,
        (db.listResources pageSize token).2) := by
  rw [Db.listResources, liveResources_revealDb]
  exact createdPage_map (fun _ => rfl) (fun _ => rfl) db.liveResources pageSize token

theorem listResources_iff (pageSize : Nat) (token : Option Text) (rng : Rng) :
    some ((listResources cipher ⟨db, rng⟩ pageSize token).map Answer.resources) =
        some (.ok (.resources ((cipher.revealDb db).listResources pageSize token))) ↔
      ∀ resource ∈ (db.listResources pageSize token).1, resource.title ≠ "" := by
  constructor
  · intro hsame resource hresource htitle
    obtain ⟨failure, hfailure⟩ := mapM_eq_error hresource (decResource_of_title hlawful htitle)
    rw [listResources, openPage, hfailure] at hsame
    cases hsame
  · intro htitles
    have hopens : ∀ resource ∈ (db.listResources pageSize token).1,
        cipher.decResource resource = .ok (cipher.revealResource resource) :=
      fun resource hresource =>
        hsealed.decResource_of_live (mem_of_selectPage hresource) (htitles resource hresource)
    rw [listResources, openPage_eq_ok hopens, listResources_revealDb]
    rfl

omit hlawful in
theorem Sealed.isUuid_of_live {resource : Resource} (hresource : resource ∈ db.liveResources) :
    IsUuid resource.id := by
  obtain ⟨id, row, hrow, rfl, -⟩ := mem_selectLive.mp hresource
  exact (hsealed.resources id row hrow).1

omit hlawful in
theorem Sealed.nodup_resourceKeys : (db.liveResources.map resourceKey).Nodup :=
  nodup_createdKeys (nodup_selectLive fun _ _ => rfl) fun _ hresource =>
    hsealed.isUuid_of_live hresource

/-- The token says the same of the resources of the note as a text and as an id. -/
def TokenAgrees (db : Db) (noteId : Uuid) (token : Option Text) : Prop :=
  ∀ resource ∈ db.liveResources, resource.noteId = noteId →
    resourceIsAfter token resource =
      passesCreated Resource.createdAt Resource.id (parseCursor token) resource

omit hlawful in
/-- The scan of the opened resources has the page of the query. -/
theorem Sealed.paginateResources_iff (noteId : Uuid) (pageSize : Nat) (token : Option Text) :
    paginateResources
        (((sortBy resourceKey db.liveResources).map cipher.revealResource).filter
          fun resource => resource.noteId = noteId) pageSize token =
        (cipher.revealDb db).listResourcesForNote noteId pageSize token ↔
      TokenAgrees db noteId token := by
  have hnote : ∀ resources : List Resource,
      (resources.map cipher.revealResource).filter (fun resource => resource.noteId = noteId) =
        (resources.filter fun resource => resource.noteId = noteId).map cipher.revealResource :=
    fun resources => List.filter_map
  have hkeys : (((db.liveResources.filter fun resource => resource.noteId = noteId).map
      cipher.revealResource).map resourceKey).Nodup := by
    rw [List.map_map]
    exact hsealed.nodup_resourceKeys.sublist (List.filter_sublist.map resourceKey)
  have hids : ∀ resource ∈ (db.liveResources.filter fun resource => resource.noteId = noteId).map
      cipher.revealResource, IsUuid resource.id := by
    intro resource hresource
    obtain ⟨sealed, hsealedMem, rfl⟩ := List.mem_map.mp hresource
    have hid : IsUuid sealed.id := hsealed.isUuid_of_live (List.mem_of_mem_filter hsealedMem)
    exact hid
  have hsorted : sortBy resourceKey ((db.liveResources.filter fun resource =>
      resource.noteId = noteId).map cipher.revealResource) =
        (sortBy resourceKey (db.liveResources.filter fun resource =>
          resource.noteId = noteId)).map cipher.revealResource :=
    sortBy_map (fun _ => rfl) _
  rw [Db.listResourcesForNote, liveResources_revealDb, hnote, hnote,
    filter_sortBy hsealed.nodup_resourceKeys, ← hsorted, paginateResources_eq_iff hids hkeys]
  simp only [List.forall_mem_map, List.mem_filter, decide_eq_true_eq, and_imp, TokenAgrees]
  rfl

theorem listResourcesForNote_iff {fuel : Nat} (hfuel : db.liveResources.length < fuel)
    (noteId : Uuid) (pageSize : Nat) (token : Option Text) (rng : Rng) :
    ((listResourcesForNote cipher ⟨db, rng⟩ fuel noteId pageSize token).map fun found =>
        found.map Answer.resources) =
        some (.ok (.resources ((cipher.revealDb db).listResourcesForNote noteId pageSize token))) ↔
      (∀ resource ∈ db.liveResources, resource.title ≠ "") ∧ TokenAgrees db noteId token := by
  have htokens : followTokens (db.listResources 0) fuel none =
      some (sortBy resourceKey db.liveResources) :=
    followTokens_createdPage hsealed.nodup_resourceKeys 0 hfuel
  have hscan : followPages (listResources cipher ⟨db, rng⟩ 0) fuel none =
      some ((sortBy resourceKey db.liveResources).mapM cipher.decResource) :=
    followPages_openPage htokens
  rw [listResourcesForNote, hscan, Option.map_some, Option.map_some]
  by_cases htitles : ∀ resource ∈ db.liveResources, resource.title ≠ ""
  · have hopens : ∀ resource ∈ sortBy resourceKey db.liveResources,
        cipher.decResource resource = .ok (cipher.revealResource resource) := by
      intro resource hresource
      rw [mem_sortBy] at hresource
      exact hsealed.decResource_of_live hresource (htitles resource hresource)
    rw [mapM_eq_ok hopens, ← hsealed.paginateResources_iff noteId pageSize token,
      and_iff_right htitles]
    simp only [Except.map, Option.some.injEq, Except.ok.injEq, Answer.resources.injEq]
  · refine iff_of_false (fun hsame => htitles fun resource hresource htitle => ?_)
      fun hclear => htitles hclear.1
    have hmem : resource ∈ sortBy resourceKey db.liveResources := mem_sortBy.mpr hresource
    obtain ⟨failure, hfailure⟩ := mapM_eq_error hmem (decResource_of_title hlawful htitle)
    rw [hfailure] at hsame
    cases hsame

omit hlawful hsealed in
theorem notebookSortProfile_revealDb (notebookId : Uuid) :
    Db.notebookSortProfile notebookId (cipher.revealDb db) =
      Db.notebookSortProfile notebookId db := by
  have hnotes : (cipher.revealDb db).collectNotes = db.collectNotes.map cipher.revealNote := by
    have hrow : ∀ id row, rowToNote id (cipher.revealNoteRow row) =
        cipher.revealNote (rowToNote id row) := fun _ _ => rfl
    have hlive : selectLive (mapRows cipher.revealNoteRow db.notes) rowToNote Note.deletedAt =
        (selectLive db.notes rowToNote Note.deletedAt).map cipher.revealNote :=
      selectLive_mapRows hrow (fun _ => rfl) db.notes
    refine (congrArg (List.insertionSort _) hlive).trans ?_
    refine (List.map_insertionSort _ _ _ _ fun note _ other _ => ?_).symm
    exact Iff.rfl
  rw [Db.notebookSortProfile, Db.notebookSortProfile, hnotes, List.filter_map, List.map_map]
  rfl

/-- What a query comes by was sealed, as far as it has to be opened. -/
def Clear (db : Db) : RepositoryQuery → Prop
  | .readNote id => ∀ note, db.readNote id = .ok note → note.title ≠ ""
  | .readNotebook id => ∀ notebook, db.readNotebook id = .ok notebook → notebook.title ≠ ""
  | .readTag id => ∀ tag, db.readTag id = .ok tag → tag.title ≠ ""
  | .readResource id => ∀ item, db.readResource id = .ok item → item.2 ≠ []
  | .listResources pageSize token =>
      ∀ resource ∈ (db.listResources pageSize token).1, resource.title ≠ ""
  | .listResourcesForNote noteId _ token =>
      (∀ resource ∈ db.liveResources, resource.title ≠ "") ∧ TokenAgrees db noteId token
  | _ => True

theorem answer_iff {fuel : Nat} (hfuel : db.liveResources.length < fuel) (rng : Rng)
    (query : RepositoryQuery) :
    EncryptedBackend.answer cipher ⟨db, rng⟩ fuel query =
        some ((cipher.revealDb db).answer query) ↔ Clear db query := by
  cases query with
  | readNote id => exact readNote_iff hlawful hsealed id
  | readNotebook id => exact readNotebook_iff hlawful hsealed id
  | readTag id => exact readTag_iff hlawful hsealed id
  | readResource id => exact readResource_iff hsealed id rng
  | listResources pageSize token => exact listResources_iff hlawful hsealed pageSize token rng
  | listResourcesForNote noteId pageSize token =>
      exact listResourcesForNote_iff hlawful hsealed hfuel noteId pageSize token rng
  | listNotes pageSize token =>
      refine iff_of_true ?_ trivial
      rw [EncryptedBackend.answer, hsealed.openPage_listNotes pageSize token]
      rfl
  | listNotesInNotebook notebookId pageSize token =>
      refine iff_of_true ?_ trivial
      rw [EncryptedBackend.answer, hsealed.openPage_listNotebookNotes notebookId pageSize token]
      rfl
  | listStarredNotes pageSize token =>
      refine iff_of_true ?_ trivial
      rw [EncryptedBackend.answer, hsealed.openPage_listStarredNotes pageSize token]
      rfl
  | noteBacklinks target pageSize token =>
      refine iff_of_true ?_ trivial
      rw [EncryptedBackend.answer, hsealed.openPage_noteBacklinks target pageSize token]
      rfl
  | notebookSortProfile notebookId =>
      refine iff_of_true ?_ trivial
      rw [EncryptedBackend.answer, Db.answer, notebookSortProfile_revealDb]
  | listNotebooks pageSize token =>
      refine iff_of_true ?_ trivial
      rw [EncryptedBackend.answer, hsealed.openPage_listNotebooks pageSize token]
      rfl
  | listTags pageSize token =>
      refine iff_of_true ?_ trivial
      rw [EncryptedBackend.answer, hsealed.openPage_listTags pageSize token]
      rfl
  | listNoteTags noteId pageSize token =>
      refine iff_of_true ?_ trivial
      rw [EncryptedBackend.answer, hsealed.openPage_listNoteTags noteId pageSize token]
      rfl
  | noteHistory id limit server peer =>
      refine iff_of_true ?_ trivial
      have hversions : openVersions cipher.decNote (Db.entityHistory (Change.noteVersion? id)
          (server.mapM (sealVersions cipher.encNote) peer).1 limit db) =
            .ok (Db.entityHistory (Change.noteVersion? id) server limit (cipher.revealDb db)) := by
        cases server with
        | some versions => exact undoes_sealVersions (undoes_encNote hlawful) versions peer
        | none =>
            exact hsealed.openVersions_history (noteVersion?_revealChange id)
              (fun _ _ hchange hversion => decNote_of_noteVersion hchange hversion) limit
      rw [EncryptedBackend.answer, hversions]
      rfl
  | notebookHistory id limit server peer =>
      refine iff_of_true ?_ trivial
      have hversions : openVersions cipher.decNotebook (Db.entityHistory
          (Change.notebookVersion? id)
          (server.mapM (sealVersions cipher.encNotebook) peer).1 limit db) =
            .ok (Db.entityHistory (Change.notebookVersion? id) server limit
              (cipher.revealDb db)) := by
        cases server with
        | some versions => exact undoes_sealVersions (undoes_encNotebook hlawful) versions peer
        | none =>
            exact hsealed.openVersions_history (notebookVersion?_revealChange id)
              (fun _ _ hchange hversion => decNotebook_of_notebookVersion hchange hversion) limit
      rw [EncryptedBackend.answer, hversions]
      rfl

end Reads

theorem sealed_empty (deviceId : String) : cipher.Sealed (.empty deviceId) := by
  refine ⟨?_, ?_, ?_, ?_, ?_⟩
  · exact fun id row hrow => by simp [Db.empty] at hrow
  · exact fun id row hrow => by simp [Db.empty] at hrow
  · exact fun id row hrow => by simp [Db.empty] at hrow
  · exact fun id row hrow => by simp [Db.empty] at hrow
  · exact fun entry hentry => by simp [Db.empty] at hentry

theorem revealDb_empty (deviceId : String) : cipher.revealDb (.empty deviceId) =
    .empty deviceId := by
  have hmap : ∀ {R : Type} (change : R → R), mapRows change (∅ : Table R) = ∅ := fun change =>
    Std.ExtTreeMap.ext_getElem? fun key => by simp
  simp only [revealDb, Db.empty, hmap, List.map_nil]

/-- After any calls, those with changes that peers have sealed included, a query
through the decorator answers what it answers of a database with the plain entities
just if what it comes by was sealed. -/
theorem answer_serveAll_iff (hlawful : cipher.Lawful) (deviceId : String) (rng : Rng)
    {calls : List RepositoryCall} (hids : ∀ call ∈ calls, call.NamesUuid) (query : RepositoryQuery)
    {fuel : Nat} (hfuel : ((Db.empty deviceId).serveAll calls).liveResources.length < fuel) :
    EncryptedBackend.answer cipher
        (EncryptedBackend.serveAll cipher ⟨.empty deviceId, rng⟩ calls) fuel query =
        some (((Db.empty deviceId).serveAll calls).answer query) ↔
      Clear (EncryptedBackend.serveAll cipher ⟨.empty deviceId, rng⟩ calls).inner query := by
  have hsealed : cipher.Sealed
      (EncryptedBackend.serveAll cipher ⟨.empty deviceId, rng⟩ calls).inner :=
    (sealed_empty deviceId).serveAll hlawful hids
  have hplain := revealDb_serveAll hlawful ⟨.empty deviceId, rng⟩ calls
  rw [revealDb_empty] at hplain
  rw [← hplain, liveResources_revealDb, List.length_map] at hfuel
  rw [← hplain]
  exact answer_iff hlawful hsealed hfuel _ query

end Cipher

namespace TransparencyWitness

/-- A text with a character for each byte. -/
def texted (bytes : List UInt8) : String :=
  String.ofList (bytes.map fun byte => Char.ofNat byte.toNat)

def cipher : Cipher where
  encrypt _ plain := plain.map fun byte => byte + 1
  decrypt _ sealed := some (sealed.map fun byte => byte - 1)
  encode := texted
  decode text := some (text.toList.map fun c => UInt8.ofNat c.toNat)

theorem toNat_ofNat_byte (byte : UInt8) : (Char.ofNat byte.toNat).toNat = byte.toNat := by
  have hvalid : byte.toNat.isValidChar := .inl (byte.toNat_lt.trans (by decide))
  rw [Char.ofNat, dif_pos hvalid]
  rfl

theorem lawful : cipher.Lawful where
  decrypt_encrypt := by
    intro nonce plain
    have hbyte : ∀ byte : UInt8, byte + 1 - 1 = byte := fun byte => UInt8.add_sub_cancel byte 1
    simp only [cipher, List.map_map, Function.comp_def, hbyte, List.map_id']
  decode_encode := by
    intro bytes
    simp only [cipher, texted, String.toList_ofList, List.map_map, Function.comp_def,
      toNat_ofNat_byte, UInt8.ofNat_toNat, List.map_id']
  encode_nil := rfl

def nonces : Rng := fun _ => ⟨List.replicate NONCE_LEN 0, rfl⟩

def tag (title : String) : Tag := ⟨5, title, 0, 0, none, ∅, "A", false⟩

/-- A peer has made a tag and deleted it, and only the delete arrives. -/
def deleted : List RepositoryCall :=
  [.applyChange (.tagDelete 6 1 ((∅ : VersionVector).increment "B") "B") nonces,
    .createTag (tag "work") 2]

theorem namesUuid_deleted : ∀ call ∈ deleted, call.NamesUuid := by
  intro call hcall
  simp only [deleted, List.mem_cons, List.not_mem_nil, or_false] at hcall
  rcases hcall with rfl | rfl
  · intro id hid
    contradiction
  · exact trivial

/-- The tombstone does not open, and a plain database has it. -/
theorem readTag_deleted :
    (EncryptedBackend.answer cipher
        (EncryptedBackend.serveAll cipher ⟨.empty "A", nonces⟩ deleted) 1 (.readTag 6)).map
          Except.isOk = some false ∧
      (((Db.empty "A").serveAll deleted).answer (.readTag 6)).isOk = true := by
  decide +kernel

theorem answer_opaque :
    ¬ ∀ (cipher : Cipher) (deviceId : String) (rng : Rng) (calls : List RepositoryCall)
      (query : RepositoryQuery) (fuel : Nat), cipher.Lawful →
      (∀ call ∈ calls, call.NamesUuid) →
      ((Db.empty deviceId).serveAll calls).liveResources.length < fuel →
        EncryptedBackend.answer cipher
            (EncryptedBackend.serveAll cipher ⟨.empty deviceId, rng⟩ calls) fuel query =
          some (((Db.empty deviceId).serveAll calls).answer query) := by
  intro htransparent
  obtain ⟨hsealed, hplain⟩ := readTag_deleted
  rw [htransparent cipher "A" nonces deleted (.readTag 6) 1 lawful namesUuid_deleted
    (by decide +kernel),
    Option.map_some, hplain] at hsealed
  contradiction

/-- What was sealed is read as it is in a plain database. -/
theorem readTag_created :
    EncryptedBackend.answer cipher
        (EncryptedBackend.serveAll cipher ⟨.empty "A", nonces⟩ deleted) 1 (.readTag 5) =
      some (((Db.empty "A").serveAll deleted).answer (.readTag 5)) := by
  refine (Cipher.answer_serveAll_iff lawful "A" nonces namesUuid_deleted (.readTag 5)
    (by decide +kernel)).mpr ?_
  intro tag hread htitle
  have htitles : (((EncryptedBackend.serveAll cipher ⟨.empty "A", nonces⟩ deleted).inner.readTag
      5).map fun tag => decide (tag.title = "")) = .ok false := by
    decide +kernel
  rw [hread] at htitles
  simp [Except.map, htitle] at htitles

end TransparencyWitness

end Keeplin
