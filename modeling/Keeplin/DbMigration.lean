/-
Databases as the two ends of a migration.  The listings of a database have its live rows,
and an empty one creates what it is given.
-/
import Keeplin.DbFrames
import Keeplin.Migrate
import Keeplin.TransparentReads

namespace Keeplin

open MigrationBackend

namespace Db

def migrationBackend : MigrationBackend Db DbClock where
  listNotebooks pageSize token db := .ok (db.listNotebooks pageSize token)
  listTags pageSize token db := .ok (db.listTags pageSize token)
  listNotes pageSize token db := .ok (db.listNotes pageSize token)
  listNoteTags noteId pageSize token db := .ok (db.listNoteTags noteId pageSize token)
  listResources pageSize token db := .ok (db.listResources pageSize token)
  readResource id db := db.readResource id
  createNotebook clock notebook db := db.serve (.createNotebook notebook clock.changedAt)
  createTag clock tag db := db.serve (.createTag tag clock.changedAt)
  createNote clock note db := db.serve (.createNote note clock.changedAt)
  addNoteTag clock noteTag db := db.serve (.addNoteTag noteTag clock.ts clock.changedAt)
  createResource clock resource data db :=
    db.serve (.createResource resource data clock.changedAt)

variable (db : Db)

/-- The live row of an id, read. -/
def liveAt {R A : Type} (table : Table R) (ofRow : Uuid → R → A) (deletedAt : A → Option DateTime)
    (id : Uuid) : Option A :=
  (table[id]?.map (ofRow id)).filter fun item => deletedAt item = none

def contents : Contents where
  notebook := liveAt db.notebooks rowToNotebook Notebook.deletedAt
  tag := liveAt db.tags rowToTag Tag.deletedAt
  note := liveAt db.notes rowToNote Note.deletedAt
  attached pair := db.noteIsLive pair.1 && db.tagIsLive pair.2 &&
    db.noteTags[pair]?.any fun row => row.deletedAt = none
  resource id := (db.readResource id).toOption

/-- All ids have 128 bits. -/
structure AllUuids : Prop where
  notebooks : ∀ id ∈ db.notebooks, IsUuid id
  tags : ∀ id ∈ db.tags, IsUuid id
  notes : ∀ id ∈ db.notes, IsUuid id
  resources : ∀ id ∈ db.resources, IsUuid id

def listing : Listing where
  notebooks := sortBy (createdKey Notebook.createdAt Notebook.id) db.liveNotebooks
  tags := sortBy (createdKey Tag.createdAt Tag.id) db.liveTags
  notes := sortBy (rowKey db.createdText) (liveNoteRows db.notes)
  noteTags noteId := sortBy (createdKey Tag.createdAt Tag.id) (db.attachedTags noteId)
  resources := sortBy (createdKey Resource.createdAt Resource.id) db.liveResources

/-- More pages than any listing has. -/
def Enough (fuel : Nat) : Prop :=
  db.liveNotebooks.length < fuel ∧ db.liveTags.length < fuel ∧
    (liveNoteRows db.notes).length < fuel ∧ db.liveResources.length < fuel

section Source

variable {db} {fuel : Nat}

theorem followPages_of_tokens {A : Type} {page : Option Text → List A × Option Text}
    {items : List A} {token : Option Text} (htokens : followTokens page fuel token = some items) :
    followPages (fun token => .ok (page token)) fuel token = some (.ok items) := by
  induction fuel generalizing token items with
  | zero => contradiction
  | succ fuel ih =>
      rw [followTokens] at htokens
      rw [followPages]
      cases hpage : page token with
      | mk found next =>
          rw [hpage] at htokens
          cases next with
          | none =>
              obtain rfl := Option.some.inj htokens
              rfl
          | some next =>
              obtain ⟨rest, hrest, rfl⟩ := Option.map_eq_some_iff.mp htokens
              simp only [ih hrest]
              rfl

theorem liveAt_eq_some {R A : Type} {table : Table R} {ofRow : Uuid → R → A}
    {deletedAt : A → Option DateTime} {idOf : A → Uuid}
    (hid : ∀ key row, idOf (ofRow key row) = key) (id : Uuid) (item : A) :
    liveAt table ofRow deletedAt id = some item ↔
      item ∈ selectLive table ofRow deletedAt ∧ idOf item = id := by
  rw [liveAt, Option.filter_eq_some_iff, Option.map_eq_some_iff, mem_selectLive]
  simp only [decide_eq_true_eq]
  constructor
  · rintro ⟨⟨row, hrow, rfl⟩, hlive⟩
    exact ⟨⟨id, row, hrow, rfl, hlive⟩, hid id row⟩
  · rintro ⟨⟨key, row, hrow, rfl, hlive⟩, hkey⟩
    rw [hid] at hkey
    subst hkey
    exact ⟨⟨row, hrow, rfl⟩, hlive⟩

theorem liveNote_eq_some (id : Uuid) (note : Note) :
    liveAt db.notes rowToNote Note.deletedAt id = some note ↔
      note ∈ liveNoteRows db.notes ∧ note.id = id := by
  rw [liveAt, Option.filter_eq_some_iff, Option.map_eq_some_iff, mem_liveNoteRows]
  simp only [decide_eq_true_eq]
  constructor
  · rintro ⟨⟨row, hrow, rfl⟩, hlive⟩
    exact ⟨⟨row, hrow, rfl, hlive⟩, rfl⟩
  · rintro ⟨⟨row, hrow, hnote, hlive⟩, rfl⟩
    exact ⟨⟨row, hrow, hnote⟩, by rw [← hnote]; exact hlive⟩

/-- Following the pages of rows with ids of their own visits each of them. -/
theorem followPages_created {R A : Type} {table : Table R} {createdAt : A → DateTime}
    {idOf : A → Uuid} {items : List A} (hnodup : (items.map idOf).Nodup)
    (hids : ∀ id ∈ table, IsUuid id) (hmem : ∀ item ∈ items, idOf item ∈ table)
    (hfuel : items.length < fuel) (pageSize : Nat) :
    followPages (fun token => .ok (createdPage createdAt idOf items pageSize token)) fuel none =
      some (.ok (sortBy (createdKey createdAt idOf) items)) :=
  followPages_of_tokens (followTokens_createdPage
    (nodup_createdKeys hnodup fun item hitem => hids _ (hmem item hitem)) pageSize hfuel)

theorem mem_table_of_live {R A : Type} {table : Table R} {ofRow : Uuid → R → A}
    {deletedAt : A → Option DateTime} {idOf : A → Uuid}
    (hid : ∀ key row, idOf (ofRow key row) = key) {item : A}
    (hitem : item ∈ selectLive table ofRow deletedAt) : idOf item ∈ table := by
  obtain ⟨key, row, hrow, rfl, -⟩ := mem_selectLive.mp hitem
  rw [hid, Std.ExtTreeMap.mem_iff_isSome_getElem?, hrow]
  rfl

theorem followPages_listNotes (hids : ∀ id ∈ db.notes, IsUuid id)
    (hfuel : (liveNoteRows db.notes).length < fuel) (pageSize : Nat) :
    followPages (fun token => .ok (db.listNotes pageSize token)) fuel none =
      some (.ok (sortBy (rowKey db.createdText) (liveNoteRows db.notes))) := by
  have hkeys := nodup_liveKeys hids
  have hsorted := pairwise_sortBy hkeys
  have htoken : ∀ note ∈ sortBy (rowKey db.createdText) (liveNoteRows db.notes),
      rowKey db.createdText note = tokenKey note :=
    fun note hnote => rowKey_of_live (mem_sortBy.mp hnote)
  refine followPages_of_tokens ((followTokens_queryPage hkeys pageSize _ none).trans
    (walk_of_separated hsorted (fun note hnote => le_of_eq (htoken note hnote)) ?_
      (effectivePageSize_pos pageSize) afterCursor_none ?_))
  · exact hsorted.imp_of_mem fun hnote _ hlt => htoken _ hnote ▸ hlt
  · rw [(perm_sortBy _).length_eq]
    exact hfuel

theorem mem_attachedTags {noteId : Uuid} {tag : Tag} :
    tag ∈ db.attachedTags noteId ↔ tag ∈ db.liveTags ∧
      (db.noteTags[(noteId, tag.id)]?.any fun row => row.deletedAt = none) = true :=
  List.mem_filter

theorem noteIsLive_iff (id : Uuid) :
    db.noteIsLive id = true ↔ ∃ note ∈ liveNoteRows db.notes, note.id = id := by
  rw [noteIsLive]
  constructor
  · intro hlive
    split at hlive
    · next row hrow =>
        refine ⟨rowToNote id row, mem_liveNoteRows.mpr ⟨row, hrow, rfl, ?_⟩, rfl⟩
        exact Option.isNone_iff_eq_none.mp hlive
    · contradiction
  · rintro ⟨note, hnote, rfl⟩
    obtain ⟨row, hrow, -, hlive⟩ := mem_liveNoteRows.mp hnote
    simp [hrow, hlive]

theorem tagIsLive_iff (id : Uuid) :
    db.tagIsLive id = true ↔ ∃ tag ∈ db.liveTags, tag.id = id := by
  rw [tagIsLive]
  constructor
  · intro hlive
    split at hlive
    · next row hrow =>
        refine ⟨rowToTag id row, mem_selectLive.mpr ⟨id, row, hrow, rfl, ?_⟩, rfl⟩
        exact Option.isNone_iff_eq_none.mp hlive
    · contradiction
  · rintro ⟨tag, htag, rfl⟩
    obtain ⟨key, row, hrow, rfl, hlive⟩ := mem_selectLive.mp htag
    have hdeleted : row.deletedAt = none := hlive
    have hid : (rowToTag key row).id = key := rfl
    simp [hid, hrow, hdeleted]

theorem nodup_sortBy {A K : Type} [LinearOrder K] {key : A → K} {idOf : A → Uuid} {items : List A}
    (hnodup : (items.map idOf).Nodup) : ((sortBy key items).map idOf).Nodup :=
  ((perm_sortBy items).map idOf).nodup_iff.mpr hnodup

theorem nodup_attachments : (db.listing.attachments db.listing.notes).Nodup := by
  have hnotes : (db.listing.notes.map Note.id).Nodup := nodup_sortBy (nodup_liveNoteRows db.notes)
  rw [Listing.attachments, List.nodup_flatMap]
  constructor
  · intro note hnote
    have htags : ((db.attachedTags note.id).map Tag.id).Nodup :=
      (nodup_selectLive fun _ _ => rfl).sublist (List.filter_sublist.map Tag.id)
    have hpairs : (fun tag : Tag => (note.id, tag.id)) = (fun id => (note.id, id)) ∘ Tag.id := rfl
    rw [hpairs, ← List.map_map]
    exact (nodup_sortBy htags).map fun first second heq => (Prod.mk.inj heq).2
  · rw [List.Nodup, List.pairwise_map] at hnotes
    refine hnotes.imp fun {note other} hne pair hpair hother => ?_
    obtain ⟨tag, -, rfl⟩ := List.mem_map.mp hpair
    obtain ⟨same, -, heq⟩ := List.mem_map.mp hother
    exact hne (Prod.mk.inj heq).1.symm

theorem row_of_readResource {id : Uuid} {row : Resource × List UInt8}
    (hread : db.readResource id = .ok row) :
    ∃ found, db.resources[id]? = some found ∧ rowToResource id found = row.1 ∧
      found.deletedAt = none := by
  rw [readResource] at hread
  split at hread
  · contradiction
  · next found hfound =>
      split at hread
      · contradiction
      · next hlive =>
          split at hread
          · obtain rfl := Except.ok.inj hread
            exact ⟨found, hfound, rfl, not_not.mp hlive⟩
          · contradiction

theorem toOption_eq_some {E A : Type} {result : Except E A} {item : A} :
    result.toOption = some item ↔ result = .ok item := by
  cases result <;> simp [Except.toOption]

/-- The listings of a database with proper ids have what it shows. -/
theorem lists (hids : db.AllUuids) (hfuel : db.Enough fuel) :
    migrationBackend.Lists fuel db db.contents db.listing where
  notebooks := followPages_created (nodup_selectLive fun _ _ => rfl) hids.notebooks
    (fun notebook => mem_table_of_live fun _ _ => rfl) hfuel.1 migrationPage
  tags := followPages_created (nodup_selectLive fun _ _ => rfl) hids.tags
    (fun tag => mem_table_of_live fun _ _ => rfl) hfuel.2.1 migrationPage
  notes := followPages_listNotes hids.notes hfuel.2.2.1 migrationPage
  noteTags := by
    intro note hnote
    refine followPages_created ?_ hids.tags ?_ ?_ migrationPage
    · exact (nodup_selectLive fun _ _ => rfl).sublist (List.filter_sublist.map Tag.id)
    · exact fun tag htag => mem_table_of_live (fun _ _ => rfl) (mem_attachedTags.mp htag).1
    · exact (List.length_filter_le _ _).trans_lt hfuel.2.1
  resources := followPages_created (nodup_selectLive fun _ _ => rfl) hids.resources
    (fun resource => mem_table_of_live fun _ _ => rfl) hfuel.2.2.2 migrationPage
  notebook id notebook := by
    rw [listing, mem_sortBy]
    exact liveAt_eq_some (fun _ _ => rfl) id notebook
  tag id tag := by
    rw [listing, mem_sortBy]
    exact liveAt_eq_some (fun _ _ => rfl) id tag
  note id note := by
    rw [listing, mem_sortBy]
    exact liveNote_eq_some id note
  attached := by
    rintro ⟨noteId, tagId⟩
    simp only [contents, Bool.and_eq_true, noteIsLive_iff, tagIsLive_iff, Listing.attachments,
      List.mem_flatMap, List.mem_map, Prod.mk.injEq, listing, mem_sortBy, mem_attachedTags]
    constructor
    · rintro ⟨⟨⟨note, hnote, rfl⟩, tag, htag, rfl⟩, hattached⟩
      exact ⟨note, hnote, tag, ⟨htag, hattached⟩, rfl, rfl⟩
    · rintro ⟨note, hnote, tag, ⟨htag, hattached⟩, rfl, rfl⟩
      exact ⟨⟨⟨note, hnote, rfl⟩, tag, htag, rfl⟩, hattached⟩
  resource id row := by
    rw [contents, toOption_eq_some]
    refine ⟨fun hread => ⟨?_, hread⟩, And.right⟩
    obtain ⟨found, hfound, -, hlive⟩ := row_of_readResource hread
    refine ⟨rowToResource id found, ?_, rfl⟩
    exact mem_sortBy.mpr (mem_selectLive.mpr ⟨id, found, hfound, rfl, hlive⟩)
  tagged note hnote tag htag := by
    simp only [listing, mem_sortBy] at htag ⊢
    exact (mem_attachedTags.mp htag).1
  nodup_notebooks := nodup_sortBy (nodup_selectLive fun _ _ => rfl)
  nodup_tags := nodup_sortBy (nodup_selectLive fun _ _ => rfl)
  nodup_notes := nodup_sortBy (nodup_liveNoteRows db.notes)
  nodup_attachments := nodup_attachments
  nodup_resources := nodup_sortBy (nodup_selectLive fun _ _ => rfl)
  live_notebooks notebook hnotebook := by
    obtain ⟨_, _, _, _, hlive⟩ := mem_selectLive.mp (mem_sortBy.mp hnotebook)
    exact hlive
  live_tags tag htag := by
    obtain ⟨_, _, _, _, hlive⟩ := mem_selectLive.mp (mem_sortBy.mp htag)
    exact hlive
  live_notes note hnote := by
    obtain ⟨row, -, hsame, hlive⟩ := mem_liveNoteRows.mp (mem_sortBy.mp hnote)
    rw [← hsame]
    exact hlive
  read := by
    intro id row hread
    obtain ⟨found, -, hrow, hlive⟩ := row_of_readResource hread
    rw [← hrow]
    exact ⟨rfl, hlive⟩

end Source

/-- Ids that no row has, nor an association. -/
def Unused (db : Db) : Entity → Prop
  | .notebook id => db.notebooks[id]? = none
  | .tag id => db.tags[id]? = none ∧ ∀ noteId : Uuid, db.noteTags[(noteId, id)]? = none
  | .note id => db.notes[id]? = none ∧ ∀ tagId : Uuid, db.noteTags[(id, tagId)]? = none
  | .noteTag noteId tagId => db.noteTags[(noteId, tagId)]? = none
  | .resource id => db.resources[id]? = none

section Destination

variable {db} {after : Db}

theorem unused_of_frame {changed entity : Entity} (hframe : Frame changed db after)
    (hnoteTags : after.noteTags = db.noteTags)
    (hresources : ∀ id, changed ≠ .resource id → after.resources[id]? = db.resources[id]?)
    (hne : entity ≠ changed) (hunused : db.Unused entity) : after.Unused entity := by
  cases entity with
  | notebook id => exact (hframe.notebooks id hne.symm).trans hunused
  | tag id =>
      exact ⟨(hframe.tags id hne.symm).trans hunused.1, by rw [hnoteTags]; exact hunused.2⟩
  | note id =>
      exact ⟨(hframe.notes id hne.symm).trans hunused.1, by rw [hnoteTags]; exact hunused.2⟩
  | noteTag noteId tagId =>
      rw [Unused, hnoteTags]
      exact hunused
  | resource id => exact (hresources id hne.symm).trans hunused

theorem liveAt_insert {R A : Type} {table : Table R} {ofRow : Uuid → R → A}
    {deletedAt : A → Option DateTime} {id : Uuid} {row : R}
    (hlive : deletedAt (ofRow id row) = none) :
    liveAt (table.insert id row) ofRow deletedAt =
      Function.update (liveAt table ofRow deletedAt) id (some (ofRow id row)) := by
  funext other
  rw [liveAt]
  by_cases hother : other = id
  · subst hother
    simp [hlive]
  · rw [getElem?_insert_of_ne (Ne.symm hother), Function.update_of_ne hother, liveAt]

theorem contains_eq_false {R : Type} {table : Table R} {id : Uuid} (hnone : table[id]? = none) :
    table.contains id = false := by
  rw [Std.ExtTreeMap.contains_eq_isSome_getElem?, hnone]
  rfl

/-- A row of a new note brings no association with it. -/
theorem attached_of_newNote {note : Note} {row : NoteRow}
    (hnotes : after.notes = db.notes.insert note.id row) (htags : after.tags = db.tags)
    (hnoteTags : after.noteTags = db.noteTags) (hunused : db.Unused (.note note.id))
    (pair : Uuid × Uuid) :
    (after.noteIsLive pair.1 && after.tagIsLive pair.2 &&
      after.noteTags[pair]?.any fun row => row.deletedAt = none) =
    (db.noteIsLive pair.1 && db.tagIsLive pair.2 &&
      db.noteTags[pair]?.any fun row => row.deletedAt = none) := by
  by_cases hid : pair.1 = note.id
  · have hnone : db.noteTags[pair]? = none := by
      have hfree := hunused.2 pair.2
      rwa [← hid] at hfree
    simp [hnoteTags, hnone]
  · rw [noteIsLive, noteIsLive, hnotes, getElem?_insert_of_ne (Ne.symm hid), hnoteTags, tagIsLive,
      tagIsLive, htags]

/-- A row of a new tag brings no association with it. -/
theorem attached_of_newTag {tag : Tag} {row : TagRow} (hnotes : after.notes = db.notes)
    (htags : after.tags = db.tags.insert tag.id row) (hnoteTags : after.noteTags = db.noteTags)
    (hunused : db.Unused (.tag tag.id)) (pair : Uuid × Uuid) :
    (after.noteIsLive pair.1 && after.tagIsLive pair.2 &&
      after.noteTags[pair]?.any fun row => row.deletedAt = none) =
    (db.noteIsLive pair.1 && db.tagIsLive pair.2 &&
      db.noteTags[pair]?.any fun row => row.deletedAt = none) := by
  by_cases hid : pair.2 = tag.id
  · have hnone : db.noteTags[pair]? = none := by
      have hfree := hunused.2 pair.1
      rwa [← hid] at hfree
    simp [hnoteTags, hnone]
  · rw [noteIsLive, noteIsLive, hnotes, hnoteTags, tagIsLive, tagIsLive, htags,
      getElem?_insert_of_ne (Ne.symm hid)]

theorem noteIsLive_of_contents {id : Uuid} (hnote : db.contents.note id ≠ none) :
    db.noteIsLive id = true := by
  obtain ⟨note, hfound⟩ := Option.ne_none_iff_exists'.mp hnote
  obtain ⟨hmem, hid⟩ := (liveNote_eq_some id note).mp hfound
  exact (noteIsLive_iff id).mpr ⟨note, hmem, hid⟩

theorem tagIsLive_of_contents {id : Uuid} (htag : db.contents.tag id ≠ none) :
    db.tagIsLive id = true := by
  obtain ⟨tag, hfound⟩ := Option.ne_none_iff_exists'.mp htag
  obtain ⟨hmem, hid⟩ := (@liveAt_eq_some _ _ _ rowToTag _ Tag.id (fun _ _ => rfl) id tag).mp hfound
  exact (tagIsLive_iff id).mpr ⟨tag, hmem, hid⟩

theorem getElem?_insertPair_of_ne {R : Type} {table : AssocTable R} {key other : Uuid × Uuid}
    {row : R} (hne : key ≠ other) : (table.insert key row)[other]? = table[other]? := by
  rw [Std.ExtTreeMap.getElem?_insert]
  simp [hne]

/-- The bytes of the resource that a row is inserted for can be read, and the others stay. -/
theorem readResource_insert {id : Uuid} {row : ResourceRow} {data : List UInt8}
    (hresources : after.resources = db.resources.insert id row) (hlive : row.deletedAt = none)
    (hdata : row.data = some data) (other : Uuid) :
    (after.readResource other).toOption =
      Function.update (fun id => (db.readResource id).toOption) id
        (some (rowToResource id row, data)) other := by
  by_cases hother : other = id
  · subst hother
    rw [Function.update_self, readResource, hresources]
    simp [hlive, hdata, Except.toOption]
  · rw [Function.update_of_ne hother, readResource, readResource, hresources,
      getElem?_insert_of_ne (Ne.symm hother)]

/-- A database takes what has an id of its own. -/
theorem takes : Takes (fun _ => True) contents Unused migrationBackend where
  createNotebook := by
    intro db now notebook _ hunused hlive
    let stored := { notebook with
      vv := db.nextLocalVv .notebooks notebook.id, lastWriter := db.deviceId }
    let inserted := { db with
      notebooks := db.notebooks.insert notebook.id (NotebookRow.ofNotebook stored) }
    refine ⟨inserted.recordChange now.changedAt (.notebookCreate stored), .notebook stored, stored,
      ?_, rfl, trivial, ?_, ?_⟩
    · simp only [migrationBackend, serve, repositoryCall, createNotebook, contains_eq_false hunused]
      rfl
    · exact congrArg (fun lookup => { db.contents with notebook := lookup })
        (@liveAt_insert _ _ db.notebooks rowToNotebook Notebook.deletedAt notebook.id
          (NotebookRow.ofNotebook stored) hlive)
    · exact fun entity hne => unused_of_frame (.notebook rfl rfl rfl rfl) rfl (fun _ _ => rfl) hne
  createTag := by
    intro db now tag _ hunused hlive
    let stored := { tag with vv := db.nextLocalVv .tags tag.id, lastWriter := db.deviceId }
    let inserted := { db with tags := db.tags.insert tag.id (TagRow.ofTag stored) }
    let after := inserted.recordChange now.changedAt (.tagCreate stored)
    refine ⟨after, .tag stored, stored, ?_, rfl, trivial, ?_, ?_⟩
    · simp only [migrationBackend, serve, repositoryCall, createTag, contains_eq_false hunused.1]
      rfl
    · have htag := @liveAt_insert _ _ db.tags rowToTag Tag.deletedAt tag.id (TagRow.ofTag stored)
        hlive
      have hattached := funext (@attached_of_newTag db after tag (TagRow.ofTag stored) rfl rfl rfl
        hunused)
      exact congrArg₂ (fun lookup attached => { db.contents with
        tag := lookup, attached := attached }) htag hattached
    · exact fun entity hne => unused_of_frame (.tag rfl rfl rfl rfl) rfl (fun _ _ => rfl) hne
  createNote := by
    intro db now note _ hunused hlive
    let stored := { note with vv := db.nextLocalVv .notes note.id, lastWriter := db.deviceId }
    let inserted := { db with notes := db.notes.insert note.id (NoteRow.ofNote stored) }
    let after := (inserted.refreshNoteLinks stored).recordChange now.changedAt (.noteCreate stored)
    refine ⟨after, .note stored, stored, ?_, rfl, trivial, ?_, ?_⟩
    · simp only [migrationBackend, serve, repositoryCall, createNote, contains_eq_false hunused.1]
      rfl
    · have hnote := @liveAt_insert _ _ db.notes rowToNote Note.deletedAt note.id
        (NoteRow.ofNote stored) hlive
      have hattached := funext (@attached_of_newNote db after note (NoteRow.ofNote stored) rfl rfl
        rfl hunused)
      exact congrArg₂ (fun lookup attached => { db.contents with
        note := lookup, attached := attached }) hnote hattached
    · exact fun entity hne => unused_of_frame (.note rfl rfl rfl rfl) rfl (fun _ _ => rfl) hne
  addNoteTag := by
    intro db now noteTag _ hnote htag
    have hnoteLive := noteIsLive_of_contents hnote
    have htagLive := tagIsLive_of_contents htag
    let vv := db.nextAssocVv noteTag.noteId noteTag.tagId
    let upserted := db.upsertAssoc noteTag.noteId noteTag.tagId now.ts none vv db.deviceId
    let after := upserted.recordChange now.changedAt
      (.noteTagAdd noteTag.noteId noteTag.tagId now.ts vv db.deviceId)
    have hother : ∀ pair, pair ≠ (noteTag.noteId, noteTag.tagId) →
        after.noteTags[pair]? = db.noteTags[pair]? :=
      fun pair hne => getElem?_insertPair_of_ne (Ne.symm hne)
    refine ⟨after, .done, ?_, trivial, ?_, ?_⟩
    · simp only [migrationBackend, serve, repositoryCall, addNoteTag, hnoteLive, htagLive]
      rfl
    · refine congrArg (fun attached => { db.contents with attached := attached })
        (funext fun pair => ?_)
      by_cases hpair : pair = (noteTag.noteId, noteTag.tagId)
      · subst hpair
        rw [Function.update_self]
        have hrow : after.noteTags[(noteTag.noteId, noteTag.tagId)]? =
            some ⟨some now.ts, none, vv, db.deviceId⟩ := Std.ExtTreeMap.getElem?_insert_self
        change (db.noteIsLive noteTag.noteId && db.tagIsLive noteTag.tagId &&
          after.noteTags[(noteTag.noteId, noteTag.tagId)]?.any fun row => row.deletedAt = none) = _
        rw [hnoteLive, htagLive, hrow]
        rfl
      · rw [Function.update_of_ne hpair, hother pair hpair]
        rfl
    · intro entity hne hunused
      cases entity with
      | notebook id => exact hunused
      | resource id => exact hunused
      | note id =>
          refine ⟨hunused.1, fun tagId => (hother _ ?_).trans (hunused.2 tagId)⟩
          rintro heq
          rw [noteIsLive, ← (Prod.mk.inj heq).1, hunused.1] at hnoteLive
          contradiction
      | tag id =>
          refine ⟨hunused.1, fun noteId => (hother _ ?_).trans (hunused.2 noteId)⟩
          rintro heq
          rw [tagIsLive, ← (Prod.mk.inj heq).2, hunused.1] at htagLive
          contradiction
      | noteTag noteId tagId =>
          refine (hother _ fun heq => hne ?_).trans hunused
          rw [(Prod.mk.inj heq).1, (Prod.mk.inj heq).2]
  createResource := by
    intro db now resource data _ hunused hlive
    let stored := { resource with
      vv := db.nextResourceVv resource.id, lastWriter := db.deviceId }
    let inserted := { db with
      resources := db.resources.insert resource.id (ResourceRow.ofResource stored data) }
    let after := inserted.recordChange now.changedAt (.resourceCreate stored (some data))
    refine ⟨after, .resource stored, stored, ?_, rfl, trivial, ?_, ?_⟩
    · simp only [migrationBackend, serve, repositoryCall, createResource, contains_eq_false hunused]
      rfl
    · have hread := funext (@readResource_insert db after resource.id
        (ResourceRow.ofResource stored data) data rfl hlive rfl)
      have hstored : rowToResource resource.id (ResourceRow.ofResource stored data) = stored :=
        rowToResource_ofResource stored data
      rw [hstored] at hread
      exact congrArg (fun lookup => { db.contents with resource := lookup }) hread
    · intro entity hne
      refine unused_of_frame (.resource rfl rfl rfl rfl) rfl (fun id hid => ?_) hne
      exact getElem?_insert_of_ne fun heq => hid (by rw [heq])

end Destination

/-- No row has been written. -/
structure Blank : Prop where
  notebooks : ∀ id : Uuid, db.notebooks[id]? = none
  tags : ∀ id : Uuid, db.tags[id]? = none
  notes : ∀ id : Uuid, db.notes[id]? = none
  noteTags : ∀ pair : Uuid × Uuid, db.noteTags[pair]? = none
  resources : ∀ id : Uuid, db.resources[id]? = none

/-- A live resource has no bytes. -/
def MissesBytes : Prop :=
  ∃ (id : Uuid) (row : ResourceRow), db.resources[id]? = some row ∧ row.deletedAt = none ∧
    row.data = none

variable {db}

theorem Blank.isEmpty (hblank : db.Blank) : db.contents.IsEmpty := by
  constructor
  · intro id
    simp [contents, liveAt, hblank.notebooks]
  · intro id
    simp [contents, liveAt, hblank.tags]
  · intro id
    simp [contents, liveAt, hblank.notes]
  · intro pair
    simp [contents, hblank.noteTags]
  · intro id
    simp [contents, readResource, hblank.resources, Except.toOption]

theorem Blank.unused (hblank : db.Blank) (entity : Entity) : db.Unused entity := by
  cases entity with
  | notebook id => exact hblank.notebooks id
  | tag id => exact ⟨hblank.tags id, fun noteId => hblank.noteTags (noteId, id)⟩
  | note id => exact ⟨hblank.notes id, fun tagId => hblank.noteTags (id, tagId)⟩
  | noteTag noteId tagId => exact hblank.noteTags (noteId, tagId)
  | resource id => exact hblank.resources id

/-- A live resource that cannot be read is one without bytes. -/
theorem missesBytes_iff :
    db.MissesBytes ↔ ∃ found ∈ db.listing.resources, ∃ failure,
      db.readResource found.id = .error failure := by
  simp only [listing, mem_sortBy]
  constructor
  · rintro ⟨id, row, hrow, hlive, hdata⟩
    refine ⟨rowToResource id row, mem_selectLive.mpr ⟨id, row, hrow, rfl, hlive⟩, .database, ?_⟩
    change db.readResource id = _
    rw [readResource, hrow]
    simp [hlive, hdata]
  · rintro ⟨found, hfound, failure, hread⟩
    obtain ⟨id, row, hrow, rfl, hlive⟩ := mem_selectLive.mp hfound
    replace hlive : row.deletedAt = none := hlive
    replace hread : db.readResource id = .error failure := hread
    refine ⟨id, row, hrow, hlive, ?_⟩
    cases hdata : row.data with
    | none => rfl
    | some data =>
        rw [readResource, hrow] at hread
        simp [hlive, hdata] at hread

/-- A migration from a database fails just if a live resource has no bytes; otherwise what is
shown in the end is what the database shows, and the report counts it. -/
def Copies (source : Db) (shown : Contents) : Except StorageError MigrationReport → Prop
  | .ok report => ¬ source.MissesBytes ∧ report = source.listing.report ∧
      Contents.Same source.contents shown
  | .error _ => source.MissesBytes

/-- Whether the resources can be read is whether they have bytes. -/
theorem copies_of_migrated {source : Db} {shown : Contents}
    {outcome : Except StorageError MigrationReport}
    (hdone : match outcome with
      | .ok report => (∀ found ∈ source.listing.resources, ∃ row,
            migrationBackend.readResource found.id source = .ok row) ∧
          report = source.listing.report ∧ Contents.Same source.contents shown
      | .error _ => ∃ found ∈ source.listing.resources, ∃ failure,
          migrationBackend.readResource found.id source = .error failure) :
    source.Copies shown outcome := by
  cases outcome with
  | error failure => exact missesBytes_iff.mpr hdone
  | ok report =>
      obtain ⟨hread, hreport, hsame⟩ := hdone
      refine ⟨fun hmisses => ?_, hreport, hsame⟩
      obtain ⟨found, hfound, failure, herror⟩ := missesBytes_iff.mp hmisses
      obtain ⟨row, hrow⟩ := hread found hfound
      replace hrow : source.readResource found.id = .ok row := hrow
      rw [hrow] at herror
      contradiction

end Db

end Keeplin
