/-
What is read through the encrypting decorator, against a database that was given
the plain entities.  The rows that were sealed open to what the plain database has;
a row that a delete of an unknown id has left was never sealed and does not open.
-/
import Keeplin.NoteResources
import Keeplin.SealedRows

namespace Keeplin

open EncryptedBackend

section Opening

variable {A B : Type} {opens : B → Except StorageError A} {revealed : B → A} {items : List B}

theorem mapM_eq_ok (hopens : ∀ item ∈ items, opens item = .ok (revealed item)) :
    items.mapM opens = .ok (items.map revealed) := by
  induction items with
  | nil => rfl
  | cons item rest ih =>
      obtain ⟨hhead, hrest⟩ := List.forall_mem_cons.mp hopens
      rw [List.mapM_cons, hhead, ih hrest]
      rfl

theorem mapM_eq_error {item : B} (hitem : item ∈ items) {failure : StorageError}
    (hfails : opens item = .error failure) : ∃ failure, items.mapM opens = .error failure := by
  induction items with
  | nil => contradiction
  | cons head rest ih =>
      rw [List.mapM_cons]
      cases hhead : opens head with
      | error failure => exact ⟨failure, rfl⟩
      | ok plain =>
          rcases List.mem_cons.mp hitem with rfl | hmem
          · rw [hfails] at hhead
            contradiction
          · obtain ⟨failure, hrest⟩ := ih hmem
            exact ⟨failure, by rw [hrest]; rfl⟩

theorem openPage_eq_ok {opens : A → Except StorageError A} {revealed : A → A}
    {page : List A × Option Text} (hopens : ∀ item ∈ page.1, opens item = .ok (revealed item)) :
    openPage opens page = .ok (page.1.map revealed, page.2) := by
  rw [openPage, mapM_eq_ok hopens]
  rfl

theorem mem_of_selectPage {K : Type} [LinearOrder K] {key : B → K} {passes : Text × Text → B → Bool}
    {tokenOf : B → Text} {pageSize : Nat} {token : Option Text} {item : B}
    (hitem : item ∈ (selectPage key passes tokenOf items pageSize token).1) : item ∈ items := by
  simp only [selectPage, cut_take_succ] at hitem
  exact List.mem_of_mem_filter (mem_sortBy.mp (List.mem_of_mem_take hitem))

/-- A page of items that open is the page of the opened ones. -/
theorem openPage_selectPage {K : Type} [LinearOrder K] {opens : A → Except StorageError A}
    {revealed : A → A} {items : List A} {key keyAfter : A → K}
    {passes passesAfter : Text × Text → A → Bool} {tokenOf tokenAfter : A → Text}
    (hkey : ∀ item, keyAfter (revealed item) = key item)
    (hpasses : ∀ cursor item, passesAfter cursor (revealed item) = passes cursor item)
    (htoken : ∀ item, tokenAfter (revealed item) = tokenOf item)
    (hopens : ∀ item ∈ items, opens item = .ok (revealed item)) (pageSize : Nat)
    (token : Option Text) :
    openPage opens (selectPage key passes tokenOf items pageSize token) =
      .ok (selectPage keyAfter passesAfter tokenAfter (items.map revealed) pageSize token) := by
  rw [openPage_eq_ok fun item hitem => hopens item (mem_of_selectPage hitem),
    selectPage_map hkey hpasses htoken]

theorem openPage_createdPage {opens : A → Except StorageError A} {revealed : A → A}
    {items : List A} {createdAt : A → DateTime} {id : A → Uuid}
    (hcreated : ∀ item, createdAt (revealed item) = createdAt item)
    (hid : ∀ item, id (revealed item) = id item)
    (hopens : ∀ item ∈ items, opens item = .ok (revealed item)) (pageSize : Nat)
    (token : Option Text) :
    openPage opens (createdPage createdAt id items pageSize token) =
      .ok (createdPage createdAt id (items.map revealed) pageSize token) := by
  have hpage : ∀ item ∈ (createdPage createdAt id items pageSize token).1,
      opens item = .ok (revealed item) := fun item hitem => hopens item (mem_of_selectPage hitem)
  rw [openPage_eq_ok hpage, createdPage_map hcreated hid]

/-- Following the pages as they are opened is following them and opening what they
have. -/
theorem followPages_openPage {opens : A → Except StorageError A} {items : List A}
    {page : Option Text → List A × Option Text} {fuel : Nat} {token : Option Text}
    (htokens : followTokens page fuel token = some items) :
    followPages (fun token => openPage opens (page token)) fuel token =
      some (items.mapM opens) := by
  induction fuel generalizing token items with
  | zero => contradiction
  | succ fuel ih =>
      rw [followTokens] at htokens
      rw [followPages]
      cases hpage : page token with
      | mk found next =>
          rw [hpage] at htokens
          have hopened : openPage opens (found, next) =
              (found.mapM opens).map fun plain => (plain, next) := rfl
          rw [hopened]
          cases next with
          | none =>
              obtain rfl := Option.some.inj htokens
              cases found.mapM opens <;> rfl
          | some next =>
              obtain ⟨rest, hrest, rfl⟩ := Option.map_eq_some_iff.mp htokens
              rw [List.mapM_append]
              cases found.mapM opens with
              | error failure => rfl
              | ok plain =>
                  simp only [Except.map]
                  rw [ih hrest]
                  cases rest.mapM opens <;> rfl

end Opening

theorem toList_mapRows {R : Type} (change : R → R) (table : Table R) :
    (mapRows change table).toList = table.toList.map fun entry => (entry.1, change entry.2) :=
  Std.ExtTreeMap.toList_map

theorem selectLive_mapRows {R A : Type} {ofRow : Uuid → R → A} {deletedAt : A → Option DateTime}
    {change : R → R} {changed : A → A}
    (hrow : ∀ id row, ofRow id (change row) = changed (ofRow id row))
    (hdeleted : ∀ item, deletedAt (changed item) = deletedAt item) (table : Table R) :
    selectLive (mapRows change table) ofRow deletedAt =
      (selectLive table ofRow deletedAt).map changed := by
  rw [selectLive, selectLive, toList_mapRows, List.map_map]
  have hitems : (table.toList.map ((fun entry => ofRow entry.1 entry.2) ∘ fun entry =>
      (entry.1, change entry.2))) =
        (table.toList.map fun entry => ofRow entry.1 entry.2).map changed := by
    rw [List.map_map]
    exact List.map_congr_left fun entry _ => hrow entry.1 entry.2
  rw [hitems, List.filter_map]
  congr 1
  exact List.filter_congr fun item _ => by rw [Function.comp_apply, hdeleted]

namespace Cipher

variable {cipher : Cipher} (db : Db)

theorem liveNoteRows_revealDb :
    liveNoteRows (cipher.revealDb db).notes = (liveNoteRows db.notes).map cipher.revealNote := by
  rw [liveNoteRows, liveNoteRows]
  change ((mapRows cipher.revealNoteRow db.notes).toList.filter _).map _ = _
  rw [toList_mapRows, List.filter_map, List.map_map, List.map_map]
  rfl

theorem createdText_revealDb : (cipher.revealDb db).createdText = db.createdText := by
  funext id
  have hrow : (cipher.revealDb db).notes[id]? = db.notes[id]?.map cipher.revealNoteRow :=
    getElem?_mapRows id
  rw [Db.createdText, Db.createdText, hrow]
  cases db.notes[id]? <;> rfl

theorem liveNotebooks_revealDb :
    (cipher.revealDb db).liveNotebooks = db.liveNotebooks.map cipher.revealNotebook := by
  have hrow : ∀ id row, rowToNotebook id (cipher.revealNotebookRow row) =
      cipher.revealNotebook (rowToNotebook id row) := fun _ _ => rfl
  exact selectLive_mapRows hrow (fun _ => rfl) db.notebooks

theorem liveTags_revealDb :
    (cipher.revealDb db).liveTags = db.liveTags.map cipher.revealTag := by
  have hrow : ∀ id row, rowToTag id (cipher.revealTagRow row) =
      cipher.revealTag (rowToTag id row) := fun _ _ => rfl
  exact selectLive_mapRows hrow (fun _ => rfl) db.tags

theorem attachedTags_revealDb (noteId : Uuid) :
    (cipher.revealDb db).attachedTags noteId = (db.attachedTags noteId).map cipher.revealTag := by
  rw [Db.attachedTags, Db.attachedTags, liveTags_revealDb, List.filter_map]
  rfl

theorem liveResources_revealDb :
    (cipher.revealDb db).liveResources = db.liveResources.map cipher.revealResource := by
  have hrow : ∀ id row, rowToResource id (cipher.revealResourceRow row) =
      cipher.revealResource (rowToResource id row) := fun _ _ => rfl
  exact selectLive_mapRows hrow (fun _ => rfl) db.resources

theorem backlinkRows_revealDb (target : Uuid) :
    (cipher.revealDb db).backlinkRows target = (db.backlinkRows target).map cipher.revealNote := by
  have hrow : ∀ id : Uuid, (cipher.revealDb db).notes[id]? =
      db.notes[id]?.map cipher.revealNoteRow := fun id => getElem?_mapRows id
  have hlinks : (cipher.revealDb db).noteLinks = db.noteLinks := rfl
  rw [Db.backlinkRows, Db.backlinkRows, hlinks, List.map_filterMap]
  refine List.filterMap_congr fun link _ => ?_
  rw [hrow]
  cases db.notes[link.1]? with
  | none => rfl
  | some row =>
      have hdeleted : (cipher.revealNoteRow row).deletedAt = row.deletedAt := rfl
      simp only [Option.map_some, hdeleted]
      split <;> rfl

section Pages

variable {db} (hsealed : cipher.Sealed db)
include hsealed

theorem Sealed.decNote_of_live {note : Note} (hnote : note ∈ liveNoteRows db.notes) :
    cipher.decNote note = .ok (cipher.revealNote note) := by
  obtain ⟨row, hrow, hsame, hlive⟩ := mem_liveNoteRows.mp hnote
  rcases hsealed.notes _ row hrow with hopens | ⟨-, hdeleted⟩
  · have hcontent : row.content = note.content := congrArg Note.content hsame
    exact decNote_of_opens (hcontent ▸ hopens)
  · exact absurd hlive hdeleted

theorem Sealed.decNotebook_of_live {notebook : Notebook} (hnotebook : notebook ∈ db.liveNotebooks) :
    cipher.decNotebook notebook = .ok (cipher.revealNotebook notebook) := by
  obtain ⟨id, row, hrow, rfl, hlive⟩ := mem_selectLive.mp hnotebook
  rcases hsealed.notebooks id row hrow with hopens | ⟨-, hdeleted⟩
  · exact decNotebook_of_opens hopens
  · exact absurd hlive hdeleted

theorem Sealed.decTag_of_live {tag : Tag} (htag : tag ∈ db.liveTags) :
    cipher.decTag tag = .ok (cipher.revealTag tag) := by
  obtain ⟨id, row, hrow, rfl, hlive⟩ := mem_selectLive.mp htag
  rcases hsealed.tags id row hrow with hopens | ⟨-, hdeleted⟩
  · exact decTag_of_opens hopens
  · exact absurd hlive hdeleted

/-- A query of notes by instant and id. -/
theorem Sealed.openPage_queryPage {notes : List Note}
    (hnotes : ∀ note ∈ notes, note ∈ liveNoteRows db.notes)
    (pageSize : Nat) (token : Option Text) :
    openPage cipher.decNote (queryPage db.createdText notes pageSize token) =
      .ok (queryPage (cipher.revealDb db).createdText (notes.map cipher.revealNote) pageSize
        token) := by
  rw [queryPage_eq_selectPage, queryPage_eq_selectPage, createdText_revealDb]
  refine openPage_selectPage ?_ ?_ ?_
    (fun note hnote => hsealed.decNote_of_live (hnotes note hnote)) pageSize token
  · exact fun _ => rfl
  · exact fun _ _ => rfl
  · exact fun _ => rfl

theorem Sealed.openPage_listNotes (pageSize : Nat) (token : Option Text) :
    openPage cipher.decNote (db.listNotes pageSize token) =
      .ok ((cipher.revealDb db).listNotes pageSize token) := by
  rw [Db.listNotes, Db.listNotes, liveNoteRows_revealDb]
  exact hsealed.openPage_queryPage (fun _ hnote => hnote) pageSize token

theorem Sealed.openPage_listStarredNotes (pageSize : Nat) (token : Option Text) :
    openPage cipher.decNote (db.listStarredNotes pageSize token) =
      .ok ((cipher.revealDb db).listStarredNotes pageSize token) := by
  rw [Db.listStarredNotes, Db.listStarredNotes, liveNoteRows_revealDb, List.filter_map]
  exact hsealed.openPage_queryPage (fun _ hnote => List.mem_of_mem_filter hnote) pageSize token

theorem Sealed.openPage_noteBacklinks (target : Uuid) (pageSize : Nat) (token : Option Text) :
    openPage cipher.decNote (db.noteBacklinks target pageSize token) =
      .ok ((cipher.revealDb db).noteBacklinks target pageSize token) := by
  rw [Db.noteBacklinks, Db.noteBacklinks, backlinkRows_revealDb]
  exact hsealed.openPage_queryPage (fun _ hnote => (Db.mem_backlinkRows.mp hnote).1) pageSize token

theorem Sealed.openPage_listNotebookNotes (notebookId : Uuid) (pageSize : Nat)
    (token : Option Text) :
    openPage cipher.decNote (db.listNotebookNotes notebookId pageSize token) =
      .ok ((cipher.revealDb db).listNotebookNotes notebookId pageSize token) := by
  have hnotebook : ∀ id : Uuid, (cipher.revealDb db).notes[id]?.bind NoteRow.notebookId =
      db.notes[id]?.bind NoteRow.notebookId := by
    intro id
    have hrow : (cipher.revealDb db).notes[id]? = db.notes[id]?.map cipher.revealNoteRow :=
      getElem?_mapRows id
    rw [hrow]
    cases db.notes[id]? <;> rfl
  simp only [Db.listNotebookNotes, liveNoteRows_revealDb, hnotebook, List.filter_map]
  refine openPage_selectPage ?_ ?_ ?_
    (fun note hnote => hsealed.decNote_of_live (List.mem_of_mem_filter hnote)) pageSize token
  · exact fun _ => rfl
  · exact fun _ _ => rfl
  · exact fun _ => rfl

theorem Sealed.openPage_listNotebooks (pageSize : Nat) (token : Option Text) :
    openPage cipher.decNotebook (db.listNotebooks pageSize token) =
      .ok ((cipher.revealDb db).listNotebooks pageSize token) := by
  rw [Db.listNotebooks, Db.listNotebooks, liveNotebooks_revealDb]
  refine openPage_createdPage ?_ ?_ (fun notebook hnotebook =>
    hsealed.decNotebook_of_live hnotebook) pageSize token
  · exact fun _ => rfl
  · exact fun _ => rfl

theorem Sealed.openPage_listTags (pageSize : Nat) (token : Option Text) :
    openPage cipher.decTag (db.listTags pageSize token) =
      .ok ((cipher.revealDb db).listTags pageSize token) := by
  rw [Db.listTags, Db.listTags, liveTags_revealDb]
  refine openPage_createdPage ?_ ?_ (fun tag htag => hsealed.decTag_of_live htag) pageSize token
  · exact fun _ => rfl
  · exact fun _ => rfl

theorem Sealed.openPage_listNoteTags (noteId : Uuid) (pageSize : Nat) (token : Option Text) :
    openPage cipher.decTag (db.listNoteTags noteId pageSize token) =
      .ok ((cipher.revealDb db).listNoteTags noteId pageSize token) := by
  rw [Db.listNoteTags, Db.listNoteTags, attachedTags_revealDb]
  refine openPage_createdPage ?_ ?_ (fun tag htag =>
    hsealed.decTag_of_live (List.mem_of_mem_filter htag)) pageSize token
  · exact fun _ => rfl
  · exact fun _ => rfl

end Pages

end Cipher

end Keeplin
