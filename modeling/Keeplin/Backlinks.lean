/-
The backlinks of a note.  The database reads them from the table of links, which
each write of a note brings up to date; a backend without such a table scans the
links of all live notes.
-/
import Keeplin.DbSync
import Keeplin.NoteListing

namespace Keeplin

def linksTo (target : Uuid) (links : List NoteLink) : Bool :=
  links.any fun link => link.targetNoteId = some target

section Scan

variable {A : Type} (createdAt : A → DateTime) (id : A → Uuid)

/-- The items after the token. -/
def itemsFrom (items : List A) (token : Option Text) : List A :=
  match token with
  | none => items
  | some cursor =>
      if cursor = [] then items
      else
        match splitOnce cursor with
        | none => items
        | some (ts, idText) =>
            let cursorId := parseUuid idText
            items.drop (partitionPoint (fun item =>
              let itemTs := toSortableRfc3339 (createdAt item)
              itemTs < ts || (itemTs = ts && cursorId.any fun cursor => id item ≤ cursor)) items)

/-- The order of a query by instant and id, as the texts of the columns. -/
def createdKey (item : A) : Text ×ₗ Text :=
  toLex (toSortableRfc3339 (createdAt item), uuidText (id item))

def createdToken (item : A) : Text := pageToken (toSortableRfc3339 (createdAt item)) (id item)

/-- A page of the items, which are in the order of their instants and ids. -/
def paginateItems (items : List A) (pageSize : Nat) (token : Option Text) :
    List A × Option Text :=
  let page := cut (effectivePageSize pageSize) (itemsFrom createdAt id items token)
  (page.1, page.2.map (createdToken createdAt id))

/-- What the scan reads in a token. -/
def tokenParts (token : Option Text) : Option (Text × Text) :=
  token.bind fun cursor => if cursor = [] then none else splitOnce cursor

/-- Whether the scan drops an item. -/
def isUpTo (ts idText : Text) (item : A) : Bool :=
  toSortableRfc3339 (createdAt item) < ts ||
    (toSortableRfc3339 (createdAt item) = ts &&
      (parseUuid idText).any fun cursor => id item ≤ cursor)

/-- Whether the scan keeps an item. -/
def isPast (token : Option Text) (item : A) : Bool :=
  match tokenParts token with
  | none => true
  | some (ts, idText) => !isUpTo createdAt id ts idText item

variable {createdAt id} {items : List A}

theorem isUpTo_of_lt {ts idText : Text} {item later : A} (hid : IsUuid (id item))
    (hlaterId : IsUuid (id later))
    (hlater : createdKey createdAt id item < createdKey createdAt id later)
    (hupTo : isUpTo createdAt id ts idText later = true) :
    isUpTo createdAt id ts idText item = true := by
  simp only [createdKey, Prod.Lex.toLex_lt_toLex, uuidText_lt_iff hid hlaterId] at hlater
  simp only [isUpTo, Bool.or_eq_true, Bool.and_eq_true, decide_eq_true_eq,
    Option.any_eq_true] at hupTo ⊢
  rcases hupTo with hbefore | ⟨hsame, parsed, hparsed, hle⟩
  · rcases hlater with hlt | ⟨heq, -⟩
    · exact .inl (hlt.trans hbefore)
    · exact .inl (heq ▸ hbefore)
  · rcases hlater with hlt | ⟨heq, hlt⟩
    · exact .inl (hsame ▸ hlt)
    · exact .inr ⟨heq ▸ hsame, parsed, hparsed, hlt.le.trans hle⟩

theorem isPast_of_lt {token : Option Text} {item later : A} (hid : IsUuid (id item))
    (hlaterId : IsUuid (id later))
    (hlater : createdKey createdAt id item < createdKey createdAt id later)
    (hafter : isPast createdAt id token item = true) :
    isPast createdAt id token later = true := by
  unfold isPast at hafter ⊢
  split
  · rfl
  · next ts idText hparts =>
      by_contra hdropped
      have hupTo : isUpTo createdAt id ts idText later = true := by simpa using hdropped
      simp only [hparts, isUpTo_of_lt hid hlaterId hlater hupTo, Bool.not_true,
        Bool.false_eq_true] at hafter

theorem itemsFrom_eq (items : List A) (token : Option Text) :
    itemsFrom createdAt id items token =
      match tokenParts token with
      | none => items
      | some (ts, idText) =>
          items.drop (partitionPoint (isUpTo createdAt id ts idText) items) := by
  unfold itemsFrom
  cases token with
  | none => rfl
  | some cursor =>
      simp only [tokenParts, Option.bind_some]
      split
      · rfl
      · cases splitOnce cursor <;> rfl

/-- The scan keeps those after the token. -/
theorem itemsFrom_eq_filter (hids : ∀ item ∈ items, IsUuid (id item))
    (hsorted : items.Pairwise fun item later =>
      createdKey createdAt id item < createdKey createdAt id later) (token : Option Text) :
    itemsFrom createdAt id items token = items.filter (isPast createdAt id token) := by
  rw [itemsFrom_eq]
  cases hparts : tokenParts token with
  | none =>
      simp only
      exact (List.filter_eq_self.mpr fun item _ => by rw [isPast, hparts]).symm
  | some parts =>
      obtain ⟨ts, idText⟩ := parts
      simp only
      rw [drop_partitionPoint, dropWhile_eq_filter_not]
      · refine List.filter_congr fun item _ => ?_
        rw [isPast, hparts]
      · exact hsorted.imp_of_mem fun hitem hlater hlt =>
          isUpTo_of_lt (hids _ hitem) (hids _ hlater) hlt

/-- A token of an item keeps those that come after it. -/
theorem isPast_createdToken {last item : A} (hlast : IsUuid (id last)) (hitem : IsUuid (id item)) :
    isPast createdAt id (some (createdToken createdAt id last)) item =
      decide (createdKey createdAt id last < createdKey createdAt id item) := by
  have hsplit : splitOnce (createdToken createdAt id last) =
      some (toSortableRfc3339 (createdAt last), uuidText (id last)) :=
    splitOnce_append (toSortableRfc3339_ne_bar (createdAt last)) _
  have hnonempty : createdToken createdAt id last ≠ [] := by simp [createdToken, pageToken]
  have hparts : tokenParts (some (createdToken createdAt id last)) =
      some (toSortableRfc3339 (createdAt last), uuidText (id last)) := by
    rw [tokenParts, Option.bind_some, if_neg hnonempty, hsplit]
  simp only [isPast, hparts, isUpTo, parseUuid_uuidText hlast, Option.any_some]
  rw [Bool.eq_iff_iff, createdKey, createdKey]
  simp only [Bool.not_eq_true', Bool.or_eq_false_iff, Bool.and_eq_false_iff, decide_eq_true_eq,
    decide_eq_false_iff_not, Prod.Lex.toLex_lt_toLex, uuidText_lt_iff hlast hitem]
  rcases lt_trichotomy (toSortableRfc3339 (createdAt item)) (toSortableRfc3339 (createdAt last))
    with hlt | heq | hgt
  · simp [hlt, hlt.not_gt, hlt.ne']
  · simp [heq]
  · simp [hgt, hgt.not_gt, hgt.ne']

end Scan

def notesFrom (items : List Note) (token : Option Text) : List Note :=
  itemsFrom Note.createdAt Note.id items token

def paginateNotes (items : List Note) (pageSize : Nat) (token : Option Text) :
    List Note × Option Text :=
  paginateItems Note.createdAt Note.id items pageSize token

namespace Db

variable (db : Db)

/-- The text of the column, as every write of a row renders it. -/
def createdText (id : Uuid) : Text :=
  match db.notes[id]? with
  | some row => toSortableRfc3339 row.createdAt
  | none => []

def listNotes (pageSize : Nat) (token : Option Text) : List Note × Option Text :=
  queryPage db.createdText (liveNoteRows db.notes) pageSize token

/-- The live notes that are joined with the links to the target. -/
def backlinkRows (target : Uuid) : List Note :=
  (db.noteLinks.filter fun link => link.2 = target).filterMap fun link =>
    match db.notes[link.1]? with
    | some row => if row.deletedAt = none then some (rowToNote link.1 row) else none
    | none => none

def noteBacklinks (target : Uuid) (pageSize : Nat) (token : Option Text) :
    List Note × Option Text :=
  queryPage db.createdText (db.backlinkRows target) pageSize token

/-- The scan over all pages of live notes that is the default; `fuel` bounds the
pages. -/
def scanBacklinks (fuel : Nat) (target : Uuid) (pageSize : Nat) (token : Option Text) :
    Option (List Note × Option Text) :=
  (followTokens (db.listNotes 0) fuel none).map fun notes =>
    paginateNotes (notes.filter fun note => linksTo target note.links) pageSize token

/-- The calls that write notes; a restore is an update. -/
inductive NotesCall where
  | createNote (note : Note) (changedAt : DateTime)
  | updateNote (note : Note) (changedAt : DateTime)
  | deleteNote (id : Uuid) (ts changedAt : DateTime)
  | applyChange (change : Change)

/-- A call that fails leaves the database as it is. -/
def perform (db : Db) : NotesCall → Db
  | .createNote note changedAt =>
      match db.createNote note changedAt with
      | .ok result => result.1
      | .error _ => db
  | .updateNote note changedAt =>
      match db.updateNote note changedAt with
      | .ok result => result.1
      | .error _ => db
  | .deleteNote id ts changedAt =>
      match db.deleteNote id ts changedAt with
      | .ok after => after
      | .error _ => db
  | .applyChange change => db.applyChange change

def performAll (db : Db) (calls : List NotesCall) : Db := calls.foldl perform db

def empty (deviceId : String) : Db := ⟨deviceId, ∅, ∅, ∅, ∅, ∅, [], [], none⟩

/-- The table of links has those of every row of a note, each once. -/
structure LinksProjected : Prop where
  nodup : db.noteLinks.Nodup
  mem : ∀ source target, (source, target) ∈ db.noteLinks ↔
    ∃ row, db.notes[source]? = some row ∧ linksTo target row.links = true

variable {db} {after : Db} {id : Uuid} {row : NoteRow}

theorem LinksProjected.same (hprojected : db.LinksProjected) (hnotes : after.notes = db.notes)
    (hlinks : after.noteLinks = db.noteLinks) : after.LinksProjected :=
  ⟨hlinks ▸ hprojected.nodup, fun source target => by
    rw [hlinks, hnotes]
    exact hprojected.mem source target⟩

/-- A row with the links it had. -/
theorem LinksProjected.keep (hprojected : db.LinksProjected)
    (hnotes : after.notes = db.notes.insert id row) (hlinks : after.noteLinks = db.noteLinks)
    (hrow : row.links = ((db.notes[id]?.map NoteRow.links).getD [])) : after.LinksProjected := by
  refine ⟨hlinks ▸ hprojected.nodup, fun source target => ?_⟩
  rw [hlinks, hnotes, hprojected.mem, Std.ExtTreeMap.getElem?_insert]
  split
  · next heq =>
      rw [Std.LawfulEqCmp.compare_eq_iff_eq] at heq
      subst heq
      cases hold : db.notes[id]? with
      | none => simp [hrow, hold, linksTo]
      | some old => simp [hrow, hold]
  · exact Iff.rfl

theorem nodup_eraseDups {A : Type} [BEq A] [LawfulBEq A] (items : List A) :
    items.eraseDups.Nodup := by
  induction hlength : items.length using Nat.strongRecOn generalizing items with
  | ind length ih =>
      cases items with
      | nil => exact List.nodup_nil
      | cons item rest =>
          rw [List.eraseDups_cons, List.nodup_cons, List.mem_eraseDups, List.mem_filter]
          have hshorter := List.length_filter_le (fun other => !other == item) rest
          rw [List.length_cons] at hlength
          exact ⟨by simp, ih _ (by omega) _ rfl⟩

theorem mem_refreshNoteLinks {note : Note} {source target : Uuid} :
    (source, target) ∈ (db.refreshNoteLinks note).noteLinks ↔
      (source ≠ note.id ∧ (source, target) ∈ db.noteLinks) ∨
        source = note.id ∧ linksTo target note.links = true := by
  simp only [refreshNoteLinks, List.mem_append, List.mem_filter, List.mem_eraseDups, List.mem_map,
    List.mem_filterMap, decide_eq_true_eq, linksTo, List.any_eq_true, Prod.mk.injEq]
  constructor
  · rintro (⟨hlink, hsource⟩ | ⟨_, ⟨link, hlink, htarget⟩, rfl, rfl⟩)
    · exact Or.inl ⟨hsource, hlink⟩
    · exact Or.inr ⟨rfl, link, hlink, htarget⟩
  · rintro (⟨hsource, hlink⟩ | ⟨rfl, link, hlink, htarget⟩)
    · exact Or.inl ⟨hlink, hsource⟩
    · exact Or.inr ⟨target, ⟨link, hlink, htarget⟩, rfl, rfl⟩

theorem nodup_refreshNoteLinks {note : Note} (hnodup : db.noteLinks.Nodup) :
    (db.refreshNoteLinks note).noteLinks.Nodup := by
  rw [refreshNoteLinks, List.nodup_append]
  refine ⟨hnodup.sublist List.filter_sublist, nodup_eraseDups _, ?_⟩
  rintro link hold other hnew rfl
  have hsource := of_decide_eq_true (List.mem_filter.mp hold).2
  obtain ⟨target, -, rfl⟩ := List.mem_map.mp (List.mem_eraseDups.mp hnew)
  exact hsource rfl

/-- A row with the links of the note it was written from. -/
theorem LinksProjected.refresh {note : Note} (hprojected : db.LinksProjected)
    (hnotes : after.notes = db.notes.insert note.id row)
    (hlinks : after.noteLinks = (db.refreshNoteLinks note).noteLinks)
    (hrow : row.links = note.links) : after.LinksProjected := by
  refine ⟨hlinks ▸ nodup_refreshNoteLinks hprojected.nodup, fun source target => ?_⟩
  rw [hlinks, hnotes, mem_refreshNoteLinks, hprojected.mem, Std.ExtTreeMap.getElem?_insert]
  split
  · next heq =>
      rw [Std.LawfulEqCmp.compare_eq_iff_eq] at heq
      simp [← heq, hrow]
  · next hne =>
      rw [Std.LawfulEqCmp.compare_eq_iff_eq] at hne
      simp [Ne.symm hne]

@[simp] theorem noteLinks_restoreResources (db : Db) (note : Note) (prior : Option DateTime) :
    (db.restoreResources note prior).noteLinks = db.noteLinks := by
  unfold restoreResources
  split <;> rfl

theorem LinksProjected.createNote {note : Note} {changedAt : DateTime} {result : Db × Note}
    (hprojected : db.LinksProjected) (hcreate : db.createNote note changedAt = .ok result) :
    result.1.LinksProjected := by
  simp only [Db.createNote] at hcreate
  split at hcreate
  · contradiction
  · obtain rfl := Except.ok.inj hcreate
    exact hprojected.refresh rfl rfl rfl

theorem LinksProjected.updateNote {note : Note} {changedAt : DateTime} {result : Db × Note}
    (hprojected : db.LinksProjected) (hupdate : db.updateNote note changedAt = .ok result) :
    result.1.LinksProjected := by
  simp only [Db.updateNote] at hupdate
  split at hupdate
  · contradiction
  · next old hold =>
      obtain rfl := Except.ok.inj hupdate
      refine hprojected.refresh (notes_restoreResources _ _ _) ?_ rfl
      simp only [recordChange, refreshNoteLinks, noteLinks_restoreResources]

theorem LinksProjected.deleteNote {ts changedAt : DateTime} (hprojected : db.LinksProjected)
    (hdelete : db.deleteNote id ts changedAt = .ok after) : after.LinksProjected := by
  simp only [Db.deleteNote] at hdelete
  split at hdelete
  · contradiction
  · next old hold =>
      obtain rfl := Except.ok.inj hdelete
      exact hprojected.keep rfl rfl (by simp [hold])

theorem LinksProjected.applyNote {note : Note} (hprojected : db.LinksProjected) :
    (db.applyNote note).LinksProjected := by
  simp only [Db.applyNote]
  split
  · refine hprojected.refresh (notes_restoreResources _ _ _) ?_ rfl
    rw [noteLinks_restoreResources]
  · exact hprojected

theorem LinksProjected.applyNoteDelete {deletedAt : DateTime} {vv : VersionVector}
    {lastWriter : String} (hprojected : db.LinksProjected) :
    (db.applyNoteDelete id deletedAt vv lastWriter).LinksProjected := by
  simp only [Db.applyNoteDelete]
  split
  · refine hprojected.keep (notes_cascadeStampResources _ _ _) rfl ?_
    cases hold : db.notes[id]? with
    | none => rfl
    | some old => rfl
  · exact hprojected

/-- The changes that are not of a note leave the notes and their links. -/
theorem LinksProjected.applyChange {change : Change} (hprojected : db.LinksProjected) :
    (db.applyChange change).LinksProjected := by
  cases change with
  | noteCreate note => exact hprojected.applyNote
  | noteUpdate note => exact hprojected.applyNote
  | noteDelete id deletedAt vv lastWriter => exact hprojected.applyNoteDelete
  | notebookCreate notebook =>
      simp only [Db.applyChange, applyNotebook]
      split <;> exact hprojected.same rfl rfl
  | notebookUpdate notebook =>
      simp only [Db.applyChange, applyNotebook]
      split <;> exact hprojected.same rfl rfl
  | notebookDelete id deletedAt vv lastWriter =>
      simp only [Db.applyChange, applyNotebookDelete]
      split <;> exact hprojected.same rfl rfl
  | tagCreate tag =>
      simp only [Db.applyChange, applyTag]
      split <;> exact hprojected.same rfl rfl
  | tagUpdate tag =>
      simp only [Db.applyChange, applyTag]
      split <;> exact hprojected.same rfl rfl
  | tagDelete id deletedAt vv lastWriter =>
      simp only [Db.applyChange, applyTagDelete]
      split <;> exact hprojected.same rfl rfl
  | noteTagAdd noteId tagId updatedAt vv lastWriter =>
      simp only [Db.applyChange, applyNoteTag]
      split <;> exact hprojected.same rfl rfl
  | noteTagRemove noteId tagId updatedAt vv lastWriter =>
      simp only [Db.applyChange, applyNoteTag]
      split <;> exact hprojected.same rfl rfl
  | resourceCreate resource data =>
      simp only [Db.applyChange, applyResource]
      split <;> exact hprojected.same rfl rfl
  | resourceDelete id deletedAt vv lastWriter =>
      simp only [Db.applyChange, applyResourceDelete]
      split <;> exact hprojected.same rfl rfl

theorem LinksProjected.perform {call : NotesCall} (hprojected : db.LinksProjected) :
    (db.perform call).LinksProjected := by
  cases call with
  | createNote note changedAt =>
      simp only [Db.perform]
      split
      · next result hcreate => exact hprojected.createNote hcreate
      · exact hprojected
  | updateNote note changedAt =>
      simp only [Db.perform]
      split
      · next result hupdate => exact hprojected.updateNote hupdate
      · exact hprojected
  | deleteNote id ts changedAt =>
      simp only [Db.perform]
      split
      · next after hdelete => exact hprojected.deleteNote hdelete
      · exact hprojected
  | applyChange change => exact hprojected.applyChange

theorem linksProjected_empty (deviceId : String) : (empty deviceId).LinksProjected :=
  ⟨List.nodup_nil, fun source target => by simp [empty]⟩

theorem linksProjected_performAll (deviceId : String) (calls : List NotesCall) :
    ((empty deviceId).performAll calls).LinksProjected :=
  List.foldlRecOn calls perform (linksProjected_empty deviceId)
    fun _ hprojected _ _ => hprojected.perform

theorem mem_backlinkRows {target : Uuid} {note : Note} :
    note ∈ db.backlinkRows target ↔
      note ∈ liveNoteRows db.notes ∧ (note.id, target) ∈ db.noteLinks := by
  simp only [backlinkRows, List.mem_filterMap, List.mem_filter, decide_eq_true_eq,
    mem_liveNoteRows]
  constructor
  · rintro ⟨⟨source, found⟩, ⟨hlink, rfl⟩, hrow⟩
    simp only at hrow
    split at hrow
    · next row hnotes =>
        split at hrow
        · next hlive =>
            obtain rfl := Option.some.inj hrow
            exact ⟨⟨row, hnotes, rfl, hlive⟩, hlink⟩
        · contradiction
    · contradiction
  · rintro ⟨⟨row, hnotes, hnote, hlive⟩, hlink⟩
    exact ⟨(note.id, target), ⟨hlink, rfl⟩, by simp only [hnotes, hlive, ↓reduceIte, hnote]⟩

theorem mem_backlinkRows_iff {target : Uuid} {note : Note} (hprojected : db.LinksProjected) :
    note ∈ db.backlinkRows target ↔
      note ∈ (liveNoteRows db.notes).filter fun note => linksTo target note.links := by
  rw [mem_backlinkRows, List.mem_filter, hprojected.mem]
  refine and_congr_right fun hlive => ?_
  obtain ⟨row, hrow, hnote, -⟩ := mem_liveNoteRows.mp hlive
  have hlinks : row.links = note.links := congrArg Note.links hnote
  simp [hrow, hlinks]

theorem nodup_backlinkRows {target : Uuid} (hprojected : db.LinksProjected) :
    ((db.backlinkRows target).map Note.id).Nodup := by
  have hsources : ((db.noteLinks.filter fun link => link.2 = target).map Prod.fst).Nodup := by
    refine List.Nodup.map_on ?_ (hprojected.nodup.sublist List.filter_sublist)
    intro link hlink other hother hsame
    have htarget := of_decide_eq_true (List.mem_filter.mp hlink).2
    have htarget' := of_decide_eq_true (List.mem_filter.mp hother).2
    exact Prod.ext hsame (htarget.trans htarget'.symm)
  refine hsources.sublist ?_
  rw [backlinkRows]
  generalize db.noteLinks.filter (fun link => link.2 = target) = links
  induction links with
  | nil => exact List.Sublist.refl []
  | cons link rest ih =>
      rw [List.filterMap_cons, List.map_cons]
      split
      · exact ih.cons link.1
      · next note hnote =>
          split at hnote
          · split at hnote
            · obtain rfl := Option.some.inj hnote
              exact ih.cons_cons link.1
            · contradiction
          · contradiction

section Pages

variable {target : Uuid}

theorem createdText_of_live {note : Note} (hnote : note ∈ liveNoteRows db.notes) :
    db.createdText note.id = toSortableRfc3339 note.createdAt := by
  obtain ⟨row, hrow, hsame, -⟩ := mem_liveNoteRows.mp hnote
  have hcreated : row.createdAt = note.createdAt := congrArg Note.createdAt hsame
  simp only [createdText, hrow, hcreated]

theorem rowKey_of_live {note : Note} (hnote : note ∈ liveNoteRows db.notes) :
    rowKey db.createdText note = tokenKey note := by
  rw [rowKey, tokenKey, createdText_of_live hnote]

theorem isUuid_of_live (hids : ∀ id ∈ db.notes, IsUuid id) {note : Note}
    (hnote : note ∈ liveNoteRows db.notes) : IsUuid note.id := by
  obtain ⟨row, hrow, -⟩ := mem_liveNoteRows.mp hnote
  exact hids note.id (Std.ExtTreeMap.mem_iff_isSome_getElem?.mpr (by rw [hrow]; rfl))

theorem nodup_liveKeys (hids : ∀ id ∈ db.notes, IsUuid id) :
    ((liveNoteRows db.notes).map (rowKey db.createdText)).Nodup :=
  nodup_rowKeys (nodup_liveNoteRows db.notes) fun _ hnote => isUuid_of_live hids hnote

/-- The scan of all pages visits the live rows in their order. -/
theorem followTokens_listNotes (hids : ∀ id ∈ db.notes, IsUuid id) :
    followTokens (db.listNotes 0) ((liveNoteRows db.notes).length + 1) none =
      some (sortBy (rowKey db.createdText) (liveNoteRows db.notes)) := by
  have hkeys := nodup_liveKeys hids
  have hsorted := pairwise_sortBy hkeys
  have htoken : ∀ note ∈ sortBy (rowKey db.createdText) (liveNoteRows db.notes),
      rowKey db.createdText note = tokenKey note :=
    fun note hnote => rowKey_of_live (mem_sortBy.mp hnote)
  refine (followTokens_queryPage hkeys 0 _ none).trans (walk_of_separated hsorted
    (fun note hnote => le_of_eq (htoken note hnote)) ?_ (effectivePageSize_pos 0)
      afterCursor_none ?_)
  · exact hsorted.imp_of_mem fun hnote _ hlt => htoken _ hnote ▸ hlt
  · rw [(perm_sortBy _).length_eq]
    exact Nat.lt_succ_self _

/-- The notes the scan matches are the joined rows, in the order of the query. -/
theorem filter_liveNotes (hprojected : db.LinksProjected) (hids : ∀ id ∈ db.notes, IsUuid id) :
    (sortBy (rowKey db.createdText) (liveNoteRows db.notes)).filter
        (fun note => linksTo target note.links) =
      sortBy (rowKey db.createdText) (db.backlinkRows target) := by
  have hkeys := nodup_liveKeys hids
  refine eq_sortBy ((pairwise_sortBy hkeys).sublist List.filter_sublist) ?_ fun note => ?_
  · exact nodup_rowKeys (nodup_backlinkRows hprojected) fun note hnote =>
      isUuid_of_live hids (mem_backlinkRows.mp hnote).1
  · rw [mem_backlinkRows_iff hprojected, List.mem_filter, List.mem_filter, mem_sortBy]

/-- The scan finds the notes after a token where the query does. -/
theorem notesFrom_eq {notes : List Note} (hids : ∀ id ∈ db.notes, IsUuid id)
    (hlive : ∀ note ∈ notes, note ∈ liveNoteRows db.notes)
    (hsorted : notes.Pairwise fun note later =>
      rowKey db.createdText note < rowKey db.createdText later)
    {last : Option Note} (hlast : ∀ note ∈ last, IsUuid note.id) :
    notesFrom notes (last.map noteToken) =
      afterCursor (rowKey db.createdText) (last.map tokenKey) notes := by
  have hrow : ∀ note ∈ notes, rowKey db.createdText note =
      createdKey Note.createdAt Note.id note := by
    intro note hnote
    rw [rowKey, createdText_of_live (hlive note hnote), createdKey]
  have hnotes : ∀ note ∈ notes, IsUuid note.id :=
    fun note hnote => isUuid_of_live hids (hlive note hnote)
  have hcreated : notes.Pairwise fun note later =>
      createdKey Note.createdAt Note.id note < createdKey Note.createdAt Note.id later := by
    refine hsorted.imp_of_mem fun hnote hlater hlt => ?_
    rwa [hrow _ hnote, hrow _ hlater] at hlt
  rw [notesFrom, itemsFrom_eq_filter hnotes hcreated, afterCursor]
  refine List.filter_congr fun note hnote => ?_
  cases last with
  | none => rfl
  | some last =>
      rw [hrow note hnote]
      exact isPast_createdToken (hlast last rfl) (hnotes note hnote)

/-- A page by the table of links is the page by the scan. -/
theorem scanBacklinks_eq (hprojected : db.LinksProjected) (hids : ∀ id ∈ db.notes, IsUuid id)
    (pageSize : Nat) {last : Option Note} (hlast : ∀ note ∈ last, IsUuid note.id) :
    db.scanBacklinks ((liveNoteRows db.notes).length + 1) target pageSize (last.map noteToken) =
      some (db.noteBacklinks target pageSize (last.map noteToken)) := by
  have hbacklinks : ∀ note ∈ db.backlinkRows target, note ∈ liveNoteRows db.notes :=
    fun note hnote => (mem_backlinkRows.mp hnote).1
  have hkeys : ((db.backlinkRows target).map (rowKey db.createdText)).Nodup :=
    nodup_rowKeys (nodup_backlinkRows hprojected) fun note hnote =>
      isUuid_of_live hids (hbacklinks note hnote)
  have hfrom := notesFrom_eq hids (fun note hnote => hbacklinks note (mem_sortBy.mp hnote))
    (pairwise_sortBy hkeys) hlast
  rw [scanBacklinks, followTokens_listNotes hids, Option.map_some,
    filter_liveNotes hprojected hids, noteBacklinks, queryPage_eq_selectPage,
    selectPage_eq hkeys passesCursor_none passesCursor_token]
  rw [notesFrom] at hfrom
  simp only [paginateNotes, paginateItems, hfrom, pageOf]
  rfl

end Pages

/-- The token of a page is that of one of the notes. -/
theorem exists_last_of_pageToken {target : Uuid} {pageSize : Nat} {token : Option Text}
    (htoken : PageToken (db.noteBacklinks target pageSize) token) :
    ∃ last : Option Note, (∀ note ∈ last, note ∈ db.backlinkRows target) ∧
      token = last.map noteToken := by
  cases htoken with
  | first => exact ⟨none, fun note hnote => absurd hnote (Option.not_mem_none note), rfl⟩
  | next hprevious hnext =>
      simp only [noteBacklinks, queryPage, Option.map_eq_some_iff] at hnext
      obtain ⟨last, hlast, rfl⟩ := hnext
      refine ⟨some last, ?_, rfl⟩
      rintro note ⟨⟩
      simp only [cut] at hlast
      split at hlast
      · have hmem := List.mem_of_mem_take (List.mem_of_mem_take (List.mem_of_getLast? hlast))
        exact List.mem_of_mem_filter (mem_sortBy.mp hmem)
      · contradiction

/-- After any calls, each page of backlinks that the tokens lead to is the one the
scan makes, notes and token alike. -/
theorem noteBacklinks_eq_scan (deviceId : String) (calls : List NotesCall)
    (hids : ∀ id ∈ ((empty deviceId).performAll calls).notes, IsUuid id) (target : Uuid)
    (pageSize : Nat) (token : Option Text)
    (htoken : PageToken (((empty deviceId).performAll calls).noteBacklinks target pageSize)
      token) :
    ∃ fuel, ((empty deviceId).performAll calls).scanBacklinks fuel target pageSize token =
      some (((empty deviceId).performAll calls).noteBacklinks target pageSize token) := by
  have hprojected := linksProjected_performAll deviceId calls
  obtain ⟨last, hlast, rfl⟩ := exists_last_of_pageToken htoken
  exact ⟨_, scanBacklinks_eq hprojected hids pageSize fun note hnote =>
    isUuid_of_live hids (mem_backlinkRows.mp (hlast note hnote)).1⟩

end Db

namespace BacklinksWitness

/-- A note that links to itself twice and to another. -/
def note : Note := ⟨1, "", "", 0, false, none, none, 0, 0, none, none, [],
  [⟨.content, "1", some 1⟩, ⟨.manual, "1", some 1⟩, ⟨.content, "2", some 2⟩, ⟨.content, "x", none⟩],
  ∅, "", false, false, 0⟩

def calls : List Db.NotesCall := [.createNote note 0]

theorem noteBacklinks_eq_scan_self :
    ∃ fuel, ((Db.empty "A").performAll calls).scanBacklinks fuel 1 1 none =
      some (((Db.empty "A").performAll calls).noteBacklinks 1 1 none) :=
  Db.noteBacklinks_eq_scan "A" calls (by
    intro id hid
    have hnotes : ((Db.empty "A").performAll calls).notes =
        (∅ : Table NoteRow).insert 1 (NoteRow.ofNote
          { note with vv := (∅ : VersionVector).increment "A", lastWriter := "A" }) := rfl
    rw [hnotes, Std.ExtTreeMap.mem_insert, Std.LawfulEqCmp.compare_eq_iff_eq] at hid
    rcases hid with rfl | hempty
    · decide
    · exact absurd hempty Std.ExtTreeMap.not_mem_empty) 1 1 none .first

end BacklinksWitness

end Keeplin
