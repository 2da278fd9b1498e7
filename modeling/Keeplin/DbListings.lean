/-
The listings of the database: the live rows that a query selects, in the order of
its columns, in pages after a token.  A listing reads the columns of its order
and of its conditions only, so what stands in the others does not change which
rows a page has.
-/
import Keeplin.Backlinks
import Keeplin.NoteEdits

namespace Keeplin

section Pages

variable {A B K : Type} [LinearOrder K]

/-- A change of what a query does not read changes the rows of a page alike. -/
theorem selectPage_map {key : A → K} {keyAfter : B → K} {passes : Text × Text → A → Bool}
    {passesAfter : Text × Text → B → Bool} {tokenOf : A → Text} {tokenAfter : B → Text}
    {change : A → B} (hkey : ∀ item, keyAfter (change item) = key item)
    (hpasses : ∀ cursor item, passesAfter cursor (change item) = passes cursor item)
    (htoken : ∀ item, tokenAfter (change item) = tokenOf item) (items : List A) (pageSize : Nat)
    (token : Option Text) :
    selectPage keyAfter passesAfter tokenAfter (items.map change) pageSize token =
      ((selectPage key passes tokenOf items pageSize token).1.map change,
        (selectPage key passes tokenOf items pageSize token).2) := by
  have hfilter : (items.map change).filter (passesAfter (parseCursor token)) =
      (items.filter (passes (parseCursor token))).map change := by
    rw [List.filter_map]
    congr 1
    exact List.filter_congr fun item _ => hpasses _ item
  simp only [selectPage, hfilter, sortBy_map hkey, ← List.map_take, cut_map, Option.map_map]
  congr 2
  funext item
  exact htoken item

/-- A row that passes the cursor is on the page or it passes the token of the page,
if tokens are compared as the rows are ordered. -/
theorem passes_selectPage_iff {key : A → K} {passes : Text × Text → A → Bool} {tokenOf : A → Text}
    {items : List A} (hkeys : (items.map key).Nodup)
    (hpasses : ∀ {cursor : Text × Text} {item later : A}, item ∈ items → later ∈ items →
      passes cursor item = true → key item < key later → passes cursor later = true)
    (htoken : ∀ {last item : A}, last ∈ items → item ∈ items →
      (passes (parseCursor (some (tokenOf last))) item = true ↔ key last < key item))
    (pageSize : Nat) (token : Option Text) {item : A} (hitem : item ∈ items) :
    passes (parseCursor token) item = true ↔
      item ∈ (selectPage key passes tokenOf items pageSize token).1 ∨
        ∃ last, (selectPage key passes tokenOf items pageSize token).2 = some last ∧
          passes (parseCursor (some last)) item = true := by
  simp only [selectPage, cut_take_succ]
  have hmem : ∀ found, found ∈ sortBy key (items.filter (passes (parseCursor token))) ↔
      found ∈ items ∧ passes (parseCursor token) found = true := by
    intro found
    rw [mem_sortBy, List.mem_filter]
  have hsorted := pairwise_sortBy (hkeys.sublist (List.filter_sublist
    (p := passes (parseCursor token)) |>.map key))
  rcases Nat.lt_or_ge (effectivePageSize pageSize)
    (sortBy key (items.filter (passes (parseCursor token)))).length with hmore | hall
  · obtain ⟨init, last, htake, hnext⟩ := exists_concat_of_more (effectivePageSize_pos pageSize)
      hmore
    have hsplit := (List.take_append_drop (effectivePageSize pageSize)
      (sortBy key (items.filter (passes (parseCursor token))))).symm
    rw [htake] at hsplit
    have hlast := (hmem last).mp (by rw [hsplit]; simp)
    rw [hnext]
    simp only [cut, htake, Option.map_some, Option.some.injEq, exists_eq_left']
    rw [htoken hlast.1 hitem]
    constructor
    · intro hpass
      have hfound := (hmem item).mpr ⟨hitem, hpass⟩
      rw [hsplit] at hfound hsorted
      rcases List.mem_append.mp hfound with hpage | hlater
      · exact .inl hpage
      · refine .inr ((List.pairwise_append.mp hsorted).2.2 last ?_ item hlater)
        exact List.mem_append_right init List.mem_cons_self
    · rintro (hpage | hlater)
      · exact ((hmem item).mp (by rw [hsplit]; exact List.mem_append_left _ hpage)).2
      · exact hpasses hlast.1 hitem hlast.2 hlater
  · simp only [cut, if_neg hall.not_gt, List.take_of_length_le hall, hmem, hitem, true_and,
      Option.map_none, reduceCtorEq, false_and, exists_false, or_false]

variable (createdAt : A → DateTime) (id : A → Uuid)

def passesCreated (cursor : Text × Text) (item : A) : Bool :=
  cursor.1 = [] || cursor.1 < toSortableRfc3339 (createdAt item) ||
    (toSortableRfc3339 (createdAt item) = cursor.1 && cursor.2 < uuidText (id item))

/-- A page of a query by instant and id. -/
def createdPage (items : List A) (pageSize : Nat) (token : Option Text) : List A × Option Text :=
  selectPage (createdKey createdAt id) (passesCreated createdAt id) (createdToken createdAt id)
    items pageSize token

variable {createdAt id}

theorem passesCreated_none (item : A) : passesCreated createdAt id (parseCursor none) item = true :=
  rfl

/-- The texts of the cursor are compared as the keys are. -/
theorem passesCreated_token (last item : A) :
    passesCreated createdAt id (parseCursor (some (createdToken createdAt id last))) item =
      decide (createdKey createdAt id last < createdKey createdAt id item) := by
  rw [createdToken, parseCursor_pageToken (toSortableRfc3339_ne_bar (createdAt last))]
  rw [Bool.eq_iff_iff, decide_eq_true_eq, createdKey, createdKey, Prod.Lex.toLex_lt_toLex]
  simp only [passesCreated, Bool.or_eq_true, Bool.and_eq_true, decide_eq_true_eq,
    toSortableRfc3339_ne_nil, false_or]
  rw [eq_comm (a := toSortableRfc3339 (createdAt item))]

/-- Those after one that passes the cursor pass it. -/
theorem passesCreated_of_lt {cursor : Text × Text} {item later : A}
    (hlater : createdKey createdAt id item < createdKey createdAt id later)
    (hpass : passesCreated createdAt id cursor item = true) :
    passesCreated createdAt id cursor later = true := by
  simp only [passesCreated, Bool.or_eq_true, Bool.and_eq_true, decide_eq_true_eq] at hpass ⊢
  simp only [createdKey, Prod.Lex.toLex_lt_toLex] at hlater
  rcases hpass with (hfirst | hbefore) | ⟨hsame, hid⟩
  · exact .inl (.inl hfirst)
  · rcases hlater with hlt | ⟨heq, -⟩
    · exact .inl (.inr (hbefore.trans hlt))
    · exact .inl (.inr (heq ▸ hbefore))
  · rcases hlater with hlt | ⟨heq, hlt⟩
    · exact .inl (.inr (hsame ▸ hlt))
    · exact .inr ⟨heq ▸ hsame, hid.trans hlt⟩

theorem nodup_createdKeys {items : List A} (hids : (items.map id).Nodup)
    (hfit : ∀ item ∈ items, IsUuid (id item)) : (items.map (createdKey createdAt id)).Nodup :=
  nodup_keys_of_ids (fun _ => rfl) hids hfit

/-- Following the tokens visits the rows in their order. -/
theorem followTokens_createdPage {items : List A}
    (hkeys : (items.map (createdKey createdAt id)).Nodup) (pageSize : Nat) {fuel : Nat}
    (hfuel : items.length < fuel) :
    followTokens (createdPage createdAt id items pageSize) fuel none =
      some (sortBy (createdKey createdAt id) items) := by
  have hsorted := pairwise_sortBy hkeys
  refine (followTokens_selectPage hkeys passesCreated_none passesCreated_token pageSize fuel
    none).trans (walk_of_separated hsorted (fun _ _ => le_rfl) hsorted
      (effectivePageSize_pos pageSize) afterCursor_none ?_)
  rw [(perm_sortBy items).length_eq]
  exact hfuel

theorem createdPage_map {createdAfter : B → DateTime} {idAfter : B → Uuid} {change : A → B}
    (hcreated : ∀ item, createdAfter (change item) = createdAt item)
    (hid : ∀ item, idAfter (change item) = id item) (items : List A) (pageSize : Nat)
    (token : Option Text) :
    createdPage createdAfter idAfter (items.map change) pageSize token =
      ((createdPage createdAt id items pageSize token).1.map change,
        (createdPage createdAt id items pageSize token).2) :=
  selectPage_map (fun item => by rw [createdKey, createdKey, hcreated, hid])
    (fun cursor item => by rw [passesCreated, passesCreated, hcreated, hid])
    (fun item => by rw [createdToken, createdToken, hcreated, hid]) items pageSize token

end Pages

/-- The live entities of a table. -/
def selectLive {R A : Type} (table : Table R) (ofRow : Uuid → R → A)
    (deletedAt : A → Option DateTime) : List A :=
  (table.toList.map fun entry => ofRow entry.1 entry.2).filter fun item => deletedAt item = none

section Live

variable {R A : Type} {table : Table R} {ofRow : Uuid → R → A} {deletedAt : A → Option DateTime}

theorem mem_selectLive {item : A} : item ∈ selectLive table ofRow deletedAt ↔
    ∃ key row, table[key]? = some row ∧ ofRow key row = item ∧ deletedAt item = none := by
  simp only [selectLive, List.mem_filter, List.mem_map, Prod.exists, decide_eq_true_eq,
    Std.ExtTreeMap.mem_toList_iff_getElem?_eq_some]
  constructor
  · rintro ⟨⟨key, row, hrow, hitem⟩, hlive⟩
    exact ⟨key, row, hrow, hitem, hlive⟩
  · rintro ⟨key, row, hrow, hitem, hlive⟩
    exact ⟨⟨key, row, hrow, hitem⟩, hlive⟩

/-- Live rows have ids of their own. -/
theorem nodup_selectLive {id : A → Uuid} (hid : ∀ key row, id (ofRow key row) = key) :
    ((selectLive table ofRow deletedAt).map id).Nodup := by
  have hkeys : (table.toList.map Prod.fst).Nodup := by
    rw [List.Nodup, List.pairwise_map]
    exact table.distinct_keys_toList.imp fun hne heq =>
      hne (Std.LawfulEqCmp.compare_eq_iff_eq.mpr heq)
  refine List.Nodup.sublist (List.filter_sublist.map id) ?_
  have hfst : (table.toList.map fun entry => ofRow entry.1 entry.2).map id =
      table.toList.map Prod.fst := by
    rw [List.map_map]
    exact List.map_congr_left fun entry _ => hid entry.1 entry.2
  rw [hfst]
  exact hkeys

end Live

/-- What SQLite takes for white space. -/
def isSqlSpace (c : Char) : Bool := c.toNat = 32 || (9 ≤ c.toNat && c.toNat ≤ 13)

/-- The integer a text is cast to: its longest prefix that is one, and the nearest
one of 64 bits. -/
def castInteger (text : Text) : Int :=
  let magnitude (digits : Text) : Int :=
    (digits.takeWhile Char.isDigit).foldl (fun value digit => 10 * value + (digit.toNat - 48)) 0
  match text.dropWhile isSqlSpace with
  | '-' :: digits => max (-(2 ^ 63)) (-magnitude digits)
  | '+' :: digits => min (2 ^ 63 - 1) (magnitude digits)
  | digits => min (2 ^ 63 - 1) (magnitude digits)

/-- The order of the notes of a notebook. -/
def Note.placeKey (note : Note) : Nat ×ₗ Text := toLex (note.effectiveSortKey, uuidText note.id)

def Note.passesPlace (cursor : Text × Text) (note : Note) : Bool :=
  cursor.1 = [] || castInteger cursor.1 < note.effectiveSortKey ||
    ((note.effectiveSortKey : Int) = castInteger cursor.1 && cursor.2 < uuidText note.id)

def Note.placeToken (note : Note) : Text :=
  pageToken (Nat.toDigits 10 note.effectiveSortKey) note.id

namespace Db

variable (db : Db)

def listNotebookNotes (notebookId : Uuid) (pageSize : Nat) (token : Option Text) :
    List Note × Option Text :=
  selectPage Note.placeKey Note.passesPlace Note.placeToken
    ((liveNoteRows db.notes).filter fun note =>
      (db.notes[note.id]?.bind NoteRow.notebookId) = some notebookId) pageSize token

def listStarredNotes (pageSize : Nat) (token : Option Text) : List Note × Option Text :=
  queryPage db.createdText ((liveNoteRows db.notes).filter Note.isStarred) pageSize token

def liveNotebooks : List Notebook := selectLive db.notebooks rowToNotebook Notebook.deletedAt

def liveTags : List Tag := selectLive db.tags rowToTag Tag.deletedAt

/-- The live tags that are joined with the live associations of the note. -/
def attachedTags (noteId : Uuid) : List Tag :=
  db.liveTags.filter fun tag =>
    db.noteTags[(noteId, tag.id)]?.any fun row => row.deletedAt = none

def liveResources : List Resource := selectLive db.resources rowToResource Resource.deletedAt

def listNotebooks (pageSize : Nat) (token : Option Text) : List Notebook × Option Text :=
  createdPage Notebook.createdAt Notebook.id db.liveNotebooks pageSize token

def listTags (pageSize : Nat) (token : Option Text) : List Tag × Option Text :=
  createdPage Tag.createdAt Tag.id db.liveTags pageSize token

def listNoteTags (noteId : Uuid) (pageSize : Nat) (token : Option Text) :
    List Tag × Option Text :=
  createdPage Tag.createdAt Tag.id (db.attachedTags noteId) pageSize token

def listResources (pageSize : Nat) (token : Option Text) : List Resource × Option Text :=
  createdPage Resource.createdAt Resource.id db.liveResources pageSize token

def listResourcesForNote (noteId : Uuid) (pageSize : Nat) (token : Option Text) :
    List Resource × Option Text :=
  createdPage Resource.createdAt Resource.id
    (db.liveResources.filter fun resource => resource.noteId = noteId) pageSize token

end Db

end Keeplin
