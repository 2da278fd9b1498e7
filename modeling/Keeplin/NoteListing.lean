/-
The listings of notes that are made by queries: the rows in the order of the
texts of their creation instants, in pages after a token.  The token of a page is
rendered from the last note of it, so its text need not be the one in the table.
-/
import Keeplin.InboxOrder
import Keeplin.KeysetWalks
import Keeplin.PageTokens
import Mathlib.Data.Int.Order.Basic

namespace Keeplin

/-- Follow the tokens of a listing, from a page on to the last one. -/
def followTokens {A : Type} (page : Option Text → List A × Option Text) :
    Nat → Option Text → Option (List A)
  | 0, _ => none
  | fuel + 1, token =>
      match page token with
      | (items, none) => some items
      | (items, some next) => (followTokens page fuel (some next)).map fun rest => items ++ rest

/-- The tokens of the pages of a listing. -/
inductive PageToken {A : Type} (page : Option Text → List A × Option Text) : Option Text → Prop
  | first : PageToken page none
  | next {token next} : PageToken page token → (page token).2 = some next →
      PageToken page (some next)

section Pages

variable {A K : Type} [LinearOrder K]

/-- A page of the rows that pass the cursor.  One row more than the page has is
fetched. -/
def selectPage (key : A → K) (passes : Text × Text → A → Bool) (tokenOf : A → Text)
    (items : List A) (pageSize : Nat) (token : Option Text) : List A × Option Text :=
  let limit := effectivePageSize pageSize
  let rows := items.filter (passes (parseCursor token))
  let page := cut limit ((sortBy key rows).take (limit + 1))
  (page.1, page.2.map tokenOf)

variable {key tokenKey : A → K} {passes : Text × Text → A → Bool} {tokenOf : A → Text}
  {items : List A}

/-- A query finds the rows after the key that its token says. -/
theorem selectPage_eq (hkeys : (items.map key).Nodup)
    (hnone : ∀ item, passes (parseCursor none) item = true)
    (htoken : ∀ last item, passes (parseCursor (some (tokenOf last))) item =
      decide (tokenKey last < key item)) (pageSize : Nat) (last : Option A) :
    selectPage key passes tokenOf items pageSize (last.map tokenOf) =
      let page := pageOf key (effectivePageSize pageSize) (last.map tokenKey) (sortBy key items)
      (page.1, page.2.map tokenOf) := by
  have hafter : afterCursor key (last.map tokenKey) (sortBy key items) =
      sortBy key (items.filter (passes (parseCursor (last.map tokenOf)))) := by
    rw [afterCursor, filter_sortBy hkeys]
    congr 2
    funext item
    cases last with
    | none => exact (hnone item).symm
    | some last => exact (htoken last item).symm
  simp only [selectPage, cut_take_succ, pageOf, hafter]

/-- Following the tokens is a walk over the sorted rows. -/
theorem followTokens_selectPage (hkeys : (items.map key).Nodup)
    (hnone : ∀ item, passes (parseCursor none) item = true)
    (htoken : ∀ last item, passes (parseCursor (some (tokenOf last))) item =
      decide (tokenKey last < key item)) (pageSize : Nat) (fuel : Nat) (last : Option A) :
    followTokens (selectPage key passes tokenOf items pageSize) fuel (last.map tokenOf) =
      walk key tokenKey (effectivePageSize pageSize) (sortBy key items) fuel
        (last.map tokenKey) := by
  induction fuel generalizing last with
  | zero => rfl
  | succ fuel ih =>
      have hpage := selectPage_eq hkeys hnone htoken pageSize last
      simp only [followTokens, walk, hpage]
      cases hnext : (pageOf key (effectivePageSize pageSize) (last.map tokenKey)
          (sortBy key items)).2 with
      | none => rfl
      | some next =>
          have hrest := ih (some next)
          simp only [Option.map_some] at hrest ⊢
          rw [hrest]

end Pages

section Query

variable (createdText : Uuid → Text)

/-- What the rows of a query are ordered by. -/
def rowKey (note : Note) : Text ×ₗ Text := toLex (createdText note.id, uuidText note.id)

/-- What the token of a note says. -/
def tokenKey (note : Note) : Text ×ₗ Text :=
  toLex (toSortableRfc3339 note.createdAt, uuidText note.id)

def noteToken (note : Note) : Text := pageToken (toSortableRfc3339 note.createdAt) note.id

/-- The condition of a query on its cursor. -/
def passesCursor (cursor : Text × Text) (note : Note) : Bool :=
  cursor.1 = [] || cursor.1 < createdText note.id ||
    (createdText note.id = cursor.1 && cursor.2 < uuidText note.id)

/-- A page of the notes that meet the other conditions of a query.  One row more
than the page has is fetched. -/
def queryPage (notes : List Note) (pageSize : Nat) (token : Option Text) :
    List Note × Option Text :=
  let limit := effectivePageSize pageSize
  let rows := notes.filter (passesCursor createdText (parseCursor token))
  let page := cut limit ((sortBy (rowKey createdText) rows).take (limit + 1))
  (page.1, page.2.map noteToken)

variable {createdText} {notes : List Note}

theorem passesCursor_none (note : Note) :
    passesCursor createdText (parseCursor none) note = true := rfl

/-- The texts of the cursor are compared as the keys are. -/
theorem passesCursor_token (last note : Note) :
    passesCursor createdText (parseCursor (some (noteToken last))) note =
      decide (tokenKey last < rowKey createdText note) := by
  rw [noteToken, parseCursor_pageToken (toSortableRfc3339_ne_bar last.createdAt)]
  rw [Bool.eq_iff_iff, decide_eq_true_eq, tokenKey, rowKey, Prod.Lex.toLex_lt_toLex]
  simp only [passesCursor, Bool.or_eq_true, Bool.and_eq_true, decide_eq_true_eq,
    toSortableRfc3339_ne_nil, false_or]
  rw [eq_comm (a := createdText note.id)]

theorem queryPage_eq_selectPage (pageSize : Nat) (token : Option Text) :
    queryPage createdText notes pageSize token =
      selectPage (rowKey createdText) (passesCursor createdText) noteToken notes pageSize token :=
  rfl

/-- Following the tokens is a walk over the sorted rows. -/
theorem followTokens_queryPage (hkeys : (notes.map (rowKey createdText)).Nodup) (pageSize : Nat)
    (fuel : Nat) (last : Option Note) :
    followTokens (queryPage createdText notes pageSize) fuel (last.map noteToken) =
      walk (rowKey createdText) tokenKey (effectivePageSize pageSize)
        (sortBy (rowKey createdText) notes) fuel (last.map tokenKey) :=
  followTokens_selectPage hkeys passesCursor_none passesCursor_token pageSize fuel last

end Query

def liveNoteRows (rows : Table NoteRow) : List Note :=
  (rows.toList.filter fun entry => entry.2.deletedAt = none).map fun entry =>
    rowToNote entry.1 entry.2

theorem mem_liveNoteRows {rows : Table NoteRow} {note : Note} :
    note ∈ liveNoteRows rows ↔
      ∃ row, rows[note.id]? = some row ∧ rowToNote note.id row = note ∧ row.deletedAt = none := by
  simp only [liveNoteRows, List.mem_map, List.mem_filter, Prod.exists, decide_eq_true_eq,
    Std.ExtTreeMap.mem_toList_iff_getElem?_eq_some]
  constructor
  · rintro ⟨id, row, ⟨hrow, hlive⟩, rfl⟩
    exact ⟨row, hrow, rfl, hlive⟩
  · rintro ⟨row, hrow, hnote, hlive⟩
    exact ⟨note.id, row, ⟨hrow, hlive⟩, hnote⟩

theorem nodup_liveNoteRows (rows : Table NoteRow) : ((liveNoteRows rows).map Note.id).Nodup := by
  have hkeys : (rows.toList.map Prod.fst).Nodup := by
    rw [List.Nodup, List.pairwise_map]
    exact rows.distinct_keys_toList.imp fun hne heq =>
      hne (Std.LawfulEqCmp.compare_eq_iff_eq.mpr heq)
  rw [liveNoteRows, List.map_map]
  exact hkeys.sublist (List.filter_sublist.map _)

/-- Keys that end in the texts of ids are apart where the ids are. -/
theorem nodup_keys_of_ids {A : Type} {items : List A} {id : A → Uuid} {key : A → Text ×ₗ Text}
    (hkey : ∀ item, (ofLex (key item)).2 = uuidText (id item)) (hids : (items.map id).Nodup)
    (hfit : ∀ item ∈ items, IsUuid (id item)) : (items.map key).Nodup := by
  refine List.Nodup.map_on ?_ (List.Nodup.of_map id hids)
  intro item hitem other hother hsame
  have htexts : uuidText (id item) = uuidText (id other) := by
    rw [← hkey item, ← hkey other, hsame]
  exact List.inj_on_of_nodup_map hids hitem hother
    (uuidText_inj (hfit item hitem) (hfit other hother) htexts)

/-- Notes with ids of their own have keys of their own. -/
theorem nodup_rowKeys {createdText : Uuid → Text} {notes : List Note}
    (hids : (notes.map Note.id).Nodup) (hfit : ∀ note ∈ notes, IsUuid note.id) :
    (notes.map (rowKey createdText)).Nodup :=
  nodup_keys_of_ids (fun _ => rfl) hids hfit

/-- The table of notes with the texts of the creation instants, which have been
written in either rendering. -/
structure NotesTable where
  rows : Table NoteRow
  createdText : Uuid → Text
  ids : ∀ id ∈ rows, IsUuid id
  years : ∀ (id : Uuid) (row : NoteRow), rows[id]? = some row → FourDigitYear row.createdAt
  renderings : ∀ (id : Uuid) (row : NoteRow), rows[id]? = some row →
    IsRendering row.createdAt (createdText id)

namespace NotesTable

variable (table : NotesTable)

def liveNotes : List Note := liveNoteRows table.rows

def listNotes (pageSize : Nat) (token : Option Text) : List Note × Option Text :=
  queryPage table.createdText table.liveNotes pageSize token

/-- The live notes by creation instant and id. -/
def byCreation : List Note :=
  sortBy (fun note => (toLex (note.createdAt, note.id) : Int ×ₗ Nat)) table.liveNotes

/-- With any page size the tokens lead to each live note once, by creation
instant and id. -/
def ListsAll : Prop :=
  ∀ pageSize, ∃ fuel, followTokens (table.listNotes pageSize) fuel none = some table.byCreation

/-- The creation instant is stored in another text than a token has for it. -/
def IsOld (note : Note) : Prop :=
  table.createdText note.id ≠ toSortableRfc3339 note.createdAt

/-- Of the live notes of one instant only the first may be stored in another text
than a token has for the instant. -/
def OldFirst : Prop :=
  ∀ old ∈ table.liveNotes, ∀ other ∈ table.liveNotes, old.createdAt = other.createdAt →
    old.id ≠ other.id → table.IsOld old → ¬ table.IsOld other ∧ old.id < other.id

variable {table}

theorem nodup_ids (table : NotesTable) : (table.liveNotes.map Note.id).Nodup :=
  nodup_liveNoteRows table.rows

/-- What the table knows of a live note. -/
theorem facts {note : Note} (hnote : note ∈ table.liveNotes) :
    IsUuid note.id ∧ FourDigitYear note.createdAt ∧
      IsRendering note.createdAt (table.createdText note.id) := by
  obtain ⟨row, hrow, hsame, -⟩ := mem_liveNoteRows.mp hnote
  have hcreated : note.createdAt = row.createdAt := (congrArg Note.createdAt hsame).symm
  have hmem : note.id ∈ table.rows := Std.ExtTreeMap.mem_iff_isSome_getElem?.mpr (by rw [hrow]; rfl)
  rw [hcreated]
  exact ⟨table.ids note.id hmem, table.years note.id row hrow, table.renderings note.id row hrow⟩

theorem nodup_keys (table : NotesTable) :
    (table.liveNotes.map (rowKey table.createdText)).Nodup :=
  nodup_rowKeys table.nodup_ids fun _ hnote => (facts hnote).1

/-- The rows in the order of a query. -/
def sortedRows (table : NotesTable) : List Note :=
  sortBy (rowKey table.createdText) table.liveNotes

theorem pairwise_sortedRows (table : NotesTable) :
    table.sortedRows.Pairwise fun note later =>
      rowKey table.createdText note < rowKey table.createdText later :=
  pairwise_sortBy table.nodup_keys

theorem rowKey_le_tokenKey {note : Note} (hnote : note ∈ table.liveNotes) :
    rowKey table.createdText note ≤ tokenKey note := by
  rw [rowKey, tokenKey, Prod.Lex.toLex_le_toLex]
  rcases lt_or_eq_of_le (facts hnote).2.2.le with hlt | heq
  · exact Or.inl hlt
  · exact Or.inr ⟨heq, le_refl _⟩

theorem followTokens_listNotes (table : NotesTable) (pageSize fuel : Nat) :
    followTokens (table.listNotes pageSize) fuel none =
      walk (rowKey table.createdText) tokenKey (effectivePageSize pageSize) table.sortedRows fuel
        none :=
  followTokens_queryPage table.nodup_keys pageSize fuel none

/-- Between instants the order of the texts is that of the instants. -/
theorem createdAt_le {note later : Note} (hnote : note ∈ table.liveNotes)
    (hlater : later ∈ table.liveNotes)
    (hlt : rowKey table.createdText note < rowKey table.createdText later) :
    note.createdAt ≤ later.createdAt := by
  obtain ⟨-, hyear, hrendering⟩ := facts hnote
  obtain ⟨-, hyear', hrendering'⟩ := facts hlater
  by_contra hgt
  have htexts := hrendering'.lt hrendering hyear' hyear (not_le.mp hgt)
  exact absurd hlt (Prod.Lex.toLex_lt_toLex.mpr (Or.inl htexts)).asymm

/-- The order of rows of one instant, one of them with the text of a token. -/
theorem rowKey_lt_iff_id {note later : Note} (hnote : note ∈ table.liveNotes)
    (hlater : later ∈ table.liveNotes) (hinstant : note.createdAt = later.createdAt)
    (hnew : ¬ table.IsOld note)
    (hlt : rowKey table.createdText note < rowKey table.createdText later) :
    ¬ table.IsOld later ∧ note.id < later.id := by
  have htext : table.createdText note.id = toSortableRfc3339 note.createdAt := not_not.mp hnew
  have hle := (facts hlater).2.2.le
  rw [rowKey, rowKey, Prod.Lex.toLex_lt_toLex, htext, hinstant] at hlt
  rcases hlt with htexts | ⟨htexts, hids⟩
  · exact absurd hle (not_le.mpr htexts)
  · exact ⟨not_not.mpr htexts.symm, (uuidText_lt_iff (facts hnote).1 (facts hlater).1).mp hids⟩

theorem separated_iff_oldFirst (table : NotesTable) :
    Separated (rowKey table.createdText) tokenKey table.sortedRows ↔ table.OldFirst := by
  rw [separated_iff table.pairwise_sortedRows]
  simp only [sortedRows, mem_sortBy]
  constructor
  · intro hseparated old hold other hother hinstant hids hisOld
    have hle := (facts hold).2.2.le
    have hle' := (facts hother).2.2.le
    have hne : rowKey table.createdText old ≠ rowKey table.createdText other := fun hsame =>
      hids (congrArg Note.id (List.inj_on_of_nodup_map table.nodup_keys hold hother hsame))
    rcases lt_or_gt_of_ne hne with hbefore | hafter
    · have htoken := hseparated old hold other hother hbefore
      rw [tokenKey, rowKey, Prod.Lex.toLex_lt_toLex, hinstant] at htoken
      rcases htoken with htexts | ⟨htexts, hidTexts⟩
      · exact absurd hle' (not_le.mpr htexts)
      · exact ⟨not_not.mpr htexts.symm,
          (uuidText_lt_iff (facts hold).1 (facts hother).1).mp hidTexts⟩
    · have htoken := hseparated other hother old hold hafter
      rw [tokenKey, rowKey, Prod.Lex.toLex_lt_toLex, ← hinstant] at htoken
      rcases htoken with htexts | ⟨htexts, -⟩
      · exact absurd hle (not_le.mpr htexts)
      · exact absurd htexts.symm hisOld
  · intro hfirst note hnote later hlater hlt
    obtain ⟨hid, hyear, hrendering⟩ := facts hnote
    obtain ⟨hid', hyear', hrendering'⟩ := facts hlater
    rcases lt_or_eq_of_le (createdAt_le hnote hlater hlt) with hinstant | hinstant
    · exact Prod.Lex.toLex_lt_toLex.mpr
        (Or.inl (IsRendering.lt (Or.inr rfl) hrendering' hyear hyear' hinstant))
    · by_cases hold : table.IsOld note
      · have hids : note.id ≠ later.id := fun hsame =>
          lt_irrefl _ (List.inj_on_of_nodup_map table.nodup_ids hnote hlater hsame ▸ hlt)
        obtain ⟨hnew, hbefore⟩ := hfirst note hnote later hlater hinstant hids hold
        rw [tokenKey, rowKey, Prod.Lex.toLex_lt_toLex, not_not.mp hnew, hinstant]
        exact Or.inr ⟨rfl, (uuidText_lt_iff hid hid').mpr hbefore⟩
      · have htext : table.createdText note.id = toSortableRfc3339 note.createdAt := not_not.mp hold
        rw [tokenKey, ← htext]
        exact hlt

/-- The rows are by creation instant and id if only the first of an instant is in
another text. -/
theorem byCreation_eq (hfirst : table.OldFirst) : table.sortedRows = table.byCreation := by
  have hkeys : (table.liveNotes.map fun note =>
      (toLex (note.createdAt, note.id) : Int ×ₗ Nat)).Nodup := by
    refine List.Nodup.of_map (fun key => (ofLex key).2) ?_
    rw [List.map_map]
    exact table.nodup_ids
  refine eq_sortBy (table.pairwise_sortedRows.imp_of_mem ?_) hkeys fun note => mem_sortBy
  intro note later hnote hlater hlt
  rw [sortedRows, mem_sortBy] at hnote hlater
  rw [Prod.Lex.toLex_lt_toLex]
  rcases lt_or_eq_of_le (createdAt_le hnote hlater hlt) with hinstant | hinstant
  · exact Or.inl hinstant
  · right
    refine ⟨hinstant, ?_⟩
    by_cases hold : table.IsOld note
    · have hids : note.id ≠ later.id := fun hsame =>
        lt_irrefl _ (List.inj_on_of_nodup_map table.nodup_ids hnote hlater hsame ▸ hlt)
      exact (hfirst note hnote later hlater hinstant hids hold).2
    · exact (rowKey_lt_iff_id hnote hlater hinstant hold hlt).2

theorem listsAll_iff_oldFirst (table : NotesTable) : table.ListsAll ↔ table.OldFirst := by
  have htokens : ∀ note ∈ table.sortedRows, rowKey table.createdText note ≤ tokenKey note :=
    fun note hnote => rowKey_le_tokenKey (mem_sortBy.mp hnote)
  have hwalks := walk_all_iff table.pairwise_sortedRows htokens
    (fun limit => ∃ pageSize, effectivePageSize pageSize = limit) ⟨1, rfl⟩ (by
      rintro limit ⟨pageSize, rfl⟩
      exact effectivePageSize_pos pageSize)
  rw [separated_iff_oldFirst] at hwalks
  rw [← hwalks, ListsAll]
  simp only [followTokens_listNotes]
  constructor
  · rintro hlists limit ⟨pageSize, rfl⟩
    obtain ⟨fuel, hwalk⟩ := hlists pageSize
    have hsublist := walk_sublist table.pairwise_sortedRows htokens (effectivePageSize_pos pageSize)
      hwalk
    rw [afterCursor_none] at hsublist
    have hsame : table.byCreation = table.sortedRows :=
      hsublist.eq_of_length ((perm_sortBy _).trans (perm_sortBy _).symm).length_eq
    exact ⟨fuel, hsame ▸ hwalk⟩
  · intro hall pageSize
    obtain ⟨fuel, hwalk⟩ := hall _ ⟨pageSize, rfl⟩
    exact ⟨fuel, byCreation_eq (hwalks.mp hall) ▸ hwalk⟩

/-- With any page size the walk ends; it returns live notes, none twice, by
creation instant.  With every page size it returns all of them, those of one
instant by id, exactly if of these at most the first has another text. -/
theorem listNotes_walks (table : NotesTable) :
    (∀ pageSize, ∃ fuel visited,
      followTokens (table.listNotes pageSize) fuel none = some visited ∧
        (visited.map Note.id).Nodup ∧ (∀ note ∈ visited, note ∈ table.liveNotes) ∧
        visited.Pairwise fun note later => note.createdAt ≤ later.createdAt) ∧
      (table.ListsAll ↔ table.OldFirst) := by
  refine ⟨fun pageSize => ?_, listsAll_iff_oldFirst table⟩
  have htokens : ∀ note ∈ table.sortedRows, rowKey table.createdText note ≤ tokenKey note :=
    fun note hnote => rowKey_le_tokenKey (mem_sortBy.mp hnote)
  obtain ⟨visited, hwalk⟩ := walk_total table.pairwise_sortedRows htokens
    (effectivePageSize_pos pageSize) (Nat.lt_succ_self _)
  have hsublist := walk_sublist table.pairwise_sortedRows htokens (effectivePageSize_pos pageSize)
    hwalk
  rw [afterCursor_none] at hsublist
  have hlive : ∀ note ∈ visited, note ∈ table.liveNotes :=
    fun note hnote => mem_sortBy.mp (hsublist.subset hnote)
  refine ⟨_, visited, (followTokens_listNotes table pageSize _).trans hwalk, ?_, hlive, ?_⟩
  · exact (((perm_sortBy table.liveNotes).map Note.id).nodup_iff.mpr table.nodup_ids).sublist
      (hsublist.map Note.id)
  · exact (table.pairwise_sortedRows.sublist hsublist).imp_of_mem fun hnote hlater hlt =>
      createdAt_le (hlive _ hnote) (hlive _ hlater) hlt

end NotesTable

namespace NotesTableWitness

def row : NoteRow := NoteRow.ofNote ⟨0, "", "", 0, false, none, none, 0, 0, none, none, [], [], ∅,
  "", false, false, 0⟩

theorem row_of_mem {id : Uuid} {found : NoteRow}
    (hfound : ((∅ : Table NoteRow).insert 1 row |>.insert 2 row)[id]? = some found) :
    found = row := by
  simp only [Std.ExtTreeMap.getElem?_insert, Std.ExtTreeMap.getElem?_empty] at hfound
  split at hfound
  · exact (Option.some.inj hfound).symm
  · split at hfound
    · exact (Option.some.inj hfound).symm
    · contradiction

/-- Two live notes of one instant, both stored in the old rendering. -/
def oldRows : NotesTable where
  rows := (∅ : Table NoteRow).insert 1 row |>.insert 2 row
  createdText _ := toRfc3339 0
  ids id hid := by
    simp only [Std.ExtTreeMap.mem_insert, Std.LawfulEqCmp.compare_eq_iff_eq,
      Std.ExtTreeMap.not_mem_empty, or_false] at hid
    rcases hid with rfl | rfl <;> decide
  years id found hfound := by
    rw [row_of_mem hfound]
    decide
  renderings id found hfound := by
    rw [row_of_mem hfound]
    exact Or.inl rfl

theorem mem_oldRows : rowToNote 1 row ∈ oldRows.liveNotes ∧ rowToNote 2 row ∈ oldRows.liveNotes :=
  ⟨mem_liveNoteRows.mpr ⟨row, by decide, rfl, rfl⟩,
    mem_liveNoteRows.mpr ⟨row, by decide, rfl, rfl⟩⟩

/-- A page that ends on the first of them hides the second. -/
theorem oldRows_lost : ¬ ∀ table : NotesTable, table.ListsAll := by
  intro hall
  have hfirst := (NotesTable.listsAll_iff_oldFirst oldRows).mp (hall oldRows)
  have hisOld : oldRows.IsOld (rowToNote 2 row) := by
    show toRfc3339 0 ≠ toSortableRfc3339 0
    decide
  have hlt := (hfirst _ mem_oldRows.2 _ mem_oldRows.1 rfl (by decide) hisOld).2
  exact absurd hlt (by decide)

end NotesTableWitness

end Keeplin
