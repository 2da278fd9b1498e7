/-
Walks over the listings of the filesystem store.  Each page is fetched from the
files as they are then, with the token of the page before.  An item that keeps
its key is returned once, whatever happens to the others, as long as the texts of
the keys are in the order the listing is in.
-/
import Keeplin.FileListings

namespace Keeplin

universe u v

/-- What each fetch of a walk would answer to a token. -/
abbrev PageFetch (B : Type u) := Nat → Option Text → Except StorageError (List B × Option Text)

section Walk

variable {A : Type u} {B : Type v} {K : Type} (fetch : PageFetch B)

/-- The token of each fetch, as long as the walk goes on. -/
def tokenAt : Nat → Option (Option Text)
  | 0 => some none
  | n + 1 =>
      (tokenAt n).bind fun token =>
        match fetch n token with
        | .error _ => none
        | .ok page => page.2.map some

def returnedAt (n : Nat) : List B :=
  match tokenAt fetch n with
  | none => []
  | some token =>
      match fetch n token with
      | .error _ => []
      | .ok page => page.1

def returned (n : Nat) : List B := (List.range n).flatMap (returnedAt fetch)

/-- No fetch fails.  An item that has no other key is returned at most once; one
that stays shown with its key is returned when the walk has ended, and the walk
ends once the keys stay. -/
structure WalksWhole (idOf : B → Uuid) (keyAt : Nat → Uuid → Option K)
    (shown : Nat → Uuid → Prop) : Prop where
  ok : ∀ n token, tokenAt fetch n = some token → ∃ page, fetch n token = .ok page
  once : ∀ n id key, (∀ m < n, ∀ found, keyAt m id = some found → found = key) →
    ((returned fetch n).map idOf).count id ≤ 1
  all : ∀ n id key, (∀ m < n, keyAt m id = some key ∧ shown m id) →
    tokenAt fetch n = none → ((returned fetch n).map idOf).count id = 1
  ends : ∀ n, (∀ m, n ≤ m → keyAt m = keyAt n) → ∃ m, tokenAt fetch m = none

/-- The fetches cut the pages of a sorted listing and load some of their items. -/
structure CutsPages (limit : Nat) (listing : Nat → List A) (key : A → PageKey)
    (load : Nat → A → Option B) : Prop where
  positive : 0 < limit
  sorted : ∀ n, (listing n).Pairwise fun item later => key item < key later
  readable : ∀ n, ∀ item ∈ listing n, (key item).Readable
  page : ∀ n token, fetch n token =
    let page := pageOf key limit (readPageKey token) (listing n)
    .ok (page.1.filterMap (load n), page.2.map fun last => (key last).token)

/-- The keys of the listing are those of the items, and the items shown are
loaded. -/
structure ListsKeys (listing : Nat → List A) (key : A → PageKey) (load : Nat → A → Option B)
    (textOf : K → Text) (idOf : B → Uuid) (keyAt : Nat → Uuid → Option K)
    (shown : Nat → Uuid → Prop) : Prop where
  keys : ∀ n (id : Uuid) (text : Text), (∃ item ∈ listing n, key item = PageKey.of text id) ↔
    ∃ found, keyAt n id = some found ∧ textOf found = text
  loads : ∀ n, ∀ item ∈ listing n, ∀ value, load n item = some value → idOf value = (key item).id
  shown : ∀ n, ∀ item ∈ listing n, shown n (key item).id → ∃ value, load n item = some value

variable {fetch} {limit : Nat} {listing : Nat → List A} {key : A → PageKey}
  {load : Nat → A → Option B} {textOf : K → Text} {idOf : B → Uuid}
  {keyAt : Nat → Uuid → Option K} {shown : Nat → Uuid → Prop}

theorem CutsPages.readPageKey_cursor (hcuts : CutsPages fetch limit listing key load) {n : Nat}
    {cursor : Option PageKey} (hcursor : cursorAt key limit listing n = some cursor) :
    readPageKey (cursor.map PageKey.token) = cursor := by
  cases cursor with
  | none => rfl
  | some last =>
      cases n with
      | zero => cases hcursor
      | succ n =>
          obtain ⟨before, item, -, hmore, rfl⟩ := cursorAt_succ hcursor
          have hitem : item ∈ listing n :=
            (mem_afterCursor.mp (mem_cut (List.mem_of_getLast? (cut_eq_some hmore).2))).1
          exact readPageKey_token (hcuts.readable n item hitem)

/-- The tokens of a walk are those of its cursors. -/
theorem CutsPages.tokenAt_eq (hcuts : CutsPages fetch limit listing key load) (n : Nat) :
    tokenAt fetch n = (cursorAt key limit listing n).map fun cursor => cursor.map PageKey.token := by
  induction n with
  | zero => rfl
  | succ n ih =>
      cases hcursor : cursorAt key limit listing n with
      | none => simp only [tokenAt, ih, cursorAt, hcursor, Option.map_none, Option.bind_none]
      | some cursor =>
          simp only [tokenAt, ih, cursorAt, hcursor, Option.map_some, Option.bind_some, hcuts.page,
            hcuts.readPageKey_cursor hcursor, Option.map_map]
          rfl

theorem CutsPages.returnedAt_eq (hcuts : CutsPages fetch limit listing key load) (n : Nat) :
    returnedAt fetch n = (pageAt key limit listing n).filterMap (load n) := by
  rw [returnedAt, hcuts.tokenAt_eq, pageAt]
  cases hcursor : cursorAt key limit listing n with
  | none => rfl
  | some cursor => simp only [Option.map_some, hcuts.page, hcuts.readPageKey_cursor hcursor]

theorem mem_listing_of_pageAt {n : Nat} {item : A} (hitem : item ∈ pageAt key limit listing n) :
    item ∈ listing n := by
  rw [pageAt] at hitem
  split at hitem
  · exact absurd hitem List.not_mem_nil
  · exact (mem_afterCursor.mp (mem_cut hitem)).1

/-- What is returned comes from items whose keys increase. -/
theorem CutsPages.pairwise_returned (hcuts : CutsPages fetch limit listing key load)
    (hlists : ListsKeys listing key load textOf idOf keyAt shown) (n : Nat) :
    (returned fetch n).Pairwise fun value later => ∃ m < n, ∃ m' < n,
      ∃ item ∈ listing m, ∃ other ∈ listing m', key item < key other ∧
        (key item).id = idOf value ∧ (key other).id = idOf later := by
  rw [returned, List.pairwise_flatMap]
  constructor
  · intro m hm
    rw [hcuts.returnedAt_eq, List.pairwise_filterMap]
    have hpage : (pageAt key limit listing m).Pairwise fun item later => key item < key later := by
      have hpages := @pairwise_pages _ _ _ key limit listing hcuts.sorted (m + 1)
      rw [List.range_succ, List.flatMap_append, List.flatMap_singleton] at hpages
      exact (List.pairwise_append.mp hpages).2.1
    refine hpage.imp_of_mem fun {item later} hitem hlater hlt value hvalue other hother => ?_
    have hitem := mem_listing_of_pageAt hitem
    have hlater := mem_listing_of_pageAt hlater
    exact ⟨m, List.mem_range.mp hm, m, List.mem_range.mp hm, item, hitem, later, hlater, hlt,
      (hlists.loads m item hitem value hvalue).symm,
      (hlists.loads m later hlater other hother).symm⟩
  · refine List.pairwise_lt_range.imp_of_mem fun {m m'} hm hm' hlt value hvalue other hother => ?_
    rw [hcuts.returnedAt_eq, List.mem_filterMap] at hvalue hother
    obtain ⟨item, hitem, hload⟩ := hvalue
    obtain ⟨later, hlater, hloadLater⟩ := hother
    have hkeys := pageAt_lt hcuts.sorted hlt hitem hlater
    have hitem := mem_listing_of_pageAt hitem
    have hlater := mem_listing_of_pageAt hlater
    exact ⟨m, List.mem_range.mp hm, m', List.mem_range.mp hm', item, hitem, later, hlater, hkeys,
      (hlists.loads m item hitem value hload).symm,
      (hlists.loads m' later hlater other hloadLater).symm⟩

theorem PageKey.eq_of {pageKey : PageKey} {text : Text} (htext : pageKey.text = text) :
    pageKey = PageKey.of text pageKey.id := by
  subst htext
  rfl

theorem ListsKeys.key_of_mem (hlists : ListsKeys listing key load textOf idOf keyAt shown)
    {n : Nat} {item : A} (hitem : item ∈ listing n) :
    ∃ found, keyAt n (key item).id = some found ∧
      key item = PageKey.of (textOf found) (key item).id := by
  obtain ⟨found, hfound, htext⟩ := (hlists.keys n (key item).id (key item).text).mp
    ⟨item, hitem, rfl⟩
  exact ⟨found, hfound, PageKey.eq_of htext.symm⟩

theorem CutsPages.count_returned_le (hcuts : CutsPages fetch limit listing key load)
    (hlists : ListsKeys listing key load textOf idOf keyAt shown) {n : Nat} {id : Uuid} {k : K}
    (hkey : ∀ m < n, ∀ found, keyAt m id = some found → found = k) :
    ((returned fetch n).map idOf).count id ≤ 1 := by
  have hdistinct : ((returned fetch n).map idOf).Pairwise fun first second =>
      ¬ (first = id ∧ second = id) := by
    rw [List.pairwise_map]
    refine (hcuts.pairwise_returned hlists n).imp ?_
    rintro value later ⟨m, hm, m', hm', item, hitem, other, hother, hlt, hid, hid'⟩ ⟨rfl, hsame⟩
    obtain ⟨found, hfound, hitemKey⟩ := hlists.key_of_mem hitem
    obtain ⟨found', hfound', hotherKey⟩ := hlists.key_of_mem hother
    rw [hid] at hfound hitemKey
    rw [hid', hsame] at hfound' hotherKey
    rw [hitemKey, hotherKey, hkey m hm found hfound, hkey m' hm' found' hfound'] at hlt
    exact lt_irrefl _ hlt
  by_contra htwice
  have htwo : [id, id].Sublist ((returned fetch n).map idOf) :=
    List.replicate_sublist_iff.mpr (by omega : 2 ≤ _)
  exact (List.pairwise_cons.mp (hdistinct.sublist htwo)).1 id List.mem_cons_self ⟨rfl, rfl⟩

theorem CutsPages.mem_returned (hcuts : CutsPages fetch limit listing key load)
    (hlists : ListsKeys listing key load textOf idOf keyAt shown) {n : Nat} {id : Uuid} {k : K}
    (hstays : ∀ m < n, keyAt m id = some k ∧ shown m id) (hended : tokenAt fetch n = none) :
    id ∈ (returned fetch n).map idOf := by
  have hpresent : ∀ m < n, ∃ item ∈ listing m, key item = PageKey.of (textOf k) id :=
    fun m hm => (hlists.keys m id (textOf k)).mpr ⟨k, (hstays m hm).1, rfl⟩
  rw [hcuts.tokenAt_eq, Option.map_eq_none_iff] at hended
  obtain ⟨m, hm, item, hitem, hkey⟩ :=
    returned_of_ended hcuts.sorted hcuts.positive hpresent hended
  have hid : (key item).id = id := by rw [hkey]; rfl
  have hlisted := mem_listing_of_pageAt hitem
  obtain ⟨value, hvalue⟩ := hlists.shown m item hlisted (hid ▸ (hstays m hm).2)
  rw [List.mem_map]
  refine ⟨value, ?_, (hlists.loads m item hlisted value hvalue).trans hid⟩
  rw [returned, List.mem_flatMap]
  refine ⟨m, List.mem_range.mpr hm, ?_⟩
  rw [hcuts.returnedAt_eq, List.mem_filterMap]
  exact ⟨item, hitem, hvalue⟩

/-- The keys of a listing are known from those of the items. -/
theorem CutsPages.map_key_eq (hcuts : CutsPages fetch limit listing key load)
    (hlists : ListsKeys listing key load textOf idOf keyAt shown) {n m : Nat}
    (hsame : keyAt m = keyAt n) : (listing m).map key = (listing n).map key := by
  refine (List.pairwise_map.mpr (hcuts.sorted m)).eq_of_mem_iff
    (List.pairwise_map.mpr (hcuts.sorted n)) fun k => ?_
  have hkeys : ∀ n, k ∈ (listing n).map key ↔
      ∃ found, keyAt n k.id = some found ∧ textOf found = k.text := by
    intro n
    rw [← hlists.keys n k.id k.text, List.mem_map]
    rfl
  rw [hkeys, hkeys, hsame]

theorem CutsPages.walksWhole (hcuts : CutsPages fetch limit listing key load)
    (hlists : ListsKeys listing key load textOf idOf keyAt shown) :
    WalksWhole fetch idOf keyAt shown where
  ok n token _ := ⟨_, hcuts.page n token⟩
  once _ _ _ hkey := hcuts.count_returned_le hlists hkey
  all n id k hstays hended := by
    have hone := List.one_le_count_iff.mpr (hcuts.mem_returned hlists hstays hended)
    have hkey : ∀ m < n, ∀ found, keyAt m id = some found → found = k := fun m hm found hfound =>
      Option.some.inj (hfound.symm.trans (hstays m hm).1)
    exact Nat.le_antisymm (hcuts.count_returned_le hlists hkey) hone
  ends n hquiet := by
    obtain ⟨m, hended⟩ := exists_ended hcuts.sorted hcuts.positive fun m hm =>
      hcuts.map_key_eq hlists (hquiet m hm)
    exact ⟨m, by rw [hcuts.tokenAt_eq, hended]; rfl⟩

end Walk

namespace IndexedTree

variable {store : IndexedTree} {shows : NoteMetaEntry → Bool} {keyText : NoteMetaEntry → Text}

/-- The items a listing collects, in the order of their keys. -/
def indexedItems (store : IndexedTree) (shows : NoteMetaEntry → Bool)
    (keyText : NoteMetaEntry → Text) : List (KeyedItem Uuid) :=
  match store.withNoteIndex with
  | .error _ => []
  | .ok idx =>
      sortBy KeyedItem.key ((idx.toList.filter fun entry => shows entry.2).map fun entry =>
        ⟨PageKey.of (keyText entry.2) entry.1, entry.1⟩)

/-- The key of a note that the index shows in a listing. -/
def keyOf {K : Type} (store : IndexedTree) (shows : NoteMetaEntry → Bool)
    (sortKey : NoteMetaEntry → K) (id : Uuid) : Option K :=
  (store.indexEntry id).bind fun entry => if shows entry then some (sortKey entry) else none

/-- The note is read live. -/
def IsLive (store : IndexedTree) (id : Uuid) : Prop :=
  (liveNote (store.tree.mergeNote id)).isSome

/-- The keys of a listing differ, as they have ids of their own. -/
theorem nodup_indexedKeys (shows : NoteMetaEntry → Bool) (keyText : NoteMetaEntry → Text)
    (idx : NoteMetaIndex) :
    (((idx.toList.filter fun entry => shows entry.2).map fun entry =>
      (⟨PageKey.of (keyText entry.2) entry.1, entry.1⟩ : KeyedItem Uuid)).map
        KeyedItem.key).Nodup := by
  have hids := idx.nodup_ids fun entry => shows entry.2
  refine List.Nodup.of_map PageKey.id ?_
  rwa [List.map_map, List.map_map]

theorem Sound.mem_indexedItems (hsound : store.Sound) {item : KeyedItem Uuid} :
    item ∈ store.indexedItems shows keyText ↔ ∃ entry, store.indexEntry item.item = some entry ∧
      shows entry = true ∧ item.key = PageKey.of (keyText entry) item.item := by
  obtain ⟨idx, hidx, hentries⟩ := hsound.withNoteIndex
  simp only [indexedItems, hidx, mem_sortBy, List.mem_map, List.mem_filter, Prod.exists,
    Std.ExtTreeMap.mem_toList_iff_getElem?_eq_some, hentries]
  constructor
  · rintro ⟨id, entry, ⟨hentry, hshows⟩, rfl⟩
    exact ⟨entry, hentry, hshows, rfl⟩
  · rintro ⟨entry, hentry, hshows, hkey⟩
    exact ⟨item.item, entry, ⟨hentry, hshows⟩, by rw [← hkey]⟩

theorem Sound.pairwise_indexedItems (hsound : store.Sound) :
    (store.indexedItems shows keyText).Pairwise fun item later => item.key < later.key := by
  obtain ⟨idx, hidx, -⟩ := hsound.withNoteIndex
  simp only [indexedItems, hidx]
  exact pairwise_sortBy (nodup_indexedKeys shows keyText idx)

/-- The notes of a page that are live when they are read. -/
theorem Sound.materializePage (hsound : store.Sound) (ids : List Uuid) :
    store.tree.materializePage ids =
      .ok (ids.filterMap fun id => liveNote (store.tree.mergeNote id)) := by
  induction ids with
  | nil => rfl
  | cons id rest ih =>
      obtain ⟨found, hfound⟩ := hsound.mergeNote_ok id
      rw [FsTree.materializePage, hfound, List.filterMap_cons, hfound]
      cases found with
      | none => exact ih
      | some note =>
          simp only [liveNote]
          by_cases hlive : note.deletedAt = none
          · rw [if_pos hlive, if_pos hlive, ih]
            rfl
          · rw [if_neg hlive, if_neg hlive]
            exact ih

theorem Sound.listIndexed_eq (hsound : store.Sound) (pageSize : Nat) (token : Option Text) :
    (store.listIndexed shows keyText pageSize token).2 =
      let page := pageOf KeyedItem.key (effectivePageSize pageSize) (readPageKey token)
        (store.indexedItems shows keyText)
      .ok (page.1.filterMap fun item => liveNote (store.tree.mergeNote item.item),
        page.2.map fun last => last.key.token) := by
  obtain ⟨idx, hidx, -⟩ := hsound.withNoteIndex
  have hpage := FilePages.PageCollector.intoPage_collect (nodup_indexedKeys shows keyText idx)
    (effectivePageSize pageSize) token
  simp only [listIndexed, indexedItems, hidx, hpage, hsound.materializePage, List.filterMap_map]
  rfl

end IndexedTree

/-- The files of a store and its index at one moment, with ids of 128 bits. -/
structure FileStore extends IndexedTree where
  sound : toIndexedTree.Sound
  noteIds : ∀ id, (toIndexedTree.indexEntry id).isSome → IsUuid id
  notebookIds : ∀ notebook ∈ tree.liveNotebooks, IsUuid notebook.id
  tagIds : ∀ tag ∈ tree.liveTags, IsUuid tag.id
  resourceIds : ∀ resource ∈ tree.liveResources, IsUuid resource.id

/-- A walk over notes that the index shows under a text of a key. -/
theorem walksWhole_listIndexed {K : Type} (files : Nat → FileStore) (shows : NoteMetaEntry → Bool)
    (sortKey : NoteMetaEntry → K) {textOf : K → Text} (htext : ∀ k, '|' ∉ textOf k)
    (pageSize : Nat) :
    WalksWhole (fun n token =>
        ((files n).listIndexed shows (fun entry => textOf (sortKey entry)) pageSize token).2)
      Note.id (fun n => (files n).keyOf shows sortKey) fun n => (files n).IsLive := by
  have hcuts : CutsPages (fun n token =>
        ((files n).listIndexed shows (fun entry => textOf (sortKey entry)) pageSize token).2)
      (effectivePageSize pageSize)
      (fun n => (files n).indexedItems shows fun entry => textOf (sortKey entry)) KeyedItem.key
      fun n item => liveNote ((files n).tree.mergeNote item.item) :=
    { positive := effectivePageSize_pos pageSize
      sorted := fun n => (files n).sound.pairwise_indexedItems
      readable := by
        intro n item hitem
        obtain ⟨entry, hentry, -, hkey⟩ := (files n).sound.mem_indexedItems.mp hitem
        rw [hkey]
        exact ⟨htext _, (files n).noteIds item.item (by rw [hentry]; rfl)⟩
      page := fun n token => (files n).sound.listIndexed_eq pageSize token }
  refine @CutsPages.walksWhole _ _ K _ _ _ _ _ textOf _ _ _ hcuts ⟨?_, ?_, ?_⟩
  · intro n id text
    simp only [IndexedTree.keyOf, Option.bind_eq_some_iff, Option.ite_none_right_eq_some]
    constructor
    · rintro ⟨item, hitem, hkey⟩
      obtain ⟨entry, hentry, hshows, hitemKey⟩ := (files n).sound.mem_indexedItems.mp hitem
      obtain ⟨htextEq, hid⟩ := Prod.mk.inj (toLex.injective (hitemKey.symm.trans hkey))
      exact ⟨sortKey entry, ⟨entry, hid ▸ hentry, hshows, rfl⟩, htextEq⟩
    · rintro ⟨_, ⟨entry, hentry, hshows, ⟨⟩⟩, rfl⟩
      exact ⟨⟨PageKey.of (textOf (sortKey entry)) id, id⟩,
        (files n).sound.mem_indexedItems.mpr ⟨entry, hentry, hshows, rfl⟩, rfl⟩
  · intro n item hitem note hnote
    obtain ⟨entry, -, -, hkey⟩ := (files n).sound.mem_indexedItems.mp hitem
    rw [hkey]
    exact (files n).sound.note_id (liveNote_eq_some.mp hnote).1
  · intro n item hitem hlive
    obtain ⟨entry, -, -, hkey⟩ := (files n).sound.mem_indexedItems.mp hitem
    rw [hkey] at hlive
    exact Option.isSome_iff_exists.mp hlive

section ByInstant

variable {A : Type} (createdAt : A → DateTime) (id : A → Uuid)

/-- Each id once, and later instants have later texts. -/
structure InTextOrder (items : List A) : Prop where
  ids : (items.map id).Nodup
  texts : ∀ item ∈ items, ∀ later ∈ items, createdAt item < createdAt later →
    toSortableRfc3339 (createdAt item) < toSortableRfc3339 (createdAt later)

/-- Years of four digits are in the order of their texts. -/
theorem inTextOrder_of_fourDigitYear {items : List A} (hids : (items.map id).Nodup)
    (hyears : ∀ item ∈ items, FourDigitYear (createdAt item)) : InTextOrder createdAt id items where
  ids := hids
  texts item hitem later hlater hlt :=
    (toSortableRfc3339_lt_iff (hyears item hitem) (hyears later hlater)).mpr hlt

def instantKey (item : A) : DateTime ×ₗ Uuid := toLex (createdAt item, id item)

def pageKey (item : A) : PageKey := PageKey.of (toSortableRfc3339 (createdAt item)) (id item)

/-- The instant of the item with an id. -/
def instantOf (items : List A) (i : Uuid) : Option DateTime :=
  (items.find? fun item => id item = i).map createdAt

variable {createdAt id} {items : List A}

theorem InTextOrder.pairwise (horder : InTextOrder createdAt id items) :
    (sortBy (instantKey createdAt id) items).Pairwise fun item later =>
      pageKey createdAt id item < pageKey createdAt id later := by
  have hkeys : (items.map (instantKey createdAt id)).Nodup := by
    refine List.Nodup.of_map (fun key => (ofLex key).2) ?_
    rw [List.map_map]
    exact horder.ids
  refine (pairwise_sortBy hkeys).imp_of_mem fun {item later} hitem hlater hlt => ?_
  rw [mem_sortBy] at hitem hlater
  refine Prod.Lex.toLex_lt_toLex.mpr ?_
  rcases Prod.Lex.toLex_lt_toLex.mp hlt with hinstant | ⟨hinstant, hid⟩
  · exact .inl (horder.texts item hitem later hlater hinstant)
  · exact .inr ⟨congrArg toSortableRfc3339 hinstant, hid⟩

theorem InTextOrder.instantOf_eq_some (horder : InTextOrder createdAt id items) {i : Uuid}
    {instant : DateTime} :
    instantOf createdAt id items i = some instant ↔
      ∃ item ∈ items, id item = i ∧ createdAt item = instant := by
  rw [instantOf, Option.map_eq_some_iff]
  constructor
  · rintro ⟨item, hfind, rfl⟩
    exact ⟨item, List.mem_of_find?_eq_some hfind, by simpa using List.find?_some hfind, rfl⟩
  · rintro ⟨item, hitem, rfl, rfl⟩
    cases hfind : items.find? fun other => id other = id item with
    | none => exact absurd (List.find?_eq_none.mp hfind item hitem) (by simp)
    | some other =>
        have hother := List.mem_of_find?_eq_some hfind
        have hid : id other = id item := by simpa using List.find?_some hfind
        exact ⟨other, rfl, by rw [List.inj_on_of_nodup_map horder.ids hother hitem hid]⟩

/-- A walk over a collection sorted by instant. -/
theorem walksWhole_listByInstant (items : Nat → List A)
    (hids : ∀ n, ∀ item ∈ items n, IsUuid (id item))
    (horder : ∀ n, InTextOrder createdAt id (items n)) (pageSize : Nat) :
    WalksWhole (fun n token => .ok (listByInstant createdAt id (items n) pageSize token)) id
      (fun n => instantOf createdAt id (items n)) fun _ _ => True := by
  have hcuts : CutsPages
      (fun n token => .ok (listByInstant createdAt id (items n) pageSize token))
      (effectivePageSize pageSize) (fun n => sortBy (instantKey createdAt id) (items n))
      (pageKey createdAt id) fun _ => some :=
    { positive := effectivePageSize_pos pageSize
      sorted := fun n => (horder n).pairwise
      readable := fun n item hitem =>
        ⟨toSortableRfc3339_ne_bar _, hids n item (mem_sortBy.mp hitem)⟩
      page := by
        intro n token
        have hpage := FilePages.paginate_eq (horder n).pairwise (effectivePageSize pageSize) token
        simp only [List.filterMap_some]
        exact congrArg Except.ok hpage }
  refine @CutsPages.walksWhole _ _ _ _ _ _ _ _ toSortableRfc3339 _ _ _ hcuts ⟨?_, ?_, ?_⟩
  · intro n i text
    simp only [(horder n).instantOf_eq_some, mem_sortBy]
    constructor
    · rintro ⟨item, hitem, hkey⟩
      obtain ⟨htext, hid⟩ := Prod.mk.inj (toLex.injective hkey)
      exact ⟨createdAt item, ⟨item, hitem, hid, rfl⟩, htext⟩
    · rintro ⟨_, ⟨item, hitem, rfl, rfl⟩, rfl⟩
      exact ⟨item, hitem, rfl⟩
  · rintro n item hitem _ ⟨⟩
    rfl
  · exact fun n item _ _ => ⟨item, rfl⟩

end ByInstant

namespace FsTree

variable {tree : FsTree}

theorem mem_liveFiles {A : Type} {deletedAt : A → Option DateTime} {files : List (Sidecar A)}
    {value : A} :
    value ∈ liveFiles deletedAt files ↔ .readable value ∈ files ∧ deletedAt value = none := by
  rw [liveFiles, List.mem_filterMap]
  constructor
  · rintro ⟨file, hfile, hvalue⟩
    cases file with
    | unreadable => cases hvalue
    | readable found =>
        obtain ⟨hlive, ⟨⟩⟩ := Option.ite_none_right_eq_some.mp hvalue
        exact ⟨hfile, hlive⟩
  · rintro ⟨hfile, hlive⟩
    exact ⟨_, hfile, if_pos hlive⟩

theorem mem_liveTags_of_attached {noteId : Uuid} {tag : Tag}
    (htag : tag ∈ tree.attachedTags noteId) : tag ∈ tree.liveTags := by
  obtain ⟨hfile, hlive⟩ := mem_liveFiles.mp htag
  obtain ⟨tagId, -, hread⟩ := List.mem_filterMap.mp hfile
  exact mem_liveFiles.mpr ⟨List.mem_map_of_mem (Directory.file?_mem hread), hlive⟩

theorem mem_liveResources_of_note {noteId : Uuid} {resource : Resource}
    (hresource : resource ∈ tree.noteResources noteId) : resource ∈ tree.liveResources := by
  refine List.mem_flatMap.mpr ⟨noteId, ?_, hresource⟩
  by_contra hmissing
  have hfolder : tree.noteFolder noteId = .empty := by
    rw [noteFolder, Directory.file?_eq_none_iff.mpr]
    · rfl
    · exact fun folder hmem => hmissing (List.mem_map.mpr ⟨(noteId, folder), hmem, rfl⟩)
  simp [noteResources, noteResourceIds, hfolder, NoteFolder.empty, liveFiles] at hresource

end FsTree

namespace FileStore

/-- The walks over notes are whole. -/
structure NoteWalks (files : Nat → FileStore) (pageSize : Nat) : Prop where
  notes : WalksWhole (fun n token => ((files n).listNotes pageSize token).2) Note.id
    (fun n => (files n).keyOf (fun _ => true) NoteMetaEntry.createdAt) fun n => (files n).IsLive
  notebookNotes : ∀ notebookId,
    WalksWhole (fun n token => ((files n).listNotebookNotes notebookId pageSize token).2) Note.id
      (fun n => (files n).keyOf (fun entry => entry.notebookId = notebookId)
        NoteMetaEntry.effectiveSortKey) fun n => (files n).IsLive
  starredNotes : WalksWhole (fun n token => ((files n).listStarredNotes pageSize token).2) Note.id
    (fun n => (files n).keyOf NoteMetaEntry.isStarred NoteMetaEntry.createdAt)
    fun n => (files n).IsLive

/-- A walk over a collection that is sorted by instant is whole. -/
def WalksItems {A : Type} (createdAt : A → DateTime) (id : A → Uuid) (items : Nat → List A)
    (fetch : Nat → Option Text → List A × Option Text) : Prop :=
  WalksWhole (fun n token => .ok (fetch n token)) id (fun n => instantOf createdAt id (items n))
    fun _ _ => True

/-- The other walks are whole. -/
structure ItemWalks (files : Nat → FileStore) (pageSize : Nat) : Prop where
  notebooks : WalksItems Notebook.createdAt Notebook.id (fun n => (files n).tree.liveNotebooks)
    fun n token => (files n).tree.listNotebooks pageSize token
  tags : WalksItems Tag.createdAt Tag.id (fun n => (files n).tree.liveTags)
    fun n token => (files n).tree.listTags pageSize token
  noteTags : ∀ noteId,
    WalksItems Tag.createdAt Tag.id (fun n => (files n).tree.attachedTags noteId)
      fun n token => (files n).tree.listNoteTags noteId pageSize token
  resources : WalksItems Resource.createdAt Resource.id (fun n => (files n).tree.liveResources)
    fun n token => (files n).tree.listResources pageSize token
  noteResources : ∀ noteId,
    WalksItems Resource.createdAt Resource.id (fun n => (files n).tree.noteResources noteId)
      fun n token => (files n).tree.listResourcesForNote noteId pageSize token

/-- Later instants have later texts in every listing sorted by instant, and no id
is listed twice. -/
structure OrdersTexts (files : FileStore) : Prop where
  notebooks : InTextOrder Notebook.createdAt Notebook.id files.tree.liveNotebooks
  tags : InTextOrder Tag.createdAt Tag.id files.tree.liveTags
  noteTags : ∀ noteId, InTextOrder Tag.createdAt Tag.id (files.tree.attachedTags noteId)
  resources : InTextOrder Resource.createdAt Resource.id files.tree.liveResources
  noteResources : ∀ noteId,
    InTextOrder Resource.createdAt Resource.id (files.tree.noteResources noteId)

theorem decimal10_ne_bar (number : Nat) : '|' ∉ decimal 10 number :=
  fun hbar => decimal_ne_bar hbar rfl

/-- The pages of notes are collected and cut by the same keys. -/
theorem noteWalks (files : Nat → FileStore) (pageSize : Nat) : NoteWalks files pageSize where
  notes := walksWhole_listIndexed files (fun _ => true) NoteMetaEntry.createdAt
    toSortableRfc3339_ne_bar pageSize
  notebookNotes notebookId :=
    walksWhole_listIndexed files (fun entry => entry.notebookId = notebookId)
      NoteMetaEntry.effectiveSortKey decimal10_ne_bar pageSize
  starredNotes := walksWhole_listIndexed files NoteMetaEntry.isStarred NoteMetaEntry.createdAt
    toSortableRfc3339_ne_bar pageSize

theorem itemWalks (files : Nat → FileStore) (horder : ∀ n, (files n).OrdersTexts)
    (pageSize : Nat) : ItemWalks files pageSize where
  notebooks := walksWhole_listByInstant _ (fun n => (files n).notebookIds)
    (fun n => (horder n).notebooks) pageSize
  tags := walksWhole_listByInstant _ (fun n => (files n).tagIds) (fun n => (horder n).tags) pageSize
  noteTags noteId := walksWhole_listByInstant _
    (fun n tag htag => (files n).tagIds tag (FsTree.mem_liveTags_of_attached htag))
    (fun n => (horder n).noteTags noteId) pageSize
  resources := walksWhole_listByInstant _ (fun n => (files n).resourceIds)
    (fun n => (horder n).resources) pageSize
  noteResources noteId := walksWhole_listByInstant _
    (fun n resource hresource =>
      (files n).resourceIds resource (FsTree.mem_liveResources_of_note hresource))
    (fun n => (horder n).noteResources noteId) pageSize

/-- Whatever happens between the fetches, the walks over notes are whole, and so
are the others while the order of instants is that of their texts. -/
theorem keysetWalks (files : Nat → FileStore) (pageSize : Nat) :
    NoteWalks files pageSize ∧ ((∀ n, (files n).OrdersTexts) → ItemWalks files pageSize) :=
  ⟨noteWalks files pageSize, fun horder => itemWalks files horder pageSize⟩

end FileStore

namespace FarYear

def notebook (id : Uuid) (createdAt : DateTime) : Notebook :=
  ⟨id, "", createdAt, createdAt, none, none, ∅, "A"⟩

/-- 8400 years, or 21 cycles of the calendar, after the epoch. -/
def year10370 : DateTime := 21 * 146097 * 86400 * 1000000000

/-- A store without notes, with notebooks of the two instants. -/
def store (first second : DateTime) : IndexedTree :=
  ⟨⟨"A", [], [(1, .readable (notebook 1 first)), (2, .readable (notebook 2 second))], [], [], []⟩,
    none⟩

theorem liveNotebooks_store (first second : DateTime) :
    (store first second).tree.liveNotebooks = [notebook 1 first, notebook 2 second] := rfl

def files (first second : DateTime) : FileStore where
  toIndexedTree := store first second
  sound :=
    { folders := List.nodup_nil
      logs := fun _ => List.nodup_nil
      filed := fun _ _ hlog => absurd hlog List.not_mem_nil
      projected := fun _ _ hvalue => by cases hvalue
      merges := fun _ => ⟨_, rfl⟩ }
  noteIds id hentry := by
    have hnone : (store first second).indexEntry id = none := rfl
    rw [hnone] at hentry
    cases hentry
  notebookIds found hfound := by
    rw [liveNotebooks_store] at hfound
    rcases List.mem_pair.mp hfound with rfl | rfl
    · exact (by decide : IsUuid 1)
    · exact (by decide : IsUuid 2)
  tagIds _ htag := absurd htag List.not_mem_nil
  resourceIds _ hresource := absurd hresource List.not_mem_nil

theorem sorted_store {first second : DateTime} (hlt : first < second) :
    sortBy (instantKey Notebook.createdAt Notebook.id) (store first second).tree.liveNotebooks =
      [notebook 1 first, notebook 2 second] := by
  have hids : ([notebook 1 first, notebook 2 second].map Notebook.id).Nodup :=
    (by decide : [1, 2].Nodup)
  rw [liveNotebooks_store, eq_comm]
  refine eq_sortBy ?_ ?_ fun _ => Iff.rfl
  · rw [List.pairwise_pair]
    exact Prod.Lex.toLex_lt_toLex.mpr (.inl hlt)
  · refine List.Nodup.of_map (fun key => (ofLex key).2) ?_
    rwa [List.map_map]

def key (id : Uuid) (createdAt : DateTime) : PageKey :=
  pageKey Notebook.createdAt Notebook.id (notebook id createdAt)

theorem listNotebooks_store {first second : DateTime} (hlt : first < second)
    (token : Option Text) : (store first second).tree.listNotebooks 1 token =
      FilePages.paginate [notebook 1 first, notebook 2 second] 1 token
        (pageKey Notebook.createdAt Notebook.id) :=
  congrArg (fun items => FilePages.paginate items 1 token (pageKey Notebook.createdAt Notebook.id))
    (sorted_store hlt)

theorem readPageKey_first (createdAt : DateTime) :
    readPageKey (some (key 1 createdAt).token) = some (key 1 createdAt) :=
  readPageKey_token ⟨toSortableRfc3339_ne_bar _, (by decide : IsUuid 1)⟩

/-- The page after the first notebook is empty, and there is no other. -/
theorem listNotebooks_far :
    (store 0 year10370).tree.listNotebooks 1 none =
      ([notebook 1 0], some (key 1 0).token) ∧
    (store 0 year10370).tree.listNotebooks 1 (some (key 1 0).token) = ([], none) := by
  have hlt : (0 : DateTime) < year10370 := by decide
  have hpassed : key 2 year10370 ≤ key 1 0 :=
    le_of_lt (Prod.Lex.toLex_lt_toLex.mpr
      (.inl (by decide : toSortableRfc3339 year10370 < toSortableRfc3339 0)))
  refine ⟨listNotebooks_store hlt none, (listNotebooks_store hlt _).trans ?_⟩
  have hdrop : partitionPoint (fun item =>
      pageKey Notebook.createdAt Notebook.id item ≤ key 1 0)
      [notebook 1 0, notebook 2 year10370] = 2 := by
    have hfirst : pageKey Notebook.createdAt Notebook.id (notebook 1 0) ≤ key 1 0 := le_refl _
    have hsecond : pageKey Notebook.createdAt Notebook.id (notebook 2 year10370) ≤ key 1 0 :=
      hpassed
    simp [partitionPoint, hfirst, hsecond]
  simp only [FilePages.paginate, readPageKey_first, hdrop]
  rfl

/-- The second notebook is not returned. -/
theorem not_walks_far : ¬ ∀ (files : Nat → FileStore) (pageSize : Nat),
    FileStore.NoteWalks files pageSize ∧ FileStore.ItemWalks files pageSize := by
  intro hall
  have hwalks := (hall (fun _ => files 0 year10370) 1).2.notebooks
  obtain ⟨hfirst, hsecond⟩ := listNotebooks_far
  have hended : tokenAt (fun _ token => .ok ((store 0 year10370).tree.listNotebooks 1 token)) 2 =
      (none : Option (Option Text)) := by
    simp only [tokenAt, Option.bind_some, hfirst, hsecond, Option.map_some, Option.map_none]
  have hreturned : returned (fun _ token =>
      .ok ((store 0 year10370).tree.listNotebooks 1 token)) 2 = [notebook 1 0] := by
    rw [returned, List.range_succ, List.range_one]
    simp only [List.cons_append, List.nil_append, List.flatMap_cons, List.flatMap_nil, returnedAt,
      tokenAt, Option.bind_some, hfirst, hsecond, Option.map_some, List.append_nil]
  have honce := hwalks.all 2 2 year10370 (fun m _ => ⟨rfl, trivial⟩) hended
  have hnone : ((returned (fun _ token =>
      .ok ((store 0 year10370).tree.listNotebooks 1 token)) 2).map Notebook.id).count 2 = 0 := by
    rw [hreturned]
    rfl
  exact absurd (hnone.symm.trans honce) (by decide)

theorem ordersTexts_files {first second : DateTime} (hfirst : FourDigitYear first)
    (hsecond : FourDigitYear second) : (files first second).OrdersTexts where
  notebooks := by
    refine inTextOrder_of_fourDigitYear _ _ (by decide : [1, 2].Nodup) fun found hfound => ?_
    rcases List.mem_pair.mp hfound with rfl | rfl
    · exact hfirst
    · exact hsecond
  tags := ⟨List.nodup_nil, by rintro _ ⟨⟩⟩
  noteTags _ := ⟨List.nodup_nil, by rintro _ ⟨⟩⟩
  resources := ⟨List.nodup_nil, by rintro _ ⟨⟩⟩
  noteResources _ := ⟨List.nodup_nil, by rintro _ ⟨⟩⟩

/-- The second notebook gets another key after the first page. -/
def rekeyed (n : Nat) : FileStore := if n = 0 then files 0 1000000000 else files 0 2000000000

theorem walks_rekeyed : FileStore.NoteWalks rekeyed 1 ∧ FileStore.ItemWalks rekeyed 1 := by
  obtain ⟨hnotes, hitems⟩ := FileStore.keysetWalks rekeyed 1
  refine ⟨hnotes, hitems fun n => ?_⟩
  rw [rekeyed]
  split
  · exact ordersTexts_files (by decide) (by decide)
  · exact ordersTexts_files (by decide) (by decide)

end FarYear

end Keeplin
