/-
Items listed by key in pages after a cursor, and given new keys page by page
while the listing goes on.  The new keys of the pages that are done have to stay
behind the cursor; then each item is visited once, otherwise one comes again.
-/
import Mathlib.Data.Finset.Prod
import Mathlib.Data.List.Sort
import Mathlib.Data.Prod.Lex
import Keeplin.KeysetWalks

namespace Keeplin

universe u

structure Keyed (K : Type u) where
  key : Nat
  id : K
deriving DecidableEq, Repr

variable {K : Type u} [LinearOrder K]

/-- By key, and by id among equal keys. -/
instance : LinearOrder (Keyed K) :=
  LinearOrder.lift' (fun item => toLex (item.key, item.id)) (by
    rintro ⟨key, id⟩ ⟨otherKey, otherId⟩ heq
    simpa using heq)

namespace Keyed

variable {first second : Keyed K}

theorem lt_iff :
    first < second ↔ first.key < second.key ∨ first.key = second.key ∧ first.id < second.id :=
  Prod.Lex.toLex_lt_toLex

theorem key_le_of_lt (hlt : first < second) : first.key ≤ second.key := by
  rcases lt_iff.mp hlt with hkey | ⟨hkey, -⟩
  · exact Nat.le_of_lt hkey
  · exact Nat.le_of_eq hkey

end Keyed

/-- The item is not among those the cursor has passed. -/
def isAfter (cursor : Option (Keyed K)) (item : Keyed K) : Bool :=
  match cursor with
  | none => true
  | some last => last < item

/-- The first `limit` items, and the last of these if there are more. -/
def cutPage (limit : Nat) (items : List (Keyed K)) : List (Keyed K) × Option (Keyed K) :=
  (items.take limit, if limit < items.length then (items.take limit).getLast? else none)

/-- A page of at most `limit` items after the cursor, and the cursor of the next
page if there is one. -/
def pageAfter (limit : Nat) (cursor : Option (Keyed K)) (items : List (Keyed K)) :
    List (Keyed K) × Option (Keyed K) :=
  cutPage limit (items.filter (isAfter cursor))

/-- Give an item a new key. -/
def rekey (id : K) (key : Nat) (items : List (Keyed K)) : List (Keyed K) :=
  (items.filter fun item => item.id ≠ id).orderedInsert (· ≤ ·) ⟨key, id⟩

/-- The keys `next`, `next + step`, ... for the items of a page; no key is above
`top`. -/
def renumberPage (step top : Nat) :
    List (Keyed K) → Nat → List (Keyed K) → List (Keyed K) × Nat
  | [], next, items => (items, next)
  | item :: rest, next, items =>
      renumberPage step top rest (min (next + step) top) (rekey item.id next items)

/-- Page after page; the result has the items and the ids in the order they were
visited. -/
def renumber (limit step top : Nat) :
    Nat → Option (Keyed K) → Nat → List (Keyed K) → Option (List (Keyed K) × List K)
  | 0, _, _, _ => none
  | fuel + 1, cursor, next, items =>
      let page := pageAfter limit cursor items
      let renumbered := renumberPage step top page.1 next items
      match page.2 with
      | none => some (renumbered.1, page.1.map Keyed.id)
      | some last =>
          (renumber limit step top fuel (some last) renumbered.2 renumbered.1).map
            fun found => (found.1, page.1.map Keyed.id ++ found.2)

/-- The items in the order they are in, with the keys `first`, `first + step`, ... -/
def numbered (step : Nat) : Nat → List (Keyed K) → List (Keyed K)
  | _, [] => []
  | first, item :: rest => ⟨first, item.id⟩ :: numbered step (first + step) rest

/-- Sorted, with each id once. -/
structure Ordered (items : List (Keyed K)) : Prop where
  sorted : items.Pairwise (· < ·)
  ids : (items.map Keyed.id).Nodup

omit [LinearOrder K] in
/-- One item more than the page is enough to cut it. -/
theorem cutPage_take_succ (limit : Nat) (items : List (Keyed K)) :
    cutPage limit (items.take (limit + 1)) = cutPage limit items :=
  cut_take_succ limit items

variable {step top limit : Nat} {items others : List (Keyed K)} {item : Keyed K}

theorem mem_rekey {id : K} {key : Nat} :
    item ∈ rekey id key items ↔ item = ⟨key, id⟩ ∨ item ∈ items ∧ item.id ≠ id := by
  simp [rekey, List.mem_orderedInsert, List.mem_filter]

theorem Ordered.rekey (hitems : Ordered items) (id : K) (key : Nat) :
    Ordered (rekey id key items) where
  sorted := by
    have hkept : (items.filter fun item => item.id ≠ id).Pairwise (· ≤ ·) :=
      (hitems.sorted.sublist List.filter_sublist).imp le_of_lt
    have hsorted := List.Pairwise.orderedInsert (⟨key, id⟩ : Keyed K) _ hkept
    have hnodup : (Keeplin.rekey id key items).Nodup := by
      rw [Keeplin.rekey, (List.perm_orderedInsert _ _ _).nodup_iff, List.nodup_cons]
      exact ⟨by simp, (hitems.sorted.imp ne_of_lt).sublist List.filter_sublist⟩
    exact hsorted.imp₂ (fun _ _ hle hne => lt_of_le_of_ne hle hne) hnodup
  ids := by
    have hperm := (List.perm_orderedInsert (· ≤ ·) (⟨key, id⟩ : Keyed K)
      (items.filter fun item => item.id ≠ id)).map Keyed.id
    rw [Keeplin.rekey, hperm.nodup_iff, List.map_cons, List.nodup_cons]
    exact ⟨by simp, hitems.ids.sublist (List.filter_sublist.map _)⟩

/-- Sorted lists of the same items are the same. -/
theorem Ordered.eq_of_mem_iff (hitems : Ordered items) (hothers : Ordered others)
    (hsame : ∀ item, item ∈ items ↔ item ∈ others) : items = others :=
  hitems.sorted.eq_of_mem_iff hothers.sorted hsame

theorem Ordered.eq_of_id (hitems : Ordered items) {other : Keyed K} (hitem : item ∈ items)
    (hother : other ∈ items) (hid : item.id = other.id) : item = other :=
  List.inj_on_of_nodup_map hitems.ids hitem hother hid

/-- An item that has the key already keeps its place. -/
theorem rekey_of_mem (hitems : Ordered items) (hitem : item ∈ items) :
    rekey item.id item.key items = items := by
  apply (hitems.rekey item.id item.key).eq_of_mem_iff hitems
  intro other
  rw [mem_rekey]
  constructor
  · rintro (rfl | ⟨hother, -⟩)
    · exact hitem
    · exact hother
  · intro hother
    by_cases hid : other.id = item.id
    · exact .inl (hitems.eq_of_id hother hitem hid)
    · exact .inr ⟨hother, hid⟩

theorem Ordered.renumberPage (hitems : Ordered items) (page : List (Keyed K)) (next : Nat) :
    Ordered (renumberPage step top page next items).1 := by
  induction page generalizing next items with
  | nil => exact hitems
  | cons item rest ih => exact ih (hitems.rekey item.id next) _

/-- An item of the page has one of the new keys, any other is as it was. -/
theorem mem_renumberPage (step : Nat) (page items : List (Keyed K)) {next low high : Nat}
    (hlow : low ≤ next) (hlowTop : low ≤ top) (hhigh : next ≤ high) (hhighTop : top ≤ high) :
    (low ≤ (renumberPage step top page next items).2 ∧
        (renumberPage step top page next items).2 ≤ high) ∧
      ∀ item ∈ (renumberPage step top page next items).1,
        (item ∈ items ∧ ∀ other ∈ page, other.id ≠ item.id) ∨
          (low ≤ item.key ∧ item.key ≤ high ∧ ∃ other ∈ page, other.id = item.id) := by
  induction page generalizing next items with
  | nil => exact ⟨⟨hlow, hhigh⟩, fun item hitem => .inl ⟨hitem, by simp⟩⟩
  | cons head rest ih =>
      obtain ⟨hnext, hrest⟩ := ih (rekey head.id next items)
        (le_min (Nat.le_add_right_of_le hlow) hlowTop)
        (Nat.le_trans (Nat.min_le_right _ _) hhighTop)
      refine ⟨hnext, fun item hitem => ?_⟩
      rcases hrest item hitem with ⟨hrekeyed, hothers⟩ | ⟨hitemLow, hitemHigh, other, hother, hid⟩
      · rcases mem_rekey.mp hrekeyed with rfl | ⟨hold, hne⟩
        · exact .inr ⟨hlow, hhigh, head, List.mem_cons_self, rfl⟩
        · refine .inl ⟨hold, fun other hother => ?_⟩
          rcases List.mem_cons.mp hother with rfl | hlater
          · exact hne.symm
          · exact hothers other hlater
      · exact .inr ⟨hitemLow, hitemHigh, other, List.mem_cons_of_mem _ hother, hid⟩

theorem le_top_renumberPage (step : Nat) (page : List (Keyed K)) {next : Nat}
    (hnext : next ≤ top) (hitems : ∀ item ∈ items, item.key ≤ top) :
    (renumberPage step top page next items).2 ≤ top ∧
      ∀ item ∈ (renumberPage step top page next items).1, item.key ≤ top := by
  obtain ⟨hfollowing, hall⟩ := mem_renumberPage step page items (Nat.zero_le next)
    (Nat.zero_le top) hnext (Nat.le_refl top)
  refine ⟨hfollowing.2, fun item hitem => ?_⟩
  rcases hall item hitem with ⟨hold, -⟩ | ⟨-, hkey, -⟩
  · exact hitems item hold
  · exact hkey

/-- No key is ever above the top. -/
theorem le_top_renumber {fuel : Nat} {cursor : Option (Keyed K)} {next : Nat}
    (hnext : next ≤ top) (hitems : ∀ item ∈ items, item.key ≤ top)
    {final : List (Keyed K)} {visited : List K}
    (hrun : renumber limit step top fuel cursor next items = some (final, visited)) :
    ∀ item ∈ final, item.key ≤ top := by
  induction fuel generalizing cursor next items visited with
  | zero => cases hrun
  | succ fuel ih =>
      obtain ⟨hafter, hkeys⟩ :=
        le_top_renumberPage step (pageAfter limit cursor items).1 hnext hitems
      simp only [renumber] at hrun
      split at hrun
      · cases hrun
        exact hkeys
      · obtain ⟨⟨found, rest⟩, hfound, heq⟩ := Option.map_eq_some_iff.mp hrun
        cases heq
        exact ih hafter hkeys hfound

/-- An item that is not on the page keeps its key. -/
theorem mem_renumberPage_of_ne {page : List (Keyed K)} (hitem : item ∈ items)
    (hne : ∀ other ∈ page, other.id ≠ item.id) (next : Nat) :
    item ∈ (renumberPage step top page next items).1 := by
  induction page generalizing next items with
  | nil => exact hitem
  | cons other rest ih =>
      apply ih
      · exact mem_rekey.mpr (.inr ⟨hitem, (hne other List.mem_cons_self).symm⟩)
      · exact fun later hlater => hne later (List.mem_cons_of_mem _ hlater)

/-- Either the page is the last one, or the rest is behind its last item. -/
theorem pageAfter_cases (hlimit : 0 < limit) (hitems : Ordered items) (cursor : Option (Keyed K)) :
    ((pageAfter limit cursor items).2 = none ∧
        ∀ item ∈ items, isAfter cursor item = true → item ∈ (pageAfter limit cursor items).1) ∨
      ∃ last, (pageAfter limit cursor items).2 = some last ∧
        last ∈ (pageAfter limit cursor items).1 ∧
        ∀ item ∈ items, isAfter cursor item = true → item ∉ (pageAfter limit cursor items).1 →
          last < item := by
  have hsorted := hitems.sorted.sublist (List.filter_sublist (p := isAfter cursor))
  have hrest : ∀ item ∈ items, isAfter cursor item = true → item ∈ items.filter (isAfter cursor) :=
    fun item hitem hafter => List.mem_filter.mpr ⟨hitem, hafter⟩
  simp only [pageAfter, cutPage]
  generalize items.filter (isAfter cursor) = rest at hsorted hrest ⊢
  by_cases hmore : limit < rest.length
  · rw [if_pos hmore]
    cases hlast : (rest.take limit).getLast? with
    | none =>
        rw [List.getLast?_eq_none_iff, List.take_eq_nil_iff] at hlast
        rcases hlast with hzero | rfl
        · omega
        · exact absurd hmore (Nat.not_lt_zero _)
    | some last =>
        have hmem := List.mem_of_getLast? hlast
        refine .inr ⟨last, rfl, hmem, fun item hitem hafter hnot => ?_⟩
        have hitem := hrest item hitem hafter
        rw [← List.take_append_drop limit rest] at hitem hsorted
        exact (List.pairwise_append.mp hsorted).2.2 last hmem item
          ((List.mem_append.mp hitem).resolve_left hnot)
  · rw [if_neg hmore]
    refine .inl ⟨rfl, fun item hitem hafter => ?_⟩
    rw [List.take_of_length_le (Nat.not_lt.mp hmore)]
    exact hrest item hitem hafter

/-- What is after the cursor is visited before the run ends. -/
theorem mem_visited (hlimit : 0 < limit) {fuel : Nat} {cursor : Option (Keyed K)} {next : Nat}
    (hitems : Ordered items) (hitem : item ∈ items) (hafter : isAfter cursor item = true)
    {final : List (Keyed K)} {visited : List K}
    (hrun : renumber limit step top fuel cursor next items = some (final, visited)) :
    item.id ∈ visited := by
  induction fuel generalizing cursor next items visited with
  | zero => cases hrun
  | succ fuel ih =>
      rcases pageAfter_cases hlimit hitems cursor with ⟨hnone, hall⟩ | ⟨last, hmore, -, hbehind⟩
      · simp only [renumber, hnone] at hrun
        cases hrun
        exact List.mem_map_of_mem (hall item hitem hafter)
      · simp only [renumber, hmore] at hrun
        obtain ⟨⟨found, rest⟩, hfound, heq⟩ := Option.map_eq_some_iff.mp hrun
        cases heq
        by_cases hpage : item ∈ (pageAfter limit cursor items).1
        · exact List.mem_append_left _ (List.mem_map_of_mem hpage)
        · apply List.mem_append_right
          refine ih (hitems.renumberPage _ _) (mem_renumberPage_of_ne hitem ?_ _) ?_ hfound
          · intro other hother hid
            have hmem := (List.mem_filter.mp (List.mem_of_mem_take hother)).1
            exact hpage (hitems.eq_of_id hmem hitem hid ▸ hother)
          · exact decide_eq_true (hbehind item hitem hafter hpage)

/-- A run that has reached every item leaves no key below the first it gives. -/
theorem le_renumber (hlimit : 0 < limit) {low : Nat} (hlowTop : low ≤ top) {fuel : Nat}
    {cursor : Option (Keyed K)} {next : Nat} (hitems : Ordered items) (hlow : low ≤ next)
    (hbefore : ∀ item ∈ items, low ≤ item.key ∨ isAfter cursor item = true)
    {final : List (Keyed K)} {visited : List K}
    (hrun : renumber limit step top fuel cursor next items = some (final, visited)) :
    ∀ item ∈ final, low ≤ item.key := by
  induction fuel generalizing cursor next items visited with
  | zero => cases hrun
  | succ fuel ih =>
      obtain ⟨⟨hfollowing, -⟩, hall⟩ := mem_renumberPage step
        (pageAfter limit cursor items).1 items hlow hlowTop (Nat.le_max_left next top)
        (Nat.le_max_right next top)
      have hpageKeys : ∀ item ∈ (renumberPage step top (pageAfter limit cursor items).1 next
          items).1, low ≤ item.key ∨ (item ∈ items ∧ isAfter cursor item = true ∧
            item ∉ (pageAfter limit cursor items).1) := by
        intro item hitem
        rcases hall item hitem with ⟨hold, hothers⟩ | ⟨hkey, -⟩
        · rcases hbefore item hold with hkey | hafter
          · exact .inl hkey
          · exact .inr ⟨hold, hafter, fun hpage => hothers item hpage rfl⟩
        · exact .inl hkey
      rcases pageAfter_cases hlimit hitems cursor with ⟨hnone, hpage⟩ | ⟨last, hmore, -, hbehind⟩
      · simp only [renumber, hnone] at hrun
        cases hrun
        intro item hitem
        refine (hpageKeys item hitem).resolve_right ?_
        rintro ⟨hold, hafter, hnot⟩
        exact hnot (hpage item hold hafter)
      · simp only [renumber, hmore] at hrun
        obtain ⟨⟨found, rest⟩, hfound, heq⟩ := Option.map_eq_some_iff.mp hrun
        cases heq
        refine ih (hitems.renumberPage _ _) hfollowing (fun item hitem => ?_) hfound
        refine (hpageKeys item hitem).imp_right ?_
        rintro ⟨hold, hafter, hnot⟩
        exact decide_eq_true (hbehind item hold hafter hnot)

/-- Where the items of a run can be. -/
def keysBelow (high : Nat) (ids : Finset K) : Finset (Keyed K) :=
  (Finset.range (high + 1) ×ˢ ids).image fun place => ⟨place.1, place.2⟩

theorem mem_keysBelow {high : Nat} {ids : Finset K} :
    item ∈ keysBelow high ids ↔ item.key ≤ high ∧ item.id ∈ ids := by
  simp only [keysBelow, Finset.mem_image, Finset.mem_product, Finset.mem_range, Prod.exists,
    Nat.lt_succ_iff]
  constructor
  · rintro ⟨key, id, hplace, rfl⟩
    exact hplace
  · exact fun hplace => ⟨item.key, item.id, hplace, rfl⟩

/-- The cursor moves on, so that the pages come to an end. -/
theorem renumber_ends (step : Nat) (hlimit : 0 < limit) {high : Nat} (hhighTop : top ≤ high)
    {ids : Finset K} {fuel : Nat} {cursor : Option (Keyed K)} {next : Nat}
    (hitems : Ordered items) (hhigh : next ≤ high)
    (hplaces : ∀ item ∈ items, item ∈ keysBelow high ids)
    (hfuel : ((keysBelow high ids).filter fun item => isAfter cursor item = true).card < fuel) :
    ∃ found, renumber limit step top fuel cursor next items = some found := by
  induction fuel generalizing cursor next items with
  | zero => exact absurd hfuel (Nat.not_lt_zero _)
  | succ fuel ih =>
      rcases pageAfter_cases hlimit hitems cursor with ⟨hnone, -⟩ | ⟨last, hmore, hlast, -⟩
      · simp only [renumber, hnone]
        exact ⟨_, rfl⟩
      obtain ⟨⟨-, hfollowing⟩, hall⟩ := mem_renumberPage step
        (pageAfter limit cursor items).1 items (Nat.zero_le next) (Nat.zero_le top) hhigh hhighTop
      obtain ⟨hlastItem, hlastAfter⟩ := List.mem_filter.mp (List.mem_of_mem_take hlast)
      have hfewer : ((keysBelow high ids).filter fun item => isAfter (some last) item = true).card <
          ((keysBelow high ids).filter fun item => isAfter cursor item = true).card := by
        refine Finset.card_lt_card (Finset.ssubset_iff_of_subset ?_ |>.mpr ⟨last, ?_, ?_⟩)
        · intro item hitem
          obtain ⟨hplace, hbehind⟩ := Finset.mem_filter.mp hitem
          refine Finset.mem_filter.mpr ⟨hplace, ?_⟩
          cases cursor with
          | none => rfl
          | some before =>
              exact decide_eq_true (lt_trans (of_decide_eq_true hlastAfter)
                (of_decide_eq_true hbehind))
        · exact Finset.mem_filter.mpr ⟨hplaces last hlastItem, hlastAfter⟩
        · intro hmem
          exact lt_irrefl last (of_decide_eq_true (Finset.mem_filter.mp hmem).2)
      have hmoved : ∀ item ∈ (renumberPage step top (pageAfter limit cursor items).1 next items).1,
          item ∈ keysBelow high ids := by
        intro item hitem
        rcases hall item hitem with ⟨hold, -⟩ | ⟨-, hkey, other, hother, hid⟩
        · exact hplaces item hold
        · have hold := (List.mem_filter.mp (List.mem_of_mem_take hother)).1
          exact mem_keysBelow.mpr ⟨hkey, hid ▸ (mem_keysBelow.mp (hplaces other hold)).2⟩
      obtain ⟨found, hrun⟩ := ih (hitems.renumberPage _ _) hfollowing hmoved
        (Nat.lt_of_lt_of_le hfewer (Nat.lt_succ_iff.mp hfuel))
      simp only [renumber, hmore, hrun, Option.map_some]
      exact ⟨_, rfl⟩

section Numbered

omit [LinearOrder K]

theorem numbered_append (first : Nat) (front back : List (Keyed K)) :
    numbered step first (front ++ back) =
      numbered step first front ++ numbered step (first + step * front.length) back := by
  induction front generalizing first with
  | nil => simp [numbered]
  | cons item rest ih =>
      simp only [List.cons_append, numbered, ih, List.length_cons]
      congr 3
      rw [Nat.mul_add]
      omega

theorem map_id_numbered (first : Nat) (list : List (Keyed K)) :
    (numbered step first list).map Keyed.id = list.map Keyed.id := by
  induction list generalizing first with
  | nil => rfl
  | cons item rest ih => simp [numbered, ih]

theorem key_of_mem_numbered {first : Nat} {list : List (Keyed K)}
    (hitem : item ∈ numbered step first list) :
    first ≤ item.key ∧ item.key + step ≤ first + step * list.length := by
  induction list generalizing first with
  | nil => cases hitem
  | cons head rest ih =>
      rw [List.length_cons, Nat.mul_add]
      rcases List.mem_cons.mp hitem with rfl | hrest
      · simp
      · have hkey := ih hrest
        omega

end Numbered

theorem Ordered.numbered (hstep : 0 < step) (hitems : Ordered items) (first : Nat) :
    Ordered (numbered step first items) where
  sorted := by
    induction items generalizing first with
    | nil => exact .nil
    | cons item rest ih =>
        have hrest : Ordered rest := ⟨hitems.sorted.of_cons, (List.nodup_cons.mp hitems.ids).2⟩
        refine List.pairwise_cons.mpr ⟨fun other hother => ?_, ih hrest _⟩
        have hkey := (key_of_mem_numbered hother).1
        exact Keyed.lt_iff.mpr (.inl (by
          change first < other.key
          omega))
  ids := by
    rw [map_id_numbered]
    exact hitems.ids

/-- The items in front have their new keys, those in the back their old ones. -/
structure Progress (step : Nat) (front back items : List (Keyed K)) : Prop where
  ordered : Ordered items
  mem : ∀ item, item ∈ items ↔ item ∈ numbered step step front ∨ item ∈ back

variable {front back page : List (Keyed K)}

theorem progress_nil (hitems : Ordered items) : Progress step [] items items :=
  ⟨hitems, by simp [numbered]⟩

theorem Progress.eq_numbered (hstep : 0 < step) (hfront : Ordered front)
    (hprogress : Progress step front [] items) : items = numbered step step front := by
  apply hprogress.ordered.eq_of_mem_iff (hfront.numbered hstep step)
  intro item
  simp [hprogress.mem]

theorem Progress.advance (hstart : Ordered (front ++ item :: back))
    (hprogress : Progress step front (item :: back) items) :
    Progress step (front ++ [item]) back (rekey item.id (step * (front.length + 1)) items) where
  ordered := hprogress.ordered.rekey _ _
  mem := by
    intro other
    have hids := hstart.ids
    rw [List.map_append, List.map_cons, List.nodup_append] at hids
    obtain ⟨-, hback, hfront⟩ := hids
    have hnew : step + step * front.length = step * (front.length + 1) := by
      rw [Nat.mul_add]
      omega
    rw [mem_rekey, hprogress.mem, numbered_append, List.mem_append, hnew, List.mem_cons]
    simp only [numbered, List.mem_singleton]
    constructor
    · rintro (rfl | ⟨hnumbered | rfl | hother, hid⟩)
      · exact .inl (.inr rfl)
      · exact .inl (.inl hnumbered)
      · exact absurd rfl hid
      · exact .inr hother
    · rintro ((hnumbered | rfl) | hother)
      · have hmem : other.id ∈ front.map Keyed.id := by
          rw [← map_id_numbered (K := K) step]
          exact List.mem_map_of_mem hnumbered
        exact .inr ⟨.inl hnumbered, hfront _ hmem _ List.mem_cons_self⟩
      · exact .inl rfl
      · have hmem : other.id ∈ back.map Keyed.id := List.mem_map_of_mem hother
        refine .inr ⟨.inr (.inr hother), fun hid => ?_⟩
        exact (List.nodup_cons.mp hback).1 (hid ▸ hmem)

/-- A page that starts at the back moves to the front. -/
theorem Progress.move (hstart : Ordered (front ++ (page ++ back)))
    (htop : step * (front ++ (page ++ back)).length ≤ top)
    (hprogress : Progress step front (page ++ back) items) :
    Progress step (front ++ page) back
        (renumberPage step top page (min (step * (front.length + 1)) top) items).1 ∧
      (renumberPage step top page (min (step * (front.length + 1)) top) items).2 =
        min (step * ((front ++ page).length + 1)) top := by
  induction page generalizing front items with
  | nil => simpa [renumberPage] using hprogress
  | cons item rest ih =>
      have hassoc : front ++ (item :: rest ++ back) = (front ++ [item]) ++ (rest ++ back) := by
        simp
      have hbelow : step * (front.length + 1) ≤ top := by
        refine Nat.le_trans (Nat.mul_le_mul_left step ?_) htop
        simp only [List.length_append, List.length_cons]
        omega
      have hnext : min (step * (front.length + 1) + step) top =
          min (step * ((front ++ [item]).length + 1)) top := by
        rw [List.length_append, List.length_singleton, Nat.mul_add step (front.length + 1),
          Nat.mul_one]
      have hrest := ih (hassoc ▸ hstart) (hassoc ▸ htop) (hprogress.advance hstart)
      rw [renumberPage, Nat.min_eq_left hbelow, hnext]
      simpa using hrest

/-- The cursor is the last item in front. -/
theorem Progress.filter_isAfter (hstep : 0 < step) (hstart : Ordered (front ++ back))
    (hprogress : Progress step front back items)
    (hbehind : ∀ last ∈ front.getLast?, step * front.length ≤ last.key) :
    items.filter (isAfter front.getLast?) = back := by
  obtain ⟨hsorted, hbackSorted, hsplit⟩ := List.pairwise_append.mp hstart.sorted
  apply (hprogress.ordered.sorted.sublist List.filter_sublist).eq_of_mem_iff hbackSorted
  intro item
  rw [List.mem_filter, hprogress.mem]
  rcases List.eq_nil_or_concat front with rfl | ⟨init, last, rfl⟩
  · simp [numbered, isAfter]
  · rw [List.concat_eq_append] at *
    have hkey : step * (init ++ [last]).length ≤ last.key := hbehind last (by simp)
    rw [List.length_append, List.length_singleton, Nat.mul_add, Nat.mul_one] at hkey
    have hcursor : isAfter (init ++ [last]).getLast? item = true ↔ last < item := by
      simp [isAfter]
    rw [hcursor, numbered_append, List.mem_append]
    simp only [numbered, List.mem_singleton]
    constructor
    · rintro ⟨(hnumbered | rfl) | hback, hafter⟩
      · have hle := (key_of_mem_numbered hnumbered).2
        have hlater := Keyed.key_le_of_lt hafter
        omega
      · rcases Keyed.lt_iff.mp hafter with hlater | ⟨-, hid⟩
        · change last.key < step + step * init.length at hlater
          omega
        · exact absurd hid (lt_irrefl _)
      · exact hback
    · intro hback
      exact ⟨.inr hback, hsplit last (by simp) item hback⟩

/-- A page of a run under way: what is left, in its old order. -/
theorem Progress.step_cases (hlimit : 0 < limit) (hstep : 0 < step)
    (hstart : Ordered (front ++ back)) (htop : step * (front ++ back).length ≤ top)
    (hprogress : Progress step front back items)
    (hbehind : ∀ last ∈ front.getLast?, step * front.length ≤ last.key) (fuel : Nat) :
    (back.length ≤ limit ∧ ∃ final,
      renumber limit step top (fuel + 1) front.getLast? (min (step * (front.length + 1)) top)
        items = some (final, back.map Keyed.id) ∧
      Progress step (front ++ back) [] final) ∨
    limit < back.length ∧ ∃ moved,
      renumber limit step top (fuel + 1) front.getLast? (min (step * (front.length + 1)) top)
          items =
        (renumber limit step top fuel (front ++ back.take limit).getLast?
          (min (step * ((front ++ back.take limit).length + 1)) top) moved).map
            (fun found => (found.1, (back.take limit).map Keyed.id ++ found.2)) ∧
      Progress step (front ++ back.take limit) (back.drop limit) moved := by
  have hlater := hprogress.filter_isAfter hstep hstart hbehind
  by_cases hmore : limit < back.length
  · right
    have hsplit : back = back.take limit ++ back.drop limit :=
      (List.take_append_drop limit back).symm
    obtain ⟨hmoved, hnext⟩ := Progress.move (hsplit ▸ hstart) (hsplit ▸ htop) (hsplit ▸ hprogress)
    refine ⟨hmore, _, ?_, hmoved⟩
    have hnonempty : back.take limit ≠ [] := by
      intro hnil
      rcases List.take_eq_nil_iff.mp hnil with hzero | hempty
      · omega
      · rw [hempty] at hmore
        exact absurd hmore (Nat.not_lt_zero _)
    obtain ⟨last, hlast⟩ := Option.ne_none_iff_exists'.mp
      (List.getLast?_eq_none_iff.not.mpr hnonempty)
    have hcursor : (front ++ back.take limit).getLast? = some last := by
      rw [List.getLast?_append_of_ne_nil _ hnonempty, hlast]
    simp only [renumber, pageAfter, cutPage, hlater, if_pos hmore, hnext, hcursor, hlast]
  · left
    have hpage : back.take limit = back := List.take_of_length_le (Nat.not_lt.mp hmore)
    have hall : Progress step front (back ++ []) items := by rwa [List.append_nil]
    have hbound : step * (front ++ (back ++ [])).length ≤ top := by rwa [List.append_nil]
    obtain ⟨hmoved, -⟩ := hall.move (by rwa [List.append_nil]) hbound
    refine ⟨Nat.not_lt.mp hmore, _, ?_, hmoved⟩
    simp only [renumber, pageAfter, cutPage, hlater, if_neg hmore, hpage]

/-- The last item of the pages before each page has a key that the new keys of
these pages do not exceed. -/
def Spread (limit step : Nat) (items : List (Keyed K)) : Prop :=
  ∀ page, limit * page < items.length →
    ∀ last ∈ (items.take (limit * page)).getLast?, step * (limit * page) ≤ last.key

omit [LinearOrder K] in
theorem Spread.behind (hspread : Spread limit step items) {page : Nat}
    (hpage : limit * page < items.length ∨ page = 0) :
    ∀ last ∈ (items.take (limit * page)).getLast?, step * (limit * page) ≤ last.key := by
  rcases hpage with hlt | rfl
  · exact hspread page hlt
  · simp

/-- One page of the run over the items, which started at `page`. -/
theorem page_cases (hlimit : 0 < limit) (hstep : 0 < step) (hitems : Ordered items)
    (htop : step * items.length ≤ top) {page : Nat}
    (hpage : limit * page < items.length ∨ page = 0)
    (hbehind : ∀ last ∈ (items.take (limit * page)).getLast?, step * (limit * page) ≤ last.key)
    {now : List (Keyed K)}
    (hprogress : Progress step (items.take (limit * page)) (items.drop (limit * page)) now)
    (fuel : Nat) :
    (items.length ≤ limit * (page + 1) ∧ ∃ final,
      renumber limit step top (fuel + 1) (items.take (limit * page)).getLast?
          (min (step * (limit * page + 1)) top) now =
        some (final, (items.drop (limit * page)).map Keyed.id) ∧
      Progress step items [] final) ∨
    limit * (page + 1) < items.length ∧ ∃ moved,
      renumber limit step top (fuel + 1) (items.take (limit * page)).getLast?
          (min (step * (limit * page + 1)) top) now =
        (renumber limit step top fuel (items.take (limit * (page + 1))).getLast?
          (min (step * (limit * (page + 1) + 1)) top) moved).map
            (fun found =>
              (found.1, ((items.drop (limit * page)).take limit).map Keyed.id ++ found.2)) ∧
      Progress step (items.take (limit * (page + 1))) (items.drop (limit * (page + 1)))
        moved := by
  have hsplit := List.take_append_drop (limit * page) items
  have hlength : (items.take (limit * page)).length = limit * page := by
    rw [List.length_take]
    rcases hpage with hlt | rfl
    · exact Nat.min_eq_left (Nat.le_of_lt hlt)
    · simp
  have hnext : limit * (page + 1) = limit * page + limit := by
    rw [Nat.mul_add, Nat.mul_one]
  have htake : items.take (limit * page) ++ (items.drop (limit * page)).take limit =
      items.take (limit * (page + 1)) := by
    rw [hnext, List.take_add]
  have hdrop : (items.drop (limit * page)).drop limit = items.drop (limit * (page + 1)) := by
    rw [hnext, List.drop_drop]
  have hcases := hprogress.step_cases hlimit hstep (hsplit.symm ▸ hitems)
    (hsplit.symm ▸ htop) (by rwa [hlength]) fuel
  rw [hsplit, htake, hdrop, hlength, List.length_drop] at hcases
  rcases hcases with ⟨hend, hfinal⟩ | ⟨hmore, hmoved⟩
  · exact .inl ⟨by omega, hfinal⟩
  · have hlonger : limit * (page + 1) < items.length := by omega
    rw [List.length_take, Nat.min_eq_left (Nat.le_of_lt hlonger)] at hmoved
    exact .inr ⟨hlonger, hmoved⟩

/-- With the keys spread out each page is found where the last one ended. -/
theorem renumber_of_spread (hlimit : 0 < limit) (hstep : 0 < step) (hitems : Ordered items)
    (htop : step * items.length ≤ top) (hspread : Spread limit step items) {page : Nat}
    (hpage : limit * page < items.length ∨ page = 0) {fuel : Nat}
    (hfuel : items.length ≤ limit * page + limit * fuel) {now : List (Keyed K)}
    (hprogress : Progress step (items.take (limit * page)) (items.drop (limit * page)) now) :
    ∃ final, renumber limit step top (fuel + 1) (items.take (limit * page)).getLast?
        (min (step * (limit * page + 1)) top) now =
          some (final, (items.drop (limit * page)).map Keyed.id) ∧
      Progress step items [] final := by
  induction fuel generalizing page now with
  | zero =>
      have hbehind := hspread.behind hpage
      rcases page_cases hlimit hstep hitems htop hpage hbehind hprogress 0 with
        ⟨-, hfinal⟩ | ⟨hmore, -⟩
      · exact hfinal
      · rw [Nat.mul_add] at hmore
        omega
  | succ fuel ih =>
      have hbehind := hspread.behind hpage
      rcases page_cases hlimit hstep hitems htop hpage hbehind hprogress (fuel + 1) with
        ⟨-, hfinal⟩ | ⟨hmore, moved, hrun, hmoved⟩
      · exact hfinal
      · have hfuel' : items.length ≤ limit * (page + 1) + limit * fuel := by
          simp only [Nat.mul_add, Nat.mul_one] at hfuel ⊢
          omega
        obtain ⟨final, hrest, hfinal⟩ := ih (.inl hmore) hfuel' hmoved
        refine ⟨final, ?_, hfinal⟩
        rw [hrun, hrest, Option.map_some, ← List.map_append]
        have hdrop : items.drop (limit * (page + 1)) =
            (items.drop (limit * page)).drop limit := by
          rw [List.drop_drop, Nat.mul_add, Nat.mul_one]
        rw [hdrop, List.take_append_drop]

/-- An item of the pages before that the cursor has not passed comes again. -/
theorem last_key_of_visited_once (hlimit : 0 < limit) {fuel next : Nat}
    (hprogress : Progress step front back items) {final : List (Keyed K)} {visited : List K}
    (hrun : renumber limit step top fuel front.getLast? next items = some (final, visited))
    (honce : ∀ id ∈ visited, id ∉ front.map Keyed.id) :
    ∀ last ∈ front.getLast?, step * front.length ≤ last.key := by
  intro last hlast
  by_contra hahead
  rcases List.eq_nil_or_concat front with rfl | ⟨init, item, rfl⟩
  · cases hlast
  · rw [List.concat_eq_append] at *
    obtain rfl : item = last := by simpa using hlast
    rw [List.length_append, List.length_singleton, Nat.mul_add, Nat.mul_one] at hahead
    have hmem : (⟨step + step * init.length, item.id⟩ : Keyed K) ∈ items := by
      rw [hprogress.mem, numbered_append]
      exact .inl (by simp [numbered])
    have hafter : isAfter (init ++ [item]).getLast?
        (⟨step + step * init.length, item.id⟩ : Keyed K) = true := by
      have hlt : item < (⟨step + step * init.length, item.id⟩ : Keyed K) :=
        Keyed.lt_iff.mpr (.inl (by
          change item.key < step + step * init.length
          omega))
      simpa [isAfter] using hlt
    have hvisited := mem_visited hlimit hprogress.ordered hmem hafter hrun
    exact honce item.id hvisited (by simp)

/-- A run that visits nothing twice has found each page where the last one
ended. -/
theorem spread_of_visited_once (hlimit : 0 < limit) (hstep : 0 < step) (hitems : Ordered items)
    (htop : step * items.length ≤ top) {page : Nat}
    (hpage : limit * page < items.length ∨ page = 0) {fuel : Nat} {now : List (Keyed K)}
    (hprogress : Progress step (items.take (limit * page)) (items.drop (limit * page)) now)
    {final : List (Keyed K)} {visited : List K}
    (hrun : renumber limit step top fuel (items.take (limit * page)).getLast?
      (min (step * (limit * page + 1)) top) now = some (final, visited))
    (hnodup : visited.Nodup)
    (honce : ∀ id ∈ visited, id ∉ (items.take (limit * page)).map Keyed.id) {later : Nat}
    (hlater : page ≤ later) (hlt : limit * later < items.length) :
    ∀ last ∈ (items.take (limit * later)).getLast?, step * (limit * later) ≤ last.key := by
  induction fuel generalizing page now visited with
  | zero => cases hrun
  | succ fuel ih =>
      have hlength : (items.take (limit * page)).length = limit * page := by
        have hle := Nat.mul_le_mul_left limit hlater
        rw [List.length_take]
        omega
      have hbehind := last_key_of_visited_once hlimit hprogress hrun honce
      rw [hlength] at hbehind
      rcases Nat.eq_or_lt_of_le hlater with rfl | hbeyond
      · exact hbehind
      rcases page_cases hlimit hstep hitems htop hpage hbehind hprogress fuel with
        ⟨hend, -⟩ | ⟨hmore, moved, hmap, hmoved⟩
      · have hle := Nat.mul_le_mul_left limit hbeyond
        rw [Nat.succ_eq_add_one] at hle
        omega
      · rw [hmap] at hrun
        obtain ⟨⟨found, rest⟩, hrest, heq⟩ := Option.map_eq_some_iff.mp hrun
        cases heq
        obtain ⟨-, hrestNodup, hapart⟩ := List.nodup_append.mp hnodup
        refine ih (.inl hmore) hmoved hrest hrestNodup ?_ hbeyond
        intro id hid hmem
        have htake : items.take (limit * (page + 1)) =
            items.take (limit * page) ++ (items.drop (limit * page)).take limit := by
          rw [Nat.mul_add, Nat.mul_one, List.take_add]
        rw [htake, List.map_append, List.mem_append] at hmem
        rcases hmem with hbefore | hpageMem
        · exact honce id (List.mem_append_right _ hid) hbefore
        · exact hapart id hpageMem id hid rfl

/-- The run ends, visits each item once and leaves the items in their order with
the keys `step`, `2 * step`, ... -/
def Renumbers (limit step top : Nat) (items : List (Keyed K)) : Prop :=
  ∃ fuel final visited,
    renumber limit step top fuel none step items = some (final, visited) ∧
    visited.Nodup ∧ (∀ id, id ∈ visited ↔ id ∈ items.map Keyed.id) ∧
    final = numbered step step items

theorem renumbers_iff_spread (hlimit : 0 < limit) (hstep : 0 < step) (hle : step ≤ top)
    (hitems : Ordered items) (htop : ∀ item ∈ items, item.key ≤ top) :
    Renumbers limit step top items ↔
      step * items.length ≤ top ∧ Spread limit step items := by
  have hstart : Progress step (items.take (limit * 0)) (items.drop (limit * 0)) items := by
    simpa using progress_nil hitems
  have hfirst : (items.take (limit * 0)).getLast? = none := by simp
  have hnext : min (step * (limit * 0 + 1)) top = step := by simp [hle]
  have hrunAt : ∀ fuel, renumber limit step top fuel (items.take (limit * 0)).getLast?
      (min (step * (limit * 0 + 1)) top) items = renumber limit step top fuel none step items := by
    intro fuel
    rw [hfirst, hnext]
  constructor
  · rintro ⟨fuel, final, visited, hrun, hnodup, hall, hfinal⟩
    have hbound : step * items.length ≤ top := by
      rcases List.eq_nil_or_concat items with rfl | ⟨init, last, rfl⟩
      · simp
      · have hmem : (⟨step + step * init.length, last.id⟩ : Keyed K) ∈ final := by
          rw [hfinal, List.concat_eq_append, numbered_append]
          simp [numbered]
        have hkey := le_top_renumber hle htop hrun _ hmem
        simp only [List.concat_eq_append, List.length_append, List.length_singleton,
          Nat.mul_add, Nat.mul_one]
        change step + step * init.length ≤ top at hkey
        omega
    refine ⟨hbound, fun page hpage => ?_⟩
    rw [← hrunAt] at hrun
    exact spread_of_visited_once hlimit hstep hitems hbound (.inr rfl) hstart hrun hnodup
      (by simp) (Nat.zero_le page) hpage
  · rintro ⟨hbound, hspread⟩
    have hfuel : items.length ≤ limit * 0 + limit * items.length := by
      rw [Nat.mul_zero, Nat.zero_add]
      exact Nat.le_mul_of_pos_left _ hlimit
    obtain ⟨final, hrun, hfinal⟩ := renumber_of_spread hlimit hstep hitems hbound hspread
      (.inr rfl) hfuel hstart
    rw [hrunAt] at hrun
    refine ⟨items.length + 1, final, _, hrun, ?_, ?_, hfinal.eq_numbered hstep hitems⟩
    · simpa using hitems.ids
    · simp

end Keeplin
