/-
Walks over a listing in pages.  A page starts after the key its token has, and
its last item makes the token of the next one.  A walk over a listing that stays
as it is visits each item once if the token of an item lies before every later
key.  A walk over one that changes visits an item that stays once if the token of
an item is its key.
-/
import Mathlib.Data.List.Sort

namespace Keeplin

universe u v

section Tests

variable {A : Type u} {test : A → Bool} {items : List A}

/-- The index of the first item that fails the test, in a list whose items that
pass it come first. -/
def partitionPoint (test : A → Bool) (items : List A) : Nat :=
  (items.takeWhile test).length

theorem drop_partitionPoint (test : A → Bool) (items : List A) :
    items.drop (partitionPoint test items) = items.dropWhile test := by
  induction items with
  | nil => rfl
  | cons item rest ih =>
      rw [partitionPoint, List.takeWhile_cons, List.dropWhile_cons]
      split
      · exact ih
      · rfl

/-- Where those that meet a test come first, what is left is what does not meet it. -/
theorem dropWhile_eq_filter_not (hclosed : items.Pairwise fun item later =>
    test later = true → test item = true) :
    items.dropWhile test = items.filter fun item => !test item := by
  induction items with
  | nil => rfl
  | cons item rest ih =>
      obtain ⟨hhead, hrest⟩ := List.pairwise_cons.mp hclosed
      cases htest : test item with
      | true =>
          rw [List.dropWhile_cons_of_pos htest, ih hrest,
            List.filter_cons_of_neg (by simp [htest])]
      | false =>
          rw [List.dropWhile_cons_of_neg (by simp [htest]), eq_comm]
          refine List.filter_eq_self.mpr (List.forall_mem_cons.mpr ⟨by simp [htest], ?_⟩)
          intro later hlater
          by_contra hmeets
          rw [hhead later hlater (by simpa using hmeets)] at htest
          contradiction

end Tests

section Page

variable {K : Type u} {A : Type v} [LinearOrder K] (key : A → K)

/-- The items of a listing that a page after the cursor can have. -/
def afterCursor (cursor : Option K) (items : List A) : List A :=
  items.filter fun item =>
    match cursor with
    | none => true
    | some last => last < key item

/-- The first of the items, and the last of these if there are more. -/
def cut (limit : Nat) (items : List A) : List A × Option A :=
  (items.take limit, if limit < items.length then (items.take limit).getLast? else none)

def pageOf (limit : Nat) (cursor : Option K) (items : List A) : List A × Option A :=
  cut limit (afterCursor key cursor items)

variable (token : A → K)

/-- Follow the tokens from a page on. -/
def walk (limit : Nat) (items : List A) : Nat → Option K → Option (List A)
  | 0, _ => none
  | fuel + 1, cursor =>
      let page := pageOf key limit cursor items
      match page.2 with
      | none => some page.1
      | some last =>
          (walk limit items fuel (some (token last))).map fun rest => page.1 ++ rest

/-- The token of an item lies before the keys of the later ones. -/
def Separated (items : List A) : Prop :=
  items.Pairwise fun item later => token item < key later

variable {key token} {limit : Nat} {items front back : List A}

theorem afterCursor_none : afterCursor key none items = items := by
  simp [afterCursor]

/-- The items after the cursor are the last ones of a sorted listing. -/
theorem exists_front (hsorted : items.Pairwise fun item later => key item < key later)
    (cursor : Option K) : ∃ front, items = front ++ afterCursor key cursor items := by
  cases cursor with
  | none => exact ⟨[], by rw [afterCursor_none, List.nil_append]⟩
  | some last =>
      induction items with
      | nil => exact ⟨[], rfl⟩
      | cons item rest ih =>
          obtain ⟨hhead, hrest⟩ := List.pairwise_cons.mp hsorted
          by_cases hafter : last < key item
          · refine ⟨[], ?_⟩
            rw [List.nil_append, eq_comm]
            refine List.filter_eq_self.mpr (List.forall_mem_cons.mpr ⟨decide_eq_true hafter, ?_⟩)
            exact fun later hlater => decide_eq_true (hafter.trans (hhead later hlater))
          · obtain ⟨front, hfront⟩ := ih hrest
            refine ⟨item :: front, ?_⟩
            rw [afterCursor, List.filter_cons_of_neg (by simpa using hafter), List.cons_append]
            exact congrArg (item :: ·) hfront

/-- In a sorted listing those before the cursor come first. -/
theorem dropWhile_eq_afterCursor (hsorted : items.Pairwise fun item later => key item < key later)
    {last : K} {test : A → Bool} (htest : ∀ item ∈ items, test item = !decide (last < key item)) :
    items.dropWhile test = afterCursor key (some last) items := by
  rw [dropWhile_eq_filter_not, afterCursor]
  · exact List.filter_congr fun item hitem => by rw [htest item hitem, Bool.not_not]
  · refine hsorted.imp_of_mem fun hitem hlater hlt hpassed => ?_
    rw [htest _ hlater, Bool.not_eq_true', decide_eq_false_iff_not] at hpassed
    rw [htest _ hitem, Bool.not_eq_true', decide_eq_false_iff_not]
    exact fun hafter => hpassed (hafter.trans hlt)

/-- The items after the token of one of them. -/
theorem afterCursor_token {last : A}
    (hsorted : items.Pairwise fun item later => key item < key later)
    (htoken : ∀ item ∈ items, key item ≤ token item) (hsplit : items = front ++ last :: back) :
    afterCursor key (some (token last)) items = afterCursor key (some (token last)) back := by
  have hlast : key last ≤ token last := htoken last (by simp [hsplit])
  have hfront : ∀ item ∈ front, key item < key last := by
    rw [hsplit] at hsorted
    exact fun item hitem => (List.pairwise_append.mp hsorted).2.2 item hitem last List.mem_cons_self
  rw [hsplit, afterCursor, List.filter_append, List.filter_cons_of_neg (by simpa using hlast),
    List.filter_eq_nil_iff.mpr, List.nil_append, afterCursor]
  intro item hitem hafter
  exact absurd ((of_decide_eq_true hafter).trans (hfront item hitem)) hlast.not_gt

/-- A page that is not the last one has items. -/
theorem exists_concat_of_more (hlimit : 0 < limit) (hmore : limit < back.length) :
    ∃ init last, back.take limit = init ++ [last] ∧ (cut limit back).2 = some last := by
  have hnonempty : back.take limit ≠ [] := by
    intro hnil
    have hlength := congrArg List.length hnil
    rw [List.length_take, List.length_nil] at hlength
    omega
  obtain ⟨init, last, hconcat⟩ := List.eq_nil_or_concat (back.take limit) |>.resolve_left hnonempty
  rw [List.concat_eq_append] at hconcat
  refine ⟨init, last, hconcat, ?_⟩
  simp only [cut, if_pos hmore, hconcat, List.getLast?_concat]

/-- A step of a walk: the last page, or a page whose last item is in the middle
of the listing. -/
theorem walk_cases (hsorted : items.Pairwise fun item later => key item < key later)
    (htoken : ∀ item ∈ items, key item ≤ token item) (hlimit : 0 < limit) (fuel : Nat)
    (cursor : Option K) :
    ((afterCursor key cursor items).length ≤ limit ∧
      walk key token limit items (fuel + 1) cursor = some (afterCursor key cursor items)) ∨
    ∃ init last, afterCursor key cursor items =
        init ++ last :: (afterCursor key cursor items).drop limit ∧
      afterCursor key (some (token last)) items =
        afterCursor key (some (token last)) ((afterCursor key cursor items).drop limit) ∧
      walk key token limit items (fuel + 1) cursor =
        (walk key token limit items fuel (some (token last))).map fun rest =>
          init ++ last :: rest := by
  obtain ⟨front, hfront⟩ := exists_front hsorted cursor
  rcases Nat.lt_or_ge limit (afterCursor key cursor items).length with hmore | hall
  · right
    obtain ⟨init, last, htake, hnext⟩ := exists_concat_of_more hlimit hmore
    have hback : afterCursor key cursor items =
        init ++ last :: (afterCursor key cursor items).drop limit := by
      rw [List.append_cons, ← htake, List.take_append_drop]
    refine ⟨init, last, hback, ?_, ?_⟩
    · have hsplit : items =
          (front ++ init) ++ last :: (afterCursor key cursor items).drop limit := by
        rw [List.append_assoc, ← hback]
        exact hfront
      exact afterCursor_token hsorted htoken hsplit
    · simp only [walk, pageOf, hnext]
      simp only [cut, htake, List.append_assoc, List.cons_append, List.nil_append]
  · refine Or.inl ⟨hall, ?_⟩
    simp only [walk, pageOf, cut, if_neg hall.not_gt, List.take_of_length_le hall]

/-- A walk ends, and it visits items after its cursor, in their order. -/
theorem walk_total (hsorted : items.Pairwise fun item later => key item < key later)
    (htoken : ∀ item ∈ items, key item ≤ token item) (hlimit : 0 < limit) {fuel : Nat}
    {cursor : Option K} (hfuel : (afterCursor key cursor items).length < fuel) :
    ∃ visited, walk key token limit items fuel cursor = some visited := by
  induction fuel generalizing cursor with
  | zero => exact absurd hfuel (Nat.not_lt_zero _)
  | succ fuel ih =>
      rcases walk_cases hsorted htoken hlimit fuel cursor with
        ⟨-, hlast⟩ | ⟨init, last, hback, hafter, hstep⟩
      · exact ⟨_, hlast⟩
      · have hshorter : (afterCursor key (some (token last)) items).length < fuel := by
          have hfilter := List.length_filter_le (fun item => decide (token last < key item))
            ((afterCursor key cursor items).drop limit)
          have hlength := congrArg List.length hback
          rw [List.length_append, List.length_cons] at hlength
          rw [hafter]
          exact lt_of_le_of_lt hfilter (by omega)
        obtain ⟨rest, hrest⟩ := ih hshorter
        exact ⟨init ++ last :: rest, by rw [hstep, hrest, Option.map_some]⟩

theorem walk_sublist (hsorted : items.Pairwise fun item later => key item < key later)
    (htoken : ∀ item ∈ items, key item ≤ token item) (hlimit : 0 < limit) {fuel : Nat}
    {cursor : Option K} {visited : List A}
    (hwalk : walk key token limit items fuel cursor = some visited) :
    visited.Sublist (afterCursor key cursor items) := by
  induction fuel generalizing cursor visited with
  | zero => contradiction
  | succ fuel ih =>
      rcases walk_cases hsorted htoken hlimit fuel cursor with
        ⟨-, hlast⟩ | ⟨init, last, hback, hafter, hstep⟩
      · rw [hlast, Option.some.injEq] at hwalk
        exact hwalk ▸ List.Sublist.refl _
      · rw [hstep, Option.map_eq_some_iff] at hwalk
        obtain ⟨rest, hrest, rfl⟩ := hwalk
        have hsublist := ih hrest
        rw [hafter] at hsublist
        have hsublist := hsublist.trans List.filter_sublist
        rw [hback]
        exact List.Sublist.append_left (List.Sublist.cons_cons last hsublist) init

/-- Separated items are all visited. -/
theorem walk_of_separated (hsorted : items.Pairwise fun item later => key item < key later)
    (htoken : ∀ item ∈ items, key item ≤ token item) (hseparated : Separated key token items)
    (hlimit : 0 < limit) {fuel : Nat} {cursor : Option K}
    (hcursor : afterCursor key cursor items = back) (hfuel : back.length < fuel) :
    walk key token limit items fuel cursor = some back := by
  subst hcursor
  induction fuel generalizing cursor with
  | zero => exact absurd hfuel (Nat.not_lt_zero _)
  | succ fuel ih =>
      rcases walk_cases hsorted htoken hlimit fuel cursor with
        ⟨-, hlast⟩ | ⟨init, last, hback, hafter, hstep⟩
      · exact hlast
      · have hlater : afterCursor key (some (token last)) items =
            (afterCursor key cursor items).drop limit := by
          have hpairs : Separated key token (afterCursor key cursor items) :=
            hseparated.sublist List.filter_sublist
          rw [hback] at hpairs
          have htail := (List.pairwise_cons.mp (List.pairwise_append.mp hpairs).2.1).1
          rw [hafter]
          exact List.filter_eq_self.mpr fun item hitem => decide_eq_true (htail item hitem)
        have hlength := congrArg List.length hback
        rw [List.length_append, List.length_cons] at hlength
        rw [hstep, ih (by rw [hlater]; omega), hlater, Option.map_some, ← hback]

/-- If pages of one item visit all items, these are separated. -/
theorem separated_of_walk (hsorted : items.Pairwise fun item later => key item < key later)
    (htoken : ∀ item ∈ items, key item ≤ token item) {fuel : Nat} {cursor : Option K}
    (hcursor : afterCursor key cursor items = back)
    (hwalk : walk key token 1 items fuel cursor = some back) : Separated key token back := by
  subst hcursor
  induction fuel generalizing cursor with
  | zero => contradiction
  | succ fuel ih =>
      rcases walk_cases hsorted htoken Nat.one_pos fuel cursor with
        ⟨hshort, -⟩ | ⟨init, last, hback, hafter, hstep⟩
      · rw [Separated, List.pairwise_iff_forall_sublist]
        intro item later hpair
        have hlength := hpair.length_le
        simp only [List.length_cons, List.length_nil] at hlength
        omega
      · have hinit : init = [] := by
          have hlength := congrArg List.length hback
          rw [List.length_append, List.length_cons, List.length_drop] at hlength
          exact List.length_eq_zero_iff.mp (by omega)
        subst hinit
        rw [List.nil_append] at hback
        rw [hstep, Option.map_eq_some_iff] at hwalk
        obtain ⟨rest, hrest, hvisited⟩ := hwalk
        rw [List.nil_append, hback, List.cons.injEq] at hvisited
        obtain rfl := hvisited.2
        have hsublist := walk_sublist hsorted htoken Nat.one_pos hrest
        have hsame : afterCursor key (some (token last)) items =
            (afterCursor key cursor items).drop 1 := by
          refine (List.Sublist.eq_of_length_le ?_ hsublist.length_le)
          rw [hafter]
          exact List.filter_sublist
        rw [← hsame] at hrest hback
        rw [hback]
        refine List.pairwise_cons.mpr ⟨fun item hitem => ?_, ih hrest⟩
        exact of_decide_eq_true (List.mem_filter.mp hitem).2

/-- The order of the keys is that of the listing. -/
theorem separated_iff (hsorted : items.Pairwise fun item later => key item < key later) :
    Separated key token items ↔
      ∀ item ∈ items, ∀ later ∈ items, key item < key later → token item < key later := by
  constructor
  · intro hseparated
    induction items with
    | nil => exact fun item hitem => absurd hitem List.not_mem_nil
    | cons head rest ih =>
        obtain ⟨hhead, hrest⟩ := List.pairwise_cons.mp hsorted
        obtain ⟨htoken, hseparatedRest⟩ := List.pairwise_cons.mp hseparated
        intro item hitem later hlater hlt
        rcases List.mem_cons.mp hlater with rfl | hlaterRest
        · rcases List.mem_cons.mp hitem with rfl | hitemRest
          · exact absurd hlt (lt_irrefl _)
          · exact absurd hlt (hhead item hitemRest).asymm
        · rcases List.mem_cons.mp hitem with rfl | hitemRest
          · exact htoken later hlaterRest
          · exact ih hrest hseparatedRest item hitemRest later hlaterRest hlt
  · intro hall
    exact hsorted.imp_of_mem fun hitem hlater hlt => hall _ hitem _ hlater hlt

/-- With every page size all items are visited, in their order, exactly if they
are separated. -/
theorem walk_all_iff (hsorted : items.Pairwise fun item later => key item < key later)
    (htoken : ∀ item ∈ items, key item ≤ token item) (sizes : Nat → Prop) (hone : sizes 1)
    (hpositive : ∀ limit, sizes limit → 0 < limit) :
    (∀ limit, sizes limit → ∃ fuel, walk key token limit items fuel none = some items) ↔
      Separated key token items := by
  constructor
  · intro hall
    obtain ⟨fuel, hwalk⟩ := hall 1 hone
    exact separated_of_walk hsorted htoken afterCursor_none hwalk
  · intro hseparated limit hsize
    exact ⟨items.length + 1, walk_of_separated hsorted htoken hseparated (hpositive limit hsize)
      afterCursor_none (Nat.lt_succ_self _)⟩

variable (key) in
def sortBy (items : List A) : List A :=
  items.mergeSort fun item later => key item ≤ key later

@[simp] theorem mem_sortBy {item : A} : item ∈ sortBy key items ↔ item ∈ items :=
  List.mem_mergeSort

theorem perm_sortBy (items : List A) : (sortBy key items).Perm items :=
  List.mergeSort_perm items _

theorem pairwise_le_sortBy (items : List A) :
    (sortBy key items).Pairwise fun item later => key item ≤ key later := by
  have htrans : ∀ first second third : A, decide (key first ≤ key second) = true →
      decide (key second ≤ key third) = true → decide (key first ≤ key third) = true := by
    simpa using fun first second third => le_trans
  have htotal : ∀ first second : A,
      (decide (key first ≤ key second) || decide (key second ≤ key first)) = true := by
    simpa using fun first second => le_total _ _
  exact (List.pairwise_mergeSort htrans htotal items).imp of_decide_eq_true

/-- Items with keys of their own are sorted strictly. -/
theorem pairwise_sortBy (hkeys : (items.map key).Nodup) :
    (sortBy key items).Pairwise fun item later => key item < key later := by
  have hdistinct : (sortBy key items).Pairwise fun item later => key item ≠ key later := by
    rw [← List.pairwise_map]
    exact ((perm_sortBy items).map key).nodup_iff.mpr hkeys
  exact (pairwise_le_sortBy items).imp₂ (fun _ _ hle hne => lt_of_le_of_ne hle hne) hdistinct

/-- A strictly sorted listing is the one sorted from any with its items. -/
theorem eq_sortBy {sorted : List A}
    (hsorted : sorted.Pairwise fun item later => key item < key later)
    (hkeys : (items.map key).Nodup) (hmem : ∀ item, item ∈ sorted ↔ item ∈ items) :
    sorted = sortBy key items := by
  have hirrefl : Std.Irrefl fun item later : A => key item < key later :=
    ⟨fun item => lt_irrefl (key item)⟩
  have hanti : Std.Antisymm fun item later : A => key item < key later :=
    ⟨fun first second hlt hgt => absurd hgt hlt.asymm⟩
  refine hsorted.eq_of_mem_iff (pairwise_sortBy hkeys) fun item => ?_
  rw [hmem, mem_sortBy]

/-- A part of a listing is sorted as it lies in the sorted one. -/
theorem filter_sortBy (hkeys : (items.map key).Nodup) (keep : A → Bool) :
    (sortBy key items).filter keep = sortBy key (items.filter keep) := by
  refine eq_sortBy ((pairwise_sortBy hkeys).sublist List.filter_sublist)
    (hkeys.sublist (List.filter_sublist.map key)) fun item => ?_
  rw [List.mem_filter, mem_sortBy, List.mem_filter]

/-- One item more than the page is enough to cut it. -/
theorem cut_take_succ (limit : Nat) (items : List A) :
    cut limit (items.take (limit + 1)) = cut limit items := by
  have htake : (items.take (limit + 1)).take limit = items.take limit := by
    rw [List.take_take, Nat.min_eq_left (Nat.le_succ limit)]
  have hmore : limit < (items.take (limit + 1)).length ↔ limit < items.length := by
    rw [List.length_take]
    omega
  simp only [cut, htake, hmore]

section Map

variable {B : Type v} {keyAfter : B → K} {change : A → B}

theorem cut_map (change : A → B) (limit : Nat) (items : List A) :
    cut limit (items.map change) =
      ((cut limit items).1.map change, (cut limit items).2.map change) := by
  simp only [cut, List.length_map, ← List.map_take, List.getLast?_map]
  split <;> rfl

theorem sortBy_map (hkey : ∀ item, keyAfter (change item) = key item) (items : List A) :
    sortBy keyAfter (items.map change) = (sortBy key items).map change := by
  rw [sortBy, sortBy, List.map_mergeSort]
  intro item _ later _
  rw [hkey, hkey]

theorem pageOf_map (hkey : ∀ item, keyAfter (change item) = key item) (limit : Nat)
    (cursor : Option K) (items : List A) :
    pageOf keyAfter limit cursor (items.map change) =
      ((pageOf key limit cursor items).1.map change,
        (pageOf key limit cursor items).2.map change) := by
  have hafter : afterCursor keyAfter cursor (items.map change) =
      (afterCursor key cursor items).map change := by
    rw [afterCursor, List.filter_map, afterCursor]
    congr 1
    refine List.filter_congr fun item _ => ?_
    rw [Function.comp_apply, hkey]
  rw [pageOf, hafter, cut_map, pageOf]

end Map

section Changing

variable (key) (limit : Nat) (listing : Nat → List A)

/-- Where a walk stands before each page, as long as it goes on. -/
def cursorAt : Nat → Option (Option K)
  | 0 => some none
  | n + 1 =>
      (cursorAt n).bind fun cursor =>
        (pageOf key limit cursor (listing n)).2.map fun last => some (key last)

/-- The pages of a walk, each cut from the listing as it is then. -/
def pageAt (n : Nat) : List A :=
  match cursorAt key limit listing n with
  | none => []
  | some cursor => (pageOf key limit cursor (listing n)).1

variable {key limit listing} {n : Nat}
  (hsorted : ∀ n, (listing n).Pairwise fun item later => key item < key later)

theorem mem_afterCursor {cursor : Option K} {item : A} :
    item ∈ afterCursor key cursor items ↔
      item ∈ items ∧ ∀ last, cursor = some last → last < key item := by
  cases cursor <;> simp [afterCursor]

theorem mem_cut {item : A} (hitem : item ∈ (cut limit items).1) : item ∈ items :=
  List.mem_of_mem_take hitem

/-- The last item of a page that is not the last one. -/
theorem cut_eq_some {last : A} (hmore : (cut limit items).2 = some last) :
    limit < items.length ∧ (items.take limit).getLast? = some last := by
  simp only [cut] at hmore
  exact Option.ite_none_right_eq_some.mp hmore

theorem cursorAt_succ {last : K} (hcursor : cursorAt key limit listing (n + 1) = some (some last)) :
    ∃ cursor item, cursorAt key limit listing n = some cursor ∧
      (pageOf key limit cursor (listing n)).2 = some item ∧ key item = last := by
  simp only [cursorAt, Option.bind_eq_some_iff, Option.map_eq_some_iff] at hcursor
  obtain ⟨cursor, hbefore, item, hmore, heq⟩ := hcursor
  exact ⟨cursor, item, hbefore, hmore, Option.some.inj heq⟩

theorem pageAt_of_cursorAt {cursor : Option K}
    (hcursor : cursorAt key limit listing n = some cursor) :
    pageAt key limit listing n = (pageOf key limit cursor (listing n)).1 := by
  rw [pageAt, hcursor]

include hsorted in
/-- The items of a page are not past the next cursor. -/
theorem le_of_mem_page {cursor : Option K} {last item : A}
    (hmore : (pageOf key limit cursor (listing n)).2 = some last)
    (hitem : item ∈ (pageOf key limit cursor (listing n)).1) : key item ≤ key last := by
  obtain ⟨-, hlast⟩ := cut_eq_some hmore
  obtain ⟨init, hconcat⟩ := List.getLast?_eq_some_iff.mp hlast
  have hitem : item ∈ (afterCursor key cursor (listing n)).take limit := hitem
  have hpairs := ((hsorted n).sublist List.filter_sublist).sublist
    (List.take_sublist limit (afterCursor key cursor (listing n)))
  rw [hconcat] at hpairs hitem
  rcases List.mem_append.mp hitem with hinit | hlast
  · exact le_of_lt ((List.pairwise_append.mp hpairs).2.2 item hinit last List.mem_cons_self)
  · rw [List.mem_singleton.mp hlast]

include hsorted in
/-- What was returned lies up to the cursor. -/
theorem le_cursorAt {last : K} {m : Nat} {item : A}
    (hcursor : cursorAt key limit listing n = some (some last)) (hm : m < n)
    (hitem : item ∈ pageAt key limit listing m) : key item ≤ last := by
  induction n generalizing last with
  | zero => exact absurd hm (Nat.not_lt_zero m)
  | succ n ih =>
      obtain ⟨cursor, final, hbefore, hmore, rfl⟩ := cursorAt_succ hcursor
      rcases Nat.lt_succ_iff_lt_or_eq.mp hm with hearlier | rfl
      · cases cursor with
        | some previous =>
            have hfinal : final ∈ afterCursor key (some previous) (listing n) :=
              mem_cut (List.mem_of_getLast? (cut_eq_some hmore).2)
            have hafter := (mem_afterCursor.mp hfinal).2 previous rfl
            exact (ih hbefore hearlier).trans (le_of_lt hafter)
        | none =>
            -- Only the first page has no cursor.
            cases n with
            | zero => exact absurd hearlier (Nat.not_lt_zero m)
            | succ n =>
                simp [cursorAt, Option.bind_eq_some_iff] at hbefore
      · rw [pageAt_of_cursorAt hbefore] at hitem
        exact le_of_mem_page hsorted hmore hitem

include hsorted in
/-- A later page has later keys. -/
theorem pageAt_lt {m : Nat} {item later : A} (hm : m < n)
    (hitem : item ∈ pageAt key limit listing m) (hlater : later ∈ pageAt key limit listing n) :
    key item < key later := by
  cases hcursor : cursorAt key limit listing n with
  | none =>
      rw [pageAt, hcursor] at hlater
      exact absurd hlater List.not_mem_nil
  | some cursor =>
      rw [pageAt_of_cursorAt hcursor] at hlater
      cases cursor with
      | none =>
          cases n with
          | zero => exact absurd hm (Nat.not_lt_zero m)
          | succ n => simp [cursorAt, Option.bind_eq_some_iff] at hcursor
      | some last =>
          have hafter := (mem_afterCursor.mp (mem_cut hlater)).2 last rfl
          exact lt_of_le_of_lt (le_cursorAt hsorted hcursor hm hitem) hafter

include hsorted in
/-- The keys a walk returns increase, so none comes twice. -/
theorem pairwise_pages (n : Nat) :
    ((List.range n).flatMap (pageAt key limit listing)).Pairwise fun item later =>
      key item < key later := by
  rw [List.pairwise_flatMap]
  constructor
  · intro m _
    cases hcursor : cursorAt key limit listing m with
    | none =>
        rw [pageAt, hcursor]
        exact List.Pairwise.nil
    | some cursor =>
        rw [pageAt_of_cursorAt hcursor]
        exact ((hsorted m).sublist List.filter_sublist).sublist (List.take_sublist _ _)
  · exact List.pairwise_lt_range.imp fun hlt item hitem later hlater =>
      pageAt_lt hsorted hlt hitem hlater

include hsorted in
/-- A key that is in every listing so far was returned, or the walk has not come
to it. -/
theorem returned_or_ahead (hlimit : 0 < limit) {k : K}
    (hstays : ∀ m < n, ∃ item ∈ listing m, key item = k) :
    (∃ m < n, ∃ item ∈ pageAt key limit listing m, key item = k) ∨
      ∃ cursor, cursorAt key limit listing n = some cursor ∧
        ∀ last, cursor = some last → last < k := by
  induction n with
  | zero => exact .inr ⟨none, rfl, fun last heq => by cases heq⟩
  | succ n ih =>
      rcases ih fun m hm => hstays m (Nat.lt_succ_of_lt hm) with
        ⟨m, hm, hreturned⟩ | ⟨cursor, hcursor, hahead⟩
      · exact .inl ⟨m, Nat.lt_succ_of_lt hm, hreturned⟩
      obtain ⟨item, hitem, rfl⟩ := hstays n (Nat.lt_succ_self n)
      have hafter : item ∈ afterCursor key cursor (listing n) :=
        mem_afterCursor.mpr ⟨hitem, hahead⟩
      by_cases hpage : item ∈ (afterCursor key cursor (listing n)).take limit
      · refine .inl ⟨n, Nat.lt_succ_self n, item, ?_, rfl⟩
        rw [pageAt_of_cursorAt hcursor]
        exact hpage
      · right
        -- An item behind the page is past its last one.
        have hdrop : item ∈ (afterCursor key cursor (listing n)).drop limit := by
          rw [← List.take_append_drop limit (afterCursor key cursor (listing n))] at hafter
          exact (List.mem_append.mp hafter).resolve_left hpage
        have hmore : limit < (afterCursor key cursor (listing n)).length := by
          by_contra hall
          rw [List.drop_of_length_le (Nat.le_of_not_lt hall)] at hdrop
          exact absurd hdrop List.not_mem_nil
        obtain ⟨init, last, htake, hnext⟩ := exists_concat_of_more hlimit hmore
        refine ⟨some (key last), ?_, ?_⟩
        · simp only [cursorAt, hcursor, Option.bind_some, pageOf, hnext, Option.map_some]
        · have hpairs : (afterCursor key cursor (listing n)).Pairwise fun item later =>
              key item < key later := (hsorted n).sublist List.filter_sublist
          rw [← List.take_append_drop limit (afterCursor key cursor (listing n))] at hpairs
          have hlast : last ∈ (afterCursor key cursor (listing n)).take limit := by
            rw [htake]
            exact List.mem_concat_self
          rintro _ ⟨⟩
          exact (List.pairwise_append.mp hpairs).2.2 last hlast item hdrop

include hsorted in
/-- When a walk has ended, a key that stayed was returned. -/
theorem returned_of_ended (hlimit : 0 < limit) {k : K}
    (hstays : ∀ m < n, ∃ item ∈ listing m, key item = k)
    (hended : cursorAt key limit listing n = none) :
    ∃ m < n, ∃ item ∈ pageAt key limit listing m, key item = k := by
  rcases returned_or_ahead hsorted hlimit hstays with hreturned | ⟨cursor, hcursor, -⟩
  · exact hreturned
  · rw [hended] at hcursor
    contradiction

include hsorted in
/-- Fewer items are left after a page. -/
theorem length_afterCursor_lt (hlimit : 0 < limit) {cursor : Option K} {last : A}
    (hmore : (pageOf key limit cursor (listing n)).2 = some last) :
    (afterCursor key (some (key last)) (listing n)).length <
      (afterCursor key cursor (listing n)).length := by
  obtain ⟨hmany, hlast⟩ := cut_eq_some hmore
  obtain ⟨init, htake⟩ := List.getLast?_eq_some_iff.mp hlast
  obtain ⟨front, hfront⟩ := exists_front (hsorted n) cursor
  have hsplit : listing n = (front ++ init) ++ last ::
      (afterCursor key cursor (listing n)).drop limit := by
    rw [List.append_assoc, List.append_cons, ← htake, List.take_append_drop]
    exact hfront
  have hrest : afterCursor key (some (key last)) (listing n) =
      afterCursor key (some (key last)) ((afterCursor key cursor (listing n)).drop limit) :=
    afterCursor_token (hsorted n) (fun item _ => le_refl (key item)) hsplit
  rw [hrest]
  have hfilter := List.length_filter_le (fun item => decide (key last < key item))
    ((afterCursor key cursor (listing n)).drop limit)
  refine lt_of_le_of_lt hfilter ?_
  rw [List.length_drop]
  omega

/-- A listing as long as the keys say. -/
theorem length_afterCursor (cursor : Option K) (items : List A) :
    (afterCursor key cursor items).length = (afterCursor id cursor (items.map key)).length := by
  simp only [afterCursor, List.filter_map, List.length_map]
  rfl

include hsorted in
/-- A walk ends once the keys of the listing stay. -/
theorem exists_ended (hlimit : 0 < limit)
    (hquiet : ∀ m, n ≤ m → (listing m).map key = (listing n).map key) :
    ∃ m, cursorAt key limit listing m = none := by
  have hwalk : ∀ left m cursor, n ≤ m → cursorAt key limit listing m = some cursor →
      (afterCursor key cursor (listing m)).length ≤ left →
        ∃ m, cursorAt key limit listing m = none := by
    intro left
    induction left with
    | zero =>
        intro m cursor _ hcursor hnone
        refine ⟨m + 1, ?_⟩
        have hlast : (pageOf key limit cursor (listing m)).2 = none := if_neg (by omega)
        simp only [cursorAt, hcursor, Option.bind_some, hlast, Option.map_none]
    | succ left ih =>
        intro m cursor hm hcursor hleft
        cases hmore : (pageOf key limit cursor (listing m)).2 with
        | none => exact ⟨m + 1, by
            simp only [cursorAt, hcursor, Option.bind_some, hmore, Option.map_none]⟩
        | some last =>
            refine ih (m + 1) (some (key last)) (Nat.le_succ_of_le hm) ?_ ?_
            · simp only [cursorAt, hcursor, Option.bind_some, hmore, Option.map_some]
            · have hshorter := length_afterCursor_lt hsorted hlimit hmore
              rw [length_afterCursor, hquiet (m + 1) (Nat.le_succ_of_le hm), ← hquiet m hm,
                ← length_afterCursor]
              omega
  cases hcursor : cursorAt key limit listing n with
  | none => exact ⟨n, hcursor⟩
  | some cursor => exact hwalk _ n cursor (le_refl n) hcursor (le_refl _)

end Changing

end Page

end Keeplin
