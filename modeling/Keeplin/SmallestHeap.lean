/-
A heap that keeps the smallest of the items pushed onto it.  It is a sorted list,
its top the last.  What it keeps are the first items of the sorted listing, in
whatever order they were pushed.
-/
import Mathlib.Data.List.Induction
import Keeplin.KeysetWalks

namespace Keeplin

universe u v

variable {K : Type u} {A : Type v} [LinearOrder K] (key : A → K)

/-- Put an item in its place in a sorted list. -/
def insertBy (item : A) (list : List A) : List A :=
  list.orderedInsert (fun item later => key item ≤ key later) item

/-- Push an item onto a heap with room for one more than the limit. -/
def pushSmallest (limit : Nat) (heap : List A) (item : A) : List A :=
  if heap.length ≤ limit then insertBy key item heap
  else
    match heap.getLast? with
    | none => heap
    | some top => if key item < key top then insertBy key item heap.dropLast else heap

variable {key} {item : A} {list : List A}

/-- The first items after an insertion: an item past them changes nothing, and
one before their last pushes this one out. -/
theorem take_insertBy (hsorted : list.Pairwise fun item later => key item ≤ key later)
    (item : A) {bound : Nat} (hbound : bound < list.length) :
    (insertBy key item list).take (bound + 1) =
      if key item ≤ key list[bound] then insertBy key item (list.take bound)
      else list.take (bound + 1) := by
  simp only [insertBy]
  induction list generalizing bound with
  | nil => exact absurd hbound (Nat.not_lt_zero bound)
  | cons head rest ih =>
      obtain ⟨hhead, hrest⟩ := List.pairwise_cons.mp hsorted
      cases bound with
      | zero =>
          rw [List.orderedInsert_cons, List.getElem_cons_zero]
          split <;> rfl
      | succ bound =>
          have hbound : bound < rest.length := Nat.lt_of_succ_lt_succ hbound
          have hle := hhead rest[bound] (List.getElem_mem hbound)
          rw [List.orderedInsert_cons, List.getElem_cons_succ, List.take_succ_cons,
            List.take_succ_cons, List.orderedInsert_cons]
          by_cases hitem : key item ≤ key head
          · rw [if_pos hitem, if_pos (le_trans hitem hle), if_pos hitem]
            rfl
          · rw [if_neg hitem, if_neg hitem, List.take_succ_cons, ih hrest hbound]
            split <;> rfl

/-- A new item in its place in the sorted listing. -/
theorem insertBy_sortBy (hkeys : ((item :: list).map key).Nodup) :
    insertBy key item (sortBy key list) = sortBy key (item :: list) := by
  obtain ⟨hnew, hlist⟩ := List.nodup_cons.mp (List.map_cons ▸ hkeys)
  refine eq_sortBy ?_ hkeys fun other => ?_
  · have htotal : Std.Total fun item later : A => key item ≤ key later :=
      ⟨fun first second => le_total (key first) (key second)⟩
    have htrans : IsTrans A fun item later : A => key item ≤ key later :=
      ⟨fun first second third => le_trans⟩
    have hle : (insertBy key item (sortBy key list)).Pairwise fun item later =>
        key item ≤ key later :=
      List.Pairwise.orderedInsert item _ (pairwise_le_sortBy list)
    have hdistinct : (insertBy key item (sortBy key list)).Pairwise fun item later =>
        key item ≠ key later := by
      rw [← List.pairwise_map]
      refine ((List.perm_orderedInsert _ item _).map key).nodup_iff.mpr ?_
      rw [List.map_cons, List.nodup_cons]
      refine ⟨fun hmem => hnew (((perm_sortBy list).map key).mem_iff.mp hmem), ?_⟩
      exact ((perm_sortBy list).map key).nodup_iff.mpr hlist
    exact hle.imp₂ (fun _ _ hle hne => lt_of_le_of_ne hle hne) hdistinct
  · rw [insertBy, List.mem_orderedInsert, mem_sortBy, List.mem_cons]

/-- A push onto the smallest of some items leaves the smallest of these and the
new one. -/
theorem pushSmallest_take (hkeys : ((item :: list).map key).Nodup) (limit : Nat) :
    pushSmallest key limit ((sortBy key list).take (limit + 1)) item =
      (sortBy key (item :: list)).take (limit + 1) := by
  have hlength : ((sortBy key list).take (limit + 1)).length = min (limit + 1) list.length := by
    rw [List.length_take, (perm_sortBy list).length_eq]
  rw [pushSmallest, hlength, ← insertBy_sortBy hkeys]
  split
  · next hroom =>
      have hshort : (sortBy key list).length ≤ limit := by
        rw [(perm_sortBy list).length_eq]
        omega
      rw [List.take_of_length_le (by omega), List.take_of_length_le]
      rw [insertBy, List.orderedInsert_length]
      omega
  · next hfull =>
      have hbound : limit < (sortBy key list).length := by
        rw [(perm_sortBy list).length_eq]
        omega
      have htop : ((sortBy key list).take (limit + 1)).getLast? =
          some (sortBy key list)[limit] := by
        rw [List.getLast?_take, if_neg (Nat.succ_ne_zero _)]
        simp [hbound]
      have hdrop : ((sortBy key list).take (limit + 1)).dropLast =
          (sortBy key list).take limit := by
        have hshorter : min (min (limit + 1) list.length - 1) (limit + 1) = limit := by omega
        rw [List.dropLast_eq_take, hlength, List.take_take, hshorter]
      have hne : key item ≠ key (sortBy key list)[limit] := fun heq =>
        (List.nodup_cons.mp (List.map_cons ▸ hkeys)).1
          (heq ▸ List.mem_map_of_mem (mem_sortBy.mp (List.getElem_mem hbound)))
      rw [htop, take_insertBy (pairwise_le_sortBy list) item hbound, hdrop]
      simp only [lt_iff_le_and_ne, and_iff_left hne]

/-- What is pushed in any order is kept in that of the keys. -/
theorem foldl_pushSmallest {items : List A} (hkeys : (items.map key).Nodup) (limit : Nat) :
    items.foldl (pushSmallest key limit) [] = (sortBy key items).take (limit + 1) := by
  induction items using List.reverseRecOn with
  | nil => simp [sortBy]
  | append_singleton items item ih =>
      have hperm : (items ++ [item]).Perm (item :: items) := List.perm_append_comm
      have hcons : ((item :: items).map key).Nodup := ((hperm.map key).nodup_iff).mp hkeys
      have hitems := (List.nodup_cons.mp (List.map_cons ▸ hcons)).2
      have hsame : sortBy key (items ++ [item]) = sortBy key (item :: items) :=
        eq_sortBy (pairwise_sortBy hkeys) hcons fun other => by
          rw [mem_sortBy, hperm.mem_iff]
      rw [List.foldl_append, ih hitems, List.foldl_cons, List.foldl_nil, pushSmallest_take hcons,
        hsame]

/-- The page of the items pushed that lie after the cursor. -/
theorem cut_foldl_pushSmallest {items : List A} (hkeys : (items.map key).Nodup) (limit : Nat)
    (cursor : Option K) :
    cut limit ((afterCursor key cursor items).foldl (pushSmallest key limit) []) =
      pageOf key limit cursor (sortBy key items) := by
  have hafter : ((afterCursor key cursor items).map key).Nodup :=
    hkeys.sublist (List.filter_sublist.map key)
  rw [foldl_pushSmallest hafter, cut_take_succ, pageOf, afterCursor, afterCursor,
    filter_sortBy hkeys]

end Keeplin
