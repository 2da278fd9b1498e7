/-
Version vectors: how many operations of each device a version counts.  An
absent device counts zero, so dominance compares the counts of the devices the
other vector names.  The counts are unbounded here: it is assumed that none of them
reaches the largest of 64 bits, from where an increment would wrap to zero.
-/
import Mathlib.Order.Basic
import Mathlib.Data.List.Basic

namespace Keeplin

abbrev VersionVector := Std.ExtTreeMap String Nat compare

namespace VersionVector

def increment (vv : VersionVector) (device : String) : VersionVector :=
  vv.insert device (vv.getD device 0 + 1)

def dominates (a b : VersionVector) : Bool :=
  b.toList.all fun entry => decide (entry.2 ≤ a.getD entry.1 0)

def join (a b : VersionVector) : VersionVector :=
  b.toList.foldl
    (fun out entry => out.insert entry.1 (max (out.getD entry.1 0) entry.2)) a

/-- How many operations of `device` the vector counts. -/
def count (vv : VersionVector) (device : String) : Nat :=
  vv.getD device 0

@[simp] theorem count_empty (device : String) : count ∅ device = 0 := by
  simp [count]

theorem count_insert (vv : VersionVector) (key device : String) (n : Nat) :
    count (vv.insert key n) device = if key = device then n else count vv device := by
  simp [count, Std.ExtTreeMap.getD_insert]

theorem count_increment (vv : VersionVector) (key device : String) :
    count (vv.increment key) device =
      if key = device then count vv device + 1 else count vv device := by
  rw [increment, count_insert]
  split
  · next heq => rw [heq]; rfl
  · rfl

theorem count_increment_self (vv : VersionVector) (device : String) :
    count (vv.increment device) device = count vv device + 1 := by
  simp [count_increment]

theorem le_count_increment (vv : VersionVector) (key device : String) :
    count vv device ≤ count (vv.increment key) device := by
  rw [count_increment]
  split <;> omega

theorem count_eq_of_mem_toList {vv : VersionVector} {device : String} {n : Nat}
    (hmem : (device, n) ∈ vv.toList) : count vv device = n := by
  rw [Std.ExtTreeMap.mem_toList_iff_getElem?_eq_some] at hmem
  rw [count, Std.ExtTreeMap.getD_eq_getD_getElem?, hmem, Option.getD_some]

theorem mem_toList_of_count_pos {vv : VersionVector} {device : String}
    (hpos : 0 < count vv device) : (device, count vv device) ∈ vv.toList := by
  rw [Std.ExtTreeMap.mem_toList_iff_getElem?_eq_some]
  rw [count, Std.ExtTreeMap.getD_eq_getD_getElem?] at hpos ⊢
  cases hfound : vv[device]? with
  | none => simp [hfound] at hpos
  | some n => simp

/-- Dominance compares every count. -/
theorem dominates_iff {a b : VersionVector} :
    dominates a b = true ↔ ∀ device, count b device ≤ count a device := by
  simp only [dominates, List.all_eq_true, decide_eq_true_eq]
  constructor
  · intro hle device
    by_cases hpos : 0 < count b device
    · exact hle _ (mem_toList_of_count_pos hpos)
    · omega
  · intro hle entry hentry
    rw [← count_eq_of_mem_toList hentry]
    exact hle entry.1

theorem dominates_refl (a : VersionVector) : dominates a a = true :=
  dominates_iff.mpr fun _ => Nat.le_refl _

theorem dominates_trans {a b c : VersionVector} (hab : dominates a b = true)
    (hbc : dominates b c = true) : dominates a c = true :=
  dominates_iff.mpr fun device =>
    Nat.le_trans (dominates_iff.mp hbc device) (dominates_iff.mp hab device)

theorem dominates_empty (a : VersionVector) : dominates a ∅ = true :=
  dominates_iff.mpr fun device => by simp

theorem increment_dominates (vv : VersionVector) (device : String) :
    dominates (vv.increment device) vv = true :=
  dominates_iff.mpr fun key => le_count_increment vv device key

theorem increment_dominates_of_dominates {a b : VersionVector}
    (hdom : dominates a b = true) (device : String) :
    dominates (a.increment device) b = true :=
  dominates_trans (increment_dominates a device) hdom

theorem not_dominates_increment (vv : VersionVector) (device : String) :
    dominates vv (vv.increment device) = false := by
  rw [Bool.eq_false_iff]
  intro hdom
  have hle := dominates_iff.mp hdom device
  rw [count_increment_self] at hle
  omega

section Join

/-- One entry of the right vector taken over by `join`. -/
private theorem count_joinEntry (out : VersionVector) (entry : String × Nat)
    (device : String) :
    count (out.insert entry.1 (max (out.getD entry.1 0) entry.2)) device =
      if entry.1 = device then max (count out device) entry.2 else count out device := by
  rw [count_insert]
  split
  · next heq => rw [heq]; rfl
  · rfl

private theorem count_le_joinEntries (entries : List (String × Nat))
    (out : VersionVector) (device : String) :
    count out device ≤ count (entries.foldl (fun out entry =>
      out.insert entry.1 (max (out.getD entry.1 0) entry.2)) out) device := by
  induction entries generalizing out with
  | nil => exact Nat.le_refl _
  | cons entry rest ih =>
      refine Nat.le_trans ?_ (ih _)
      rw [count_joinEntry]
      split <;> omega

private theorem le_count_joinEntries {entries : List (String × Nat)}
    {entry : String × Nat} (hentry : entry ∈ entries) (out : VersionVector) :
    entry.2 ≤ count (entries.foldl (fun out entry =>
      out.insert entry.1 (max (out.getD entry.1 0) entry.2)) out) entry.1 := by
  induction entries generalizing out with
  | nil => exact absurd hentry List.not_mem_nil
  | cons head rest ih =>
      rcases List.mem_cons.mp hentry with rfl | hrest
      · refine Nat.le_trans ?_ (count_le_joinEntries rest _ entry.1)
        rw [count_joinEntry, if_pos rfl]
        exact Nat.le_max_right _ _
      · exact ih hrest _

private theorem count_joinEntries_le (entries : List (String × Nat))
    (out : VersionVector) (device : String) (bound : Nat)
    (hout : count out device ≤ bound)
    (hentries : ∀ entry ∈ entries, entry.1 = device → entry.2 ≤ bound) :
    count (entries.foldl (fun out entry =>
      out.insert entry.1 (max (out.getD entry.1 0) entry.2)) out) device ≤ bound := by
  induction entries generalizing out with
  | nil => exact hout
  | cons entry rest ih =>
      refine ih _ ?_ fun other hother => hentries other (List.mem_cons_of_mem entry hother)
      rw [count_joinEntry]
      split
      · next heq =>
          have hhead := hentries entry List.mem_cons_self heq
          omega
      · exact hout

/-- The join counts what either side counts. -/
theorem count_join (a b : VersionVector) (device : String) :
    count (join a b) device = max (count a device) (count b device) := by
  apply Nat.le_antisymm
  · apply count_joinEntries_le
    · omega
    · rintro ⟨key, n⟩ hentry rfl
      rw [count_eq_of_mem_toList hentry]
      omega
  · have hleft := count_le_joinEntries b.toList a device
    have hright : count b device ≤ count (join a b) device := by
      by_cases hpos : 0 < count b device
      · exact le_count_joinEntries (mem_toList_of_count_pos hpos) a
      · omega
    exact Nat.max_le.mpr ⟨hleft, hright⟩

private theorem mem_joinEntries {entries : List (String × Nat)} {out : VersionVector}
    {device : String} :
    device ∈ entries.foldl (fun out entry =>
        out.insert entry.1 (max (out.getD entry.1 0) entry.2)) out ↔
      device ∈ out ∨ ∃ n, (device, n) ∈ entries := by
  induction entries generalizing out with
  | nil => simp
  | cons entry rest ih =>
      simp only [List.foldl_cons, ih, Std.ExtTreeMap.mem_insert,
        Std.LawfulEqCmp.compare_eq_iff_eq, List.mem_cons]
      constructor
      · rintro ((rfl | hout) | ⟨n, hrest⟩)
        · exact Or.inr ⟨entry.2, Or.inl rfl⟩
        · exact Or.inl hout
        · exact Or.inr ⟨n, Or.inr hrest⟩
      · rintro (hout | ⟨n, rfl | hrest⟩)
        · exact Or.inl (Or.inr hout)
        · exact Or.inl (Or.inl rfl)
        · exact Or.inr ⟨n, hrest⟩

theorem mem_iff_mem_toList {vv : VersionVector} {device : String} :
    device ∈ vv ↔ ∃ n, (device, n) ∈ vv.toList := by
  simp only [Std.ExtTreeMap.mem_toList_iff_getElem?_eq_some]
  rw [Std.ExtTreeMap.mem_iff_isSome_getElem?, Option.isSome_iff_exists]

/-- The join names the devices either side names. -/
theorem mem_join {a b : VersionVector} {device : String} :
    device ∈ join a b ↔ device ∈ a ∨ device ∈ b := by
  rw [join, mem_joinEntries, ← mem_iff_mem_toList]

end Join

/-- A vector is its counts and the devices it names: a device may be named
with a count of zero. -/
theorem eq_of_counts {a b : VersionVector} (hnames : ∀ device, device ∈ a ↔ device ∈ b)
    (hcounts : ∀ device, count a device = count b device) : a = b := by
  apply Std.ExtTreeMap.ext_getElem?
  intro device
  by_cases hmem : device ∈ a
  · have hother := (hnames device).mp hmem
    have hcount := hcounts device
    rw [Std.ExtTreeMap.mem_iff_isSome_getElem?, Option.isSome_iff_exists] at hmem hother
    obtain ⟨n, hn⟩ := hmem
    obtain ⟨m, hm⟩ := hother
    rw [count, count, Std.ExtTreeMap.getD_eq_getD_getElem?,
      Std.ExtTreeMap.getD_eq_getD_getElem?, hn, hm] at hcount
    rw [hn, hm]
    exact congrArg some hcount
  · have hother := fun hin => hmem ((hnames device).mpr hin)
    rw [Std.ExtTreeMap.getElem?_eq_none hmem, Std.ExtTreeMap.getElem?_eq_none hother]

/-- The order in which vectors are joined to one does not matter. -/
theorem join_right_comm (a b c : VersionVector) :
    join (join a b) c = join (join a c) b := by
  apply eq_of_counts
  · intro device
    simp only [mem_join]
    exact or_right_comm
  · intro device
    simp only [count_join]
    omega

end VersionVector

end Keeplin
