/-
A directory as its listing: the names it holds, in the order a listing visits
them, each with what the file or folder of that name contains.  A new name may
turn up anywhere in the listing; the names already there keep their order.
-/
import Mathlib.Order.Basic
import Mathlib.Data.List.Basic
import Mathlib.Data.List.Nodup

namespace Keeplin

universe u v

abbrev Directory (K : Type u) (A : Type v) := List (K × A)

namespace Directory

variable {K : Type u} {A : Type v} [DecidableEq K]

/-- What the name contains, if it exists. -/
def file? (dir : Directory K A) (key : K) : Option A :=
  (dir.find? fun file => file.1 = key).map Prod.snd

def holds (dir : Directory K A) (key : K) : Bool :=
  dir.any fun file => file.1 = key

/-- Write a name: in its place when it exists, else at `position`. -/
def put (dir : Directory K A) (position : Nat) (key : K) (value : A) : Directory K A :=
  if dir.holds key then
    dir.map fun file => if file.1 = key then (key, value) else file
  else dir.take position ++ (key, value) :: dir.drop position

variable {dir : Directory K A} {position : Nat} {key : K} {value : A}

theorem holds_iff : dir.holds key = true ↔ ∃ value, (key, value) ∈ dir := by
  simp only [holds, List.any_eq_true, decide_eq_true_eq]
  constructor
  · rintro ⟨file, hfile, rfl⟩
    exact ⟨file.2, hfile⟩
  · rintro ⟨value, hfile⟩
    exact ⟨(key, value), hfile, rfl⟩

theorem file?_mem (hentry : dir.file? key = some value) : (key, value) ∈ dir := by
  obtain ⟨file, hfind, rfl⟩ := Option.map_eq_some_iff.mp hentry
  have hmem := List.mem_of_find?_eq_some hfind
  have hkey := List.find?_some hfind
  simp only [decide_eq_true_eq] at hkey
  exact hkey ▸ hmem

theorem file?_eq_none_iff : dir.file? key = none ↔ ∀ value, (key, value) ∉ dir := by
  simp only [file?, Option.map_eq_none_iff, List.find?_eq_none, decide_eq_true_eq]
  constructor
  · exact fun hnone value hfile => hnone (key, value) hfile rfl
  · rintro hnone file hfile rfl
    exact hnone file.2 hfile

theorem holds_eq_isSome : dir.holds key = (dir.file? key).isSome := by
  rw [Bool.eq_iff_iff, holds_iff, Option.isSome_iff_ne_none, Ne, file?_eq_none_iff]
  push Not
  exact Iff.rfl

theorem eq_or_mem_of_mem_put {file : K × A} (hfile : file ∈ dir.put position key value) :
    file = (key, value) ∨ (file ∈ dir ∧ file.1 ≠ key) := by
  simp only [put] at hfile
  split at hfile
  · obtain ⟨old, hold, rfl⟩ := List.mem_map.mp hfile
    by_cases hkey : old.1 = key
    · exact Or.inl (if_pos hkey)
    · rw [if_neg hkey]
      exact Or.inr ⟨hold, hkey⟩
  · next hmissing =>
      have hkept : ∀ old ∈ dir, old.1 ≠ key := by
        rintro old hold rfl
        exact hmissing (holds_iff.mpr ⟨old.2, hold⟩)
      rcases List.mem_append.mp hfile with hfront | hback
      · have hmem := List.mem_of_mem_take hfront
        exact Or.inr ⟨hmem, hkept file hmem⟩
      · rcases List.mem_cons.mp hback with hnew | hrest
        · exact Or.inl hnew
        · have hmem := List.mem_of_mem_drop hrest
          exact Or.inr ⟨hmem, hkept file hmem⟩

theorem mem_put_self (dir : Directory K A) (position : Nat) (key : K) (value : A) :
    (key, value) ∈ dir.put position key value := by
  simp only [put]
  split
  · next hfound =>
      obtain ⟨old, hold⟩ := holds_iff.mp hfound
      exact List.mem_map.mpr ⟨(key, old), hold, if_pos rfl⟩
  · simp

theorem mem_put_of_ne {file : K × A} (hfile : file ∈ dir) (hne : file.1 ≠ key) :
    file ∈ dir.put position key value := by
  simp only [put]
  split
  · exact List.mem_map.mpr ⟨file, hfile, if_neg hne⟩
  · rw [← List.take_append_drop position dir] at hfile
    rcases List.mem_append.mp hfile with hfront | hback
    · exact List.mem_append.mpr (Or.inl hfront)
    · exact List.mem_append.mpr (Or.inr (List.mem_cons_of_mem _ hback))

theorem eq_of_mem_put {found : A} (hfound : (key, found) ∈ dir.put position key value) :
    found = value := by
  rcases eq_or_mem_of_mem_put hfound with heq | ⟨_, hne⟩
  · exact (Prod.mk.inj heq).2
  · exact absurd rfl hne

@[simp] theorem file?_put_self (dir : Directory K A) (position : Nat) (key : K)
    (value : A) : (dir.put position key value).file? key = some value := by
  cases hentry : (dir.put position key value).file? key with
  | none =>
      have hmissing := file?_eq_none_iff.mp hentry value
      exact absurd (mem_put_self dir position key value) hmissing
  | some found => rw [eq_of_mem_put (file?_mem hentry)]

private theorem find?_map_replace (files : List (K × A)) {other : K} (hne : key ≠ other) :
    (files.map fun file => if file.1 = key then (key, value) else file).find?
        (fun file => file.1 = other) =
      files.find? fun file => file.1 = other := by
  induction files with
  | nil => rfl
  | cons file rest ih =>
      simp only [List.map_cons, List.find?_cons]
      by_cases hkey : file.1 = key
      · have hother : ¬ file.1 = other := fun heq => hne (hkey.symm.trans heq)
        simp only [hkey, hne, ↓reduceIte, decide_false, ih]
      · simp only [hkey, ↓reduceIte, ih]

/-- Writing one name leaves what the others contain. -/
theorem file?_put_of_ne {other : K} (hne : key ≠ other) :
    (dir.put position key value).file? other = dir.file? other := by
  simp only [put, file?]
  split
  · rw [find?_map_replace dir hne]
  · have hfind : (dir.take position ++ (key, value) :: dir.drop position).find?
        (fun file => decide (file.1 = other)) =
          (dir.take position ++ dir.drop position).find? fun file => file.1 = other := by
      simp only [List.find?_append, List.find?_cons, hne, decide_false]
    rw [hfind, List.take_append_drop]

theorem file?_put (dir : Directory K A) (position : Nat) (key other : K) (value : A) :
    (dir.put position key value).file? other =
      if key = other then some value else dir.file? other := by
  split
  · next heq => rw [← heq, file?_put_self]
  · next hne => exact file?_put_of_ne hne

theorem file?_of_nodup (hnodup : (dir.map Prod.fst).Nodup) (hfile : (key, value) ∈ dir) :
    dir.file? key = some value := by
  cases hfound : dir.file? key with
  | none => exact absurd hfile (file?_eq_none_iff.mp hfound value)
  | some other =>
      have hsame := List.inj_on_of_nodup_map hnodup (file?_mem hfound) hfile rfl
      rw [(Prod.mk.inj hsame).2]

/-- The order of a listing that shows every name once does not matter to what the
names contain. -/
theorem file?_perm {other : Directory K A} (hperm : other.Perm dir)
    (hnodup : (dir.map Prod.fst).Nodup) (key : K) : other.file? key = dir.file? key := by
  have hother : (other.map Prod.fst).Nodup := (hperm.map Prod.fst).nodup_iff.mpr hnodup
  cases hfound : dir.file? key with
  | none =>
      rw [file?_eq_none_iff] at hfound ⊢
      exact fun value hfile => hfound value (hperm.mem_iff.mp hfile)
  | some value => exact file?_of_nodup hother (hperm.mem_iff.mpr (file?_mem hfound))

/-- A listing that shows every name once still does after a write. -/
theorem nodup_put (hnodup : (dir.map Prod.fst).Nodup) :
    ((dir.put position key value).map Prod.fst).Nodup := by
  simp only [put]
  split
  · have hnames : (dir.map fun file => if file.1 = key then (key, value) else file).map
        Prod.fst = dir.map Prod.fst := by
      rw [List.map_map]
      apply List.map_congr_left
      intro file _
      simp only [Function.comp]
      split
      · next heq => exact heq.symm
      · rfl
    rwa [hnames]
  · next hmissing =>
      have hnew : key ∉ dir.map Prod.fst := by
        intro hmem
        obtain ⟨file, hfile, rfl⟩ := List.mem_map.mp hmem
        exact hmissing (holds_iff.mpr ⟨file.2, hfile⟩)
      have hperm : ((dir.take position ++ (key, value) :: dir.drop position).map Prod.fst).Perm
          (key :: dir.map Prod.fst) := by
        rw [List.map_append, List.map_cons]
        refine List.perm_middle.trans (List.Perm.cons key ?_)
        rw [← List.map_append, List.take_append_drop]
      rw [hperm.nodup_iff, List.nodup_cons]
      exact ⟨hnew, hnodup⟩

/-- Removing names leaves what the others contain. -/
theorem file?_filter (files : Directory K A) (keep : K → Bool) (key : K) :
    file? (List.filter (fun file => keep file.1) files : Directory K A) key =
      if keep key then files.file? key else none := by
  induction files with
  | nil => simp [file?]
  | cons file rest ih =>
      simp only [file?, List.filter_cons] at ih ⊢
      by_cases hkey : file.1 = key
      · subst hkey
        by_cases hkeep : keep file.1 = true
        · simp [hkeep]
        · simpa [hkeep] using ih
      · by_cases hkeep : keep file.1 = true
        · simpa [hkeep, hkey] using ih
        · simpa [hkeep, hkey] using ih

end Directory

end Keeplin
