/-
Maps from a name to the set of entries filed under it, which hold no empty set.
Such a map is determined by what is filed under which name.  It is the inverse of a
map from each key to the name and the entry it is filed by.
-/
import Mathlib.Order.Basic
import Mathlib.Data.List.Basic
import Mathlib.Logic.Function.Basic

namespace Keeplin

universe u v

abbrev Buckets (A : Type u) (E : Type v) (cmpName : A → A → Ordering)
    (cmpEntry : E → E → Ordering) :=
  Std.ExtTreeMap A (Std.ExtTreeSet E cmpEntry) cmpName

namespace Buckets

variable {A : Type u} {E : Type v} {cmpName : A → A → Ordering} {cmpEntry : E → E → Ordering}
  [Std.TransCmp cmpName]

/-- What is filed under a name. -/
def bucket (map : Buckets A E cmpName cmpEntry) (name : A) : Std.ExtTreeSet E cmpEntry :=
  map[name]?.getD ∅

/-- No name stands for nothing. -/
def NoneEmpty (map : Buckets A E cmpName cmpEntry) : Prop :=
  ∀ (name : A) (set : Std.ExtTreeSet E cmpEntry), map[name]? = some set → set ≠ ∅

section Lookup

variable {map : Buckets A E cmpName cmpEntry} {name : A}

theorem bucket_eq_empty_iff (hnone : map.NoneEmpty) :
    map.bucket name = ∅ ↔ map[name]? = none := by
  unfold bucket
  cases hset : map[name]? with
  | none => simp
  | some set => simpa using hnone name set hset

theorem noneEmpty_empty : (∅ : Buckets A E cmpName cmpEntry).NoneEmpty := by
  intro name set hset
  simp at hset

end Lookup

variable [Std.TransCmp cmpEntry]

/-- File an entry under a name, which need not be there yet. -/
def file (map : Buckets A E cmpName cmpEntry) (name : A) (entry : E) :
    Buckets A E cmpName cmpEntry :=
  map.insert name ((map.bucket name).insert entry)

/-- Take an entry out, and with the last one the name. -/
def unfile (map : Buckets A E cmpName cmpEntry) (name : A) (entry : E) :
    Buckets A E cmpName cmpEntry :=
  match map[name]? with
  | none => map
  | some set =>
      let rest := set.erase entry
      if rest.isEmpty then map.erase name else map.insert name rest

variable {map : Buckets A E cmpName cmpEntry} {name other : A} {entry : E}

theorem NoneEmpty.file (hnone : map.NoneEmpty) : (map.file name entry).NoneEmpty := by
  intro target set hset
  rw [Buckets.file, Std.ExtTreeMap.getElem?_insert] at hset
  split at hset
  · obtain rfl := Option.some.inj hset
    intro hempty
    have hmem : entry ∈ (map.bucket name).insert entry := Std.ExtTreeSet.mem_insert_self
    rw [hempty] at hmem
    simp at hmem
  · exact hnone target set hset

theorem NoneEmpty.unfile (hnone : map.NoneEmpty) : (map.unfile name entry).NoneEmpty := by
  intro target set hset
  simp only [Buckets.unfile] at hset
  split at hset
  · exact hnone target set hset
  · split at hset
    · rw [Std.ExtTreeMap.getElem?_erase] at hset
      split at hset
      · contradiction
      · exact hnone target set hset
    · next hempty =>
        rw [Std.ExtTreeMap.getElem?_insert] at hset
        split at hset
        · obtain rfl := Option.some.inj hset
          simpa [Std.ExtTreeSet.isEmpty_iff] using hempty
        · exact hnone target set hset

variable [Std.LawfulEqCmp cmpName] [Std.LawfulEqCmp cmpEntry]

theorem mem_bucket_file {filed : E} :
    filed ∈ (map.file name entry).bucket other ↔
      (name = other ∧ entry = filed) ∨ filed ∈ map.bucket other := by
  unfold file bucket
  rw [Std.ExtTreeMap.getElem?_insert]
  by_cases hname : name = other
  · subst hname
    simp [Std.ExtTreeSet.mem_insert]
  · simp [hname]

theorem mem_bucket_unfile {filed : E} :
    filed ∈ (map.unfile name entry).bucket other ↔
      filed ∈ map.bucket other ∧ ¬(name = other ∧ entry = filed) := by
  unfold unfile
  cases hset : map[name]? with
  | none =>
      refine ⟨fun hmem => ⟨hmem, ?_⟩, And.left⟩
      rintro ⟨rfl, -⟩
      simp [bucket, hset] at hmem
  | some set =>
      have hbucket : map.bucket name = set := by simp [bucket, hset]
      by_cases hname : name = other
      · subst hname
        have hafter : bucket (if (set.erase entry).isEmpty then map.erase name
            else map.insert name (set.erase entry)) name = set.erase entry := by
          split
          · next hempty =>
              rw [Std.ExtTreeSet.isEmpty_iff.mp hempty]
              simp [bucket]
          · simp [bucket]
        simp only [hafter, hbucket, Std.ExtTreeSet.mem_erase, true_and, and_comm, Ne,
          Std.LawfulEqCmp.compare_eq_iff_eq]
      · have hafter : bucket (if (set.erase entry).isEmpty then map.erase name
            else map.insert name (set.erase entry)) other = map.bucket other := by
          split
          · simp [bucket, Std.ExtTreeMap.getElem?_erase, hname]
          · simp [bucket, Std.ExtTreeMap.getElem?_insert, hname]
        simp only [hafter, hname, false_and, not_false_eq_true, and_true]

/-- Two such maps with the same entries under the same names are one map. -/
theorem ext_of_mem {second : Buckets A E cmpName cmpEntry} (hfirst : map.NoneEmpty)
    (hsecond : second.NoneEmpty)
    (hmem : ∀ name entry, entry ∈ map.bucket name ↔ entry ∈ second.bucket name) :
    map = second := by
  have hbuckets : ∀ name, map.bucket name = second.bucket name := fun name =>
    Std.ExtTreeSet.ext_mem fun entry => hmem name entry
  refine Std.ExtTreeMap.ext_getElem? fun name => ?_
  have hbucket := hbuckets name
  cases hone : map[name]? with
  | none =>
      rw [(bucket_eq_empty_iff hfirst).mpr hone] at hbucket
      exact ((bucket_eq_empty_iff hsecond).mp hbucket.symm).symm
  | some set =>
      cases htwo : second[name]? with
      | none =>
          rw [(bucket_eq_empty_iff hsecond).mpr htwo, bucket_eq_empty_iff hfirst, hone] at hbucket
          contradiction
      | some set' =>
          simp only [bucket, hone, htwo, Option.getD_some] at hbucket
          rw [hbucket]

section Inverse

variable {I : Type u} {V : Type v} [DecidableEq I] (entryOf : I → V → A × E)

/-- What is filed is the entry of each key's value. -/
def Inverts (map : Buckets A E cmpName cmpEntry) (values : I → Option V) : Prop :=
  ∀ name entry, entry ∈ map.bucket name ↔
    ∃ key value, values key = some value ∧ entryOf key value = (name, entry)

variable {entryOf} {values : I → Option V} {key : I} {value : V}

/-- Filing the entry of a key that had none. -/
theorem Inverts.file (hinverts : Inverts entryOf map values) (hnone : values key = none)
    (hvalue : entryOf key value = (name, entry)) :
    Inverts entryOf (map.file name entry) (Function.update values key (some value)) := by
  intro target filed
  rw [mem_bucket_file, hinverts target filed]
  constructor
  · rintro (⟨rfl, rfl⟩ | ⟨other, held, hheld, hfiled⟩)
    · exact ⟨key, value, Function.update_self .., hvalue⟩
    · refine ⟨other, held, ?_, hfiled⟩
      rw [Function.update_of_ne, hheld]
      rintro rfl
      rw [hnone] at hheld
      contradiction
  · rintro ⟨other, held, hheld, hfiled⟩
    rw [Function.update_apply] at hheld
    split at hheld
    · next heq =>
        cases hheld
        rw [heq, hvalue, Prod.mk.injEq] at hfiled
        exact .inl hfiled
    · exact .inr ⟨other, held, hheld, hfiled⟩

/-- Taking out the entry of a key, where no two keys share one. -/
theorem Inverts.unfile (hinverts : Inverts entryOf map values)
    (hdistinct : ∀ one first other second, entryOf one first = entryOf other second →
      one = other ∧ first = second)
    (hheld : values key = some value) (hvalue : entryOf key value = (name, entry)) :
    Inverts entryOf (map.unfile name entry) (Function.update values key none) := by
  intro target filed
  rw [mem_bucket_unfile, hinverts target filed]
  constructor
  · rintro ⟨⟨other, held, hother, hfiled⟩, hkept⟩
    refine ⟨other, held, ?_, hfiled⟩
    rw [Function.update_of_ne, hother]
    rintro rfl
    rw [hheld, Option.some.injEq] at hother
    subst hother
    exact hkept (Prod.mk.inj (hvalue.symm.trans hfiled))
  · rintro ⟨other, held, hother, hfiled⟩
    rw [Function.update_apply] at hother
    split at hother
    · contradiction
    · next hne =>
        refine ⟨⟨other, held, hother, hfiled⟩, ?_⟩
        rintro ⟨rfl, rfl⟩
        exact hne (hdistinct _ _ _ _ (hfiled.trans hvalue.symm)).1

end Inverse

end Buckets

end Keeplin
