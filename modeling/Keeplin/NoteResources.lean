/-
The resources of a note, listed in two ways: by a query with a cursor, and by a
scan of all resources that drops those up to the token.  The cursor compares the id
of the token as a text and the scan compares it as an id, or not at all if it is
none.
-/
import Keeplin.EncryptedBackend

namespace Keeplin

section Lists

variable {A : Type} {items : List A} {first second : A → Bool}

/-- The first of what passes passes whatever has the same page. -/
theorem passes_of_take_eq {limit : Nat} (hlimit : 0 < limit)
    (hsecond : items.Pairwise fun item later => second item = true → second later = true)
    (hsame : (items.filter first).take limit = (items.filter second).take limit) {item : A}
    (hitem : item ∈ items) (hpass : first item = true) : second item = true := by
  have hfound : item ∈ items.filter first := List.mem_filter.mpr ⟨hitem, hpass⟩
  cases hfirst : items.filter first with
  | nil =>
      rw [hfirst] at hfound
      contradiction
  | cons head rest =>
      have hhead : head ∈ (items.filter second).take limit := by
        rw [← hsame, hfirst]
        exact List.mem_take_iff_getElem.mpr ⟨0, by simpa using hlimit, rfl⟩
      have hheadPass := (List.mem_filter.mp (List.mem_of_mem_take hhead)).2
      have hordered := hsecond.sublist (List.filter_sublist (p := first))
      rw [hfirst] at hfound hordered
      rcases List.mem_cons.mp hfound with rfl | hlater
      · exact hheadPass
      · exact (List.pairwise_cons.mp hordered).1 item hlater hheadPass

/-- Two conditions that later items keep have one page just if they agree. -/
theorem take_filter_eq_iff {limit : Nat} (hlimit : 0 < limit)
    (hfirst : items.Pairwise fun item later => first item = true → first later = true)
    (hsecond : items.Pairwise fun item later => second item = true → second later = true) :
    (items.filter first).take limit = (items.filter second).take limit ↔
      ∀ item ∈ items, first item = second item := by
  constructor
  · intro hsame item hitem
    rw [Bool.eq_iff_iff]
    exact ⟨passes_of_take_eq hlimit hsecond hsame hitem,
      passes_of_take_eq hlimit hfirst hsame.symm hitem⟩
  · intro hagree
    rw [List.filter_congr hagree]

end Lists

/-- Whether the scan keeps a resource. -/
def resourceIsAfter (token : Option Text) (resource : Resource) : Bool :=
  isPast Resource.createdAt Resource.id token resource

abbrev resourceKey (resource : Resource) : Text ×ₗ Text :=
  createdKey Resource.createdAt Resource.id resource

variable {items : List Resource}

/-- The scan keeps those after the token. -/
theorem resourcesFrom_eq_filter (hids : ∀ resource ∈ items, IsUuid resource.id)
    (hsorted : items.Pairwise fun resource later => resourceKey resource < resourceKey later)
    (token : Option Text) : resourcesFrom items token = items.filter (resourceIsAfter token) :=
  itemsFrom_eq_filter hids hsorted token

/-- The scan and the query have one page just if the token says the same of each
resource of the note as a text and as an id. -/
theorem paginateResources_eq_iff (hids : ∀ resource ∈ items, IsUuid resource.id)
    (hkeys : (items.map resourceKey).Nodup) (pageSize : Nat) (token : Option Text) :
    paginateResources (sortBy resourceKey items) pageSize token =
        createdPage Resource.createdAt Resource.id items pageSize token ↔
      ∀ resource ∈ items, resourceIsAfter token resource =
        passesCreated Resource.createdAt Resource.id (parseCursor token) resource := by
  have hsorted := pairwise_sortBy hkeys
  have hsortedIds : ∀ resource ∈ sortBy resourceKey items, IsUuid resource.id :=
    fun resource hresource => hids resource (mem_sortBy.mp hresource)
  have hmem : ∀ condition : Resource → Prop,
      (∀ resource ∈ sortBy resourceKey items, condition resource) ↔
        ∀ resource ∈ items, condition resource :=
    fun condition => forall_congr' fun resource => by rw [mem_sortBy]
  have hfrom := resourcesFrom_eq_filter hsortedIds hsorted token
  rw [resourcesFrom] at hfrom
  simp only [paginateResources, paginateItems, hfrom, createdPage, selectPage,
    cut_take_succ, ← filter_sortBy hkeys]
  rw [← hmem]
  constructor
  · intro hsame
    refine (take_filter_eq_iff (effectivePageSize_pos pageSize) ?_ ?_).mp (congrArg Prod.fst hsame)
    · exact hsorted.imp_of_mem fun hresource hlater hlt =>
        isPast_of_lt (hsortedIds _ hresource) (hsortedIds _ hlater) hlt
    · exact hsorted.imp fun hlt hpass => passesCreated_of_lt hlt hpass
  · intro hagree
    rw [List.filter_congr hagree]

end Keeplin
