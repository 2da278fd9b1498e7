/-
The calls on resources, over any store, and what a store that keeps them right does: a
listing visits the live resources, a read finds the payload, a deletion takes one
resource out and a creation puts one in.
-/
import Keeplin.JournalTail
import Keeplin.NoteListing

namespace Keeplin

/-- A live resource and its payload, when that can be read. -/
abbrev Shelved := Resource × Option (List UInt8)

structure ResourceStore (S : Type) where
  listResources : Nat → Option Text → S → Except StorageError (List Resource × Option Text)
  readResource : Uuid → S → Except StorageError (Resource × List UInt8)
  createResource : Resource → List UInt8 → S → S × Except StorageError Resource
  deleteResource : Uuid → S → S × Except StorageError Unit

namespace ResourceStore

variable {S : Type} (store : ResourceStore S)

/-- Following the tokens of the listing, up to the last page or a failure. -/
def collectResources (store : ResourceStore S) (inner : S) :
    Nat → Option Text → Option (Except StorageError (List Resource))
  | 0, _ => none
  | fuel + 1, token =>
      match store.listResources 0 token inner with
      | .error failure => some (.error failure)
      | .ok (page, none) => some (.ok page)
      | .ok (page, some next) =>
          (collectResources store inner fuel (some next)).map fun rest =>
            rest.map fun items => page ++ items

/-- What a created resource may differ in from the given one. -/
structure Stamped (resource stored : Resource) : Prop where
  id : stored.id = resource.id
  mimeType : stored.mimeType = resource.mimeType
  fileName : stored.fileName = resource.fileName

/-- The laws of a store in the states its calls lead to; `rows` are the live resources in
the order of the listing and `fresh` says which resource can be created with which
payload. -/
structure Shelves (good : S → Prop) (rows : S → List Shelved)
    (fresh : S → Resource → List UInt8 → Prop) : Prop where
  nodup : ∀ {inner}, good inner → ((rows inner).map fun row => row.1.id).Nodup
  unused : ∀ {inner resource data}, good inner → fresh inner resource data →
    ∀ row ∈ rows inner, row.1.id ≠ resource.id
  lists : ∀ {inner fuel}, good inner → (rows inner).length < fuel →
    store.collectResources inner fuel none = some (.ok ((rows inner).map Prod.fst))
  reads : ∀ {inner row}, good inner → row ∈ rows inner →
    (store.readResource row.1.id inner).toOption = row.2.map fun data => (row.1, data)
  deletes : ∀ {inner row}, good inner → row ∈ rows inner → ∃ after,
    store.deleteResource row.1.id inner = (after, .ok ()) ∧ good after ∧
      rows after = (rows inner).filter (fun other => other.1.id ≠ row.1.id) ∧
      ∀ resource data, fresh inner resource data → fresh after resource data
  creates : ∀ {inner resource data}, good inner → fresh inner resource data →
    ∃ after stored,
      store.createResource resource data inner = (after, .ok stored) ∧ good after ∧
        Stamped resource stored ∧ (rows after).Perm ((stored, some data) :: rows inner)

/-- How the calls of one operation fail: a deletion or a creation may have taken effect
before its failure. -/
structure Faults where
  listing : Bool
  reads : Uuid → Bool
  deletions : Uuid → Option Bool
  creation : Option Bool

/-- The store while calls fail. -/
def failing (faults : Faults) : ResourceStore S where
  listResources pageSize token inner :=
    if faults.listing then .error .io else store.listResources pageSize token inner
  readResource id inner := if faults.reads id then .error .io else store.readResource id inner
  createResource resource data inner :=
    match faults.creation with
    | none => store.createResource resource data inner
    | some true => ((store.createResource resource data inner).1, .error .io)
    | some false => (inner, .error .io)
  deleteResource id inner :=
    match faults.deletions id with
    | none => store.deleteResource id inner
    | some true => ((store.deleteResource id inner).1, .error .io)
    | some false => (inner, .error .io)

/-- Deleting one resource after another, up to a failure. -/
def deleteAll : List Resource → S → S × Except StorageError Unit
  | [], inner => (inner, .ok ())
  | resource :: rest, inner =>
      match store.deleteResource resource.id inner with
      | (after, .ok ()) => deleteAll rest after
      | (after, .error failure) => (after, .error failure)

/-- What is left when some resources are gone. -/
def without (gone : List Resource) (rows : List Shelved) : List Shelved :=
  rows.filter fun row => row.1.id ∉ gone.map Resource.id

@[simp] theorem without_nil (rows : List Shelved) : without [] rows = rows := by
  simp [without]

theorem without_cons (resource : Resource) (gone : List Resource) (rows : List Shelved) :
    without (resource :: gone) rows =
      without gone (rows.filter fun row => row.1.id ≠ resource.id) := by
  rw [without, without, List.filter_filter]
  refine List.filter_congr fun row _ => ?_
  by_cases hid : row.1.id = resource.id <;> simp [hid]

theorem mem_without {gone : List Resource} {rows : List Shelved} {row : Shelved} :
    row ∈ without gone rows ↔ row ∈ rows ∧ row.1.id ∉ gone.map Resource.id := by
  simp [without]

variable {store} {good : S → Prop} {rows : S → List Shelved}
  {fresh : S → Resource → List UInt8 → Prop}

/-- The resources that are deleted before the first failure, and that with it if its
deletion took effect. -/
def goneBefore (deletions : Uuid → Option Bool) : List Resource → List Resource
  | [] => []
  | resource :: rest =>
      match deletions resource.id with
      | none => resource :: goneBefore deletions rest
      | some true => [resource]
      | some false => []

/-- Deleting live resources, each of them listed once, takes them out up to the failure. -/
theorem Shelves.deleteAll (hstore : store.Shelves good rows fresh) (faults : Faults)
    {found : List Resource} (hnodup : (found.map Resource.id).Nodup) {inner : S}
    (hgood : good inner) (hfound : ∀ resource ∈ found, ∃ row ∈ rows inner, row.1 = resource) :
    ∃ after, (store.failing faults).deleteAll found inner =
        (after, if ∀ resource ∈ found, faults.deletions resource.id = none then .ok ()
          else .error .io) ∧
      good after ∧ rows after = without (goneBefore faults.deletions found) (rows inner) ∧
      ∀ resource data, fresh inner resource data → fresh after resource data := by
  induction found generalizing inner with
  | nil =>
      exact ⟨inner, by simp [ResourceStore.deleteAll], hgood, by simp [goneBefore], fun _ _ => id⟩
  | cons resource rest ih =>
      obtain ⟨hnot, hrest⟩ := List.nodup_cons.mp hnodup
      obtain ⟨row, hrow, rfl⟩ := hfound resource List.mem_cons_self
      obtain ⟨after, hdelete, hafter, hrows, hfresh⟩ := hstore.deletes hgood hrow
      cases hfault : faults.deletions row.1.id with
      | none =>
          have hstep : (store.failing faults).deleteResource row.1.id inner = (after, .ok ()) := by
            simp [failing, hfault, hdelete]
          have hleft : ∀ other ∈ rest, ∃ found ∈ rows after, found.1 = other := by
            intro other hother
            obtain ⟨found, hfoundRow, rfl⟩ := hfound other (List.mem_cons_of_mem _ hother)
            refine ⟨found, ?_, rfl⟩
            rw [hrows, List.mem_filter, decide_eq_true_iff]
            exact ⟨hfoundRow, fun heq => hnot (heq ▸ List.mem_map_of_mem hother)⟩
          obtain ⟨last, hlast, hgoodLast, hrowsLast, hfreshLast⟩ := ih hrest hafter hleft
          refine ⟨last, ?_, hgoodLast, ?_, fun other data hother =>
            hfreshLast other data (hfresh other data hother)⟩
          · rw [ResourceStore.deleteAll, hstep]
            simp only [hlast, List.forall_mem_cons, hfault, true_and]
          · rw [hrowsLast, hrows, goneBefore, hfault, without_cons]
      | some took =>
          have hfailed : ¬ ∀ resource ∈ row.1 :: rest, faults.deletions resource.id = none := by
            intro hall
            rw [hall row.1 List.mem_cons_self] at hfault
            contradiction
          cases took with
          | true =>
              have hstep : (store.failing faults).deleteResource row.1.id inner =
                  (after, .error .io) := by
                simp [failing, hfault, hdelete]
              refine ⟨after, ?_, hafter, ?_, hfresh⟩
              · rw [ResourceStore.deleteAll, hstep, if_neg hfailed]
              · rw [hrows, goneBefore, hfault, without_cons, without_nil]
          | false =>
              have hstep : (store.failing faults).deleteResource row.1.id inner =
                  (inner, .error .io) := by
                simp [failing, hfault]
              refine ⟨inner, ?_, hgood, ?_, fun _ _ => id⟩
              · rw [ResourceStore.deleteAll, hstep, if_neg hfailed]
              · rw [goneBefore, hfault, without_nil]

theorem goneBefore_none {found : List Resource} {deletions : Uuid → Option Bool}
    (hnone : ∀ resource ∈ found, deletions resource.id = none) :
    goneBefore deletions found = found := by
  induction found with
  | nil => rfl
  | cons resource rest ih =>
      rw [goneBefore, hnone resource List.mem_cons_self,
        ih fun other hmem => hnone other (List.mem_cons_of_mem _ hmem)]

/-- A store without faults is the store itself. -/
def Faults.none : Faults := ⟨false, fun _ => false, fun _ => Option.none, Option.none⟩

theorem failing_none (store : ResourceStore S) : store.failing .none = store := rfl

/-- The laws of a store whose listing is sorted by a key; `live` are the live resources in
any order. -/
structure Holds {K : Type} [LinearOrder K] (store : ResourceStore S) (key : Shelved → K)
    (good : S → Prop) (live : S → List Shelved) (fresh : S → Resource → List UInt8 → Prop) :
    Prop where
  keys : ∀ {inner}, good inner → ((live inner).map key).Nodup
  nodup : ∀ {inner}, good inner → ((live inner).map fun row => row.1.id).Nodup
  unused : ∀ {inner resource data}, good inner → fresh inner resource data →
    ∀ row ∈ live inner, row.1.id ≠ resource.id
  lists : ∀ {inner fuel}, good inner → (live inner).length < fuel →
    store.collectResources inner fuel none = some (.ok ((sortBy key (live inner)).map Prod.fst))
  reads : ∀ {inner row}, good inner → row ∈ live inner →
    (store.readResource row.1.id inner).toOption = row.2.map fun data => (row.1, data)
  deletes : ∀ {inner row}, good inner → row ∈ live inner → ∃ after,
    store.deleteResource row.1.id inner = (after, .ok ()) ∧ good after ∧
      (∀ other, other ∈ live after ↔ other ∈ live inner ∧ other.1.id ≠ row.1.id) ∧
      ∀ resource data, fresh inner resource data → fresh after resource data
  creates : ∀ {inner resource data}, good inner → fresh inner resource data →
    ∃ after stored,
      store.createResource resource data inner = (after, .ok stored) ∧ good after ∧
        Stamped resource stored ∧
        ∀ other, other ∈ live after ↔ other = (stored, some data) ∨ other ∈ live inner

theorem Holds.shelves {K : Type} [LinearOrder K] {key : Shelved → K} {live : S → List Shelved}
    (hstore : store.Holds key good live fresh) :
    store.Shelves good (fun inner => sortBy key (live inner)) fresh where
  nodup hgood := ((perm_sortBy _).map _).nodup_iff.mpr (hstore.nodup hgood)
  unused hgood hfresh row hrow := hstore.unused hgood hfresh row (mem_sortBy.mp hrow)
  lists hgood hfuel := hstore.lists hgood (by rwa [(perm_sortBy _).length_eq] at hfuel)
  reads hgood hrow := hstore.reads hgood (mem_sortBy.mp hrow)
  deletes := by
    intro inner row hgood hrow
    obtain ⟨after, hdelete, hafter, hmem, hfresh⟩ := hstore.deletes hgood (mem_sortBy.mp hrow)
    refine ⟨after, hdelete, hafter, ?_, hfresh⟩
    rw [filter_sortBy (hstore.keys hgood)]
    refine eq_sortBy (pairwise_sortBy (hstore.keys hafter))
      ((hstore.keys hgood).sublist (List.filter_sublist.map key)) fun other => ?_
    rw [mem_sortBy, hmem, List.mem_filter, decide_eq_true_iff]
  creates := by
    intro inner resource data hgood hnew
    obtain ⟨after, stored, hcreate, hafter, hstamped, hmem⟩ := hstore.creates hgood hnew
    refine ⟨after, stored, hcreate, hafter, hstamped, ?_⟩
    have hnot : (stored, some data) ∉ live inner := fun hin =>
      hstore.unused hgood hnew _ hin hstamped.id
    have hnodup : ((stored, some data) :: sortBy key (live inner)).Nodup :=
      List.nodup_cons.mpr ⟨fun hin => hnot (mem_sortBy.mp hin),
        ((perm_sortBy _).nodup_iff).mpr (List.Nodup.of_map _ (hstore.nodup hgood))⟩
    refine (List.perm_ext_iff_of_nodup ?_ hnodup).mpr fun other => ?_
    · exact (perm_sortBy _).nodup_iff.mpr (List.Nodup.of_map _ (hstore.nodup hafter))
    · rw [mem_sortBy, hmem, List.mem_cons, mem_sortBy]

/-- Following the tokens of a listing that cannot fail. -/
theorem collectResources_of_page {inner : S} {page : Option Text → List Resource × Option Text}
    (hpage : ∀ token, store.listResources 0 token inner = .ok (page token)) (fuel : Nat)
    (token : Option Text) :
    store.collectResources inner fuel token = (followTokens page fuel token).map .ok := by
  induction fuel generalizing token with
  | zero => rfl
  | succ fuel ih =>
      rw [collectResources, followTokens, hpage]
      cases hnext : page token with
      | mk items next =>
          cases next with
          | none => rfl
          | some next =>
              simp only [ih, Option.map_map]
              rfl

end ResourceStore

end Keeplin
