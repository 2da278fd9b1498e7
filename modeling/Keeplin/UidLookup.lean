/-
When the lookup of a uid by file name agrees with a scan of the payloads, and what a
deletion and a save do then.
-/
import Keeplin.InteropStorage

namespace Keeplin

namespace Interop

namespace EntryKind

open ResourceStore

variable {C S : Type} {kind : EntryKind C} {store : ResourceStore S} {good : S → Prop}
  {rows : S → List Shelved} {fresh : S → Resource → List UInt8 → Prop} {uid : Text}
  {list : List Shelved}

/-- No resource of the kind has the file name of the uid, or those that have it are those
whose payload has the uid. -/
def NamesAgree (kind : EntryKind C) (uid : Text) (list : List Shelved) : Prop :=
  (∃ row ∈ kind.ofKind list, kind.HasName uid row) →
    ∀ row ∈ kind.ofKind list, kind.HasName uid row ↔ kind.HasUid uid row

theorem mem_ofKind {row : Shelved} :
    row ∈ kind.ofKind list ↔ row ∈ list ∧ row.1.mimeType = kind.mime := by
  rw [ofKind, List.mem_filter, decide_eq_true_iff]

theorem mem_matching {row : Shelved} :
    row ∈ kind.matching uid list ↔
      row ∈ list ∧ row.1.mimeType = kind.mime ∧ kind.HasUid uid row := by
  rw [matching, List.mem_filter, mem_ofKind, decide_eq_true_iff, and_assoc]

theorem mem_named {row : Shelved} :
    row ∈ kind.named uid list ↔
      row ∈ list ∧ row.1.mimeType = kind.mime ∧ kind.HasName uid row := by
  rw [named, List.mem_filter, mem_ofKind, decide_eq_true_iff, and_assoc]

theorem row_eq_of_id (hnodup : (list.map fun row => row.1.id).Nodup) {row other : Shelved}
    (hrow : row ∈ list) (hother : other ∈ list) (hid : row.1.id = other.1.id) : row = other :=
  List.inj_on_of_nodup_map hnodup hrow hother hid

theorem named_eq_matching (hagree : kind.NamesAgree uid list) (hne : kind.named uid list ≠ []) :
    kind.named uid list = kind.matching uid list := by
  obtain ⟨row, hrow⟩ := List.exists_mem_of_ne_nil _ hne
  obtain ⟨hmem, hkind, hname⟩ := mem_named.mp hrow
  have hiff := hagree ⟨row, mem_ofKind.mpr ⟨hmem, hkind⟩, hname⟩
  rw [named, matching]
  refine List.filter_congr fun other hother => ?_
  rw [decide_eq_decide]
  exact hiff other hother

theorem lookup_eq_matching (hagree : kind.NamesAgree uid list) :
    kind.lookup uid list = kind.matching uid list := by
  rw [lookup]
  split
  · next hne => exact named_eq_matching hagree hne
  · rfl

/-- The lookup gives the resources of the scan just when the names agree. -/
theorem map_lookup_iff (hnodup : (list.map fun row => row.1.id).Nodup) :
    (kind.lookup uid list).map Prod.fst = (kind.matching uid list).map Prod.fst ↔
      kind.NamesAgree uid list := by
  constructor
  · rintro hsame ⟨row, hrow, hname⟩ other hother
    have hne : kind.named uid list ≠ [] := by
      refine List.ne_nil_of_mem (a := row) ?_
      obtain ⟨hmem, hkind⟩ := mem_ofKind.mp hrow
      exact mem_named.mpr ⟨hmem, hkind, hname⟩
    rw [lookup, if_pos hne] at hsame
    obtain ⟨hmem, hkind⟩ := mem_ofKind.mp hother
    constructor
    · intro hnamed
      have hfirst : other.1 ∈ (kind.matching uid list).map Prod.fst :=
        hsame ▸ List.mem_map_of_mem (mem_named.mpr ⟨hmem, hkind, hnamed⟩)
      obtain ⟨found, hfound, heq⟩ := List.mem_map.mp hfirst
      obtain ⟨hfoundMem, -, huid⟩ := mem_matching.mp hfound
      rwa [row_eq_of_id hnodup hfoundMem hmem (congrArg Resource.id heq)] at huid
    · intro huid
      have hfirst : other.1 ∈ (kind.named uid list).map Prod.fst :=
        hsame ▸ List.mem_map_of_mem (mem_matching.mpr ⟨hmem, hkind, huid⟩)
      obtain ⟨found, hfound, heq⟩ := List.mem_map.mp hfirst
      obtain ⟨hfoundMem, -, hnamed⟩ := mem_named.mp hfound
      rwa [row_eq_of_id hnodup hfoundMem hmem (congrArg Resource.id heq)] at hnamed
  · exact fun hagree => congrArg (List.map Prod.fst) (lookup_eq_matching hagree)

theorem nodup_lookup_masked (kind : EntryKind C)
    (hnodup : (list.map fun row => row.1.id).Nodup)
    (reads : Uuid → Bool) (uid : Text) :
    (((kind.lookup uid (masked reads list)).map Prod.fst).map Resource.id).Nodup := by
  have hsub : (kind.lookup uid (masked reads list)).Sublist (masked reads list) := by
    rw [lookup]
    split
    · exact List.filter_sublist.trans List.filter_sublist
    · exact List.filter_sublist.trans List.filter_sublist
  have hids : ((masked reads list).map Prod.fst).map Resource.id =
      list.map fun row => row.1.id := by
    rw [map_fst_masked, List.map_map]
    rfl
  exact (hids ▸ hnodup).sublist ((hsub.map Prod.fst).map Resource.id)

theorem exists_row_of_mem_lookup {reads : Uuid → Bool} {resource : Resource}
    (hmem : resource ∈ (kind.lookup uid (masked reads list)).map Prod.fst) :
    ∃ row ∈ list, row.1 = resource := by
  obtain ⟨found, hfound, rfl⟩ := List.mem_map.mp hmem
  have hfirst : found.1 ∈ (masked reads list).map Prod.fst :=
    List.mem_map_of_mem (mem_of_mem_lookup hfound)
  rw [map_fst_masked] at hfirst
  exact List.mem_map.mp hfirst

/-- The resources that a deletion by uid goes through while reads fail. -/
def found (kind : EntryKind C) (faults : Faults) (uid : Text) (list : List Shelved) :
    List Resource :=
  (kind.lookup uid (masked faults.reads list)).map Prod.fst

theorem deleteEntry_eq (kind : EntryKind C) (hstore : store.Shelves good rows fresh) {inner : S}
    (hgood : good inner) {faults : Faults} (hlisting : faults.listing = false) {fuel : Nat}
    (hfuel : (rows inner).length < fuel) (uid : Text) :
    ∃ after, kind.deleteEntry (store.failing faults) fuel uid inner =
        some (after, if ∀ resource ∈ kind.found faults uid (rows inner),
          faults.deletions resource.id = none then .ok () else .error .io) ∧
      good after ∧
      rows after =
        without (goneBefore faults.deletions (kind.found faults uid (rows inner))) (rows inner) ∧
      ∀ resource data, fresh inner resource data → fresh after resource data := by
  obtain ⟨after, hdelete, hrest⟩ := hstore.deleteAll faults
    (nodup_lookup_masked kind (hstore.nodup hgood) faults.reads uid) hgood
    fun _ => exists_row_of_mem_lookup
  refine ⟨after, ?_, hrest⟩
  rw [deleteEntry, resourcesWithUid_eq kind hstore hgood hlisting hfuel]
  exact congrArg some hdelete

theorem found_none (uid : Text) (list : List Shelved) :
    kind.found .none uid list = (kind.lookup uid list).map Prod.fst := by
  rw [found, Faults.none, masked_none]

/-- Without faults a deletion takes out what the lookup finds. -/
theorem deleteEntry_ok (kind : EntryKind C) (hstore : store.Shelves good rows fresh) {inner : S}
    (hgood : good inner) {fuel : Nat} (hfuel : (rows inner).length < fuel) (uid : Text) :
    ∃ after, kind.deleteEntry store fuel uid inner = some (after, .ok ()) ∧ good after ∧
      rows after = without ((kind.lookup uid (rows inner)).map Prod.fst) (rows inner) ∧
      ∀ resource data, fresh inner resource data → fresh after resource data := by
  have hlisting : Faults.none.listing = false := rfl
  obtain ⟨after, hdelete, hafter, hrows, hfresh⟩ :=
    deleteEntry_eq kind hstore hgood hlisting hfuel uid
  have hnone : ∀ resource ∈ kind.found .none uid (rows inner),
      Faults.none.deletions resource.id = none := fun _ _ => rfl
  rw [failing_none, if_pos hnone] at hdelete
  rw [goneBefore_none hnone, found_none] at hrows
  exact ⟨after, hdelete, hafter, hrows, hfresh⟩

theorem mem_without_matching {row : Shelved} (hnodup : (list.map fun row => row.1.id).Nodup)
    (hrow : row ∈ list) :
    row.1.id ∈ ((kind.matching uid list).map Prod.fst).map Resource.id ↔
      row.1.mimeType = kind.mime ∧ kind.HasUid uid row := by
  rw [List.map_map, List.mem_map]
  constructor
  · rintro ⟨other, hother, hid⟩
    obtain ⟨hmem, hkind, huid⟩ := mem_matching.mp hother
    rw [row_eq_of_id hnodup hmem hrow hid] at hkind huid
    exact ⟨hkind, huid⟩
  · rintro ⟨hkind, huid⟩
    exact ⟨row, mem_matching.mpr ⟨hrow, hkind, huid⟩, rfl⟩

/-- The rows without the entries of a uid. -/
def others (kind : EntryKind C) (uid : Text) (list : List Shelved) : List Shelved :=
  list.filter fun row => ¬ (row.1.mimeType = kind.mime ∧ kind.HasUid uid row)

theorem without_lookup (hnodup : (list.map fun row => row.1.id).Nodup)
    (hagree : kind.NamesAgree uid list) :
    without ((kind.lookup uid list).map Prod.fst) list = kind.others uid list := by
  rw [lookup_eq_matching hagree, without, others]
  refine List.filter_congr fun row hrow => ?_
  rw [decide_eq_decide, mem_without_matching hnodup hrow]

theorem mem_others {row : Shelved} : row ∈ kind.others uid list ↔
    row ∈ list ∧ ¬ (row.1.mimeType = kind.mime ∧ kind.HasUid uid row) := by
  simp only [others, List.mem_filter, decide_eq_true_iff]

theorem matching_others (uid : Text) (list : List Shelved) :
    kind.matching uid (kind.others uid list) = [] := by
  rw [List.eq_nil_iff_forall_not_mem]
  intro row hrow
  obtain ⟨hmem, hkind, huid⟩ := mem_matching.mp hrow
  exact (mem_others.mp hmem).2 ⟨hkind, huid⟩

theorem lookup_others (hagree : kind.NamesAgree uid list) :
    kind.lookup uid (kind.others uid list) = [] := by
  have hnamed : kind.named uid (kind.others uid list) = [] := by
    rw [List.eq_nil_iff_forall_not_mem]
    intro row hrow
    obtain ⟨hmem, hkind, hname⟩ := mem_named.mp hrow
    obtain ⟨hlist, hnot⟩ := mem_others.mp hmem
    have hof : row ∈ kind.ofKind list := mem_ofKind.mpr ⟨hlist, hkind⟩
    exact hnot ⟨hkind, (hagree ⟨row, hof, hname⟩ row hof).mp hname⟩
  rw [lookup, if_neg (by rw [hnamed]; simp), matching_others]

/-- What the lookup, a deletion and the save of an entry with the uid are to do. -/
structure ByUid (kind : EntryKind C) (store : ResourceStore S) (rows : S → List Shelved)
    (fuel : Nat) (uid : Text) (stamp : SaveStamp) (entry : C) (inner : S) : Prop where
  finds : kind.resourcesWithUid store fuel uid inner =
    some (.ok ((kind.matching uid (rows inner)).map Prod.fst))
  deletes : ∃ after, kind.deleteEntry store fuel uid inner = some (after, .ok ()) ∧
    kind.getEntry store fuel uid after = some (.ok none) ∧
    rows after = kind.others uid (rows inner)
  saves : kind.uid (kind.withOwnUid stamp entry) = uid → ∃ after,
    kind.saveEntry store fuel stamp entry inner =
        some (after, .ok (kind.withOwnUid stamp entry)) ∧
      (kind.matching uid (rows after)).length = 1

theorem length_without_le (gone : List Resource) (list : List Shelved) :
    (without gone list).length ≤ list.length :=
  List.length_filter_le _ _

/-- The rows after a save: those that the deletion left, and the new one. -/
theorem saveEntry_ok (kind : EntryKind C) (hstore : store.Shelves good rows fresh) {inner : S}
    (hgood : good inner)
    {fuel : Nat} (hfuel : (rows inner).length < fuel) {stamp : SaveStamp} {entry : C}
    (hfresh : fresh inner (kind.backing stamp (kind.withOwnUid stamp entry))
      (kind.payload stamp (kind.withOwnUid stamp entry))) :
    ∃ after stored, kind.saveEntry store fuel stamp entry inner =
        some (after, .ok (kind.withOwnUid stamp entry)) ∧
      Stamped (kind.backing stamp (kind.withOwnUid stamp entry)) stored ∧
      (rows after).Perm ((stored, some (kind.payload stamp (kind.withOwnUid stamp entry))) ::
        without ((kind.lookup (kind.uid (kind.withOwnUid stamp entry)) (rows inner)).map Prod.fst)
          (rows inner)) := by
  obtain ⟨deleted, hdelete, hgoodDeleted, hrows, hstill⟩ := deleteEntry_ok kind
    hstore hgood hfuel (kind.uid (kind.withOwnUid stamp entry))
  obtain ⟨after, stored, hcreate, -, hstamped, hperm⟩ :=
    hstore.creates hgoodDeleted (hstill _ _ hfresh)
  refine ⟨after, stored, ?_, hstamped, hrows ▸ hperm⟩
  rw [saveEntry]
  simp only [hdelete, Option.map_some, hcreate, Except.map]

theorem length_matching_cons {after : List Shelved} {row : Shelved}
    (hperm : after.Perm (row :: list)) (hnone : kind.matching uid list = [])
    (hkind : row.1.mimeType = kind.mime) :
    (kind.matching uid after).length = 1 ↔ kind.HasUid uid row := by
  have hof : (kind.matching uid after).Perm (kind.matching uid (row :: list)) :=
    (hperm.filter _).filter _
  rw [hof.length_eq, matching, ofKind, List.filter_cons, if_pos (by simpa using hkind),
    List.filter_cons]
  rw [matching, ofKind] at hnone
  split
  · next hhas => simpa [hnone] using hhas
  · next hnot => simpa [hnone] using hnot

/-- A uid is looked up, deleted and saved as a scan of the payloads would do it just when
the names agree and what is saved under it reads as an entry with it. -/
theorem byUid_iff (hstore : store.Shelves good rows fresh) {inner : S} (hgood : good inner)
    {fuel : Nat} (hfuel : (rows inner).length < fuel) (uid : Text) {stamp : SaveStamp} {entry : C}
    (hfresh : fresh inner (kind.backing stamp (kind.withOwnUid stamp entry))
      (kind.payload stamp (kind.withOwnUid stamp entry))) :
    kind.ByUid store rows fuel uid stamp entry inner ↔
      kind.NamesAgree uid (rows inner) ∧
      (kind.uid (kind.withOwnUid stamp entry) = uid →
        kind.uidOf (kind.payload stamp (kind.withOwnUid stamp entry)) = some uid) := by
  have hlisting : Faults.none.listing = false := rfl
  have hlookup := resourcesWithUid_eq kind hstore hgood hlisting hfuel uid
  rw [failing_none, Faults.none, masked_none] at hlookup
  obtain ⟨saved, stored, hsave, hstamped, hperm⟩ :=
    saveEntry_ok kind hstore hgood hfuel hfresh
  have hone : ∀ hagree : kind.NamesAgree uid (rows inner),
      kind.uid (kind.withOwnUid stamp entry) = uid →
        ((kind.matching uid (rows saved)).length = 1 ↔
          kind.uidOf (kind.payload stamp (kind.withOwnUid stamp entry)) = some uid) := by
    intro hagree hown
    rw [hown, without_lookup (hstore.nodup hgood) hagree] at hperm
    exact length_matching_cons hperm (matching_others _ _) hstamped.mimeType
  constructor
  · rintro ⟨hfinds, -, hsaves⟩
    rw [hlookup, Option.some.injEq, Except.ok.injEq,
      map_lookup_iff (hstore.nodup hgood)] at hfinds
    refine ⟨hfinds, fun hown => ?_⟩
    obtain ⟨after, hafter, hlength⟩ := hsaves hown
    rw [hsave, Option.some.injEq, Prod.mk.injEq] at hafter
    rw [← hafter.1] at hlength
    exact (hone hfinds hown).mp hlength
  · rintro ⟨hagree, hown⟩
    refine ⟨?_, ?_, fun heq => ⟨saved, hsave, (hone hagree heq).mpr (hown heq)⟩⟩
    · rw [hlookup, lookup_eq_matching hagree]
    · obtain ⟨after, hdelete, hafter, hrows, -⟩ := deleteEntry_ok kind hstore hgood hfuel uid
      have hlength : (rows after).length < fuel :=
        Nat.lt_of_le_of_lt (hrows ▸ length_without_le _ _) hfuel
      rw [without_lookup (hstore.nodup hgood) hagree] at hrows
      refine ⟨after, hdelete, ?_, hrows⟩
      rw [getEntry_eq hstore hafter hlength, firstEntry, hrows, lookup_others hagree]
      rfl

end EntryKind

end Interop

end Keeplin
