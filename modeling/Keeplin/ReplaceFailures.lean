/-
A save replaces an entry by deletions and one creation.  When it fails, what was stored
under the uid is kept just when no deletion has taken it out.
-/
import Keeplin.UidScan

namespace Keeplin

namespace Interop

open ResourceStore

namespace EntryKind

variable {C S : Type} {kind : EntryKind C} {store : ResourceStore S} {good : S → Prop}
  {rows : S → List Shelved} {fresh : S → Resource → List UInt8 → Prop}

/-- A save that fails keeps every entry stored under its uid. -/
def KeepsStored (kind : EntryKind C) (store : ResourceStore S) (rows : S → List Shelved)
    (fuel : Nat) (stamp : SaveStamp) (entry : C) (inner : S) : Prop :=
  ∀ after failure, kind.saveEntry store fuel stamp entry inner = some (after, .error failure) →
    ∀ row ∈ kind.matching (kind.uid (kind.withOwnUid stamp entry)) (rows inner), row ∈ rows after

/-- The listing fails, or no later call does, or no deletion up to the first failure takes
out an entry with the uid. -/
def SparesStored (kind : EntryKind C) (faults : Faults) (uid : Text) (list : List Shelved) :
    Prop :=
  faults.listing = true ∨
  ((∀ resource ∈ kind.found faults uid list, faults.deletions resource.id = none) ∧
    faults.creation = none) ∨
  ∀ row ∈ kind.matching uid list,
    row.1 ∉ goneBefore faults.deletions (kind.found faults uid list)

theorem mem_of_mem_goneBefore {deletions : Uuid → Option Bool} {found : List Resource}
    {resource : Resource} (hmem : resource ∈ goneBefore deletions found) : resource ∈ found := by
  induction found with
  | nil => exact hmem
  | cons first rest ih =>
      rw [goneBefore] at hmem
      cases hfault : deletions first.id with
      | none =>
          rw [hfault] at hmem
          rcases List.mem_cons.mp hmem with rfl | hrest
          · exact List.mem_cons_self
          · exact List.mem_cons_of_mem _ (ih hrest)
      | some took =>
          rw [hfault] at hmem
          cases took with
          | true => exact List.mem_singleton.mp hmem ▸ List.mem_cons_self
          | false => exact absurd hmem List.not_mem_nil

/-- A row is left just when its resource is not among those that are gone. -/
theorem mem_without_goneBefore (kind : EntryKind C) {list : List Shelved}
    (hnodup : (list.map fun row => row.1.id).Nodup) (faults : Faults) (uid : Text)
    {row : Shelved} (hrow : row ∈ list) :
    row ∈ without (goneBefore faults.deletions (kind.found faults uid list)) list ↔
      row.1 ∉ goneBefore faults.deletions (kind.found faults uid list) := by
  rw [mem_without, and_iff_right hrow, not_iff_not, List.mem_map]
  constructor
  · rintro ⟨resource, hgone, hid⟩
    obtain ⟨other, hother, rfl⟩ := exists_row_of_mem_lookup (mem_of_mem_goneBefore hgone)
    rwa [row_eq_of_id hnodup hother hrow hid] at hgone
  · exact fun hgone => ⟨row.1, hgone, rfl⟩

/-- What a save leaves of the rows, and when it fails. -/
theorem saveEntry_failing (kind : EntryKind C) (hstore : store.Shelves good rows fresh)
    {inner : S} (hgood : good inner) {faults : Faults} (hlisting : faults.listing = false)
    {fuel : Nat} (hfuel : (rows inner).length < fuel) {stamp : SaveStamp} {entry : C}
    (hfresh : fresh inner (kind.backing stamp (kind.withOwnUid stamp entry))
      (kind.payload stamp (kind.withOwnUid stamp entry))) :
    ∃ after result, kind.saveEntry (store.failing faults) fuel stamp entry inner =
        some (after, result) ∧
      (result.isOk = true ↔
        (∀ resource ∈ kind.found faults (kind.uid (kind.withOwnUid stamp entry)) (rows inner),
          faults.deletions resource.id = none) ∧ faults.creation = none) ∧
      ∀ row ∈ rows inner, row ∈ rows after ↔
        row.1 ∉ goneBefore faults.deletions
          (kind.found faults (kind.uid (kind.withOwnUid stamp entry)) (rows inner)) := by
  obtain ⟨deleted, hdelete, hgoodDeleted, hrows, hstill⟩ := deleteEntry_eq kind hstore hgood
    hlisting hfuel (kind.uid (kind.withOwnUid stamp entry))
  have hleft : ∀ row ∈ rows inner, row ∈ rows deleted ↔
      row.1 ∉ goneBefore faults.deletions
        (kind.found faults (kind.uid (kind.withOwnUid stamp entry)) (rows inner)) := by
    intro row hrow
    rw [hrows]
    exact mem_without_goneBefore kind (hstore.nodup hgood) faults _ hrow
  rw [saveEntry, hdelete]
  split
  · next hall =>
      obtain ⟨created, stored, hcreate, -, hstamped, hperm⟩ :=
        hstore.creates hgoodDeleted (hstill _ _ hfresh)
      have hkept : ∀ row ∈ rows inner, row ∈ rows created ↔ row ∈ rows deleted := by
        intro row hrow
        rw [hperm.mem_iff, List.mem_cons]
        refine or_iff_right fun heq => hstore.unused hgood hfresh row hrow ?_
        rw [heq]
        exact hstamped.id
      cases hfault : faults.creation with
      | none =>
          refine ⟨created, .ok (kind.withOwnUid stamp entry), ?_, ?_,
            fun row hrow => (hkept row hrow).trans (hleft row hrow)⟩
          · simp [failing, hfault, hcreate, Except.map]
          · simpa [Except.isOk, Except.toBool] using hall
      | some took =>
          cases took with
          | true =>
              refine ⟨created, .error .io, ?_, by simp [Except.isOk, Except.toBool],
                fun row hrow => (hkept row hrow).trans (hleft row hrow)⟩
              simp [failing, hfault, hcreate, Except.map]
          | false =>
              refine ⟨deleted, .error .io, ?_, by simp [Except.isOk, Except.toBool], hleft⟩
              simp [failing, hfault, Except.map]
  · next hsome =>
      refine ⟨deleted, .error .io, rfl, ?_, hleft⟩
      refine iff_of_false ?_ fun hboth => hsome hboth.1
      simp [Except.isOk, Except.toBool]

/-- A failing save keeps what is stored just when its faults spare it. -/
theorem keepsStored_failing_iff (hstore : store.Shelves good rows fresh) {inner : S}
    (hgood : good inner) (faults : Faults) {fuel : Nat} (hfuel : (rows inner).length < fuel)
    {stamp : SaveStamp} {entry : C}
    (hfresh : fresh inner (kind.backing stamp (kind.withOwnUid stamp entry))
      (kind.payload stamp (kind.withOwnUid stamp entry))) :
    kind.KeepsStored (store.failing faults) rows fuel stamp entry inner ↔
      kind.SparesStored faults (kind.uid (kind.withOwnUid stamp entry)) (rows inner) := by
  cases hlisting : faults.listing with
  | true =>
      refine iff_of_true ?_ (.inl hlisting)
      intro after failure hsave row hrow
      have hnone : kind.saveEntry (store.failing faults) fuel stamp entry inner =
          some (inner, .error .io) := by
        rw [saveEntry, deleteEntry,
          resourcesWithUid_listing hlisting (Nat.lt_of_le_of_lt (Nat.zero_le _) hfuel)]
        rfl
      rw [hnone, Option.some.injEq, Prod.mk.injEq] at hsave
      rw [← hsave.1]
      exact (mem_matching.mp hrow).1
  | false =>
      obtain ⟨after, result, hsave, hok, hleft⟩ :=
        saveEntry_failing kind hstore hgood hlisting hfuel hfresh
      have hspares : kind.SparesStored faults (kind.uid (kind.withOwnUid stamp entry))
          (rows inner) ↔ (result.isOk = true ∨
            ∀ row ∈ kind.matching (kind.uid (kind.withOwnUid stamp entry)) (rows inner),
              row ∈ rows after) := by
        rw [SparesStored, hlisting, hok]
        refine (or_iff_right Bool.false_ne_true).trans (or_congr_right ?_)
        exact forall₂_congr fun row hrow => (hleft row (mem_matching.mp hrow).1).symm
      rw [hspares]
      constructor
      · intro hkeeps
        cases result with
        | ok saved => exact .inl rfl
        | error failure => exact .inr (hkeeps after failure hsave)
      · rintro (hfine | hkept) found failure hfound row hrow
        · rw [hsave, Option.some.injEq, Prod.mk.injEq] at hfound
          rw [hfound.2] at hfine
          contradiction
        · rw [hsave, Option.some.injEq, Prod.mk.injEq] at hfound
          rw [← hfound.1]
          exact hkept row hrow

end EntryKind

open EntryKind

variable {S : Type} {store : ResourceStore S} {good : S → Prop} {rows : S → List Shelved}
  {fresh : S → Resource → List UInt8 → Prop}

/-- A save of a contact or an event that fails keeps what was stored under the uid just
when the failing calls spare it. -/
theorem save_keeps_iff_spares (chrono : Chrono) (hstore : store.Shelves good rows fresh)
    {inner : S} (hgood : good inner) (faults : Faults) {fuel : Nat}
    (hfuel : (rows inner).length < fuel) (stamp : SaveStamp) {contact : Contact}
    {event : CalendarEvent}
    (hcontact : fresh inner (contactKind.backing stamp (contactKind.withOwnUid stamp contact))
      (contactKind.payload stamp (contactKind.withOwnUid stamp contact)))
    (hevent : fresh inner
      ((eventKind chrono).backing stamp ((eventKind chrono).withOwnUid stamp event))
      ((eventKind chrono).payload stamp ((eventKind chrono).withOwnUid stamp event))) :
    (contactKind.KeepsStored (store.failing faults) rows fuel stamp contact inner ↔
      contactKind.SparesStored faults (contactKind.uid (contactKind.withOwnUid stamp contact))
        (rows inner)) ∧
    ((eventKind chrono).KeepsStored (store.failing faults) rows fuel stamp event inner ↔
      (eventKind chrono).SparesStored faults
        ((eventKind chrono).uid ((eventKind chrono).withOwnUid stamp event)) (rows inner)) :=
  ⟨keepsStored_failing_iff hstore hgood faults hfuel hcontact,
    keepsStored_failing_iff hstore hgood faults hfuel hevent⟩

namespace UidWitness

/-- The creation fails. -/
def full : Faults := { Faults.none with creation := some false }

theorem save_imported :
    (contactKind.KeepsStored (cards.failing full) cardRows 2 stamp VCardWitness.contact imported ↔
      contactKind.SparesStored full
        (contactKind.uid (contactKind.withOwnUid stamp VCardWitness.contact))
        (cardRows imported)) ∧
    ((eventKind digitReader).KeepsStored (cards.failing full) cardRows 2 stamp
        ICalendarWitness.event imported ↔
      (eventKind digitReader).SparesStored full
        ((eventKind digitReader).uid ((eventKind digitReader).withOwnUid stamp
          ICalendarWitness.event)) (cardRows imported)) :=
  save_keeps_iff_spares digitReader shelves_cards shelvesUuids_imported full length_imported stamp
    (isNew_imported _ rfl rfl) (isNew_imported _ rfl rfl)

/-- The old card is gone before the new one can be created. -/
theorem lost_imported : imported.ShelvesUuids ∧
    contactKind.matching "abc".toList (cardRows imported) = [(card, some cardBytes)] ∧
    (∃ after failure,
      saveContact (cards.failing full) 2 stamp VCardWitness.contact imported =
        some (after, .error failure) ∧ cardRows after = []) ∧
    ¬ contactKind.KeepsStored (cards.failing full) cardRows 2 stamp VCardWitness.contact
      imported := by
  have hlisting : full.listing = false := rfl
  have hown : contactKind.uid (contactKind.withOwnUid stamp VCardWitness.contact) =
      "abc".toList := rfl
  have hnamed : contactKind.named "abc".toList (cardRows imported) = [] := by
    rw [cardRows_imported]
    decide
  have hfound : contactKind.found full "abc".toList (cardRows imported) = [card] := by
    rw [found, full, Faults.none, masked_none, lookup, hnamed, if_neg (fun hne => hne rfl),
      matching_imported, cardRows_imported]
    rfl
  obtain ⟨after, hdelete, hgood, hrows, -⟩ := deleteEntry_eq contactKind shelves_cards
    shelvesUuids_imported hlisting length_imported "abc".toList
  have hnone : ∀ resource ∈ [card], full.deletions resource.id = none := fun _ _ => rfl
  rw [hfound, if_pos hnone] at hdelete
  rw [hfound, goneBefore_none hnone] at hrows
  have hempty : cardRows after = [] := by
    have hleft := without_imported
    rw [cardRows_imported] at hleft hrows
    rw [hrows]
    exact hleft
  have hsave : saveContact (cards.failing full) 2 stamp VCardWitness.contact imported =
      some (after, .error .io) := by
    rw [saveContact, saveEntry, hown, hdelete]
    rfl
  have hstored : contactKind.matching "abc".toList (cardRows imported) =
      [(card, some cardBytes)] := matching_imported.trans cardRows_imported
  refine ⟨shelvesUuids_imported, hstored, ⟨after, .io, hsave, hempty⟩, fun hkeeps => ?_⟩
  have hkept := hkeeps after .io hsave (card, some cardBytes) (by rw [hown, hstored]; simp)
  rw [hempty] at hkept
  exact List.not_mem_nil hkept

end UidWitness

end Interop

end Keeplin
