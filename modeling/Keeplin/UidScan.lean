/-
Contacts and events by their uid, over both stores.  The lookup agrees with a scan of the
payloads just when the file names do; an imported card under another's name is taken for
its entry.
-/
import Keeplin.Backlinks
import Keeplin.ResourceShelves
import Keeplin.UidLookup

namespace Keeplin

namespace Interop

open ResourceStore EntryKind

theorem uidOf_payload {C : Type} (kind : EntryKind C) (stamp : SaveStamp) (entry : C) :
    kind.uidOf (kind.payload stamp entry) =
      (kind.parse (kind.write stamp.written entry)).map kind.uid := by
  rw [uidOf, EntryKind.read, payload, fromUtf8Lossy_utf8]

section Fields

variable (chrono : Chrono)

theorem parse_contactKind : contactKind.parse = Contact.fromVcard := rfl

theorem uid_contactKind : contactKind.uid = Contact.uid := rfl

theorem write_contactKind (stamp : Stamp) (contact : Contact) :
    contactKind.write stamp contact = contact.toVcard stamp.newId := rfl

theorem parse_eventKind : (eventKind chrono).parse = CalendarEvent.fromIcs chrono := rfl

theorem uid_eventKind : (eventKind chrono).uid = CalendarEvent.uid := rfl

theorem write_eventKind : (eventKind chrono).write = CalendarEvent.toIcs := rfl

end Fields

/-- A well-formed contact is saved as a card with its uid. -/
theorem uidOf_contact (stamp : SaveStamp) {contact : Contact} (hwell : contact.WellFormed) :
    contactKind.uidOf (contactKind.payload stamp contact) = some contact.uid := by
  have hread : Contact.fromVcard (contact.toVcard stamp.written.newId) =
      some contact.withReadName := Contact.fromVcard_toVcard hwell
  have huid : contact.withReadName.uid = contact.uid := by
    rw [Contact.withReadName]
    split <;> rfl
  rw [uidOf_payload, parse_contactKind, uid_contactKind, write_contactKind, hread,
    Option.map_some, huid]

/-- A well-formed event is saved as a calendar with its uid. -/
theorem uidOf_event {chrono : Chrono} (hchrono : chrono.ParsesBack) (stamp : SaveStamp)
    {event : CalendarEvent} (hwell : event.WellFormed) :
    (eventKind chrono).uidOf ((eventKind chrono).payload stamp event) = some event.uid := by
  have hwritten : ∀ item ∈ [(stamp.written, event)], item.2.WellFormed := by simpa using hwell
  have hall := CalendarEvent.fromIcsAll_written hchrono hwritten
  rw [List.flatMap_singleton] at hall
  have hread : CalendarEvent.fromIcs chrono (event.toIcs stamp.written) = some event := by
    rw [CalendarEvent.fromIcs, hall, List.map_singleton, List.head?_cons]
  rw [uidOf_payload, parse_eventKind, uid_eventKind, write_eventKind, hread, Option.map_some]

variable {S : Type} {store : ResourceStore S} {good : S → Prop} {rows : S → List Shelved}
  {fresh : S → Resource → List UInt8 → Prop}

/-- Contacts and events are looked up, deleted and saved by their uid as a scan would do it
just when the file names agree with the payloads. -/
theorem scans_iff_namesAgree (chrono : Chrono) (hstore : store.Shelves good rows fresh)
    {inner : S} (hgood : good inner) {fuel : Nat} (hfuel : (rows inner).length < fuel)
    (uid : Text) (stamp : SaveStamp) {contact : Contact} {event : CalendarEvent}
    (hcontact : fresh inner (contactKind.backing stamp (contactKind.withOwnUid stamp contact))
      (contactKind.payload stamp (contactKind.withOwnUid stamp contact)))
    (hevent : fresh inner
      ((eventKind chrono).backing stamp ((eventKind chrono).withOwnUid stamp event))
      ((eventKind chrono).payload stamp ((eventKind chrono).withOwnUid stamp event))) :
    (contactKind.ByUid store rows fuel uid stamp contact inner ↔
      contactKind.NamesAgree uid (rows inner) ∧
      (contactKind.uid (contactKind.withOwnUid stamp contact) = uid →
        contactKind.uidOf (contactKind.payload stamp (contactKind.withOwnUid stamp contact)) =
          some uid)) ∧
    ((eventKind chrono).ByUid store rows fuel uid stamp event inner ↔
      (eventKind chrono).NamesAgree uid (rows inner) ∧
      ((eventKind chrono).uid ((eventKind chrono).withOwnUid stamp event) = uid →
        (eventKind chrono).uidOf
            ((eventKind chrono).payload stamp ((eventKind chrono).withOwnUid stamp event)) =
          some uid)) :=
  ⟨byUid_iff hstore hgood hfuel uid hcontact, byUid_iff hstore hgood hfuel uid hevent⟩

namespace UidWitness

def clock : CallClock := { ts := 5, now := 5, resequence := fun _ => 5, pages := 1 }

def stamp : SaveStamp := ⟨"new".toList, ICalendarWitness.stamp, 9, 5⟩

/-- The card of the contact abc, imported under the name xyz.vcf. -/
def card : Resource where
  id := 7
  noteId := 3
  title := "A"
  mimeType := "text/vcard"
  fileName := "xyz.vcf"
  size := 0
  durationMs := none
  dimensions := none
  createdAt := 1
  deletedAt := none
  vv := ∅
  lastWriter := "A"

def cardBytes : List UInt8 := contactKind.payload stamp VCardWitness.contact

def imported : Db :=
  { Db.empty "A" with resources :=
      (Db.empty "A").resources.insert card.id (ResourceRow.ofResource card cardBytes) }

def cards : ResourceStore Db := Db.resourceStore fun _ => clock

def cardRows (db : Db) : List Shelved := sortBy Db.shelvedKey db.shelved

theorem shelves_cards : cards.Shelves Db.ShelvesUuids cardRows Db.IsNew :=
  (Db.holds_resourceStore fun _ => clock).shelves

theorem shelvesUuids_imported : imported.ShelvesUuids := by
  intro id hid
  rcases Std.ExtTreeMap.mem_insert.mp hid with heq | hempty
  · rw [Std.LawfulEqCmp.compare_eq_iff_eq] at heq
    rw [← heq]
    decide
  · exact absurd hempty Std.ExtTreeMap.not_mem_empty

theorem isNew_imported {resource : Resource} (data : List UInt8) (hid : resource.id = 9)
    (hlive : resource.deletedAt = none) : imported.IsNew resource data where
  unused := by
    intro hmem
    rcases Std.ExtTreeMap.mem_insert.mp hmem with heq | hempty
    · rw [Std.LawfulEqCmp.compare_eq_iff_eq, hid] at heq
      contradiction
    · exact absurd hempty Std.ExtTreeMap.not_mem_empty
  uuid := by
    rw [hid]
    decide
  live := hlive

theorem cardRows_imported : cardRows imported = [(card, some cardBytes)] := by
  refine List.perm_singleton.mp ((List.perm_ext_iff_of_nodup ?_ (List.nodup_singleton _)).mpr ?_)
  · exact List.Nodup.of_map _ (shelves_cards.nodup shelvesUuids_imported)
  · intro other
    rw [cardRows, mem_sortBy, Db.mem_shelved_insert (Db.empty "A") card.id
      (ResourceRow.ofResource card cardBytes) rfl, List.mem_singleton, Prod.ext_iff]
    have hrow : rowToResource card.id (ResourceRow.ofResource card cardBytes) = card := by rfl
    have hdata : (ResourceRow.ofResource card cardBytes).data = some cardBytes := rfl
    have hlive : (ResourceRow.ofResource card cardBytes).deletedAt = none := rfl
    have hempty : other ∉ (Db.empty "A").shelved := by
      intro hmem
      obtain ⟨found, hfound, -⟩ := Db.mem_shelved.mp hmem
      simp [Db.empty] at hfound
    rw [hrow, hdata, hlive]
    split
    · next hid => simp only [true_and, eq_comm]
    · next hid =>
        have hne : other.1 ≠ card := fun heq => hid (congrArg Resource.id heq)
        simp only [hempty, hne, false_and]

theorem length_imported : (cardRows imported).length < 2 := by
  rw [cardRows_imported]
  decide

theorem scans_imported :
    (contactKind.ByUid cards cardRows 2 "abc".toList stamp VCardWitness.contact imported ↔
      contactKind.NamesAgree "abc".toList (cardRows imported) ∧
      (contactKind.uid (contactKind.withOwnUid stamp VCardWitness.contact) = "abc".toList →
        contactKind.uidOf (contactKind.payload stamp
          (contactKind.withOwnUid stamp VCardWitness.contact)) = some "abc".toList)) ∧
    ((eventKind digitReader).ByUid cards cardRows 2 "abc".toList stamp ICalendarWitness.event
        imported ↔
      (eventKind digitReader).NamesAgree "abc".toList (cardRows imported) ∧
      ((eventKind digitReader).uid ((eventKind digitReader).withOwnUid stamp
          ICalendarWitness.event) = "abc".toList →
        (eventKind digitReader).uidOf ((eventKind digitReader).payload stamp
          ((eventKind digitReader).withOwnUid stamp ICalendarWitness.event)) =
            some "abc".toList)) :=
  scans_iff_namesAgree digitReader shelves_cards shelvesUuids_imported
    length_imported "abc".toList stamp (isNew_imported _ rfl rfl)
    (isNew_imported _ rfl rfl)

theorem uidOf_cardBytes : contactKind.uidOf cardBytes = some "abc".toList :=
  uidOf_contact stamp VCardWitness.wellFormed

theorem matching_imported :
    contactKind.matching "abc".toList (cardRows imported) = cardRows imported := by
  rw [cardRows_imported, matching, ofKind, List.filter_eq_self.mpr, List.filter_eq_self.mpr]
  · intro row hrow
    rw [List.mem_singleton.mp hrow]
    exact decide_eq_true rfl
  · intro row hrow
    rw [decide_eq_true_iff, List.mem_singleton.mp (List.mem_of_mem_filter hrow), HasUid,
      Option.bind_some, uidOf_cardBytes]

theorem without_imported : without ((cardRows imported).map Prod.fst) (cardRows imported) = [] := by
  rw [cardRows_imported]
  simp [without]

/-- The contact xyz is not stored, and deleting it deletes the contact abc. -/
theorem delete_imported : imported.ShelvesUuids ∧
    contactKind.matching "xyz".toList (cardRows imported) = [] ∧
    contactKind.matching "abc".toList (cardRows imported) = cardRows imported ∧
    contactResources cards 2 "xyz".toList imported = some (.ok [card]) ∧
    (∃ after, deleteContact cards 2 "xyz".toList imported = some (after, .ok ()) ∧
      cardRows after = []) ∧
    ¬ contactKind.ByUid cards cardRows 2 "xyz".toList stamp VCardWitness.contact imported := by
  have hlookup : contactKind.lookup "xyz".toList (cardRows imported) = cardRows imported := by
    rw [cardRows_imported]
    decide
  have hother : contactKind.matching "xyz".toList (cardRows imported) = [] := by
    rw [cardRows_imported, List.eq_nil_iff_forall_not_mem]
    intro row hrow
    obtain ⟨hmem, -, hhas⟩ := mem_matching.mp hrow
    rw [List.mem_singleton.mp hmem, HasUid, Option.bind_some, uidOf_cardBytes,
      Option.some.injEq] at hhas
    exact absurd hhas (by decide)
  have hlisting : Faults.none.listing = false := rfl
  have hfinds := resourcesWithUid_eq contactKind shelves_cards shelvesUuids_imported hlisting
    length_imported "xyz".toList
  rw [failing_none, Faults.none, masked_none, hlookup] at hfinds
  obtain ⟨after, hdelete, -, hrows, -⟩ :=
    deleteEntry_ok contactKind shelves_cards shelvesUuids_imported length_imported "xyz".toList
  rw [hlookup, without_imported] at hrows
  refine ⟨shelvesUuids_imported, hother, matching_imported, ?_, ⟨after, hdelete, hrows⟩, ?_⟩
  · rw [cardRows_imported] at hfinds
    exact hfinds
  · intro hby
    have hscan := hby.finds
    rw [hother, hfinds, cardRows_imported, Option.some.injEq, Except.ok.injEq] at hscan
    exact List.cons_ne_nil _ _ hscan

end UidWitness

end Interop

end Keeplin
