/-
Contacts and events stored as resources.  The entry of a uid is looked for by the file
name that saving gives it, and only without such a file in the payloads.
-/
import Keeplin.ICalendar
import Keeplin.ResourceStores
import Keeplin.VCard

namespace Keeplin

namespace Interop

def replacement : Char := '\uFFFD'

/-- How many bytes of an ill-formed sequence are replaced together: those that could have
begun a character. -/
def illFormedLength : List UInt8 → Nat
  | first :: second :: rest =>
      let three := (first = 0xE0 ∧ 0xA0 ≤ second ∧ second ≤ 0xBF) ∨
        (0xE1 ≤ first ∧ first ≤ 0xEF ∧ first ≠ 0xED ∧ 0x80 ≤ second ∧ second ≤ 0xBF) ∨
        (first = 0xED ∧ 0x80 ≤ second ∧ second ≤ 0x9F)
      let four := (first = 0xF0 ∧ 0x90 ≤ second ∧ second ≤ 0xBF) ∨
        (0xF1 ≤ first ∧ first ≤ 0xF3 ∧ 0x80 ≤ second ∧ second ≤ 0xBF) ∨
        (first = 0xF4 ∧ 0x80 ≤ second ∧ second ≤ 0x8F)
      if three then 2
      else if four then
        match rest with
        | third :: _ => if 0x80 ≤ third ∧ third ≤ 0xBF then 3 else 2
        | [] => 2
      else 1
  | _ => 1

def replaceIllFormed : Nat → List UInt8 → Text
  | 0, _ => []
  | _, [] => []
  | fuel + 1, bytes =>
      match ByteArray.utf8DecodeChar? ⟨bytes.toArray⟩ 0 with
      | some c => c :: replaceIllFormed fuel (bytes.drop c.utf8Size)
      | none => replacement :: replaceIllFormed fuel (bytes.drop (illFormedLength bytes))

/-- The text of a payload, with a replacement for what is not UTF-8. -/
def fromUtf8Lossy (bytes : List UInt8) : Text :=
  match decode bytes with
  | .ok text => text
  | .error _ => replaceIllFormed bytes.length bytes

@[simp] theorem fromUtf8Lossy_utf8 (text : Text) : fromUtf8Lossy (utf8 text) = text := by
  rw [fromUtf8Lossy, decode_utf8]

/-- What contacts and events differ in. -/
structure EntryKind (C : Type) where
  mime : String
  ext : String
  uid : C → Text
  title : C → Text
  withUid : C → Text → C
  write : Stamp → C → Text
  parse : Text → Option C

def contactKind : EntryKind Contact where
  mime := "text/vcard"
  ext := "vcf"
  uid := Contact.uid
  title := Contact.formattedName
  withUid contact uid := { contact with uid }
  write stamp contact := contact.toVcard stamp.newId
  parse := Contact.fromVcard

def eventKind (chrono : Chrono) : EntryKind CalendarEvent where
  mime := "text/calendar"
  ext := "ics"
  uid := CalendarEvent.uid
  title := CalendarEvent.summary
  withUid event uid := { event with uid }
  write := CalendarEvent.toIcs
  parse := CalendarEvent.fromIcs chrono

def uidFileName (uid : Text) (ext : String) : String := String.ofList (uid ++ '.' :: ext.toList)

/-- What a save draws from outside. -/
structure SaveStamp where
  newUid : Text
  written : Stamp
  resourceId : Uuid
  createdAt : DateTime

namespace EntryKind

variable {C S : Type} (kind : EntryKind C) (store : ResourceStore S)

def read (data : List UInt8) : Option C := kind.parse (fromUtf8Lossy data)

def uidOf (data : List UInt8) : Option Text := (kind.read data).map kind.uid

def resourceMetasWithMime (fuel : Nat) (inner : S) : Option (Except StorageError (List Resource)) :=
  (store.collectResources inner fuel none).map fun result =>
    result.map fun metas => metas.filter fun resource => resource.mimeType = kind.mime

/-- The payload parses as an entry with the uid. -/
def payloadHasUid (uid : Text) (inner : S) (resource : Resource) : Bool :=
  match store.readResource resource.id inner with
  | .ok (_, data) => kind.uidOf data = some uid
  | .error _ => false

def resourcesWithUid (fuel : Nat) (uid : Text) (inner : S) :
    Option (Except StorageError (List Resource)) :=
  (kind.resourceMetasWithMime store fuel inner).map fun result =>
    result.map fun metas =>
      let named := metas.filter fun resource => resource.fileName = uidFileName uid kind.ext
      if named ≠ [] then named else metas.filter (kind.payloadHasUid store uid inner)

/-- The entry of a resource, if it has the uid. -/
def entryWithUid (uid : Text) (data : List UInt8) : Option C :=
  (kind.read data).filter fun entry => kind.uid entry = uid

def getEntry (fuel : Nat) (uid : Text) (inner : S) : Option (Except StorageError (Option C)) :=
  (kind.resourcesWithUid store fuel uid inner).map fun result =>
    result.map fun metas => metas.findSome? fun resource =>
      match store.readResource resource.id inner with
      | .ok (_, data) => kind.entryWithUid uid data
      | .error _ => none

def deleteEntry (fuel : Nat) (uid : Text) (inner : S) : Option (S × Except StorageError Unit) :=
  (kind.resourcesWithUid store fuel uid inner).map fun result =>
    match result with
    | .error failure => (inner, .error failure)
    | .ok found => store.deleteAll found inner

/-- An entry without a uid gets a new one. -/
def withOwnUid (stamp : SaveStamp) (entry : C) : C :=
  if kind.uid entry = [] then kind.withUid entry stamp.newUid else entry

def payload (stamp : SaveStamp) (entry : C) : List UInt8 := utf8 (kind.write stamp.written entry)

def backing (stamp : SaveStamp) (entry : C) : Resource where
  id := stamp.resourceId
  noteId := SYSTEM_RESOURCE_NOTE_ID
  title := String.ofList (kind.title entry)
  mimeType := kind.mime
  fileName := uidFileName (kind.uid entry) kind.ext
  size := (kind.payload stamp entry).length
  durationMs := none
  dimensions := none
  createdAt := stamp.createdAt
  deletedAt := none
  vv := ∅
  lastWriter := ""

def saveEntry (fuel : Nat) (stamp : SaveStamp) (entry : C) (inner : S) :
    Option (S × Except StorageError C) :=
  let own := kind.withOwnUid stamp entry
  (kind.deleteEntry store fuel (kind.uid own) inner).map fun deleted =>
    match deleted with
    | (after, .error failure) => (after, .error failure)
    | (after, .ok ()) =>
        let created := store.createResource (kind.backing stamp own) (kind.payload stamp own) after
        (created.1, created.2.map fun _ => own)

end EntryKind

section Calls

variable {S : Type} (store : ResourceStore S) (chrono : Chrono)

def contactResources : Nat → Text → S → Option (Except StorageError (List Resource)) :=
  contactKind.resourcesWithUid store

def getContact : Nat → Text → S → Option (Except StorageError (Option Contact)) :=
  contactKind.getEntry store

def deleteContact : Nat → Text → S → Option (S × Except StorageError Unit) :=
  contactKind.deleteEntry store

def saveContact : Nat → SaveStamp → Contact → S → Option (S × Except StorageError Contact) :=
  contactKind.saveEntry store

def eventResources : Nat → Text → S → Option (Except StorageError (List Resource)) :=
  (eventKind chrono).resourcesWithUid store

def getEvent : Nat → Text → S → Option (Except StorageError (Option CalendarEvent)) :=
  (eventKind chrono).getEntry store

def deleteEvent : Nat → Text → S → Option (S × Except StorageError Unit) :=
  (eventKind chrono).deleteEntry store

def saveEvent :
    Nat → SaveStamp → CalendarEvent → S → Option (S × Except StorageError CalendarEvent) :=
  (eventKind chrono).saveEntry store

end Calls

namespace EntryKind

variable {C S : Type} (kind : EntryKind C)

/-- The rows of the kind. -/
def ofKind (rows : List Shelved) : List Shelved :=
  rows.filter fun row => row.1.mimeType = kind.mime

def HasName (uid : Text) (row : Shelved) : Prop := row.1.fileName = uidFileName uid kind.ext

instance (uid : Text) : DecidablePred (kind.HasName uid) :=
  fun _ => inferInstanceAs (Decidable (_ = _))

/-- The payload can be read and parses as an entry with the uid. -/
def HasUid (uid : Text) (row : Shelved) : Prop := row.2.bind kind.uidOf = some uid

instance (uid : Text) : DecidablePred (kind.HasUid uid) :=
  fun _ => inferInstanceAs (Decidable (_ = _))

def named (uid : Text) (rows : List Shelved) : List Shelved :=
  (kind.ofKind rows).filter (kind.HasName uid)

/-- The entries of a uid, found by a scan of the payloads. -/
def matching (uid : Text) (rows : List Shelved) : List Shelved :=
  (kind.ofKind rows).filter (kind.HasUid uid)

def lookup (uid : Text) (rows : List Shelved) : List Shelved :=
  if kind.named uid rows ≠ [] then kind.named uid rows else kind.matching uid rows

variable {kind} {store : ResourceStore S} {good : S → Prop} {rows : S → List Shelved}
  {fresh : S → Resource → List UInt8 → Prop}

/-- The rows as a store reads them while reads fail. -/
def masked (reads : Uuid → Bool) (rows : List Shelved) : List Shelved :=
  rows.map fun row => if reads row.1.id then (row.1, none) else row

theorem masked_none (rows : List Shelved) : masked (fun _ => false) rows = rows := by
  simp [masked]

theorem map_fst_masked (reads : Uuid → Bool) (rows : List Shelved) :
    (masked reads rows).map Prod.fst = rows.map Prod.fst := by
  rw [masked, List.map_map]
  refine List.map_congr_left fun row _ => ?_
  rw [Function.comp_apply]
  split <;> rfl

theorem mem_masked {reads : Uuid → Bool} {list : List Shelved} {row : Shelved} :
    row ∈ masked reads list ↔
      ∃ found ∈ list, (if reads found.1.id then (found.1, none) else found) = row :=
  List.mem_map

theorem collectResources_failing (faults : ResourceStore.Faults) (hlisting : faults.listing = false)
    (inner : S) (fuel : Nat) (token : Option Text) :
    (store.failing faults).collectResources inner fuel token =
      store.collectResources inner fuel token := by
  induction fuel generalizing token with
  | zero => rfl
  | succ fuel ih =>
      rw [ResourceStore.collectResources, ResourceStore.collectResources]
      simp only [ResourceStore.failing, hlisting, Bool.false_eq_true, if_false]
      simp only [ResourceStore.failing, hlisting, Bool.false_eq_true, if_false] at ih
      simp only [ih]

theorem resourcesWithUid_listing {faults : ResourceStore.Faults} (hlisting : faults.listing = true)
    {fuel : Nat} (hfuel : 0 < fuel) (uid : Text) (inner : S) :
    kind.resourcesWithUid (store.failing faults) fuel uid inner = some (.error .io) := by
  obtain ⟨fuel, rfl⟩ := Nat.exists_eq_add_one_of_ne_zero (Nat.ne_of_gt hfuel)
  simp [resourcesWithUid, resourceMetasWithMime, ResourceStore.collectResources,
    ResourceStore.failing, hlisting, Except.map]

/-- What the store says of a payload is what the masked row has. -/
theorem payloadHasUid_masked (hstore : store.Shelves good rows fresh) {inner : S}
    (hgood : good inner) (faults : ResourceStore.Faults) (uid : Text) {row : Shelved}
    (hrow : row ∈ masked faults.reads (rows inner)) :
    kind.payloadHasUid (store.failing faults) uid inner row.1 = decide (kind.HasUid uid row) := by
  obtain ⟨found, hfound, rfl⟩ := mem_masked.mp hrow
  have hread := hstore.reads hgood hfound
  by_cases hfails : faults.reads found.1.id = true
  · simp [payloadHasUid, ResourceStore.failing, HasUid, hfails]
  · simp only [payloadHasUid, ResourceStore.failing, hfails, HasUid, Bool.false_eq_true, if_false]
    cases hresult : store.readResource found.1.id inner with
    | error failure =>
        rw [hresult] at hread
        have hnone : found.2 = none := Option.map_eq_none_iff.mp hread.symm
        simp [hnone]
    | ok pair =>
        rw [hresult] at hread
        obtain ⟨data, hdata, hpair⟩ := Option.map_eq_some_iff.mp hread.symm
        simp [hdata, ← hpair]

/-- A lookup gives the rows of the name, or else those whose payload has the uid. -/
theorem resourcesWithUid_eq (kind : EntryKind C) (hstore : store.Shelves good rows fresh)
    {inner : S} (hgood : good inner) {faults : ResourceStore.Faults}
    (hlisting : faults.listing = false)
    {fuel : Nat} (hfuel : (rows inner).length < fuel) (uid : Text) :
    kind.resourcesWithUid (store.failing faults) fuel uid inner =
      some (.ok ((kind.lookup uid (masked faults.reads (rows inner))).map Prod.fst)) := by
  have hmetas : kind.resourceMetasWithMime (store.failing faults) fuel inner =
      some (.ok ((kind.ofKind (masked faults.reads (rows inner))).map Prod.fst)) := by
    rw [resourceMetasWithMime, collectResources_failing faults hlisting, hstore.lists hgood hfuel,
      ← map_fst_masked faults.reads, ofKind]
    simp only [Option.map_some, Except.map, List.filter_map]
    rfl
  have hnamed : ((kind.ofKind (masked faults.reads (rows inner))).map Prod.fst).filter
      (fun resource => resource.fileName = uidFileName uid kind.ext) =
        (kind.named uid (masked faults.reads (rows inner))).map Prod.fst := by
    rw [List.filter_map, named]
    rfl
  have hscan : ((kind.ofKind (masked faults.reads (rows inner))).map Prod.fst).filter
      (kind.payloadHasUid (store.failing faults) uid inner) =
        (kind.matching uid (masked faults.reads (rows inner))).map Prod.fst := by
    rw [List.filter_map, matching]
    refine congrArg (List.map Prod.fst) (List.filter_congr fun row hrow => ?_)
    exact payloadHasUid_masked hstore hgood faults uid (List.mem_of_mem_filter hrow)
  rw [resourcesWithUid, hmetas]
  simp only [Option.map_some, Except.map, hnamed, hscan, lookup, ne_eq, List.map_eq_nil_iff]
  split <;> rfl

/-- The first entry of the uid among the rows that a lookup gives. -/
def firstEntry (kind : EntryKind C) (uid : Text) (list : List Shelved) : Option C :=
  (kind.lookup uid list).findSome? fun row => row.2.bind (kind.entryWithUid uid)

theorem mem_of_mem_lookup {uid : Text} {list : List Shelved} {row : Shelved}
    (hmem : row ∈ kind.lookup uid list) : row ∈ list := by
  rw [lookup] at hmem
  split at hmem <;> exact List.mem_of_mem_filter (List.mem_of_mem_filter hmem)

theorem findSome?_congr {A B : Type} {first second : A → Option B} {list : List A}
    (hsame : ∀ item ∈ list, first item = second item) :
    list.findSome? first = list.findSome? second := by
  induction list with
  | nil => rfl
  | cons item rest ih =>
      rw [List.findSome?_cons, List.findSome?_cons, hsame item List.mem_cons_self,
        ih fun other hmem => hsame other (List.mem_cons_of_mem item hmem)]

theorem getEntry_eq (hstore : store.Shelves good rows fresh) {inner : S} (hgood : good inner)
    {fuel : Nat} (hfuel : (rows inner).length < fuel) (uid : Text) :
    kind.getEntry store fuel uid inner = some (.ok (kind.firstEntry uid (rows inner))) := by
  have hlisting : ResourceStore.Faults.none.listing = false := rfl
  have hfound := resourcesWithUid_eq kind hstore hgood hlisting hfuel uid
  rw [ResourceStore.failing_none, ResourceStore.Faults.none, masked_none] at hfound
  rw [getEntry, hfound, firstEntry]
  simp only [Option.map_some, Except.map, List.findSome?_map]
  refine congrArg (fun found => some (Except.ok found)) (findSome?_congr fun row hrow => ?_)
  have hread := hstore.reads hgood (mem_of_mem_lookup hrow)
  rw [Function.comp_apply]
  cases hresult : store.readResource row.1.id inner with
  | error failure =>
      rw [hresult] at hread
      have hnone : row.2 = none := Option.map_eq_none_iff.mp hread.symm
      rw [hnone]
      rfl
  | ok pair =>
      rw [hresult] at hread
      obtain ⟨data, hdata, hpair⟩ := Option.map_eq_some_iff.mp hread.symm
      rw [hdata, ← hpair]
      rfl

end EntryKind

end Interop

end Keeplin
