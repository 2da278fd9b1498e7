/-
Contacts as vCards.  A card that was written is read back, except for the two parts of
the name: they are cut at the first semicolon before they are unescaped.
-/
import Keeplin.ContentProperties

namespace Keeplin

namespace Interop

structure Contact where
  uid : Text := []
  formattedName : Text := []
  familyName : Option Text := none
  givenName : Option Text := none
  emails : List Text := []
  phones : List Text := []
  org : Option Text := none
  note : Option Text := none
  extra : List Text := []
deriving DecidableEq, Repr

/-- The parts of the name, of which a card has five. -/
def nameValue (family given : Option Text) : Text :=
  escapeText (family.getD []) ++ ';' :: (escapeText (given.getD []) ++ ";;;".toList)

def nameLine (family given : Option Text) : List Text :=
  if family.isSome ∨ given.isSome then [property "N" (nameValue family given)] else []

def Contact.contentLines (newId : Text) (contact : Contact) : List Text :=
  [property "BEGIN" "VCARD".toList, property "VERSION" "4.0".toList,
    textProperty "UID" (writtenUid newId contact.uid), textProperty "FN" contact.formattedName] ++
  nameLine contact.familyName contact.givenName ++
  contact.emails.map (textProperty "EMAIL") ++
  contact.phones.map (textProperty "TEL") ++
  (contact.org.map (textProperty "ORG")).toList ++
  (contact.note.map (textProperty "NOTE")).toList ++
  contact.extra ++
  [property "END" "VCARD".toList]

/-- The card of a contact; one without a uid gets the new id. -/
def Contact.toVcard (newId : Text) (contact : Contact) : Text :=
  (contact.contentLines newId).flatMap foldLine

def nonEmpty (text : Text) : Option Text := if text = [] then none else some text

def readFamily (value : Text) : Option Text := nonEmpty (unescapeText (beforeFirst ';' value))

def readGiven (value : Text) : Option Text :=
  (splitFirst ';' value).bind fun found => nonEmpty (unescapeText (beforeFirst ';' found.2))

/-- The properties that a card's reader knows. -/
def cardNames : List String := ["VERSION", "UID", "FN", "N", "EMAIL", "TEL", "ORG", "NOTE"]

def Contact.withProperty (contact : Contact) (name value line : Text) : Contact :=
  if name = "VERSION".toList then contact
  else if name = "UID".toList then { contact with uid := unescapeText value }
  else if name = "FN".toList then { contact with formattedName := unescapeText value }
  else if name = "N".toList then
    { contact with familyName := readFamily value, givenName := readGiven value }
  else if name = "EMAIL".toList then
    { contact with emails := contact.emails ++ [unescapeText value] }
  else if name = "TEL".toList then
    { contact with phones := contact.phones ++ [unescapeText value] }
  else if name = "ORG".toList then { contact with org := some (unescapeText value) }
  else if name = "NOTE".toList then { contact with note := some (unescapeText value) }
  else { contact with extra := contact.extra ++ [line] }

/-- Reading on, line after line, from outside or inside of a card. -/
def readCard : Bool → Contact → List Text → Bool × Contact
  | inCard, contact, [] => (inCard, contact)
  | inCard, contact, line :: rest =>
      match splitProp line with
      | none => readCard inCard contact rest
      | some (name, value) =>
          if name = "BEGIN".toList ∧ eqIgnoreAsciiCase value "VCARD" then readCard true contact rest
          else if name = "END".toList ∧ eqIgnoreAsciiCase value "VCARD" then (inCard, contact)
          else if inCard then readCard inCard (contact.withProperty name value line) rest
          else readCard inCard contact rest

def Contact.fromVcard (input : Text) : Option Contact :=
  let read := readCard false {} (unfold input)
  if read.1 then some read.2 else none

theorem isName_of_mem : ∀ name ∈ ["BEGIN", "END", "PRODID"] ++ cardNames, IsName name := by
  intro name hmem
  simp only [cardNames, List.cons_append, List.nil_append, List.mem_cons, List.not_mem_nil,
    or_false] at hmem
  rcases hmem with rfl | rfl | rfl | rfl | rfl | rfl | rfl | rfl | rfl | rfl | rfl <;>
    exact ⟨by decide, by decide, by decide, by decide, _, _, rfl, by decide⟩

theorem readCard_cons {line : Text} (hinner : IsInner "VCARD" line) (contact : Contact)
    (rest : List Text) :
    readCard true contact (line :: rest) =
      readCard true (readLine Contact.withProperty contact line) rest := by
  rw [readCard, readLine]
  cases hsplit : splitProp line with
  | none => rfl
  | some found =>
      obtain ⟨name, value⟩ := found
      have hmark := hinner name value hsplit
      have hbegin : ¬ (name = "BEGIN".toList ∧ eqIgnoreAsciiCase value "VCARD" = true) := by
        rintro ⟨hname, hvalue⟩
        rw [hmark (.inl hname)] at hvalue
        contradiction
      have hend : ¬ (name = "END".toList ∧ eqIgnoreAsciiCase value "VCARD" = true) := by
        rintro ⟨hname, hvalue⟩
        rw [hmark (.inr hname)] at hvalue
        contradiction
      simp only [if_neg hbegin, if_neg hend, if_true]

theorem readCard_append {lines : List Text} (hinner : ∀ line ∈ lines, IsInner "VCARD" line)
    (contact : Contact) (rest : List Text) :
    readCard true contact (lines ++ rest) =
      readCard true (lines.foldl (readLine Contact.withProperty) contact) rest := by
  induction lines generalizing contact with
  | nil => rfl
  | cons line lines ih =>
      rw [List.cons_append, readCard_cons (hinner line List.mem_cons_self),
        ih fun other hmem => hinner other (List.mem_cons_of_mem line hmem)]
      rfl

theorem readLine_cardExtra {line : Text} (hextra : IsExtra cardNames "VCARD" line)
    (contact : Contact) :
    readLine Contact.withProperty contact line =
      { contact with extra := contact.extra ++ [line] } := by
  obtain ⟨name, value, hsplit, hother, -⟩ := hextra.other
  simp only [cardNames, List.mem_cons, List.not_mem_nil, or_false, forall_eq_or_imp,
    forall_eq] at hother
  obtain ⟨hversion, huid, hfn, hn, hemail, htel, horg, hnote⟩ := hother
  simp only [readLine, hsplit]
  rw [Contact.withProperty, if_neg hversion, if_neg huid, if_neg hfn, if_neg hn, if_neg hemail,
    if_neg htel, if_neg horg, if_neg hnote]

/-- The line of a text field, read back. -/
theorem readLine_cardText {name : String} (hname : name ∈ cardNames) (contact : Contact)
    (text : Text) :
    readLine Contact.withProperty contact (textProperty name text) =
      contact.withProperty name.toList (escapeText text) (textProperty name text) :=
  readLine_property (isName_of_mem name (List.mem_append_right _ hname)) contact _

theorem foldl_emails {emails : List Text} (hreturn : ∀ email ∈ emails, '\r' ∉ email)
    (contact : Contact) :
    (emails.map (textProperty "EMAIL")).foldl (readLine Contact.withProperty) contact =
      { contact with emails := contact.emails ++ emails } := by
  refine foldl_each (fun contact emails => { contact with emails := contact.emails ++ emails })
    (fun contact => by simp) (fun contact email hmem rest => ?_) contact
  rw [readLine_cardText (by decide)]
  simp [Contact.withProperty, unescapeText_escapeText (hreturn email hmem)]

theorem foldl_phones {phones : List Text} (hreturn : ∀ phone ∈ phones, '\r' ∉ phone)
    (contact : Contact) :
    (phones.map (textProperty "TEL")).foldl (readLine Contact.withProperty) contact =
      { contact with phones := contact.phones ++ phones } := by
  refine foldl_each (fun contact phones => { contact with phones := contact.phones ++ phones })
    (fun contact => by simp) (fun contact phone hmem rest => ?_) contact
  rw [readLine_cardText (by decide)]
  simp [Contact.withProperty, unescapeText_escapeText (hreturn phone hmem)]

theorem foldl_cardExtra {lines : List Text}
    (hextra : ∀ line ∈ lines, IsExtra cardNames "VCARD" line) (contact : Contact) :
    lines.foldl (readLine Contact.withProperty) contact =
      { contact with extra := contact.extra ++ lines } := by
  rw [← List.map_id lines]
  refine foldl_each (fun contact lines => { contact with extra := contact.extra ++ lines.map id })
    (fun contact => by simp) (fun contact line hmem rest => ?_) contact
  rw [id, readLine_cardExtra (hextra line hmem)]
  simp

theorem foldl_org {org : Option Text} (hreturn : ∀ text ∈ org, '\r' ∉ text) (contact : Contact)
    (hnone : contact.org = none) :
    (org.map (textProperty "ORG")).toList.foldl (readLine Contact.withProperty) contact =
      { contact with org := org } := by
  refine foldl_optionalText (fun (contact : Contact) org => { contact with org := org }) hreturn ?_
    (by rw [← hnone])
  intro value
  rw [readLine_property (isName_of_mem _ (by decide))]
  rfl

theorem foldl_note {note : Option Text} (hreturn : ∀ text ∈ note, '\r' ∉ text) (contact : Contact)
    (hnone : contact.note = none) :
    (note.map (textProperty "NOTE")).toList.foldl (readLine Contact.withProperty) contact =
      { contact with note := note } := by
  refine foldl_optionalText (fun (contact : Contact) note => { contact with note := note })
    hreturn ?_ (by rw [← hnone])
  intro value
  rw [readLine_property (isName_of_mem _ (by decide))]
  rfl

theorem foldl_nameLine (family given : Option Text) (contact : Contact) :
    (nameLine family given).foldl (readLine Contact.withProperty) contact =
      if family.isSome ∨ given.isSome then
        { contact with
          familyName := readFamily (nameValue family given),
          givenName := readGiven (nameValue family given) }
      else contact := by
  rw [nameLine]
  split
  · rw [List.foldl_cons, List.foldl_nil,
      readLine_property (isName_of_mem _ (by decide))]
    simp [Contact.withProperty]
  · rfl

/-- The text fields of a contact. -/
def Contact.texts (contact : Contact) : List Text :=
  contact.uid :: contact.formattedName :: (contact.familyName.toList ++ contact.givenName.toList ++
    contact.emails ++ contact.phones ++ contact.org.toList ++ contact.note.toList)

structure Contact.WellFormed (contact : Contact) : Prop where
  uid : contact.uid ≠ []
  texts : ∀ text ∈ contact.texts, '\r' ∉ text
  names : ∀ part ∈ contact.familyName.toList ++ contact.givenName.toList, part ≠ []
  extra : ∀ line ∈ contact.extra, IsExtra cardNames "VCARD" line

/-- What lies between the first and the last line of a card. -/
def Contact.innerLines (newId : Text) (contact : Contact) : List Text :=
  [property "VERSION" "4.0".toList, textProperty "UID" (writtenUid newId contact.uid),
    textProperty "FN" contact.formattedName] ++
  nameLine contact.familyName contact.givenName ++
  contact.emails.map (textProperty "EMAIL") ++
  contact.phones.map (textProperty "TEL") ++
  (contact.org.map (textProperty "ORG")).toList ++
  (contact.note.map (textProperty "NOTE")).toList ++
  contact.extra

theorem Contact.contentLines_eq (newId : Text) (contact : Contact) :
    contact.contentLines newId =
      property "BEGIN" "VCARD".toList ::
        (contact.innerLines newId ++ [property "END" "VCARD".toList]) := by
  simp [Contact.contentLines, Contact.innerLines]

theorem mem_nameLine {family given : Option Text} {line : Text}
    (hmem : line ∈ nameLine family given) :
    line = property "N" (nameValue family given) := by
  rw [nameLine] at hmem
  split at hmem
  · exact List.mem_singleton.mp hmem
  · exact absurd hmem List.not_mem_nil

theorem feed_not_mem_nameValue (family given : Option Text) : '\n' ∉ nameValue family given := by
  simp only [nameValue, List.mem_append, List.mem_cons, not_or]
  exact ⟨feed_not_mem_escapeText _, by decide, feed_not_mem_escapeText _, by decide⟩

/-- The lines of a card are properties that the reader knows, and the extra lines. -/
theorem Contact.mem_innerLines {newId : Text} {contact : Contact} {line : Text}
    (hmem : line ∈ contact.innerLines newId) :
    (∃ name ∈ cardNames, ∃ value, '\n' ∉ value ∧ line = property name value) ∨
      line ∈ contact.extra := by
  have htext : ∀ name ∈ cardNames, ∀ text, ∃ name' ∈ cardNames, ∃ value,
      '\n' ∉ value ∧ textProperty name text = property name' value :=
    fun name hname text => ⟨name, hname, _, feed_not_mem_escapeText text, rfl⟩
  simp only [Contact.innerLines, List.mem_append, List.mem_cons, List.not_mem_nil, or_false,
    List.mem_map, Option.mem_toList, Option.map_eq_some_iff] at hmem
  rcases hmem with (((((hfirst | hname) | hemail) | hphone) | horg) | hnote) | hextra
  · rcases hfirst with rfl | rfl | rfl
    · exact .inl ⟨"VERSION", by decide, _, by decide, rfl⟩
    · exact .inl (htext "UID" (by decide) _)
    · exact .inl (htext "FN" (by decide) _)
  · exact .inl ⟨"N", by decide, _, feed_not_mem_nameValue _ _, mem_nameLine hname⟩
  · obtain ⟨email, -, rfl⟩ := hemail
    exact .inl (htext "EMAIL" (by decide) _)
  · obtain ⟨phone, -, rfl⟩ := hphone
    exact .inl (htext "TEL" (by decide) _)
  · obtain ⟨text, -, rfl⟩ := horg
    exact .inl (htext "ORG" (by decide) _)
  · obtain ⟨text, -, rfl⟩ := hnote
    exact .inl (htext "NOTE" (by decide) _)
  · exact .inr hextra

theorem not_mark_of_mem : ∀ name ∈ cardNames,
    name.toList ≠ "BEGIN".toList ∧ name.toList ≠ "END".toList := by
  decide

theorem Contact.isContentLine {newId : Text} {contact : Contact} (hwell : contact.WellFormed) :
    ∀ line ∈ contact.contentLines newId, ContentLines.IsContentLine line := by
  intro line hmem
  rw [Contact.contentLines_eq, List.mem_cons, List.mem_append, List.mem_singleton] at hmem
  rcases hmem with rfl | hinner | rfl
  · exact isContentLine_property (isName_of_mem _ (by decide)) (by decide)
  · rcases Contact.mem_innerLines hinner with ⟨name, hname, value, hfeed, rfl⟩ | hextra
    · exact isContentLine_property (isName_of_mem name (List.mem_append_right _ hname)) hfeed
    · exact (hwell.extra line hextra).content
  · exact isContentLine_property (isName_of_mem _ (by decide)) (by decide)

theorem Contact.isInner {newId : Text} {contact : Contact} (hwell : contact.WellFormed) :
    ∀ line ∈ contact.innerLines newId, IsInner "VCARD" line := by
  intro line hmem
  rcases Contact.mem_innerLines hmem with ⟨name, hname, value, -, rfl⟩ | hextra
  · obtain ⟨hbegin, hend⟩ := not_mark_of_mem name hname
    exact isInner_property (isName_of_mem name (List.mem_append_right _ hname)) hbegin hend value
  · exact (hwell.extra line hextra).inner

/-- The name as the reader of the card takes it. -/
def Contact.withReadName (contact : Contact) : Contact :=
  if contact.familyName.isSome ∨ contact.givenName.isSome then
    { contact with
      familyName := readFamily (nameValue contact.familyName contact.givenName),
      givenName := readGiven (nameValue contact.familyName contact.givenName) }
  else contact

theorem Contact.foldl_innerLines {newId : Text} {contact : Contact} (hwell : contact.WellFormed) :
    (contact.innerLines newId).foldl (readLine Contact.withProperty) {} = contact.withReadName := by
  have hreturn : ∀ text ∈ contact.texts, '\r' ∉ text := hwell.texts
  simp only [Contact.texts, List.mem_cons, List.mem_append, Option.mem_toList] at hreturn
  have hstart : [property "VERSION" "4.0".toList, textProperty "UID" contact.uid,
      textProperty "FN" contact.formattedName].foldl (readLine Contact.withProperty) {} =
        { uid := contact.uid, formattedName := contact.formattedName } := by
    rw [List.foldl_cons, List.foldl_cons, List.foldl_cons, List.foldl_nil,
      readLine_cardText (by decide), readLine_cardText (by decide),
      readLine_property (isName_of_mem _ (by decide))]
    simp [Contact.withProperty, unescapeText_escapeText (hreturn contact.uid (.inl rfl)),
      unescapeText_escapeText (hreturn contact.formattedName (.inr (.inl rfl)))]
  rw [Contact.innerLines, writtenUid, if_neg hwell.uid]
  simp only [List.foldl_append]
  rw [hstart, foldl_nameLine]
  have hemails : ∀ email ∈ contact.emails, '\r' ∉ email := by simp_all
  have hphones : ∀ phone ∈ contact.phones, '\r' ∉ phone := by simp_all
  have horg : ∀ text ∈ contact.org, '\r' ∉ text := by simp_all
  have hnote : ∀ text ∈ contact.note, '\r' ∉ text := by simp_all
  by_cases hname : contact.familyName.isSome ∨ contact.givenName.isSome
  · rw [if_pos hname, foldl_emails hemails, foldl_phones hphones, foldl_org horg _ rfl,
      foldl_note hnote _ rfl, foldl_cardExtra hwell.extra, Contact.withReadName, if_pos hname]
    rfl
  · rw [if_neg hname, foldl_emails hemails, foldl_phones hphones, foldl_org horg _ rfl,
      foldl_note hnote _ rfl, foldl_cardExtra hwell.extra, Contact.withReadName, if_neg hname]
    obtain ⟨hfamily, hgiven⟩ := not_or.mp hname
    rw [Bool.not_eq_true, Option.isSome_eq_false_iff, Option.isNone_iff_eq_none] at hfamily hgiven
    cases contact
    simp_all

theorem Contact.fromVcard_toVcard {newId : Text} {contact : Contact} (hwell : contact.WellFormed) :
    Contact.fromVcard (contact.toVcard newId) = some contact.withReadName := by
  have hbegin : splitProp (property "BEGIN" "VCARD".toList) =
      some ("BEGIN".toList, "VCARD".toList) :=
    splitProp_property (isName_of_mem _ (by decide)) _
  have hend : splitProp (property "END" "VCARD".toList) = some ("END".toList, "VCARD".toList) :=
    splitProp_property (isName_of_mem _ (by decide)) _
  have hread : readCard false {} (contact.contentLines newId) = (true, contact.withReadName) := by
    rw [Contact.contentLines_eq, readCard]
    simp only [hbegin]
    rw [if_pos (by decide), readCard_append (Contact.isInner hwell),
      Contact.foldl_innerLines hwell, readCard]
    simp only [hend]
    rw [if_neg (by decide), if_pos (by decide)]
  rw [Contact.fromVcard, Contact.toVcard, unfold_foldLine (Contact.isContentLine hwell), hread]
  rfl

theorem nonEmpty_eq_iff {part : Option Text} (hpart : ∀ text ∈ part, text ≠ []) (read : Text) :
    nonEmpty read = part ↔ read = part.getD [] := by
  cases part with
  | none =>
      rw [nonEmpty, Option.getD_none]
      split <;> simp_all
  | some text =>
      have hne : text ≠ [] := hpart text rfl
      rw [nonEmpty, Option.getD_some]
      split
      · next hread => simp [hread, hne.symm]
      · rw [Option.some.injEq]

/-- The family name is read back when no semicolon is in it. -/
theorem readFamily_iff {family : Option Text} (given : Option Text)
    (hreturn : '\r' ∉ family.getD []) (hne : ∀ text ∈ family, text ≠ []) :
    readFamily (nameValue family given) = family ↔ ';' ∉ family.getD [] := by
  rw [readFamily, nonEmpty_eq_iff hne, nameValue, unescapeText_beforeFirst_iff hreturn]

theorem readGiven_iff {family given : Option Text} (hfamily : ';' ∉ family.getD [])
    (hreturn : '\r' ∉ given.getD []) (hne : ∀ text ∈ given, text ≠ []) :
    readGiven (nameValue family given) = given ↔ ';' ∉ given.getD [] := by
  rw [readGiven, nameValue, splitFirst_append (semicolon_not_mem_escapeText hfamily),
    Option.bind_some, nonEmpty_eq_iff hne]
  exact unescapeText_beforeFirst_iff hreturn _

theorem char_not_mem_getD_iff {c : Char} {part : Option Text} :
    c ∉ part.getD [] ↔ ∀ text, part = some text → c ∉ text := by
  cases part <;> simp

/-- A written contact is read back just when no semicolon is in a part of its name. -/
theorem Contact.fromVcard_toVcard_iff (newId : Text) {contact : Contact}
    (hwell : contact.WellFormed) :
    Contact.fromVcard (contact.toVcard newId) = some contact ↔
      ∀ part ∈ contact.familyName.toList ++ contact.givenName.toList, ';' ∉ part := by
  have hnames := hwell.names
  have hreturn := hwell.texts
  simp only [Contact.texts, List.mem_cons, List.mem_append, Option.mem_toList, or_imp,
    forall_and] at hnames hreturn
  obtain ⟨-, -, ⟨⟨⟨⟨hfamilyReturn, hgivenReturn⟩, -⟩, -⟩, -⟩, -⟩ := hreturn
  rw [Contact.fromVcard_toVcard hwell, Option.some.injEq]
  simp only [List.mem_append, Option.mem_toList, or_imp, forall_and]
  rw [← char_not_mem_getD_iff, ← char_not_mem_getD_iff]
  have hfamily := readFamily_iff contact.givenName
    (char_not_mem_getD_iff.mpr hfamilyReturn) hnames.1
  have hgiven := fun hsemicolon : ';' ∉ contact.familyName.getD [] => readGiven_iff hsemicolon
    (char_not_mem_getD_iff.mpr hgivenReturn) hnames.2
  by_cases hname : contact.familyName.isSome ∨ contact.givenName.isSome
  · have hread : contact.withReadName = contact ↔
        readFamily (nameValue contact.familyName contact.givenName) = contact.familyName ∧
        readGiven (nameValue contact.familyName contact.givenName) = contact.givenName := by
      rw [Contact.withReadName, if_pos hname]
      cases contact
      simp
    rw [hread, hfamily]
    exact ⟨fun both => ⟨both.1, (hgiven both.1).mp both.2⟩,
      fun both => ⟨both.1, (hgiven both.1).mpr both.2⟩⟩
  · obtain ⟨hnoFamily, hnoGiven⟩ := not_or.mp hname
    rw [Bool.not_eq_true, Option.isSome_eq_false_iff, Option.isNone_iff_eq_none]
      at hnoFamily hnoGiven
    rw [Contact.withReadName, if_neg hname, hnoFamily, hnoGiven]
    simp

namespace VCardWitness

/-- A contact with a semicolon, and every other character that is escaped, where it does no harm. -/
def contact : Contact :=
  { uid := "abc".toList, formattedName := "A, B; C\\D".toList, familyName := some "B, C".toList,
    emails := ["ada@example.com".toList], note := some "one\ntwo".toList,
    extra := ["X-CUSTOM;TYPE=a:kept".toList] }

theorem isExtra : IsExtra cardNames "VCARD" "X-CUSTOM;TYPE=a:kept".toList where
  content := ⟨by decide, by rintro c ⟨⟩; rfl⟩
  other := ⟨"X-CUSTOM".toList, "kept".toList, by decide, by decide, by decide⟩

theorem wellFormed : contact.WellFormed where
  uid := by decide
  texts := by decide
  names := by decide
  extra := fun line hmem => List.mem_singleton.mp hmem ▸ isExtra

theorem fromVcard_contact :
    Contact.fromVcard (contact.toVcard "new".toList) = some contact ↔
      ∀ part ∈ contact.familyName.toList ++ contact.givenName.toList, ';' ∉ part :=
  Contact.fromVcard_toVcard_iff "new".toList wellFormed

/-- A contact whose family name has a semicolon. -/
def joined : Contact := { uid := "abc".toList, familyName := some "B;C".toList }

theorem wellFormed_joined : joined.WellFormed where
  uid := by decide
  texts := by decide
  names := by decide
  extra := fun _ hmem => absurd hmem List.not_mem_nil

/-- The family name of the card is cut, and what was cut off is taken for the given name. -/
theorem fromVcard_joined : joined.WellFormed ∧
    Contact.fromVcard (joined.toVcard "new".toList) =
      some { joined with familyName := some "B\\".toList, givenName := some "C".toList } ∧
    Contact.fromVcard (joined.toVcard "new".toList) ≠ some joined := by
  have hread : Contact.fromVcard (joined.toVcard "new".toList) = some joined.withReadName :=
    Contact.fromVcard_toVcard wellFormed_joined
  rw [hread]
  exact ⟨wellFormed_joined, by decide, by decide⟩

end VCardWitness

end Interop

end Keeplin
