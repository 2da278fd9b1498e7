/-
Instants with leap seconds, as the clock library has them.  By their bytes the texts of a
later instant come after those of an earlier one, in whichever rendering, so a query finds
by texts the rows it would find by instants.
-/
import Mathlib.Data.Bool.AllAny
import Keeplin.DbSync
import Keeplin.Rfc3339

namespace Keeplin

/-- A second since the epoch and the nanoseconds after it, which go on for another second
where the last second of a minute is followed by a leap second. -/
structure UtcInstant where
  second : Int
  nano : Nat
  nano_lt : nano < 2000000000
  leap : 1000000000 ≤ nano → second % 60 = 59

namespace UtcInstant

instance : LT UtcInstant where
  lt instant later := instant.second < later.second ∨
    instant.second = later.second ∧ instant.nano < later.nano

instance (instant later : UtcInstant) : Decidable (instant < later) :=
  inferInstanceAs (Decidable (_ ∨ _))

theorem lt_iff {instant later : UtcInstant} :
    instant < later ↔ instant.second < later.second ∨
      instant.second = later.second ∧ instant.nano < later.nano := Iff.rfl

/-- The hour, the minute and the second of a day, which is 60 in a leap second. -/
def clock (second leap : Nat) : List Nat :=
  [second / 3600, second % 3600 / 60, second % 3600 % 60 + leap]

/-- The numbers of a second, the year apart. -/
def numbers (second : Int) (leap : Nat) : List Nat :=
  (monthOfYear second + 1) :: (dayOfMonth second + 1) :: clock (secondOfDay second) leap

def clockText (second : Int) (leap : Nat) : Text :=
  yearText (year second) ++
    ('-' :: layOut Nat.digitChar 10 monthToSecond (numbers second leap))

variable (instant : UtcInstant)

def leapOf : Nat := instant.nano / 1000000000

def fraction : Nat := instant.nano % 1000000000

def rendered (width : Nat) : Text :=
  clockText instant.second instant.leapOf ++ (fractionText width instant.fraction ++ offsetText)

def toRfc3339 : Text := instant.rendered (neededWidth instant.fraction)

def toSortableRfc3339 : Text := instant.rendered 9

/-- The two ways in which instants are written. -/
def HasText (text : Text) : Prop :=
  text = instant.toRfc3339 ∨ text = instant.toSortableRfc3339

/-- The instants with a year from 0 to 9999. -/
def InYears : Prop := 0 ≤ year instant.second ∧ year instant.second ≤ 9999

instance : Decidable instant.InYears :=
  inferInstanceAs (Decidable (_ ∧ _))

instance (text : Text) : Decidable (instant.HasText text) :=
  inferInstanceAs (Decidable (_ ∨ _))

def ofDateTime (instant : DateTime) : UtcInstant where
  second := secondOf instant
  nano := nanoOf instant
  nano_lt := (nanoOf_lt instant).trans (by decide)
  leap hleap := absurd (nanoOf_lt instant) (Nat.not_lt_of_le hleap)

theorem clockText_zero (second : Int) : clockText second 0 = secondText second := by
  rfl

theorem rendered_ofDateTime (width : Nat) (instant : DateTime) :
    (ofDateTime instant).rendered width = renderedWith width instant := by
  have hnano := nanoOf_lt instant
  have hleap : (ofDateTime instant).leapOf = 0 := Nat.div_eq_of_lt hnano
  have hfraction : (ofDateTime instant).fraction = nanoOf instant := Nat.mod_eq_of_lt hnano
  rw [rendered, hleap, hfraction, clockText_zero]
  rfl

theorem ofDateTime_lt_iff {instant later : Int} :
    ofDateTime instant < ofDateTime later ↔ instant < later := by
  simp only [lt_iff, ofDateTime, secondOf, nanoOf]
  omega

variable {instant} {later : UtcInstant}

theorem leapOf_le (instant : UtcInstant) : instant.leapOf ≤ 1 := by
  have hnano := instant.nano_lt
  rw [leapOf]
  omega

theorem fits_numbers (second : Int) {leap : Nat} (hleap : leap ≤ 1) :
    Fits 10 monthToSecond (numbers second leap) := by
  have hmonth := monthOfYear_le second
  have hday := dayOfMonth_le second
  have hsecond := secondOfDay_lt second
  exact fits_monthToSecond (by omega) (by omega) (by omega) (by omega) (by omega)

/-- Only the last second of a minute goes on in a leap second. -/
theorem secondOfDay_of_leapOf (instant : UtcInstant) (hleap : instant.leapOf ≠ 0) :
    secondOfDay instant.second % 3600 % 60 = 59 := by
  have hlast := instant.leap
  simp only [leapOf] at hleap
  simp only [secondOfDay]
  omega

/-- Within a year the numbers of a later second are the later ones, leap seconds included. -/
theorem numbers_lt (hwithin : withinYear instant.second < withinYear later.second) :
    numbers instant.second instant.leapOf < numbers later.second later.leapOf := by
  have hleap := instant.leapOf_le
  have hlast := instant.secondOfDay_of_leapOf
  have hend : secondOfDay later.second % 3600 % 60 ≤ 59 := by omega
  simp only [withinYear, parts, numbers, clock, List.cons_lt_cons_iff, List.not_lt_nil, and_false,
    or_false] at hwithin ⊢
  omega

theorem yearText_of_inYears (hyear : instant.InYears) :
    yearText (year instant.second) = decimal 4 (year instant.second).toNat :=
  if_pos hyear

theorem length_clockText (hyear : instant.InYears) :
    (clockText instant.second instant.leapOf).length = 19 := by
  have hnumbers := length_layOut Nat.digitChar (fits_numbers instant.second instant.leapOf_le)
  rw [clockText, yearText_of_inYears hyear, List.length_append, List.length_cons, decimal,
    length_digits, hnumbers]
  rfl

theorem clockText_lt (hyear : instant.InYears) (hlater : later.InYears)
    (hlt : instant.second < later.second ∨
      instant.second = later.second ∧ instant.leapOf < later.leapOf) :
    clockText instant.second instant.leapOf < clockText later.second later.leapOf := by
  rw [clockText, clockText, yearText_of_inYears hyear, yearText_of_inYears hlater,
    append_lt_append_iff (by simp [decimal])]
  have hsame : ∀ {moment : UtcInstant}, moment.InYears → (year moment.second).toNat < 10 ^ 4 := by
    intro moment hmoment
    obtain ⟨hlow, hhigh⟩ := hmoment
    omega
  have hback : (year instant.second = year later.second ∧
      numbers instant.second instant.leapOf < numbers later.second later.leapOf) →
      decimal 4 (year instant.second).toNat = decimal 4 (year later.second).toNat ∧
      '-' :: layOut Nat.digitChar 10 monthToSecond (numbers instant.second instant.leapOf) <
        '-' :: layOut Nat.digitChar 10 monthToSecond (numbers later.second later.leapOf) := by
    rintro ⟨hyears, hnumbers⟩
    refine ⟨by rw [hyears], List.cons_lt_cons_iff.mpr (.inr ⟨rfl, ?_⟩)⟩
    exact (layOut_lt_iff digitChar_lt_iff (by decide) (fits_numbers _ instant.leapOf_le)
      (fits_numbers _ later.leapOf_le)).mpr hnumbers
  rcases hlt with hsecond | ⟨hsecond, hleap⟩
  · rcases year_lex hsecond with hyears | ⟨hyears, hwithin⟩
    · left
      rw [decimal, decimal, digits_lt_iff digitChar_lt_iff (by decide) (hsame hyear) (hsame hlater)]
      obtain ⟨hlow, -⟩ := hyear
      omega
    · exact .inr (hback ⟨hyears, numbers_lt hwithin⟩)
  · refine .inr (hback ⟨by rw [hsecond], ?_⟩)
    simp only [numbers, clock, hsecond, List.cons_lt_cons_iff, lt_self_iff_false, true_and,
      false_or]
    exact .inl (Nat.add_lt_add_left hleap _)

theorem HasText.exact {text : Text} (htext : instant.HasText text) :
    ∃ width, Exact width instant.fraction ∧ text = instant.rendered width := by
  rcases htext with rfl | rfl
  · exact ⟨_, exact_neededWidth _, rfl⟩
  · exact ⟨_, exact_nine _, rfl⟩

theorem fraction_lt_billion (instant : UtcInstant) : instant.fraction < 10 ^ 9 :=
  Nat.mod_lt _ (by decide)

/-- A later instant has a later second or leap second, or a later fraction of the same. -/
theorem lt_lex (hlt : instant < later) :
    (instant.second < later.second ∨
      instant.second = later.second ∧ instant.leapOf < later.leapOf) ∨
    (instant.second = later.second ∧ instant.leapOf = later.leapOf ∧
      instant.fraction < later.fraction) := by
  have hlex := lt_iff.mp hlt
  simp only [leapOf, fraction]
  omega

/-- In whatever renderings, a later instant has the later text. -/
theorem HasText.lt {text text' : Text} (htext : instant.HasText text)
    (htext' : later.HasText text') (hyear : instant.InYears) (hlater : later.InYears)
    (hlt : instant < later) : text < text' := by
  obtain ⟨width, hexact, rfl⟩ := htext.exact
  obtain ⟨width', hexact', rfl⟩ := htext'.exact
  have hlength := (length_clockText hyear).trans (length_clockText hlater).symm
  rw [rendered, rendered, append_lt_append_iff hlength]
  rcases lt_lex hlt with hclock | ⟨hsecond, hleap, hfraction⟩
  · exact .inl (clockText_lt hyear hlater hclock)
  · refine .inr ⟨by rw [hsecond, hleap], ?_⟩
    exact Keeplin.fraction_lt hexact hexact' later.fraction_lt_billion hfraction

/-- Of the renderings of one instant the sortable one is the last. -/
theorem HasText.le {text : Text} (htext : instant.HasText text) :
    text ≤ instant.toSortableRfc3339 := by
  rcases htext with rfl | rfl
  · rcases Nat.lt_or_eq_of_le (exact_neededWidth instant.fraction).1 with hlt | heq
    · exact le_of_lt (append_lt_append_left.mpr (fractionText_lt_nine hlt _))
    · rw [toRfc3339, toSortableRfc3339, heq]
  · exact le_refl _

end UtcInstant

/-- A character of one byte. -/
def IsAscii (c : Char) : Prop := c.toNat < 128

theorem utf8EncodeChar_of_ascii {c : Char} (hc : IsAscii c) :
    String.utf8EncodeChar c = [UInt8.ofNat c.toNat] := by
  have hsize : c.utf8Size = 1 := by
    rw [Char.utf8Size_eq_one_iff, UInt32.le_iff_toNat_le]
    exact Nat.le_of_lt_succ hc
  rw [String.utf8EncodeChar_eq_singleton hsize]
  rfl

theorem utf8_of_ascii {text : Text} (htext : ∀ c ∈ text, IsAscii c) :
    utf8 text = text.map fun c => UInt8.ofNat c.toNat := by
  induction text with
  | nil => rfl
  | cons c text ih =>
      obtain ⟨hc, htext⟩ := List.forall_mem_cons.mp htext
      rw [utf8, List.flatMap_cons, utf8EncodeChar_of_ascii hc, List.map_cons, ← ih htext]
      rfl

theorem toNat_ofNat_of_ascii {c : Char} (hc : IsAscii c) :
    (UInt8.ofNat c.toNat).toNat = c.toNat := by
  rw [UInt8.toNat_ofNat']
  exact Nat.mod_eq_of_lt (Nat.lt_trans hc (by decide))

/-- The bytes of texts in ASCII are in the order of the texts. -/
theorem utf8_lt_iff {first second : Text} (hfirst : ∀ c ∈ first, IsAscii c)
    (hsecond : ∀ c ∈ second, IsAscii c) : utf8 first < utf8 second ↔ first < second := by
  rw [utf8_of_ascii hfirst, utf8_of_ascii hsecond]
  induction first generalizing second with
  | nil => cases second <;> simp
  | cons c first ih =>
      cases second with
      | nil => simp
      | cons d second =>
          obtain ⟨hc, hfirst⟩ := List.forall_mem_cons.mp hfirst
          obtain ⟨hd, hsecond⟩ := List.forall_mem_cons.mp hsecond
          rw [List.map_cons, List.map_cons, List.cons_lt_cons_iff, List.cons_lt_cons_iff,
            ih hfirst hsecond, UInt8.lt_iff_toNat_lt, ← UInt8.toNat_inj, toNat_ofNat_of_ascii hc,
            toNat_ofNat_of_ascii hd, Char.toNat_inj]
          rfl

theorem digitChar_ascii : ∀ value < 10, IsAscii (Nat.digitChar value) := by
  simp only [IsAscii]
  decide

theorem decimal_ascii {width number : Nat} {c : Char} (hmem : c ∈ decimal width number) :
    IsAscii c := by
  obtain ⟨value, hvalue, rfl⟩ := digits_mem Nat.digitChar 10 (by decide) hmem
  exact digitChar_ascii value hvalue

theorem fractionText_ascii {width nano : Nat} {c : Char} (hmem : c ∈ fractionText width nano) :
    IsAscii c := by
  rw [fractionText] at hmem
  split at hmem
  · exact absurd hmem List.not_mem_nil
  · rcases List.mem_cons.mp hmem with rfl | hdigits
    · exact (by decide : '.'.toNat < 128)
    · exact decimal_ascii hdigits

theorem offsetText_ascii : ∀ c ∈ offsetText, IsAscii c := by
  have hbound : ∀ c ∈ offsetText, c.toNat < 128 := List.all_iff_forall_prop.mp (by decide)
  exact hbound

namespace UtcInstant

variable {instant later : UtcInstant}

theorem clockText_ascii (hyear : instant.InYears) {leap : Nat} {c : Char}
    (hmem : c ∈ clockText instant.second leap) : IsAscii c := by
  rw [clockText, yearText_of_inYears hyear] at hmem
  rcases List.mem_append.mp hmem with hyears | hrest
  · exact decimal_ascii hyears
  · rcases List.mem_cons.mp hrest with rfl | hnumbers
    · exact (by decide : '-'.toNat < 128)
    · refine layOut_forall IsAscii (by decide) digitChar_ascii ?_ hnumbers
      simp [monthToSecond, IsAscii]

theorem rendered_ascii (hyear : instant.InYears) (width : Nat) :
    ∀ c ∈ instant.rendered width, IsAscii c := by
  intro c hmem
  rcases List.mem_append.mp hmem with hclock | hrest
  · exact clockText_ascii hyear hclock
  · rcases List.mem_append.mp hrest with hfraction | hoffset
    · exact fractionText_ascii hfraction
    · exact offsetText_ascii c hoffset

theorem lt_or_gt_of_ne (hne : instant ≠ later) : instant < later ∨ later < instant := by
  rw [lt_iff, lt_iff]
  rcases Int.lt_trichotomy instant.second later.second with hlt | hsecond | hgt
  · exact .inl (.inl hlt)
  · rcases Nat.lt_trichotomy instant.nano later.nano with hlt | hnano | hgt
    · exact .inl (.inr ⟨hsecond, hlt⟩)
    · refine absurd ?_ hne
      cases instant
      cases later
      cases hsecond
      cases hnano
      rfl
    · exact .inr (.inr ⟨hsecond.symm, hgt⟩)
  · exact .inr (.inl hgt)

end UtcInstant

/-- The text of an instant in a row, in one of the two renderings. -/
structure StoredText where
  instant : UtcInstant
  text : Text
  inYears : instant.InYears
  hasText : instant.HasText text

namespace StoredText

variable {first second : StoredText}

theorem ascii (stored : StoredText) : ∀ c ∈ stored.text, IsAscii c := by
  obtain ⟨width, -, htext⟩ := stored.hasText.exact
  rw [htext]
  exact UtcInstant.rendered_ascii stored.inYears width

/-- The rendering that a query compares with. -/
def sortable (since : UtcInstant) (hyear : since.InYears) : StoredText where
  instant := since
  text := since.toSortableRfc3339
  inYears := hyear
  hasText := .inr rfl

theorem text_lt (hlt : first.instant < second.instant) : first.text < second.text :=
  first.hasText.lt second.hasText first.inYears second.inYears hlt

theorem utf8_lt_iff_text_lt : utf8 first.text < utf8 second.text ↔ first.text < second.text :=
  utf8_lt_iff first.ascii second.ascii

/-- The texts of different instants are in the order of the instants. -/
theorem text_lt_iff (hne : first.instant ≠ second.instant) :
    first.text < second.text ↔ first.instant < second.instant := by
  refine ⟨?_, text_lt⟩
  intro hlt
  rcases UtcInstant.lt_or_gt_of_ne hne with hinstant | hinstant
  · exact hinstant
  · exact absurd hlt (text_lt hinstant).asymm

/-- No text of the instant that is asked about comes after the one of the query. -/
theorem sortable_lt_iff {since : UtcInstant} (hyear : since.InYears) (stored : StoredText) :
    since.toSortableRfc3339 < stored.text ↔ since < stored.instant := by
  constructor
  · intro hlt
    by_cases hsame : since = stored.instant
    · subst hsame
      exact absurd hlt (not_lt_of_ge stored.hasText.le)
    · exact (@text_lt_iff (sortable since hyear) stored hsame).mp hlt
  · intro hlt
    exact @text_lt (sortable since hyear) stored hlt

end StoredText

/-- The rows that a query finds whose texts are greater than the one it is given. -/
def textsAfter {R : Type} (stored : R → StoredText) (since : UtcInstant) (rows : List R) : List R :=
  rows.filter fun row => utf8 since.toSortableRfc3339 < utf8 (stored row).text

theorem textsAfter_eq {R : Type} (stored : R → StoredText) {since : UtcInstant}
    (hyear : since.InYears) (rows : List R) :
    textsAfter stored since rows = rows.filter fun row => since < (stored row).instant := by
  refine List.filter_congr ?_
  intro row _
  have hbytes := @StoredText.utf8_lt_iff_text_lt (StoredText.sortable since hyear) (stored row)
  exact decide_eq_decide.mpr (hbytes.trans (StoredText.sortable_lt_iff hyear (stored row)))

theorem toSortableRfc3339_ofDateTime (since : DateTime) :
    (UtcInstant.ofDateTime since).toSortableRfc3339 = toSortableRfc3339 since :=
  UtcInstant.rendered_ofDateTime 9 since

/-- The changes since an instant are found by the texts of the rows. -/
theorem Db.getChangesSince_eq_texts {db : Db} (stored : EntityChange → StoredText)
    (hstored : ∀ row ∈ db.entityChanges,
      (stored row).instant = UtcInstant.ofDateTime row.changedAt)
    {since : DateTime} (hyear : FourDigitYear since) :
    db.getChangesSince since =
      (db.entityChanges.filter fun row =>
        utf8 (toSortableRfc3339 since) < utf8 (stored row).text).map
        EntityChange.change := by
  have hfound := @textsAfter_eq _ stored (UtcInstant.ofDateTime since) hyear db.entityChanges
  rw [textsAfter, toSortableRfc3339_ofDateTime] at hfound
  rw [hfound, Db.getChangesSince]
  congr 1
  refine List.filter_congr ?_
  intro row hrow
  rw [hstored row hrow]
  exact decide_eq_decide.mpr UtcInstant.ofDateTime_lt_iff.symm

/-- Whatever renderings the rows have, the texts of different instants are in the order of the
instants by their bytes, and the query for later texts finds the later instants. -/
theorem renderings_ordered {R : Type} (stored : R → StoredText) :
    (∀ (instant later : UtcInstant) (text text' : Text), instant.InYears → later.InYears →
      instant.HasText text → later.HasText text' → instant < later → utf8 text < utf8 text') ∧
    (∀ row row', (stored row).instant ≠ (stored row').instant →
      (utf8 (stored row).text < utf8 (stored row').text ↔
        (stored row).instant < (stored row').instant)) ∧
    ∀ since, since.InYears → ∀ rows,
      textsAfter stored since rows = rows.filter fun row => since < (stored row).instant := by
  refine ⟨?_, ?_, ?_⟩
  · intro instant later text text' hyear hlater htext htext' hlt
    exact (@StoredText.utf8_lt_iff_text_lt ⟨instant, text, hyear, htext⟩
      ⟨later, text', hlater, htext'⟩).mpr (htext.lt htext' hyear hlater hlt)
  · intro row row' hne
    rw [StoredText.utf8_lt_iff_text_lt]
    exact StoredText.text_lt_iff hne
  · intro since hyear rows
    exact textsAfter_eq stored hyear rows

namespace LeapWitness

/-- Half a second into the leap second at the end of 1998. -/
def leapSecond : StoredText where
  instant := ⟨915148799, 1500000000, by decide, by decide⟩
  text := "1998-12-31T23:59:60.500+00:00".toList
  inYears := by decide
  hasText := .inl (by decide)

def newYear : StoredText where
  instant := ⟨915148800, 0, by decide, by decide⟩
  text := "1999-01-01T00:00:00+00:00".toList
  inYears := by decide
  hasText := .inl (by decide)

theorem leapSecond_lt : leapSecond.instant < newYear.instant := by decide

theorem newYear_after_leapSecond :
    utf8 "1998-12-31T23:59:60.500+00:00".toList < utf8 "1999-01-01T00:00:00+00:00".toList ∧
    utf8 leapSecond.text < utf8 newYear.text ∧
    textsAfter id leapSecond.instant [leapSecond, newYear] = [newYear] := by
  obtain ⟨hrendered, hstored, hquery⟩ := renderings_ordered (id : StoredText → StoredText)
  have hne : leapSecond.instant ≠ newYear.instant := by
    intro hsame
    exact absurd (congrArg UtcInstant.second hsame) (by decide)
  refine ⟨?_, (hstored leapSecond newYear hne).mpr leapSecond_lt, ?_⟩
  · exact hrendered _ _ _ _ leapSecond.inYears newYear.inYears leapSecond.hasText newYear.hasText
      leapSecond_lt
  · rw [hquery _ leapSecond.inYears]
    rfl

end LeapWitness

end Keeplin
