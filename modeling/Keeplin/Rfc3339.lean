/-
Instants as texts.  One rendering has as many digits of the second as the instant
needs, the sortable one has always nine.  For years of four digits the texts of a
later instant come after those of an earlier one, in whichever rendering.
-/
import Keeplin.JournalTail
import Keeplin.TextOrder
import Mathlib.Data.Char

namespace Keeplin

/-- Days before a year, in a cycle of 400 years that starts with a leap year. -/
def daysBeforeYear (year : Nat) : Nat :=
  365 * year + (year + 3) / 4 - (year + 99) / 100 + (year + 399) / 400

def isLeapYear (year : Nat) : Bool :=
  year % 4 = 0 && (year % 100 ≠ 0 || year % 400 = 0)

/-- Days before a month, January being 0. -/
def daysBeforeMonth (leap : Bool) (month : Nat) : Nat :=
  [0, 31, 59, 90, 120, 151, 181, 212, 243, 273, 304, 334, 365].getD month 365 +
    if leap ∧ 2 ≤ month then 1 else 0

/-- The start of the year 0 lies 719528 days before the epoch. -/
def daysSinceYear0 (second : Int) : Int := second / 86400 + 719528

def dayOfCycle (second : Int) : Nat := (daysSinceYear0 second % 146097).toNat

def yearOfCycle (second : Int) : Nat := lastStart daysBeforeYear 399 (dayOfCycle second)

def year (second : Int) : Int := 400 * (daysSinceYear0 second / 146097) + yearOfCycle second

def dayOfYear (second : Int) : Nat := dayOfCycle second - daysBeforeYear (yearOfCycle second)

def monthOfYear (second : Int) : Nat :=
  lastStart (daysBeforeMonth (isLeapYear (yearOfCycle second))) 11 (dayOfYear second)

def dayOfMonth (second : Int) : Nat :=
  dayOfYear second - daysBeforeMonth (isLeapYear (yearOfCycle second)) (monthOfYear second)

def secondOfDay (second : Int) : Nat := (second % 86400).toNat

def decimal (width number : Nat) : Text := digits Nat.digitChar 10 width number

/-- A year that has not four digits is written with its sign. -/
def yearText (year : Int) : Text :=
  if 0 ≤ year ∧ year ≤ 9999 then decimal 4 year.toNat
  else (if year < 0 then '-' else '+') :: (Nat.toDigits 10 year.natAbs).leftpad 4 '0'

def monthToSecond : List (Nat × Text) :=
  [(2, ['-']), (2, ['T']), (2, [':']), (2, [':']), (2, [])]

/-- The text of a whole second. -/
def secondText (second : Int) : Text :=
  yearText (year second) ++ ('-' :: layOut Nat.digitChar 10 monthToSecond
    ((monthOfYear second + 1) :: (dayOfMonth second + 1) :: parts [3600, 60] (secondOfDay second)))

/-- The first digits of a second's nanoseconds. -/
def fractionText (width nano : Nat) : Text :=
  if width = 0 then [] else '.' :: decimal width (nano / 10 ^ (9 - width))

def secondOf (instant : DateTime) : Int := instant / 1000000000

def nanoOf (instant : DateTime) : Nat := (instant % 1000000000).toNat

def offsetText : Text := "+00:00".toList

def renderedWith (width : Nat) (instant : DateTime) : Text :=
  secondText (secondOf instant) ++ (fractionText width (nanoOf instant) ++ offsetText)

def neededWidth (nano : Nat) : Nat :=
  if nano = 0 then 0
  else if nano % 1000000 = 0 then 3
  else if nano % 1000 = 0 then 6
  else 9

def toRfc3339 (instant : DateTime) : Text :=
  renderedWith (neededWidth (nanoOf instant)) instant

def toSortableRfc3339 (instant : DateTime) : Text := renderedWith 9 instant

/-- The instants that RFC 3339 can write. -/
def FourDigitYear (instant : DateTime) : Prop :=
  0 ≤ year (secondOf instant) ∧ year (secondOf instant) ≤ 9999

instance (instant : DateTime) : Decidable (FourDigitYear instant) :=
  inferInstanceAs (Decidable (_ ∧ _))

theorem dayOfCycle_lt (second : Int) : dayOfCycle second < daysBeforeYear 400 := by
  have hlt := Int.emod_lt_of_pos (daysSinceYear0 second) (by decide : (0 : Int) < 146097)
  have hnonneg := Int.emod_nonneg (daysSinceYear0 second) (by decide : (146097 : Int) ≠ 0)
  have hcycle : daysBeforeYear 400 = 146097 := by decide
  rw [hcycle, dayOfCycle]
  omega

theorem yearOfCycle_le (second : Int) : yearOfCycle second ≤ 399 := lastStart_le

theorem daysBeforeYear_succ (year : Nat) :
    daysBeforeYear (year + 1) ≤ daysBeforeYear year + 366 := by
  simp only [daysBeforeYear]
  omega

theorem dayOfYear_lt (second : Int) : dayOfYear second < 366 := by
  have hlt := lt_start_succ_lastStart (dayOfCycle_lt second)
  have hstep := daysBeforeYear_succ (yearOfCycle second)
  rw [dayOfYear]
  simp only [yearOfCycle] at hstep ⊢
  omega

theorem monthOfYear_le (second : Int) : monthOfYear second ≤ 11 := lastStart_le

theorem daysBeforeMonth_succ (leap : Bool) :
    ∀ month ≤ 11, daysBeforeMonth leap (month + 1) ≤ daysBeforeMonth leap month + 31 := by
  cases leap <;> decide

theorem daysBeforeMonth_zero (leap : Bool) : daysBeforeMonth leap 0 = 0 := by
  cases leap <;> rfl

theorem dayOfMonth_le (second : Int) : dayOfMonth second ≤ 31 := by
  have hday := dayOfYear_lt second
  have hmonth := daysBeforeMonth_succ (isLeapYear (yearOfCycle second)) _ (monthOfYear_le second)
  rw [dayOfMonth]
  by_cases hbound : dayOfYear second < daysBeforeMonth (isLeapYear (yearOfCycle second)) 12
  · have hlt := lt_start_succ_lastStart hbound
    simp only [monthOfYear] at hmonth ⊢
    omega
  · have hlast : monthOfYear second = 11 := by
      refine Nat.le_antisymm (monthOfYear_le second) (Nat.le_findGreatest (Nat.le_refl 11) ?_)
      revert hbound
      cases isLeapYear (yearOfCycle second) <;> simp [daysBeforeMonth] <;> omega
    rw [hlast] at hmonth ⊢
    revert hbound
    cases isLeapYear (yearOfCycle second) <;> simp [daysBeforeMonth] <;> omega

/-- The numbers a whole second is written with, the year apart. -/
def withinYear (second : Int) : List Nat :=
  (monthOfYear second + 1) :: (dayOfMonth second + 1) :: parts [3600, 60] (secondOfDay second)

/-- A later second has a later year, or later numbers in the same year. -/
theorem year_lex {second later : Int} (hlt : second < later) :
    year second < year later ∨
      year second = year later ∧ withinYear second < withinYear later := by
  have hdays : daysSinceYear0 second < daysSinceYear0 later ∨
      daysSinceYear0 second = daysSinceYear0 later ∧ secondOfDay second < secondOfDay later := by
    simp only [daysSinceYear0, secondOfDay]
    omega
  have hyear := yearOfCycle_le second
  rcases hdays with hday | ⟨hday, hsecond⟩
  · have hcycle : daysSinceYear0 second / 146097 < daysSinceYear0 later / 146097 ∨
        daysSinceYear0 second / 146097 = daysSinceYear0 later / 146097 ∧
          dayOfCycle second < dayOfCycle later := by
      simp only [dayOfCycle]
      omega
    rcases hcycle with hcycle | ⟨hcycle, hdoc⟩
    · left
      simp only [year]
      omega
    · rcases lastStart_lex daysBeforeYear (by decide) (Nat.le_refl 399) hdoc with
        hyears | ⟨hyears, hdoy⟩
      · left
        simp only [year, yearOfCycle]
        omega
      · right
        refine ⟨by simp only [year, yearOfCycle, hcycle, hyears], ?_⟩
        have hmonths := lastStart_lex (daysBeforeMonth (isLeapYear (yearOfCycle later)))
          (daysBeforeMonth_zero _) (Nat.le_refl 11) hdoy
        simp only [withinYear, monthOfYear, dayOfMonth, dayOfYear, yearOfCycle,
          List.cons_lt_cons_iff] at hmonths ⊢
        rw [hyears] at hmonths ⊢
        omega
  · have hdoc : dayOfCycle second = dayOfCycle later := by simp only [dayOfCycle, hday]
    right
    refine ⟨by simp only [year, yearOfCycle, hday, hdoc], ?_⟩
    simp only [withinYear, monthOfYear, dayOfMonth, dayOfYear, yearOfCycle, hdoc,
      List.cons_lt_cons_iff, parts_lt_iff, hsecond, lt_self_iff_false, true_and, false_or]

theorem digitChar_lt_iff : ∀ {a b : Nat}, a < 10 → b < 10 →
    (Nat.digitChar a < Nat.digitChar b ↔ a < b) := by
  have hall : ∀ a < 10, ∀ b < 10, (Nat.digitChar a < Nat.digitChar b ↔ a < b) := by decide
  exact fun {a b} ha hb => hall a ha b hb

theorem secondOfDay_lt (second : Int) : secondOfDay second < 86400 := by
  simp only [secondOfDay]
  omega

theorem fits_monthToSecond {month day hour minute second : Nat} (hmonth : month < 100)
    (hday : day < 100) (hhour : hour < 100) (hminute : minute < 100) (hsecond : second < 100) :
    Fits 10 monthToSecond [month, day, hour, minute, second] :=
  .cons hmonth (.cons hday (.cons hhour (.cons hminute (.cons hsecond .nil))))

theorem fits_withinYear (second : Int) : Fits 10 monthToSecond (withinYear second) := by
  have hmonth := monthOfYear_le second
  have hday := dayOfMonth_le second
  have hsecond := secondOfDay_lt second
  exact fits_monthToSecond (by omega) (by omega) (by omega) (by omega) (by omega)

theorem secondText_lt {second later : Int} (hyear : 0 ≤ year second) (hlater : year later ≤ 9999)
    (hlt : second < later) : secondText second < secondText later := by
  have hlex := year_lex hlt
  have hfour : ∀ {moment}, 0 ≤ year moment → year moment ≤ 9999 →
      yearText (year moment) = decimal 4 (year moment).toNat :=
    fun hlow hhigh => if_pos ⟨hlow, hhigh⟩
  rw [secondText, secondText, hfour hyear (by omega), hfour (by omega) hlater]
  rw [append_lt_append_iff (by simp [decimal])]
  rcases hlex with hyears | ⟨hyears, hwithin⟩
  · left
    rw [decimal, decimal, digits_lt_iff digitChar_lt_iff (by decide) (by omega) (by omega)]
    omega
  · right
    refine ⟨by rw [hyears], ?_⟩
    rw [List.cons_lt_cons_iff]
    right
    refine ⟨rfl, ?_⟩
    exact (layOut_lt_iff digitChar_lt_iff (by decide) (fits_withinYear second)
      (fits_withinYear later)).mpr hwithin

theorem length_secondText {second : Int} (hlow : 0 ≤ year second) (hhigh : year second ≤ 9999) :
    (secondText second).length = 19 := by
  have hwithin := length_layOut Nat.digitChar (fits_withinYear second)
  rw [secondText, yearText, if_pos ⟨hlow, hhigh⟩, List.length_append, List.length_cons, decimal,
    length_digits]
  simp only [withinYear] at hwithin
  rw [hwithin]
  rfl

theorem offset_lt_digits (width number : Nat) (rest : Text) :
    offsetText < decimal (width + 1) number ++ rest := by
  obtain ⟨c, digits, hcons⟩ := List.exists_cons_of_length_eq_add_one
    (length_digits Nat.digitChar 10 (width + 1) number)
  have hmem : c ∈ decimal (width + 1) number := by
    rw [decimal, hcons]
    exact List.mem_cons_self
  obtain ⟨value, hvalue, rfl⟩ := digits_mem Nat.digitChar 10 (by decide) hmem
  have hplus : ∀ value < 10, '+' < Nat.digitChar value := by decide
  rw [decimal, hcons, List.cons_append]
  exact List.cons_lt_cons_iff.mpr (Or.inl (hplus value hvalue))

/-- All digits of the fraction that are not written are zero. -/
def Exact (width nano : Nat) : Prop :=
  width ≤ 9 ∧ 10 ^ (9 - width) ∣ nano

theorem decimal_split {width more : Nat} (hmore : width + more ≤ 9) (nano : Nat) :
    decimal (width + more) (nano / 10 ^ (9 - (width + more))) =
      decimal width (nano / 10 ^ (9 - width)) ++
        decimal more (nano / 10 ^ (9 - (width + more))) := by
  have hdiv : nano / 10 ^ (9 - (width + more)) / 10 ^ more = nano / 10 ^ (9 - width) := by
    rw [Nat.div_div_eq_div_mul, ← Nat.pow_add]
    congr 2
    omega
  rw [decimal, digits_add, hdiv, decimal, decimal]

theorem decimal_fraction_lt_iff {width first second : Nat} (hwidth : width ≤ 9)
    (hfirst : first < 10 ^ 9) (hsecond : second < 10 ^ 9) :
    decimal width (first / 10 ^ (9 - width)) < decimal width (second / 10 ^ (9 - width)) ↔
      first / 10 ^ (9 - width) < second / 10 ^ (9 - width) := by
  have hfits : ∀ {nano : Nat}, nano < 10 ^ 9 → nano / 10 ^ (9 - width) < 10 ^ width := by
    intro nano hnano
    rw [Nat.div_lt_iff_lt_mul (Nat.pow_pos (by decide)), ← Nat.pow_add,
      Nat.add_sub_cancel' hwidth]
    exact hnano
  exact digits_lt_iff digitChar_lt_iff (by decide) (hfits hfirst) (hfits hsecond)

/-- A fraction that goes on after the other has ended is the later one. -/
theorem fraction_lt {width width' nano nano' : Nat} (hexact : Exact width nano)
    (hexact' : Exact width' nano') (hnano' : nano' < 10 ^ 9) (hlt : nano < nano') :
    fractionText width nano ++ offsetText < fractionText width' nano' ++ offsetText := by
  obtain ⟨hwidth, count, hcount⟩ := hexact
  obtain ⟨hwidth', count', hcount'⟩ := hexact'
  have hpositive : width' ≠ 0 := by
    rintro rfl
    rw [hcount'] at hnano' hlt
    have hzero : count' = 0 := by
      simp only [Nat.sub_zero] at hnano'
      omega
    rw [hzero] at hlt
    exact absurd hlt (Nat.not_lt_zero nano)
  rw [fractionText, fractionText, if_neg hpositive]
  split
  · exact List.cons_lt_cons_iff.mpr (Or.inl (by decide))
  · next hwritten =>
      rw [List.cons_append, List.cons_append, List.cons_lt_cons_iff]
      refine Or.inr ⟨rfl, ?_⟩
      have hnano : nano < 10 ^ 9 := hlt.trans hnano'
      rcases Nat.le_total width width' with hle | hle
      · obtain ⟨more, rfl⟩ := Nat.exists_eq_add_of_le hle
        rw [decimal_split hwidth', List.append_assoc, append_lt_append_iff (by simp [decimal]),
          decimal_fraction_lt_iff hwidth hnano hnano']
        rcases Nat.lt_or_eq_of_le (Nat.div_le_div_right (c := 10 ^ (9 - width))
          (Nat.le_of_lt hlt)) with hfront | hfront
        · exact Or.inl hfront
        · refine Or.inr ⟨by rw [hfront], ?_⟩
          cases more with
          | zero =>
              -- with as many digits the later fraction differs in one of them
              have hback := Nat.div_mul_cancel ⟨count, hcount⟩
              have hback' := Nat.div_mul_cancel ⟨count', hcount'⟩
              rw [Nat.add_zero] at hback'
              rw [hfront, hback'] at hback
              omega
          | succ more => exact offset_lt_digits more _ offsetText
      · obtain ⟨more, rfl⟩ := Nat.exists_eq_add_of_le hle
        rw [decimal_split hwidth, List.append_assoc]
        refine append_lt_append_of_lt (by simp [decimal]) ?_ _ _
        rw [decimal_fraction_lt_iff hwidth' hnano hnano',
          Nat.div_lt_iff_lt_mul (Nat.pow_pos (by decide)), Nat.div_mul_cancel ⟨count', hcount'⟩]
        exact hlt

theorem exact_neededWidth (nano : Nat) : Exact (neededWidth nano) nano := by
  simp only [neededWidth]
  split
  · next hzero =>
      rw [hzero]
      exact ⟨by decide, Nat.dvd_zero _⟩
  · split
    · next hmilli => exact ⟨by decide, Nat.dvd_of_mod_eq_zero hmilli⟩
    · split
      · next hmicro => exact ⟨by decide, Nat.dvd_of_mod_eq_zero hmicro⟩
      · exact ⟨by decide, Nat.one_dvd nano⟩

theorem exact_nine (nano : Nat) : Exact 9 nano := ⟨Nat.le_refl 9, Nat.one_dvd nano⟩

theorem nanoOf_lt (instant : DateTime) : nanoOf instant < 10 ^ 9 := by
  simp only [nanoOf]
  omega

theorem second_nano_lex {instant later : Int} (hlt : instant < later) :
    secondOf instant < secondOf later ∨
      secondOf instant = secondOf later ∧ nanoOf instant < nanoOf later := by
  simp only [secondOf, nanoOf]
  omega

/-- The two ways in which instants are written. -/
def IsRendering (instant : DateTime) (text : Text) : Prop :=
  text = toRfc3339 instant ∨ text = toSortableRfc3339 instant

theorem IsRendering.exact {instant : DateTime} {text : Text}
    (hrendering : IsRendering instant text) :
    ∃ width, Exact width (nanoOf instant) ∧ text = renderedWith width instant := by
  rcases hrendering with rfl | rfl
  · exact ⟨_, exact_neededWidth _, rfl⟩
  · exact ⟨_, exact_nine _, rfl⟩

/-- In whatever renderings, a later instant has the later text. -/
theorem IsRendering.lt {instant later : DateTime} {text text' : Text}
    (hrendering : IsRendering instant text) (hlater : IsRendering later text')
    (hyear : FourDigitYear instant) (hyear' : FourDigitYear later) (hlt : instant < later) :
    text < text' := by
  obtain ⟨width, hexact, rfl⟩ := hrendering.exact
  obtain ⟨width', hexact', rfl⟩ := hlater.exact
  have hlength := (length_secondText hyear.1 hyear.2).trans
    (length_secondText hyear'.1 hyear'.2).symm
  have hlex := second_nano_lex hlt
  rw [renderedWith, renderedWith, append_lt_append_iff hlength]
  rcases hlex with hsecond | ⟨hsecond, hnano⟩
  · exact Or.inl (secondText_lt hyear.1 hyear'.2 hsecond)
  · exact Or.inr ⟨by rw [hsecond], fraction_lt hexact hexact' (nanoOf_lt later) hnano⟩

theorem fractionText_lt_nine {width : Nat} (hwidth : width < 9) (nano : Nat) :
    fractionText width nano ++ offsetText < fractionText 9 nano ++ offsetText := by
  rw [fractionText, fractionText, if_neg (by decide : ¬ 9 = 0)]
  split
  · exact List.cons_lt_cons_iff.mpr (Or.inl (by decide))
  · obtain ⟨more, hmore⟩ := Nat.exists_eq_add_of_lt hwidth
    have hsplit := @decimal_split width (more + 1) (Nat.le_of_eq hmore.symm) nano
    rw [← Nat.add_assoc, ← hmore] at hsplit
    rw [List.cons_append, List.cons_append, List.cons_lt_cons_iff, hsplit, List.append_assoc,
      append_lt_append_left]
    exact Or.inr ⟨rfl, offset_lt_digits more _ offsetText⟩

/-- Of the renderings of one instant the sortable one is the last. -/
theorem toRfc3339_lt {instant : DateTime} (hne : toRfc3339 instant ≠ toSortableRfc3339 instant) :
    toRfc3339 instant < toSortableRfc3339 instant := by
  rcases Nat.lt_or_eq_of_le (exact_neededWidth (nanoOf instant)).1 with hlt | heq
  · exact append_lt_append_left.mpr (fractionText_lt_nine hlt (nanoOf instant))
  · exact absurd (congrArg (fun width => renderedWith width instant) heq) hne

theorem IsRendering.le {instant : DateTime} {text : Text} (hrendering : IsRendering instant text) :
    text ≤ toSortableRfc3339 instant := by
  rcases hrendering with rfl | rfl
  · by_cases heq : toRfc3339 instant = toSortableRfc3339 instant
    · exact le_of_eq heq
    · exact le_of_lt (toRfc3339_lt heq)
  · exact le_refl _

theorem toSortableRfc3339_lt_iff {instant later : DateTime} (hyear : FourDigitYear instant)
    (hyear' : FourDigitYear later) :
    toSortableRfc3339 instant < toSortableRfc3339 later ↔ instant < later := by
  constructor
  · intro hlt
    rcases Int.lt_trichotomy instant later with hinstant | rfl | hinstant
    · exact hinstant
    · exact absurd hlt (lt_irrefl _)
    · exact absurd hlt (IsRendering.lt (Or.inr rfl) (Or.inr rfl) hyear' hyear hinstant).asymm
  · exact IsRendering.lt (Or.inr rfl) (Or.inr rfl) hyear hyear'

theorem digitChar_ne_bar : ∀ value < 10, Nat.digitChar value ≠ '|' := by decide

theorem isDigit_digitChar : ∀ value < 10, (Nat.digitChar value).isDigit = true := by decide

theorem decimal_ne_bar {width number : Nat} {c : Char} (hmem : c ∈ decimal width number) :
    c ≠ '|' := by
  obtain ⟨value, hvalue, rfl⟩ := digits_mem Nat.digitChar 10 (by decide) hmem
  exact digitChar_ne_bar value hvalue

theorem mem_decimal {width number : Nat} {c : Char} (hmem : c ∈ decimal width number) :
    c.isDigit = true := by
  obtain ⟨value, hvalue, rfl⟩ := digits_mem Nat.digitChar 10 (by decide) hmem
  exact isDigit_digitChar value hvalue

/-- A year is written with digits and a sign. -/
theorem mem_yearText {year : Int} {c : Char} (hmem : c ∈ yearText year) :
    c.isDigit = true ∨ c = '-' ∨ c = '+' := by
  rw [yearText] at hmem
  split at hmem
  · exact .inl (mem_decimal hmem)
  · rcases List.mem_cons.mp hmem with hsign | hdigits
    · rw [hsign]
      split <;> decide
    · rcases List.mem_append.mp hdigits with hzero | hdigit
      · rw [List.eq_of_mem_replicate hzero]
        decide
      · exact .inl (Nat.isDigit_of_mem_toDigits (by decide) (by decide) hdigit)

theorem yearText_ne_bar {year : Int} {c : Char} (hmem : c ∈ yearText year) : c ≠ '|' := by
  rintro rfl
  exact absurd (mem_yearText hmem) (by decide)

theorem secondText_ne_bar {second : Int} {c : Char} (hmem : c ∈ secondText second) : c ≠ '|' := by
  rcases List.mem_append.mp hmem with hyear | hrest
  · exact yearText_ne_bar hyear
  · rcases List.mem_cons.mp hrest with rfl | hwithin
    · decide
    · exact layOut_forall (fun c => c ≠ '|') (by decide) digitChar_ne_bar (by simp [monthToSecond])
        hwithin

theorem fractionText_ne_bar {width nano : Nat} {c : Char} (hmem : c ∈ fractionText width nano) :
    c ≠ '|' := by
  rw [fractionText] at hmem
  split at hmem
  · exact absurd hmem List.not_mem_nil
  · rcases List.mem_cons.mp hmem with rfl | hdigits
    · decide
    · exact decimal_ne_bar hdigits

/-- A bar can stand after the text of an instant and be found again. -/
theorem toSortableRfc3339_ne_bar (instant : DateTime) : '|' ∉ toSortableRfc3339 instant := by
  intro hmem
  rcases List.mem_append.mp hmem with hsecond | hrest
  · exact secondText_ne_bar hsecond rfl
  · rcases List.mem_append.mp hrest with hfraction | hoffset
    · exact fractionText_ne_bar hfraction rfl
    · revert hoffset
      decide

theorem toSortableRfc3339_ne_nil (instant : DateTime) : toSortableRfc3339 instant ≠ [] := by
  simp [toSortableRfc3339, renderedWith, secondText]

example : toRfc3339 1500000000 = "1970-01-01T00:00:01.500+00:00".toList := by decide

example : toSortableRfc3339 68169600000000000 =
    "1972-02-29T00:00:00.000000000+00:00".toList := by decide

end Keeplin
