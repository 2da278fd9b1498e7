/-
The timestamps of calendars: a whole second as digits without separators.  What a
reader of digits makes of them is the instant they were written for.
-/
import Keeplin.Rfc3339
import Keeplin.TextCuts

namespace Keeplin

namespace Interop

def fromMonth : List (Nat × Text) := [(2, []), (2, ['T']), (2, []), (2, []), (2, ['Z'])]

def formatDt (instant : DateTime) : Text :=
  yearText (year (secondOf instant)) ++
    layOut Nat.digitChar 10 fromMonth (withinYear (secondOf instant))

def WholeSecond (instant : DateTime) : Prop := nanoOf instant = 0

instance (instant : DateTime) : Decidable (WholeSecond instant) :=
  inferInstanceAs (Decidable (_ = _))

/-- The parsers of the time library: each takes a text and a format. -/
structure Chrono where
  parseDateTime : Text → Text → Option DateTime
  /-- The day, counted from the epoch. -/
  parseDate : Text → Text → Option Int

def utcFormat : Text := "%Y%m%dT%H%M%SZ".toList

def floatingFormat : Text := "%Y%m%dT%H%M%S".toList

def dateFormat : Text := "%Y%m%d".toList

def parseDt (chrono : Chrono) (value : Text) : Option DateTime :=
  ([utcFormat, floatingFormat].findSome? fun format =>
      chrono.parseDateTime (trim value) format).or
    ((chrono.parseDate (trim value) dateFormat).map fun day => day * 86400 * 1000000000)

/-- The library reads the timestamps that it has written. -/
def Chrono.ParsesBack (chrono : Chrono) : Prop :=
  ∀ instant, WholeSecond instant → FourDigitYear instant →
    chrono.parseDateTime (formatDt instant) utcFormat = some instant

theorem isWhiteSpace_of_mem_formatDt {instant : DateTime} {c : Char} (hmem : c ∈ formatDt instant) :
    isWhiteSpace c = false := by
  have hdigits : ∀ value < 10, isWhiteSpace (Nat.digitChar value) = false := by decide
  rcases List.mem_append.mp hmem with hyear | hrest
  · rcases mem_yearText hyear with hdigit | rfl | rfl
    · simp only [Char.isDigit, Bool.and_eq_true, decide_eq_true_eq, ge_iff_le,
        UInt32.le_iff_toNat_le] at hdigit
      obtain ⟨hlow, hhigh⟩ := hdigit
      have hlow' : 48 ≤ c.toNat := hlow
      have hhigh' : c.toNat ≤ 57 := hhigh
      simp only [isWhiteSpace, List.mem_cons, List.not_mem_nil, or_false, Bool.or_eq_false_iff,
        Bool.and_eq_false_iff, decide_eq_false_iff_not]
      omega
    · decide
    · decide
  · exact layOut_forall (fun c => isWhiteSpace c = false) (by decide) hdigits
      (by simp [fromMonth, isWhiteSpace]) hrest

theorem feed_not_mem_formatDt (instant : DateTime) : '\n' ∉ formatDt instant :=
  fun hmem => absurd (isWhiteSpace_of_mem_formatDt hmem) (by decide)

theorem trim_of_forall {text : Text} (hvisible : ∀ c ∈ text, isWhiteSpace c = false) :
    trim text = text := by
  have hdrop : ∀ list : Text, (∀ c ∈ list, isWhiteSpace c = false) →
      list.dropWhile isWhiteSpace = list := by
    intro list hlist
    cases list with
    | nil => rfl
    | cons c rest => rw [List.dropWhile_cons_of_neg (by simp [hlist c List.mem_cons_self])]
  rw [trim, hdrop text hvisible,
    hdrop text.reverse fun c hc => hvisible c (List.mem_reverse.mp hc), List.reverse_reverse]

theorem parseDt_formatDt {chrono : Chrono} (hchrono : chrono.ParsesBack) {instant : DateTime}
    (hwhole : WholeSecond instant) (hyear : FourDigitYear instant) :
    parseDt chrono (formatDt instant) = some instant := by
  rw [parseDt, trim_of_forall fun c => isWhiteSpace_of_mem_formatDt, List.findSome?_cons,
    hchrono instant hwhole hyear]
  rfl

def digitValue (c : Char) : Nat := c.toNat - 48

def readDigits : Nat → Nat → Text → Option (Nat × Text)
  | 0, number, text => some (number, text)
  | _ + 1, _, [] => none
  | width + 1, number, c :: rest =>
      if c.isDigit then readDigits width (10 * number + digitValue c) rest else none

def readLayout : List (Nat × Text) → Text → Option (List Nat)
  | [], text => if text = [] then some [] else none
  | (width, after) :: layout, text =>
      (readDigits width 0 text).bind fun read =>
        (stripPrefix after read.2).bind fun rest =>
          (readLayout layout rest).map fun numbers => read.1 :: numbers

/-- The instant of a year, a month, a day, and hours, minutes and seconds. -/
def instantOf : List Nat → Option DateTime
  | [year, month, day, hour, minute, second] =>
      let days : Int := 146097 * (year / 400 : Nat) + daysBeforeYear (year % 400) +
        daysBeforeMonth (isLeapYear (year % 400)) (month - 1) + (day - 1 : Nat) - 719528
      some ((days * 86400 + (hour * 3600 + minute * 60 + second : Nat)) * 1000000000)
  | _ => none

def digitReader : Chrono where
  parseDateTime text format :=
    if format = utcFormat then (readLayout ((4, []) :: fromMonth) text).bind instantOf else none
  parseDate _ _ := none

theorem readDigits_append (width more number : Nat) (text : Text) :
    readDigits (width + more) number text =
      (readDigits width number text).bind fun read => readDigits more read.1 read.2 := by
  induction width generalizing number text with
  | zero => rw [Nat.zero_add]; rfl
  | succ width ih =>
      rw [Nat.add_right_comm]
      cases text with
      | nil => rfl
      | cons c rest =>
          rw [readDigits, readDigits]
          split
          · exact ih _ rest
          · rfl

theorem digitValue_digitChar : ∀ value < 10, digitValue (Nat.digitChar value) = value := by decide

theorem readDigits_decimal {width number : Nat} (hnumber : number < 10 ^ width) (rest : Text) :
    readDigits width 0 (decimal width number ++ rest) = some (number, rest) := by
  induction width generalizing number rest with
  | zero =>
      have hzero : number = 0 := by omega
      rw [hzero]
      rfl
  | succ width ih =>
      have hlast : number % 10 < 10 := Nat.mod_lt _ (by decide)
      have hfront : number / 10 < 10 ^ width := by
        rw [Nat.div_lt_iff_lt_mul (by decide), ← Nat.pow_succ]
        exact hnumber
      have hdigits : decimal (width + 1) number ++ rest =
          decimal width (number / 10) ++ (Nat.digitChar (number % 10) :: rest) := by
        rw [decimal, digits, List.append_assoc]
        rfl
      rw [hdigits, readDigits_append, ih hfront, Option.bind_some]
      simp only [readDigits, isDigit_digitChar _ hlast, if_true, digitValue_digitChar _ hlast]
      rw [Nat.div_add_mod]

theorem readLayout_layOut {layout : List (Nat × Text)} {numbers : List Nat}
    (hfits : Fits 10 layout numbers) :
    readLayout layout (layOut Nat.digitChar 10 layout numbers) = some numbers := by
  induction hfits with
  | nil => rfl
  | @cons slot number layout numbers hhead hrest ih =>
      obtain ⟨width, after⟩ := slot
      have hread := readDigits_decimal hhead (after ++ layOut Nat.digitChar 10 layout numbers)
      rw [decimal] at hread
      rw [layOut, readLayout, hread, Option.bind_some, stripPrefix_append, Option.bind_some, ih]
      rfl

theorem second_of_whole {instant : DateTime} (hwhole : WholeSecond instant) :
    secondOf instant * 1000000000 = instant := by
  have hnano : (instant % 1000000000 : Int).toNat = 0 := hwhole
  have hnonneg := Int.emod_nonneg instant (by decide : (1000000000 : Int) ≠ 0)
  exact Int.ediv_mul_cancel (Int.dvd_of_emod_eq_zero (by omega))

/-- The numbers that an instant is written with say which it is. -/
theorem instantOf_withinYear {instant : DateTime} (hwhole : WholeSecond instant)
    (hyear : FourDigitYear instant) :
    instantOf ((year (secondOf instant)).toNat :: withinYear (secondOf instant)) =
      some instant := by
  have hcycle := yearOfCycle_le (secondOf instant)
  have hnonneg : 0 ≤ daysSinceYear0 (secondOf instant) / 146097 := by
    have hlow := hyear.1
    rw [year] at hlow
    omega
  have hdiv : (year (secondOf instant)).toNat / 400 =
      (daysSinceYear0 (secondOf instant) / 146097).toNat := by
    rw [year]
    omega
  have hmod : (year (secondOf instant)).toNat % 400 = yearOfCycle (secondOf instant) := by
    rw [year]
    omega
  have hstart : daysBeforeYear (yearOfCycle (secondOf instant)) ≤ dayOfCycle (secondOf instant) :=
    start_lastStart_le (by decide)
  have hmonth : daysBeforeMonth (isLeapYear (yearOfCycle (secondOf instant)))
      (monthOfYear (secondOf instant)) ≤ dayOfYear (secondOf instant) :=
    start_lastStart_le (daysBeforeMonth_zero _)
  simp only [withinYear, parts, instantOf, hdiv, hmod, Nat.add_sub_cancel, Option.some.injEq]
  have hdays : (146097 * ((daysSinceYear0 (secondOf instant) / 146097).toNat : Int) +
      daysBeforeYear (yearOfCycle (secondOf instant)) +
      daysBeforeMonth (isLeapYear (yearOfCycle (secondOf instant)))
        (monthOfYear (secondOf instant)) + dayOfMonth (secondOf instant) - 719528) =
      secondOf instant / 86400 := by
    rw [dayOfMonth]
    simp only [dayOfYear, dayOfCycle, daysSinceYear0] at hstart hmonth hnonneg ⊢
    omega
  rw [hdays]
  have hsplit : secondOfDay (secondOf instant) / 3600 * 3600 +
      secondOfDay (secondOf instant) % 3600 / 60 * 60 +
        secondOfDay (secondOf instant) % 3600 % 60 = secondOfDay (secondOf instant) := by
    omega
  have hday : secondOf instant / 86400 * 86400 + (secondOfDay (secondOf instant) : Int) =
      secondOf instant := by
    simp only [secondOfDay]
    omega
  rw [hsplit, hday]
  exact second_of_whole hwhole

theorem digitReader_parsesBack : digitReader.ParsesBack := by
  intro instant hwhole hyear
  have hlow := hyear.1
  have hhigh := hyear.2
  have hfits : Fits 10 ((4, []) :: fromMonth)
      ((year (secondOf instant)).toNat :: withinYear (secondOf instant)) := by
    refine .cons (by simp only; omega) ?_
    have hwithin := fits_withinYear (secondOf instant)
    simp only [Fits, monthToSecond, fromMonth, withinYear, parts, List.forall₂_cons,
      List.forall₂_nil_left_iff] at hwithin ⊢
    exact hwithin
  have htext : formatDt instant = layOut Nat.digitChar 10 ((4, []) :: fromMonth)
      ((year (secondOf instant)).toNat :: withinYear (secondOf instant)) := by
    rw [formatDt, yearText, if_pos ⟨hlow, hhigh⟩]
    rfl
  rw [digitReader]
  simp only [if_true]
  rw [htext, readLayout_layOut hfits]
  exact instantOf_withinYear hwhole hyear

end Interop

end Keeplin
