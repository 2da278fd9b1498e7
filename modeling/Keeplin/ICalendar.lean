/-
Events and to-dos as iCalendar components.  Every write opens and closes a calendar of
its own; a reader takes the components of its kind out of whatever stands around them.
-/
import Keeplin.ContentProperties
import Keeplin.IcalTimes

namespace Keeplin

namespace Interop

structure CalendarEvent where
  uid : Text := []
  summary : Text := []
  start : Option DateTime := none
  endTime : Option DateTime := none
  location : Option Text := none
  description : Option Text := none
  extra : List Text := []
deriving DecidableEq, Repr

structure CalendarTodo where
  uid : Text := []
  summary : Text := []
  due : Option DateTime := none
  completed : Option DateTime := none
  description : Option Text := none
  extra : List Text := []
deriving DecidableEq, Repr

/-- What a write takes from outside: the time, and an id in case the uid is missing. -/
structure Stamp where
  now : DateTime
  newId : Text

def prodId : Text := "-//Keeplin//Keeplin//EN".toList

def calendarOpen : List Text :=
  [property "BEGIN" "VCALENDAR".toList, property "VERSION" "2.0".toList, property "PRODID" prodId]

def uidDtstamp (stamp : Stamp) (uid : Text) : List Text :=
  [textProperty "UID" (writtenUid stamp.newId uid), property "DTSTAMP" (formatDt stamp.now)]

/-- The lines of a calendar with one component. -/
def calendarLines (component : String) (inner : List Text) : List Text :=
  calendarOpen ++ (property "BEGIN" component.toList :: (inner ++
    [property "END" component.toList, property "END" "VCALENDAR".toList]))

def timeProperty (name : String) (instant : DateTime) : Text := property name (formatDt instant)

def CalendarEvent.innerLines (stamp : Stamp) (event : CalendarEvent) : List Text :=
  uidDtstamp stamp event.uid ++ [textProperty "SUMMARY" event.summary] ++
  (event.start.map (timeProperty "DTSTART")).toList ++
  (event.endTime.map (timeProperty "DTEND")).toList ++
  (event.location.map (textProperty "LOCATION")).toList ++
  (event.description.map (textProperty "DESCRIPTION")).toList ++
  event.extra

def completedLines (completed : Option DateTime) : List Text :=
  match completed with
  | none => []
  | some done =>
      [timeProperty "COMPLETED" done, property "STATUS" "COMPLETED".toList,
        property "PERCENT-COMPLETE" "100".toList]

def CalendarTodo.innerLines (stamp : Stamp) (todo : CalendarTodo) : List Text :=
  uidDtstamp stamp todo.uid ++ [textProperty "SUMMARY" todo.summary] ++
  (todo.due.map (timeProperty "DUE")).toList ++
  completedLines todo.completed ++
  (todo.description.map (textProperty "DESCRIPTION")).toList ++
  todo.extra

def CalendarEvent.toIcs (stamp : Stamp) (event : CalendarEvent) : Text :=
  (calendarLines "VEVENT" (event.innerLines stamp)).flatMap foldLine

def CalendarTodo.toIcs (stamp : Stamp) (todo : CalendarTodo) : Text :=
  (calendarLines "VTODO" (todo.innerLines stamp)).flatMap foldLine

/-- The lines of every component of a kind; `current` are those of the one that is open. -/
def splitComponents (kind : String) : Option (List Text) → List Text → List (List Text)
  | current, [] => current.toList
  | current, line :: rest =>
      match splitProp line with
      | none => splitComponents kind current rest
      | some (name, value) =>
          if name = "BEGIN".toList ∧ eqIgnoreAsciiCase value kind then
            splitComponents kind (some []) rest
          else if name = "END".toList ∧ eqIgnoreAsciiCase value kind then
            current.toList ++ splitComponents kind none rest
          else splitComponents kind (current.map (· ++ [line])) rest

def eventNames : List String :=
  ["UID", "SUMMARY", "DTSTART", "DTEND", "LOCATION", "DESCRIPTION", "DTSTAMP"]

def todoNames : List String :=
  ["UID", "SUMMARY", "DUE", "COMPLETED", "DESCRIPTION", "STATUS", "PERCENT-COMPLETE", "DTSTAMP"]

variable (chrono : Chrono)

def CalendarEvent.withProperty (event : CalendarEvent) (name value line : Text) : CalendarEvent :=
  if name = "UID".toList then { event with uid := unescapeText value }
  else if name = "SUMMARY".toList then { event with summary := unescapeText value }
  else if name = "DTSTART".toList then { event with start := parseDt chrono value }
  else if name = "DTEND".toList then { event with endTime := parseDt chrono value }
  else if name = "LOCATION".toList then { event with location := some (unescapeText value) }
  else if name = "DESCRIPTION".toList then { event with description := some (unescapeText value) }
  else if name = "DTSTAMP".toList then event
  else { event with extra := event.extra ++ [line] }

def CalendarTodo.withProperty (todo : CalendarTodo) (name value line : Text) : CalendarTodo :=
  if name = "UID".toList then { todo with uid := unescapeText value }
  else if name = "SUMMARY".toList then { todo with summary := unescapeText value }
  else if name = "DUE".toList then { todo with due := parseDt chrono value }
  else if name = "COMPLETED".toList then { todo with completed := parseDt chrono value }
  else if name = "DESCRIPTION".toList then { todo with description := some (unescapeText value) }
  else if name = "STATUS".toList ∨ name = "PERCENT-COMPLETE".toList ∨ name = "DTSTAMP".toList then
    todo
  else { todo with extra := todo.extra ++ [line] }

def CalendarEvent.fromIcsAll (input : Text) : List CalendarEvent :=
  (splitComponents "VEVENT" none (unfold input)).map fun lines =>
    lines.foldl (readLine (CalendarEvent.withProperty chrono)) {}

def CalendarTodo.fromIcsAll (input : Text) : List CalendarTodo :=
  (splitComponents "VTODO" none (unfold input)).map fun lines =>
    lines.foldl (readLine (CalendarTodo.withProperty chrono)) {}

def CalendarEvent.fromIcs (input : Text) : Option CalendarEvent :=
  (CalendarEvent.fromIcsAll chrono input).head?

section

variable {kind : String}

theorem isName_of_mem_calendar : ∀ name ∈ ["BEGIN", "END", "VERSION", "PRODID"] ++
    (eventNames ++ todoNames), IsName name := by
  intro name hmem
  simp only [eventNames, todoNames, List.cons_append, List.nil_append, List.mem_cons,
    List.not_mem_nil, or_false] at hmem
  rcases hmem with rfl | rfl | rfl | rfl | rfl | rfl | rfl | rfl | rfl | rfl | rfl | rfl | rfl |
      rfl | rfl | rfl | rfl | rfl | rfl <;>
    exact ⟨by decide, by decide, by decide, by decide, _, _, rfl, by decide⟩

theorem not_mark_of_mem_calendar : ∀ name ∈ ["VERSION", "PRODID"] ++ (eventNames ++ todoNames),
    name.toList ≠ "BEGIN".toList ∧ name.toList ≠ "END".toList := by
  decide

theorem isInner_calendar {name : String}
    (hname : name ∈ ["VERSION", "PRODID"] ++ (eventNames ++ todoNames)) (value : Text) :
    IsInner kind (property name value) := by
  obtain ⟨hbegin, hend⟩ := not_mark_of_mem_calendar name hname
  exact isInner_property (isName_of_mem_calendar name (List.mem_cons_of_mem _
    (List.mem_cons_of_mem _ hname))) hbegin hend value

theorem splitComponents_cons {line : Text} (hinner : IsInner kind line)
    (hsome : (splitProp line).isSome) (current : Option (List Text)) (rest : List Text) :
    splitComponents kind current (line :: rest) =
      splitComponents kind (current.map (· ++ [line])) rest := by
  obtain ⟨found, hsplit⟩ := Option.isSome_iff_exists.mp hsome
  obtain ⟨name, value⟩ := found
  have hmark := hinner name value hsplit
  have hbegin : ¬ (name = "BEGIN".toList ∧ eqIgnoreAsciiCase value kind = true) := by
    rintro ⟨hname, hvalue⟩
    rw [hmark (.inl hname)] at hvalue
    contradiction
  have hend : ¬ (name = "END".toList ∧ eqIgnoreAsciiCase value kind = true) := by
    rintro ⟨hname, hvalue⟩
    rw [hmark (.inr hname)] at hvalue
    contradiction
  rw [splitComponents]
  simp only [hsplit, if_neg hbegin, if_neg hend]

/-- A line that is read as a property but is none of the kind's own. -/
def Passes (kind : String) (line : Text) : Prop := IsInner kind line ∧ (splitProp line).isSome

theorem splitComponents_some {inner : List Text} (hinner : ∀ line ∈ inner, Passes kind line)
    (lines rest : List Text) :
    splitComponents kind (some lines) (inner ++ rest) =
      splitComponents kind (some (lines ++ inner)) rest := by
  induction inner generalizing lines with
  | nil => rw [List.nil_append, List.append_nil]
  | cons line inner ih =>
      obtain ⟨hline, hsome⟩ := hinner line List.mem_cons_self
      rw [List.cons_append, splitComponents_cons hline hsome, Option.map_some,
        ih fun other hmem => hinner other (List.mem_cons_of_mem line hmem), List.append_assoc]
      rfl

theorem splitComponents_none {inner : List Text} (hinner : ∀ line ∈ inner, Passes kind line)
    (rest : List Text) :
    splitComponents kind none (inner ++ rest) = splitComponents kind none rest := by
  induction inner with
  | nil => rfl
  | cons line inner ih =>
      obtain ⟨hline, hsome⟩ := hinner line List.mem_cons_self
      rw [List.cons_append, splitComponents_cons hline hsome, Option.map_none,
        ih fun other hmem => hinner other (List.mem_cons_of_mem line hmem)]

/-- A kind of component that a calendar can hold. -/
structure IsKind (kind : String) : Prop where
  other : eqIgnoreAsciiCase "VCALENDAR".toList kind = false
  feed : '\n' ∉ kind.toList

theorem passes_calendar {value : Text} (hvalue : eqIgnoreAsciiCase value kind = false) :
    ∀ mark ∈ ["BEGIN", "END"], Passes kind (property mark value) := by
  intro mark hmark
  have hname : IsName mark := isName_of_mem_calendar mark (by
    rcases List.mem_cons.mp hmark with rfl | hend
    · decide
    · rw [List.mem_singleton.mp hend]
      decide)
  refine ⟨fun name value' hsplit _ => ?_, by rw [splitProp_property hname]; rfl⟩
  rw [splitProp_property hname, Option.some.injEq, Prod.mk.injEq] at hsplit
  rw [← hsplit.2]
  exact hvalue

theorem passes_calendarOpen (hkind : IsKind kind) : ∀ line ∈ calendarOpen, Passes kind line := by
  intro line hmem
  simp only [calendarOpen, List.mem_cons, List.not_mem_nil, or_false] at hmem
  rcases hmem with rfl | rfl | rfl
  · exact passes_calendar hkind.other "BEGIN" (by decide)
  · exact ⟨isInner_calendar (by decide) _,
      by rw [splitProp_property (isName_of_mem_calendar _ (by decide))]; rfl⟩
  · exact ⟨isInner_calendar (by decide) _,
      by rw [splitProp_property (isName_of_mem_calendar _ (by decide))]; rfl⟩

/-- A calendar gives the lines of its component. -/
theorem splitComponents_calendarLines (hkind : IsKind kind) {inner : List Text}
    (hinner : ∀ line ∈ inner, Passes kind line) (rest : List Text) :
    splitComponents kind none (calendarLines kind inner ++ rest) =
      inner :: splitComponents kind none rest := by
  have hbegin : splitProp (property "BEGIN" kind.toList) = some ("BEGIN".toList, kind.toList) :=
    splitProp_property (isName_of_mem_calendar _ (by decide)) _
  have hend : splitProp (property "END" kind.toList) = some ("END".toList, kind.toList) :=
    splitProp_property (isName_of_mem_calendar _ (by decide)) _
  have hsame : eqIgnoreAsciiCase kind.toList kind = true := decide_eq_true rfl
  have hopened : ∀ more, splitComponents kind none (property "BEGIN" kind.toList :: more) =
      splitComponents kind (some []) more := by
    intro more
    rw [splitComponents]
    simp only [hbegin, hsame, and_self, if_true]
  have hclosed : ∀ more, splitComponents kind (some inner) (property "END" kind.toList :: more) =
      inner :: splitComponents kind none more := by
    intro more
    rw [splitComponents]
    simp only [hend, hsame]
    rw [if_neg (by decide), if_pos (by decide)]
    rfl
  have hafter : splitComponents kind none (property "END" "VCALENDAR".toList :: rest) =
      splitComponents kind none rest := by
    obtain ⟨hline, hsome⟩ := passes_calendar hkind.other "END" (by decide)
    exact splitComponents_cons hline hsome none rest
  rw [calendarLines, List.append_assoc, splitComponents_none (passes_calendarOpen hkind),
    List.cons_append, hopened, List.append_assoc, splitComponents_some hinner, List.nil_append]
  exact (hclosed _).trans (congrArg (inner :: ·) hafter)

theorem splitComponents_flatMap (hkind : IsKind kind) {inners : List (List Text)}
    (hinner : ∀ inner ∈ inners, ∀ line ∈ inner, Passes kind line) :
    splitComponents kind none (inners.flatMap (calendarLines kind)) = inners := by
  induction inners with
  | nil => rfl
  | cons inner inners ih =>
      rw [List.flatMap_cons, splitComponents_calendarLines hkind (hinner inner List.mem_cons_self),
        ih fun other hmem => hinner other (List.mem_cons_of_mem inner hmem)]

/-- An inner line of a component, as it is written. -/
structure IsWritten (kind : String) (line : Text) : Prop where
  content : ContentLines.IsContentLine line
  passes : Passes kind line

theorem isContentLine_calendarLines (hkind : IsKind kind) {inner : List Text}
    (hinner : ∀ line ∈ inner, IsWritten kind line) :
    ∀ line ∈ calendarLines kind inner, ContentLines.IsContentLine line := by
  intro line hmem
  simp only [calendarLines, calendarOpen, List.mem_append, List.mem_cons, List.not_mem_nil,
    or_false] at hmem
  rcases hmem with (rfl | rfl | rfl) | rfl | hline | rfl | rfl
  · exact isContentLine_property (isName_of_mem_calendar _ (by decide)) (by decide)
  · exact isContentLine_property (isName_of_mem_calendar _ (by decide)) (by decide)
  · exact isContentLine_property (isName_of_mem_calendar _ (by decide)) (by decide)
  · exact isContentLine_property (isName_of_mem_calendar _ (by decide)) hkind.feed
  · exact (hinner line hline).content
  · exact isContentLine_property (isName_of_mem_calendar _ (by decide)) hkind.feed
  · exact isContentLine_property (isName_of_mem_calendar _ (by decide)) (by decide)

/-- The components that were written, one calendar after another, are found again. -/
theorem splitComponents_written (hkind : IsKind kind) {inners : List (List Text)}
    (hinner : ∀ inner ∈ inners, ∀ line ∈ inner, IsWritten kind line) :
    splitComponents kind none
        (unfold (inners.flatMap fun inner => (calendarLines kind inner).flatMap foldLine)) =
      inners := by
  rw [← List.flatMap_assoc, unfold_foldLine, splitComponents_flatMap hkind]
  · exact fun inner hmem line hline => (hinner inner hmem line hline).passes
  · intro line hmem
    obtain ⟨inner, hmem, hline⟩ := List.mem_flatMap.mp hmem
    exact isContentLine_calendarLines hkind (hinner inner hmem) line hline

end

section

variable {kind : String}

theorem isWritten_calendar {name : String} (hname : name ∈ eventNames ++ todoNames) {value : Text}
    (hfeed : '\n' ∉ value) : IsWritten kind (property name value) := by
  have hother : name ∈ ["VERSION", "PRODID"] ++ (eventNames ++ todoNames) :=
    List.mem_append_right _ hname
  have hisName : IsName name := isName_of_mem_calendar name
    (List.mem_cons_of_mem _ (List.mem_cons_of_mem _ hother))
  exact ⟨isContentLine_property hisName hfeed, isInner_calendar hother value,
    by rw [splitProp_property hisName]; rfl⟩

theorem isWritten_text {name : String} (hname : name ∈ eventNames ++ todoNames) (text : Text) :
    IsWritten kind (textProperty name text) :=
  isWritten_calendar hname (feed_not_mem_escapeText text)

theorem isWritten_time {name : String} (hname : name ∈ eventNames ++ todoNames)
    (instant : DateTime) : IsWritten kind (timeProperty name instant) :=
  isWritten_calendar hname (feed_not_mem_formatDt instant)

theorem isWritten_extra {names : List String} {line : Text} (hextra : IsExtra names kind line) :
    IsWritten kind line := by
  obtain ⟨name, value, hsplit, -, -⟩ := hextra.other
  exact ⟨hextra.content, hextra.inner, by rw [hsplit]; rfl⟩

theorem isWritten_uidDtstamp (stamp : Stamp) (uid : Text) :
    ∀ line ∈ uidDtstamp stamp uid, IsWritten kind line := by
  intro line hmem
  simp only [uidDtstamp, List.mem_cons, List.not_mem_nil, or_false] at hmem
  rcases hmem with rfl | rfl
  · exact isWritten_text (by decide) _
  · exact isWritten_calendar (by decide) (feed_not_mem_formatDt _)

theorem CalendarEvent.isWritten {stamp : Stamp} {event : CalendarEvent}
    (hextra : ∀ line ∈ event.extra, IsExtra eventNames "VEVENT" line) :
    ∀ line ∈ event.innerLines stamp, IsWritten "VEVENT" line := by
  intro line hmem
  simp only [CalendarEvent.innerLines, List.mem_append, List.mem_singleton, Option.mem_toList,
    Option.map_eq_some_iff] at hmem
  rcases hmem with (((((huid | rfl) | hstart) | hend) | hlocation) | hdescription) | hline
  · exact isWritten_uidDtstamp stamp _ line huid
  · exact isWritten_text (by decide) _
  · obtain ⟨instant, -, rfl⟩ := hstart
    exact isWritten_time (by decide) _
  · obtain ⟨instant, -, rfl⟩ := hend
    exact isWritten_time (by decide) _
  · obtain ⟨text, -, rfl⟩ := hlocation
    exact isWritten_text (by decide) _
  · obtain ⟨text, -, rfl⟩ := hdescription
    exact isWritten_text (by decide) _
  · exact isWritten_extra (hextra line hline)

theorem isWritten_completedLines (completed : Option DateTime) :
    ∀ line ∈ completedLines completed, IsWritten kind line := by
  intro line hmem
  cases completed with
  | none => exact absurd hmem List.not_mem_nil
  | some done =>
      simp only [completedLines, List.mem_cons, List.not_mem_nil, or_false] at hmem
      rcases hmem with rfl | rfl | rfl
      · exact isWritten_time (by decide) _
      · exact isWritten_calendar (by decide) (by decide)
      · exact isWritten_calendar (by decide) (by decide)

theorem CalendarTodo.isWritten {stamp : Stamp} {todo : CalendarTodo}
    (hextra : ∀ line ∈ todo.extra, IsExtra todoNames "VTODO" line) :
    ∀ line ∈ todo.innerLines stamp, IsWritten "VTODO" line := by
  intro line hmem
  simp only [CalendarTodo.innerLines, List.mem_append, List.mem_singleton, Option.mem_toList,
    Option.map_eq_some_iff] at hmem
  rcases hmem with ((((huid | rfl) | hdue) | hcompleted) | hdescription) | hline
  · exact isWritten_uidDtstamp stamp _ line huid
  · exact isWritten_text (by decide) _
  · obtain ⟨instant, -, rfl⟩ := hdue
    exact isWritten_time (by decide) _
  · exact isWritten_completedLines _ line hcompleted
  · obtain ⟨text, -, rfl⟩ := hdescription
    exact isWritten_text (by decide) _
  · exact isWritten_extra (hextra line hline)

end

section

variable {chrono}

/-- A timestamp that calendars can write and read back. -/
def IsCalendarTime (instant : DateTime) : Prop := WholeSecond instant ∧ FourDigitYear instant

theorem readLine_eventProperty {name : String} (hname : name ∈ eventNames) (event : CalendarEvent)
    (value : Text) :
    readLine (CalendarEvent.withProperty chrono) event (property name value) =
      event.withProperty chrono name.toList value (property name value) :=
  readLine_property (isName_of_mem_calendar name (List.mem_append_right _
    (List.mem_append_left _ hname))) event value

theorem readLine_eventExtra {line : Text} (hextra : IsExtra eventNames "VEVENT" line)
    (event : CalendarEvent) :
    readLine (CalendarEvent.withProperty chrono) event line =
      { event with extra := event.extra ++ [line] } := by
  obtain ⟨name, value, hsplit, hother, -⟩ := hextra.other
  simp only [eventNames, List.mem_cons, List.not_mem_nil, or_false, forall_eq_or_imp,
    forall_eq] at hother
  obtain ⟨huid, hsummary, hstart, hend, hlocation, hdescription, hstamp⟩ := hother
  simp only [readLine, hsplit]
  rw [CalendarEvent.withProperty, if_neg huid, if_neg hsummary, if_neg hstart, if_neg hend,
    if_neg hlocation, if_neg hdescription, if_neg hstamp]

theorem foldl_eventExtra {lines : List Text}
    (hextra : ∀ line ∈ lines, IsExtra eventNames "VEVENT" line) (event : CalendarEvent) :
    lines.foldl (readLine (CalendarEvent.withProperty chrono)) event =
      { event with extra := event.extra ++ lines } := by
  rw [← List.map_id lines]
  refine foldl_each (fun event lines => { event with extra := event.extra ++ lines.map id })
    (fun event => by simp) (fun event line hmem rest => ?_) event
  rw [id, readLine_eventExtra (hextra line hmem)]
  simp

theorem readLine_todoProperty {name : String} (hname : name ∈ todoNames) (todo : CalendarTodo)
    (value : Text) :
    readLine (CalendarTodo.withProperty chrono) todo (property name value) =
      todo.withProperty chrono name.toList value (property name value) :=
  readLine_property (isName_of_mem_calendar name (List.mem_append_right _
    (List.mem_append_right _ hname))) todo value

theorem readLine_todoExtra {line : Text} (hextra : IsExtra todoNames "VTODO" line)
    (todo : CalendarTodo) :
    readLine (CalendarTodo.withProperty chrono) todo line =
      { todo with extra := todo.extra ++ [line] } := by
  obtain ⟨name, value, hsplit, hother, -⟩ := hextra.other
  simp only [todoNames, List.mem_cons, List.not_mem_nil, or_false, forall_eq_or_imp,
    forall_eq] at hother
  obtain ⟨huid, hsummary, hdue, hcompleted, hdescription, hstatus, hpercent, hstamp⟩ := hother
  simp only [readLine, hsplit]
  rw [CalendarTodo.withProperty, if_neg huid, if_neg hsummary, if_neg hdue, if_neg hcompleted,
    if_neg hdescription, if_neg (not_or.mpr ⟨hstatus, not_or.mpr ⟨hpercent, hstamp⟩⟩)]

theorem foldl_todoExtra {lines : List Text}
    (hextra : ∀ line ∈ lines, IsExtra todoNames "VTODO" line) (todo : CalendarTodo) :
    lines.foldl (readLine (CalendarTodo.withProperty chrono)) todo =
      { todo with extra := todo.extra ++ lines } := by
  rw [← List.map_id lines]
  refine foldl_each (fun todo lines => { todo with extra := todo.extra ++ lines.map id })
    (fun todo => by simp) (fun todo line hmem rest => ?_) todo
  rw [id, readLine_todoExtra (hextra line hmem)]
  simp

end

def CalendarEvent.texts (event : CalendarEvent) : List Text :=
  event.uid :: event.summary :: (event.location.toList ++ event.description.toList)

def CalendarEvent.times (event : CalendarEvent) : List DateTime :=
  event.start.toList ++ event.endTime.toList

structure CalendarEvent.WellFormed (event : CalendarEvent) : Prop where
  uid : event.uid ≠ []
  texts : ∀ text ∈ event.texts, '\r' ∉ text
  times : ∀ instant ∈ event.times, IsCalendarTime instant
  extra : ∀ line ∈ event.extra, IsExtra eventNames "VEVENT" line

def CalendarTodo.texts (todo : CalendarTodo) : List Text :=
  todo.uid :: todo.summary :: todo.description.toList

def CalendarTodo.times (todo : CalendarTodo) : List DateTime :=
  todo.due.toList ++ todo.completed.toList

structure CalendarTodo.WellFormed (todo : CalendarTodo) : Prop where
  uid : todo.uid ≠ []
  texts : ∀ text ∈ todo.texts, '\r' ∉ text
  times : ∀ instant ∈ todo.times, IsCalendarTime instant
  extra : ∀ line ∈ todo.extra, IsExtra todoNames "VTODO" line

variable {chrono}

/-- The line of an instant, where there is one, fills the field that was empty. -/
theorem foldl_optionalTime {C : Type} {withProperty : C → Text → Text → Text → C}
    (hchrono : chrono.ParsesBack) {name : String} {instant : Option DateTime} {component : C}
    (fill : C → Option DateTime → C) (htime : ∀ found, instant = some found → IsCalendarTime found)
    (hread : ∀ value, readLine withProperty component (property name value) =
      fill component (parseDt chrono value))
    (hempty : fill component none = component) :
    (instant.map (timeProperty name)).toList.foldl (readLine withProperty) component =
      fill component instant := by
  refine foldl_optional (fun found hfound => ?_) (fun hnone => ?_)
  · obtain ⟨hwhole, hyear⟩ := htime found hfound
    rw [timeProperty, hread, parseDt_formatDt hchrono hwhole hyear, hfound]
  · rw [hnone, hempty]

theorem CalendarEvent.foldl_innerLines (hchrono : chrono.ParsesBack) {stamp : Stamp}
    {event : CalendarEvent} (hwell : event.WellFormed) :
    (event.innerLines stamp).foldl (readLine (CalendarEvent.withProperty chrono)) {} = event := by
  have hreturn := hwell.texts
  have htimes := hwell.times
  simp only [CalendarEvent.texts, CalendarEvent.times, List.mem_cons, List.mem_append,
    Option.mem_toList, or_imp, forall_and, forall_eq] at hreturn htimes
  obtain ⟨huid, hsummary, hlocation, hdescription⟩ := hreturn
  have hhead : (uidDtstamp stamp event.uid ++ [textProperty "SUMMARY" event.summary]).foldl
      (readLine (CalendarEvent.withProperty chrono)) {} =
        { uid := event.uid, summary := event.summary } := by
    rw [uidDtstamp, writtenUid, if_neg hwell.uid]
    simp only [List.cons_append, List.nil_append, List.foldl_cons, List.foldl_nil, textProperty]
    rw [readLine_eventProperty (by decide), readLine_eventProperty (by decide),
      readLine_eventProperty (by decide)]
    simp [CalendarEvent.withProperty, unescapeText_escapeText huid,
      unescapeText_escapeText hsummary]
  have hstart : ∀ item : CalendarEvent, item.start = none →
      (event.start.map (timeProperty "DTSTART")).toList.foldl
        (readLine (CalendarEvent.withProperty chrono)) item =
          { item with start := event.start } := by
    intro item hnone
    refine foldl_optionalTime hchrono (fun (item : CalendarEvent) instant =>
      { item with start := instant }) htimes.1 ?_ (by rw [← hnone])
    intro value
    rw [readLine_eventProperty (by decide)]
    rfl
  have hend : ∀ item : CalendarEvent, item.endTime = none →
      (event.endTime.map (timeProperty "DTEND")).toList.foldl
        (readLine (CalendarEvent.withProperty chrono)) item =
          { item with endTime := event.endTime } := by
    intro item hnone
    refine foldl_optionalTime hchrono (fun (item : CalendarEvent) instant =>
      { item with endTime := instant }) htimes.2 ?_ (by rw [← hnone])
    intro value
    rw [readLine_eventProperty (by decide)]
    rfl
  have hplace : ∀ item : CalendarEvent, item.location = none →
      (event.location.map (textProperty "LOCATION")).toList.foldl
        (readLine (CalendarEvent.withProperty chrono)) item =
          { item with location := event.location } := by
    intro item hnone
    refine foldl_optionalText (fun (item : CalendarEvent) text =>
      { item with location := text }) hlocation ?_ (by rw [← hnone])
    intro value
    rw [readLine_eventProperty (by decide)]
    rfl
  have hwords : ∀ item : CalendarEvent, item.description = none →
      (event.description.map (textProperty "DESCRIPTION")).toList.foldl
        (readLine (CalendarEvent.withProperty chrono)) item =
          { item with description := event.description } := by
    intro item hnone
    refine foldl_optionalText (fun (item : CalendarEvent) text =>
      { item with description := text }) hdescription ?_ (by rw [← hnone])
    intro value
    rw [readLine_eventProperty (by decide)]
    rfl
  rw [CalendarEvent.innerLines]
  simp only [List.foldl_append] at hhead ⊢
  rw [hhead, hstart _ rfl, hend _ rfl, hplace _ rfl, hwords _ rfl, foldl_eventExtra hwell.extra]
  rfl

theorem CalendarTodo.foldl_innerLines (hchrono : chrono.ParsesBack) {stamp : Stamp}
    {todo : CalendarTodo} (hwell : todo.WellFormed) :
    (todo.innerLines stamp).foldl (readLine (CalendarTodo.withProperty chrono)) {} = todo := by
  have hreturn := hwell.texts
  have htimes := hwell.times
  simp only [CalendarTodo.texts, CalendarTodo.times, List.mem_cons, List.mem_append,
    Option.mem_toList, or_imp, forall_and, forall_eq] at hreturn htimes
  obtain ⟨huid, hsummary, hdescription⟩ := hreturn
  have hhead : (uidDtstamp stamp todo.uid ++ [textProperty "SUMMARY" todo.summary]).foldl
      (readLine (CalendarTodo.withProperty chrono)) {} =
        { uid := todo.uid, summary := todo.summary } := by
    rw [uidDtstamp, writtenUid, if_neg hwell.uid]
    simp only [List.cons_append, List.nil_append, List.foldl_cons, List.foldl_nil, textProperty]
    rw [readLine_todoProperty (by decide), readLine_todoProperty (by decide),
      readLine_todoProperty (by decide)]
    simp [CalendarTodo.withProperty, unescapeText_escapeText huid, unescapeText_escapeText hsummary]
  have hdue : ∀ item : CalendarTodo, item.due = none →
      (todo.due.map (timeProperty "DUE")).toList.foldl
        (readLine (CalendarTodo.withProperty chrono)) item = { item with due := todo.due } := by
    intro item hnone
    refine foldl_optionalTime hchrono (fun (item : CalendarTodo) instant =>
      { item with due := instant }) htimes.1 ?_ (by rw [← hnone])
    intro value
    rw [readLine_todoProperty (by decide)]
    rfl
  have hcompleted : ∀ item : CalendarTodo, item.completed = none →
      (completedLines todo.completed).foldl (readLine (CalendarTodo.withProperty chrono)) item =
        { item with completed := todo.completed } := by
    intro item hnone
    cases hdone : todo.completed with
    | none =>
        show item = { item with completed := none }
        rw [← hnone]
    | some done =>
        obtain ⟨hwhole, hyear⟩ := htimes.2 done hdone
        simp only [completedLines, List.foldl_cons, List.foldl_nil, timeProperty]
        rw [readLine_todoProperty (by decide), readLine_todoProperty (by decide),
          readLine_todoProperty (by decide)]
        simp [CalendarTodo.withProperty, parseDt_formatDt hchrono hwhole hyear]
  have hwords : ∀ item : CalendarTodo, item.description = none →
      (todo.description.map (textProperty "DESCRIPTION")).toList.foldl
        (readLine (CalendarTodo.withProperty chrono)) item =
          { item with description := todo.description } := by
    intro item hnone
    refine foldl_optionalText (fun (item : CalendarTodo) text =>
      { item with description := text }) hdescription ?_ (by rw [← hnone])
    intro value
    rw [readLine_todoProperty (by decide)]
    rfl
  rw [CalendarTodo.innerLines]
  simp only [List.foldl_append] at hhead ⊢
  rw [hhead, hdue _ rfl, hcompleted _ rfl, hwords _ rfl, foldl_todoExtra hwell.extra]
  rfl

theorem CalendarEvent.fromIcsAll_written (hchrono : chrono.ParsesBack)
    {written : List (Stamp × CalendarEvent)} (hwell : ∀ item ∈ written, item.2.WellFormed) :
    CalendarEvent.fromIcsAll chrono (written.flatMap fun item => item.2.toIcs item.1) =
      written.map Prod.snd := by
  have hinner : ∀ inner ∈ written.map fun item => item.2.innerLines item.1,
      ∀ line ∈ inner, IsWritten "VEVENT" line := by
    intro inner hmem
    obtain ⟨item, hitem, rfl⟩ := List.mem_map.mp hmem
    exact CalendarEvent.isWritten (hwell item hitem).extra
  have hsplit := splitComponents_written ⟨by decide, by decide⟩ hinner
  rw [List.flatMap_map] at hsplit
  rw [CalendarEvent.fromIcsAll]
  simp only [CalendarEvent.toIcs]
  rw [hsplit, List.map_map]
  refine List.map_congr_left fun item hitem => ?_
  rw [Function.comp_apply, CalendarEvent.foldl_innerLines hchrono (hwell item hitem)]

theorem CalendarTodo.fromIcsAll_written (hchrono : chrono.ParsesBack)
    {written : List (Stamp × CalendarTodo)} (hwell : ∀ item ∈ written, item.2.WellFormed) :
    CalendarTodo.fromIcsAll chrono (written.flatMap fun item => item.2.toIcs item.1) =
      written.map Prod.snd := by
  have hinner : ∀ inner ∈ written.map fun item => item.2.innerLines item.1,
      ∀ line ∈ inner, IsWritten "VTODO" line := by
    intro inner hmem
    obtain ⟨item, hitem, rfl⟩ := List.mem_map.mp hmem
    exact CalendarTodo.isWritten (hwell item hitem).extra
  have hsplit := splitComponents_written ⟨by decide, by decide⟩ hinner
  rw [List.flatMap_map] at hsplit
  rw [CalendarTodo.fromIcsAll]
  simp only [CalendarTodo.toIcs]
  rw [hsplit, List.map_map]
  refine List.map_congr_left fun item hitem => ?_
  rw [Function.comp_apply, CalendarTodo.foldl_innerLines hchrono (hwell item hitem)]

/-- Events, and to-dos, that were written one after another are read back in their order. -/
theorem fromIcsAll_flatMap_toIcs (hchrono : chrono.ParsesBack) :
    (∀ events : List (Stamp × CalendarEvent), (∀ item ∈ events, item.2.WellFormed) →
      CalendarEvent.fromIcsAll chrono (events.flatMap fun item => item.2.toIcs item.1) =
        events.map Prod.snd) ∧
    (∀ todos : List (Stamp × CalendarTodo), (∀ item ∈ todos, item.2.WellFormed) →
      CalendarTodo.fromIcsAll chrono (todos.flatMap fun item => item.2.toIcs item.1) =
        todos.map Prod.snd) :=
  ⟨fun _ => CalendarEvent.fromIcsAll_written hchrono,
    fun _ => CalendarTodo.fromIcsAll_written hchrono⟩

namespace ICalendarWitness

def stamp : Stamp := { now := 1, newId := "new".toList }

/-- 1999-12-31T23:59:59Z. -/
def lastSecond : DateTime := 946684799 * 1000000000

def event : CalendarEvent :=
  { uid := "evt;1".toList, summary := "Launch, at\nlast".toList, start := some lastSecond,
    location := some "Pad 39A".toList,
    extra := ["X-CUSTOM;A=b:kept".toList, "BEGIN:VALARM".toList] }

def todo : CalendarTodo :=
  { uid := "td-1".toList, summary := "Ship it".toList, completed := some lastSecond }

theorem isExtra_custom : IsExtra eventNames "VEVENT" "X-CUSTOM;A=b:kept".toList where
  content := ⟨by decide, by rintro c ⟨⟩; rfl⟩
  other := ⟨"X-CUSTOM".toList, "kept".toList, by decide, by decide, by decide⟩

theorem isExtra_alarm : IsExtra eventNames "VEVENT" "BEGIN:VALARM".toList where
  content := ⟨by decide, by rintro c ⟨⟩; rfl⟩
  other := ⟨"BEGIN".toList, "VALARM".toList, by decide, by decide, by decide⟩

theorem wellFormed_event : event.WellFormed where
  uid := by decide
  texts := by decide
  times := by
    intro instant hmem
    rw [List.mem_singleton.mp hmem]
    exact ⟨by decide, by decide⟩
  extra := by
    intro line hmem
    rcases List.mem_cons.mp hmem with rfl | hrest
    · exact isExtra_custom
    · rw [List.mem_singleton.mp hrest]
      exact isExtra_alarm

theorem wellFormed_todo : todo.WellFormed where
  uid := by decide
  texts := by decide
  times := by
    intro instant hmem
    rw [List.mem_singleton.mp hmem]
    exact ⟨by decide, by decide⟩
  extra := fun line hmem => absurd hmem List.not_mem_nil

theorem fromIcsAll_both :
    CalendarEvent.fromIcsAll digitReader (event.toIcs stamp ++ event.toIcs stamp) = [event, event] ∧
    CalendarTodo.fromIcsAll digitReader (todo.toIcs stamp) = [todo] := by
  obtain ⟨hevents, htodos⟩ := fromIcsAll_flatMap_toIcs digitReader_parsesBack
  have htwice := hevents [(stamp, event), (stamp, event)] fun item hmem => by
    rcases List.mem_cons.mp hmem with rfl | hrest
    · exact wellFormed_event
    · rw [List.mem_singleton.mp hrest]
      exact wellFormed_event
  have honce := htodos [(stamp, todo)] fun item hmem => by
    rw [List.mem_singleton.mp hmem]
    exact wellFormed_todo
  simp only [List.flatMap_cons, List.flatMap_nil, List.append_nil] at htwice honce
  exact ⟨htwice, honce⟩

end ICalendarWitness

end Interop

end Keeplin
