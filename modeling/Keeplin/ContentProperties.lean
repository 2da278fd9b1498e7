/-
Properties on content lines: a name, a colon and a value.  The text of a value is
escaped, so that it stays on its line and no separator in it is taken for one.
-/
import Keeplin.ContentLines
import Keeplin.JournalTail
import Keeplin.TextCuts

namespace Keeplin

namespace Interop

/-- No physical line has more octets. -/
def lineLimit : Nat := 75

def foldLine (line : Text) : Text := ContentLines.ended (ContentLines.foldLine lineLimit line)

def unfold (input : Text) : List Text := ContentLines.unfold input

theorem flatMap_foldLine (lines : List Text) :
    lines.flatMap foldLine =
      ContentLines.ended (lines.flatMap (ContentLines.foldLine lineLimit)) := by
  rw [ContentLines.ended, List.flatMap_assoc]
  rfl

theorem unfold_foldLine {lines : List Text}
    (hlines : ∀ line ∈ lines, ContentLines.IsContentLine line) :
    unfold (lines.flatMap foldLine) = lines := by
  rw [flatMap_foldLine]
  exact ContentLines.unfold_ended (by decide) hlines

def escapeChar (c : Char) : Text :=
  if c = '\\' then ['\\', '\\']
  else if c = ',' then ['\\', ',']
  else if c = ';' then ['\\', ';']
  else if c = '\n' then ['\\', 'n']
  else if c = '\r' then []
  else [c]

def escapeText (text : Text) : Text := text.flatMap escapeChar

def unescapeText : Text → Text
  | [] => []
  | c :: rest =>
      if c = '\\' then
        match rest with
        | [] => ['\\']
        | other :: more => (if other = 'n' ∨ other = 'N' then '\n' else other) :: unescapeText more
      else c :: unescapeText rest

@[simp] theorem escapeText_cons (c : Char) (rest : Text) :
    escapeText (c :: rest) = escapeChar c ++ escapeText rest :=
  List.flatMap_cons

@[simp] theorem escapeText_append (front back : Text) :
    escapeText (front ++ back) = escapeText front ++ escapeText back :=
  List.flatMap_append

theorem unescapeText_cons {c : Char} (hbackslash : c ≠ '\\') (rest : Text) :
    unescapeText (c :: rest) = c :: unescapeText rest := by
  cases rest with
  | nil => simp [unescapeText, hbackslash]
  | cons other more => rw [unescapeText, if_neg hbackslash]

theorem unescapeText_escapeChar {c : Char} (hreturn : c ≠ '\r') (rest : Text) :
    unescapeText (escapeChar c ++ rest) = c :: unescapeText rest := by
  rw [escapeChar]
  split
  · next hc => simp [hc, unescapeText]
  · next hbackslash =>
      split
      · next hc => simp [hc, unescapeText]
      · split
        · next hc => simp [hc, unescapeText]
        · split
          · next hc => simp [hc, unescapeText]
          · exact unescapeText_cons hbackslash rest

/-- Escaped text without a carriage return is read back, whatever comes after it. -/
theorem unescapeText_append {text : Text} (hreturn : '\r' ∉ text) (rest : Text) :
    unescapeText (escapeText text ++ rest) = text ++ unescapeText rest := by
  induction text with
  | nil => rfl
  | cons c text ih =>
      obtain ⟨hc, htext⟩ := not_or.mp (List.mem_cons.not.mp hreturn)
      rw [escapeText_cons, List.append_assoc, unescapeText_escapeChar (Ne.symm hc), ih htext]
      rfl

theorem unescapeText_escapeText {text : Text} (hreturn : '\r' ∉ text) :
    unescapeText (escapeText text) = text := by
  have happend := unescapeText_append hreturn []
  rwa [List.append_nil, unescapeText, List.append_nil] at happend

theorem mem_escapeChar {c d : Char} (hmem : d ∈ escapeChar c) :
    d ≠ '\n' ∧ (d = ';' → c = ';') := by
  rw [escapeChar] at hmem
  split at hmem
  · simp only [List.mem_cons, List.not_mem_nil, or_false, or_self] at hmem
    simp [hmem]
  · split at hmem
    · simp only [List.mem_cons, List.not_mem_nil, or_false] at hmem
      rcases hmem with hd | hd <;> simp [hd]
    · split at hmem
      · next hc =>
          simp only [List.mem_cons, List.not_mem_nil, or_false] at hmem
          rcases hmem with hd | hd <;> simp [hd, hc]
      · split at hmem
        · simp only [List.mem_cons, List.not_mem_nil, or_false] at hmem
          rcases hmem with hd | hd <;> simp [hd]
        · next hfeed =>
            split at hmem
            · exact absurd hmem List.not_mem_nil
            · rw [List.mem_singleton.mp hmem]
              exact ⟨hfeed, id⟩

theorem feed_not_mem_escapeText (text : Text) : '\n' ∉ escapeText text := by
  intro hmem
  obtain ⟨c, -, hfeed⟩ := List.mem_flatMap.mp hmem
  exact (mem_escapeChar hfeed).1 rfl

theorem semicolon_not_mem_escapeText {text : Text} (hsemicolon : ';' ∉ text) :
    ';' ∉ escapeText text := by
  intro hmem
  obtain ⟨c, hc, hescaped⟩ := List.mem_flatMap.mp hmem
  exact hsemicolon ((mem_escapeChar hescaped).2 rfl ▸ hc)

def beforeFirst (separator : Char) (text : Text) : Text :=
  ((splitFirst separator text).map Prod.fst).getD text

theorem beforeFirst_append {separator : Char} {front : Text} (hfront : separator ∉ front)
    (back : Text) : beforeFirst separator (front ++ separator :: back) = front := by
  rw [beforeFirst, splitFirst_append hfront]
  rfl

theorem beforeFirst_of_not_mem {separator : Char} {text : Text} (hmem : separator ∉ text) :
    beforeFirst separator text = text := by
  rw [beforeFirst, splitFirst_eq_none.mpr hmem]
  rfl

/-- A part that is cut at the first semicolon is read back when it has none: an escaped
semicolon is taken for the end of the part. -/
theorem unescapeText_beforeFirst_iff {part : Text} (hreturn : '\r' ∉ part) (rest : Text) :
    unescapeText (beforeFirst ';' (escapeText part ++ ';' :: rest)) = part ↔ ';' ∉ part := by
  constructor
  · intro hread hmem
    obtain ⟨front, back, rfl, hfront⟩ := List.eq_append_cons_of_mem hmem
    have hescaped : escapeText (front ++ ';' :: back) ++ ';' :: rest =
        (escapeText front ++ ['\\']) ++ ';' :: (escapeText back ++ ';' :: rest) := by
      simp [escapeChar]
    have hcut : ';' ∉ escapeText front ++ ['\\'] := by
      rw [List.mem_append, not_or]
      exact ⟨semicolon_not_mem_escapeText hfront, by decide⟩
    have hback : '\r' ∉ front := fun hin => hreturn (List.mem_append_left _ hin)
    rw [hescaped, beforeFirst_append hcut, unescapeText_append hback,
      List.append_cancel_left_eq] at hread
    exact absurd (List.cons.inj hread).1 (by decide)
  · intro hpart
    rw [beforeFirst_append (semicolon_not_mem_escapeText hpart), unescapeText_escapeText hreturn]

def property (name : String) (value : Text) : Text := name.toList ++ ':' :: value

/-- The name of a property without its parameters, in capitals, and its value. -/
def splitProp (line : Text) : Option (Text × Text) :=
  (splitFirst ':' line).map fun found => ((beforeFirst ';' found.1).map Char.toUpper, found.2)

def eqIgnoreAsciiCase (text : Text) (word : String) : Bool :=
  text.map Char.toLower = word.toList.map Char.toLower

/-- A name as the codecs write it. -/
structure IsName (name : String) : Prop where
  colon : ':' ∉ name.toList
  semicolon : ';' ∉ name.toList
  feed : '\n' ∉ name.toList
  upper : name.toList.map Char.toUpper = name.toList
  starts : ∃ c rest, name.toList = c :: rest ∧ ContentLines.isFold c = false

theorem splitProp_property {name : String} (hname : IsName name) (value : Text) :
    splitProp (property name value) = some (name.toList, value) := by
  rw [splitProp, property, splitFirst_append hname.colon, Option.map_some,
    beforeFirst_of_not_mem hname.semicolon, hname.upper]

theorem isContentLine_property {name : String} (hname : IsName name) {value : Text}
    (hfeed : '\n' ∉ value) : ContentLines.IsContentLine (property name value) := by
  refine ⟨?_, fun c hc => ?_⟩
  · rw [property, List.mem_append, List.mem_cons, not_or, not_or]
    exact ⟨hname.feed, by decide, hfeed⟩
  · obtain ⟨first, rest, hlist, hfold⟩ := hname.starts
    rw [property, hlist] at hc
    rw [← Option.some.inj hc]
    exact hfold

def textProperty (name : String) (text : Text) : Text := property name (escapeText text)

/-- A component without a uid is written with a new one. -/
def writtenUid (newId uid : Text) : Text := if uid = [] then newId else uid

/-- The line neither opens nor closes a component of this kind. -/
def IsInner (component : String) (line : Text) : Prop :=
  ∀ name value, splitProp line = some (name, value) →
    (name = "BEGIN".toList ∨ name = "END".toList) → eqIgnoreAsciiCase value component = false

/-- A property line that the reader of a component passes on. -/
structure IsExtra (names : List String) (component : String) (line : Text) : Prop where
  content : ContentLines.IsContentLine line
  other : ∃ name value, splitProp line = some (name, value) ∧
    (∀ known ∈ names, name ≠ known.toList) ∧
    ((name = "BEGIN".toList ∨ name = "END".toList) → eqIgnoreAsciiCase value component = false)

theorem IsExtra.inner {names : List String} {component : String} {line : Text}
    (hextra : IsExtra names component line) : IsInner component line := by
  intro name value hsplit hmark
  obtain ⟨name', value', hsplit', -, hother⟩ := hextra.other
  rw [hsplit, Option.some.injEq, Prod.mk.injEq] at hsplit'
  obtain ⟨rfl, rfl⟩ := hsplit'
  exact hother hmark

theorem isInner_property {name component : String} (hname : IsName name)
    (hbegin : name.toList ≠ "BEGIN".toList) (hend : name.toList ≠ "END".toList) (value : Text) :
    IsInner component (property name value) := by
  intro found value' hsplit hmark
  rw [splitProp_property hname, Option.some.injEq, Prod.mk.injEq] at hsplit
  obtain ⟨rfl, rfl⟩ := hsplit
  rcases hmark with hfound | hfound
  · exact absurd hfound hbegin
  · exact absurd hfound hend

section

variable {C A : Type} {withProperty : C → Text → Text → Text → C}

/-- What a line adds to the component, by its name, its value and the whole line. -/
def readLine (withProperty : C → Text → Text → Text → C) (component : C) (line : Text) : C :=
  match splitProp line with
  | none => component
  | some (name, value) => withProperty component name value line

theorem readLine_property {name : String} (hname : IsName name) (component : C) (value : Text) :
    readLine withProperty component (property name value) =
      withProperty component name.toList value (property name value) := by
  rw [readLine, splitProp_property hname]

/-- Lines of one kind, read one after the other, add up. -/
theorem foldl_each {write : A → Text} {items : List A} (add : C → List A → C)
    (hnil : ∀ component, add component [] = component)
    (hcons : ∀ component, ∀ item ∈ items, ∀ rest,
      add (readLine withProperty component (write item)) rest = add component (item :: rest))
    (component : C) :
    (items.map write).foldl (readLine withProperty) component = add component items := by
  induction items generalizing component with
  | nil => exact (hnil component).symm
  | cons item items ih =>
      rw [List.map_cons, List.foldl_cons,
        ih fun component other hmem => hcons component other (List.mem_cons_of_mem item hmem),
        hcons component item List.mem_cons_self]

theorem foldl_optional {write : A → Text} {item : Option A} {component result : C}
    (hsome : ∀ value, item = some value →
      readLine withProperty component (write value) = result)
    (hnone : item = none → component = result) :
    (item.map write).toList.foldl (readLine withProperty) component = result := by
  cases item with
  | none => exact hnone rfl
  | some value => exact hsome value rfl

/-- The line of a text, where there is one, fills the field that was empty. -/
theorem foldl_optionalText {name : String} {text : Option Text} {component : C}
    (fill : C → Option Text → C) (hreturn : ∀ found ∈ text, '\r' ∉ found)
    (hread : ∀ value, readLine withProperty component (property name value) =
      fill component (some (unescapeText value)))
    (hempty : fill component none = component) :
    (text.map (textProperty name)).toList.foldl (readLine withProperty) component =
      fill component text := by
  refine foldl_optional (fun found hfound => ?_) (fun hnone => ?_)
  · rw [textProperty, hread, unescapeText_escapeText (hreturn found hfound), hfound]
  · rw [hnone, hempty]

end

end Interop

end Keeplin
