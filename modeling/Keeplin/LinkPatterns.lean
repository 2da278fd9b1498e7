/-
The patterns for bookmarks and links in the body of a note.  Each of them reads what
is written in one way only, so where it matches does not depend on the order in
which a matcher tries its readings.
-/
import Keeplin.Linking
import Keeplin.Regexes

namespace Keeplin

namespace LinkPatterns

open Regex

/-- The characters of `\s`. -/
def isSpace (c : Char) : Bool :=
  c.val ∈ [0x9, 0xa, 0xb, 0xc, 0xd, 0x20, 0x85, 0xa0, 0x1680, 0x2000, 0x2001, 0x2002, 0x2003,
    0x2004, 0x2005, 0x2006, 0x2007, 0x2008, 0x2009, 0x200a, 0x2028, 0x2029, 0x202f, 0x205f,
    0x3000]

/-- The double quote. -/
def quoteMark : Char := '\x22'

def spaces : Regex Char := star (any isSpace)

/-- The items up to one of them: `[^…]*`. -/
def allBut (c : Char) : Regex Char := star (any fun other => other ≠ c)

/-- `"([^"]*)"` -/
def quotedAlias : Regex Char :=
  concat [single quoteMark, group 2 (allBut quoteMark), single quoteMark]

/-- `\[([^\]]*)\]\(\s*###\s*(?:"([^"]*)")?\s*\)` -/
def bookmarkRe : Regex Char :=
  concat [single '[', group 1 (allBut ']'), single ']', single '(', spaces, single '#',
    single '#', single '#', spaces, or quotedAlias skip, spaces, single ')']

/-- What a destination consists of: `[^)\s]` -/
def inDestination (c : Char) : Bool := c ≠ ')' && !isSpace c

/-- `\[[^\]]*\]\(\s*(#[^)\s]+)\s*\)` -/
def contentLinkRe : Regex Char :=
  concat [single '[', allBut ']', single ']', single '(', spaces,
    group 1 (seq (single '#') (plus (any inDestination))), spaces,
    single ')']

def parseBookmarks (body : List Char) : List (List Char × Option (List Char)) :=
  (bookmarkRe.capturesIter body).map fun found =>
    ((found.capture 1).getD [], found.capture 2)

def contentLinkDestinations (body : List Char) : List (List Char) :=
  (contentLinkRe.capturesIter body).map fun found => (found.capture 1).getD []

/-- The patterns of the source, with a parser of identifiers. -/
def linkSyntax (parseUuid : String → Option Uuid) : LinkSyntax where
  bookmarkCaptures body := (parseBookmarks body.toList).map fun found =>
    (String.ofList found.1, found.2.map String.ofList)
  contentLinkCaptures body := (contentLinkDestinations body.toList).map String.ofList
  parseUuid := parseUuid

/-- A bookmark as it is written, with the blanks between its parts. -/
structure WrittenBookmark where
  label : List Char
  gap : List Char
  space : List Char
  «alias» : Option (List Char)
  last : List Char
deriving DecidableEq

/-- What stands between the quotes, with them. -/
def quoted (text : Option (List Char)) : List Char :=
  match text with
  | none => []
  | some text => quoteMark :: text ++ [quoteMark]

namespace WrittenBookmark

variable (bookmark : WrittenBookmark)

def text : List Char :=
  '[' :: bookmark.label ++ ']' :: '(' :: bookmark.gap ++ '#' :: '#' :: '#' :: bookmark.space ++
    quoted bookmark.alias ++ bookmark.last ++ [')']

def reading (rest : List Char) : Reading Char :=
  ⟨bookmark.text,
    (bookmark.alias.map fun name => (2, name)).toList ++ [(1, bookmark.label)], rest⟩

/-- Without an alias all the blanks stand before the place for it. -/
structure Valid : Prop where
  label : ']' ∉ bookmark.label
  gap : ∀ c ∈ bookmark.gap, isSpace c = true
  space : ∀ c ∈ bookmark.space, isSpace c = true
  named : ∀ name, bookmark.alias = some name → quoteMark ∉ name
  last : ∀ c ∈ bookmark.last, isSpace c = true
  unnamed : bookmark.alias = none → bookmark.last = []

end WrittenBookmark

/-- A link as it is written. -/
structure WrittenLink where
  label : List Char
  gap : List Char
  destination : List Char
  last : List Char
deriving DecidableEq

namespace WrittenLink

variable (link : WrittenLink)

def text : List Char :=
  '[' :: link.label ++ ']' :: '(' :: link.gap ++ link.destination ++ link.last ++ [')']

def reading (rest : List Char) : Reading Char :=
  ⟨link.text, [(1, link.destination)], rest⟩

structure Valid : Prop where
  label : ']' ∉ link.label
  gap : ∀ c ∈ link.gap, isSpace c = true
  destination : ∃ name, link.destination = '#' :: name ∧ name ≠ [] ∧
    ∀ c ∈ name, inDestination c = true
  last : ∀ c ∈ link.last, isSpace c = true

end WrittenLink

theorem isSpace_ne {c other : Char} (hc : isSpace c = true) (hother : isSpace other = false) :
    c ≠ other := by
  rintro rfl
  rw [hc] at hother
  contradiction

theorem reads_of_first {regex same : Regex Char}
    {grammar : List Char → List (Nat × List Char) → Prop} (hreads : Regex.Reads regex grammar)
    (hfirst : ∀ text, same.first text = regex.first text) : Regex.Reads same grammar := by
  intro text reading
  rw [hfirst text, hreads text reading]

/-- `\s*\)` -/
def closing : Regex Char := concat [spaces, single ')']

theorem reads_closing : Regex.Reads closing fun taken captures =>
    ∃ last, (∀ c ∈ last, isSpace c = true) ∧ taken = last ++ [')'] ∧ captures = [] := by
  have hclose := (@reads_skip Char).single ')'
  refine (@Regex.Reads.star_before _ _ _ isSpace hclose ?_).of_iff fun taken captures => ⟨?_, ?_⟩
  · rintro _ _ ⟨more, rfl, -⟩
    exact ⟨')', more, rfl, by decide⟩
  · rintro ⟨last, _, rfl, hlast, _, rfl, rfl, rfl⟩
    exact ⟨last, hlast, rfl, rfl⟩
  · rintro ⟨last, hlast, rfl, rfl⟩
    exact ⟨last, [')'], rfl, hlast, [], rfl, rfl, rfl⟩

theorem reads_named : Regex.Reads (seq quotedAlias closing) fun taken captures =>
    ∃ name last, quoteMark ∉ name ∧ (∀ c ∈ last, isSpace c = true) ∧
      taken = quoteMark :: name ++ quoteMark :: last ++ [')'] ∧ captures = [(2, name)] := by
  have hend := reads_closing.single quoteMark
  have hname := @Regex.Reads.group_before _ _ _ (fun other => other ≠ quoteMark) 2 hend <| by
    rintro _ _ ⟨more, rfl, -⟩
    exact ⟨quoteMark, more, rfl, by simp⟩
  have hreads := reads_of_first (hname.single quoteMark) fun text =>
    first_seq_concat [single quoteMark, group 2 (allBut quoteMark), single quoteMark] closing text
  refine hreads.of_iff fun taken captures => ⟨?_, ?_⟩
  · rintro ⟨_, rfl, name, _, _, rfl, rfl, hname, _, rfl, last, hlast, rfl, rfl⟩
    refine ⟨name, last, fun hmem => ?_, hlast, by simp, rfl⟩
    simpa using hname quoteMark hmem
  · rintro ⟨name, last, hname, hlast, rfl, rfl⟩
    refine ⟨name ++ quoteMark :: last ++ [')'], by simp, name, quoteMark :: last ++ [')'], [],
      by simp, rfl, fun c hc => ?_, last ++ [')'], by simp, last, hlast, rfl, rfl⟩
    exact decide_eq_true fun heq => hname (heq ▸ hc)

/-- `(?:"([^"]*)")?\s*\)` -/
theorem reads_naming : Regex.Reads (seq (or quotedAlias skip) closing) fun taken captures =>
    (∃ name last, quoteMark ∉ name ∧ (∀ c ∈ last, isSpace c = true) ∧
      taken = quoteMark :: name ++ quoteMark :: last ++ [')'] ∧ captures = [(2, name)]) ∨
    ∃ last, (∀ c ∈ last, isSpace c = true) ∧ taken = last ++ [')'] ∧ captures = [] := by
  refine @Regex.Reads.or _ _ _ _ _ _ (fun c => c = quoteMark) reads_named reads_closing ?_ ?_ ?_
  · intro text
    rw [first_seq_or, first_seq_skip]
  · rintro _ _ ⟨name, last, -, -, rfl, -⟩
    exact ⟨quoteMark, name ++ quoteMark :: last ++ [')'], by simp, by simp⟩
  · rintro _ _ ⟨last, hlast, rfl, -⟩
    cases last with
    | nil => exact ⟨')', [], rfl, by decide⟩
    | cons c last =>
        have hne : c ≠ quoteMark := isSpace_ne (hlast c List.mem_cons_self) (by decide)
        exact ⟨c, last ++ [')'], rfl, by simp [hne]⟩

/-- What follows `###`. -/
theorem reads_naming_spaced : Regex.Reads (seq spaces (seq (or quotedAlias skip) closing))
    fun taken captures => ∃ space name last, (∀ c ∈ space, isSpace c = true) ∧
      (∀ text, name = some text → quoteMark ∉ text) ∧ (∀ c ∈ last, isSpace c = true) ∧
      (name = none → last = []) ∧ taken = space ++ quoted name ++ last ++ [')'] ∧
      captures = (name.map fun text => (2, text)).toList := by
  refine (@Regex.Reads.star _ _ _ isSpace reads_naming ?_ ?_).of_iff fun taken captures => ⟨?_, ?_⟩
  · rintro c more captures hc (⟨name, last, -, -, hsame, -⟩ | ⟨last, hlast, hsame, rfl⟩)
    · rw [(List.cons.inj hsame).1] at hc
      exact absurd hc (by decide)
    · cases last with
      | nil =>
          rw [(List.cons.inj hsame).1] at hc
          exact absurd hc (by decide)
      | cons other last =>
          exact .inr ⟨last, fun d hd => hlast d (List.mem_cons_of_mem _ hd),
            (List.cons.inj hsame).2, rfl⟩
  · rintro captures (⟨name, last, -, -, hsame, -⟩ | ⟨last, -, hsame, -⟩) <;> simp at hsame
  · rintro ⟨space, c, more, rfl, hspace, hc,
      ⟨name, last, hname, hlast, hsame, rfl⟩ | ⟨last, hlast, hsame, rfl⟩⟩
    · refine ⟨space, some name, last, hspace, ?_, hlast, by simp, ?_, rfl⟩
      · rintro _ ⟨⟩
        exact hname
      · rw [hsame]
        simp [quoted]
    · cases last with
      | cons other last =>
          rw [(List.cons.inj hsame).1, hlast other List.mem_cons_self] at hc
          contradiction
      | nil =>
          refine ⟨space, none, [], hspace, by simp, by simp, fun _ => rfl, ?_, rfl⟩
          rw [hsame]
          simp [quoted]
  · rintro ⟨space, name, last, hspace, hname, hlast, hunnamed, rfl, rfl⟩
    cases name with
    | none =>
        rw [hunnamed rfl]
        exact ⟨space, ')', [], by simp [quoted], hspace, by decide,
          .inr ⟨[], by simp, rfl, rfl⟩⟩
    | some name =>
        refine ⟨space, quoteMark, name ++ quoteMark :: last ++ [')'], by simp [quoted], hspace,
          by decide, .inl ⟨name, last, hname name rfl, hlast, ?_, rfl⟩⟩
        simp

theorem reads_bookmark : Regex.Reads bookmarkRe fun taken captures =>
    ∃ bookmark : WrittenBookmark, bookmark.Valid ∧ taken = bookmark.text ∧
      captures = (bookmark.reading []).captures := by
  have hhashes := ((reads_naming_spaced.single '#').single '#').single '#'
  have hgap := @Regex.Reads.star_before _ _ _ isSpace hhashes <| by
    rintro _ _ ⟨more, rfl, -⟩
    exact ⟨'#', more, rfl, by decide⟩
  have hlabel := @Regex.Reads.group_before _ _ _ (fun other => other ≠ ']') 1
      ((hgap.single '(').single ']') <| by
    rintro _ _ ⟨more, rfl, -⟩
    exact ⟨']', more, rfl, by simp⟩
  refine (hlabel.single '[').of_iff fun taken captures => ⟨?_, ?_⟩
  · rintro ⟨_, rfl, label, _, _, rfl, rfl, hlabel, _, rfl, _, rfl, gap, _, rfl, hgap,
      _, rfl, _, rfl, _, rfl, space, name, last, hspace, hname, hlast, hunnamed, rfl, rfl⟩
    refine ⟨⟨label, gap, space, name, last⟩, ⟨fun hmem => ?_, hgap, hspace, hname, hlast,
      hunnamed⟩, by simp [WrittenBookmark.text], by simp [WrittenBookmark.reading]⟩
    simpa using hlabel ']' hmem
  · rintro ⟨⟨label, gap, space, name, last⟩, ⟨hlabel, hgap, hspace, hname, hlast, hunnamed⟩,
      rfl, rfl⟩
    refine ⟨label ++ ']' :: '(' :: (gap ++ '#' :: '#' :: '#' :: (space ++ quoted name ++ last ++
      [')'])), by simp [WrittenBookmark.text], label, ']' :: '(' :: (gap ++ '#' :: '#' :: '#' ::
      (space ++ quoted name ++ last ++ [')'])), (name.map fun text => (2, text)).toList, rfl, rfl,
      fun c hc => decide_eq_true fun heq => hlabel (heq ▸ hc), _, rfl, _, rfl, gap,
      '#' :: '#' :: '#' :: (space ++ quoted name ++ last ++ [')']), rfl, hgap, _, rfl, _, rfl,
      _, rfl, space, name, last, hspace, hname, hlast, hunnamed, rfl, rfl⟩

theorem reads_contentLink : Regex.Reads contentLinkRe fun taken captures =>
    ∃ link : WrittenLink, link.Valid ∧ taken = link.text ∧
      captures = (link.reading []).captures := by
  have hdestination := @Regex.Reads.marked_run _ _ _ _ inDestination '#' 1 reads_closing <| by
    rintro _ _ ⟨last, hlast, rfl, -⟩
    cases last with
    | nil => exact ⟨')', [], rfl, by decide⟩
    | cons c last =>
        exact ⟨c, last ++ [')'], rfl, by simp [inDestination, hlast c List.mem_cons_self]⟩
  have hgap := @Regex.Reads.star_before _ _ _ isSpace hdestination <| by
    rintro _ _ ⟨name, more, _, rfl, -⟩
    exact ⟨'#', name ++ more, rfl, by decide⟩
  have hlabel := @Regex.Reads.star_before _ _ _ (fun other => other ≠ ']')
      ((hgap.single '(').single ']') <| by
    rintro _ _ ⟨more, rfl, -⟩
    exact ⟨']', more, rfl, by simp⟩
  refine (hlabel.single '[').of_iff fun taken captures => ⟨?_, ?_⟩
  · rintro ⟨_, rfl, label, _, rfl, hlabel, _, rfl, _, rfl, gap, _, rfl, hgap, name, _, _, rfl,
      rfl, hne, hname, last, hlast, rfl, rfl⟩
    refine ⟨⟨label, gap, '#' :: name, last⟩, ⟨fun hmem => ?_, hgap, ⟨name, rfl, hne, hname⟩,
      hlast⟩, by simp [WrittenLink.text], by simp [WrittenLink.reading]⟩
    simpa using hlabel ']' hmem
  · rintro ⟨⟨label, gap, _, last⟩, ⟨hlabel, hgap, ⟨name, rfl, hne, hname⟩, hlast⟩, rfl, rfl⟩
    refine ⟨label ++ ']' :: '(' :: (gap ++ '#' :: name ++ (last ++ [')'])),
      by simp [WrittenLink.text], label, _, rfl,
      fun c hc => decide_eq_true fun heq => hlabel (heq ▸ hc), _, rfl, _, rfl, gap,
      '#' :: name ++ (last ++ [')']), by simp, hgap, name, last ++ [')'], [], by simp, rfl, hne,
      hname, last, hlast, rfl, rfl⟩

end LinkPatterns

end Keeplin
