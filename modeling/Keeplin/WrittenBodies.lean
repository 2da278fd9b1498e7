/-
Bodies put together from plain text, bookmarks and links.  What the linking layer
derives from such a body is what was written, in its order.
-/
import Keeplin.LinkPatterns
import Keeplin.TextCuts

namespace Keeplin

namespace LinkPatterns

open Regex

inductive BodyPart where
  | plain (text : List Char)
  | bookmark (mark : WrittenBookmark)
  | link (reference : WrittenLink)

namespace BodyPart

def text (part : BodyPart) : List Char :=
  match part with
  | .plain text => text
  | .bookmark mark => mark.text
  | .link reference => reference.text

/-- Brackets open nothing but bookmarks and links, and links are references. -/
def Clean (part : BodyPart) : Prop :=
  match part with
  | .plain text => '[' ∉ text
  | .bookmark mark =>
      mark.Valid ∧ '[' ∉ mark.label ∧ ∀ name, mark.alias = some name → '[' ∉ name
  | .link reference =>
      reference.Valid ∧ '[' ∉ reference.label ∧ '[' ∉ reference.destination ∧
        (parseLinkRef (String.ofList reference.destination)).isSome

def bookmark? (part : BodyPart) : Option (List Char × Option (List Char)) :=
  match part with
  | .bookmark mark => some (mark.label, mark.alias)
  | _ => none

def link? (part : BodyPart) : Option (List Char) :=
  match part with
  | .link reference => some reference.destination
  | _ => none

end BodyPart

def written (parts : List BodyPart) : List Char :=
  parts.flatMap BodyPart.text

theorem first_bookmark_iff (text : List Char) (reading : Reading Char) :
    bookmarkRe.first text = some reading ↔ ∃ bookmark : WrittenBookmark, ∃ rest,
      bookmark.Valid ∧ text = bookmark.text ++ rest ∧ reading = bookmark.reading rest := by
  rw [reads_bookmark text reading]
  constructor
  · obtain ⟨taken, captures, rest⟩ := reading
    rintro ⟨⟨bookmark, hvalid, rfl, rfl⟩, rfl⟩
    exact ⟨bookmark, rest, hvalid, rfl, rfl⟩
  · rintro ⟨bookmark, rest, hvalid, rfl, rfl⟩
    exact ⟨⟨bookmark, hvalid, rfl, rfl⟩, rfl⟩

theorem first_contentLink_iff (text : List Char) (reading : Reading Char) :
    contentLinkRe.first text = some reading ↔ ∃ link : WrittenLink, ∃ rest,
      link.Valid ∧ text = link.text ++ rest ∧ reading = link.reading rest := by
  rw [reads_contentLink text reading]
  constructor
  · obtain ⟨taken, captures, rest⟩ := reading
    rintro ⟨⟨link, hvalid, rfl, rfl⟩, rfl⟩
    exact ⟨link, rest, hvalid, rfl, rfl⟩
  · rintro ⟨link, rest, hvalid, rfl, rfl⟩
    exact ⟨⟨link, hvalid, rfl, rfl⟩, rfl⟩

theorem first_ne_bracket {c : Char} (hc : c ≠ '[') (rest : List Char) :
    bookmarkRe.first (c :: rest) = none ∧ contentLinkRe.first (c :: rest) = none := by
  constructor
  · exact first_seq_single_of_ne hc _ rest
  · exact first_seq_single_of_ne hc _ rest

/-- Two texts with the same separator behind fronts that lack it. -/
theorem append_cons_inj {separator : Char} {front other rest more : List Char}
    (hfront : separator ∉ front) (hother : separator ∉ other)
    (hsame : front ++ separator :: rest = other ++ separator :: more) :
    front = other ∧ rest = more := by
  have hsplit := congrArg (splitFirst separator) hsame
  rw [splitFirst_append hfront, splitFirst_append hother] at hsplit
  exact Prod.mk.inj (Option.some.inj hsplit)

/-- Blanks before something that is none. -/
theorem spaces_inj {front other rest more : List Char} {c d : Char}
    (hfront : ∀ c ∈ front, isSpace c = true) (hother : ∀ c ∈ other, isSpace c = true)
    (hc : isSpace c = false) (hd : isSpace d = false)
    (hsame : front ++ c :: rest = other ++ d :: more) : front = other ∧ c :: rest = d :: more := by
  have htake := congrArg (List.takeWhile isSpace) hsame
  rw [List.takeWhile_append_of_pos hfront, List.takeWhile_append_of_pos hother,
    List.takeWhile_cons_of_neg (by simp [hc]), List.takeWhile_cons_of_neg (by simp [hd]),
    List.append_nil, List.append_nil] at htake
  subst htake
  exact ⟨rfl, List.append_cancel_left hsame⟩

/-- Where a bookmark and a link could be read from the same bracket, the destination
begins like the mark of a bookmark. -/
theorem destination_of_both {bookmark : WrittenBookmark} {link : WrittenLink}
    {rest more : List Char} (hbookmark : bookmark.Valid) (hlink : link.Valid)
    (hsame : bookmark.text ++ rest = link.text ++ more) :
    link.label = bookmark.label ∧ link.gap = bookmark.gap ∧
      ∃ name, link.destination = '#' :: '#' :: name := by
  obtain ⟨name, hname, hne, hkind⟩ := hlink.destination
  simp only [WrittenBookmark.text, WrittenLink.text, hname, List.append_assoc, List.cons_append,
    List.cons.injEq, true_and] at hsame
  obtain ⟨hlabel, hbehind⟩ := append_cons_inj hbookmark.label hlink.label hsame
  simp only [List.cons.injEq, true_and] at hbehind
  obtain ⟨hgap, hmark⟩ := spaces_inj hbookmark.gap hlink.gap (by decide) (by decide) hbehind
  obtain ⟨c, name, rfl⟩ := List.exists_cons_of_ne_nil hne
  simp only [List.cons_append, List.cons.injEq, true_and] at hmark
  exact ⟨hlabel.symm, hgap.symm, name, by rw [hname, hmark.1]⟩

theorem fromRaw_of_marks (name : List Char) :
    NoteLink.fromRaw (String.ofList ('#' :: '#' :: name)) .content = none := by
  have hsplit : ('#' :: name).splitOn '#' = [] :: name.splitOn '#' :=
    List.splitOn_append_cons_self [] name
  have hsegments : linkSegments (String.ofList ('#' :: '#' :: name)) = none := by
    simp [linkSegments, hsplit]
  rw [NoteLink.fromRaw, parseLinkRef, hsegments]
  rfl

/-- Each pattern reads what is written at a bracket in one way at most.  What is a
bookmark is not taken for a link, unless for one that names no target. -/
theorem patterns_unambiguous (text : List Char) :
    (∀ reading, bookmarkRe.first text = some reading ↔
      ∃ bookmark : WrittenBookmark, ∃ rest, bookmark.Valid ∧ text = bookmark.text ++ rest ∧
        reading = bookmark.reading rest) ∧
    (∀ reading, contentLinkRe.first text = some reading ↔
      ∃ link : WrittenLink, ∃ rest, link.Valid ∧ text = link.text ++ rest ∧
        reading = link.reading rest) ∧
    ∀ bookmark link destination, bookmarkRe.first text = some bookmark →
      contentLinkRe.first text = some link → link.capture 1 = some destination →
      NoteLink.fromRaw (String.ofList destination) .content = none := by
  refine ⟨first_bookmark_iff text, first_contentLink_iff text, ?_⟩
  intro bookmark link destination hbookmark hlink hcapture
  obtain ⟨mark, rest, hmark, htext, rfl⟩ := (first_bookmark_iff text _).mp hbookmark
  obtain ⟨reference, more, hreference, hsame, rfl⟩ := (first_contentLink_iff text _).mp hlink
  obtain ⟨-, -, name, hname⟩ := destination_of_both hmark hreference (htext.symm.trans hsame)
  obtain rfl : reference.destination = destination := Option.some.inj hcapture
  rw [hname]
  exact fromRaw_of_marks name

def readBookmark (text : List Char) : Option ((List Char × Option (List Char)) × List Char) :=
  (bookmarkRe.first text).map fun found =>
    (((found.capture 1).getD [], found.capture 2), found.rest)

def readLink (text : List Char) : Option (List Char × List Char) :=
  (contentLinkRe.first text).map fun found => ((found.capture 1).getD [], found.rest)

theorem parseBookmarks_eq_scan (body : List Char) :
    parseBookmarks body = scan readBookmark body := by
  rw [parseBookmarks, capturesIter, scan, ← scanFrom_map]
  congr 1
  funext text
  rw [readBookmark, Option.map_map]
  rfl

theorem contentLinkDestinations_eq_scan (body : List Char) :
    contentLinkDestinations body = scan readLink body := by
  rw [contentLinkDestinations, capturesIter, scan, ← scanFrom_map]
  congr 1
  funext text
  rw [readLink, Option.map_map]
  rfl

theorem readBookmark_ne_bracket {c : Char} (hc : c ≠ '[') (rest : List Char) :
    readBookmark (c :: rest) = none := by
  rw [readBookmark, (first_ne_bracket hc rest).1]
  rfl

theorem readLink_ne_bracket {c : Char} (hc : c ≠ '[') (rest : List Char) :
    readLink (c :: rest) = none := by
  rw [readLink, (first_ne_bracket hc rest).2]
  rfl

theorem scan_of_no_bracket {B : Type} {read : List Char → Option (B × List Char)}
    (hread : ∀ c rest, c ≠ '[' → read (c :: rest) = none) {text : List Char}
    (htext : '[' ∉ text) (rest : List Char) : scan read (text ++ rest) = scan read rest := by
  refine scan_append_of_none fun c hc more => hread c more ?_
  rintro rfl
  exact htext hc

theorem bookmark_capture {bookmark : WrittenBookmark} {rest : List Char} :
    (bookmark.reading rest).capture 1 = some bookmark.label ∧
      (bookmark.reading rest).capture 2 = bookmark.alias := by
  obtain ⟨label, gap, space, name, last⟩ := bookmark
  cases name <;> exact ⟨rfl, rfl⟩

theorem scan_bookmark {bookmark : WrittenBookmark} (hvalid : bookmark.Valid) (rest : List Char) :
    scan readBookmark (bookmark.text ++ rest) =
      (bookmark.label, bookmark.alias) :: scan readBookmark rest := by
  have hfirst := (first_bookmark_iff (bookmark.text ++ rest) _).mpr
    ⟨bookmark, rest, hvalid, rfl, rfl⟩
  refine scan_of_some (by simp [WrittenBookmark.text]) ?_
  rw [readBookmark, hfirst, Option.map_some, bookmark_capture.1, bookmark_capture.2]
  rfl

theorem scan_link {link : WrittenLink} (hvalid : link.Valid) (rest : List Char) :
    scan readLink (link.text ++ rest) = link.destination :: scan readLink rest := by
  have hfirst := (first_contentLink_iff (link.text ++ rest) _).mpr ⟨link, rest, hvalid, rfl, rfl⟩
  refine scan_of_some (by simp [WrittenLink.text]) ?_
  rw [readLink, hfirst]
  rfl

theorem isSpace_bracket {c : Char} (hc : isSpace c = true) : c ≠ '[' :=
  isSpace_ne hc (by decide)

/-- Behind its first bracket a link has no other. -/
theorem link_tail {link : WrittenLink} (hvalid : link.Valid) (hlabel : '[' ∉ link.label)
    (hdestination : '[' ∉ link.destination) :
    ∃ tail, link.text = '[' :: tail ∧ '[' ∉ tail := by
  refine ⟨_, rfl, ?_⟩
  have hgap : '[' ∉ link.gap := fun hmem => isSpace_bracket (hvalid.gap _ hmem) rfl
  have hlast : '[' ∉ link.last := fun hmem => isSpace_bracket (hvalid.last _ hmem) rfl
  simp [hlabel, hdestination, hgap, hlast]

theorem quoted_no_bracket {name : Option (List Char)}
    (hname : ∀ text, name = some text → '[' ∉ text) : '[' ∉ quoted name := by
  cases name with
  | none => exact List.not_mem_nil
  | some text =>
      have hmark : '[' ≠ quoteMark := by decide
      simp [quoted, hname text rfl, hmark]

theorem bookmark_tail {bookmark : WrittenBookmark} (hvalid : bookmark.Valid)
    (hlabel : '[' ∉ bookmark.label) (hname : ∀ name, bookmark.alias = some name → '[' ∉ name) :
    ∃ tail, bookmark.text = '[' :: tail ∧ '[' ∉ tail := by
  refine ⟨_, rfl, ?_⟩
  have hgap : '[' ∉ bookmark.gap := fun hmem => isSpace_bracket (hvalid.gap _ hmem) rfl
  have hspace : '[' ∉ bookmark.space := fun hmem => isSpace_bracket (hvalid.space _ hmem) rfl
  have hlast : '[' ∉ bookmark.last := fun hmem => isSpace_bracket (hvalid.last _ hmem) rfl
  simp [hlabel, hgap, hspace, hlast, quoted_no_bracket hname]

/-- Up to the first separator two texts are alike, and the shorter front leaves the
rest of the other. -/
theorem append_cons_cases {separator : Char} {front other rest more : List Char}
    (hfront : separator ∉ front)
    (hsame : front ++ separator :: rest = other ++ separator :: more) :
    ∃ behind, other ++ [separator] = front ++ separator :: behind ∧ rest = behind ++ more := by
  rcases List.append_eq_append_iff.mp hsame with ⟨between, hother, hrest⟩ | ⟨between, hfirst, hmore⟩
  · cases between with
    | nil =>
        refine ⟨[], by rw [hother, List.append_nil], ?_⟩
        simpa using hrest
    | cons c between =>
        obtain ⟨rfl, htail⟩ := List.cons.inj hrest
        refine ⟨between ++ [separator], ?_, ?_⟩
        · rw [hother, List.append_assoc, List.cons_append]
        · rw [List.append_assoc, List.singleton_append]
          exact htail
  · cases between with
    | nil =>
        refine ⟨[], by rw [hfirst, List.append_nil], ?_⟩
        simpa using hmore.symm
    | cons c between =>
        obtain ⟨rfl, -⟩ := List.cons.inj hmore
        exact absurd (by simp [hfirst]) hfront

/-- What is read as a link at a written bookmark ends within the bookmark. -/
theorem link_within_bookmark {bookmark : WrittenBookmark} {link : WrittenLink}
    {rest more : List Char} (hbookmark : bookmark.Valid) (hlink : link.Valid)
    (hsame : bookmark.text ++ rest = link.text ++ more) :
    ∃ behind, bookmark.text = link.text ++ behind ∧ more = behind ++ rest := by
  obtain ⟨hlabel, hgap, -⟩ := destination_of_both hbookmark hlink hsame
  obtain ⟨name, hname, -, hkind⟩ := hlink.destination
  have hfront : ')' ∉ link.destination ++ link.last := by
    rw [List.mem_append, hname]
    rintro (hmem | hmem)
    · rcases List.mem_cons.mp hmem with hmem | hmem
      · exact absurd hmem (by decide)
      · exact absurd (hkind _ hmem) (by decide)
    · exact absurd (hlink.last _ hmem) (by decide)
  have hbehind : (link.destination ++ link.last) ++ ')' :: more =
      ('#' :: '#' :: '#' :: (bookmark.space ++ quoted bookmark.alias ++ bookmark.last)) ++
        ')' :: rest := by
    simpa [WrittenBookmark.text, WrittenLink.text, hlabel, hgap] using hsame.symm
  obtain ⟨behind, htext, hmore⟩ := append_cons_cases hfront hbehind
  refine ⟨behind, ?_, hmore⟩
  simpa [WrittenBookmark.text, WrittenLink.text, hlabel, hgap] using htext

/-- Reading links at a written bookmark yields destinations that name no target. -/
theorem scan_link_bookmark {bookmark : WrittenBookmark} (hvalid : bookmark.Valid)
    (hlabel : '[' ∉ bookmark.label) (hname : ∀ name, bookmark.alias = some name → '[' ∉ name)
    (rest : List Char) :
    ∃ strays, scan readLink (bookmark.text ++ rest) = strays ++ scan readLink rest ∧
      ∀ stray ∈ strays, ∃ name, stray = '#' :: '#' :: name := by
  obtain ⟨tail, htext, htail⟩ := bookmark_tail hvalid hlabel hname
  cases hfirst : contentLinkRe.first (bookmark.text ++ rest) with
  | none =>
      refine ⟨[], ?_, by simp⟩
      have hread : readLink ('[' :: (tail ++ rest)) = none := by
        rw [htext, List.cons_append] at hfirst
        rw [readLink, hfirst]
        rfl
      rw [htext, List.cons_append, scan_cons_of_none hread,
        scan_of_no_bracket (fun c rest hc => readLink_ne_bracket hc rest) htail]
      rfl
  | some reading =>
      obtain ⟨link, more, hlink, hsame, -⟩ := (first_contentLink_iff _ reading).mp hfirst
      obtain ⟨behind, hbehind, rfl⟩ := link_within_bookmark hvalid hlink hsame
      obtain ⟨-, -, name, hdestination⟩ := destination_of_both hvalid hlink hsame
      have hbracket : '[' ∉ behind := by
        obtain ⟨front, hfront⟩ : ∃ front, link.text = '[' :: front := ⟨_, rfl⟩
        rw [hbehind, hfront, List.cons_append] at htext
        rw [← (List.cons.inj htext).2] at htail
        exact fun hmem => htail (List.mem_append_right front hmem)
      refine ⟨[link.destination], ?_, by simp [hdestination]⟩
      rw [hsame, scan_link hlink,
        scan_of_no_bracket (fun c rest hc => readLink_ne_bracket hc rest) hbracket]
      rfl

/-- No bookmark is read at a written link. -/
theorem scan_bookmark_link {link : WrittenLink} (hvalid : link.Valid) (hlabel : '[' ∉ link.label)
    (hdestination : '[' ∉ link.destination)
    (href : (parseLinkRef (String.ofList link.destination)).isSome) (rest : List Char) :
    scan readBookmark (link.text ++ rest) = scan readBookmark rest := by
  obtain ⟨tail, htext, htail⟩ := link_tail hvalid hlabel hdestination
  have hfirst : bookmarkRe.first ('[' :: (tail ++ rest)) = none := by
    cases hfirst : bookmarkRe.first ('[' :: (tail ++ rest)) with
    | none => rfl
    | some reading =>
        obtain ⟨bookmark, more, hbookmark, hsame, -⟩ := (first_bookmark_iff _ reading).mp hfirst
        rw [← List.cons_append, ← htext] at hsame
        obtain ⟨-, -, name, hname⟩ := destination_of_both hbookmark hvalid hsame.symm
        have hraw := fromRaw_of_marks name
        rw [← hname, NoteLink.fromRaw, Option.map_eq_none_iff] at hraw
        rw [hraw] at href
        contradiction
  have hread : readBookmark ('[' :: (tail ++ rest)) = none := by
    rw [readBookmark, hfirst]
    rfl
  rw [htext, List.cons_append, scan_cons_of_none hread,
    scan_of_no_bracket (fun c rest hc => readBookmark_ne_bracket hc rest) htail]

theorem parseBookmarks_written {parts : List BodyPart} (hclean : ∀ part ∈ parts, part.Clean) :
    parseBookmarks (written parts) = parts.filterMap BodyPart.bookmark? := by
  rw [parseBookmarks_eq_scan]
  induction parts with
  | nil => rfl
  | cons part parts ih =>
      have hrest := ih fun other hother => hclean other (List.mem_cons_of_mem part hother)
      have hpart := hclean part List.mem_cons_self
      rw [written, List.flatMap_cons, ← written]
      cases part with
      | plain text =>
          rw [BodyPart.text,
            scan_of_no_bracket (fun c rest hc => readBookmark_ne_bracket hc rest) hpart]
          exact hrest
      | bookmark mark =>
          rw [BodyPart.text, scan_bookmark hpart.1, hrest]
          rfl
      | link reference =>
          obtain ⟨hvalid, hlabel, hdestination, href⟩ := hpart
          exact (scan_bookmark_link hvalid hlabel hdestination href _).trans hrest

/-- What becomes of the destinations found in a body. -/
def contentLinks (destinations : List (List Char)) : List NoteLink :=
  ((destinations.map String.ofList).filter fun destination => destination ≠ "###").filterMap
    fun raw => NoteLink.fromRaw raw .content

theorem contentLinks_append (first second : List (List Char)) :
    contentLinks (first ++ second) = contentLinks first ++ contentLinks second := by
  simp only [contentLinks, List.map_append, List.filter_append, List.filterMap_append]

theorem contentLinks_of_marks {strays : List (List Char)}
    (hstrays : ∀ stray ∈ strays, ∃ name, stray = '#' :: '#' :: name) :
    contentLinks strays = [] := by
  rw [contentLinks, List.filterMap_eq_nil_iff]
  intro raw hraw
  obtain ⟨stray, hmem, rfl⟩ := List.mem_map.mp (List.mem_filter.mp hraw).1
  obtain ⟨name, rfl⟩ := hstrays stray hmem
  exact fromRaw_of_marks name

theorem contentLinks_reference {destination : List Char}
    (href : (parseLinkRef (String.ofList destination)).isSome) :
    contentLinks [destination] = [⟨.content, String.ofList destination, none⟩] := by
  obtain ⟨segments, hsegments⟩ := Option.isSome_iff_exists.mp href
  have hne : String.ofList destination ≠ "###" := by
    intro heq
    rw [heq] at href
    exact absurd href (by decide)
  simp [contentLinks, hne, NoteLink.fromRaw, hsegments]

theorem contentLinks_written {parts : List BodyPart} (hclean : ∀ part ∈ parts, part.Clean) :
    contentLinks (contentLinkDestinations (written parts)) =
      (parts.filterMap BodyPart.link?).map fun destination =>
        ⟨.content, String.ofList destination, none⟩ := by
  rw [contentLinkDestinations_eq_scan]
  induction parts with
  | nil => rfl
  | cons part parts ih =>
      have hrest := ih fun other hother => hclean other (List.mem_cons_of_mem part hother)
      have hpart := hclean part List.mem_cons_self
      rw [written, List.flatMap_cons, ← written]
      cases part with
      | plain text =>
          rw [BodyPart.text,
            scan_of_no_bracket (fun c rest hc => readLink_ne_bracket hc rest) hpart, hrest]
          rfl
      | bookmark mark =>
          obtain ⟨hvalid, hlabel, hname⟩ := hpart
          obtain ⟨strays, hscan, hstrays⟩ :=
            scan_link_bookmark hvalid hlabel hname (written parts)
          rw [BodyPart.text, hscan, contentLinks_append, contentLinks_of_marks hstrays, hrest]
          rfl
      | link reference =>
          obtain ⟨hvalid, -, -, href⟩ := hpart
          rw [BodyPart.text, scan_link hvalid, ← List.singleton_append, contentLinks_append,
            contentLinks_reference href, hrest]
          rfl

/-- The alias a written bookmark goes by: its own, unless it has none or an empty one. -/
def aliasOf (mark : List Char × Option (List Char)) : String :=
  match mark.2 with
  | some (c :: name) => String.ofList (c :: name)
  | _ => String.ofList mark.1

/-- From a body put together from parts the linking layer derives what was written:
the bookmarks, numbered from one, and the links, behind those made by hand. -/
theorem refresh_written (parseUuid : String → Option Uuid) (parts : List BodyPart)
    (hclean : ∀ part ∈ parts, part.Clean) (note : Note)
    (hbody : note.body = String.ofList (written parts)) :
    (linkSyntax parseUuid).refresh note =
      { note with
        bookmarks := (parts.filterMap BodyPart.bookmark?).zipIdx.map fun (mark, position) =>
          ⟨position + 1, String.ofList mark.1, aliasOf mark⟩
        links := (note.links.filter fun link => link.source = .manual) ++
          (parts.filterMap BodyPart.link?).map fun destination =>
            ⟨.content, String.ofList destination, none⟩ } := by
  have hlinks := contentLinks_written hclean
  have hbookmarks := parseBookmarks_written hclean
  have hcharacters : note.body.toList = written parts := by rw [hbody, String.toList_ofList]
  rw [LinkSyntax.refresh]
  congr 1
  · simp only [linkSyntax, hcharacters, hbookmarks, List.zipIdx_map, List.map_map]
    refine List.map_congr_left ?_
    rintro ⟨⟨label, name⟩, position⟩ -
    rcases name with _ | ⟨_ | ⟨c, name⟩⟩
    · rfl
    · rfl
    · have hname : (String.ofList (c :: name)).isEmpty = false := by simp
      have hfilter : (some (String.ofList (c :: name))).filter (fun alias_ => !alias_.isEmpty) =
          some (String.ofList (c :: name)) := by
        rw [Option.filter_some, hname]
        rfl
      exact congrArg (Bookmark.mk _ _) (congrArg (Option.getD · _) hfilter)
  · rw [← hlinks, contentLinks, LinkSyntax.parseContentLinks]
    simp only [linkSyntax, hcharacters]

/-- A link, a bookmark that the pattern of links takes for one, and text between them. -/
def writtenSample : List BodyPart :=
  [.plain ['s', 'e', 'e', ' '], .link ⟨['a'], [], ['#', 'b', '#', 'n'], []⟩, .plain [' ', ']'],
    .bookmark ⟨['c'], [' '], [], some ['d'], []⟩, .bookmark ⟨['e'], [], [], some [], [' ']⟩]

def writtenNote : Note :=
  ⟨1, "", String.ofList (written writtenSample), 2, false, none, none, 0, 0, none, none, [],
    [⟨.manual, "#a", some 3⟩, ⟨.content, "#old", none⟩], ∅, "", false, false, 0⟩

theorem writtenSample_clean : ∀ part ∈ writtenSample, part.Clean := by
  intro part hpart
  simp only [writtenSample, List.mem_cons, List.not_mem_nil, or_false] at hpart
  rcases hpart with rfl | rfl | rfl | rfl | rfl
  · simp [BodyPart.Clean]
  · refine ⟨⟨by simp, by simp, ⟨['b', '#', 'n'], rfl, by simp, ?_⟩, by simp⟩, by simp, by simp,
      by decide⟩
    exact List.all_eq_true.mp (by decide)
  · simp [BodyPart.Clean]
  · refine ⟨⟨by simp, List.all_eq_true.mp (by decide), by simp, ?_, by simp, by simp⟩,
      by simp, ?_⟩
    · rintro _ ⟨⟩
      decide
    · rintro _ ⟨⟩
      decide
  · refine ⟨⟨by simp, by simp, by simp, ?_, List.all_eq_true.mp (by decide), by simp⟩,
      by simp, ?_⟩
    · rintro _ ⟨⟩
      decide
    · rintro _ ⟨⟩
      decide

theorem refresh_written_sample :
    (linkSyntax fun _ => none).refresh writtenNote =
      { writtenNote with
        bookmarks := [⟨1, "c", "d"⟩, ⟨2, "e", "e"⟩]
        links := [⟨.manual, "#a", some 3⟩, ⟨.content, "#b#n", none⟩] } :=
  refresh_written (fun _ => none) writtenSample writtenSample_clean writtenNote rfl

end LinkPatterns

end Keeplin
